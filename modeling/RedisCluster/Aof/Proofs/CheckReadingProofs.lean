import RedisCluster.Aof.CheckAof
import RedisCluster.Aof.Proofs.FormatProofs

/-!
# Reading one line, one string, one command
-/

namespace RedisCluster.Aof.Check

open RedisCluster.Util
open RedisCluster.Multi (tolower cstr sameCaseless)

theorem fgets_append (n : Nat) (fp : Bytes) : (fgets n fp).1 ++ (fgets n fp).2 = fp := by
  induction n generalizing fp with
  | zero => rfl
  | succ n ih =>
    cases fp with
    | nil => rfl
    | cons c fp =>
      rw [fgets]
      split
      · rfl
      · exact congrArg (c :: ·) (ih fp)

theorem fgets_length (n : Nat) (fp : Bytes) : (fgets n fp).1.length ≤ n := by
  induction n generalizing fp with
  | zero => exact Nat.le_refl 0
  | succ n ih =>
    cases fp with
    | nil => exact Nat.zero_le _
    | cons c fp =>
      rw [fgets]
      split
      · exact Nat.succ_le_succ (Nat.zero_le n)
      · exact Nat.succ_le_succ (ih fp)

theorem fgets_lf (n : Nat) (fp : Bytes) {u w : Bytes} (h : (fgets n fp).1 = u ++ LF :: w) :
    LF ∉ u ∧ w = [] := by
  induction n generalizing fp u with
  | zero =>
    have hlen := congrArg List.length h
    simp only [fgets, List.length_nil, List.length_append, List.length_cons] at hlen
    omega
  | succ n ih =>
    cases fp with
    | nil =>
      have hlen := congrArg List.length h
      simp only [fgets, List.length_nil, List.length_append, List.length_cons] at hlen
      omega
    | cons c fp =>
      rw [fgets] at h
      split at h
      · rename_i hc
        cases u with
        | nil =>
          rw [List.nil_append, List.cons.injEq] at h
          exact ⟨List.not_mem_nil, h.2.symm⟩
        | cons b u =>
          rw [List.cons_append, List.cons.injEq] at h
          have hlen := congrArg List.length h.2
          simp only [List.length_nil, List.length_append, List.length_cons] at hlen
          omega
      · rename_i hc
        cases u with
        | nil =>
          rw [List.nil_append, List.cons.injEq] at h
          exact absurd h.1 hc
        | cons b u =>
          rw [List.cons_append, List.cons.injEq] at h
          obtain ⟨hu, hw⟩ := ih fp h.2
          refine ⟨fun hmem => ?_, hw⟩
          rcases List.mem_cons.mp hmem with hb | hb
          · exact hc (h.1.trans hb.symm)
          · exact hu hb

theorem strtoll_eptr_suffix (s : Bytes) : (strtoll s).eptr <:+ s := by
  have hclamp (n : Int) (rest : Bytes) : (clampLongLong n rest).eptr = rest := by
    unfold clampLongLong
    split
    · rfl
    · split
      · rfl
      · rfl
  unfold strtoll
  extract_lets t u ds
  split
  · exact List.suffix_refl s
  · rw [hclamp]
    have hut : u <:+ t := by
      show (if _ then _ else _) <:+ t
      split
      · exact List.tail_suffix t
      · exact List.suffix_refl t
    exact (List.dropWhile_suffix isDigit).trans (hut.trans (List.dropWhile_suffix isspace))

theorem consumeNewline_iff {buf : Bytes} : consumeNewline buf = true ↔ ∃ rest, buf = crlf ++ rest := by
  rw [consumeNewline, decide_eq_true_iff]
  constructor
  · intro h
    exact ⟨buf.drop 2, by rw [← h, List.take_append_drop]⟩
  · rintro ⟨rest, rfl⟩
    rfl

theorem NumberLine.ne_nil {initial : UInt8} {n : Int} {line : Bytes} (h : NumberLine initial n line) :
    line ≠ [] := by
  obtain ⟨number, rfl, _⟩ := h
  exact List.cons_ne_nil _ _

theorem NumberLine.head {initial : UInt8} {n : Int} {line : Bytes} (h : NumberLine initial n line) :
    line.head? = some initial := by
  obtain ⟨number, rfl, _⟩ := h
  rfl

theorem NumberLine.strtoll_tail {initial : UInt8} {n : Int} {line : Bytes}
    (h : NumberLine initial n line) :
    (strtoll line.tail).value = n ∧ (strtoll line.tail).eptr = crlf := by
  obtain ⟨number, rfl, -, -, hvalue, heptr⟩ := h
  exact ⟨hvalue, heptr⟩

theorem NumberLine.fgets {initial : UInt8} (hinitial : initial ≠ LF) {n : Int} {line : Bytes}
    (h : NumberLine initial n line) (rest : Bytes) : fgets 127 (line ++ rest) = (line, rest) := by
  obtain ⟨number, rfl, hno, hlength, -⟩ := h
  have hnolf : LF ∉ initial :: number ++ [CR] := by
    simp only [List.cons_append, List.mem_cons, List.mem_append, List.not_mem_nil, or_false, not_or]
    exact ⟨hinitial.symm, hno, by decide⟩
  have hread := fgets_line hnolf (n := 127) (by simp; omega) rest
  have hshape : initial :: number ++ crlf ++ rest = initial :: number ++ [CR] ++ LF :: rest := by
    simp [crlf]
  have hend : initial :: number ++ crlf = initial :: number ++ [CR] ++ [LF] := by simp [crlf]
  rw [hshape, hend, hread]

theorem readLong_iff {initial : UInt8} (hinitial : initial ≠ LF) {fp rest : Bytes} {n : Int} :
    readLong initial fp = some (n, rest) ↔ ∃ line, NumberLine initial n line ∧ fp = line ++ rest := by
  constructor
  · intro h
    have happend := fgets_append 127 fp
    have hlength := fgets_length 127 fp
    have hlf := fun u w => @fgets_lf 127 fp u w
    unfold readLong at h
    generalize fgets 127 fp = r at h happend hlength hlf
    simp only [] at h
    split at h
    · cases h
    · split at h
      · cases h
      · rename_i hne hhead
        have hhead : r.1.head? = some initial := not_not.mp hhead
        split at h
        · rename_i hend
          obtain ⟨after, hafter⟩ := consumeNewline_iff.mp hend
          obtain ⟨number, hnumber⟩ := strtoll_eptr_suffix r.1.tail
          have hline : r.1 = initial :: number ++ (crlf ++ after) := by
            rw [← hafter, List.cons_append, hnumber]
            exact (List.cons_head?_tail hhead).symm
          have hshape : r.1 = (initial :: number ++ [CR]) ++ LF :: after := by
            rw [hline]
            simp [crlf]
          obtain ⟨hno, hnil⟩ := hlf _ _ hshape
          subst hnil
          rw [Option.some.injEq, Prod.mk.injEq] at h
          rw [List.append_nil] at hline hafter
          have htail : r.1.tail = number ++ crlf := by
            rw [hline]
            rfl
          rw [htail] at hafter h
          refine ⟨r.1, ⟨number, hline, ?_, ?_, h.1, hafter⟩, ?_⟩
          · intro hmem
            exact hno (by simp [hmem])
          · rw [hline] at hlength
            simp only [crlf, List.length_append, List.length_cons, List.length_nil] at hlength
            omega
          · rw [← happend, h.2]
        · cases h
  · rintro ⟨line, hline, rfl⟩
    obtain ⟨htail, heptr⟩ := hline.strtoll_tail
    rw [readLong, hline.fgets hinitial rest]
    simp only [heptr, htail]
    rw [if_neg hline.ne_nil, if_neg (not_not.mpr hline.head), if_pos (by decide)]

theorem NumberLine.unique {initial : UInt8} (hinitial : initial ≠ LF) {n n' : Int}
    {line line' rest rest' : Bytes} (h : NumberLine initial n line) (h' : NumberLine initial n' line')
    (heq : line ++ rest = line' ++ rest') : n = n' ∧ line = line' ∧ rest = rest' := by
  have hread : readLong initial (line ++ rest) = some (n, rest) :=
    (readLong_iff hinitial).mpr ⟨line, h, rfl⟩
  have hread' : readLong initial (line ++ rest) = some (n', rest') :=
    (readLong_iff hinitial).mpr ⟨line', h', heq⟩
  rw [hread, Option.some.injEq, Prod.mk.injEq] at hread'
  obtain ⟨hn, hrest⟩ := hread'
  rw [← hrest] at heq
  exact ⟨hn, List.append_cancel_right heq, hrest⟩

theorem readString_undefined {fp : Bytes} : readString fp = .error .undefined ↔ BadLength fp := by
  cases hread : readLong 36 fp with
  | none =>
    rw [readString, hread]
    refine ⟨nofun, ?_⟩
    rintro ⟨len, line, rest, hline, hfp, _⟩
    rw [(readLong_iff (by decide)).mpr ⟨line, hline, hfp⟩] at hread
    cases hread
  | some q =>
    obtain ⟨len, rest⟩ := q
    obtain ⟨line, hline, hfp⟩ := (readLong_iff (by decide)).mp hread
    have hbad : BadLength fp ↔ (len < 0 ∧ ¬(len = -1 ∧ rest = [])) ∨ 2 ^ 63 ≤ len + 2 := by
      constructor
      · rintro ⟨len', line', rest', hline', hfp', hcase⟩
        obtain ⟨rfl, rfl, rfl⟩ := hline.unique (by decide) hline' (hfp.symm.trans hfp')
        exact hcase
      · exact fun h => ⟨len, line, rest, hline, hfp, h⟩
    rw [hbad, readString, hread]
    simp only []
    by_cases hend : len = -1 ∧ rest = []
    · rw [if_pos hend]
      refine ⟨nofun, ?_⟩
      rintro (⟨_, h⟩ | h)
      · exact absurd hend h
      · omega
    · rw [if_neg hend]
      by_cases hover : len < 0 ∨ 2 ^ 63 ≤ len + 2
      · rw [if_pos hover]
        exact ⟨fun _ => hover.imp_left fun h => ⟨h, hend⟩, fun _ => rfl⟩
      · rw [if_neg hover]
        refine ⟨fun h => ?_, fun h => absurd (h.imp_left And.left) hover⟩
        split at h
        · cases h
        · split at h
          · cases h
          · cases h

theorem readString_ok {fp o rest : Bytes} (hfp : fp.length < 2 ^ 63) :
    readString fp = .ok (o, rest) ↔ ∃ line, NumberLine 36 o.length line ∧ fp = line ++ o ++ crlf ++ rest := by
  constructor
  · intro h
    rw [readString] at h
    cases hread : readLong 36 fp with
    | none =>
      rw [hread] at h
      cases h
    | some q =>
      obtain ⟨len, after⟩ := q
      obtain ⟨line, hline, rfl⟩ := (readLong_iff (by decide)).mp hread
      rw [hread] at h
      simp only [] at h
      split at h
      · cases h
      · split at h
        · cases h
        · rename_i hover
          split at h
          · cases h
          · rename_i hshort
            split at h
            · rename_i hend
              rw [Except.ok.injEq, Prod.mk.injEq] at h
              obtain ⟨rfl, rfl⟩ := h
              obtain ⟨after', hafter⟩ := consumeNewline_iff.mp hend
              have hlen : ((after.take len.toNat).length : Int) = len := by
                rw [List.length_take]
                omega
              refine ⟨line, by rw [hlen]; exact hline, ?_⟩
              have hdrop : after.drop len.toNat = crlf ++ after.drop (len.toNat + 2) := by
                rw [← List.drop_drop, hafter]
                rfl
              rw [List.append_assoc, List.append_assoc, ← hdrop, List.take_append_drop]
            · cases h
  · rintro ⟨line, hline, rfl⟩
    have hread : readLong 36 (line ++ o ++ crlf ++ rest) = some ((o.length : Int), o ++ (crlf ++ rest)) :=
      (readLong_iff (by decide)).mpr ⟨line, hline, by rw [List.append_assoc, List.append_assoc]⟩
    have hlong : (o ++ (crlf ++ rest)).length = o.length + 2 + rest.length := by
      rw [List.length_append, List.length_append, ← Nat.add_assoc]
      rfl
    have hsize : o.length + 2 < 2 ^ 63 := by
      rw [List.append_assoc, List.append_assoc, List.length_append, hlong] at hfp
      omega
    rw [readString, hread]
    simp only [Int.toNat_natCast]
    rw [if_neg (by omega), if_neg (by omega), if_neg (by rw [hlong]; omega), List.drop_left,
      if_pos (consumeNewline_iff.mpr ⟨rest, rfl⟩), List.take_left, ← List.drop_drop, List.drop_left]
    rfl

theorem readString_ne_ok {fp : Bytes} {e : Fault} (hfp : fp.length < 2 ^ 63)
    (h : readString fp = .error e) {o line rest : Bytes} (hline : NumberLine 36 o.length line)
    (heq : fp = line ++ o ++ crlf ++ rest) : False := by
  rw [(readString_ok hfp).mpr ⟨line, hline, heq⟩] at h
  cases h

theorem length_rest {text rest : Bytes} (h : (text ++ rest).length < 2 ^ 63) : rest.length < 2 ^ 63 := by
  rw [List.length_append] at h
  omega

theorem readStrings_ok {n i : Nat} (hi : i ≠ 0) (hint : i < 2 ^ 31) {multi m : Int} {fp rest : Bytes}
    (hfp : fp.length < 2 ^ 63) :
    readStrings n i multi fp = .ok (m, rest) ↔
      m = multi ∧ i + n < 2 ^ 31 ∧ ∃ os text, os.length = n ∧ BulkTexts os text ∧ fp = text ++ rest := by
  induction n generalizing i fp with
  | zero =>
    rw [readStrings, Except.ok.injEq, Prod.mk.injEq]
    constructor
    · rintro ⟨rfl, rfl⟩
      exact ⟨rfl, hint, [], [], rfl, .nil, rfl⟩
    · rintro ⟨rfl, -, os, text, hos, htext, rfl⟩
      rw [List.length_eq_zero_iff] at hos
      subst hos
      cases htext
      exact ⟨rfl, rfl⟩
  | succ n ih =>
    rw [readStrings]
    cases hread : readString fp with
    | error e =>
      refine ⟨nofun, ?_⟩
      rintro ⟨-, -, os, text, hos, htext, rfl⟩
      cases htext with
      | nil => cases hos
      | cons hline hrest => exact (readString_ne_ok hfp hread hline (List.append_assoc _ _ _)).elim
    | ok q =>
      obtain ⟨str, fp'⟩ := q
      obtain ⟨line, hline, hshape⟩ := (readString_ok hfp).mp hread
      have hfp' : fp'.length < 2 ^ 63 := length_rest (hshape ▸ hfp)
      simp only []
      rw [if_neg hi]
      simp only []
      by_cases hlast : i + 1 = 2 ^ 31
      · rw [if_pos hlast]
        refine ⟨nofun, ?_⟩
        rintro ⟨-, hsum, -⟩
        omega
      · rw [if_neg hlast, ih (Nat.succ_ne_zero i) (by omega) hfp']
        constructor
        · rintro ⟨hm, hsum, os, text, hos, htext, rfl⟩
          refine ⟨hm, by omega, str :: os, _, by rw [List.length_cons, hos], .cons hline htext, ?_⟩
          rw [hshape, List.append_assoc _ text rest]
        · rintro ⟨hm, hsum, os, text, hos, htext, hfpeq⟩
          cases htext with
          | nil => cases hos
          | cons hline' hrest' =>
            rename_i o line' os text
            have hread' := (readString_ok hfp).mpr ⟨line', hline', hfpeq.trans (List.append_assoc _ _ _)⟩
            rw [hread, Except.ok.injEq, Prod.mk.injEq] at hread'
            exact ⟨hm, by omega, os, text, Nat.succ.inj hos, hrest', hread'.2⟩

theorem readStrings_undefined {n i : Nat} (hi : i ≠ 0) (hint : i < 2 ^ 31) {multi : Int} {fp : Bytes}
    (hfp : fp.length < 2 ^ 63) :
    readStrings n i multi fp = .error .undefined ↔
      ∃ os text rest, BulkTexts os text ∧ fp = text ++ rest ∧
        ((os.length < n ∧ BadLength rest) ∨ (os.length ≤ n ∧ i + os.length = 2 ^ 31)) := by
  induction n generalizing i fp with
  | zero =>
    refine ⟨nofun, ?_⟩
    rintro ⟨os, text, rest, -, -, ⟨h, -⟩ | ⟨h, hsum⟩⟩
    · omega
    · omega
  | succ n ih =>
    rw [readStrings]
    cases hread : readString fp with
    | error e =>
      constructor
      · intro h
        rw [Except.error.injEq] at h
        rw [h] at hread
        exact ⟨[], [], fp, .nil, rfl, .inl ⟨Nat.succ_pos n, readString_undefined.mp hread⟩⟩
      · rintro ⟨os, text, rest, htext, rfl, hcase⟩
        cases htext with
        | nil =>
          rcases hcase with ⟨-, hbad⟩ | ⟨-, hsum⟩
          · have he := hread.symm.trans (readString_undefined.mpr hbad)
            rw [Except.error.injEq] at he
            rw [he]
          · simp only [List.length_nil] at hsum
            omega
        | cons hline hrest => exact (readString_ne_ok hfp hread hline (List.append_assoc _ _ _)).elim
    | ok q =>
      obtain ⟨str, fp'⟩ := q
      obtain ⟨line, hline, hshape⟩ := (readString_ok hfp).mp hread
      have hfp' : fp'.length < 2 ^ 63 := length_rest (hshape ▸ hfp)
      simp only []
      rw [if_neg hi]
      simp only []
      by_cases hlast : i + 1 = 2 ^ 31
      · rw [if_pos hlast]
        refine ⟨fun _ => ⟨[str], _, fp', .cons hline .nil, ?_, .inr ⟨?_, hlast⟩⟩, fun _ => rfl⟩
        · rw [hshape, List.append_nil]
        · exact Nat.succ_le_succ (Nat.zero_le n)
      · rw [if_neg hlast, ih (Nat.succ_ne_zero i) (by omega) hfp']
        constructor
        · rintro ⟨os, text, rest, htext, rfl, hcase⟩
          refine ⟨str :: os, _, rest, .cons hline htext, ?_, ?_⟩
          · rw [hshape, List.append_assoc _ text rest]
          · rw [List.length_cons]
            exact hcase.imp (fun h => ⟨by omega, h.2⟩) fun h => ⟨by omega, by omega⟩
        · rintro ⟨os, text, rest, htext, hfpeq, hcase⟩
          cases htext with
          | nil =>
            rcases hcase with ⟨-, hbad⟩ | ⟨-, hsum⟩
            · rw [hfpeq, List.nil_append, readString_undefined.mpr hbad] at hread
              cases hread
            · simp only [List.length_nil] at hsum
              omega
          | cons hline' hrest' =>
            rename_i o line' os text
            have hread' := (readString_ok hfp).mpr ⟨line', hline', hfpeq.trans (List.append_assoc _ _ _)⟩
            rw [hread, Except.ok.injEq, Prod.mk.injEq] at hread'
            rw [List.length_cons] at hcase
            exact ⟨os, text, rest, hrest', hread'.2,
              hcase.imp (fun h => ⟨by omega, h.2⟩) fun h => ⟨by omega, by omega⟩⟩

end RedisCluster.Aof.Check
