import RedisCluster.Aof.Format
import RedisCluster.Util.Proofs.StringProofs

/-!
# Round trip of the AOF's text form

A number that was written is read back, and so are the arguments of a command.
-/

namespace RedisCluster.Aof

open RedisCluster.Util

theorem foldl_digitBytes (ds : List Nat) (hds : ∀ d ∈ ds, d < 10) (v : Nat) :
    (ds.map digitByte).foldl (fun v (c : UInt8) => v * 10 + (c.toNat - 48)) v =
      ds.foldl (fun v d => v * 10 + d) v := by
  induction ds generalizing v with
  | nil => rfl
  | cons d ds ih =>
    have hd := hds d List.mem_cons_self
    rw [List.map_cons, List.foldl_cons, List.foldl_cons, toNat_digitByte hd,
      Nat.add_sub_cancel_left]
    exact ih (fun e he => hds e (List.mem_cons_of_mem d he)) _

theorem digitsValue_decimal (n : Nat) : digitsValue (decimal n) = n := by
  by_cases hn : n = 0
  · rw [hn]
    rfl
  · rw [digitsValue, decimal_pos hn, foldl_digitBytes, foldl_digits]
    intro d hd
    exact Nat.digits_lt_base (by decide) (List.mem_reverse.mp hd)

theorem isDigit_decimal {n : Nat} {c : UInt8} (hc : c ∈ decimal n) : isDigit c = true := by
  obtain ⟨d, hd, rfl⟩ := mem_decimal hc
  exact isDigit_digitByte hd

theorem decimal_ne_nil (n : Nat) : decimal n ≠ [] := by
  by_cases hn : n = 0
  · rw [hn, decimal_zero]
    exact List.cons_ne_nil _ _
  · rw [decimal_pos hn, Ne, List.map_eq_nil_iff, List.reverse_eq_nil_iff]
    exact Nat.digits_ne_nil_iff_ne_zero.mpr hn

theorem takeWhile_decimal (n : Nat) {rest : Bytes} (hrest : isDigit (rest.headD 0) = false) :
    (decimal n ++ rest).takeWhile isDigit = decimal n ∧
      (decimal n ++ rest).dropWhile isDigit = rest := by
  have hall : ∀ c ∈ decimal n, isDigit c = true := fun c hc => isDigit_decimal hc
  cases rest with
  | nil =>
    rw [List.append_nil]
    have htake : (decimal n ++ []).takeWhile isDigit = _ := List.takeWhile_append_of_pos hall
    have hdrop : (decimal n ++ []).dropWhile isDigit = _ := List.dropWhile_append_of_pos hall
    rw [List.append_nil] at htake hdrop
    rw [htake, hdrop]
    exact ⟨List.append_nil _, rfl⟩
  | cons c rest =>
    have hc : ¬ isDigit c = true := by
      rw [List.headD_cons] at hrest
      rw [hrest]
      decide
    rw [List.takeWhile_append_of_pos hall, List.dropWhile_append_of_pos hall,
      List.takeWhile_cons_of_neg hc, List.dropWhile_cons_of_neg hc, List.append_nil]
    exact ⟨rfl, rfl⟩

theorem head_decimal (n : Nat) (rest : Bytes) :
    ∃ c, (decimal n ++ rest).head? = some c ∧ isDigit c = true := by
  cases h : decimal n with
  | nil => exact absurd h (decimal_ne_nil n)
  | cons c cs =>
    refine ⟨c, rfl, isDigit_decimal (n := n) ?_⟩
    rw [h]
    exact List.mem_cons_self

theorem digit_plain {c : UInt8} (hc : isDigit c = true) :
    isspace c = false ∧ c ≠ 45 ∧ c ≠ 43 := by
  have hbounds : 48 ≤ c ∧ c ≤ 57 := by simpa [isDigit] using hc
  have h1 : 48 ≤ c.toNat := UInt8.le_iff_toNat_le.mp hbounds.1
  refine ⟨?_, ?_, ?_⟩
  · rw [isspace, decide_eq_false_iff_not]
    rintro (h | ⟨-, h⟩)
    · rw [h] at h1
      exact absurd h1 (by decide)
    · have h2 : c.toNat ≤ 13 := UInt8.le_iff_toNat_le.mp h
      omega
  · rintro rfl
    exact absurd h1 (by decide)
  · rintro rfl
    exact absurd h1 (by decide)

theorem dropWhile_of_head {p : UInt8 → Bool} {l : Bytes} {c : UInt8} (hl : l.head? = some c)
    (hc : p c = false) : l.dropWhile p = l := by
  cases l with
  | nil => cases hl
  | cons a l =>
    cases hl
    exact List.dropWhile_cons_of_neg (by rw [hc]; decide)

theorem clamp_fits {n : Int} (hmin : -(2 ^ 63) ≤ n) (hmax : n < 2 ^ 63) (rest : Bytes) :
    clampLongLong n rest = { value := n, erange := false, eptr := rest } := by
  rw [clampLongLong, if_neg (not_lt.mpr hmin), if_neg (not_le.mpr hmax)]

theorem strtoll_ll2string {n : Int} (hmin : -(2 ^ 63) ≤ n) (hmax : n < 2 ^ 63) {rest : Bytes}
    (hrest : isDigit (rest.headD 0) = false) :
    strtoll (ll2string n ++ rest) = { value := n, erange := false, eptr := rest } := by
  obtain ⟨htake, hdrop⟩ := takeWhile_decimal n.natAbs hrest
  obtain ⟨c, hhead, hc⟩ := head_decimal n.natAbs rest
  obtain ⟨hspace, hminus, hplus⟩ := digit_plain hc
  unfold strtoll ll2string
  by_cases hneg : n < 0
  · have hstart : (45 :: decimal n.natAbs ++ rest).dropWhile isspace =
        45 :: (decimal n.natAbs ++ rest) := List.dropWhile_cons_of_neg (by decide)
    have hn : -(n.natAbs : Int) = n := by omega
    rw [if_pos hneg, hstart]
    simp only [List.head?_cons, true_or, if_true, List.tail_cons, htake, hdrop,
      if_neg (decimal_ne_nil _), digitsValue_decimal, hn]
    exact clamp_fits hmin hmax rest
  · have hn : (n.natAbs : Int) = n := by omega
    have hsign : ¬ (some c = some 45 ∨ some c = some 43) := by
      rintro (h | h)
      · exact hminus (Option.some.inj h)
      · exact hplus (Option.some.inj h)
    have hsign' : ¬ some c = some 45 := fun h => hsign (Or.inl h)
    rw [if_neg hneg, dropWhile_of_head hhead hspace]
    simp only [hhead, if_neg hsign, if_neg hsign', htake, hdrop, if_neg (decimal_ne_nil _),
      digitsValue_decimal, hn]
    exact clamp_fits hmin hmax rest

theorem headD_ll2string (n : Int) : isspace ((ll2string n).headD 0) = false := by
  unfold ll2string
  by_cases hneg : n < 0
  · rw [if_pos hneg]
    rfl
  · obtain ⟨c, hhead, hc⟩ := head_decimal n.natAbs []
    rw [List.append_nil] at hhead
    rw [if_neg hneg, List.headD_eq_head?_getD, hhead]
    exact (digit_plain hc).1

theorem getLongLong_ll2string {n : Int} (hmin : -(2 ^ 63) ≤ n) (hmax : n < 2 ^ 63) :
    getLongLongFromObject (ll2string n) = some n := by
  have hread : strtoll (ll2string n ++ []) = _ := strtoll_ll2string hmin hmax rfl
  rw [List.append_nil] at hread
  unfold getLongLongFromObject
  rw [hread, headD_ll2string]
  rfl

theorem strtoll_of_getLongLong {s : Bytes} {n : Int} (h : getLongLongFromObject s = some n) :
    (strtoll s).value = n := by
  unfold getLongLongFromObject at h
  dsimp only at h
  split at h
  · cases h
  · exact Option.some.inj h

theorem fgets_line {line : Bytes} (hline : LF ∉ line) {n : Nat} (hn : line.length < n)
    (rest : Bytes) : fgets n (line ++ LF :: rest) = (line ++ [LF], rest) := by
  induction line generalizing n with
  | nil =>
    obtain ⟨k, rfl⟩ : ∃ k, n = k + 1 := ⟨n - 1, by simp only [List.length_nil] at hn; omega⟩
    rw [List.nil_append, fgets, if_pos rfl]
    rfl
  | cons c line ih =>
    obtain ⟨k, rfl⟩ : ∃ k, n = k + 1 := ⟨n - 1, by omega⟩
    have hc : c ≠ LF := fun h => hline (by rw [h]; exact List.mem_cons_self)
    have hrec := ih (fun h => hline (List.mem_cons_of_mem c h))
      (show line.length < k by rw [List.length_cons] at hn; omega)
    rw [List.cons_append, fgets, if_neg hc, hrec]
    rfl

theorem fgets_number (c : UInt8) (hc : c ≠ LF) {n : Nat} (hn : n < 2 ^ 63) (rest : Bytes) :
    fgets 127 (c :: ll2string n ++ crlf ++ rest) = (c :: ll2string n ++ crlf, rest) := by
  have hline : LF ∉ c :: ll2string n ++ [CR] := by
    intro h
    rcases List.mem_append.mp h with h | h
    · rcases List.mem_cons.mp h with h | h
      · exact hc h.symm
      · rw [ll2string, if_neg (by omega), Int.natAbs_natCast] at h
        exact notMem_decimal (by decide) n h
    · exact absurd h (by decide)
  have hlength : (c :: ll2string n ++ [CR]).length < 127 := by
    have hdecimal := length_decimal_le (n := n) (k := 20) (by omega)
      (Nat.lt_of_lt_of_le hn (by norm_num))
    rw [List.length_append, List.length_cons, List.length_singleton, ll2string,
      if_neg (by omega), Int.natAbs_natCast]
    omega
  have hread := fgets_line hline hlength rest
  have hstart : c :: ll2string n ++ crlf ++ rest = c :: ll2string n ++ [CR] ++ LF :: rest := by
    simp [crlf]
  have hend : c :: ll2string n ++ crlf = c :: ll2string n ++ [CR] ++ [LF] := by simp [crlf]
  rw [hstart, hend, hread]

theorem strtoll_number {n : Nat} (hn : n < 2 ^ 63) :
    (strtoll (ll2string n ++ crlf)).value = n := by
  have hcrlf : isDigit (crlf.headD 0) = false := by decide
  rw [strtoll_ll2string (by omega) (by exact_mod_cast hn) hcrlf]

theorem readArgs_text (argv : List Bytes) (hargv : ∀ o ∈ argv, o.length < 2 ^ 63) (rest : Bytes) :
    readArgs argv.length (argv.flatMap catArgument ++ rest) = some (argv, rest) := by
  induction argv with
  | nil => rfl
  | cons o argv ih =>
    have ho := hargv o List.mem_cons_self
    have hrec := ih fun x hx => hargv x (List.mem_cons_of_mem o hx)
    have hshape : (o :: argv).flatMap catArgument ++ rest = 36 :: ll2string o.length ++ crlf ++
        (o ++ (crlf ++ (argv.flatMap catArgument ++ rest))) := by
      rw [List.flatMap_cons, catArgument]
      simp only [List.append_assoc, List.cons_append]
    have hlen : ((o.length : Int) % 2 ^ 64).toNat = o.length := by
      rw [Int.emod_eq_of_lt (by omega) (by omega), Int.toNat_natCast]
    have hdrop : (o ++ (crlf ++ (argv.flatMap catArgument ++ rest))).drop (o.length + 2) =
        argv.flatMap catArgument ++ rest := by
      rw [← List.append_assoc]
      exact List.drop_left' (by rw [List.length_append]; rfl)
    rw [hshape, List.length_cons, readArgs, fgets_number 36 (by decide) ho]
    simp only [List.cons_append, List.head?_cons, List.tail_cons, strtoll_number ho, hlen, ne_eq,
      not_true_eq_false, if_false]
    rw [if_neg (by simp [crlf]), hdrop, hrec, List.take_left]
    rfl

end RedisCluster.Aof
