import RedisCluster.Aof.Proofs.CheckReadingProofs

/-!
# `redis-check-aof` and the loader

One turn of the loop reads one item, and a run of the loop ends at the last place where the items before it
have balanced transactions.
-/

namespace RedisCluster.Aof.Check

open RedisCluster.Util
open RedisCluster.Multi (tolower cstr sameCaseless)

def Item.strings : Item → Nat
  | .empty _ => 0
  | .command _ args => args.length + 1

theorem countMulti_eq (b : Bool) (name : Bytes) (args : List Bytes) :
    countMulti (b.toNat : Int) name =
      match transaction cstr b (.command name args) with
      | none => .error .defect
      | some b' => .ok (b'.toNat : Int) := by
  have hmulti : (cstr (ascii "multi")).map tolower = ascii "multi" := by decide
  have hexec : (cstr (ascii "exec")).map tolower = ascii "exec" := by decide
  unfold countMulti transaction sameCaseless
  rw [hmulti, hexec]
  simp only [decide_eq_true_eq]
  by_cases hm : (cstr name).map tolower = ascii "multi"
  · rw [if_pos hm, if_pos hm]
    cases b with
    | false => rfl
    | true => rfl
  · rw [if_neg hm, if_neg hm]
    by_cases he : (cstr name).map tolower = ascii "exec"
    · rw [if_pos he, if_pos he]
      cases b with
      | false => rfl
      | true => rfl
    · rw [if_neg he, if_neg he]

theorem readStrings_first {n : Nat} (b : Bool) {fp fp' str : Bytes}
    (hread : readString fp = .ok (str, fp')) :
    readStrings (n + 1) 0 (b.toNat : Int) fp =
      match transaction cstr b (.command str []) with
      | none => .error .defect
      | some b' => readStrings n 1 (b'.toNat : Int) fp' := by
  rw [readStrings, hread]
  simp only [if_true]
  rw [countMulti_eq b str []]
  cases transaction cstr b (.command str []) with
  | none => rfl
  | some b' =>
    simp only []
    rw [if_neg (by decide)]

theorem checkCommand_ok {b : Bool} {m : Int} {fp rest : Bytes} (hfp : fp.length < 2 ^ 63) :
    checkCommand (b.toNat : Int) fp = .ok (m, rest) ↔
      ∃ item text b', ItemText item text ∧ item.strings < 2 ^ 31 ∧ fp = text ++ rest ∧
        transaction cstr b item = some b' ∧ m = (b'.toNat : Int) := by
  constructor
  · intro h
    rw [checkCommand, readArgc] at h
    cases hread : readLong 42 fp with
    | none =>
      rw [hread] at h
      cases h
    | some q =>
      obtain ⟨count, fp'⟩ := q
      rw [hread] at h
      obtain ⟨line, hline, rfl⟩ := (readLong_iff (by decide)).mp hread
      have hfp' := length_rest hfp
      simp only [] at h
      cases hn : count.toNat with
      | zero =>
        rw [hn, readStrings, Except.ok.injEq, Prod.mk.injEq] at h
        obtain ⟨rfl, rfl⟩ := h
        exact ⟨.empty count, line, b, .empty (by omega) hline, Nat.two_pow_pos 31, rfl, rfl, rfl⟩
      | succ n =>
        rw [hn] at h
        cases hstr : readString fp' with
        | error e =>
          rw [readStrings, hstr] at h
          cases h
        | ok q =>
          obtain ⟨str, after⟩ := q
          obtain ⟨first, hfirst, rfl⟩ := (readString_ok hfp').mp hstr
          rw [readStrings_first b hstr] at h
          cases htrans : transaction cstr b (.command str []) with
          | none =>
            rw [htrans] at h
            cases h
          | some b' =>
            rw [htrans] at h
            obtain ⟨rfl, hsum, os, text, hos, htext, rfl⟩ :=
              (readStrings_ok (by decide) (by decide) (length_rest hfp')).mp h
            have hcount : count = (os.length + 1 : Nat) := by omega
            rw [hcount] at hline
            refine ⟨.command str os, _, b', .command hline (.cons hfirst htext), ?_, ?_, htrans, rfl⟩
            · rw [Item.strings]
              omega
            · simp only [List.append_assoc]
  · rintro ⟨item, text, b', hitem, hsmall, rfl, htrans, rfl⟩
    rw [checkCommand, readArgc]
    cases hitem with
    | empty hcount hline =>
      rename_i count
      rw [(readLong_iff (by decide)).mpr ⟨text, hline, rfl⟩]
      simp only []
      rw [Int.toNat_of_nonpos (by omega)]
      cases htrans
      rfl
    | command hline hstrings =>
      rename_i name line strings args
      cases hstrings with
      | cons hfirst htext =>
        rename_i first text
        have hread : readLong 42 (line ++ (first ++ name ++ crlf ++ text) ++ rest) = _ :=
          (readLong_iff (by decide)).mpr ⟨line, hline, List.append_assoc _ _ _⟩
        rw [List.append_assoc] at hfp
        have hstr := (readString_ok (length_rest hfp)).mpr ⟨first, hfirst, List.append_assoc _ text rest⟩
        rw [hread]
        simp only [Int.toNat_natCast]
        rw [readStrings_first b hstr]
        rw [show transaction cstr b (.command name []) = some b' from htrans]
        rw [List.append_assoc (first ++ name ++ crlf)] at hfp
        refine (readStrings_ok (by decide) (by decide) (length_rest (length_rest hfp))).mpr
          ⟨rfl, ?_, args, text, rfl, htext, rfl⟩
        rw [Item.strings] at hsmall
        omega

theorem checkCommand_undefined {b : Bool} {fp : Bytes} (hfp : fp.length < 2 ^ 63) :
    checkCommand (b.toNat : Int) fp = .error .undefined ↔ BadCommand b fp := by
  rw [checkCommand, readArgc]
  cases hread : readLong 42 fp with
  | none =>
    refine ⟨fun h => (by cases h), ?_⟩
    rintro ⟨count, line, os, text, rest, hline, -, heq, -⟩
    rw [(readLong_iff (by decide)).mpr ⟨line, hline, heq⟩] at hread
    cases hread
  | some q =>
    obtain ⟨count, fp'⟩ := q
    obtain ⟨line, hline, rfl⟩ := (readLong_iff (by decide)).mp hread
    have hfp' := length_rest hfp
    have hbad : BadCommand b (line ++ fp') ↔ ∃ os text rest, BulkTexts os text ∧ fp' = text ++ rest ∧
        (∀ name args, os = name :: args → transaction cstr b (.command name args) ≠ none) ∧
        (((os.length : Int) < count ∧ BadLength rest) ∨
          ((os.length : Int) ≤ count ∧ os.length = 2 ^ 31)) := by
      constructor
      · rintro ⟨count', line', os, text, rest, hline', htext, heq, hcase⟩
        obtain ⟨rfl, rfl, rfl⟩ := hline.unique (by decide) hline' heq
        exact ⟨os, text, rest, htext, rfl, hcase⟩
      · rintro ⟨os, text, rest, htext, rfl, hcase⟩
        exact ⟨count, line, os, text, rest, hline, htext, rfl, hcase⟩
    rw [hbad]
    simp only []
    cases hn : count.toNat with
    | zero =>
      refine ⟨fun h => (by cases h), ?_⟩
      rintro ⟨os, text, rest, -, -, -, ⟨h, -⟩ | ⟨h, hsum⟩⟩
      · omega
      · omega
    | succ n =>
      cases hstr : readString fp' with
      | error e =>
        rw [readStrings, hstr]
        constructor
        · intro h
          rw [Except.error.injEq] at h
          rw [h] at hstr
          exact ⟨[], [], fp', .nil, rfl, fun _ _ h => (by cases h),
            .inl ⟨by rw [List.length_nil]; omega, readString_undefined.mp hstr⟩⟩
        · rintro ⟨os, text, rest, htext, rfl, -, hcase⟩
          cases htext with
          | nil =>
            rcases hcase with ⟨-, hlen⟩ | ⟨-, hsum⟩
            · have he := hstr.symm.trans (readString_undefined.mpr hlen)
              rw [Except.error.injEq] at he
              rw [he]
            · cases hsum
          | cons hfirst hrest =>
            exact (readString_ne_ok hfp' hstr hfirst (List.append_assoc _ _ _)).elim
      | ok q =>
        obtain ⟨str, after⟩ := q
        obtain ⟨first, hfirst, rfl⟩ := (readString_ok hfp').mp hstr
        rw [readStrings_first b hstr]
        -- the strings of a bad command begin with the one that was read
        have hcons : ∀ os text rest, BulkTexts os text →
            first ++ str ++ crlf ++ after = text ++ rest →
            (os = [] ∧ rest = first ++ str ++ crlf ++ after) ∨
              ∃ args text', os = str :: args ∧ BulkTexts args text' ∧ after = text' ++ rest := by
          intro os text rest htext heq
          cases htext with
          | nil => exact .inl ⟨rfl, heq.symm⟩
          | cons hline' hrest' =>
            rename_i o line' args text'
            have hstr' := (readString_ok hfp').mpr ⟨line', hline', heq.trans (List.append_assoc _ _ _)⟩
            rw [hstr, Except.ok.injEq, Prod.mk.injEq] at hstr'
            exact .inr ⟨args, text', by rw [hstr'.1], hrest', hstr'.2⟩
        have hnil : ∀ rest, rest = first ++ str ++ crlf ++ after → ¬ BadLength rest := by
          rintro rest rfl hlen
          rw [readString_undefined.mpr hlen] at hstr
          cases hstr
        cases htrans : transaction cstr b (.command str []) with
        | none =>
          refine ⟨fun h => (by cases h), ?_⟩
          rintro ⟨os, text, rest, htext, heq, hname, hcase⟩
          rcases hcons os text rest htext heq with ⟨rfl, hrest⟩ | ⟨args, text', rfl, -, -⟩
          · rcases hcase with ⟨-, hlen⟩ | ⟨-, hsum⟩
            · exact absurd hlen (hnil rest hrest)
            · cases hsum
          · exact absurd htrans (hname str args rfl)
        | some b' =>
          simp only []
          rw [readStrings_undefined (by decide) (by decide) (length_rest hfp')]
          constructor
          · rintro ⟨os, text, rest, htext, rfl, hcase⟩
            refine ⟨str :: os, _, rest, .cons hfirst htext, ?_, ?_, ?_⟩
            · rw [List.append_assoc _ text rest]
            · intro name args hos
              rw [List.cons.injEq] at hos
              rw [← hos.1]
              exact fun h => Option.some_ne_none b' (htrans.symm.trans h)
            · rw [List.length_cons]
              exact hcase.imp (fun h => ⟨by omega, h.2⟩) fun h => ⟨by omega, by omega⟩
          · rintro ⟨os, text, rest, htext, heq, -, hcase⟩
            rcases hcons os text rest htext heq with ⟨rfl, hrest⟩ | ⟨args, text', rfl, hargs, hafter⟩
            · rcases hcase with ⟨-, hlen⟩ | ⟨-, hsum⟩
              · exact absurd hlen (hnil rest hrest)
              · cases hsum
            · rw [List.length_cons] at hcase
              refine ⟨args, text', rest, hargs, hafter, ?_⟩
              rcases hcase with ⟨hless, hlen⟩ | ⟨hle, hsum⟩
              · exact .inl ⟨by omega, hlen⟩
              · exact .inr ⟨by omega, by omega⟩

theorem BulkTexts.split {os : List Bytes} {text : Bytes} (h : BulkTexts os text) (k : Nat) :
    ∃ first rest, text = first ++ rest ∧ BulkTexts (os.take k) first ∧ BulkTexts (os.drop k) rest := by
  induction h generalizing k with
  | nil =>
    rw [List.take_nil, List.drop_nil]
    exact ⟨[], [], rfl, .nil, .nil⟩
  | cons hline hrest ih =>
    rename_i o line os text
    cases k with
    | zero => exact ⟨[], _, rfl, .nil, .cons hline hrest⟩
    | succ k =>
      obtain ⟨first, rest, rfl, hfirst, hlast⟩ := ih k
      exact ⟨_, rest, (List.append_assoc _ first rest).symm, .cons hline hfirst, hlast⟩

theorem BulkTexts.unique {os os' : List Bytes} {text text' rest rest' : Bytes} (h : BulkTexts os text)
    (h' : BulkTexts os' text') (hlen : os.length = os'.length) (heq : text ++ rest = text' ++ rest') :
    os = os' ∧ text = text' := by
  induction h generalizing os' text' with
  | nil =>
    cases h' with
    | nil => exact ⟨rfl, rfl⟩
    | cons => cases hlen
  | cons hline hrest ih =>
    cases h' with
    | nil => cases hlen
    | cons hline' hrest' =>
      simp only [List.append_assoc] at heq
      obtain ⟨ho, rfl, htail⟩ := hline.unique (by decide) hline' heq
      obtain ⟨rfl, htail⟩ := List.append_inj htail (by omega)
      obtain ⟨rfl, rfl⟩ := ih hrest' (Nat.succ.inj hlen)
        (List.append_cancel_left (List.append_cancel_left htail))
      exact ⟨rfl, rfl⟩

theorem ItemText.unique {i i' : Item} {text text' rest rest' : Bytes} (h : ItemText i text)
    (h' : ItemText i' text') (heq : text ++ rest = text' ++ rest') : i = i' ∧ text = text' := by
  cases h with
  | empty hcount hline =>
    cases h' with
    | empty hcount' hline' =>
      obtain ⟨rfl, rfl, -⟩ := hline.unique (by decide) hline' heq
      exact ⟨rfl, rfl⟩
    | command hline' _ =>
      rw [List.append_assoc] at heq
      obtain ⟨rfl, -, -⟩ := hline.unique (by decide) hline' heq
      omega
  | command hline hstrings =>
    rw [List.append_assoc] at heq
    cases h' with
    | empty hcount' hline' =>
      obtain ⟨rfl, -, -⟩ := hline.unique (by decide) hline' heq
      omega
    | command hline' hstrings' =>
      rw [List.append_assoc] at heq
      obtain ⟨hlen, rfl, htail⟩ := hline.unique (by decide) hline' heq
      obtain ⟨hargs, rfl⟩ := hstrings.unique hstrings'
        (by rw [List.length_cons, List.length_cons]; omega) htail
      rw [List.cons.injEq] at hargs
      obtain ⟨rfl, rfl⟩ := hargs
      exact ⟨rfl, rfl⟩

theorem ItemText.length_pos {i : Item} {text : Bytes} (h : ItemText i text) : 0 < text.length := by
  cases h with
  | empty _ hline => exact List.length_pos_iff.mpr hline.ne_nil
  | command hline _ =>
    rw [List.length_append]
    exact Nat.lt_of_lt_of_le (List.length_pos_iff.mpr hline.ne_nil) (Nat.le_add_right _ _)

theorem Items.isPrefix {is is' : List Item} {text text' rest rest' : Bytes} (h : Items is text)
    (h' : Items is' text') (heq : text ++ rest = text' ++ rest') (hlen : text.length ≤ text'.length) :
    is <+: is' := by
  induction h generalizing is' text' with
  | nil => exact List.nil_prefix
  | cons hitem hrest ih =>
    rw [List.length_append] at hlen
    have hpos := hitem.length_pos
    cases h' with
    | nil =>
      rw [List.length_nil] at hlen
      omega
    | cons hitem' hrest' =>
      rw [List.append_assoc, List.append_assoc] at heq
      obtain ⟨rfl, rfl⟩ := hitem.unique hitem' heq
      rw [List.length_append] at hlen
      rw [List.cons_prefix_cons]
      exact ⟨rfl, ih hrest' (List.append_cancel_left heq) (by omega)⟩

theorem checkCommand_item {b b' : Bool} {item : Item} {text rest : Bytes}
    (hfp : (text ++ rest).length < 2 ^ 63) (hitem : ItemText item text)
    (htrans : transaction cstr b item = some b') (hgood : ¬ BadCommand b (text ++ rest)) :
    item.strings < 2 ^ 31 ∧ checkCommand (b.toNat : Int) (text ++ rest) = .ok ((b'.toNat : Int), rest) := by
  have hsmall : item.strings < 2 ^ 31 := by
    refine Nat.lt_of_not_le fun hlarge => hgood ?_
    cases hitem with
    | empty => exact absurd hlarge (Nat.not_le.mpr (Nat.two_pow_pos 31))
    | command hline hstrings =>
      rename_i name line strings args
      obtain ⟨first, last, rfl, hfirst, -⟩ := hstrings.split (2 ^ 31)
      rw [Item.strings] at hlarge
      have hlen : ((name :: args).take (2 ^ 31)).length = 2 ^ 31 := by
        rw [List.length_take, List.length_cons]
        omega
      refine ⟨_, line, _, first, last ++ rest, hline, hfirst, by simp only [List.append_assoc], ?_,
        .inr ⟨by rw [hlen]; omega, hlen⟩⟩
      intro name' args' heq
      rw [List.take_cons (by decide), List.cons.injEq] at heq
      rw [← heq.1]
      exact fun h => Option.some_ne_none b' (htrans.symm.trans h)
  exact ⟨hsmall, (checkCommand_ok hfp).mpr ⟨item, text, b', hitem, hsmall, rfl, htrans, rfl⟩⟩

def Reaches (b : Bool) (fp : Bytes) (q : Nat) : Prop :=
  ∃ items text rest, Items items text ∧ fp = text ++ rest ∧ transactions cstr b items = some false ∧
    q = text.length

theorem reaches_zero (fp : Bytes) : Reaches false fp 0 := ⟨[], [], fp, .nil, rfl, rfl, rfl⟩

section Step

variable {b b' : Bool} {text rest : Bytes} {item : Item} (hfp : (text ++ rest).length < 2 ^ 63)
  (hitem : ItemText item text) (htrans : transaction cstr b item = some b')
include hfp hitem htrans

theorem reaches_step {q : Nat} :
    Reaches b (text ++ rest) q ↔
      (q = 0 ∧ b = false) ∨ ∃ q', q = text.length + q' ∧ Reaches b' rest q' := by
  constructor
  · rintro ⟨items, text', rest', hitems, heq, hrun, rfl⟩
    cases hitems with
    | nil => exact .inl ⟨rfl, Option.some.inj hrun⟩
    | cons hitem' hitems =>
      rename_i i is first last
      rw [List.append_assoc] at heq
      obtain ⟨rfl, rfl⟩ := hitem.unique hitem' heq
      rw [transactions, htrans, Option.bind_some] at hrun
      exact .inr ⟨last.length, List.length_append, is, last, rest', hitems,
        List.append_cancel_left heq, hrun, rfl⟩
  · rintro (⟨rfl, rfl⟩ | ⟨q', rfl, items, text', rest', hitems, rfl, hrun, rfl⟩)
    · exact reaches_zero _
    · refine ⟨item :: items, text ++ text', rest', .cons hitem hitems,
        (List.append_assoc _ _ _).symm, ?_, List.length_append.symm⟩
      rw [transactions, htrans, Option.bind_some, hrun]

theorem hasBadCommand_step (hgood : ¬ BadCommand b (text ++ rest)) :
    HasBadCommand b (text ++ rest) ↔ HasBadCommand b' rest := by
  constructor
  · rintro ⟨items, text', rest', b₁, hitems, heq, hrun, hbad⟩
    cases hitems with
    | nil =>
      cases hrun
      rw [heq] at hgood
      exact absurd hbad hgood
    | cons hitem' hitems =>
      rename_i i is first last
      rw [List.append_assoc] at heq
      obtain ⟨rfl, rfl⟩ := hitem.unique hitem' heq
      rw [transactions, htrans, Option.bind_some] at hrun
      exact ⟨is, last, rest', b₁, hitems, List.append_cancel_left heq, hrun, hbad⟩
  · rintro ⟨items, text', rest', b₁, hitems, rfl, hrun, hbad⟩
    refine ⟨item :: items, text ++ text', rest', b₁, .cons hitem hitems,
      (List.append_assoc _ _ _).symm, ?_, hbad⟩
    rw [transactions, htrans, Option.bind_some, hrun]

end Step

theorem reaches_defect {b : Bool} {fp : Bytes} (hfp : fp.length < 2 ^ 63)
    (hread : checkCommand (b.toNat : Int) fp = .error .defect) {q : Nat} :
    Reaches b fp q ↔ q = 0 ∧ b = false := by
  have hgood : ¬ BadCommand b fp := fun h => by
    rw [(checkCommand_undefined hfp).mpr h] at hread
    cases hread
  constructor
  · rintro ⟨items, text, rest, hitems, rfl, hrun, rfl⟩
    cases hitems with
    | nil => exact ⟨rfl, Option.some.inj hrun⟩
    | cons hitem hitems =>
      rename_i i is first last
      obtain ⟨b', htrans, -⟩ := Option.bind_eq_some_iff.mp hrun
      rw [List.append_assoc] at hfp hgood hread
      rw [(checkCommand_item hfp hitem htrans hgood).2] at hread
      cases hread
  · rintro ⟨rfl, rfl⟩
    exact reaches_zero fp

theorem hasBadCommand_defect {b : Bool} {fp : Bytes} (hfp : fp.length < 2 ^ 63)
    (hread : checkCommand (b.toNat : Int) fp = .error .defect) : ¬ HasBadCommand b fp := by
  have hgood : ¬ BadCommand b fp := fun h => by
    rw [(checkCommand_undefined hfp).mpr h] at hread
    cases hread
  rintro ⟨items, text, rest, b₁, hitems, rfl, hrun, hbad⟩
  cases hitems with
  | nil =>
    cases hrun
    exact hgood hbad
  | cons hitem hitems =>
    rename_i i is first last
    obtain ⟨b', htrans, -⟩ := Option.bind_eq_some_iff.mp hrun
    rw [List.append_assoc] at hfp hgood hread
    rw [(checkCommand_item hfp hitem htrans hgood).2] at hread
    cases hread

theorem processLoop_spec {size fuel : Nat} (pos : Nat) (b : Bool) {fp : Bytes} (hfuel : fp.length < fuel)
    (hfp : fp.length < 2 ^ 63) (hsize : fp.length ≤ size) :
    (HasBadCommand b fp → processLoop size fuel pos (b.toNat : Int) fp = none) ∧
      (¬ HasBadCommand b fp → ∃ p, processLoop size fuel pos (b.toNat : Int) fp = some p ∧
        ((p = pos ∧ ∀ q, ¬ Reaches b fp q) ∨
          ∃ q, IsGreatest { q | Reaches b fp q } q ∧ p = size - fp.length + q)) := by
  induction fuel generalizing pos b fp with
  | zero => omega
  | succ fuel ih =>
    rw [processLoop]
    cases hread : checkCommand (b.toNat : Int) fp with
    | error e =>
      cases e with
      | undefined =>
        have hbad := (checkCommand_undefined hfp).mp hread
        exact ⟨fun _ => rfl, fun h => absurd ⟨[], [], fp, b, .nil, rfl, rfl, hbad⟩ h⟩
      | defect =>
        refine ⟨fun h => absurd h (hasBadCommand_defect hfp hread), fun _ => ⟨_, rfl, ?_⟩⟩
        have hreach := fun q => @reaches_defect b fp hfp hread q
        cases b with
        | true => exact .inl ⟨rfl, fun q h => Bool.noConfusion ((hreach q).mp h).2⟩
        | false =>
          refine .inr ⟨0, ⟨reaches_zero fp, fun q hq => ?_⟩, rfl⟩
          exact Nat.le_of_eq ((hreach q).mp hq).1
    | ok r =>
      obtain ⟨m, rest⟩ := r
      obtain ⟨item, text, b', hitem, -, rfl, htrans, rfl⟩ := (checkCommand_ok hfp).mp hread
      have hgood : ¬ BadCommand b (text ++ rest) := fun h => by
        rw [(checkCommand_undefined hfp).mpr h] at hread
        cases hread
      have hreach := fun q => reaches_step hfp hitem htrans (q := q)
      have hpos := hitem.length_pos
      have hlen : (text ++ rest).length = text.length + rest.length := List.length_append
      rw [hasBadCommand_step hfp hitem htrans hgood]
      simp only []
      obtain ⟨hnone, hsome⟩ := ih (if (b.toNat : Int) = 0 then size - (text ++ rest).length else pos) b'
        (by omega) (length_rest hfp) (by omega)
      refine ⟨hnone, fun h => ?_⟩
      obtain ⟨p, hp, hcase⟩ := hsome h
      refine ⟨p, hp, ?_⟩
      rcases hcase with ⟨rfl, hstuck⟩ | ⟨q, ⟨hq, hmax⟩, rfl⟩
      · cases b with
        | true =>
          refine .inl ⟨rfl, fun q hq => ?_⟩
          rcases (hreach q).mp hq with ⟨-, hb⟩ | ⟨q', -, hq'⟩
          · cases hb
          · exact hstuck q' hq'
        | false =>
          refine .inr ⟨0, ⟨reaches_zero _, fun q hq => ?_⟩, rfl⟩
          rcases (hreach q).mp hq with ⟨h0, -⟩ | ⟨q', -, hq'⟩
          · exact Nat.le_of_eq h0
          · exact absurd hq' (hstuck q')
      · refine .inr ⟨text.length + q, ⟨(hreach _).mpr (.inr ⟨q, rfl, hq⟩), fun q' hq' => ?_⟩, by omega⟩
        rcases (hreach q').mp hq' with ⟨rfl, -⟩ | ⟨q₁, rfl, hq₁⟩
        · exact Nat.zero_le _
        · exact Nat.add_le_add_left (hmax hq₁) _

theorem process_none {file : Bytes} (hfile : file.length < 2 ^ 63) :
    process file = none ↔ HasBadCommand false file := by
  obtain ⟨hnone, hsome⟩ := processLoop_spec 0 false (Nat.lt_succ_self file.length) hfile
    (Nat.le_refl _)
  refine ⟨fun h => ?_, hnone⟩
  by_contra hgood
  obtain ⟨p, hp, -⟩ := hsome hgood
  rw [process] at h
  exact Option.some_ne_none p (hp.symm.trans h)

theorem process_greatest {file : Bytes} (hfile : file.length < 2 ^ 63) {p : Nat}
    (hp : process file = some p) : IsGreatest { q | Reaches false file q } p := by
  obtain ⟨hnone, hsome⟩ := processLoop_spec 0 false (Nat.lt_succ_self file.length) hfile
    (Nat.le_refl _)
  have hgood : ¬ HasBadCommand false file := fun h => by
    have hstuck := hnone h
    rw [process] at hp
    exact Option.some_ne_none p (hp.symm.trans hstuck)
  obtain ⟨p', hp', hcase⟩ := hsome hgood
  rw [process] at hp
  obtain rfl : p = p' := Option.some.inj (hp.symm.trans hp')
  rcases hcase with ⟨-, hstuck⟩ | ⟨q, hq, rfl⟩
  · exact absurd (reaches_zero file) (hstuck 0)
  · rw [Nat.sub_self, Nat.zero_add]
    exact hq

end RedisCluster.Aof.Check
