import RedisCluster.Intset.Intset

/-!
# The packed array of an intset

`Packed is l` says that the block of `is` holds exactly the elements of `l`, one after the other in
the current encoding. Inserting, removing and upgrading are followed slot by slot.
-/

namespace RedisCluster

open RedisCluster.Lib

def ValidEncoding (enc : Nat) : Prop := enc = 2 ∨ enc = 4 ∨ enc = 8

/-- The block holds the elements of `l`, in order, and nothing else. -/
structure Packed (is : Intset) (l : List Int) : Prop where
  valid : ValidEncoding is.encoding
  length_eq : is.length = l.length
  size_eq : is.contents.size = l.length * is.encoding
  slot : ∀ i (hi : i < l.length),
    is.contents.load (i * is.encoding) is.encoding = some (leBytes is.encoding l[i])

/-- Every element fits the encoding, and the byte count fits `uint32_t`. -/
structure Wide (is : Intset) (l : List Int) : Prop where
  fits : ∀ x ∈ l, FitsBytes is.encoding x
  small : l.length * is.encoding < 2 ^ 32

theorem slot_lt (enc : Nat) {i p : Nat} (h : i < p) : i * enc + enc ≤ p * enc := by
  rw [← Nat.succ_mul]
  exact Nat.mul_le_mul_right enc h

theorem u32_of_lt {n : Nat} (h : n < 2 ^ 32) : u32 n = n := Nat.mod_eq_of_lt h

theorem fitsBytes_iff {v : Int} (h64 : FitsBytes 8 v) {enc : Nat} (he : ValidEncoding enc) :
    FitsBytes enc v ↔ _intsetValueEncoding v ≤ enc := by
  simp only [FitsBytes, INTSET_ENC_INT16, INTSET_ENC_INT32, INTSET_ENC_INT64,
    _intsetValueEncoding] at *
  rcases he with rfl | rfl | rfl
  · split_ifs <;> omega
  · split_ifs <;> omega
  · split_ifs <;> omega

theorem valueEncoding_valid (v : Int) : ValidEncoding (_intsetValueEncoding v) := by
  simp only [ValidEncoding, _intsetValueEncoding, INTSET_ENC_INT16, INTSET_ENC_INT32,
    INTSET_ENC_INT64]
  split_ifs <;> simp

section

variable {is : Intset} {l : List Int}

theorem Packed.get (h : Packed is l) (hw : Wide is l) {i : Nat} (hi : i < l.length) :
    _intsetGet is i = some l[i] := by
  have hfit := hw.fits _ (List.getElem_mem hi)
  simp [_intsetGet, _intsetGetEncoded, h.slot i hi, leInt_leBytes hfit]

theorem _intsetSet_spec (is : Intset) {p : Nat} (v : Int)
    (hp : p * is.encoding + is.encoding ≤ is.contents.size) :
    ∃ b, _intsetSet is p v = some { is with contents := b } ∧
      b.size = is.contents.size ∧
      b.load (p * is.encoding) is.encoding = some (leBytes is.encoding v) ∧
      ∀ off n, off + n ≤ p * is.encoding ∨ p * is.encoding + is.encoding ≤ off →
        b.load off n = is.contents.load off n := by
  have hlen := length_leBytes is.encoding v
  obtain ⟨b, hb⟩ := Block.store_isSome
    (show p * is.encoding + (leBytes is.encoding v).length ≤ is.contents.size by
      rw [hlen]; exact hp)
  refine ⟨b, by simp [_intsetSet, hb], Block.store_size hb, ?_, ?_⟩
  · have h := Block.load_store hb
    rwa [hlen] at h
  · intro off n hd
    exact Block.load_store_of_disjoint hb (by rw [hlen]; exact hd)

theorem tail_bytes {len enc src : Nat} (hl : len * enc < 2 ^ 32) (he : ValidEncoding enc) :
    u32 (u32 (len - src) * enc) = (len - src) * enc := by
  have h1 : (len - src) * enc ≤ len * enc := Nat.mul_le_mul_right enc (by omega)
  have h2 : len - src ≤ (len - src) * enc := by
    apply Nat.le_mul_of_pos_right
    rcases he with h | h | h <;> omega
  rw [u32_of_lt (n := len - src) (by omega), u32_of_lt (by omega)]

theorem intsetMoveTail_spec (is : Intset) (src dst : Nat) (he : ValidEncoding is.encoding)
    (hsmall : is.length * is.encoding < 2 ^ 32) (hsrc : src ≤ is.length)
    (hs : is.length * is.encoding ≤ is.contents.size)
    (hd : (dst + (is.length - src)) * is.encoding ≤ is.contents.size) :
    ∃ b, intsetMoveTail is src dst = some { is with contents := b } ∧
      b.size = is.contents.size ∧
      (∀ i < is.length - src, b.load ((dst + i) * is.encoding) is.encoding =
        is.contents.load ((src + i) * is.encoding) is.encoding) ∧
      ∀ i, i < dst ∨ dst + (is.length - src) ≤ i →
        b.load (i * is.encoding) is.encoding = is.contents.load (i * is.encoding) is.encoding := by
  set enc := is.encoding
  have hsrc' : src * enc + (is.length - src) * enc ≤ is.contents.size := by
    rw [← Nat.add_mul, Nat.add_sub_cancel' hsrc]
    exact hs
  have hdst' : dst * enc + (is.length - src) * enc ≤ is.contents.size := by
    rw [← Nat.add_mul]
    exact hd
  obtain ⟨b, hb⟩ := Block.memmove_isSome hsrc' hdst'
  refine ⟨b, ?_, Block.memmove_size hb, ?_, ?_⟩
  · rw [intsetMoveTail, tail_bytes hsmall he]
    simp only [Option.bind_eq_bind, Option.pure_def]
    rw [hb]
    rfl
  · intro i hi
    rw [Nat.add_mul, Nat.add_mul]
    exact Block.load_memmove hb (slot_lt _ hi)
  · intro i hi
    apply Block.load_memmove_of_disjoint hb
    rcases hi with hlt | hge
    · exact Or.inl (slot_lt _ hlt)
    · right
      rw [← Nat.add_mul]
      exact Nat.mul_le_mul_right enc hge

theorem addAt_packed (h : Packed is l) {pos : Nat} (hpos : pos ≤ l.length) (v : Int)
    (hfit : (l.length + 1) * is.encoding < 2 ^ 32) :
    ∃ is', addAt is pos v = some is' ∧ is'.encoding = is.encoding ∧
      Packed is' (l.insertIdx pos v) := by
  obtain ⟨enc, len, c⟩ := is
  obtain ⟨he, rfl, hsize, hslot⟩ := h
  simp only at he hsize hslot hfit
  have hlen : l.length + 1 < 2 ^ 32 := by
    have h1 : l.length + 1 ≤ (l.length + 1) * enc := by
      apply Nat.le_mul_of_pos_right
      rcases he with h | h | h <;> omega
    omega
  have hgrow : (l.length + 1) * enc = l.length * enc + enc := Nat.succ_mul _ _
  -- the block after `intsetResize`
  set c1 := c.realloc ((l.length + 1) * enc) with hc1
  have hslot1 : ∀ i (hi : i < l.length), c1.load (i * enc) enc = some (leBytes enc l[i]) := by
    intro i hi
    have h1 := slot_lt enc hi
    rw [hc1, Block.load_realloc (by omega), hslot i hi]
  -- the block after the tail has been moved
  obtain ⟨c2, hmove, hsize2, hlow2, hhigh2⟩ : ∃ c2,
      (if pos < l.length then intsetMoveTail ⟨enc, l.length, c1⟩ pos (pos + 1)
        else some ⟨enc, l.length, c1⟩) = some ⟨enc, l.length, c2⟩ ∧
      c2.size = (l.length + 1) * enc ∧
      (∀ i (hi : i < pos), c2.load (i * enc) enc = some (leBytes enc l[i])) ∧
      ∀ i (hi : i < l.length), pos ≤ i →
        c2.load ((i + 1) * enc) enc = some (leBytes enc l[i]) := by
    by_cases hlt : pos < l.length
    · obtain ⟨c2, h1, h2, h3, h4⟩ := intsetMoveTail_spec ⟨enc, l.length, c1⟩ pos
        (pos + 1) he (by simp only; omega) (by simp only; omega)
        (by simp only [hc1, Block.size_realloc]; omega)
        (by
          simp only [hc1, Block.size_realloc]
          apply Nat.mul_le_mul_right
          omega)
      simp only at h1 h3 h4
      refine ⟨c2, by rw [if_pos hlt, h1], h2, fun i hi => ?_, fun i hi hpi => ?_⟩
      · rw [h4 i (Or.inl (by omega)), hslot1 i (by omega)]
      · have h5 := h3 (i - pos) (by omega)
        rw [show pos + 1 + (i - pos) = i + 1 by omega, show pos + (i - pos) = i by omega] at h5
        rw [h5, hslot1 i hi]
    · refine ⟨c1, by rw [if_neg hlt], rfl, fun i hi => hslot1 i (by omega), fun i hi hpi => ?_⟩
      omega
  have hposfit := slot_lt enc (show pos < l.length + 1 by omega)
  obtain ⟨c3, hset, hsize3, hnew, hother⟩ := _intsetSet_spec ⟨enc, l.length, c2⟩ v (p := pos)
    (by simp only [hsize2]; omega)
  simp only at hset hnew hother hsize3
  refine ⟨⟨enc, l.length + 1, c3⟩, ?_, rfl, ?_⟩
  · simp only [addAt, intsetResize, u32_of_lt hlen, u32_of_lt hfit, ← hc1, Option.bind_eq_bind,
      Option.pure_def]
    by_cases hlt : pos < l.length
    · rw [if_pos hlt] at hmove
      simp only [if_pos hlt, hmove, Option.bind_some, hset, u32_of_lt hlen]
    · rw [if_neg hlt] at hmove
      simp only [if_neg hlt, hmove, Option.bind_some, hset, u32_of_lt hlen]
  · refine ⟨he, ?_, ?_, ?_⟩
    · rw [List.length_insertIdx_of_le_length hpos]
    · simp only [hsize3, hsize2, List.length_insertIdx_of_le_length hpos]
    · intro i hi
      simp only
      rw [List.length_insertIdx_of_le_length hpos] at hi
      rw [List.getElem_insertIdx]
      by_cases h1 : i < pos
      · have h2 := slot_lt enc h1
        rw [dif_pos h1, hother _ _ (Or.inl h2), hlow2 i h1]
      · rw [dif_neg h1]
        by_cases h2 : i = pos
        · subst h2
          simp only [dite_true, hnew]
        · have h3 : (pos + 1) * enc ≤ i * enc := Nat.mul_le_mul_right enc (by omega)
          have h4 := hhigh2 (i - 1) (by omega) (by omega)
          rw [show i - 1 + 1 = i by omega] at h4
          rw [Nat.succ_mul] at h3
          rw [dif_neg h2, hother _ _ (Or.inr h3), h4]

theorem removeAt_packed (h : Packed is l) (hsmall : l.length * is.encoding < 2 ^ 32) {pos : Nat}
    (hpos : pos < l.length) :
    ∃ is', removeAt is pos = some is' ∧ is'.encoding = is.encoding ∧ Packed is' (l.eraseIdx pos) := by
  obtain ⟨enc, len, c⟩ := is
  obtain ⟨he, rfl, hsize, hslot⟩ := h
  simp only at he hsize hslot hsmall
  have hshrink : (l.length - 1) * enc + enc = l.length * enc := by
    rw [← Nat.succ_mul]
    congr 1
    omega
  obtain ⟨c2, hmove, hsize2, hlow2, hhigh2⟩ : ∃ c2,
      (if pos < l.length - 1 then intsetMoveTail ⟨enc, l.length, c⟩ (pos + 1) pos
        else some ⟨enc, l.length, c⟩) = some ⟨enc, l.length, c2⟩ ∧
      c2.size = c.size ∧
      (∀ i (hi : i < pos), c2.load (i * enc) enc = some (leBytes enc l[i])) ∧
      ∀ i (hi : i + 1 < l.length), pos ≤ i →
        c2.load (i * enc) enc = some (leBytes enc l[i + 1]) := by
    by_cases hlt : pos < l.length - 1
    · obtain ⟨c2, h1, h2, h3, h4⟩ := intsetMoveTail_spec ⟨enc, l.length, c⟩ (pos + 1)
        pos he hsmall (by simp only; omega) (by simp only; omega)
        (by
          simp only [hsize]
          apply Nat.mul_le_mul_right
          omega)
      simp only at h1 h3 h4
      refine ⟨c2, by rw [if_pos hlt, h1], h2, fun i hi => ?_, fun i hi hpi => ?_⟩
      · rw [h4 i (Or.inl hi), hslot i (by omega)]
      · have h5 := h3 (i - pos) (by omega)
        rw [show pos + (i - pos) = i by omega, show pos + 1 + (i - pos) = i + 1 by omega] at h5
        rw [h5, hslot (i + 1) hi]
    · exact ⟨c, by rw [if_neg hlt], rfl, fun i hi => hslot i (by omega), fun i hi hpi => by omega⟩
  refine ⟨⟨enc, l.length - 1, c2.realloc ((l.length - 1) * enc)⟩, ?_, rfl, ?_⟩
  · have hfit : (l.length - 1) * enc < 2 ^ 32 := by omega
    simp only [removeAt, intsetResize, Option.bind_eq_bind, Option.pure_def]
    by_cases hlt : pos < l.length - 1
    · rw [if_pos hlt] at hmove
      simp only [if_pos hlt, hmove, Option.bind_some, u32_of_lt hfit]
    · simp only [if_neg hlt, Option.some.injEq, Intset.mk.injEq, true_and] at hmove
      simp only [if_neg hlt, hmove, Option.bind_some, u32_of_lt hfit]
  · refine ⟨he, ?_, ?_, ?_⟩
    · rw [List.length_eraseIdx_of_lt hpos]
    · simp only [Block.size_realloc, List.length_eraseIdx_of_lt hpos]
    · intro i hi
      rw [List.length_eraseIdx_of_lt hpos] at hi
      have h1 := slot_lt enc hi
      simp only
      rw [Block.load_realloc (by omega), List.getElem_eraseIdx]
      by_cases h2 : i < pos
      · rw [dif_pos h2, hlow2 i h2]
      · rw [dif_neg h2, hhigh2 i (by omega) (by omega)]

/-- The elements go to the wider slots from the last one on, so that none is overwritten before it
has been read: the writes stay at or behind the place they read. -/
theorem upgradeLoop_spec (is : Intset) (l : List Int) (prepend : Nat) {cur : Nat}
    (hle : cur ≤ is.encoding) :
    ∀ (n : Nat) (b : Block), n ≤ l.length →
      (n + prepend) * is.encoding ≤ b.size →
      (∀ x ∈ l, FitsBytes cur x) →
      (∀ i (hi : i < l.length), i < n → b.load (i * cur) cur = some (leBytes cur l[i])) →
      ∃ b', upgradeLoop cur prepend n { is with contents := b } =
          some { is with contents := b' } ∧
        b'.size = b.size ∧
        (∀ i (hi : i < l.length), i < n →
          b'.load ((i + prepend) * is.encoding) is.encoding = some (leBytes is.encoding l[i])) ∧
        ∀ i, n + prepend ≤ i →
          b'.load (i * is.encoding) is.encoding = b.load (i * is.encoding) is.encoding := by
  intro n
  induction n with
  | zero =>
    intro b _ _ _ _
    exact ⟨b, rfl, rfl, fun i _ h0 => absurd h0 (by omega), fun i _ => rfl⟩
  | succ n ih =>
    intro b hn hsize hfits hslot
    have hlt : n < l.length := by omega
    have hread : _intsetGetEncoded { is with contents := b } (n : Int) cur = some l[n] := by
      simp [_intsetGetEncoded, hslot n hlt (by omega),
        leInt_leBytes (hfits _ (List.getElem_mem hlt))]
    have hroom : (n + prepend) * is.encoding + is.encoding ≤ b.size := by
      rw [show n + 1 + prepend = n + prepend + 1 by omega, Nat.succ_mul] at hsize
      exact hsize
    obtain ⟨b1, hset, hsize1, hnew, hother⟩ := _intsetSet_spec { is with contents := b } l[n]
      (p := n + prepend) hroom
    simp only at hset hsize1 hnew hother
    -- the elements still to be read lie before the slot that was written
    have hkeep : ∀ i, i < n → i * cur + cur ≤ (n + prepend) * is.encoding := by
      intro i hi
      calc i * cur + cur ≤ n * cur := slot_lt _ hi
        _ ≤ n * is.encoding := Nat.mul_le_mul_left n hle
        _ ≤ (n + prepend) * is.encoding := Nat.mul_le_mul_right _ (by omega)
    obtain ⟨b2, hrest, hsize2, hlow, hhigh⟩ := ih b1 (by omega) (by rw [hsize1]; omega) hfits
      (fun i hi hin => by rw [hother _ _ (Or.inl (hkeep i hin)), hslot i hi (by omega)])
    refine ⟨b2, ?_, hsize2.trans hsize1, ?_, ?_⟩
    · simp only [upgradeLoop, Option.bind_eq_bind, hread, Option.bind_some, hset, hrest]
    · intro i hi hin
      by_cases hc : i < n
      · exact hlow i hi hc
      · obtain rfl : i = n := by omega
        rw [hhigh _ (by omega), hnew]
    · intro i hi
      have h1 : (n + prepend + 1) * is.encoding ≤ i * is.encoding :=
        Nat.mul_le_mul_right _ (by omega)
      rw [Nat.succ_mul] at h1
      rw [hhigh i (by omega), hother _ _ (Or.inr h1)]

theorem intsetUpgradeAndAdd_packed (h : Packed is l) (hw : Wide is l) {v : Int}
    (hup : is.encoding < _intsetValueEncoding v)
    (hfit : (l.length + 1) * _intsetValueEncoding v < 2 ^ 32) :
    ∃ is', intsetUpgradeAndAdd is v = some is' ∧ is'.encoding = _intsetValueEncoding v ∧
      Packed is' (if v < 0 then v :: l else l ++ [v]) := by
  obtain ⟨enc, len, c⟩ := is
  obtain ⟨he, rfl, hsize, hslot⟩ := h
  simp only at he hsize hslot hup
  set newenc := _intsetValueEncoding v with hnewenc
  have hvalid : ValidEncoding newenc := valueEncoding_valid v
  have hlen : l.length + 1 < 2 ^ 32 := by
    have h1 : l.length + 1 ≤ (l.length + 1) * newenc := by
      apply Nat.le_mul_of_pos_right
      rcases hvalid with h | h | h <;> omega
    omega
  have hgrow : (l.length + 1) * newenc = l.length * newenc + newenc := Nat.succ_mul _ _
  have hold : l.length * enc ≤ l.length * newenc := Nat.mul_le_mul_left _ (le_of_lt hup)
  set c1 := c.realloc ((l.length + 1) * newenc) with hc1
  have hslot1 : ∀ i (hi : i < l.length), i < l.length →
      c1.load (i * enc) enc = some (leBytes enc l[i]) := by
    intro i hi _
    have h1 := slot_lt enc hi
    rw [hc1, Block.load_realloc (by omega), hslot i hi]
  by_cases hneg : v < 0
  · obtain ⟨c2, hloop, hsize2, hmoved, -⟩ := upgradeLoop_spec ⟨newenc, l.length, c1⟩ l 1
      (le_of_lt hup) l.length c1 le_rfl le_rfl hw.fits hslot1
    obtain ⟨c3, hset, hsize3, hnew, hother⟩ := _intsetSet_spec ⟨newenc, l.length, c2⟩ v (p := 0)
      (by rw [hsize2, hc1, Block.size_realloc]; simp only; omega)
    simp only [Nat.zero_mul, Nat.zero_add] at hset hnew hother hsize3 hloop
    refine ⟨⟨newenc, l.length + 1, c3⟩, ?_, rfl, ?_⟩
    · simp only [intsetUpgradeAndAdd, intsetResize, ← hnewenc, u32_of_lt hlen, u32_of_lt hfit, ← hc1,
        if_pos hneg, Option.bind_eq_bind, Option.pure_def, hloop, Option.bind_some, if_true]
      rw [show (0 : Int) = ((0 : Nat) : Int) from rfl, hset]
      simp only [Option.bind_some, u32_of_lt hlen]
    · rw [if_pos hneg]
      refine ⟨hvalid, by simp, ?_, ?_⟩
      · simp only [hsize3, hsize2, hc1, Block.size_realloc, List.length_cons]
      · intro i hi
        simp only
        cases i with
        | zero => rw [Nat.zero_mul, hnew, List.getElem_cons_zero]
        | succ i =>
          have hi' : i < l.length := by simpa using hi
          have h1 : newenc ≤ (i + 1) * newenc := Nat.le_mul_of_pos_left _ (by omega)
          rw [hother _ _ (Or.inr h1), hmoved i hi' hi', List.getElem_cons_succ]
  · obtain ⟨c2, hloop, hsize2, hmoved, -⟩ := upgradeLoop_spec ⟨newenc, l.length, c1⟩ l 0
      (le_of_lt hup) l.length c1 le_rfl
      (by rw [hc1, Block.size_realloc, Nat.add_zero]; simp only; omega) hw.fits hslot1
    obtain ⟨c3, hset, hsize3, hnew, hother⟩ := _intsetSet_spec ⟨newenc, l.length, c2⟩ v
      (p := l.length) (by rw [hsize2, hc1, Block.size_realloc]; simp only; omega)
    simp only [Nat.add_zero] at hset hnew hother hsize3 hloop hmoved
    refine ⟨⟨newenc, l.length + 1, c3⟩, ?_, rfl, ?_⟩
    · simp only [intsetUpgradeAndAdd, intsetResize, ← hnewenc, u32_of_lt hlen, u32_of_lt hfit, ← hc1,
        if_neg hneg, Option.bind_eq_bind, Option.pure_def, hloop, Option.bind_some,
        show ¬ (0 : Nat) = 1 by decide, if_false, hset]
    · rw [if_neg hneg]
      refine ⟨hvalid, by simp, ?_, ?_⟩
      · simp only [hsize3, hsize2, hc1, Block.size_realloc, List.length_append, List.length_cons,
          List.length_nil]
      · intro i hi
        simp only
        by_cases hlt : i < l.length
        · rw [hother _ _ (Or.inl (slot_lt _ hlt)), hmoved i hlt hlt, List.getElem_append_left hlt]
        · obtain rfl : i = l.length := by
            simp only [List.length_append, List.length_cons, List.length_nil] at hi
            omega
          rw [hnew, List.getElem_concat_length rfl]

end

end RedisCluster

/-!
## The binary search of an intset

On a strictly ascending array the bisection finds the value, or the place between the smaller and
the larger elements. The sum `min + max` stays in `int` because an array of 16-bit elements has at
most `2 ^ 16` of them and the others fewer than `2 ^ 30`.
-/

namespace RedisCluster

open RedisCluster.Lib

theorem length_le_of_ascending {l : List Int} (hs : l.Pairwise (· < ·)) :
    ∀ {a b : Int}, a ≤ b → (∀ x ∈ l, a ≤ x ∧ x < b) → (l.length : Int) ≤ b - a := by
  induction l with
  | nil =>
    intro a b hab _
    simp only [List.length_nil]
    omega
  | cons x l ih =>
    intro a b hab hr
    obtain ⟨h1, h2⟩ := List.pairwise_cons.mp hs
    obtain ⟨hx1, hx2⟩ := hr x (List.mem_cons_self ..)
    have h3 := ih h2 (a := x + 1) (b := b) (by omega)
      (fun y hy => ⟨by have := h1 y hy; omega, (hr y (List.mem_cons_of_mem _ hy)).2⟩)
    simp only [List.length_cons]
    omega

theorem Wide.length_lt {is : Intset} {l : List Int} (h : Packed is l) (hw : Wide is l)
    (hs : l.Pairwise (· < ·)) : 2 * l.length ≤ 2 ^ 31 := by
  have hsmall := hw.small
  rcases h.valid with he | he | he
  · have hfits : ∀ x ∈ l, (-2 ^ 15 : Int) ≤ x ∧ x < 2 ^ 15 := by
      intro x hx
      have hf := hw.fits x hx
      rw [he, FitsBytes] at hf
      omega
    have hlen := length_le_of_ascending hs (by decide) hfits
    omega
  · rw [he] at hsmall
    omega
  · rw [he] at hsmall
    omega

def PlaceOf (l : List Int) (value : Int) (found : Bool) (pos : Nat) : Prop :=
  if found then l[pos]? = some value
  else pos ≤ l.length ∧ (∀ i (hi : i < l.length), i < pos → l[i] < value) ∧
    ∀ i (hi : i < l.length), pos ≤ i → value < l[i]

section

variable {is : Intset} {l : List Int}

theorem ascending_lt (hs : l.Pairwise (· < ·)) {i j : Nat} (hij : i < j) (hj : j < l.length) :
    l[i] < l[j] :=
  List.pairwise_iff_getElem.mp hs i j (by omega) hj hij

/-- The loop invariant: everything before `min` is smaller and everything after `max` is larger than
the value. A loop that does not start leaves `cur` as it was. -/
theorem searchLoop_spec (h : Packed is l) (hw : Wide is l) (hs : l.Pairwise (· < ·))
    (value : Int) :
    ∀ (fuel : Nat) (min max mid cur : Int), 0 ≤ min → max < l.length → min ≤ max + 1 →
      max + 1 - min < fuel → (max < min → cur ≠ value) →
      (∀ i (hi : i < l.length), (i : Int) < min → l[i] < value) →
      (∀ i (hi : i < l.length), max < (i : Int) → value < l[i]) →
      ∃ min' mid' cur', searchLoop is value fuel min max mid cur = some (min', mid', cur') ∧
        PlaceOf l value (decide (value = cur')) (if value = cur' then mid'.toNat else min'.toNat) := by
  intro fuel
  induction fuel with
  | zero =>
    intro min max mid cur _ _ _ hfuel
    omega
  | succ fuel ih =>
    intro min max mid cur hmin hmax hmm hfuel hcur hlow hhigh
    by_cases hgo : max ≥ min
    · have hlen := hw.length_lt h hs
      obtain ⟨m, hm⟩ : ∃ m : Nat, (min + max) / 2 = (m : Int) := ⟨((min + max) / 2).toNat, by omega⟩
      have hmlt : m < l.length := by omega
      have hmid : intMid min max = some (m : Int) := by
        rw [intMid, if_neg (by omega), hm]
      have hget := h.get hw hmlt
      simp only [searchLoop, if_pos hgo, hmid, Option.bind_eq_bind, Option.bind_some, hget]
      by_cases hgt : value > l[m]
      · rw [if_pos hgt]
        apply ih _ _ _ _ (by omega) hmax (by omega) (by omega) (fun _ => by omega) ?_ hhigh
        intro i hi him
        rcases Nat.lt_or_ge i m with hlt | hge
        · have := ascending_lt hs hlt hmlt
          omega
        · obtain rfl : i = m := by omega
          omega
      · rw [if_neg hgt]
        by_cases hlt : value < l[m]
        · rw [if_pos hlt]
          apply ih _ _ _ _ hmin (by omega) (by omega) (by omega) (fun _ => by omega) hlow ?_
          intro i hi him
          rcases Nat.lt_or_ge m i with hmi | hge
          · have := ascending_lt hs hmi hi
            omega
          · obtain rfl : i = m := by omega
            omega
        · rw [if_neg hlt]
          have heq : value = l[m] := by omega
          refine ⟨min, m, l[m], rfl, ?_⟩
          rw [if_pos heq, decide_eq_true heq, PlaceOf, if_pos rfl, Int.toNat_natCast,
            List.getElem?_eq_getElem hmlt, heq]
    · refine ⟨min, mid, cur, by simp only [searchLoop, if_neg hgo], ?_⟩
      have hne : ¬ value = cur := fun hc => hcur (by omega) hc.symm
      rw [if_neg hne, decide_eq_false hne, PlaceOf, if_neg (by simp)]
      refine ⟨by omega, fun i hi hin => hlow i hi (by omega), fun i hi hin => hhigh i hi (by omega)⟩

theorem intsetSearch_spec (h : Packed is l) (hw : Wide is l) (hs : l.Pairwise (· < ·))
    (value : Int) :
    ∃ found pos, intsetSearch is value = some (found, pos) ∧ PlaceOf l value found pos := by
  unfold intsetSearch
  rw [h.length_eq]
  by_cases hzero : l.length = 0
  · refine ⟨false, 0, if_pos hzero, ?_⟩
    rw [PlaceOf, if_neg (by simp)]
    exact ⟨by omega, fun i hi => absurd hi (by omega), fun i hi => absurd hi (by omega)⟩
  · have hlast : l.length - 1 < l.length := by omega
    have hfirst : 0 < l.length := by omega
    have hget0 := h.get hw hfirst
    rw [Nat.cast_zero] at hget0
    rw [if_neg hzero]
    simp only [h.get hw hlast, Option.bind_eq_bind, Option.bind_some, Option.pure_def]
    by_cases hgt : value > l[l.length - 1]
    · refine ⟨false, l.length, if_pos hgt, ?_⟩
      rw [PlaceOf, if_neg (by simp)]
      refine ⟨le_rfl, fun i hi _ => ?_, fun i hi hge => by omega⟩
      rcases Nat.lt_or_ge i (l.length - 1) with hlt | hge
      · have := ascending_lt hs hlt hlast
        omega
      · obtain rfl : i = l.length - 1 := by omega
        exact hgt
    · rw [if_neg hgt, hget0]
      simp only [Option.bind_some]
      by_cases hlt : value < l[0]
      · refine ⟨false, 0, if_pos hlt, ?_⟩
        rw [PlaceOf, if_neg (by simp)]
        refine ⟨by omega, fun i _ h0 => by omega, fun i hi _ => ?_⟩
        rcases Nat.eq_zero_or_pos i with rfl | hpos
        · exact hlt
        · have := ascending_lt hs hpos hi
          omega
      · rw [if_neg hlt]
        obtain ⟨min, mid, cur, hloop, hplace⟩ := searchLoop_spec h hw hs value (l.length + 1)
          0 (l.length - 1 : Nat) (-1) (-1) le_rfl (by omega) (by omega) (by omega) (by omega)
          (fun i _ h0 => by omega) (fun i hi h0 => by omega)
        simp only [hloop, Option.bind_some]
        by_cases heq : value = cur
        · rw [if_pos heq, decide_eq_true heq] at hplace
          exact ⟨true, mid.toNat, if_pos heq, hplace⟩
        · rw [if_neg heq, decide_eq_false heq] at hplace
          exact ⟨false, min.toNat, if_neg heq, hplace⟩

end

end RedisCluster
