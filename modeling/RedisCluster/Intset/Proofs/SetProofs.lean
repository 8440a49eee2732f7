import Mathlib
import RedisCluster.Intset.Proofs.SearchProofs

/-!
# An intset refines a finite set

Over every run whose byte counts fit `uint32_t` the intset answers like the set of its elements and
stays strictly ascending in an encoding that is wide enough.
-/

namespace RedisCluster

open RedisCluster.Lib

/-- The intset is the packed ascending sequence of the elements of `s`. -/
structure Holds (is : Intset) (s : Finset Int) : Prop where
  packed : Packed is s.sort
  wide : Wide is s.sort

/-- What an intset shows of the set `s`. -/
structure Represents (is : Intset) (s : Finset Int) : Prop where
  len_eq : intsetLen is = s.card
  mem_iff : ∀ v, v ∈ s ↔ ∃ i, intsetGet is i = some (some v)
  ascending : ∀ i j x y, i < j → intsetGet is i = some (some x) → intsetGet is j = some (some y) →
    x < y
  wide_enough : ∀ v ∈ s, _intsetValueEncoding v ≤ is.encoding

def IntsetOpFits (is : Intset) : IntsetOp → Prop
  | .add v => (∃ i < is.length, intsetGet is i = some (some v.val)) ∨
      (is.length + 1) * max is.encoding (_intsetValueEncoding v) < 2 ^ 32
  | _ => True

instance (is : Intset) : ∀ op, Decidable (IntsetOpFits is op)
  | .add _ => inferInstanceAs (Decidable (_ ∨ _))
  | .remove _ | .find _ | .get _ | .len => inferInstanceAs (Decidable True)

def IntsetRefines (ops : List IntsetOp) : Prop :=
  ∃ is, runOption intsetStep intsetNew ops = some (is, (runReplies setStep ∅ ops).2) ∧
    Represents is (runReplies setStep ∅ ops).1

theorem sort_eq_of_ascending {s : Finset Int} {l : List Int} (hs : l.Pairwise (· < ·))
    (hmem : ∀ x, x ∈ l ↔ x ∈ s) : s.sort = l := by
  have hset : l.toFinset = s := by
    ext x
    rw [List.mem_toFinset, hmem]
  rw [← hset]
  exact (List.toFinset_sort (· ≤ ·) (hs.imp ne_of_lt)).mpr (hs.imp le_of_lt)

theorem sort_ascending (s : Finset Int) : s.sort.Pairwise (· < ·) :=
  (Finset.sortedLT_sort s).pairwise

theorem sort_insert_place {s : Finset Int} {v : Int} {pos : Nat}
    (hp : PlaceOf s.sort v false pos) : (insert v s).sort = s.sort.insertIdx pos v := by
  obtain ⟨hpos, hlow, hhigh⟩ : pos ≤ s.sort.length ∧ _ ∧ _ := by
    rw [PlaceOf, if_neg (by simp)] at hp
    exact hp
  apply sort_eq_of_ascending
  · rw [List.pairwise_iff_getElem]
    intro i j hi hj hij
    rw [List.length_insertIdx_of_le_length hpos] at hi hj
    have hsort := sort_ascending s
    rw [List.getElem_insertIdx, List.getElem_insertIdx]
    by_cases h1 : i < pos
    · rw [dif_pos h1]
      by_cases h2 : j < pos
      · rw [dif_pos h2]
        exact ascending_lt hsort hij _
      · rw [dif_neg h2]
        by_cases h3 : j = pos
        · rw [dif_pos h3]
          exact hlow i (by omega) h1
        · rw [dif_neg h3]
          exact ascending_lt hsort (by omega) (by omega)
    · rw [dif_neg h1, dif_neg (show ¬ j < pos by omega), dif_neg (show ¬ j = pos by omega)]
      by_cases h2 : i = pos
      · rw [dif_pos h2]
        exact hhigh (j - 1) (by omega) (by omega)
      · rw [dif_neg h2]
        exact ascending_lt hsort (by omega) (by omega)
  · intro x
    rw [List.mem_insertIdx hpos, Finset.mem_insert, Finset.mem_sort]

theorem sort_erase_place {s : Finset Int} {v : Int} {pos : Nat}
    (hp : PlaceOf s.sort v true pos) : (s.erase v).sort = s.sort.eraseIdx pos := by
  rw [PlaceOf, if_pos rfl] at hp
  have hsort := sort_ascending s
  apply sort_eq_of_ascending
  · exact hsort.sublist (List.eraseIdx_sublist ..)
  · intro x
    obtain ⟨hlt, hv⟩ := List.getElem?_eq_some_iff.mp hp
    rw [Finset.mem_erase, ← Finset.mem_sort (r := (· ≤ ·)) (s := s), List.mem_eraseIdx_iff_getElem]
    constructor
    · rintro ⟨i, hi, hne, rfl⟩
      refine ⟨fun heq => ?_, List.getElem_mem hi⟩
      rcases Nat.lt_or_gt_of_ne hne with hlt' | hgt
      · have := ascending_lt hsort hlt' hlt
        omega
      · have := ascending_lt hsort hgt hi
        omega
    · rintro ⟨hne, hx⟩
      obtain ⟨i, hi, rfl⟩ := List.getElem_of_mem hx
      refine ⟨i, hi, fun hc => hne ?_, rfl⟩
      subst hc
      exact hv

theorem place_found {s : Finset Int} {v : Int} {found : Bool} {pos : Nat}
    (hp : PlaceOf s.sort v found pos) : found = decide (v ∈ s) := by
  cases found with
  | true =>
    rw [PlaceOf, if_pos rfl] at hp
    have h : v ∈ s := (Finset.mem_sort (· ≤ ·)).mp (List.mem_of_getElem? hp)
    rw [decide_eq_true h]
  | false =>
    rw [PlaceOf, if_neg (by simp)] at hp
    obtain ⟨-, hlow, hhigh⟩ := hp
    have h : v ∉ s := by
      intro hv
      obtain ⟨i, hi, hvi⟩ := List.getElem_of_mem ((Finset.mem_sort (· ≤ ·)).mpr hv)
      rcases Nat.lt_or_ge i pos with hlt | hge
      · have := hlow i hi hlt
        omega
      · have := hhigh i hi hge
        omega
    rw [decide_eq_false h]

section

variable {is : Intset} {s : Finset Int}

theorem Holds.search (h : Holds is s) (v : Int) :
    ∃ pos, intsetSearch is v = some (decide (v ∈ s), pos) ∧
      PlaceOf s.sort v (decide (v ∈ s)) pos := by
  obtain ⟨found, pos, hsearch, hplace⟩ :=
    intsetSearch_spec h.packed h.wide (sort_ascending s) v
  rw [place_found hplace] at hsearch hplace
  exact ⟨pos, hsearch, hplace⟩

theorem Holds.encoding_le (h : Holds is s) {v : Int} (h64 : FitsBytes 8 v) (hv : v ∈ s) :
    _intsetValueEncoding v ≤ is.encoding :=
  (fitsBytes_iff h64 h.packed.valid).mp (h.wide.fits v ((Finset.mem_sort _).mpr hv))

theorem Holds.get (h : Holds is s) (pos : Nat) : intsetGet is pos = some s.sort[pos]? := by
  unfold intsetGet
  rw [h.packed.length_eq]
  by_cases hlt : pos < s.sort.length
  · rw [if_pos hlt, h.packed.get h.wide hlt, List.getElem?_eq_getElem hlt]
    rfl
  · rw [if_neg hlt, List.getElem?_eq_none (by omega)]

theorem Holds.find (h : Holds is s) {v : Int} (h64 : FitsBytes 8 v) :
    intsetFind is v = some (decide (v ∈ s)) := by
  unfold intsetFind
  obtain ⟨pos, hsearch, -⟩ := h.search v
  by_cases hle : _intsetValueEncoding v ≤ is.encoding
  · simp [hle, hsearch]
  · have hnot : v ∉ s := fun hv => hle (h.encoding_le h64 hv)
    simp [hle, hnot]

theorem Holds.remove (h : Holds is s) {v : Int} (h64 : FitsBytes 8 v) :
    ∃ is', intsetRemove is v = some (is', decide (v ∈ s)) ∧ Holds is' (s.erase v) := by
  obtain ⟨pos, hsearch, hplace⟩ := h.search v
  by_cases hv : v ∈ s
  · rw [decide_eq_true hv] at hsearch hplace
    have hlt : pos < s.sort.length := by
      rw [PlaceOf, if_pos rfl] at hplace
      exact (List.getElem?_eq_some_iff.mp hplace).1
    obtain ⟨is', hrem, henc, hpacked⟩ := removeAt_packed h.packed h.wide.small hlt
    refine ⟨is', ?_, ?_, ?_⟩
    · simp [intsetRemove, h.encoding_le h64 hv, hsearch, hrem, hv]
    · rwa [sort_erase_place hplace]
    · rw [sort_erase_place hplace]
      refine ⟨fun x hx => ?_, ?_⟩
      · rw [henc]
        exact h.wide.fits x (List.mem_of_mem_eraseIdx hx)
      · rw [henc, List.length_eraseIdx_of_lt hlt]
        have h1 := h.wide.small
        have h2 : (s.sort.length - 1) * is.encoding ≤ s.sort.length * is.encoding :=
          Nat.mul_le_mul_right _ (by omega)
        omega
  · rw [decide_eq_false hv] at hsearch
    refine ⟨is, ?_, by rwa [Finset.erase_eq_of_notMem hv]⟩
    by_cases hle : _intsetValueEncoding v ≤ is.encoding
    · simp [intsetRemove, hle, hsearch, hv]
    · simp [intsetRemove, hle, hv]

theorem Holds.place_of_wider (h : Holds is s) {v : Int} (h64 : FitsBytes 8 v)
    (hup : is.encoding < _intsetValueEncoding v) :
    PlaceOf s.sort v false (if v < 0 then 0 else s.sort.length) := by
  have hout : ¬ FitsBytes is.encoding v := by
    rw [fitsBytes_iff h64 h.packed.valid]
    omega
  have hcmp : ∀ i (hi : i < s.sort.length), FitsBytes is.encoding s.sort[i] :=
    fun i hi => h.wide.fits _ (List.getElem_mem hi)
  simp only [FitsBytes] at hout hcmp
  rw [PlaceOf, if_neg (by simp)]
  by_cases hneg : v < 0
  · rw [if_pos hneg]
    refine ⟨by omega, fun i _ h0 => by omega, fun i hi _ => ?_⟩
    have := hcmp i hi
    omega
  · rw [if_neg hneg]
    refine ⟨le_rfl, fun i hi _ => ?_, fun i hi hge => by omega⟩
    have := hcmp i hi
    omega

theorem Holds.add (h : Holds is s) {v : Int} (h64 : FitsBytes 8 v)
    (hfit : v ∈ s ∨ (is.length + 1) * max is.encoding (_intsetValueEncoding v) < 2 ^ 32) :
    ∃ is', intsetAdd is v = some (is', decide (v ∉ s)) ∧ Holds is' (insert v s) := by
  obtain ⟨pos, hsearch, hplace⟩ := h.search v
  by_cases hv : v ∈ s
  · rw [decide_eq_true hv] at hsearch
    have hle : ¬ _intsetValueEncoding v > is.encoding := by
      have := h.encoding_le h64 hv
      omega
    refine ⟨is, ?_, by rwa [Finset.insert_eq_of_mem hv]⟩
    simp [intsetAdd, hle, hsearch, hv]
  · rw [decide_eq_false hv] at hsearch hplace
    have hfit' := hfit.resolve_left hv
    rw [h.packed.length_eq] at hfit'
    by_cases hup : _intsetValueEncoding v > is.encoding
    · rw [max_eq_right (le_of_lt hup)] at hfit'
      obtain ⟨is', hadd, henc, hpacked⟩ := intsetUpgradeAndAdd_packed h.packed h.wide hup hfit'
      have hsort : (insert v s).sort = if v < 0 then v :: s.sort else s.sort ++ [v] := by
        rw [sort_insert_place (h.place_of_wider h64 hup)]
        by_cases hneg : v < 0
        · rw [if_pos hneg, if_pos hneg, List.insertIdx_zero]
        · rw [if_neg hneg, if_neg hneg, List.insertIdx_length_self]
      refine ⟨is', by simp [intsetAdd, hup, hadd, hv], ?_, ?_⟩
      · rwa [hsort]
      · refine ⟨fun x hx => ?_, ?_⟩
        · rw [Finset.mem_sort, Finset.mem_insert] at hx
          rw [henc]
          rcases hx with rfl | hx
          · exact (fitsBytes_iff h64 (valueEncoding_valid _)).mpr le_rfl
          · exact (h.wide.fits x ((Finset.mem_sort _).mpr hx)).mono (le_of_lt hup)
        · rw [henc, Finset.length_sort, Finset.card_insert_of_notMem hv]
          rwa [Finset.length_sort] at hfit'
    · rw [max_eq_left (by omega)] at hfit'
      have hpos : pos ≤ s.sort.length := by
        rw [PlaceOf, if_neg (by simp)] at hplace
        exact hplace.1
      obtain ⟨is', hadd, henc, hpacked⟩ := addAt_packed h.packed hpos v hfit'
      refine ⟨is', by simp [intsetAdd, hup, hsearch, hadd, hv], ?_, ?_⟩
      · rwa [sort_insert_place hplace]
      · refine ⟨fun x hx => ?_, ?_⟩
        · rw [Finset.mem_sort, Finset.mem_insert] at hx
          rw [henc]
          rcases hx with rfl | hx
          · exact (fitsBytes_iff h64 h.packed.valid).mpr (by omega)
          · exact h.wide.fits x ((Finset.mem_sort _).mpr hx)
        · rw [henc, Finset.length_sort, Finset.card_insert_of_notMem hv]
          rwa [Finset.length_sort] at hfit'

theorem intsetNew_holds : Holds intsetNew ∅ := by
  refine ⟨⟨Or.inl rfl, ?_, ?_, fun i hi => ?_⟩, ⟨fun x hx => ?_, ?_⟩⟩
  · simp [intsetNew]
  · simp [intsetNew, Block.alloc]
  · simp at hi
  · simp at hx
  · simp

theorem intsetStep_holds (h : Holds is s) (op : IntsetOp) (hfit : IntsetOpFits is op) :
    ∃ is', intsetStep is op = some (is', (setStep s op).2) ∧ Holds is' (setStep s op).1 := by
  cases op with
  | add v =>
    have hfit' : v.val ∈ s ∨
        (is.length + 1) * max is.encoding (_intsetValueEncoding v) < 2 ^ 32 := by
      rcases hfit with ⟨i, -, hi⟩ | hlt
      · left
        rw [h.get i, Option.some.injEq] at hi
        exact (Finset.mem_sort _).mp (List.mem_of_getElem? hi)
      · exact Or.inr hlt
    obtain ⟨is', hadd, hh⟩ := h.add v.property hfit'
    exact ⟨is', by simp [intsetStep, setStep, hadd], hh⟩
  | remove v =>
    obtain ⟨is', hrem, hh⟩ := h.remove v.property
    exact ⟨is', by simp [intsetStep, setStep, hrem], hh⟩
  | find v => exact ⟨is, by simp [intsetStep, setStep, h.find v.property], h⟩
  | get pos => exact ⟨is, by simp [intsetStep, setStep, h.get pos], h⟩
  | len =>
    refine ⟨is, ?_, h⟩
    simp [intsetStep, setStep, intsetLen, h.packed.length_eq]

theorem Holds.represents (h : Holds is s) (h64 : ∀ v ∈ s, FitsBytes 8 v) : Represents is s where
  len_eq := by rw [intsetLen, h.packed.length_eq, Finset.length_sort]
  mem_iff := by
    intro v
    rw [← Finset.mem_sort (r := (· ≤ ·)), List.mem_iff_getElem?]
    exact exists_congr fun i => by rw [h.get i, Option.some.injEq]
  ascending := by
    intro i j x y hij hx hy
    rw [h.get, Option.some.injEq, List.getElem?_eq_some_iff] at hx hy
    obtain ⟨hi, rfl⟩ := hx
    obtain ⟨hj, rfl⟩ := hy
    exact ascending_lt (sort_ascending s) hij hj
  wide_enough := fun v hv => h.encoding_le (h64 v hv) hv

theorem setRun_fits (ops : List IntsetOp) :
    ∀ {s : Finset Int}, (∀ v ∈ s, FitsBytes 8 v) →
      ∀ v ∈ (runReplies setStep s ops).1, FitsBytes 8 v := by
  induction ops with
  | nil => exact fun hs => hs
  | cons op ops ih =>
    intro s hs
    rw [runReplies_cons]
    apply ih
    intro v hv
    cases op with
    | add x =>
      rcases Finset.mem_insert.mp hv with rfl | hv
      · exact x.property
      · exact hs v hv
    | remove x => exact hs v (Finset.mem_of_mem_erase hv)
    | find x => exact hs v hv
    | get pos => exact hs v hv
    | len => exact hs v hv

end

/-- Every run whose byte counts fit refines a finite set. -/
theorem intset_refines_set (ops : List IntsetOp)
    (hfit : RunOptionMeets intsetStep IntsetOpFits intsetNew ops) : IntsetRefines ops := by
  obtain ⟨is, hrun, hholds⟩ := runOption_refines (R := Holds)
    (fun _ _ op hR hok => intsetStep_holds hR op hok) intsetNew_holds hfit
  exact ⟨is, hrun, hholds.represents (setRun_fits ops (by simp))⟩

/-- Values at the width boundaries, so that the array is upgraded twice. -/
theorem intset_refines_set_upgrade :
    IntsetRefines [.add ⟨5, by decide⟩, .add ⟨-32768, by decide⟩, .add ⟨32768, by decide⟩,
      .remove ⟨5, by decide⟩, .add ⟨-2147483649, by decide⟩, .find ⟨-32768, by decide⟩, .get 1,
      .len] :=
  intset_refines_set _ (by decide +kernel)

def wideValue (i : Nat) : Int64Value :=
  if h : FitsBytes 8 (2 ^ 32 + i) then ⟨2 ^ 32 + i, h⟩ else ⟨0, by decide⟩

def ascendingAdds (n : Nat) : List IntsetOp := (List.range n).map fun i => .add (wideValue i)

def ascendingSet (n : Nat) : Finset Int := (Finset.range n).image fun i => (wideValue i).val

theorem wideValue_val {i : Nat} (hi : i < 2 ^ 29) : (wideValue i).val = 2 ^ 32 + i := by
  have hfit : FitsBytes 8 (2 ^ 32 + (i : Int)) := by
    unfold FitsBytes
    omega
  rw [wideValue, dif_pos hfit]

theorem wideValue_encoding {i : Nat} (hi : i < 2 ^ 29) : _intsetValueEncoding (wideValue i) = 8 := by
  rw [wideValue_val hi, _intsetValueEncoding, if_pos (by omega), INTSET_ENC_INT64]

theorem ascendingAdds_succ (n : Nat) :
    ascendingAdds (n + 1) = ascendingAdds n ++ [.add (wideValue n)] := by
  rw [ascendingAdds, List.range_succ, List.map_append]
  rfl

theorem Holds.ascending_length {is : Intset} {n : Nat} (h : Holds is (ascendingSet n))
    (hn : n ≤ 2 ^ 29) : is.length = n := by
  rw [h.packed.length_eq, Finset.length_sort, ascendingSet, Finset.card_image_of_injOn,
    Finset.card_range]
  intro i hi j hj hij
  rw [Finset.coe_range, Set.mem_Iio] at hi hj
  simp only [wideValue_val (show i < 2 ^ 29 by omega),
    wideValue_val (show j < 2 ^ 29 by omega)] at hij
  omega

theorem Holds.ascending_fits {is : Intset} {n : Nat} (h : Holds is (ascendingSet n)) (hn : n + 1 < 2 ^ 29) :
    (is.length + 1) * max is.encoding (_intsetValueEncoding (wideValue n)) < 2 ^ 32 := by
  have hlen := h.ascending_length (by omega)
  have hmax : max is.encoding (_intsetValueEncoding (wideValue n)) ≤ 8 := by
    rw [wideValue_encoding (by omega)]
    rcases h.packed.valid with h | h | h <;> omega
  have hbytes := Nat.mul_le_mul_left (is.length + 1) hmax
  omega

theorem Holds.ascending_encoding {is : Intset} {n : Nat} (h : Holds is (ascendingSet n)) (hn : 0 < n) :
    is.encoding = 8 := by
  have hfirst : (wideValue 0).val ∈ ascendingSet n :=
    Finset.mem_image_of_mem _ (Finset.mem_range.mpr hn)
  have hle := h.encoding_le (wideValue 0).property hfirst
  rw [wideValue_encoding (by decide)] at hle
  rcases h.packed.valid with h | h | h <;> omega

theorem ascendingSet_lt {n : Nat} (hn : n < 2 ^ 29) : ∀ x ∈ ascendingSet n, x < (wideValue n).val := by
  intro x hx
  obtain ⟨i, hi, rfl⟩ := Finset.mem_image.mp hx
  rw [Finset.mem_range] at hi
  rw [wideValue_val (by omega), wideValue_val hn]
  omega

theorem ascendingAdds_holds :
    ∀ n, n < 2 ^ 29 → ∃ is replies, runOption intsetStep intsetNew (ascendingAdds n) =
      some (is, replies) ∧ Holds is (ascendingSet n) := by
  intro n
  induction n with
  | zero => exact fun _ => ⟨intsetNew, [], rfl, by simpa [ascendingSet] using intsetNew_holds⟩
  | succ n ih =>
    intro hn
    obtain ⟨is, replies, hrun, hh⟩ := ih (by omega)
    obtain ⟨is', hstep, hh'⟩ := intsetStep_holds hh (.add (wideValue n)) (Or.inr (hh.ascending_fits hn))
    refine ⟨is', replies ++ [(setStep (ascendingSet n) (.add (wideValue n))).2], ?_, ?_⟩
    · rw [ascendingAdds_succ, runOption_concat hrun, hstep]
      rfl
    · rw [ascendingSet, Finset.range_add_one, Finset.image_insert]
      exact hh'

theorem _intsetSet_none {is : Intset} {pos : Nat} (v : Int) (h : is.contents.size < pos * is.encoding + is.encoding) :
    _intsetSet is pos v = none := by
  have hpos : ¬ ((pos : Int) < 0) := by omega
  have hroom : ¬ (pos * is.encoding + (leBytes is.encoding v).length ≤ is.contents.size) := by
    rw [length_leBytes]
    omega
  rw [_intsetSet, if_neg hpos, Int.toNat_natCast, Block.store, if_neg hroom]
  rfl

theorem u32_too_small {len enc : Nat} (hlen : len < 2 ^ 31) (henc : enc ≤ 8) (hfit : 2 ^ 32 ≤ (len + 1) * enc) :
    u32 (u32 (len + 1) * enc) < len * enc := by
  have hkeep : u32 (len + 1) = len + 1 := Nat.mod_eq_of_lt (by omega)
  have hmul : (len + 1) * enc = len * enc + enc := Nat.succ_mul len enc
  rw [hkeep, u32]
  omega

theorem Holds.length_lt (h : Holds is s) : is.length < 2 ^ 31 := by
  have hsmall := h.wide.small
  rw [← h.packed.length_eq] at hsmall
  rcases h.packed.valid with henc | henc | henc <;> rw [henc] at hsmall <;> omega

theorem Holds.add_none (h : Holds is s) {v : Int} (hv : v ∉ s)
    (hfit : 2 ^ 32 ≤ (is.length + 1) * max is.encoding (_intsetValueEncoding v)) : intsetAdd is v = none := by
  have hlen := h.length_lt
  have hsmall := h.wide.small
  rw [← h.packed.length_eq] at hsmall
  by_cases hup : _intsetValueEncoding v > is.encoding
  · rw [max_eq_right (le_of_lt hup)] at hfit
    have henc : _intsetValueEncoding v ≤ 8 := by
      rcases valueEncoding_valid v with h | h | h <;> omega
    have hroom := u32_too_small hlen henc hfit
    have hupgrade : intsetUpgradeAndAdd is v = none := by
      obtain ⟨n, hn⟩ : ∃ n, is.length = n + 1 := by
        refine ⟨is.length - 1, ?_⟩
        by_contra hzero
        have : is.length = 0 := by omega
        rw [this] at hfit
        omega
      -- the last element is moved first
      have hlast (is' : Intset) (prepend : Nat) (x : Int) (henc' : is'.encoding = _intsetValueEncoding v)
          (hsize : is'.contents.size = u32 (u32 (is.length + 1) * _intsetValueEncoding v)) :
          _intsetSet is' (n + prepend : Nat) x = none := by
        refine _intsetSet_none x ?_
        rw [hsize, henc']
        have hmul : (n + prepend) * _intsetValueEncoding v + _intsetValueEncoding v =
            (n + 1) * _intsetValueEncoding v + prepend * _intsetValueEncoding v := by ring
        rw [hmul, ← hn]
        omega
      unfold intsetUpgradeAndAdd
      dsimp only
      rw [hn]
      unfold upgradeLoop
      dsimp only [intsetResize]
      cases hget : _intsetGetEncoded _ n is.encoding with
      | none => rfl
      | some x =>
        simp only [Option.bind_eq_bind, Option.bind_some]
        rw [hlast _ _ x rfl (by rw [hn]; rfl)]
        rfl
    simp only [intsetAdd, if_pos hup, hupgrade, Option.bind_eq_bind, Option.bind_none]
  · rw [max_eq_left (by omega)] at hfit
    have henc : is.encoding ≤ 8 := by
      rcases h.packed.valid with h | h | h <;> omega
    have hroom := u32_too_small hlen henc hfit
    obtain ⟨pos, hsearch, hplace⟩ := h.search v
    rw [decide_eq_false hv] at hsearch hplace
    have hpos : pos ≤ is.length := by
      rw [PlaceOf, if_neg Bool.false_ne_true] at hplace
      rw [h.packed.length_eq]
      exact hplace.1
    have hadd : addAt is pos v = none := by
      unfold addAt intsetMoveTail
      dsimp only [intsetResize]
      by_cases htail : pos < is.length
      · have hbytes : u32 (u32 (is.length - pos) * is.encoding) = (is.length - pos) * is.encoding := by
          have hle := Nat.mul_le_mul_right is.encoding (Nat.sub_le is.length pos)
          rw [u32, u32, Nat.mod_eq_of_lt (show is.length - pos < 2 ^ 32 by omega), Nat.mod_eq_of_lt (by omega)]
        have hend : (pos + 1) * is.encoding + (is.length - pos) * is.encoding = (is.length + 1) * is.encoding := by
          rw [← Nat.add_mul]
          congr 1
          omega
        rw [if_pos htail, hbytes, Block.memmove, if_neg]
        · rfl
        · rintro ⟨-, hdst⟩
          rw [hend, Block.size_realloc, Nat.succ_mul] at hdst
          omega
      · obtain rfl : pos = is.length := by omega
        rw [if_neg htail]
        simp only [Option.bind_eq_bind, Option.bind_some]
        rw [_intsetSet_none v]
        · rfl
        · dsimp only
          rw [Block.size_realloc]
          omega
    simp only [intsetAdd, if_neg hup, hsearch, hadd, Option.bind_eq_bind, Option.bind_some, Option.bind_none,
      Bool.false_eq_true, if_false]

theorem intsetAdd_wraps {is : Intset} {s : Finset Int} (h : Holds is s)
    (hlen : is.length + 1 = 2 ^ 29) (henc : is.encoding = 8) {v : Int}
    (hv : _intsetValueEncoding v = 8) (hlast : ∀ x ∈ s, x < v) : intsetAdd is v = none := by
  refine h.add_none (fun hc => lt_irrefl v (hlast v hc)) ?_
  rw [hlen, henc, hv]
  decide

/-- The `2 ^ 29`-th element of 8 bytes: `len*encoding` wraps to 0. -/
theorem intset_add_wraps : ¬ IntsetRefines (ascendingAdds (2 ^ 29)) := by
  obtain ⟨n, hn⟩ : ∃ n, n + 1 = 2 ^ 29 := ⟨2 ^ 29 - 1, by decide⟩
  rw [← hn]
  rintro ⟨is, hrun, -⟩
  obtain ⟨is', replies, hrun', hh⟩ := ascendingAdds_holds n (by omega)
  have hlen := hh.ascending_length (by omega)
  have henc := hh.ascending_encoding (by omega)
  have hlast := ascendingSet_lt (n := n) (by omega)
  have hnone : intsetStep is' (.add (wideValue n)) = none := by
    rw [intsetStep, intsetAdd_wraps hh (by omega) henc (wideValue_encoding (by omega)) hlast]
    rfl
  rw [ascendingAdds_succ, runOption_concat hrun', hnone] at hrun
  exact absurd hrun (by simp)

end RedisCluster
