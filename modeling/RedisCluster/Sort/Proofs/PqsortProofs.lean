import Mathlib.Algebra.Group.End
import Mathlib.Data.List.Nodup
import Mathlib.Data.List.Range
import RedisCluster.Sort.Pqsort

/-!
# Proofs: `pqsort`

`Rearranged` says that the elements of a segment changed places. The invariant of the partition loop
names its four parts; what is left of it after the equal elements have been gathered are three parts,
of which each element of the first is below and each of the last above those in the middle.
-/

open scoped List

namespace RedisCluster.Pqsort

open RedisCluster.Lib

variable {α : Type} {cmp : α → α → Int} {f g h : Nat → α} {a n : Nat}

/-! ## Elements that change places -/

def Rearranged (a n : Nat) (f g : Nat → α) : Prop :=
  ∃ σ : Equiv.Perm Nat, (∀ k, ¬ (a ≤ k ∧ k < a + n) → σ k = k) ∧ ∀ k, g k = f (σ k)

theorem Rearranged.refl (a n : Nat) (f : Nat → α) : Rearranged a n f f :=
  ⟨1, fun _ _ => rfl, fun _ => rfl⟩

theorem Rearranged.trans (hfg : Rearranged a n f g) (hgh : Rearranged a n g h) :
    Rearranged a n f h := by
  obtain ⟨σ, hσ, hg⟩ := hfg
  obtain ⟨τ, hτ, hh⟩ := hgh
  refine ⟨τ.trans σ, fun k hk => ?_, fun k => ?_⟩
  · rw [Equiv.trans_apply, hτ k hk, hσ k hk]
  · rw [hh, hg, Equiv.trans_apply]

theorem Rearranged.widen {a' n' : Nat} (hfg : Rearranged a n f g) (ha : a' ≤ a)
    (hn : a + n ≤ a' + n') : Rearranged a' n' f g := by
  obtain ⟨σ, hσ, hg⟩ := hfg
  exact ⟨σ, fun k hk => hσ k (by omega), hg⟩

theorem rearranged_swap {i j : Nat} (hi : a ≤ i ∧ i < a + n) (hj : a ≤ j ∧ j < a + n) :
    Rearranged a n f (swap f i j) := by
  refine ⟨Equiv.swap i j, fun k hk => Equiv.swap_apply_of_ne_of_ne ?_ ?_, fun k => ?_⟩
  · rintro rfl
    exact hk hi
  · rintro rfl
    exact hk hj
  · rw [Equiv.swap_apply_def, swap]
    split_ifs <;> rfl

theorem Rearranged.outside (hfg : Rearranged a n f g) {k : Nat} (hk : ¬ (a ≤ k ∧ k < a + n)) :
    g k = f k := by
  obtain ⟨σ, hσ, hg⟩ := hfg
  rw [hg, hσ k hk]

/-- An element of the segment comes from the segment. -/
theorem Rearranged.source (hfg : Rearranged a n f g) {k : Nat} (hk : a ≤ k ∧ k < a + n) :
    ∃ i, (a ≤ i ∧ i < a + n) ∧ g k = f i := by
  obtain ⟨σ, hσ, hg⟩ := hfg
  refine ⟨σ k, ?_, hg k⟩
  by_contra hout
  have hfix : σ k = k := σ.injective (hσ _ hout)
  exact hout (hfix.symm ▸ hk)

theorem Rearranged.forall (hfg : Rearranged a n f g) {P : α → Prop}
    (hP : ∀ k, a ≤ k → k < a + n → P (f k)) : ∀ k, a ≤ k → k < a + n → P (g k) := by
  intro k hk hk'
  obtain ⟨i, ⟨hi, hi'⟩, heq⟩ := hfg.source ⟨hk, hk'⟩
  exact heq ▸ hP i hi hi'

theorem Rearranged.perm (hfg : Rearranged 0 n f g) :
    (List.range n).map g ~ (List.range n).map f := by
  obtain ⟨σ, hσ, hg⟩ := hfg
  have hmaps : ∀ k, k < n ↔ σ k < n := by
    intro k
    by_cases hk : k < n
    · refine iff_of_true hk ?_
      by_contra hout
      have hfix : σ k = k := σ.injective (hσ _ (by omega))
      omega
    · rw [hσ k (by omega)]
  have hrange : (List.range n).map σ ~ List.range n := by
    refine (List.perm_ext_iff_of_nodup (List.Nodup.map σ.injective List.nodup_range)
      List.nodup_range).mpr fun k => ?_
    simp only [List.mem_map, List.mem_range]
    constructor
    · rintro ⟨i, hi, rfl⟩
      exact (hmaps i).mp hi
    · intro hk
      refine ⟨σ.symm k, ?_, σ.apply_symm_apply k⟩
      rw [hmaps, σ.apply_symm_apply]
      exact hk
  have hmap : (List.range n).map g = ((List.range n).map σ).map f := by
    rw [List.map_map]
    exact List.map_congr_left fun k _ => hg k
  rw [hmap]
  exact hrange.map f

/-! ## Block swaps -/

theorem vecswap_apply (r : Nat) {i j : Nat} (hij : i + r ≤ j) (k : Nat) :
    vecswap f i j r k =
      if i ≤ k ∧ k < i + r then f (k - i + j) else if j ≤ k ∧ k < j + r then f (k - j + i) else f k := by
  induction r generalizing f i j with
  | zero =>
    rw [vecswap, if_neg (by omega), if_neg (by omega)]
  | succ r ih =>
    rw [vecswap, ih (by omega)]
    unfold swap
    grind

theorem rearranged_vecswap (r : Nat) {i j : Nat} (hi : a ≤ i) (hij : i + r ≤ j) (hj : j + r ≤ a + n) :
    Rearranged a n f (vecswap f i j r) := by
  induction r generalizing f i j with
  | zero => exact Rearranged.refl a n f
  | succ r ih =>
    exact (rearranged_swap ⟨hi, by omega⟩ ⟨by omega, by omega⟩).trans (ih (by omega) (by omega) (by omega))

/-! ## Insertion sort -/

def SortedTo (cmp : α → α → Int) (f : Nat → α) (a m : Nat) : Prop :=
  ∀ i j, i < j → j ≤ m → cmp (f (a + i)) (f (a + j)) ≤ 0

section
variable (hcmp : ∀ l, ComparesOn cmp l)
include hcmp

theorem cmp_trans {x y z : α} (hxy : cmp x y ≤ 0) (hyz : cmp y z ≤ 0) : cmp x z ≤ 0 :=
  (hcmp [x, y, z]).trans x (by simp) y (by simp) z (by simp) hxy hyz

theorem cmp_swap (x y : α) : cmp x y < 0 ↔ 0 < cmp y x :=
  (hcmp [x, y]).swap x (by simp) y (by simp)

/-- The element at `a + k` is out of place: the others are sorted, and those behind it are not below
it. -/
theorem insertDown_spec (m : Nat) : ∀ (k : Nat) {f : Nat → α}, k ≤ m →
    (∀ i j, i < j → j ≤ m → i ≠ k → j ≠ k → cmp (f (a + i)) (f (a + j)) ≤ 0) →
    (∀ j, k < j → j ≤ m → cmp (f (a + k)) (f (a + j)) ≤ 0) →
    SortedTo cmp (insertDown cmp a k f) a m ∧ Rearranged a (m + 1) f (insertDown cmp a k f) := by
  intro k
  induction k with
  | zero =>
    intro f _ hothers hbehind
    refine ⟨fun i j hij hj => ?_, Rearranged.refl _ _ _⟩
    rcases Nat.eq_zero_or_pos i with rfl | hi
    · exact hbehind j hij hj
    · exact hothers i j hij hj (by omega) (by omega)
  | succ k ih =>
    intro f hk hothers hbehind
    rw [insertDown]
    split
    case isTrue hgt =>
      have hle : cmp (f (a + (k + 1))) (f (a + k)) ≤ 0 := by
        have := cmp_swap hcmp (f (a + (k + 1))) (f (a + k))
        omega
      have hswap : ∀ i, swap f (a + (k + 1)) (a + k) (a + i) =
          if i = k + 1 then f (a + k) else if i = k then f (a + (k + 1)) else f (a + i) := by
        intro i
        simp only [swap, Nat.add_left_cancel_iff]
      obtain ⟨hsorted, hperm⟩ := ih (f := swap f (a + (k + 1)) (a + k)) (by omega)
        (fun i j hij hj hi hj' => by
          rw [hswap, hswap, if_neg hi, if_neg hj']
          split_ifs with hi1 hj1 hj1
          · omega
          · exact hothers k j (by omega) hj (by omega) hj1
          · exact hothers i k (by omega) (by omega) hi1 (by omega)
          · exact hothers i j hij hj hi1 hj1)
        (fun j hj hjm => by
          rw [hswap, hswap, if_neg (by omega), if_pos rfl, if_neg (show j ≠ k by omega)]
          split_ifs with hj1
          · exact hle
          · exact hbehind j (by omega) hjm)
      exact ⟨hsorted, (rearranged_swap ⟨by omega, by omega⟩ ⟨by omega, by omega⟩).trans hperm⟩
    case isFalse hgt =>
      have hle : cmp (f (a + k)) (f (a + (k + 1))) ≤ 0 := by omega
      refine ⟨fun i j hij hj => ?_, Rearranged.refl _ _ _⟩
      by_cases hi : i = k + 1
      · exact hi ▸ hbehind j (hi ▸ hij) hj
      by_cases hj1 : j = k + 1
      · subst hj1
        by_cases hik : i = k
        · exact hik ▸ hle
        · exact cmp_trans hcmp (hothers i k (by omega) (by omega) hi (by omega)) hle
      · exact hothers i j hij hj hi hj1

theorem insertionSort_spec (m : Nat) :
    SortedTo cmp (insertionSort cmp a f m) a m ∧ Rearranged a (m + 1) f (insertionSort cmp a f m) := by
  induction m with
  | zero => exact ⟨fun i j hij hj => by omega, Rearranged.refl _ _ _⟩
  | succ m ih =>
    obtain ⟨hsorted, hperm⟩ := ih
    obtain ⟨hsorted', hperm'⟩ := insertDown_spec hcmp (a := a) (m + 1) (m + 1) (le_refl _)
      (fun i j hij hj hi hj' => hsorted i j hij (by omega)) (fun j hj hjm => by omega)
    exact ⟨hsorted', (hperm.widen (le_refl _) (by omega)).trans hperm'⟩

end

/-! ## The partition -/

/-- The four parts: equal to the pivot `p`, below it, above it, and equal to it again. -/
structure PartInv (cmp : α → α → Int) (p : α) (f : Nat → α) (a n : Nat) (s : Partition α) : Prop where
  perm : Rearranged a n f s.f
  bounds : a < s.pa ∧ s.pa ≤ s.pb ∧ s.pb ≤ s.pc + 1 ∧ s.pc ≤ s.pd ∧ s.pd < a + n
  pivot : s.f a = p
  eqLow : ∀ k, a ≤ k → k < s.pa → cmp (s.f k) p = 0
  low : ∀ k, s.pa ≤ k → k < s.pb → cmp (s.f k) p < 0
  high : ∀ k, s.pc < k → k ≤ s.pd → 0 < cmp (s.f k) p
  eqHigh : ∀ k, s.pd < k → k < a + n → cmp (s.f k) p = 0

/-- An element that equals the pivot goes to the equal ones at the left end. -/
theorem PartInv.parkLow {p : α} {s : Partition α} (h : PartInv cmp p f a n s) (hle : s.pb ≤ s.pc)
    (heq : cmp (s.f s.pb) p = 0) :
    PartInv cmp p f a n { s with f := swap s.f s.pa s.pb, pa := s.pa + 1, pb := s.pb + 1 } := by
  obtain ⟨h1, h2, h3, h4, h5⟩ := h.bounds
  refine ⟨h.perm.trans (rearranged_swap ⟨by omega, by omega⟩ ⟨by omega, by omega⟩),
    ⟨by dsimp only; omega, by dsimp only; omega, by dsimp only; omega, h4, h5⟩, ?_, ?_, ?_, ?_, ?_⟩
  · have := h.pivot
    grind [swap]
  all_goals intro k hk1 hk2; dsimp only at hk1 hk2 ⊢; unfold swap
  · have := h.eqLow k
    grind
  · have := h.low k
    have := h.low s.pa
    grind
  · have := h.high k
    grind
  · have := h.eqHigh k
    grind

theorem PartInv.passLow {p : α} {s : Partition α} (h : PartInv cmp p f a n s) (hle : s.pb ≤ s.pc)
    (hlow : cmp (s.f s.pb) p < 0) : PartInv cmp p f a n { s with pb := s.pb + 1 } := by
  obtain ⟨h1, h2, h3, h4, h5⟩ := h.bounds
  refine ⟨h.perm, ⟨h1, by dsimp only; omega, by dsimp only; omega, h4, h5⟩, h.pivot, h.eqLow,
    fun k hk1 hk2 => ?_, h.high, h.eqHigh⟩
  rcases Nat.lt_or_ge k s.pb with hlt | hge
  · exact h.low k hk1 hlt
  · obtain rfl : k = s.pb := by
      dsimp only at hk2
      omega
    exact hlow

theorem scanUp_spec {p : α} (k : Nat) : ∀ {s : Partition α}, PartInv cmp p f a n s →
    s.pc + 1 ≤ s.pb + k →
    PartInv cmp p f a n (scanUp cmp a k s) ∧ (scanUp cmp a k s).pc = s.pc ∧
      s.pb ≤ (scanUp cmp a k s).pb ∧
      ((scanUp cmp a k s).pb ≤ s.pc → 0 < cmp ((scanUp cmp a k s).f (scanUp cmp a k s).pb) p) := by
  induction k with
  | zero =>
    intro s h hk
    exact ⟨h, rfl, le_refl _, fun hle => by simp only [scanUp] at hle; omega⟩
  | succ k ih =>
    intro s h hk
    rw [scanUp, h.pivot]
    split
    case isTrue hcond =>
      obtain ⟨hle, hcmp⟩ := hcond
      split
      case isTrue heq =>
        obtain ⟨hinv, hpc, hpb, hstop⟩ := ih (h.parkLow hle heq) (by dsimp only; omega)
        exact ⟨hinv, hpc, Nat.le_of_succ_le hpb, hstop⟩
      case isFalse hne =>
        obtain ⟨hinv, hpc, hpb, hstop⟩ := ih (h.passLow hle (by omega)) (by dsimp only; omega)
        exact ⟨hinv, hpc, Nat.le_of_succ_le hpb, hstop⟩
    case isFalse hcond =>
      exact ⟨h, rfl, le_refl _, fun hle => by
        by_contra hneg
        exact hcond ⟨hle, by omega⟩⟩

theorem PartInv.parkHigh {p : α} {s : Partition α} (h : PartInv cmp p f a n s) (hle : s.pb ≤ s.pc)
    (heq : cmp (s.f s.pc) p = 0) :
    PartInv cmp p f a n { s with f := swap s.f s.pc s.pd, pd := s.pd - 1, pc := s.pc - 1 } := by
  obtain ⟨h1, h2, h3, h4, h5⟩ := h.bounds
  refine ⟨h.perm.trans (rearranged_swap ⟨by omega, by omega⟩ ⟨by omega, by omega⟩),
    ⟨h1, h2, by dsimp only; omega, by dsimp only; omega, by dsimp only; omega⟩, ?_, ?_, ?_, ?_, ?_⟩
  · have := h.pivot
    grind [swap]
  all_goals intro k hk1 hk2; dsimp only at hk1 hk2 ⊢; unfold swap
  · have := h.eqLow k
    grind
  · have := h.low k
    grind
  · have := h.high k
    have := h.high s.pd
    grind
  · have := h.eqHigh k
    grind

theorem PartInv.passHigh {p : α} {s : Partition α} (h : PartInv cmp p f a n s) (hle : s.pb ≤ s.pc)
    (hhigh : 0 < cmp (s.f s.pc) p) : PartInv cmp p f a n { s with pc := s.pc - 1 } := by
  obtain ⟨h1, h2, h3, h4, h5⟩ := h.bounds
  refine ⟨h.perm, ⟨h1, by dsimp only; omega, by dsimp only; omega, by dsimp only; omega, h5⟩, h.pivot,
    h.eqLow, h.low, fun k hk1 hk2 => ?_, h.eqHigh⟩
  dsimp only at hk1
  rcases Nat.lt_or_ge s.pc k with hlt | hge
  · exact h.high k hlt hk2
  · obtain rfl : k = s.pc := by omega
    exact hhigh

theorem scanDown_spec {p : α} (k : Nat) : ∀ {s : Partition α}, PartInv cmp p f a n s →
    s.pc + 1 ≤ s.pb + k →
    PartInv cmp p f a n (scanDown cmp a k s) ∧ (scanDown cmp a k s).pb = s.pb ∧
      (scanDown cmp a k s).pc ≤ s.pc ∧
      (s.pb ≤ (scanDown cmp a k s).pc →
        cmp ((scanDown cmp a k s).f (scanDown cmp a k s).pc) p < 0 ∧
        (scanDown cmp a k s).f s.pb = s.f s.pb) := by
  induction k with
  | zero =>
    intro s h hk
    exact ⟨h, rfl, le_refl _, fun hle => by simp only [scanDown] at hle; omega⟩
  | succ k ih =>
    intro s h hk
    obtain ⟨h1, h2, h3, h4, h5⟩ := h.bounds
    rw [scanDown, h.pivot]
    split
    case isTrue hcond =>
      obtain ⟨hle, hcmp⟩ := hcond
      split
      case isTrue heq =>
        obtain ⟨hinv, hpb, hpc, hstop⟩ := ih (h.parkHigh hle heq) (by dsimp only; omega)
        refine ⟨hinv, hpb, hpc.trans (Nat.sub_le _ _), fun hle' => ?_⟩
        obtain ⟨hlow, hsame⟩ := hstop hle'
        refine ⟨hlow, hsame.trans ?_⟩
        have hlt : s.pb < s.pc := by
          have := hle'.trans hpc
          dsimp only at this
          omega
        show swap s.f s.pc s.pd s.pb = s.f s.pb
        rw [swap, if_neg (by omega), if_neg (by omega)]
      case isFalse hne =>
        obtain ⟨hinv, hpb, hpc, hstop⟩ := ih (h.passHigh hle (by omega)) (by dsimp only; omega)
        exact ⟨hinv, hpb, hpc.trans (Nat.sub_le _ _), hstop⟩
    case isFalse hcond =>
      exact ⟨h, rfl, le_refl _, fun hle => ⟨by
        by_contra hneg
        exact hcond ⟨hle, by omega⟩, rfl⟩⟩

theorem partitionLoop_spec {p : α} (k : Nat) : ∀ {s : Partition α}, PartInv cmp p f a n s →
    s.pc + 1 < s.pb + k →
    PartInv cmp p f a n (partitionLoop cmp a k s) ∧
      (partitionLoop cmp a k s).pb = (partitionLoop cmp a k s).pc + 1 := by
  induction k with
  | zero =>
    intro s h hk
    have := h.bounds
    omega
  | succ k ih =>
    intro s h hk
    obtain ⟨hinv1, hpc1, hpb1, hstop1⟩ := scanUp_spec (s.pc + 1 - s.pb) h (by omega)
    rw [partitionLoop]
    set s1 := scanUp cmp a (s.pc + 1 - s.pb) s
    obtain ⟨hinv2, hpb2, hpc2, hstop2⟩ := scanDown_spec (s1.pc + 1 - s1.pb) hinv1 (by omega)
    set s2 := scanDown cmp a (s1.pc + 1 - s1.pb) s1
    obtain ⟨h1, h2, h3, h4, h5⟩ := hinv2.bounds
    split
    case isTrue hover => exact ⟨hinv2, by omega⟩
    case isFalse hle =>
      obtain ⟨hlow, hsame⟩ := hstop2 (by omega)
      have hhigh : 0 < cmp (s2.f s2.pb) p := by
        rw [hpb2, hsame]
        exact hstop1 (by omega)
      -- the element at `pb` is above the pivot and the one at `pc` below it
      have hlt : s2.pb < s2.pc := by
        refine lt_of_le_of_ne (by omega) fun heq => ?_
        rw [heq] at hhigh
        omega
      refine ih ⟨hinv2.perm.trans (rearranged_swap ⟨by omega, by omega⟩ ⟨by omega, by omega⟩),
        ⟨h1, by dsimp only; omega, by dsimp only; omega, by dsimp only; omega, h5⟩, ?_, ?_, ?_, ?_, ?_⟩
        (by dsimp only; omega)
      · have := hinv2.pivot
        grind [swap]
      all_goals intro k hk1 hk2; dsimp only at hk1 hk2 ⊢; unfold swap
      · have := hinv2.eqLow k
        grind
      · have := hinv2.low k
        grind
      · have := hinv2.high k
        grind
      · have := hinv2.eqHigh k
        grind

theorem med3_cases (cmp : α → α → Int) (f : Nat → α) (i j k : Nat) :
    med3 cmp f i j k = i ∨ med3 cmp f i j k = j ∨ med3 cmp f i j k = k := by
  unfold med3
  split_ifs <;> simp

theorem choosePivot_mem (cmp : α → α → Int) (f : Nat → α) (a : Nat) {n : Nat} (hn : 7 ≤ n) :
    a ≤ choosePivot cmp f a n ∧ choosePivot cmp f a n < a + n := by
  have hmed : ∀ i j k, (a ≤ i ∧ i < a + n) → (a ≤ j ∧ j < a + n) → (a ≤ k ∧ k < a + n) →
      a ≤ med3 cmp f i j k ∧ med3 cmp f i j k < a + n := by
    intro i j k hi hj hk
    rcases med3_cases cmp f i j k with h | h | h <;> rw [h] <;> assumption
  unfold choosePivot
  dsimp only
  split_ifs with h7 h40
  · refine hmed _ _ _ (hmed _ _ _ ?_ ?_ ?_) (hmed _ _ _ ?_ ?_ ?_) (hmed _ _ _ ?_ ?_ ?_) <;> omega
  · exact hmed _ _ _ (by omega) (by omega) (by omega)
  · omega

/-- The elements below the pivot, then those equal to it, then those above it. -/
structure ThreeWay (cmp : α → α → Int) (p : α) (f : Nat → α) (a n l r : Nat) : Prop where
  room : l + r < n
  low : ∀ k, a ≤ k → k < a + l → cmp (f k) p < 0
  mid : ∀ k, a + l ≤ k → k < a + n - r → cmp (f k) p = 0
  high : ∀ k, a + n - r ≤ k → k < a + n → 0 < cmp (f k) p

/-- Two blocks next to each other change places when as many elements as the shorter one has are
exchanged between the two ends. -/
theorem vecswap_blocks {P Q : α → Prop} {i q l r : Nat} (hr : r = min q l)
    (hQ : ∀ k, i ≤ k → k < i + q → Q (f k)) (hP : ∀ k, i + q ≤ k → k < i + q + l → P (f k)) :
    (∀ k, i ≤ k → k < i + l → P (vecswap f i (i + q + l - r) r k)) ∧
      (∀ k, i + l ≤ k → k < i + q + l → Q (vecswap f i (i + q + l - r) r k)) ∧
      ∀ k, ¬ (i ≤ k ∧ k < i + q + l) → vecswap f i (i + q + l - r) r k = f k := by
  have happly := fun k => vecswap_apply (f := f) (i := i) (j := i + q + l - r) r (by omega) k
  refine ⟨fun k hk1 hk2 => ?_, fun k hk1 hk2 => ?_, fun k hk => ?_⟩
  · rw [happly]
    split_ifs
    · exact hP _ (by omega) (by omega)
    · omega
    · exact hP _ (by omega) (by omega)
  · rw [happly]
    split_ifs
    · omega
    · exact hQ _ (by omega) (by omega)
    · exact hQ _ (by omega) (by omega)
  · rw [happly, if_neg (by omega), if_neg (by omega)]

theorem gatherEqual_spec {p : α} {s : Partition α} (h : PartInv cmp p f a n s) (hend : s.pb = s.pc + 1) :
    Rearranged a n f (gatherEqual s a n) ∧
      ThreeWay cmp p (gatherEqual s a n) a n (s.pb - s.pa) (s.pd - s.pc) := by
  obtain ⟨h1, h2, h3, h4, h5⟩ := h.bounds
  obtain ⟨r, hr⟩ : ∃ r, r = min (s.pa - a) (s.pb - s.pa) := ⟨_, rfl⟩
  obtain ⟨r', hr'⟩ : ∃ r', r' = min (s.pd - s.pc) (a + n - s.pd - 1) := ⟨_, rfl⟩
  have hgather : gatherEqual s a n = vecswap (vecswap s.f a (s.pb - r) r) s.pb (a + n - r') r' := by
    rw [hr, hr']
    rfl
  have hleft := rearranged_vecswap (f := s.f) (a := a) (n := n) (i := a) (j := s.pb - r) r (le_refl _)
    (by omega) (by omega)
  set f1 := vecswap s.f a (s.pb - r) r with hf1
  have hright := rearranged_vecswap (f := f1) (a := a) (n := n) (i := s.pb) (j := a + n - r') r'
    (by omega) (by omega) (by omega)
  -- the equal elements on the left come behind those below the pivot
  obtain ⟨hlow, hmid1, hsame1⟩ := vecswap_blocks (f := s.f) (P := fun x => cmp x p < 0)
    (Q := fun x => cmp x p = 0) (i := a) (q := s.pa - a) (l := s.pb - s.pa) hr
    (fun k hk1 hk2 => h.eqLow k hk1 (by omega)) (fun k hk1 hk2 => h.low k (by omega) (by omega))
  rw [show a + (s.pa - a) + (s.pb - s.pa) = s.pb by omega, ← hf1] at hlow hmid1 hsame1
  -- and those on the right before those above it
  obtain ⟨hmid2, hhigh, hsame2⟩ := vecswap_blocks (f := f1) (P := fun x => cmp x p = 0)
    (Q := fun x => 0 < cmp x p) (i := s.pb) (q := s.pd - s.pc) (l := a + n - s.pd - 1) hr'
    (fun k hk1 hk2 => hsame1 k (by omega) ▸ h.high k (by omega) (by omega))
    (fun k hk1 hk2 => hsame1 k (by omega) ▸ h.eqHigh k (by omega) (by omega))
  rw [show s.pb + (s.pd - s.pc) + (a + n - s.pd - 1) = a + n by omega, ← hgather] at hmid2 hhigh hsame2
  refine ⟨h.perm.trans (hgather ▸ hleft.trans hright), ⟨by omega, fun k hk1 hk2 => ?_, fun k hk1 hk2 => ?_,
    fun k hk1 hk2 => hhigh k (by omega) hk2⟩⟩
  · rw [hsame2 k (by omega)]
    exact hlow k hk1 hk2
  · rcases Nat.lt_or_ge k s.pb with hlt | hge
    · rw [hsame2 k (by omega)]
      exact hmid1 k hk1 hlt
    · exact hmid2 k hge (by omega)

theorem partition_spec (hcmp : ∀ l, ComparesOn cmp l) (hn : 7 ≤ n) (f : Nat → α) (a : Nat) :
    ∃ p, Rearranged a n f (gatherEqual (partition cmp f a n) a n) ∧
      ThreeWay cmp p (gatherEqual (partition cmp f a n) a n) a n
        ((partition cmp f a n).pb - (partition cmp f a n).pa)
        ((partition cmp f a n).pd - (partition cmp f a n).pc) := by
  have hpivot := choosePivot_mem cmp f a hn
  have hself : ∀ x, cmp x x = 0 := fun x => (hcmp [x]).self (by simp)
  have hstart : PartInv cmp (swap f a (choosePivot cmp f a n) a) f a n
      { f := swap f a (choosePivot cmp f a n), pa := a + 1, pb := a + 1, pc := a + (n - 1)
        pd := a + (n - 1) } := by
    refine ⟨rearranged_swap ⟨le_refl _, by omega⟩ hpivot, ?_, rfl, fun k hk1 hk2 => ?_, ?_, ?_, ?_⟩
    · dsimp only
      omega
    · obtain rfl : k = a := by
        dsimp only at hk2
        omega
      exact hself _
    all_goals
      intro k hk1 hk2
      dsimp only at hk1 hk2
      omega
  obtain ⟨hinv, hend⟩ := partitionLoop_spec n hstart (by dsimp only; omega)
  exact ⟨_, gatherEqual_spec hinv hend⟩

/-! ## The recursion -/

def RangeSorted (cmp : α → α → Int) (lrange rrange : Nat) (f : Nat → α) (a n : Nat) : Prop :=
  ∀ i j, a ≤ i → i < j → j < a + n → (lrange ≤ i ∧ i ≤ rrange ∨ lrange ≤ j ∧ j ≤ rrange) →
    cmp (f i) (f j) ≤ 0

/-- The parts keep their places, so only elements of one part can be out of order. -/
theorem ThreeWay.rangeSorted (hcmp : ∀ l, ComparesOn cmp l) {p : α} {f1 f2 f3 : Nat → α} {l r : Nat}
    (h : ThreeWay cmp p f1 a n l r) (hperm2 : Rearranged a l f1 f2)
    (hsorted2 : RangeSorted cmp lrange rrange f2 a l) (hperm3 : Rearranged (a + n - r) r f2 f3)
    (hsorted3 : RangeSorted cmp lrange rrange f3 (a + n - r) r) :
    RangeSorted cmp lrange rrange f3 a n := by
  obtain ⟨hroom, hlow, hmid, hhigh⟩ := h
  have hleft : ∀ k, a ≤ k → k < a + n - r → cmp (f3 k) p ≤ 0 := by
    intro k hk1 hk2
    rw [hperm3.outside (by omega)]
    rcases Nat.lt_or_ge k (a + l) with hk | hk
    · exact Int.le_of_lt (hperm2.forall (P := fun x => cmp x p < 0) hlow k hk1 hk)
    · rw [hperm2.outside (by omega)]
      exact Int.le_of_eq (hmid k hk hk2)
  have hright : ∀ k, a + l ≤ k → k < a + n → cmp p (f3 k) ≤ 0 := by
    have hhigh2 : ∀ k, a + n - r ≤ k → k < a + n - r + r → 0 < cmp (f2 k) p := by
      intro k hk1 hk2
      rw [hperm2.outside (by omega)]
      exact hhigh k hk1 (by omega)
    intro k hk1 hk2
    rcases Nat.lt_or_ge k (a + n - r) with hk | hk
    · have hzero := hmid k hk1 hk
      rw [hperm3.outside (by omega), hperm2.outside (by omega)]
      have := cmp_swap hcmp (f1 k) p
      have := cmp_swap hcmp p (f1 k)
      omega
    · have hpos := hperm3.forall (P := fun x => 0 < cmp x p) hhigh2 k hk (by omega)
      exact Int.le_of_lt ((cmp_swap hcmp p (f3 k)).mpr hpos)
  intro i j hi hij hj hrange
  by_cases hjl : j < a + l
  · rw [hperm3.outside (by omega), hperm3.outside (by omega)]
    exact hsorted2 i j hi hij hjl hrange
  by_cases hir : a + n - r ≤ i
  · exact hsorted3 i j hir hij (by omega) hrange
  · exact cmp_trans hcmp (hleft i hi (by omega)) (hright j (by omega) hj)

theorem outside_iff {es lrange rrange : Nat} (hes : 0 < es) (hlr : lrange ≤ rrange) (hn : 0 < n) :
    outside es (lrange * es) ((rrange + 1) * es - 1) a n = true ↔ rrange < a ∨ a + n ≤ lrange := by
  have h1 : lrange * es < a * es ↔ lrange < a := Nat.mul_lt_mul_right hes
  have h2 : (rrange + 1) * es ≤ a * es ↔ rrange + 1 ≤ a := Nat.mul_le_mul_right_iff hes
  have h3 : (a + n) * es ≤ lrange * es ↔ a + n ≤ lrange := Nat.mul_le_mul_right_iff hes
  have h4 : (a + n) * es < (rrange + 1) * es ↔ a + n < rrange + 1 := Nat.mul_lt_mul_right hes
  have h5 : 0 < (rrange + 1) * es := Nat.mul_pos (Nat.succ_pos _) hes
  have h6 : 0 < (a + n) * es := Nat.mul_pos (by omega) hes
  simp only [outside, Bool.or_eq_true, Bool.and_eq_true, decide_eq_true_eq]
  rw [Nat.add_mul] at h3 h4 h6
  omega

section
variable {es lrange rrange : Nat} (hes : 0 < es) (hlr : lrange ≤ rrange)
include hes hlr

/-- What is done to one part: nothing is needed for a part of one element or outside of the range. -/
theorem pqsortPart_spec {fuel : Nat}
    (ih : ∀ (f : Nat → α) (a n : Nat), n < fuel → ∃ g,
      pqsortRec cmp es (lrange * es) ((rrange + 1) * es - 1) fuel f a n = some g ∧
        Rearranged a n f g ∧ RangeSorted cmp lrange rrange g a n)
    (f : Nat → α) (a : Nat) {n : Nat} (hn : n < fuel) :
    ∃ g, (if n > 1 ∧ outside es (lrange * es) ((rrange + 1) * es - 1) a n = false then
        pqsortRec cmp es (lrange * es) ((rrange + 1) * es - 1) fuel f a n else some f) = some g ∧
      Rearranged a n f g ∧ RangeSorted cmp lrange rrange g a n := by
  split
  case isTrue => exact ih f a n hn
  case isFalse hskip =>
    refine ⟨f, rfl, Rearranged.refl _ _ _, fun i j hi hij hj hrange => ?_⟩
    have hout : outside es (lrange * es) ((rrange + 1) * es - 1) a n = true := by
      by_contra hin
      exact hskip ⟨by omega, by simpa using hin⟩
    rw [outside_iff hes hlr (by omega)] at hout
    omega

theorem pqsortRec_spec (hcmp : ∀ l, ComparesOn cmp l) (fuel : Nat) : ∀ (f : Nat → α) (a n : Nat), n < fuel → ∃ g,
    pqsortRec cmp es (lrange * es) ((rrange + 1) * es - 1) fuel f a n = some g ∧
      Rearranged a n f g ∧ RangeSorted cmp lrange rrange g a n := by
  induction fuel with
  | zero => intro f a n hn; omega
  | succ fuel ih =>
    intro f a n hn
    rw [pqsortRec]
    by_cases h7 : n < 7
    · obtain ⟨hsorted, hperm⟩ := insertionSort_spec hcmp (f := f) (a := a) (n - 1)
      rw [if_pos h7]
      refine ⟨_, rfl, ?_, fun i j hi hij hj _ => ?_⟩
      · rcases Nat.eq_zero_or_pos n with rfl | hpos
        · exact Rearranged.refl _ _ _
        · rwa [Nat.sub_add_cancel hpos] at hperm
      · obtain ⟨i, rfl⟩ := Nat.exists_eq_add_of_le hi
        obtain ⟨j, rfl⟩ := Nat.exists_eq_add_of_le (hi.trans hij.le)
        exact hsorted i j (by omega) (by omega)
    · rw [if_neg h7]
      obtain ⟨p, hperm, hways⟩ := partition_spec hcmp (Nat.le_of_not_lt h7) f a
      set l := (partition cmp f a n).pb - (partition cmp f a n).pa
      set r := (partition cmp f a n).pd - (partition cmp f a n).pc
      set f1 := gatherEqual (partition cmp f a n) a n
      have hroom := hways.room
      obtain ⟨f2, hf2, hperm2, hsorted2⟩ := pqsortPart_spec hes hlr ih f1 a (n := l) (by omega)
      obtain ⟨f3, hf3, hperm3, hsorted3⟩ :=
        pqsortPart_spec hes hlr ih f2 (a + n - r) (n := r) (by omega)
      refine ⟨f3, ?_, ?_, hways.rangeSorted hcmp hperm2 hsorted2 hperm3 hsorted3⟩
      · show Option.bind (if l > 1 ∧ _ then _ else _) _ = _
        rw [hf2]
        exact hf3
      · exact hperm.trans ((hperm2.widen (le_refl _) (by omega)).trans
          (hperm3.widen (by omega) (by omega)))

end

/-! ## The range of a sorted array -/

/-- What `pqsort` is for: the array is rearranged so that each element of the range is where it is in
a sorted array. -/
structure SortsRange (cmp : α → α → Int) (lrange rrange n : Nat) (f g : Nat → α) : Prop where
  perm : (List.range n).map g ~ (List.range n).map f
  frame : ∀ k, n ≤ k → g k = f k
  sorted : ∀ i j, lrange ≤ i → i < j → j ≤ rrange → cmp (g i) (g j) ≤ 0
  before : ∀ i j, i < lrange → lrange ≤ j → j ≤ rrange → cmp (g i) (g j) ≤ 0
  after : ∀ i j, lrange ≤ i → i ≤ rrange → rrange < j → j < n → cmp (g i) (g j) ≤ 0
  /-- A sorted array with the same range. -/
  full : ∃ q, QsortResult cmp ((List.range n).map f) q ∧ q.Pairwise (fun x y => cmp x y ≤ 0) ∧
    ∀ i, lrange ≤ i → i ≤ rrange → q[i]? = some (g i)

theorem exists_full_sort (hcmp : ∀ l, ComparesOn cmp l) {lrange rrange : Nat} (hlr : lrange ≤ rrange)
    (hr : rrange < n) (h : RangeSorted cmp lrange rrange g 0 n) :
    ∃ q, q ~ (List.range n).map g ∧ q.Pairwise (fun x y => cmp x y ≤ 0) ∧
      ∀ i, lrange ≤ i → i ≤ rrange → q[i]? = some (g i) := by
  obtain ⟨m, rfl⟩ := Nat.exists_eq_add_of_le hlr
  obtain ⟨k, rfl⟩ := Nat.exists_eq_add_of_lt hr
  have hsplit : List.range (lrange + m + k + 1) = List.range' 0 lrange ++
      (List.range' lrange (m + 1) ++ List.range' (lrange + (m + 1)) k) := by
    have happend := List.range'_append_1 (s := 0) (m := lrange) (n := m + 1 + k)
    rw [Nat.zero_add] at happend
    rw [List.range_eq_range', List.range'_append_1, happend]
    congr 1
    omega
  -- the elements before the range and those behind it are sorted on their own
  obtain ⟨q1, hq1⟩ := exists_sorted cmp ((List.range' 0 lrange).map g)
  obtain ⟨q2, hq2⟩ := exists_sorted cmp ((List.range' (lrange + (m + 1)) k).map g)
  have hlen1 : q1.length = lrange := by
    rw [hq1.perm.length_eq, List.length_map, List.length_range']
  have hmem : ∀ {q : List α} {s t : Nat}, q ~ (List.range' s t).map g →
      ∀ x ∈ q, ∃ i, s ≤ i ∧ i < s + t ∧ g i = x := by
    intro q s t hq x hx
    obtain ⟨i, hi, rfl⟩ := List.mem_map.mp (hq.mem_iff.mp hx)
    exact ⟨i, (List.mem_range'_1.mp hi).1, (List.mem_range'_1.mp hi).2, rfl⟩
  refine ⟨q1 ++ ((List.range' lrange (m + 1)).map g ++ q2), ?_, ?_, fun i hi hi' => ?_⟩
  · rw [hsplit, List.map_append, List.map_append]
    exact hq1.perm.append (hq2.perm.append_left _)
  · refine List.pairwise_append.mpr ⟨hq1.sorted (hcmp _), List.pairwise_append.mpr ⟨?_,
      hq2.sorted (hcmp _), fun x hx y hy => ?_⟩, fun x hx y hy => ?_⟩
    · have hlt : (List.range' lrange (m + 1)).Pairwise (· < ·) := List.pairwise_lt_range'
      refine List.pairwise_map.mpr (hlt.imp_of_mem fun {i j} hi hj hij => ?_)
      rw [List.mem_range'_1] at hi hj
      exact h i j (by omega) hij (by omega) (by omega)
    · obtain ⟨i, hi, hi', rfl⟩ := hmem (List.Perm.refl _) x hx
      obtain ⟨j, hj, hj', rfl⟩ := hmem hq2.perm y hy
      exact h i j (by omega) (by omega) (by omega) (by omega)
    · obtain ⟨i, hi, hi', rfl⟩ := hmem hq1.perm x hx
      rcases List.mem_append.mp hy with hy | hy
      · obtain ⟨j, hj, hj', rfl⟩ := hmem (List.Perm.refl _) y hy
        exact h i j (by omega) (by omega) (by omega) (by omega)
      · -- from before the range to behind it by way of its first element
        obtain ⟨j, hj, hj', rfl⟩ := hmem hq2.perm y hy
        exact cmp_trans hcmp (h i lrange (by omega) (by omega) (by omega) (by omega))
          (h lrange j (by omega) (by omega) (by omega) (by omega))
  · have hlt : i - lrange < ((List.range' lrange (m + 1)).map g).length := by
      rw [List.length_map, List.length_range']
      omega
    rw [List.getElem?_append_right (by omega), hlen1, List.getElem?_append_left hlt, List.getElem?_map,
      List.getElem?_range' (by omega), Option.map_some]
    congr 2
    omega

/-- For every array, every total preorder and every range in it, `pqsort` ends and sorts the range. -/
theorem pqsort_sorts (hcmp : ∀ l, ComparesOn cmp l) (f : Nat → α) {n es lrange rrange : Nat}
    (hes : 0 < es) (hlr : lrange ≤ rrange) (hr : rrange < n) :
    ∃ g, pqsort cmp f n es lrange rrange = some g ∧ SortsRange cmp lrange rrange n f g := by
  obtain ⟨g, hg, hperm, hsorted⟩ := pqsortRec_spec hes hlr hcmp (n + 1) f 0 n (Nat.lt_succ_self n)
  obtain ⟨q, hq, hqsorted, hqrange⟩ := exists_full_sort hcmp hlr hr hsorted
  refine ⟨g, hg, hperm.perm, fun k hk => hperm.outside (by omega), fun i j hi hij hj => ?_,
    fun i j hi hj hj' => ?_, fun i j hi hi' hj hj' => ?_,
    q, ⟨hq.trans hperm.perm, fun _ => hqsorted⟩, hqsorted, hqrange⟩
  · exact hsorted i j (by omega) hij (by omega) (by omega)
  · exact hsorted i j (by omega) (by omega) (by omega) (by omega)
  · exact hsorted i j (by omega) (by omega) (by omega) (by omega)

/-- The third and the fourth smallest of eight numbers. -/
theorem pqsort_sorts_digits :
    ∃ g, pqsort (fun x y : Nat => (x : Int) - y) (fun k => [5, 3, 5, 1, 5, 2, 9, 5].getD k 0) 8 4 2 3 = some g ∧
      SortsRange (fun x y : Nat => (x : Int) - y) 2 3 8 (fun k => [5, 3, 5, 1, 5, 2, 9, 5].getD k 0) g :=
  pqsort_sorts (fun _ => ⟨fun _ _ _ _ => by omega, fun _ _ _ _ _ _ _ _ => by omega⟩) _ (by decide)
    (by decide) (by decide)

end RedisCluster.Pqsort
