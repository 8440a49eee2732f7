import Mathlib.Data.List.Sort

/-!
# Sorting by a key

A list that is sorted by a key is determined up to elements of equal keys. `Lands key v x i` says that
`x` may stand at position `i` when `v` is sorted; `slices_agree_iff` says when the elements from one
position to another give the same output however ties are broken.
-/

namespace RedisCluster.Lib

variable {α β κ : Type*} [LinearOrder κ]

/-- Some result of sorting `v` by the key. -/
structure SortedBy (key : α → κ) (v p : List α) : Prop where
  perm : p.Perm v
  sorted : p.Pairwise fun x y => key x ≤ key y

/-- There are at most `i` elements with a smaller key, and more than `i` with none greater. -/
def Lands (key : α → κ) (v : List α) (x : α) (i : Nat) : Prop :=
  v.countP (fun z => key z < key x) ≤ i ∧ i < v.countP fun z => key z ≤ key x

theorem Lands.congr {key : α → κ} {v w : List α} {x y : α} {i : Nat} (h : Lands key v x i)
    (hperm : v.Perm w) (hkey : key x = key y) : Lands key w y i := by
  unfold Lands at h ⊢
  rw [← hkey, ← hperm.countP_eq, ← hperm.countP_eq]
  exact h

theorem exists_sortedBy (key : α → κ) (v : List α) : ∃ p, SortedBy key v p := by
  refine ⟨v.mergeSort fun x y => key x ≤ key y, List.mergeSort_perm _ _, ?_⟩
  have h := @List.pairwise_mergeSort α (fun x y => decide (key x ≤ key y))
    (fun x y z hxy hyz => by simp only [decide_eq_true_eq] at *; exact hxy.trans hyz)
    (fun x y => by simpa using le_total (key x) (key y)) v
  exact h.imp fun hxy => by simpa using hxy

theorem SortedBy.keys_eq {key : α → κ} {v p q : List α} (hp : SortedBy key v p)
    (hq : SortedBy key v q) : p.map key = q.map key := by
  refine List.Perm.eq_of_pairwise (fun a b _ _ hab hba => le_antisymm hab hba) ?_ ?_
    ((hp.perm.trans hq.perm.symm).map key)
  · exact List.pairwise_map.mpr hp.sorted
  · exact List.pairwise_map.mpr hq.sorted

theorem SortedBy.lands {key : α → κ} {v p : List α} (hp : SortedBy key v p) {i : Nat} {x : α}
    (hx : p[i]? = some x) : Lands key v x i := by
  obtain ⟨hi, hxi⟩ := List.getElem?_eq_some_iff.mp hx
  have hsplit : p = p.take i ++ x :: p.drop (i + 1) := by
    rw [← hxi, List.getElem_cons_drop, List.take_append_drop]
  have hsorted := hp.sorted
  rw [hsplit, List.pairwise_append, List.pairwise_cons] at hsorted
  obtain ⟨-, ⟨hafter, -⟩, hbefore⟩ := hsorted
  have hlen : (p.take i).length = i := by
    rw [List.length_take]
    omega
  unfold Lands
  rw [← hp.perm.countP_eq, ← hp.perm.countP_eq, hsplit, List.countP_append, List.countP_append,
    List.countP_cons, List.countP_cons]
  constructor
  · have hnone : (p.drop (i + 1)).countP (fun z => key z < key x) = 0 :=
      List.countP_eq_zero.mpr fun z hz => by simpa using hafter z hz
    have hle := List.countP_le_length (p := fun z => decide (key z < key x)) (l := p.take i)
    rw [hlen] at hle
    simp only [lt_self_iff_false, decide_false, Bool.false_eq_true, ite_false]
    omega
  · have hall : (p.take i).countP (fun z => key z ≤ key x) = i := by
      rw [List.countP_eq_length.mpr, hlen]
      intro z hz
      simpa using hbefore z hz x List.mem_cons_self
    simp only [le_refl, decide_true, ite_true]
    omega

theorem sorted_append {key : α → κ} {l r : List α} (hl : l.Pairwise fun x y => key x ≤ key y)
    (hr : r.Pairwise fun x y => key x ≤ key y) (h : ∀ x ∈ l, ∀ y ∈ r, key x ≤ key y) :
    (l ++ r).Pairwise fun x y => key x ≤ key y :=
  List.pairwise_append.mpr ⟨hl, hr, h⟩

theorem sorted_of_ties {key : α → κ} {l : List α} {k : κ} (h : ∀ x ∈ l, key x = k) :
    l.Pairwise fun x y => key x ≤ key y :=
  List.pairwise_of_forall_mem_list fun x hx y hy => by rw [h x hx, h y hy]

theorem exists_perm_getElem? {l : List α} {x : α} (hx : x ∈ l) {k : Nat} (hk : k < l.length) :
    ∃ m : List α, m.Perm l ∧ m[k]? = some x := by
  obtain ⟨l₁, l₂, rfl⟩ := List.append_of_mem hx
  have hlen : k ≤ (l₁ ++ l₂).length := by
    simp only [List.length_append, List.length_cons] at hk ⊢
    omega
  refine ⟨(l₁ ++ l₂).insertIdx k x, (List.perm_insertIdx x (l₁ ++ l₂) hlen).trans List.perm_middle.symm,
    ?_⟩
  rw [List.getElem?_insertIdx_self, if_pos hlen]

theorem exists_sorted_landing {key : α → κ} {v : List α} {x : α} (hx : x ∈ v) {i : Nat}
    (hi : Lands key v x i) : ∃ p, SortedBy key v p ∧ p[i]? = some x := by
  obtain ⟨hlow, hhigh⟩ := hi
  obtain ⟨a, ha⟩ := exists_sortedBy key (v.filter fun z => key z < key x)
  obtain ⟨c, hc⟩ := exists_sortedBy key (v.filter fun z => key x < key z)
  have hlenA : a.length = v.countP fun z => key z < key x := by
    rw [ha.perm.length_eq, List.countP_eq_length_filter]
  have hcount : (v.countP fun z => key z ≤ key x) =
      (v.countP fun z => key z < key x) + (v.filter fun z => key z = key x).length := by
    rw [← List.countP_eq_length_filter]
    clear hlow hhigh hx ha hc hlenA
    induction v with
    | nil => rfl
    | cons z v ih =>
      simp only [List.countP_cons, ih, decide_eq_true_eq]
      rcases lt_trichotomy (key z) (key x) with hz | hz | hz
      · simp only [hz, hz.le, hz.ne, ite_true, ite_false]
        omega
      · simp only [hz, le_refl, lt_self_iff_false, ite_true, ite_false]
        omega
      · simp only [hz.not_ge, hz.not_gt, hz.ne', ite_false]
        omega
  obtain ⟨b, hb, hget⟩ := exists_perm_getElem?
    (List.mem_filter.mpr ⟨hx, by simp⟩ : x ∈ v.filter fun z => key z = key x)
    (k := i - v.countP fun z => key z < key x) (by omega)
  have hmemA : ∀ z ∈ a, key z < key x := fun z hz => by
    simpa using (List.mem_filter.mp (ha.perm.mem_iff.mp hz)).2
  have hmemB : ∀ z ∈ b, key z = key x := fun z hz => by
    simpa using (List.mem_filter.mp (hb.mem_iff.mp hz)).2
  have hmemC : ∀ z ∈ c, key x < key z := fun z hz => by
    simpa using (List.mem_filter.mp (hc.perm.mem_iff.mp hz)).2
  refine ⟨a ++ (b ++ c), ⟨?_, ?_⟩, ?_⟩
  · refine ((ha.perm.append (hb.append hc.perm))).trans ?_
    have hrest : ((v.filter fun z => key z = key x) ++ v.filter fun z => key x < key z).Perm
        (v.filter fun z => !decide (key z < key x)) := by
      have h := List.filter_append_perm (fun z => decide (key z = key x))
        (v.filter fun z => !decide (key z < key x))
      rw [List.filter_filter, List.filter_filter] at h
      have heq : (fun z => decide (key z = key x) && !decide (key z < key x)) =
          fun z => decide (key z = key x) := by
        funext z
        rcases lt_trichotomy (key z) (key x) with hz | hz | hz
        · simp [hz, hz.ne]
        · simp [hz]
        · simp [hz.ne']
      have hgt : (fun z => !decide (key z = key x) && !decide (key z < key x)) =
          fun z => decide (key x < key z) := by
        funext z
        rcases lt_trichotomy (key z) (key x) with hz | hz | hz
        · simp [hz, hz.le]
        · simp [hz]
        · simp [hz, hz.ne', hz.le]
      rw [heq, hgt] at h
      exact h
    exact (List.Perm.append_left _ hrest).trans (List.filter_append_perm _ v)
  · refine sorted_append ha.sorted (sorted_append (sorted_of_ties hmemB) hc.sorted ?_) ?_
    · intro y hy z hz
      rw [hmemB y hy]
      exact (hmemC z hz).le
    · intro y hy z hz
      rcases List.mem_append.mp hz with hz | hz
      · rw [hmemB z hz]
        exact (hmemA y hy).le
      · exact ((hmemA y hy).trans (hmemC z hz)).le
  · have hlenB : i - (v.countP fun z => key z < key x) < b.length := by
      rw [hb.length_eq]
      omega
    rw [List.getElem?_append_right (by omega), hlenA, List.getElem?_append_left hlenB]
    exact hget

theorem map_eq_of_flatMap_eq {f : α → List β} {m : Nat} (hm : 0 < m) {l r : List α}
    (hl : ∀ x ∈ l, (f x).length = m) (hr : ∀ x ∈ r, (f x).length = m)
    (h : l.flatMap f = r.flatMap f) : l.map f = r.map f := by
  induction l generalizing r with
  | nil =>
    cases r with
    | nil => rfl
    | cons y r =>
      have hy := hr y List.mem_cons_self
      rw [List.flatMap_nil, List.flatMap_cons] at h
      have hnil := (List.append_eq_nil_iff.mp h.symm).1
      rw [hnil] at hy
      simp at hy
      omega
  | cons x l ih =>
    cases r with
    | nil =>
      have hx := hl x List.mem_cons_self
      rw [List.flatMap_nil, List.flatMap_cons] at h
      have hnil := (List.append_eq_nil_iff.mp h).1
      rw [hnil] at hx
      simp at hx
      omega
    | cons y r =>
      rw [List.flatMap_cons, List.flatMap_cons] at h
      obtain ⟨hxy, hrest⟩ := List.append_inj h
        ((hl x List.mem_cons_self).trans (hr y List.mem_cons_self).symm)
      rw [List.map_cons, List.map_cons, hxy,
        ih (fun z hz => hl z (List.mem_cons_of_mem _ hz)) (fun z hz => hr z (List.mem_cons_of_mem _ hz))
          hrest]

/-- What the elements at the positions from `a` on, `n` of them, give. -/
def sliceOutput (f : α → List β) (a n : Nat) (p : List α) : List β := ((p.drop a).take n).flatMap f

/-- Ties that reach the slice give the same output. -/
def TiesAgree (key : α → κ) (f : α → List β) (a n : Nat) (v : List α) : Prop :=
  ∀ x ∈ v, ∀ y ∈ v, key x = key y → ∀ i, a ≤ i → i < a + n → Lands key v x i → f x = f y

theorem slice_map_eq {f : α → List β} {a n : Nat} {p q : List α} (hlen : p.length = q.length)
    (h : ∀ i x y, a ≤ i → i < a + n → p[i]? = some x → q[i]? = some y → f x = f y) :
    ((p.drop a).take n).map f = ((q.drop a).take n).map f := by
  refine List.ext_getElem? fun j => ?_
  rw [List.getElem?_map, List.getElem?_map, List.getElem?_take, List.getElem?_take, List.getElem?_drop,
    List.getElem?_drop]
  by_cases hj : j < n
  · rw [if_pos hj, if_pos hj]
    by_cases hp : a + j < p.length
    · rw [List.getElem?_eq_getElem hp, List.getElem?_eq_getElem (hlen ▸ hp)]
      exact congrArg some (h (a + j) _ _ (Nat.le_add_right _ _) (by omega) (List.getElem?_eq_getElem hp)
        (List.getElem?_eq_getElem (hlen ▸ hp)))
    · rw [List.getElem?_eq_none (by omega), List.getElem?_eq_none (by omega)]
  · rw [if_neg hj, if_neg hj]

theorem slices_agree_iff (key : α → κ) (f : α → List β) {m : Nat} (hm : 0 < m) {v : List α}
    (hf : ∀ x ∈ v, (f x).length = m) (a n : Nat) :
    (∀ p q, SortedBy key v p → SortedBy key v q → sliceOutput f a n p = sliceOutput f a n q) ↔
      TiesAgree key f a n v := by
  have hmem : ∀ {p}, SortedBy key v p → ∀ x ∈ (p.drop a).take n, (f x).length = m :=
    fun hp x hx => hf x (hp.perm.mem_iff.mp (List.mem_of_mem_drop (List.mem_of_mem_take hx)))
  constructor
  · intro h x hx y hy hkey i hai hi hlands
    obtain ⟨p, hp, hpi⟩ := exists_sorted_landing hx hlands
    obtain ⟨q, hq, hqi⟩ := exists_sorted_landing hy (hlands.congr (List.Perm.refl v) hkey)
    have hmap := map_eq_of_flatMap_eq hm (hmem hp) (hmem hq) (h p q hp hq)
    have hat := congrArg (fun l => l[i - a]?) hmap
    simp only [List.getElem?_map, List.getElem?_take, List.getElem?_drop] at hat
    rw [if_pos (by omega), if_pos (by omega), Nat.add_sub_cancel' hai, hpi, hqi] at hat
    exact Option.some.inj hat
  · intro h p q hp hq
    unfold sliceOutput
    rw [List.flatMap_def, List.flatMap_def,
      slice_map_eq (hp.perm.length_eq.trans hq.perm.length_eq.symm) fun i x y hai hi hpi hqi => ?_]
    have hkeys := congrArg (fun l => l[i]?) (hp.keys_eq hq)
    simp only [List.getElem?_map, hpi, hqi, Option.map_some, Option.some.injEq] at hkeys
    exact h x (hp.perm.mem_iff.mp (List.mem_of_getElem? hpi)) y
      (hq.perm.mem_iff.mp (List.mem_of_getElem? hqi)) hkeys i hai hi (hp.lands hpi)

end RedisCluster.Lib
