import Mathlib.Data.List.Perm.Basic
import Mathlib.Order.Lattice

/-!
# Comparison functions

A comparison function tells by the sign of an `Int` how two elements stand. A sort is held to its
contract only on lists on which the signs are those of a total preorder.
-/

namespace RedisCluster.Lib

variable {α β : Type*}

/-- On the elements of the list the signs are those of a total preorder. -/
structure ComparesOn (compar : α → α → Int) (l : List α) : Prop where
  swap : ∀ a ∈ l, ∀ b ∈ l, compar a b < 0 ↔ 0 < compar b a
  trans : ∀ a ∈ l, ∀ b ∈ l, ∀ c ∈ l, compar a b ≤ 0 → compar b c ≤ 0 → compar a c ≤ 0

/-- What a sort may leave. -/
structure QsortResult (compar : α → α → Int) (l p : List α) : Prop where
  perm : p.Perm l
  sorted : ComparesOn compar l → p.Pairwise fun a b => compar a b ≤ 0

/-- The sign is that of a comparison of keys. -/
def ComparesBy [Preorder β] (key : α → β) (compar : α → α → Int) (l : List α) : Prop :=
  ∀ a ∈ l, ∀ b ∈ l, (compar a b < 0 ↔ key a < key b) ∧ (0 < compar a b ↔ key b < key a)

variable {compar : α → α → Int} {l p : List α}

theorem ComparesOn.self (h : ComparesOn compar l) {a : α} (ha : a ∈ l) : compar a a = 0 := by
  have := h.swap a ha a ha
  omega

theorem QsortResult.of_perm {l' : List α} (hp : QsortResult compar l p) (h : l.Perm l') :
    QsortResult compar l' p where
  perm := hp.perm.trans h
  sorted hl' := hp.sorted
    { swap := fun a ha b hb => hl'.swap a (h.mem_iff.mp ha) b (h.mem_iff.mp hb)
      trans := fun a ha b hb c hc => hl'.trans a (h.mem_iff.mp ha) b (h.mem_iff.mp hb) c (h.mem_iff.mp hc) }

theorem exists_sorted (compar : α → α → Int) (l : List α) : ∃ p, QsortResult compar l p := by
  by_cases h : ComparesOn compar l
  · let le (a b : { x // x ∈ l }) : Bool := decide (compar a b ≤ 0)
    have htrans : ∀ a b c, le a b = true → le b c = true → le a c = true := fun a b c hab hbc =>
      decide_eq_true (h.trans a a.2 b b.2 c c.2 (of_decide_eq_true hab) (of_decide_eq_true hbc))
    have htotal : ∀ a b, (le a b || le b a) = true := fun a b => by
      have := h.swap a a.2 b b.2
      have := h.swap b b.2 a a.2
      simp only [le, Bool.or_eq_true, decide_eq_true_eq]
      omega
    refine ⟨(l.attach.mergeSort le).map Subtype.val, ?_, fun _ => ?_⟩
    · have := (List.mergeSort_perm l.attach le).map Subtype.val
      rwa [List.attach_map_subtype_val] at this
    · refine List.pairwise_map.mpr ?_
      exact (List.pairwise_mergeSort htrans htotal l.attach).imp fun h => of_decide_eq_true h
  · exact ⟨l, List.Perm.refl l, fun h' => absurd h' h⟩

section Key

variable [LinearOrder β] {key : α → β}

theorem ComparesBy.le_iff (h : ComparesBy key compar l) {a b : α} (ha : a ∈ l) (hb : b ∈ l) :
    compar a b ≤ 0 ↔ key a ≤ key b := by
  rw [← Int.not_lt, (h a ha b hb).2, not_lt]

theorem ComparesBy.comparesOn (h : ComparesBy key compar l) : ComparesOn compar l where
  swap a ha b hb := by rw [(h a ha b hb).1, (h b hb a ha).2]
  trans a ha b hb c hc hab hbc := by
    rw [h.le_iff ha hb] at hab
    rw [h.le_iff hb hc] at hbc
    exact (h.le_iff ha hc).mpr (hab.trans hbc)

theorem QsortResult.head_le (hp : QsortResult compar l p) (h : ComparesOn compar l) {a b : α}
    (ha : a ∈ p.head?) (hb : b ∈ l) : compar a b ≤ 0 := by
  obtain ⟨rest, rfl⟩ := List.head?_eq_some_iff.mp ha
  have ha : a ∈ l := hp.perm.mem_iff.mp List.mem_cons_self
  rcases List.mem_cons.mp (hp.perm.mem_iff.mpr hb) with rfl | hb
  · exact (h.self ha).le
  · exact (List.pairwise_cons.mp (hp.sorted h)).1 b hb

theorem QsortResult.head_mem (hp : QsortResult compar l p) {a : α} (ha : a ∈ p.head?) : a ∈ l := by
  obtain ⟨rest, rfl⟩ := List.head?_eq_some_iff.mp ha
  exact hp.perm.mem_iff.mp List.mem_cons_self

theorem QsortResult.head_eq_none (hp : QsortResult compar l p) : p.head? = none ↔ l = [] := by
  rw [List.head?_eq_none_iff]
  constructor
  · rintro rfl
    exact hp.perm.nil_eq.symm
  · rintro rfl
    exact hp.perm.eq_nil

theorem exists_qsortResult (h : ComparesBy key compar l) {a : α} (ha : a ∈ l)
    (hmin : ∀ b ∈ l, key a ≤ key b) : ∃ rest, QsortResult compar l (a :: rest) := by
  obtain ⟨s, t, rfl⟩ := List.append_of_mem ha
  let rest := (s ++ t).mergeSort fun a b => decide (key a ≤ key b)
  have hperm : (a :: rest).Perm (s ++ a :: t) :=
    ((List.mergeSort_perm ..).cons a).trans List.perm_middle.symm
  refine ⟨rest, hperm, fun _ => ?_⟩
  have hsorted : (a :: rest).Pairwise fun a b => key a ≤ key b := by
    refine List.pairwise_cons.mpr ⟨fun b hb => hmin b ?_, ?_⟩
    · exact hperm.mem_iff.mp (List.mem_cons_of_mem a hb)
    · have := @List.pairwise_mergeSort _ (fun a b => decide (key a ≤ key b))
        (fun a b c hab hbc => decide_eq_true ((of_decide_eq_true hab).trans (of_decide_eq_true hbc)))
        (fun a b => by simpa using le_total (key a) (key b)) (s ++ t)
      exact this.imp fun h => of_decide_eq_true h
  exact hsorted.imp_of_mem fun hx hy hxy =>
    (h.le_iff (hperm.mem_iff.mp hx) (hperm.mem_iff.mp hy)).mpr hxy

end Key

end RedisCluster.Lib
