import Mathlib.Data.List.Basic
import Mathlib.Order.Lattice

/-!
# The newest of several values

A value with an epoch replaces one with a smaller epoch. Where equal epochs go with equal values, neither the
order of the values that come in nor their repetition matters.
-/

namespace RedisCluster.Lib

variable {ε α : Type*} [LinearOrder ε]

def newer (r e : ε × α) : ε × α := if r.1 < e.1 then e else r

def Agree (l : List (ε × α)) : Prop := ∀ a ∈ l, ∀ b ∈ l, a.1 = b.1 → a = b

theorem le_newer (r e : ε × α) : r.1 ≤ (newer r e).1 ∧ e.1 ≤ (newer r e).1 := by
  unfold newer
  split
  · rename_i h
    exact ⟨h.le, le_refl _⟩
  · rename_i h
    exact ⟨le_refl _, not_lt.mp h⟩

theorem newer_mem (r e : ε × α) : newer r e = r ∨ newer r e = e := by
  unfold newer
  split
  · exact .inr rfl
  · exact .inl rfl

theorem foldl_newer (r : ε × α) (l : List (ε × α)) :
    l.foldl newer r ∈ r :: l ∧ ∀ e ∈ r :: l, e.1 ≤ (l.foldl newer r).1 := by
  induction l generalizing r with
  | nil =>
    refine ⟨List.mem_cons_self, fun e he => ?_⟩
    rw [List.mem_singleton.mp he]
    exact le_refl _
  | cons a l ih =>
    obtain ⟨hmem, hle⟩ := ih (newer r a)
    rw [List.foldl_cons]
    refine ⟨?_, fun e he => ?_⟩
    · rcases List.mem_cons.mp hmem with heq | hl
      · rw [heq]
        rcases newer_mem r a with h | h
        · rw [h]
          exact List.mem_cons_self
        · rw [h]
          exact List.mem_cons_of_mem _ List.mem_cons_self
      · exact List.mem_cons_of_mem _ (List.mem_cons_of_mem _ hl)
    · have hfirst := hle _ List.mem_cons_self
      rcases List.mem_cons.mp he with rfl | he
      · exact (le_newer e a).1.trans hfirst
      · rcases List.mem_cons.mp he with rfl | he
        · exact (le_newer r e).2.trans hfirst
        · exact hle e (List.mem_cons_of_mem _ he)

theorem foldl_newer_congr {r : ε × α} {l l' : List (ε × α)} (hagree : Agree (r :: l))
    (hsame : ∀ e, e ∈ l ↔ e ∈ l') : l.foldl newer r = l'.foldl newer r := by
  have hcons : ∀ e, e ∈ r :: l ↔ e ∈ r :: l' := fun e => by
    rw [List.mem_cons, List.mem_cons, hsame e]
  obtain ⟨hmem, hle⟩ := foldl_newer r l
  obtain ⟨hmem', hle'⟩ := foldl_newer r l'
  refine hagree _ hmem _ ((hcons _).mpr hmem') (le_antisymm ?_ ?_)
  · exact hle' _ ((hcons _).mp hmem)
  · exact hle _ ((hcons _).mpr hmem')

end RedisCluster.Lib
