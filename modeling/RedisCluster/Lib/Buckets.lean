import Mathlib.Data.List.Range
import Mathlib.Data.List.Nodup
import Mathlib.Data.List.Perm.Basic

/-!
# The contents of an array of buckets

A hash table is a function from bucket numbers to chains. Its contents, `contents n f`, are the
chains of the buckets below `n` one after the other. Changing one chain changes the contents by
that chain only, up to the order (`contents_update`).
-/

open scoped List

namespace RedisCluster.Lib

variable {α : Type*}

/-- The elements of the buckets `0 .. n - 1`, bucket after bucket. -/
def contents (n : Nat) (f : Nat → List α) : List α := (List.range n).flatMap f

theorem contents_zero (f : Nat → List α) : contents 0 f = [] := rfl

theorem contents_succ (n : Nat) (f : Nat → List α) :
    contents (n + 1) f = contents n f ++ f n := by
  simp [contents, List.range_succ]

theorem mem_contents {n : Nat} {f : Nat → List α} {x : α} :
    x ∈ contents n f ↔ ∃ i < n, x ∈ f i := by
  simp [contents]

theorem contents_empty {n : Nat} {f : Nat → List α} (h : ∀ i < n, f i = []) :
    contents n f = [] := by
  simpa [contents] using h

theorem contents_update_of_le {n i : Nat} (h : n ≤ i) (f : Nat → List α) (l : List α) :
    contents n (Function.update f i l) = contents n f := by
  induction n with
  | zero => rfl
  | succ n ih =>
    rw [contents_succ, contents_succ, ih (by omega), Function.update_of_ne (by omega)]

theorem contents_update {n i : Nat} (h : i < n) (f : Nat → List α) (l : List α) :
    (contents n (Function.update f i l) ++ f i).Perm (contents n f ++ l) := by
  induction n with
  | zero => omega
  | succ n ih =>
    rw [contents_succ, contents_succ]
    by_cases hi : i = n
    · subst hi
      rw [contents_update_of_le le_rfl, Function.update_self, List.append_assoc, List.append_assoc]
      exact List.Perm.append_left _ List.perm_append_comm
    · rw [Function.update_of_ne (Ne.symm hi), List.append_assoc, List.append_assoc]
      have h1 := (ih (by omega)).append_right (f n)
      rw [List.append_assoc, List.append_assoc] at h1
      calc contents n (Function.update f i l) ++ (f n ++ f i)
          _ ~ contents n (Function.update f i l) ++ (f i ++ f n) :=
            List.Perm.append_left _ List.perm_append_comm
          _ ~ contents n f ++ (l ++ f n) := h1
          _ ~ contents n f ++ (f n ++ l) := List.Perm.append_left _ List.perm_append_comm

theorem contents_update_cons {n i : Nat} (h : i < n) (f : Nat → List α) (x : α) :
    (contents n (Function.update f i (x :: f i))).Perm (x :: contents n f) := by
  have h1 := contents_update h f (x :: f i)
  have h2 : (contents n f ++ x :: f i).Perm ((x :: contents n f) ++ f i) := by
    simp
  exact (List.perm_append_right_iff _).mp (h1.trans h2)

theorem contents_update_nil {n i : Nat} (h : i < n) (f : Nat → List α) :
    (contents n (Function.update f i []) ++ f i).Perm (contents n f) := by
  simpa using contents_update h f []

end RedisCluster.Lib
