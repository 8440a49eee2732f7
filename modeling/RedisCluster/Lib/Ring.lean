import Mathlib.Data.List.DropRight
import Mathlib.Data.List.Rotate

/-!
# Ring buffers

The cells of a ring, rotated so that the cell to be written next comes first, are a shift register: what is
written enters at the end, and as many of the oldest elements fall out. So the cells are always the last
elements of everything that was ever written.
-/

namespace RedisCluster.Lib

variable {α : Type*}

/-! ## The end of a list -/

theorem rtake_eq_drop (n : Nat) (l : List α) : l.rtake n = l.drop (l.length - n) := rfl

theorem length_rtake (n : Nat) (l : List α) : (l.rtake n).length = min n l.length := by
  rw [rtake_eq_drop, List.length_drop]
  omega

theorem rtake_of_length_le {n : Nat} {l : List α} (h : l.length ≤ n) : l.rtake n = l := by
  rw [rtake_eq_drop, Nat.sub_eq_zero_of_le h, List.drop_zero]

theorem rtake_rtake {m n : Nat} (h : m ≤ n) (l : List α) : (l.rtake n).rtake m = l.rtake m := by
  simp only [rtake_eq_drop, List.length_drop, List.drop_drop]
  congr 1
  omega

theorem rtake_append_of_le {n : Nat} {l : List α} (l' : List α) (h : n ≤ l.length) :
    (l' ++ l).rtake n = l.rtake n := by
  simp only [rtake_eq_drop, List.length_append]
  rw [List.drop_append, List.drop_eq_nil_of_le (by omega), List.nil_append]
  congr 1
  omega

theorem rtake_rtake_append {n : Nat} (l l' : List α) : (l.rtake n ++ l').rtake n = (l ++ l').rtake n := by
  simp only [rtake_eq_drop, List.length_append, List.length_drop, List.drop_append, List.drop_drop]
  congr 2 <;> omega

/-! ## Cells -/

/-- `p` is written over the cells from `i` on. -/
def overwriteAt (cells : List α) (i : Nat) (p : List α) : List α :=
  cells.take i ++ p ++ cells.drop (i + p.length)

theorem length_overwriteAt {cells p : List α} {i : Nat} (h : i + p.length ≤ cells.length) :
    (overwriteAt cells i p).length = cells.length := by
  simp only [overwriteAt, List.length_append, List.length_take, List.length_drop]
  omega

theorem rotate_overwriteAt {cells p : List α} {i : Nat} (h : i + p.length ≤ cells.length) :
    (overwriteAt cells i p).rotate (i + p.length) = (cells.rotate i ++ p).rtake cells.length := by
  have hfront : (cells.take i ++ p).length = i + p.length := by
    rw [List.length_append, List.length_take, Nat.min_eq_left (by omega)]
  have hleft : (overwriteAt cells i p).rotate (i + p.length) = cells.drop (i + p.length) ++ (cells.take i ++ p) := by
    rw [List.rotate_eq_drop_append_take (by rw [length_overwriteAt h]; exact h), overwriteAt]
    rw [List.drop_left' hfront, List.take_left' hfront]
  have hright : cells.rotate i ++ p = cells.drop i ++ (cells.take i ++ p) := by
    rw [List.rotate_eq_drop_append_take (by omega), List.append_assoc]
  rw [hleft, hright, rtake_eq_drop]
  have hcut : (cells.drop i ++ (cells.take i ++ p)).length - cells.length = p.length := by
    rw [List.length_append, hfront, List.length_drop]
    omega
  rw [hcut, List.drop_append, List.drop_drop, List.length_drop]
  rw [Nat.sub_eq_zero_of_le (by omega), List.drop_zero]

theorem rotate_wrap {cells : List α} {i : Nat} (h : i = cells.length) : cells.rotate i = cells.rotate 0 := by
  rw [h, List.rotate_length, List.rotate_zero]

/-! ## Reading -/

theorem rtake_rotate {cells : List α} {i n : Nat} (h : n ≤ cells.length) :
    (cells.rotate i).rtake n = ((cells.rotate ((i + (cells.length - n)) % cells.length)).take n) := by
  have hlength : (cells.rotate i).length = cells.length := List.length_rotate ..
  rw [List.rotate_mod, ← List.rotate_rotate]
  rw [List.rotate_eq_drop_append_take (l := cells.rotate i) (by omega), rtake_eq_drop, hlength]
  rw [List.take_left']
  rw [List.length_drop, hlength]
  omega

theorem take_rotate {cells : List α} {j n : Nat} (hj : j < cells.length) (hn : n ≤ cells.length) :
    (cells.rotate j).take n =
      (cells.drop j).take (min (cells.length - j) n) ++ cells.take (n - min (cells.length - j) n) := by
  rw [List.rotate_eq_drop_append_take (by omega), List.take_append, List.length_drop]
  congr 1
  · rw [← List.take_take]
    have hshort : ((cells.drop j).take n).length ≤ cells.length - j := by
      rw [List.length_take, List.length_drop]
      omega
    rw [List.take_of_length_le hshort]
  · rw [List.take_take]
    congr 1
    omega

end RedisCluster.Lib
