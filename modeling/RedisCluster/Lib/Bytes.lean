import Mathlib.Data.UInt
import Mathlib.Tactic.Ring
import Mathlib.Tactic.Positivity

/-!
# Integers as little-endian bytes

`leBytes w v` is the two's complement of `v` in `w` bytes, the lowest byte first; bits that do not
fit are dropped, as in an assignment to a narrower integer type. `leNat` and `leInt` read bytes back
as an unsigned and as a signed number.
-/

namespace RedisCluster.Lib

def leBytes : Nat → Int → List UInt8
  | 0, _ => []
  | w + 1, v => UInt8.ofNat (v % 256).toNat :: leBytes w (v / 256)

def leNat : List UInt8 → Nat
  | [] => 0
  | b :: bs => b.toNat + 256 * leNat bs

/-- The signed reading: the top bit of the last byte is the sign. -/
def leInt (bs : List UInt8) : Int :=
  if 2 * leNat bs < 256 ^ bs.length then (leNat bs : Int)
  else (leNat bs : Int) - (256 ^ bs.length : Nat)

@[simp] theorem length_leBytes (w : Nat) (v : Int) : (leBytes w v).length = w := by
  induction w generalizing v with
  | zero => rfl
  | succ w ih => rw [leBytes, List.length_cons, ih]

theorem emod_mul_split (v : Int) {a w : Nat} (ha : 0 < a) (hw : 0 < a ^ w) :
    v % (a ^ (w + 1) : Nat) = v % a + a * (v / a % (a ^ w : Nat)) := by
  have h1 := Int.emod_nonneg v (show (a : Int) ≠ 0 by omega)
  have h2 := Int.emod_lt_of_pos v (show (0 : Int) < a by omega)
  have h3 := Int.emod_nonneg (v / a) (show ((a ^ w : Nat) : Int) ≠ 0 by omega)
  have h4 := Int.emod_lt_of_pos (v / a) (show (0 : Int) < (a ^ w : Nat) by omega)
  set r := v / a % (a ^ w : Nat) with hr
  have hv : v = (v % a + a * r) + (a ^ (w + 1) : Nat) * (v / a / (a ^ w : Nat)) := by
    have e1 := Int.mul_ediv_add_emod v a
    have e2 := Int.mul_ediv_add_emod (v / a) (a ^ w : Nat)
    rw [← hr] at e2
    calc v = a * (v / a) + v % a := e1.symm
      _ = a * ((a ^ w : Nat) * (v / a / (a ^ w : Nat)) + r) + v % a := by rw [e2]
      _ = _ := by push_cast; ring
  have hlt : v % a + a * r < (a ^ (w + 1) : Nat) := by
    have e3 : (a : Int) * (r + 1) ≤ a * (a ^ w : Nat) :=
      Int.mul_le_mul_of_nonneg_left (by omega) (by omega)
    rw [pow_succ', Nat.cast_mul]
    rw [Int.mul_add, Int.mul_one] at e3
    omega
  have hnonneg : 0 ≤ v % a + a * r := Int.add_nonneg h1 (Int.mul_nonneg (by omega) h3)
  conv_lhs => rw [hv, Int.add_mul_emod_self_left, Int.emod_eq_of_lt hnonneg hlt]

theorem leNat_leBytes (w : Nat) (v : Int) : (leNat (leBytes w v) : Int) = v % (256 ^ w : Nat) := by
  induction w generalizing v with
  | zero => simp [leBytes, leNat]
  | succ w ih =>
    have h1 : 0 ≤ v % 256 := Int.emod_nonneg v (by decide)
    have h2 : v % 256 < 256 := Int.emod_lt_of_pos v (by decide)
    have hbyte : (UInt8.ofNat (v % 256).toNat).toNat = (v % 256).toNat := by
      rw [UInt8.toNat_ofNat']
      omega
    have hsplit : v % (256 ^ (w + 1) : Nat) = v % 256 + 256 * (v / 256 % (256 ^ w : Nat)) :=
      emod_mul_split v (by decide) (by positivity)
    rw [leBytes, leNat, hbyte, hsplit, ← ih]
    push_cast
    omega

theorem leBytes_emod (w : Nat) (v : Int) : leBytes w (v % (256 ^ w : Nat)) = leBytes w v := by
  induction w generalizing v with
  | zero => rfl
  | succ w ih =>
    have hsplit : v % (256 ^ (w + 1) : Nat) = v % 256 + 256 * (v / 256 % (256 ^ w : Nat)) :=
      emod_mul_split v (by decide) (by positivity)
    have hlow : (v % 256 + 256 * (v / 256 % (256 ^ w : Nat))) % 256 = v % 256 := by omega
    have hhigh : (v % 256 + 256 * (v / 256 % (256 ^ w : Nat))) / 256 = v / 256 % (256 ^ w : Nat) := by omega
    rw [leBytes, leBytes, hsplit, hlow, hhigh, ih]

/-- The range of a signed integer of `w` bytes. -/
def FitsBytes (w : Nat) (v : Int) : Prop := -(256 ^ w : Nat) ≤ 2 * v ∧ 2 * v < (256 ^ w : Nat)

instance (w : Nat) (v : Int) : Decidable (FitsBytes w v) := inferInstanceAs (Decidable (_ ∧ _))

theorem FitsBytes.mono {w w' : Nat} (hw : w ≤ w') {v : Int} (h : FitsBytes w v) :
    FitsBytes w' v := by
  have h1 : 256 ^ w ≤ 256 ^ w' := Nat.pow_le_pow_right (by decide) hw
  unfold FitsBytes at *
  omega

theorem leInt_leBytes {w : Nat} {v : Int} (h : FitsBytes w v) : leInt (leBytes w v) = v := by
  obtain ⟨h1, h2⟩ := h
  have hn := leNat_leBytes w v
  have hp : (0 : Int) < (256 ^ w : Nat) := by positivity
  unfold leInt
  rw [length_leBytes]
  by_cases hv : 0 ≤ v
  · rw [Int.emod_eq_of_lt hv (by omega)] at hn
    rw [if_pos (by omega), hn]
  · have hm : v % (256 ^ w : Nat) = v + (256 ^ w : Nat) := by
      rw [← Int.add_emod_right, Int.emod_eq_of_lt (by omega) (by omega)]
    rw [hm] at hn
    rw [if_neg (by omega), hn]
    omega

theorem leNat_lt (bs : List UInt8) : leNat bs < 256 ^ bs.length := by
  induction bs with
  | nil => exact Nat.one_pos
  | cons b bs ih =>
    have hb : b.toNat < 256 := b.toNat_lt
    rw [leNat, List.length_cons, Nat.pow_succ]
    omega

theorem fitsBytes_leInt (bs : List UInt8) : FitsBytes bs.length (leInt bs) := by
  have hlt := leNat_lt bs
  unfold FitsBytes leInt
  split <;> omega

end RedisCluster.Lib
