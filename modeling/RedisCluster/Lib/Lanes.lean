import RedisCluster.Lib.Bytes

/-!
# Bitwise operations on words and on their bytes

The bytes of a word are lanes: an operation on bits works on each lane by itself, and so does a shift to
the right under a mask that keeps no bit of the next lane.
-/

namespace RedisCluster.Lib

/-! ## One lane -/

theorem testBit_lane {x : Nat} (hx : x < 256) (y i : Nat) :
    (x + 256 * y).testBit i = if i < 8 then x.testBit i else y.testBit (i - 8) := by
  rw [Nat.add_comm]
  exact Nat.testBit_two_pow_mul_add y (i := 8) hx i

theorem bitwise_lane {f : Bool → Bool → Bool} {op : Nat → Nat → Nat}
    (hop : ∀ x y i, (op x y).testBit i = f (x.testBit i) (y.testBit i))
    (hlt : ∀ x y, x < 256 → y < 256 → op x y < 256) {x m : Nat} (hx : x < 256) (hm : m < 256) (y k : Nat) :
    op (x + 256 * y) (m + 256 * k) = op x m + 256 * op y k := by
  apply Nat.eq_of_testBit_eq
  intro i
  rw [hop, testBit_lane hx, testBit_lane hm, testBit_lane (hlt x m hx hm), hop, hop]
  split <;> rfl

theorem land_lane {x m : Nat} (hx : x < 256) (hm : m < 256) (y k : Nat) :
    (x + 256 * y) &&& (m + 256 * k) = (x &&& m) + 256 * (y &&& k) :=
  @bitwise_lane and (· &&& ·) (fun x y i => Nat.testBit_and x y i)
    (fun _ _ _ hy => Nat.and_lt_two_pow (n := 8) _ hy) x m hx hm y k

theorem shift_land_lane {x m s : Nat} (hx : x < 256) (hs : s ≤ 8) (hm : m < 2 ^ (8 - s)) (y k : Nat) :
    ((x + 256 * y) >>> s) &&& (m + 256 * k) = ((x >>> s) &&& m) + 256 * ((y >>> s) &&& k) := by
  have hm8 : m < 256 := lt_of_lt_of_le hm (Nat.pow_le_pow_right (by decide) (Nat.sub_le 8 s))
  have hand : (x >>> s) &&& m < 256 := lt_of_le_of_lt Nat.and_le_right hm8
  apply Nat.eq_of_testBit_eq
  intro i
  rw [Nat.testBit_and, Nat.testBit_shiftRight, testBit_lane hx, testBit_lane hm8, testBit_lane hand,
    Nat.testBit_and, Nat.testBit_and, Nat.testBit_shiftRight, Nat.testBit_shiftRight]
  by_cases hi : i < 8
  · rw [if_pos hi, if_pos hi]
    by_cases hsi : s + i < 8
    · rw [if_pos hsi]
    · have hmi : m.testBit i = false := by
        refine Nat.testBit_lt_two_pow (lt_of_lt_of_le hm (Nat.pow_le_pow_right (by decide) ?_))
        omega
      rw [hmi, Bool.and_false, Bool.and_false]
  · rw [if_neg hi, if_neg hi, if_neg (by omega), show s + i - 8 = s + (i - 8) by omega]

/-! ## The bytes of a number -/

theorem leBytes_leNat (bs : List UInt8) : leBytes bs.length (leNat bs) = bs := by
  induction bs with
  | nil => rfl
  | cons b bs ih =>
    have hb : b.toNat < 256 := b.toNat_lt
    have hlow : (((b.toNat + 256 * leNat bs : Nat) : Int) % 256).toNat = b.toNat := by omega
    have hhigh : ((b.toNat + 256 * leNat bs : Nat) : Int) / 256 = leNat bs := by omega
    rw [List.length_cons, leBytes, leNat, hlow, hhigh, ih, UInt8.ofNat_toNat]

theorem leNat_zipWith {f : Bool → Bool → Bool} {op : Nat → Nat → Nat} {byte : UInt8 → UInt8 → UInt8}
    (hop : ∀ x y i, (op x y).testBit i = f (x.testBit i) (y.testBit i))
    (hbyte : ∀ a b, (byte a b).toNat = op a.toNat b.toNat) (hzero : op 0 0 = 0)
    (as bs : List UInt8) (h : as.length = bs.length) :
    leNat (List.zipWith byte as bs) = op (leNat as) (leNat bs) := by
  induction as generalizing bs with
  | nil =>
    obtain rfl : bs = [] := List.length_eq_zero_iff.mp h.symm
    exact hzero.symm
  | cons a as ih =>
    cases bs with
    | nil => cases h
    | cons b bs =>
      have hab : op a.toNat b.toNat < 256 := by
        rw [← hbyte]
        exact (byte a b).toNat_lt
      rw [List.zipWith_cons_cons, leNat, leNat, leNat, ih bs (Nat.succ.inj h), hbyte]
      apply Nat.eq_of_testBit_eq
      intro i
      rw [hop, testBit_lane a.toNat_lt, testBit_lane b.toNat_lt, testBit_lane hab, hop, hop]
      split <;> rfl

theorem leNat_complement (bs : List UInt8) :
    leNat (bs.map (~~~ ·)) = 256 ^ bs.length - 1 - leNat bs := by
  induction bs with
  | nil => rfl
  | cons b bs ih =>
    have hb : b.toNat < 256 := b.toNat_lt
    have hlt := leNat_lt bs
    have hnot : (~~~b).toNat = 255 - b.toNat := by
      rw [UInt8.toNat_not]
      rfl
    rw [List.map_cons, leNat, leNat, ih, hnot, List.length_cons, Nat.pow_succ]
    omega

theorem leNat_eq_zero_iff (bs : List UInt8) : leNat bs = 0 ↔ ∀ b ∈ bs, b = 0 := by
  induction bs with
  | nil => simp [leNat]
  | cons b bs ih =>
    have hb : b = 0 ↔ b.toNat = 0 := UInt8.toNat_inj.symm
    rw [leNat, List.forall_mem_cons, ← ih, hb]
    omega

theorem leNat_eq_max_iff (bs : List UInt8) : leNat bs = 256 ^ bs.length - 1 ↔ ∀ b ∈ bs, b = 255 := by
  induction bs with
  | nil => simp [leNat]
  | cons b bs ih =>
    have hlt := leNat_lt bs
    have hlt' : b.toNat < 256 := b.toNat_lt
    have hb : b = 255 ↔ b.toNat = 255 := UInt8.toNat_inj.symm
    rw [leNat, List.forall_mem_cons, ← ih, hb, List.length_cons, Nat.pow_succ]
    omega

end RedisCluster.Lib
