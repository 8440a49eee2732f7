import Mathlib.Data.Nat.Bitwise
import Mathlib.Tactic.Ring

/-!
# Cursors that count with reversed bits

A cursor over tables of `2 ^ n` buckets, for several `n`, is a `w`-bit word that counts in its
reversed bits: the low `n` bits of the word choose the bucket, so they are the high `n` bits of the
reversed word, and the buckets of a smaller table are blocks of the reversed order. All statements
compare `x.reverse.toNat`, the place of `x` in that order.
-/

namespace RedisCluster.Lib

variable {w : Nat}

def lowMask (w n : Nat) : BitVec w := BitVec.ofNat w (2 ^ n - 1)

theorem getLsbD_lowMask {n i : Nat} (hi : i < w) :
    (lowMask w n).getLsbD i = decide (i < n) := by
  rw [lowMask, BitVec.getLsbD_ofNat, Nat.testBit_two_pow_sub_one]
  simp [hi]

theorem toNat_and_lowMask {n : Nat} (v : BitVec w) :
    (v &&& lowMask w n).toNat = v.toNat % 2 ^ n := by
  apply Nat.eq_of_testBit_eq
  intro i
  rw [BitVec.toNat_and, Nat.testBit_and, Nat.testBit_mod_two_pow]
  by_cases hi : i < w
  · have h := getLsbD_lowMask (n := n) hi
    rw [BitVec.getLsbD] at h
    rw [h, Bool.and_comm]
  · have h : v.toNat.testBit i = false :=
      Nat.testBit_lt_two_pow (lt_of_lt_of_le v.isLt (Nat.pow_le_pow_right (by omega) (by omega)))
    simp [h]

theorem testBit_reverse (x : BitVec w) (i : Nat) :
    x.reverse.toNat.testBit i = (decide (i < w) && x.getLsbD (w - 1 - i)) := by
  have h := BitVec.getLsbD_reverse (i := i) (x := x)
  rw [BitVec.getMsbD] at h
  exact h

theorem toNat_reverse_zero : (0 : BitVec w).reverse.toNat = 0 := by
  rw [BitVec.ofNat_eq_ofNat, BitVec.reverse_eq_zero_iff.mpr rfl, BitVec.toNat_zero]

theorem testBit_reverse_div {n : Nat} (hn : n ≤ w) (x : BitVec w) (i : Nat) :
    (x.reverse.toNat / 2 ^ (w - n)).testBit i = (decide (i < n) && x.getLsbD (n - 1 - i)) := by
  rw [Nat.testBit_div_two_pow, testBit_reverse]
  by_cases hi : i < n
  · have h1 : i + (w - n) < w := by omega
    have h2 : w - 1 - (i + (w - n)) = n - 1 - i := by omega
    simp [h1, h2, hi]
  · have h1 : ¬ i + (w - n) < w := by omega
    simp [h1, hi]

theorem reverse_div_eq_iff {n : Nat} (hn : n ≤ w) (x y : BitVec w) :
    x.reverse.toNat / 2 ^ (w - n) = y.reverse.toNat / 2 ^ (w - n) ↔
      x.toNat % 2 ^ n = y.toNat % 2 ^ n := by
  constructor
  · intro h
    apply Nat.eq_of_testBit_eq
    intro i
    rw [Nat.testBit_mod_two_pow, Nat.testBit_mod_two_pow]
    by_cases hi : i < n
    · have h1 := testBit_reverse_div hn x (n - 1 - i)
      rw [h, testBit_reverse_div hn y] at h1
      have h2 : n - 1 - i < n := by omega
      have h3 : n - 1 - (n - 1 - i) = i := by omega
      simp only [h2, h3, decide_true, Bool.true_and, BitVec.getLsbD] at h1
      rw [h1]
    · simp [hi]
  · intro h
    apply Nat.eq_of_testBit_eq
    intro i
    rw [testBit_reverse_div hn, testBit_reverse_div hn]
    by_cases hi : i < n
    · have h1 := congrArg (fun a => a.testBit (n - 1 - i)) h
      have h2 : n - 1 - i < n := by omega
      simp only [Nat.testBit_mod_two_pow, h2, decide_true, Bool.true_and] at h1
      simp only [BitVec.getLsbD, h1]
    · simp [hi]

theorem reverse_or_not_lowMask {n : Nat} (hn : n ≤ w) (v : BitVec w) :
    (v ||| ~~~ lowMask w n).reverse.toNat =
      v.reverse.toNat / 2 ^ (w - n) * 2 ^ (w - n) + (2 ^ (w - n) - 1) := by
  set u := v ||| ~~~ lowMask w n with hu
  have hbit : ∀ i < w, u.getLsbD i = (v.getLsbD i || decide (n ≤ i)) := by
    intro i hi
    rw [hu, BitVec.getLsbD_or, BitVec.getLsbD_not, getLsbD_lowMask hi]
    by_cases h : i < n
    · simp [h, show ¬ n ≤ i by omega]
    · simp [h, hi, show n ≤ i by omega]
  have hhigh : u.reverse.toNat / 2 ^ (w - n) = v.reverse.toNat / 2 ^ (w - n) := by
    apply Nat.eq_of_testBit_eq
    intro i
    rw [testBit_reverse_div hn, testBit_reverse_div hn]
    by_cases hi : i < n
    · rw [hbit _ (by omega)]
      simp [show ¬ n ≤ n - 1 - i by omega]
    · simp [hi]
  have hlow : u.reverse.toNat % 2 ^ (w - n) = 2 ^ (w - n) - 1 := by
    apply Nat.eq_of_testBit_eq
    intro i
    rw [Nat.testBit_mod_two_pow, Nat.testBit_two_pow_sub_one]
    by_cases hi : i < w - n
    · rw [testBit_reverse, hbit _ (by omega)]
      simp [hi, show i < w by omega, show n ≤ w - 1 - i by omega]
    · simp [hi]
  have hdm := Nat.div_add_mod' u.reverse.toNat (2 ^ (w - n))
  rw [hhigh, hlow] at hdm
  exact hdm.symm

/-- The next cursor for a table of `2 ^ n` buckets. -/
def revNext (n : Nat) (v : BitVec w) : BitVec w := ((v ||| ~~~ lowMask w n).reverse + 1).reverse

theorem reverse_revNext {n : Nat} (hn : n ≤ w) (v : BitVec w) :
    (revNext n v).reverse.toNat =
      (v.reverse.toNat / 2 ^ (w - n) + 1) * 2 ^ (w - n) % 2 ^ w := by
  have hp : 0 < 2 ^ (w - n) := Nat.two_pow_pos _
  have hsucc : v.reverse.toNat / 2 ^ (w - n) * 2 ^ (w - n) + (2 ^ (w - n) - 1) + 1 =
      (v.reverse.toNat / 2 ^ (w - n) + 1) * 2 ^ (w - n) := by
    rw [Nat.add_mul, Nat.one_mul]
    omega
  rw [revNext, BitVec.reverse_reverse_eq, BitVec.toNat_add, reverse_or_not_lowMask hn,
    BitVec.ofNat_eq_ofNat, BitVec.toNat_ofNat, Nat.add_mod_mod, hsucc]

theorem revNext_congr {n : Nat} (hn : n ≤ w) {u v : BitVec w}
    (h : u.toNat % 2 ^ n = v.toNat % 2 ^ n) : revNext n u = revNext n v := by
  have h1 : (revNext n u).reverse = (revNext n v).reverse := by
    apply BitVec.eq_of_toNat_eq
    rw [reverse_revNext hn, reverse_revNext hn, (reverse_div_eq_iff hn u v).mpr h]
  rw [← BitVec.reverse_reverse_eq (x := revNext n u), h1, BitVec.reverse_reverse_eq]

theorem revNext_le {n : Nat} (hn : n ≤ w) {v x : BitVec w}
    (hle : v.reverse.toNat ≤ x.reverse.toNat) (hne : x.toNat % 2 ^ n ≠ v.toNat % 2 ^ n) :
    revNext n v ≠ 0 ∧ (revNext n v).reverse.toNat ≤ x.reverse.toNat := by
  set p := 2 ^ (w - n) with hp
  have hpos : 0 < p := Nat.two_pow_pos _
  have hblock : v.reverse.toNat / p + 1 ≤ x.reverse.toNat / p := by
    have h1 : v.reverse.toNat / p ≤ x.reverse.toNat / p := Nat.div_le_div_right hle
    have h2 : v.reverse.toNat / p ≠ x.reverse.toNat / p := by
      intro h
      exact hne ((reverse_div_eq_iff hn x v).mp h.symm)
    omega
  have hmul : (v.reverse.toNat / p + 1) * p ≤ x.reverse.toNat :=
    le_trans (Nat.mul_le_mul_right p hblock) (Nat.div_mul_le_self _ _)
  have hnext : (revNext n v).reverse.toNat = (v.reverse.toNat / p + 1) * p := by
    rw [reverse_revNext hn, Nat.mod_eq_of_lt (lt_of_le_of_lt hmul x.reverse.isLt)]
  refine ⟨?_, hnext ▸ hmul⟩
  intro h0
  rw [h0] at hnext
  rw [toNat_reverse_zero] at hnext
  have hnonzero : 0 < (v.reverse.toNat / p + 1) * p := Nat.mul_pos (Nat.succ_pos _) hpos
  omega

theorem reverse_lt_of_ones {n k : Nat} (hnk : n + k ≤ w) {v x : BitVec w}
    (hlow : x.toNat % 2 ^ n = v.toNat % 2 ^ n)
    (hones : v.toNat / 2 ^ n % 2 ^ k = 2 ^ k - 1) (hx : x.toNat / 2 ^ n % 2 ^ k ≠ 2 ^ k - 1) :
    x.reverse.toNat < v.reverse.toNat := by
  set a := fun y : BitVec w => y.reverse.toNat / 2 ^ (w - (n + k)) with ha
  have hsplit : ∀ y : BitVec w, a y / 2 ^ k = y.reverse.toNat / 2 ^ (w - n) := by
    intro y
    rw [ha, Nat.div_div_eq_div_mul, ← pow_add]
    congr 2
    omega
  have hmax : a v % 2 ^ k = 2 ^ k - 1 := by
    apply Nat.eq_of_testBit_eq
    intro i
    rw [Nat.testBit_mod_two_pow, Nat.testBit_two_pow_sub_one]
    by_cases hi : i < k
    · have h1 := congrArg (fun b => b.testBit (k - 1 - i)) hones
      have h2 : k - 1 - i < k := by omega
      have h3 : k - 1 - i + n = n + k - 1 - i := by omega
      simp only [Nat.testBit_mod_two_pow, Nat.testBit_two_pow_sub_one, h2, decide_true,
        Bool.true_and, Nat.testBit_div_two_pow, h3] at h1
      rw [ha, testBit_reverse_div hnk]
      simp [BitVec.getLsbD, h1, hi, show i < n + k by omega]
    · simp [hi]
  have hne : a x ≠ a v := by
    intro h
    have h1 := (reverse_div_eq_iff hnk x v).mp h
    apply hx
    rw [← hones]
    have h2 : ∀ y : BitVec w, y.toNat / 2 ^ n % 2 ^ k = y.toNat % 2 ^ (n + k) / 2 ^ n := by
      intro y
      rw [pow_add, Nat.mod_mul_right_div_self]
    rw [h2, h2, h1]
  have hhigh : a x / 2 ^ k = a v / 2 ^ k := by
    rw [hsplit, hsplit]
    exact (reverse_div_eq_iff (by omega) x v).mpr hlow
  have hk : 0 < 2 ^ k := Nat.two_pow_pos k
  have hxm : a x % 2 ^ k < 2 ^ k := Nat.mod_lt _ hk
  have hx1 := Nat.div_add_mod (a x) (2 ^ k)
  have hv1 := Nat.div_add_mod (a v) (2 ^ k)
  rw [hhigh] at hx1
  have hlt : a x < a v := by omega
  by_contra hcon
  have hge : a v ≤ a x := Nat.div_le_div_right (Nat.le_of_not_lt hcon)
  omega

/-- If the bits of `v` from `n` up to `m` are a run of ones from the lowest on, then the words of the
same block at or after `v` are also numerically at or after it among `2 ^ m` buckets. -/
theorem mod_le_of_reverse_le {n m : Nat} (hnm : n ≤ m) (hm : m ≤ w) {v x : BitVec w}
    (hlow : x.toNat % 2 ^ n = v.toNat % 2 ^ n) (hle : v.reverse.toNat ≤ x.reverse.toNat)
    (hpow : (v.toNat % 2 ^ m / 2 ^ n + 1).isPowerOfTwo) :
    v.toNat % 2 ^ m ≤ x.toNat % 2 ^ m := by
  obtain ⟨k, hk⟩ := hpow
  have hpk : 0 < 2 ^ k := Nat.two_pow_pos k
  have hsplit : 2 ^ m = 2 ^ n * 2 ^ (m - n) := by
    rw [← pow_add]
    congr 1
    omega
  have hhigh : ∀ y : Nat, y % 2 ^ m / 2 ^ n = y / 2 ^ n % 2 ^ (m - n) := by
    intro y
    rw [hsplit, Nat.mod_mul_right_div_self]
  have hkm : k ≤ m - n := by
    have h1 := Nat.mod_lt (v.toNat / 2 ^ n) (Nat.two_pow_pos (m - n))
    rw [hhigh] at hk
    exact (Nat.pow_le_pow_iff_right (by omega)).mp (show 2 ^ k ≤ 2 ^ (m - n) by omega)
  have hbits : ∀ y : Nat, y / 2 ^ n % 2 ^ k = y % 2 ^ m / 2 ^ n % 2 ^ k := by
    intro y
    rw [hhigh, Nat.mod_mod_of_dvd _ (Nat.pow_dvd_pow 2 hkm)]
  by_contra hcon
  -- `x` is numerically before `v`, so a bit below `k` is missing in its high part
  have hlt : x.toNat % 2 ^ m / 2 ^ n < v.toNat % 2 ^ m / 2 ^ n := by
    have hdvd : 2 ^ n ∣ 2 ^ m := Nat.pow_dvd_pow 2 hnm
    have h1 := Nat.div_add_mod (x.toNat % 2 ^ m) (2 ^ n)
    have h2 := Nat.div_add_mod (v.toNat % 2 ^ m) (2 ^ n)
    rw [Nat.mod_mod_of_dvd _ hdvd] at h1 h2
    by_contra hge
    have h3 := Nat.mul_le_mul_left (2 ^ n) (Nat.le_of_not_lt hge)
    omega
  have hrev := reverse_lt_of_ones (n := n) (k := k) (by omega) hlow
    (by rw [hbits, Nat.mod_eq_of_lt (by omega)]; omega)
    (by rw [hbits, Nat.mod_eq_of_lt (by omega)]; omega)
  omega

/-! ## Stepping through the expansions of a bucket -/

def nextExpansion (n : Nat) (v : BitVec w) : BitVec w :=
  (((v ||| lowMask w n) + 1) &&& ~~~ lowMask w n) ||| (v &&& lowMask w n)

theorem toNat_nextExpansion {n : Nat} (hn : n ≤ w) (v : BitVec w) :
    (nextExpansion n v).toNat = (v.toNat + 2 ^ n) % 2 ^ w := by
  have hp : 0 < 2 ^ n := Nat.two_pow_pos n
  have hsplit : v.toNat = 2 ^ n * (v.toNat / 2 ^ n) + v.toNat % 2 ^ n :=
    (Nat.div_add_mod v.toNat (2 ^ n)).symm
  have hr : v.toNat % 2 ^ n < 2 ^ n := Nat.mod_lt _ hp
  set q := v.toNat / 2 ^ n with hq
  set r := v.toNat % 2 ^ n with hrdef
  have hbit : ∀ i, v.toNat.testBit i = if i < n then r.testBit i else q.testBit (i - n) := by
    intro i
    conv_lhs => rw [hsplit]
    exact Nat.testBit_two_pow_mul_add q hr i
  have hmask : (lowMask w n).toNat = 2 ^ n - 1 := by
    have hle : 2 ^ n ≤ 2 ^ w := Nat.pow_le_pow_right (by omega) hn
    rw [lowMask, BitVec.toNat_ofNat, Nat.mod_eq_of_lt (by omega)]
  have hfull : (v ||| lowMask w n).toNat = 2 ^ n * q + (2 ^ n - 1) := by
    apply Nat.eq_of_testBit_eq
    intro i
    rw [BitVec.toNat_or, Nat.testBit_or, hmask, Nat.testBit_two_pow_mul_add q (by omega),
      Nat.testBit_two_pow_sub_one, hbit]
    by_cases hi : i < n <;> simp [hi]
  have hinc : (v ||| lowMask w n).toNat + 1 = 2 ^ n * (q + 1) + 0 := by
    rw [hfull, Nat.mul_add]
    omega
  have hsum : v.toNat + 2 ^ n = 2 ^ n * (q + 1) + r := by
    rw [Nat.mul_add]
    omega
  rw [hsum, nextExpansion]
  apply Nat.eq_of_testBit_eq
  intro i
  rw [BitVec.toNat_or, Nat.testBit_or, Nat.testBit_mod_two_pow,
    Nat.testBit_two_pow_mul_add _ hr, toNat_and_lowMask, BitVec.toNat_and, Nat.testBit_and,
    BitVec.toNat_add, BitVec.ofNat_eq_ofNat, BitVec.toNat_ofNat, Nat.add_mod_mod, hinc,
    Nat.testBit_mod_two_pow, Nat.testBit_two_pow_mul_add _ hp, ← hrdef]
  by_cases hiw : i < w
  · have hnot : (~~~ lowMask w n).toNat.testBit i = decide (¬ i < n) := by
      have h := BitVec.getLsbD_not (x := lowMask w n) (i := i)
      rw [getLsbD_lowMask hiw, BitVec.getLsbD] at h
      rw [h, decide_eq_true hiw, Bool.true_and, decide_not]
    rw [hnot]
    by_cases hi : i < n
    · simp [hi, hiw]
    · have hhigh : r.testBit i = false :=
        Nat.testBit_lt_two_pow (lt_of_lt_of_le hr (Nat.pow_le_pow_right (by omega) (by omega)))
      simp [hi, hiw, hhigh]
  · have hhigh : r.testBit i = false :=
      Nat.testBit_lt_two_pow (lt_of_lt_of_le hr (Nat.pow_le_pow_right (by omega) (by omega)))
    simp [hiw, hhigh]

theorem nextExpansion_mod {n m : Nat} (hn : n ≤ w) (hm : m ≤ w) (v : BitVec w) :
    (nextExpansion n v).toNat % 2 ^ m = (v.toNat + 2 ^ n) % 2 ^ m := by
  rw [toNat_nextExpansion hn, Nat.mod_mod_of_dvd _ (Nat.pow_dvd_pow 2 hm)]

theorem and_between_eq_zero_iff {n m : Nat} (hnm : n ≤ m) (hm : m ≤ w) (v : BitVec w) :
    v &&& (lowMask w n ^^^ lowMask w m) = 0 ↔ v.toNat % 2 ^ m < 2 ^ n := by
  have hbit : ∀ i < w, (v &&& (lowMask w n ^^^ lowMask w m)).getLsbD i =
      (v.getLsbD i && (decide (n ≤ i) && decide (i < m))) := by
    intro i hi
    rw [BitVec.getLsbD_and, BitVec.getLsbD_xor, getLsbD_lowMask hi, getLsbD_lowMask hi]
    by_cases h1 : i < n
    · simp [h1, show i < m by omega, show ¬ n ≤ i by omega]
    · simp [h1, show n ≤ i by omega]
  constructor
  · intro h
    apply Nat.lt_pow_two_of_testBit
    intro i hi
    rw [Nat.testBit_mod_two_pow]
    by_cases him : i < m
    · have h1 := hbit i (by omega)
      rw [h, BitVec.ofNat_eq_ofNat, BitVec.getLsbD_zero] at h1
      simpa [hi, him, BitVec.getLsbD] using h1.symm
    · simp [him]
  · intro h
    apply BitVec.eq_of_getLsbD_eq
    intro i hi
    rw [hbit i hi, BitVec.ofNat_eq_ofNat, BitVec.getLsbD_zero]
    by_cases hin : n ≤ i ∧ i < m
    · have h1 : (v.toNat % 2 ^ m).testBit i = false :=
        Nat.testBit_lt_two_pow (lt_of_lt_of_le h (Nat.pow_le_pow_right (by omega) hin.1))
      rw [Nat.testBit_mod_two_pow] at h1
      simpa [hin.1, hin.2, BitVec.getLsbD] using h1
    · rcases not_and_or.mp hin with h1 | h1 <;> simp [h1]

end RedisCluster.Lib
