import Mathlib.Data.Nat.Bitwise
import RedisCluster.Bitops.Bitops
import RedisCluster.Lib.Lanes

/-!
# Proofs: `redisPopcount`

The sum in parallel works on the four bytes of a word by themselves (`aux32_toNat`): after the second step each
byte holds the counts of its two halves, after the third their sum, and the product adds the four into the
highest byte.
-/

namespace RedisCluster.Bitops

open RedisCluster.Util RedisCluster.Lib

def lane1 (x : Nat) : Nat := x - ((x >>> 1) &&& 0x55)

def lane2 (x : Nat) : Nat := (lane1 x &&& 0x33) + ((lane1 x >>> 2) &&& 0x33)

theorem lane_table : ∀ x < 256, (x >>> 1) &&& 0x55 ≤ x ∧ lane2 x % 16 ≤ 4 ∧ lane2 x / 16 ≤ 4 ∧
    lane2 x % 16 + lane2 x / 16 = bitsinbyteTable.getD x 0 := by
  decide +kernel

theorem lane1_lt {x : Nat} (hx : x < 256) : lane1 x < 256 := lt_of_le_of_lt (Nat.sub_le _ _) hx

def pack (a b c d : Nat) : Nat := a + 256 * (b + 256 * (c + 256 * d))

theorem pack_sub {a b c d a' b' c' d' : Nat} (ha : a' ≤ a) (hb : b' ≤ b) (hc : c' ≤ c) (hd : d' ≤ d) :
    pack a b c d - pack a' b' c' d' = pack (a - a') (b - b') (c - c') (d - d') := by
  unfold pack
  omega

theorem pack_add (a b c d a' b' c' d' : Nat) :
    pack a b c d + pack a' b' c' d' = pack (a + a') (b + b') (c + c') (d + d') := by
  unfold pack
  omega

theorem pack_shift_land {a b c d m s : Nat} (ha : a < 256) (hb : b < 256) (hc : c < 256) (hs : s ≤ 8)
    (hm : m < 2 ^ (8 - s)) :
    (pack a b c d >>> s) &&& pack m m m m =
      pack ((a >>> s) &&& m) ((b >>> s) &&& m) ((c >>> s) &&& m) ((d >>> s) &&& m) := by
  unfold pack
  rw [shift_land_lane ha hs hm, shift_land_lane hb hs hm, shift_land_lane hc hs hm]

theorem pack_land {a b c d m : Nat} (ha : a < 256) (hb : b < 256) (hc : c < 256) (hm : m < 256) :
    pack a b c d &&& pack m m m m = pack (a &&& m) (b &&& m) (c &&& m) (d &&& m) := by
  unfold pack
  rw [land_lane ha hm, land_lane hb hm, land_lane hc hm]

theorem pack_mul {a b c d : Nat} (ha : a ≤ 8) (hb : b ≤ 8) (hc : c ≤ 8) (hd : d ≤ 8) :
    pack a b c d * 0x01010101 % 2 ^ 32 / 2 ^ 24 = a + b + c + d := by
  have hproduct : pack a b c d * 0x01010101 =
      (a + 2 ^ 8 * (a + b) + 2 ^ 16 * (a + b + c) + 2 ^ 24 * (a + b + c + d)) +
        2 ^ 32 * (b + c + d + 2 ^ 8 * (c + d) + 2 ^ 16 * d) := by
    unfold pack
    ring
  rw [hproduct, Nat.add_mul_mod_self_left, Nat.mod_eq_of_lt (by omega)]
  omega

theorem aux32_toNat {w : UInt32} {a b c d : Nat} (ha : a < 256) (hb : b < 256) (hc : c < 256)
    (hd : d < 256) (hw : w.toNat = pack a b c d) :
    (aux32 w).toNat = bitsinbyteTable.getD a 0 + bitsinbyteTable.getD b 0 + bitsinbyteTable.getD c 0 +
      bitsinbyteTable.getD d 0 := by
  obtain ⟨ha1, halo, hahi, hasum⟩ := lane_table a ha
  obtain ⟨hb1, hblo, hbhi, hbsum⟩ := lane_table b hb
  obtain ⟨hc1, hclo, hchi, hcsum⟩ := lane_table c hc
  obtain ⟨hd1, hdlo, hdhi, hdsum⟩ := lane_table d hd
  have hstep1 : (w - ((w >>> 1) &&& (0x55555555 : UInt32))).toNat =
      pack (lane1 a) (lane1 b) (lane1 c) (lane1 d) := by
    have hmask : ((w >>> 1) &&& (0x55555555 : UInt32)).toNat =
        pack ((a >>> 1) &&& 0x55) ((b >>> 1) &&& 0x55) ((c >>> 1) &&& 0x55) ((d >>> 1) &&& 0x55) := by
      rw [UInt32.toNat_and, UInt32.toNat_shiftRight, hw]
      exact pack_shift_land (m := 0x55) (s := 1) ha hb hc (by decide) (by decide)
    have hle : ((w >>> 1) &&& (0x55555555 : UInt32)) ≤ w := by
      rw [UInt32.le_iff_toNat_le, hmask, hw]
      unfold pack
      omega
    rw [UInt32.toNat_sub_of_le _ _ hle, hmask, hw, pack_sub ha1 hb1 hc1 hd1]
    rfl
  have hstep2 : ∀ v : UInt32, v.toNat = pack (lane1 a) (lane1 b) (lane1 c) (lane1 d) →
      ((v &&& (0x33333333 : UInt32)) + ((v >>> 2) &&& (0x33333333 : UInt32))).toNat =
        pack (lane2 a) (lane2 b) (lane2 c) (lane2 d) := by
    intro v hv
    have hlow : (v &&& (0x33333333 : UInt32)).toNat =
        pack (lane1 a &&& 0x33) (lane1 b &&& 0x33) (lane1 c &&& 0x33) (lane1 d &&& 0x33) := by
      rw [UInt32.toNat_and, hv]
      exact pack_land (m := 0x33) (lane1_lt ha) (lane1_lt hb) (lane1_lt hc) (by decide)
    have hhigh : ((v >>> 2) &&& (0x33333333 : UInt32)).toNat =
        pack ((lane1 a >>> 2) &&& 0x33) ((lane1 b >>> 2) &&& 0x33) ((lane1 c >>> 2) &&& 0x33)
          ((lane1 d >>> 2) &&& 0x33) := by
      rw [UInt32.toNat_and, UInt32.toNat_shiftRight, hv]
      exact pack_shift_land (m := 0x33) (s := 2) (lane1_lt ha) (lane1_lt hb) (lane1_lt hc) (by decide)
        (by decide)
    rw [UInt32.toNat_add, hlow, hhigh, pack_add]
    show pack (lane2 a) (lane2 b) (lane2 c) (lane2 d) % 2 ^ 32 = _
    unfold pack
    omega
  have hstep3 : ∀ v : UInt32, v.toNat = pack (lane2 a) (lane2 b) (lane2 c) (lane2 d) →
      ((v + (v >>> 4)) &&& (0x0F0F0F0F : UInt32)).toNat =
        pack (bitsinbyteTable.getD a 0) (bitsinbyteTable.getD b 0) (bitsinbyteTable.getD c 0)
          (bitsinbyteTable.getD d 0) := by
    intro v hv
    have hsum : (v + (v >>> 4)).toNat =
        pack (lane2 a + lane2 a / 16 + 16 * (lane2 b % 16)) (lane2 b + lane2 b / 16 + 16 * (lane2 c % 16))
          (lane2 c + lane2 c / 16 + 16 * (lane2 d % 16)) (lane2 d + lane2 d / 16) := by
      rw [UInt32.toNat_add, UInt32.toNat_shiftRight, hv]
      show (_ + _ >>> 4) % 2 ^ 32 = _
      rw [Nat.shiftRight_eq_div_pow]
      unfold pack
      omega
    rw [UInt32.toNat_and, hsum]
    refine (pack_land (m := 0x0F) (by omega) (by omega) (by omega) (by decide)).trans ?_
    have hmod : ∀ x, x &&& 0x0F = x % 16 := fun x => Nat.and_two_pow_sub_one_eq_mod x 4
    simp only [hmod]
    congr 1 <;> omega
  unfold aux32
  simp only
  rw [UInt32.toNat_shiftRight, UInt32.toNat_mul, hstep3 _ (hstep2 _ hstep1)]
  show (pack _ _ _ _ * 0x01010101 % 2 ^ 32) >>> 24 = _
  rw [Nat.shiftRight_eq_div_pow]
  exact pack_mul (by omega) (by omega) (by omega) (by omega)

def bitsOf (p : Bytes) : Nat := (p.map bitsinbyte).sum

@[simp] theorem bitsOf_nil : bitsOf [] = 0 := rfl

@[simp] theorem bitsOf_cons (b : UInt8) (p : Bytes) : bitsOf (b :: p) = bitsinbyte b + bitsOf p := by
  simp [bitsOf]

theorem bitsOf_take_drop (n : Nat) (p : Bytes) : bitsOf (p.take n) + bitsOf (p.drop n) = bitsOf p := by
  unfold bitsOf
  rw [← List.sum_append, ← List.map_append, List.take_append_drop]

theorem bitsinbyte_le (b : UInt8) : bitsinbyte b ≤ 8 := by
  obtain ⟨-, hlo, hhi, hsum⟩ := lane_table b.toNat b.toNat_lt
  unfold bitsinbyte
  omega

theorem aux32_word32 {p : Bytes} (h : 4 ≤ p.length) : (aux32 (word32 p)).toNat = bitsOf (p.take 4) := by
  match p, h with
  | a :: b :: c :: d :: p, _ =>
    have hword : (word32 (a :: b :: c :: d :: p)).toNat = pack a.toNat b.toNat c.toNat d.toNat := by
      have := a.toNat_lt
      have := b.toNat_lt
      have := c.toNat_lt
      have := d.toNat_lt
      unfold word32
      rw [UInt32.toNat_ofNat']
      show leNat [a, b, c, d] % 2 ^ 32 = _
      simp only [leNat, pack]
      omega
    rw [aux32_toNat a.toNat_lt b.toNat_lt c.toNat_lt d.toNat_lt hword]
    show _ = bitsOf [a, b, c, d]
    simp only [bitsOf_cons, bitsOf_nil, bitsinbyte]
    omega

theorem bitsOf_take_four_le (p : Bytes) : bitsOf (p.take 4) ≤ 32 := by
  match p with
  | [] => simp
  | [a] => have := bitsinbyte_le a; simp; omega
  | [a, b] => have := bitsinbyte_le a; have := bitsinbyte_le b; simp; omega
  | [a, b, c] =>
    have := bitsinbyte_le a
    have := bitsinbyte_le b
    have := bitsinbyte_le c
    simp
    omega
  | a :: b :: c :: d :: p =>
    have := bitsinbyte_le a
    have := bitsinbyte_le b
    have := bitsinbyte_le c
    have := bitsinbyte_le d
    simp
    omega

theorem sixteen_bytes {p : Bytes} (h : 16 ≤ p.length) :
    (aux32 (word32 p) + aux32 (word32 (p.drop 4)) + aux32 (word32 (p.drop 8)) +
      aux32 (word32 (p.drop 12))).toNat = bitsOf (p.take 16) := by
  have h1 := aux32_word32 (p := p) (by omega)
  have h2 := aux32_word32 (p := p.drop 4) (by rw [List.length_drop]; omega)
  have h3 := aux32_word32 (p := p.drop 8) (by rw [List.length_drop]; omega)
  have h4 := aux32_word32 (p := p.drop 12) (by rw [List.length_drop]; omega)
  have b1 := bitsOf_take_four_le p
  have b2 := bitsOf_take_four_le (p.drop 4)
  have b3 := bitsOf_take_four_le (p.drop 8)
  have b4 := bitsOf_take_four_le (p.drop 12)
  have hsplit : bitsOf (p.take 16) = bitsOf (p.take 4) + bitsOf ((p.drop 4).take 4) +
      bitsOf ((p.drop 8).take 4) + bitsOf ((p.drop 12).take 4) := by
    have e1 := bitsOf_take_drop 4 (p.take 16)
    have e2 := bitsOf_take_drop 4 ((p.take 16).drop 4)
    have e3 := bitsOf_take_drop 4 (((p.take 16).drop 4).drop 4)
    have e4 := bitsOf_take_drop 4 ((((p.take 16).drop 4).drop 4).drop 4)
    simp only [List.take_take, List.drop_drop, List.drop_take] at e1 e2 e3 e4
    norm_num at e1 e2 e3 e4
    omega
  rw [UInt32.toNat_add, UInt32.toNat_add, UInt32.toNat_add, h1, h2, h3, h4]
  omega

theorem popcountHead_spec (addr bits : Nat) (p : Bytes) :
    (popcountHead addr bits p).1 + bitsOf (popcountHead addr bits p).2 = bits + bitsOf p := by
  induction p generalizing addr bits with
  | nil => rfl
  | cons b p ih =>
    unfold popcountHead
    split
    · rfl
    · rw [ih, bitsOf_cons]
      omega

theorem popcountWords_spec (n bits : Nat) (p : Bytes) (h : 16 * n ≤ p.length) :
    (popcountWords n bits p).1 + bitsOf (popcountWords n bits p).2 = bits + bitsOf p := by
  induction n generalizing bits p with
  | zero => rfl
  | succ n ih =>
    unfold popcountWords
    simp only
    rw [ih _ _ (by rw [List.length_drop]; omega), sixteen_bytes (by omega), Nat.add_assoc, bitsOf_take_drop]

theorem popcountTail_spec (bits : Nat) (p : Bytes) : popcountTail bits p = bits + bitsOf p := by
  induction p generalizing bits with
  | nil => rfl
  | cons b p ih =>
    rw [popcountTail, ih, bitsOf_cons]
    omega

theorem redisPopcount_eq_bitsOf (addr : Nat) (s : Bytes) : redisPopcount addr s = bitsOf s := by
  have h1 := popcountHead_spec addr 0 s
  have h2 := popcountWords_spec ((popcountHead addr 0 s).2.length / 16) (popcountHead addr 0 s).1
    (popcountHead addr 0 s).2 (Nat.mul_div_le _ _)
  unfold redisPopcount
  simp only
  rw [popcountTail_spec]
  omega

theorem bitsinbyte_eq_countP (b : UInt8) :
    (List.range 8).countP (fun i => b.toNat.testBit (7 - i % 8)) = bitsinbyte b := by
  have : ∀ x < 256, (List.range 8).countP (fun i => x.testBit (7 - i % 8)) = bitsinbyteTable.getD x 0 := by
    decide +kernel
  exact this b.toNat b.toNat_lt

theorem bitAt_cons_low (b : UInt8) (s : Bytes) {i : Nat} (h : i < 8) :
    bitAt (b :: s) i = b.toNat.testBit (7 - i % 8) := by
  unfold bitAt
  rw [Nat.div_eq_of_lt h]
  rfl

theorem bitAt_cons_high (b : UInt8) (s : Bytes) (i : Nat) : bitAt (b :: s) (8 + i) = bitAt s i := by
  unfold bitAt
  rw [show (8 + i) / 8 = i / 8 + 1 by omega, show (8 + i) % 8 = i % 8 by omega]
  rfl

theorem countOnes_eq_bitsOf (s : Bytes) : countOnes s = bitsOf s := by
  induction s with
  | nil => rfl
  | cons b s ih =>
    have hrange : List.range (8 * (b :: s).length) = List.range 8 ++ (List.range (8 * s.length)).map (8 + ·) := by
      rw [← List.range_add, List.length_cons]
      congr 1
      omega
    have hlow : (List.range 8).countP (bitAt (b :: s)) = bitsinbyte b := by
      rw [← bitsinbyte_eq_countP]
      exact List.countP_congr fun i hi => by rw [bitAt_cons_low b s (List.mem_range.mp hi)]
    have hhigh : ((List.range (8 * s.length)).map (8 + ·)).countP (bitAt (b :: s)) = countOnes s := by
      rw [List.countP_map]
      exact List.countP_congr fun i _ => by rw [Function.comp_apply, bitAt_cons_high]
    rw [countOnes, hrange, List.countP_append, hlow, hhigh, ih, bitsOf_cons]

theorem redisPopcount_eq (addr : Nat) (s : Bytes) : redisPopcount addr s = countOnes s := by
  rw [redisPopcount_eq_bitsOf, countOnes_eq_bitsOf]

end RedisCluster.Bitops

/-!
## Proofs: `redisBitpos`

The two loops that skip drop bytes without the bit that is sought (`skipped`). What is loaded then is the next
eight bytes, padded, with the first bit on top (`be_testBit`), and the scan finds the first such bit of them.
-/

namespace RedisCluster.Bitops

open RedisCluster.Util RedisCluster.Lib

theorem byteAt_of_length_le {s : Bytes} {j : Nat} (h : s.length ≤ j) : byteAt s j = 0 :=
  List.getD_eq_default s 0 h

theorem bitAt_of_le {s : Bytes} {i : Nat} (h : 8 * s.length ≤ i) : bitAt s i = false := by
  unfold bitAt
  rw [byteAt_of_length_le (by omega)]
  exact Nat.zero_testBit _

theorem bitAt_drop (s : Bytes) (n i : Nat) : bitAt (s.drop n) i = bitAt s (8 * n + i) := by
  unfold bitAt byteAt
  rw [show (8 * n + i) / 8 = n + i / 8 by omega, show (8 * n + i) % 8 = i % 8 by omega,
    List.getD_eq_getElem?_getD, List.getElem?_drop, List.getD_eq_getElem?_getD]

theorem bitAt_take {s : Bytes} {n i : Nat} (h : i < 8 * n) : bitAt (s.take n) i = bitAt s i := by
  unfold bitAt byteAt
  rw [List.getD_eq_getElem?_getD, List.getElem?_take_of_lt (by omega), List.getD_eq_getElem?_getD]

theorem bitAt_of_skip {s : Bytes} {bit : Bool} {i : Nat}
    (h : byteAt s (i / 8) = if bit then 0 else 255) : bitAt s i ≠ bit := by
  have hones : ∀ k < 8, (255 : Nat).testBit (7 - k) = true := by decide
  unfold bitAt
  rw [h]
  cases bit with
  | true =>
    rw [if_pos rfl]
    exact fun h => by simp at h
  | false =>
    rw [if_neg Bool.false_ne_true]
    exact fun h => Bool.true_eq_false_eq_False (((hones (i % 8) (by omega)).symm.trans h))

/-- The position `k` is the first with this bit, in the string with zeros behind it. -/
structure FirstAt (s : Bytes) (bit : Bool) (k : Nat) : Prop where
  here : bitAt s k = bit
  before : ∀ i < k, bitAt s i ≠ bit

theorem FirstAt.firstBit {s : Bytes} {bit : Bool} {k : Nat} (h : FirstAt s bit k) : firstBit s bit = k := by
  unfold Bitops.firstBit
  by_cases hk : k < 8 * s.length
  · have hfind : (List.range (8 * s.length)).find? (fun i => bitAt s i = bit) = some k := by
      refine List.find?_range_eq_some.mpr ⟨by simpa using h.here, List.mem_range.mpr hk, fun i hi => ?_⟩
      simpa using h.before i hi
    rw [hfind]
  · have hfind : (List.range (8 * s.length)).find? (fun i => bitAt s i = bit) = none := by
      refine List.find?_eq_none.mpr fun i hi => ?_
      simpa using h.before i (by have := List.mem_range.mp hi; omega)
    have hbit : bit = false := by rw [← h.here, bitAt_of_le (by omega)]
    have hend : k = 8 * s.length := by
      by_contra hne
      exact h.before (8 * s.length) (by omega) (by rw [bitAt_of_le (le_refl _), hbit])
    rw [hfind, hbit, hend]
    simp only [Bool.false_eq_true, if_false]
    omega

theorem firstBit_of_none {s : Bytes} (h : ∀ i, bitAt s i = false) : firstBit s true = -1 := by
  unfold firstBit
  rw [List.find?_eq_none.mpr fun i _ => by simp [h i]]
  rfl

/-- `c` is what is left of the string at the bit `pos`, and no bit before it is the one sought. -/
structure Skipped (s : Bytes) (bit : Bool) (pos : Nat) (c : Bytes) : Prop where
  rest : ∃ n, pos = 8 * n ∧ c = s.drop n
  before : ∀ i < pos, bitAt s i ≠ bit

theorem Skipped.bitAt {s c : Bytes} {bit : Bool} {pos : Nat} (h : Skipped s bit pos c) (i : Nat) :
    bitAt c i = bitAt s (pos + i) := by
  obtain ⟨n, rfl, rfl⟩ := h.rest
  exact bitAt_drop s n i

theorem Skipped.drop {s c : Bytes} {bit : Bool} {pos : Nat} (h : Skipped s bit pos c) (n : Nat)
    (hskip : ∀ j < n, byteAt c j = if bit then 0 else 255) : Skipped s bit (pos + 8 * n) (c.drop n) := by
  refine ⟨?_, fun i hi => ?_⟩
  · obtain ⟨m, rfl, rfl⟩ := h.rest
    exact ⟨m + n, by omega, by rw [List.drop_drop]⟩
  · by_cases hpos : i < pos
    · exact h.before i hpos
    · have := @bitAt_of_skip c bit (i - pos) (hskip _ (by omega))
      rwa [h.bitAt, show pos + (i - pos) = i by omega] at this

theorem bitposHead_spec {s c : Bytes} {bit : Bool} (addr pos : Nat) (h : Skipped s bit pos c) :
    Skipped s bit (bitposHead (if bit then 0 else 255) addr pos c).1
      (bitposHead (if bit then 0 else 255) addr pos c).2 := by
  induction c generalizing addr pos with
  | nil => exact h
  | cons b c ih =>
    unfold bitposHead
    by_cases haddr : addr % 8 = 0
    · rw [if_pos haddr]
      exact h
    · rw [if_neg haddr]
      by_cases hb : b = if bit then 0 else 255
      · rw [if_neg (not_not.mpr hb)]
        refine ih _ _ (h.drop 1 fun j hj => ?_)
        obtain rfl : j = 0 := by omega
        exact hb
      · rw [if_pos hb]
        exact h

theorem word64_skip {l : Bytes} {bit : Bool} (hlen : 8 ≤ l.length) :
    word64 l = (if bit then 0 else ULONG_MAX) ↔ ∀ j < 8, byteAt l j = if bit then 0 else 255 := by
  have hlt := leNat_lt (l.take 8)
  have hlength : (l.take 8).length = 8 := by rw [List.length_take]; omega
  have hword : (word64 l).toNat = leNat (l.take 8) := by
    unfold word64
    rw [hlength] at hlt
    rw [UInt64.toNat_ofNat', Nat.mod_eq_of_lt (lt_of_lt_of_le hlt (by decide))]
  have hbytes : (∀ b ∈ l.take 8, b = if bit then 0 else 255) ↔
      ∀ j < 8, byteAt l j = if bit then 0 else 255 := by
    constructor
    · intro h j hj
      refine h _ ?_
      unfold byteAt
      rw [List.getD_eq_getElem l 0 (by omega)]
      exact List.mem_take_iff_getElem.mpr ⟨j, by omega, rfl⟩
    · intro h b hb
      obtain ⟨j, hj, rfl⟩ := List.mem_take_iff_getElem.mp hb
      have := h j (by omega)
      unfold byteAt at this
      rwa [List.getD_eq_getElem l 0 (by omega)] at this
  rw [← hbytes, ← UInt64.toNat_inj, hword]
  cases bit with
  | true => exact leNat_eq_zero_iff _
  | false =>
    have := leNat_eq_max_iff (l.take 8)
    rw [hlength] at this
    exact this

def Stopped (bit : Bool) (l : Bytes) : Prop :=
  l.length < 8 ∨ ¬ ∀ j < 8, byteAt l j = if bit then 0 else 255

theorem bitposWords_spec {s l : Bytes} {bit : Bool} (n pos : Nat) (h : Skipped s bit pos l)
    (hn : n = l.length / 8) :
    Skipped s bit (bitposWords (if bit then 0 else ULONG_MAX) n pos l).1
        (bitposWords (if bit then 0 else ULONG_MAX) n pos l).2 ∧
      Stopped bit (bitposWords (if bit then 0 else ULONG_MAX) n pos l).2 := by
  induction n generalizing pos l with
  | zero => exact ⟨h, .inl (by show l.length < 8; omega)⟩
  | succ n ih =>
    have hskip := @word64_skip l bit (by omega)
    unfold bitposWords
    by_cases hgo : word64 l = if bit then 0 else ULONG_MAX
    · rw [if_neg (not_not.mpr hgo)]
      exact ih _ (h.drop 8 (hskip.mp hgo)) (by rw [List.length_drop]; omega)
    · rw [if_pos hgo]
      exact ⟨h, .inr fun hall => hgo (hskip.mpr hall)⟩

def be : Nat → Bytes → Nat
  | 0, _ => 0
  | n + 1, c => (byteAt c 0).toNat * 256 ^ n + be n c.tail

theorem be_lt (n : Nat) (c : Bytes) : be n c < 256 ^ n := by
  induction n generalizing c with
  | zero => exact Nat.one_pos
  | succ n ih =>
    have hb : (byteAt c 0).toNat < 256 := (byteAt c 0).toNat_lt
    have hrest := ih c.tail
    have : (byteAt c 0).toNat * 256 ^ n + 256 ^ n ≤ 256 * 256 ^ n := by
      rw [← Nat.succ_mul]
      exact Nat.mul_le_mul_right _ hb
    rw [be, Nat.pow_succ']
    omega

theorem byteAt_tail (c : Bytes) (j : Nat) : byteAt c.tail j = byteAt c (j + 1) := by
  unfold byteAt
  rw [List.getD_eq_getElem?_getD, List.getElem?_tail, List.getD_eq_getElem?_getD]

theorem be_testBit (n : Nat) (c : Bytes) {i : Nat} (hi : i < 8 * n) :
    (be n c).testBit (8 * n - 1 - i) = bitAt c i := by
  induction n generalizing c i with
  | zero => omega
  | succ n ih =>
    have hlt : be n c.tail < 2 ^ (8 * n) := by
      rw [Nat.pow_mul]
      exact be_lt n c.tail
    rw [be, show (256 : Nat) ^ n = 2 ^ (8 * n) from (Nat.pow_mul 2 8 n).symm, Nat.mul_comm,
      Nat.testBit_two_pow_mul_add _ hlt]
    by_cases hlow : i < 8
    · rw [if_neg (by omega)]
      unfold bitAt
      rw [Nat.div_eq_of_lt hlow]
      congr 1
      omega
    · rw [if_pos (by omega)]
      have := ih c.tail (i := i - 8) (by omega)
      rw [show 8 * n - 1 - (i - 8) = 8 * (n + 1) - 1 - i by omega] at this
      rw [this]
      unfold bitAt
      rw [byteAt_tail, show (i - 8) / 8 + 1 = i / 8 by omega, show (i - 8) % 8 = i % 8 by omega]

theorem shift_or (w : UInt64) (b : UInt8) :
    ((w <<< 8) ||| b.toUInt64).toNat = (w.toNat * 256 + b.toNat) % 2 ^ 64 := by
  have hb : b.toNat < 2 ^ 8 := b.toNat_lt
  have hshift : (w <<< 8).toNat = w.toNat % 2 ^ 56 * 2 ^ 8 := by
    rw [UInt64.toNat_shiftLeft]
    show w.toNat <<< 8 % 2 ^ 64 = _
    rw [Nat.shiftLeft_eq]
    omega
  rw [UInt64.toNat_or, hshift, UInt8.toNat_toUInt64, ← Nat.shiftLeft_eq, ← Nat.shiftLeft_add_eq_or_of_lt hb,
    Nat.shiftLeft_eq]
  omega

theorem bitposLoad_nil (n : Nat) (w : UInt64) : bitposLoad (n + 1) w [] = bitposLoad n ((w <<< 8) ||| (0 : UInt8).toUInt64) [] := by
  rw [bitposLoad]
  congr 1
  exact (UInt64.or_zero).symm

theorem bitposLoad_toNat (n : Nat) (w : UInt64) (c : Bytes) :
    (bitposLoad n w c).toNat = (w.toNat * 256 ^ n + be n c) % 2 ^ 64 := by
  induction n generalizing w c with
  | zero =>
    rw [bitposLoad, be, Nat.pow_zero, Nat.mul_one, Nat.add_zero, Nat.mod_eq_of_lt w.toNat_lt]
  | succ n ih =>
    have hstep : ∀ b : UInt8, (((w <<< 8) ||| b.toUInt64).toNat * 256 ^ n + be n c.tail) % 2 ^ 64 =
        (w.toNat * 256 ^ (n + 1) + (b.toNat * 256 ^ n + be n c.tail)) % 2 ^ 64 := by
      intro b
      rw [shift_or, Nat.add_mod, Nat.mod_mul_mod, ← Nat.add_mod]
      congr 1
      ring
    cases c with
    | nil =>
      rw [bitposLoad_nil, ih]
      exact hstep 0
    | cons b c =>
      rw [bitposLoad, ih]
      exact hstep b

theorem bitposLoad_testBit (c : Bytes) {i : Nat} (hi : i < 64) :
    (bitposLoad 8 0 c).toNat.testBit (63 - i) = bitAt c i := by
  have hlt : be 8 c < 2 ^ 64 := be_lt 8 c
  rw [bitposLoad_toNat]
  rw [UInt64.toNat_zero, Nat.zero_mul, Nat.zero_add, Nat.mod_eq_of_lt hlt]
  exact be_testBit 8 c (by omega)

theorem two_pow_land (w : UInt64) (one : UInt64) {k : Nat} (hone : one.toNat = 2 ^ k) :
    one &&& w ≠ 0 ↔ w.toNat.testBit k = true := by
  rw [Ne, ← UInt64.toNat_inj, UInt64.toNat_and, hone, UInt64.toNat_zero, Nat.and_comm, Nat.and_two_pow]
  cases w.toNat.testBit k <;> simp

theorem bitposScan_spec (bit : Bool) (word : UInt64) (n : Nat) (one : UInt64) (pos i : Nat) (hi : i ≤ 63)
    (hn : n = 65 - i) (hone : one.toNat = 2 ^ (63 - i))
    (hex : ∃ k, i ≤ k ∧ k ≤ 63 ∧ word.toNat.testBit (63 - k) = bit) :
    ∃ k, i ≤ k ∧ k ≤ 63 ∧ word.toNat.testBit (63 - k) = bit ∧
      (∀ j, i ≤ j → j < k → word.toNat.testBit (63 - j) ≠ bit) ∧
      bitposScan bit word n one pos = some (pos + (k - i)) := by
  induction n generalizing one pos i with
  | zero => omega
  | succ n ih =>
    have hne : one ≠ 0 := fun h => by
      rw [h] at hone
      exact absurd hone.symm (Nat.two_pow_pos _).ne'
    have hbit : decide (one &&& word ≠ 0) = word.toNat.testBit (63 - i) := by
      rw [Bool.eq_iff_iff, decide_eq_true_iff, two_pow_land word one hone]
    unfold bitposScan
    rw [if_neg hne, hbit]
    split
    · rename_i hhere
      exact ⟨i, le_refl i, hi, hhere, fun j h₁ h₂ => absurd h₁ (by omega), by rw [Nat.sub_self]; rfl⟩
    · rename_i hhere
      obtain ⟨k, hik, hk, hkbit⟩ := hex
      have hlt : i < k := lt_of_le_of_ne hik fun h => hhere (h ▸ hkbit)
      have hone' : (one >>> 1).toNat = 2 ^ (63 - (i + 1)) := by
        rw [UInt64.toNat_shiftRight, hone]
        show 2 ^ (63 - i) >>> 1 = _
        rw [Nat.shiftRight_eq_div_pow, show 63 - i = 63 - (i + 1) + 1 by omega, Nat.pow_succ]
        omega
      obtain ⟨k', h₁, h₂, h₃, h₄, h₅⟩ := ih (one >>> 1) (pos + 1) (i + 1) (by omega) (by omega) hone'
        ⟨k, hlt, hk, hkbit⟩
      refine ⟨k', by omega, h₂, h₃, fun j hj hjk => ?_, ?_⟩
      · rcases Nat.eq_or_lt_of_le hj with rfl | hj
        · exact hhere
        · exact h₄ j hj hjk
      · rw [h₅]
        congr 1
        omega

theorem exists_bit {bit : Bool} {l : Bytes} (hstop : Stopped bit l)
    (hword : ¬ (bit = true ∧ bitposLoad 8 0 l = 0)) : ∃ k ≤ 63, bitAt l k = bit := by
  by_contra hnone
  push Not at hnone
  cases bit with
  | true =>
    refine hword ⟨rfl, UInt64.toNat_inj.mp (Nat.eq_of_testBit_eq fun i => ?_)⟩
    rw [UInt64.toNat_zero, Nat.zero_testBit]
    by_cases hi : i < 64
    · have := bitposLoad_testBit l (i := 63 - i) (by omega)
      rw [show 63 - (63 - i) = i by omega] at this
      rw [this]
      exact Bool.eq_false_iff.mpr (hnone (63 - i) (by omega))
    · exact Nat.testBit_lt_two_pow (lt_of_lt_of_le (UInt64.toNat_lt _) (Nat.pow_le_pow_right (by decide) (by omega)))
  | false =>
    rcases hstop with hshort | hbyte
    · exact hnone (8 * l.length) (by omega) (bitAt_of_le (le_refl _))
    · refine hbyte fun j hj => ?_
      rw [if_neg Bool.false_ne_true]
      have hones : ∀ x < 256, (∀ k < 8, x.testBit (7 - k) ≠ false) → x = 255 := by decide +kernel
      refine UInt8.toNat_inj.mp (hones _ (byteAt l j).toNat_lt fun k hk => ?_)
      have := hnone (8 * j + k) (by omega)
      unfold bitAt at this
      rwa [show (8 * j + k) / 8 = j by omega, show (8 * j + k) % 8 = k by omega] at this

theorem no_ones {s l : Bytes} {pos : Nat} (h : Skipped s true pos l) (hstop : Stopped true l)
    (hword : bitposLoad 8 0 l = 0) (i : Nat) : bitAt s i = false := by
  have hrest : ∀ k < 64, bitAt l k = false := fun k hk => by
    rw [← bitposLoad_testBit l hk, hword]
    exact Nat.zero_testBit _
  have hshort : l.length < 8 := by
    rcases hstop with hshort | hbyte
    · exact hshort
    · refine absurd (fun j hj => ?_) hbyte
      rw [if_pos rfl]
      have hzero : ∀ x < 256, (∀ k < 8, x.testBit (7 - k) = false) → x = 0 := by decide +kernel
      refine UInt8.toNat_inj.mp (hzero _ (byteAt l j).toNat_lt fun k hk => ?_)
      have := hrest (8 * j + k) (by omega)
      unfold bitAt at this
      rwa [show (8 * j + k) / 8 = j by omega, show (8 * j + k) % 8 = k by omega] at this
  by_cases hi : i < pos
  · exact Bool.eq_false_iff.mpr (h.before i hi)
  · have := h.bitAt (i - pos)
    rw [show pos + (i - pos) = i by omega] at this
    rw [← this]
    by_cases hk : i - pos < 64
    · exact hrest _ hk
    · exact bitAt_of_le (by omega)

theorem redisBitpos_eq (addr : Nat) (s : Bytes) (bit : Bool) :
    redisBitpos addr s bit = some (firstBit s bit) := by
  have hstart : Skipped s bit 0 s := ⟨⟨0, rfl, rfl⟩, fun i hi => absurd hi (Nat.not_lt_zero i)⟩
  have hhead := bitposHead_spec addr 0 hstart
  obtain ⟨hskip, hstop⟩ := bitposWords_spec _ _ hhead rfl
  unfold redisBitpos
  simp only
  set pos := (bitposWords (if bit then 0 else ULONG_MAX)
    ((bitposHead (if bit then 0 else 255) addr 0 s).2.length / 8)
    (bitposHead (if bit then 0 else 255) addr 0 s).1 (bitposHead (if bit then 0 else 255) addr 0 s).2).1
  set l := (bitposWords (if bit then 0 else ULONG_MAX)
    ((bitposHead (if bit then 0 else 255) addr 0 s).2.length / 8)
    (bitposHead (if bit then 0 else 255) addr 0 s).1 (bitposHead (if bit then 0 else 255) addr 0 s).2).2
  by_cases hword : bit = true ∧ bitposLoad 8 0 l = 0
  · obtain ⟨rfl, hzero⟩ := hword
    rw [if_pos (by simp [hzero]), firstBit_of_none (no_ones hskip hstop hzero)]
  · rw [if_neg (by simpa using hword)]
    obtain ⟨k, hk, hkbit⟩ := exists_bit hstop hword
    obtain ⟨k, -, hk, hkbit, hbefore, hscan⟩ := bitposScan_spec bit (bitposLoad 8 0 l) 65
      (~~~(ULONG_MAX >>> 1)) pos 0 (by decide) rfl (by decide)
      ⟨k, Nat.zero_le k, hk, by rw [bitposLoad_testBit l (by omega), hkbit]⟩
    have hfirst : FirstAt s bit (pos + k) := by
      refine ⟨?_, fun i hi => ?_⟩
      · rw [← hskip.bitAt, ← bitposLoad_testBit l (by omega), hkbit]
      · by_cases hpos : i < pos
        · exact hskip.before i hpos
        · have := hbefore (i - pos) (Nat.zero_le _) (by omega)
          rwa [bitposLoad_testBit l (by omega), hskip.bitAt, show pos + (i - pos) = i by omega] at this
    rw [hscan, Option.map_some, hfirst.firstBit, Nat.sub_zero]

end RedisCluster.Bitops
