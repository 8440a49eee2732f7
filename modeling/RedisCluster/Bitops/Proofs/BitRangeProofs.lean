import RedisCluster.Bitops.Proofs.BitopProofs

/-!
# Proofs: the ranges of BITCOUNT and BITPOS

Where the ends are not both moved to the first byte, the bytes between the converted ends are those of the range
(`inRange_iff`), and count and search on that part of the string are those in the range.
-/

namespace RedisCluster.Bitops

open RedisCluster.Util RedisCluster.Lib RedisCluster.Sets

/-- The ends as `bitRange` leaves them. -/
structure Converted (strlen start stop s e : Int) : Prop where
  start : s = max (fromStart strlen start) 0
  stop : e = min (max (fromStart strlen stop) 0) (strlen - 1)

theorem bitRange_converted (strlen start stop : Int) :
    Converted strlen start stop (bitRange strlen start stop).1 (bitRange strlen start stop).2 := by
  constructor
  · simp only [bitRange, fromStart]
    split_ifs <;> omega
  · simp only [bitRange, fromStart]
    split_ifs <;> omega

theorem Converted.start_nonneg {strlen start stop s e : Int} (h : Converted strlen start stop s e) : 0 ≤ s := by
  rw [h.start]
  exact le_max_right _ _

theorem Converted.stop_lt {strlen start stop s e : Int} (h : Converted strlen start stop s e) : e < strlen := by
  have := h.stop
  omega

theorem inRange_iff {p : Bytes} {start stop s e : Int} (h : Converted p.length start stop s e)
    (hmoved : ¬ MovedToFirst p start stop) {i : Nat} :
    InRange p.length start stop i ↔ s ≤ i ∧ (i : Int) ≤ e := by
  have hs := h.start
  have he := h.stop
  have hne : p ≠ [] ↔ 0 < p.length := List.length_pos_iff.symm
  unfold MovedToFirst at hmoved
  unfold InRange
  rw [hne] at hmoved
  omega

theorem not_inRange_of_moved {p : Bytes} {start stop : Int} (h : MovedToFirst p start stop) (i : Nat) :
    ¬ InRange p.length start stop i := by
  have := h.2.2
  unfold InRange
  omega

theorem filter_range_bytes {a n len : Nat} (h : a + n ≤ len) {q : Nat → Bool}
    (hq : ∀ i < 8 * len, q i = true ↔ a ≤ i / 8 ∧ i / 8 < a + n) :
    (List.range (8 * len)).filter q = (List.range (8 * n)).map (8 * a + ·) := by
  have hsplit : List.range (8 * len) = List.range (8 * a) ++ ((List.range (8 * n)).map (8 * a + ·) ++
      (List.range (8 * (len - a - n))).map (8 * (a + n) + ·)) := by
    have h₁ : 8 * len = 8 * a + (8 * n + 8 * (len - a - n)) := by omega
    rw [h₁, List.range_add, List.range_add, List.map_append, List.map_map]
    congr 2
    refine List.map_congr_left fun i _ => ?_
    rw [Function.comp_apply]
    omega
  have hlow : (List.range (8 * a)).filter q = [] := List.filter_eq_nil_iff.mpr fun i hi => by
    have := List.mem_range.mp hi
    rw [hq i (by omega)]
    omega
  have hmid : ((List.range (8 * n)).map (8 * a + ·)).filter q = (List.range (8 * n)).map (8 * a + ·) :=
    List.filter_eq_self.mpr fun i hi => by
      obtain ⟨k, hk, rfl⟩ := List.mem_map.mp hi
      have := List.mem_range.mp hk
      rw [hq _ (by omega)]
      omega
  have hhigh : ((List.range (8 * (len - a - n))).map (8 * (a + n) + ·)).filter q = [] :=
    List.filter_eq_nil_iff.mpr fun i hi => by
      obtain ⟨k, hk, rfl⟩ := List.mem_map.mp hi
      have := List.mem_range.mp hk
      rw [hq _ (by omega)]
      omega
  rw [hsplit, List.filter_append, List.filter_append, hlow, hmid, hhigh, List.nil_append, List.append_nil]

theorem rangeBits_eq {p : Bytes} {start stop : Int} {a n : Nat} (h : a + n ≤ p.length)
    (hin : ∀ i < p.length, InRange p.length start stop i ↔ a ≤ i ∧ i < a + n) :
    rangeBits p start stop = (List.range (8 * n)).map (8 * a + ·) :=
  filter_range_bytes h fun i hi => by rw [decide_eq_true_iff, hin _ (by omega)]

theorem rangeBits_empty {p : Bytes} {start stop : Int} (h : ∀ i < p.length, ¬ InRange p.length start stop i) :
    rangeBits p start stop = [] :=
  rangeBits_eq (a := 0) (n := 0) (Nat.zero_le _) fun i hi => iff_of_false (h i hi) (by omega)

theorem rangeBits_of_le {p : Bytes} {start stop s e : Int} (h : Converted p.length start stop s e)
    (hmoved : ¬ MovedToFirst p start stop) (hle : s ≤ e) :
    s.toNat + (e - s + 1).toNat ≤ p.length ∧
      rangeBits p start stop = (List.range (8 * (e - s + 1).toNat)).map (8 * s.toNat + ·) := by
  have hnonneg := h.start_nonneg
  have hlt := h.stop_lt
  have hlen : s.toNat + (e - s + 1).toNat ≤ p.length := by omega
  refine ⟨hlen, rangeBits_eq hlen fun i _ => ?_⟩
  rw [inRange_iff h hmoved]
  omega

theorem rangeBits_of_gt {p : Bytes} {start stop s e : Int} (h : Converted p.length start stop s e)
    (hgt : e < s) : rangeBits p start stop = [] := by
  refine rangeBits_empty fun i _ hin => ?_
  have hmoved : ¬ MovedToFirst p start stop := fun hmoved => not_inRange_of_moved hmoved i hin
  have := (inRange_iff h hmoved).mp hin
  omega

theorem length_bytesFrom {p : Bytes} {s e : Int} (h : s.toNat + (e - s + 1).toNat ≤ p.length) :
    (bytesFrom p s e).length = (e - s + 1).toNat := by
  unfold bytesFrom
  rw [List.length_take, List.length_drop]
  omega

theorem bitAt_bytesFrom {p : Bytes} {s e : Int} {i : Nat} (hi : i < 8 * (e - s + 1).toNat) :
    bitAt (bytesFrom p s e) i = bitAt p (8 * s.toNat + i) := by
  unfold bytesFrom
  rw [bitAt_take hi, bitAt_drop]

theorem countOnes_bytesFrom {p : Bytes} {s e : Int} (h : s.toNat + (e - s + 1).toNat ≤ p.length) :
    countOnes (bytesFrom p s e) =
      ((List.range (8 * (e - s + 1).toNat)).map (8 * s.toNat + ·)).countP (bitAt p) := by
  unfold countOnes
  rw [length_bytesFrom h, List.countP_map]
  exact List.countP_congr fun i hi => by
    rw [bitAt_bytesFrom (List.mem_range.mp hi), Function.comp_apply]

theorem find_congr {q r : Nat → Bool} {l : List Nat} (h : ∀ i ∈ l, q i = r i) : l.find? q = l.find? r := by
  induction l with
  | nil => rfl
  | cons i l ih =>
    rw [List.find?_cons, List.find?_cons, h i List.mem_cons_self,
      ih fun k hk => h k (List.mem_cons_of_mem i hk)]

theorem find_bytesFrom {p : Bytes} {s e : Int} (bit : Bool) :
    ((List.range (8 * (e - s + 1).toNat)).map (8 * s.toNat + ·)).find? (fun i => bitAt p i = bit) =
      ((List.range (8 * (e - s + 1).toNat)).find? fun i => bitAt (bytesFrom p s e) i = bit).map
        (8 * s.toNat + ·) := by
  rw [List.find?_map]
  congr 1
  exact find_congr fun i hi => by
    rw [Function.comp_apply, bitAt_bytesFrom (List.mem_range.mp hi)]

theorem converted_of_moved {p : Bytes} {start stop s e : Int} (h : Converted p.length start stop s e)
    (hmoved : MovedToFirst p start stop) : s = 0 ∧ e = 0 := by
  obtain ⟨hne, hs, he⟩ := hmoved
  have hlen := List.length_pos_iff.mpr hne
  have h₁ := h.start
  have h₂ := h.stop
  omega

theorem rangeBits_of_moved {p : Bytes} {start stop : Int} (h : MovedToFirst p start stop) :
    rangeBits p start stop = [] :=
  rangeBits_empty fun i _ => not_inRange_of_moved h i

theorem bitcount_some (addr : Nat) (o : StringObject) (start stop : Int) :
    bitcount addr o (some (start, stop)) =
      let r := bitRange (getDecodedObject o).length start stop
      if r.1 > r.2 then 0 else countOnes (bytesFrom (getDecodedObject o) r.1 r.2) := by
  unfold bitcount
  simp only [redisPopcount_eq]

theorem countOnes_eq_zero_iff (s : Bytes) : countOnes s = 0 ↔ ∀ i < 8 * s.length, bitAt s i = false := by
  unfold countOnes
  rw [List.countP_eq_zero]
  simp

theorem bitcount_exact_iff (addr : Nat) (o : StringObject) (start stop : Int) :
    bitcount addr o (some (start, stop)) = countInRange (getDecodedObject o) start stop ↔
      ¬ (MovedToFirst (getDecodedObject o) start stop ∧ ∃ i < 8, bitAt (getDecodedObject o) i = true) := by
  set p := getDecodedObject o
  have hconv := bitRange_converted p.length start stop
  rw [bitcount_some]
  simp only
  set s := (bitRange p.length start stop).1
  set e := (bitRange p.length start stop).2
  by_cases hmoved : MovedToFirst p start stop
  · obtain ⟨hs, he⟩ := converted_of_moved hconv hmoved
    have hlen := List.length_pos_iff.mpr hmoved.1
    have hlength := length_bytesFrom (p := p) (s := s) (e := e) (by omega)
    unfold countInRange
    rw [rangeBits_of_moved hmoved, List.countP_nil, if_neg (by omega), countOnes_eq_zero_iff, hlength]
    constructor
    · rintro hzero ⟨-, i, hi, hone⟩
      have := hzero i (by omega)
      rw [bitAt_bytesFrom (by omega), hs] at this
      simp only [Int.toNat_zero, Nat.mul_zero, Nat.zero_add] at this
      rw [this] at hone
      cases hone
    · intro hnone i hi
      rw [bitAt_bytesFrom hi, hs]
      simp only [Int.toNat_zero, Nat.mul_zero, Nat.zero_add]
      refine Bool.eq_false_iff.mpr fun hone => hnone ⟨hmoved, i, ?_, hone⟩
      omega
  · refine iff_of_true ?_ fun h => hmoved h.1
    unfold countInRange
    split
    · rename_i hgt
      rw [rangeBits_of_gt hconv hgt]
      rfl
    · rename_i hle
      obtain ⟨hlen, hbits⟩ := rangeBits_of_le hconv hmoved (not_lt.mp hle)
      rw [hbits, countOnes_bytesFrom hlen]

theorem bitcount_whole (addr : Nat) (o : StringObject) :
    bitcount addr o none = countOnes (getDecodedObject o) := by
  unfold bitcount
  simp only [redisPopcount_eq]
  split
  · rename_i hempty
    have : getDecodedObject o = [] := List.length_eq_zero_iff.mp (by omega)
    rw [this]
    rfl
  · congr 1
    unfold bytesFrom
    rw [Int.toNat_zero, List.drop_zero]
    exact List.take_of_length_le (by omega)

theorem bitpos_eq (addr : Nat) (o : StringObject) (bit : Bool) (range : PosRange) :
    bitpos addr o bit range =
      let p := getDecodedObject o
      let ends := range.ends p.length
      let r := bitRange p.length ends.1 ends.2
      if r.1 > r.2 then some (-1)
      else
        some (let pos := firstBit (bytesFrom p r.1 r.2) bit
          if !range.padded && !bit && pos = (r.2 - r.1 + 1) * 8 then -1
          else if pos ≠ -1 then pos + r.1 * 8
          else pos) := by
  unfold bitpos
  cases range with
  | whole =>
    have hwhole : bitRange ((getDecodedObject o).length : Int) 0 ((getDecodedObject o).length - 1) =
        (0, ((getDecodedObject o).length : Int) - 1) := by
      unfold bitRange
      simp only [lt_irrefl, if_false]
      split_ifs <;> simp <;> omega
    simp only [redisBitpos_eq, PosRange.ends, PosRange.padded, hwhole]
    rfl
  | start i => simp only [redisBitpos_eq, PosRange.ends, PosRange.padded]; rfl
  | both i j => simp only [redisBitpos_eq, PosRange.ends, PosRange.padded]; rfl

theorem not_moved_of_padded {p : Bytes} {range : PosRange} (h : range.padded = true) :
    ¬ MovedToFirst p (range.ends p.length).1 (range.ends p.length).2 := by
  rintro ⟨hne, -, hstop⟩
  have hlen := List.length_pos_iff.mpr hne
  cases range with
  | both i j => cases h
  | whole => unfold fromStart at hstop; simp only [PosRange.ends] at hstop; split_ifs at hstop <;> omega
  | start i => unfold fromStart at hstop; simp only [PosRange.ends] at hstop; split_ifs at hstop <;> omega

theorem ends_padded {p : Bytes} {range : PosRange} (h : range.padded = true)
    (hle : ¬ (bitRange p.length (range.ends p.length).1 (range.ends p.length).2).1 >
      (bitRange p.length (range.ends p.length).1 (range.ends p.length).2).2) :
    (bitRange p.length (range.ends p.length).1 (range.ends p.length).2).2 = p.length - 1 := by
  have hconv := bitRange_converted p.length (range.ends p.length).1 (range.ends p.length).2
  have hstop := hconv.stop
  have hnonneg := hconv.start_nonneg
  have hend : (range.ends p.length).2 = (p.length : Int) - 1 := by
    cases range with
    | both i j => cases h
    | whole => rfl
    | start i => rfl
  have hfrom : fromStart p.length (range.ends p.length).2 =
      if (p.length : Int) - 1 < 0 then (p.length : Int) + (p.length - 1) else p.length - 1 := by
    rw [hend]
    rfl
  rw [hfrom] at hstop
  by_cases hempty : (p.length : Int) - 1 < 0
  · rw [if_pos hempty] at hstop
    omega
  · rw [if_neg hempty] at hstop
    omega

def InFirstByte (s : Bytes) (bit : Bool) : Prop := ∃ i < 8, bitAt s i = bit

theorem pos_reply {t : Bytes} {bit padded : Bool} {n : Nat} {start : Int} (hlen : t.length = n)
    (hstart : 0 ≤ start) :
    (let pos := firstBit t bit
      if !padded && !bit && pos = (n : Int) * 8 then -1
      else if pos ≠ -1 then pos + start * 8
      else pos) =
      match (List.range (8 * n)).find? fun i => bitAt t i = bit with
      | some i => ((8 * start.toNat + i : Nat) : Int)
      | none => if padded && !bit then (start + n) * 8 else -1 := by
  unfold firstBit
  rw [hlen]
  cases hfind : (List.range (8 * n)).find? fun i => bitAt t i = bit with
  | some i =>
    have hi : i < 8 * n := List.mem_range.mp (List.mem_of_find?_eq_some hfind)
    have hne : (i : Int) ≠ n * 8 := by omega
    simp only [hne, decide_false, Bool.and_false, Bool.false_eq_true, if_false]
    rw [if_pos (by omega)]
    omega
  | none =>
    cases bit with
    | true => simp
    | false =>
      cases padded with
      | true =>
        have : (n : Int) * 8 ≠ -1 := by omega
        simp [this]
        omega
      | false => simp

theorem bitpos_exact_iff (addr : Nat) (o : StringObject) (bit : Bool) (range : PosRange) :
    let p := getDecodedObject o
    let ends := range.ends p.length
    bitpos addr o bit range = some (firstInRange p bit ends.1 ends.2 range.padded) ↔
      ¬ (MovedToFirst p ends.1 ends.2 ∧ InFirstByte p bit) := by
  intro p ends
  have hconv := bitRange_converted p.length ends.1 ends.2
  have hpadded := @ends_padded p range
  rw [bitpos_eq]
  simp only
  set s := (bitRange p.length ends.1 ends.2).1 with hs
  set e := (bitRange p.length ends.1 ends.2).2 with he
  change (range.padded = true → ¬ s > e → e = p.length - 1) at hpadded
  change (if s > e then some (-1) else some (let pos := firstBit (bytesFrom p s e) bit
    if !range.padded && !bit && pos = (e - s + 1) * 8 then -1
    else if pos ≠ -1 then pos + s * 8 else pos)) = _ ↔ _
  have hnonneg := hconv.start_nonneg
  unfold firstInRange
  by_cases hgt : s > e
  · have hmoved : ¬ MovedToFirst p ends.1 ends.2 := fun hmoved => by
      obtain ⟨h₁, h₂⟩ := converted_of_moved hconv hmoved
      omega
    refine iff_of_true ?_ fun h => hmoved h.1
    rw [if_pos hgt, rangeBits_of_gt hconv hgt]
    simp
  · have hn : e - s + 1 = ((e - s + 1).toNat : Int) := by omega
    rw [if_neg hgt, Option.some_inj]
    by_cases hmoved : MovedToFirst p ends.1 ends.2
    · obtain ⟨hs0, he0⟩ := converted_of_moved hconv hmoved
      have hlen := List.length_pos_iff.mpr hmoved.1
      have hunpadded : range.padded = false :=
        Bool.eq_false_iff.mpr fun h => not_moved_of_padded h hmoved
      have hlength := length_bytesFrom (p := p) (s := s) (e := e) (by omega)
      have hreply := @pos_reply _ bit range.padded _ s hlength hnonneg
      rw [← hn] at hreply
      rw [hreply, rangeBits_of_moved hmoved, hunpadded]
      simp only [List.find?_nil, Bool.false_and, Bool.false_eq_true, if_false]
      have height : 8 * (e - s + 1).toNat = 8 := by omega
      rw [height]
      have hbits : ∀ i < 8, bitAt (bytesFrom p s e) i = bitAt p i := fun i hi => by
        rw [bitAt_bytesFrom (by omega), hs0, Int.toNat_zero, Nat.mul_zero, Nat.zero_add]
      cases hfind : (List.range 8).find? fun i => bitAt (bytesFrom p s e) i = bit with
      | some i =>
        have hi : i < 8 := List.mem_range.mp (List.mem_of_find?_eq_some hfind)
        have hbit : bitAt (bytesFrom p s e) i = bit := by simpa using List.find?_some hfind
        refine iff_of_false (by simp only; omega) fun h => h ⟨hmoved, i, hi, ?_⟩
        rw [← hbits i hi, hbit]
      | none =>
        refine iff_of_true rfl ?_
        rintro ⟨-, i, hi, hbit⟩
        have := List.find?_eq_none.mp hfind i (List.mem_range.mpr hi)
        rw [hbits i hi, hbit] at this
        simp at this
    · refine iff_of_true ?_ fun h => hmoved h.1
      obtain ⟨hlen, hbits⟩ := rangeBits_of_le hconv hmoved (not_lt.mp hgt)
      have hreply := @pos_reply _ bit range.padded _ s (length_bytesFrom hlen) hnonneg
      rw [← hn] at hreply
      rw [hreply, hbits, find_bytesFrom]
      cases hfind : (List.range (8 * (e - s + 1).toNat)).find? fun i => bitAt (bytesFrom p s e) i = bit with
      | some i => rfl
      | none =>
        have hnonempty : ((List.range (8 * (e - s + 1).toNat)).map (8 * s.toNat + ·)).isEmpty = false := by
          rw [List.isEmpty_eq_false_iff]
          intro h
          have := congrArg List.length h
          rw [List.length_map, List.length_range, List.length_nil] at this
          omega
        rw [Option.map_none, hnonempty]
        simp only [Bool.not_false, Bool.and_true]
        by_cases hpad : range.padded = true
        · have := hpadded hpad hgt
          rw [show s + (e - s + 1) = p.length by omega]
        · rw [Bool.eq_false_iff.mpr hpad]
          rfl

/-- The two commands, for a range that is given. -/
theorem bit_ranges_iff (addr : Nat) (o : StringObject) :
    bitcount addr o none = countOnes (getDecodedObject o) ∧
    (∀ start stop, bitcount addr o (some (start, stop)) = countInRange (getDecodedObject o) start stop ↔
      ¬ (MovedToFirst (getDecodedObject o) start stop ∧ InFirstByte (getDecodedObject o) true)) ∧
    ∀ bit range,
      bitpos addr o bit range = some (firstInRange (getDecodedObject o) bit
          (range.ends (getDecodedObject o).length).1 (range.ends (getDecodedObject o).length).2 range.padded) ↔
        ¬ (MovedToFirst (getDecodedObject o) (range.ends (getDecodedObject o).length).1
            (range.ends (getDecodedObject o).length).2 ∧ InFirstByte (getDecodedObject o) bit) :=
  ⟨bitcount_whole addr o, bitcount_exact_iff addr o, bitpos_exact_iff addr o⟩

/-- The bits of the first byte are counted for a range before the string. -/
theorem bit_ranges_before :
    ¬ ∀ start stop : Int, bitcount 0 (.sds [255]) (some (start, stop)) = countInRange [255] start stop := by
  intro h
  exact absurd (h (-5) (-4)) (by decide)

end RedisCluster.Bitops
