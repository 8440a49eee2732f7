import RedisCluster.Util.Strings

/-!
# `sds.c`: strings with a 32-bit length

The length of an sds string is an `unsigned int`, and the places in it that `sdsrange` computes with are
of type `int`.
-/

namespace RedisCluster.Util

def narrowInt (n : Int) : Int := n.bmod (2 ^ 32)

def sdscatlen (s t : Bytes) : Bytes := (s ++ t).take ((s.length + t.length) % 2 ^ 32)

/-- An index of `sdsrange` that may be counted from the end. -/
def fromEnd (s : Bytes) (i : Int) : Int := if i < 0 then max 0 (narrowInt (s.length + i)) else i

/-- `sdsrange`, from `start` to `stop` inclusive. -/
def sdsrange (s : Bytes) (start stop : Int) : Bytes :=
  if s.length = 0 then s
  else
    let start := fromEnd s start
    let stop := fromEnd s stop
    if start > stop then []
    else if start ≥ narrowInt s.length then []
    else
      let stop := if stop ≥ narrowInt s.length then narrowInt (s.length - 1) else stop
      if start > stop then [] else (s.drop start.toNat).take (stop - start + 1).toNat

theorem narrowInt_of_lt {n : Nat} (h : n < 2 ^ 31) : narrowInt n = n := by
  rw [narrowInt, Int.bmod_eq_of_le] <;> omega

theorem narrowInt_of_ge {n : Nat} (h : 2 ^ 31 ≤ n) (hlt : n < 2 ^ 32) : narrowInt n = n - 2 ^ 32 := by
  rw [narrowInt, Int.bmod_def]
  omega

theorem length_sdscatlen (s t : Bytes) : (sdscatlen s t).length < 2 ^ 32 := by
  have hmod : (s.length + t.length) % 2 ^ 32 < 2 ^ 32 := Nat.mod_lt _ (by decide)
  rw [sdscatlen, List.length_take]
  omega

theorem sdsrange_tail {s : Bytes} {n : Nat} (hs : s.length < 2 ^ 31) : sdsrange s n (-1) = s.drop n := by
  rw [sdsrange]
  by_cases hempty : s.length = 0
  · rw [if_pos hempty, List.length_eq_zero_iff.mp hempty, List.drop_nil]
  · have hlast : narrowInt ((s.length : Int) + -1) = s.length - 1 := by
      rw [narrowInt, Int.bmod_eq_of_le] <;> omega
    have hlen : narrowInt (s.length : Int) = s.length := narrowInt_of_lt hs
    have hstart : fromEnd s n = n := if_neg (by omega)
    have hstop : fromEnd s (-1) = s.length - 1 := by
      rw [fromEnd, if_pos (by omega), hlast]
      omega
    simp only [if_neg hempty, hstart, hstop, hlen]
    by_cases hout : (n : Int) > s.length - 1
    · rw [if_pos hout, List.drop_eq_nil_of_le (by omega)]
    · have hinside : ¬ ((n : Int) ≥ s.length) := by omega
      have hstays : ¬ ((s.length : Int) - 1 ≥ s.length) := by omega
      rw [if_neg hout, if_neg hinside, if_neg hstays, if_neg hout]
      refine List.take_of_length_le ?_
      rw [List.length_drop]
      omega

theorem sdsrange_tail_long {s : Bytes} {n : Int} (hs : 2 ^ 31 ≤ s.length) (hlt : s.length < 2 ^ 32) :
    sdsrange s n (-1) = [] := by
  have hnonneg : ∀ i, 0 ≤ fromEnd s i := by
    intro i
    rw [fromEnd]
    split <;> omega
  have hlen : narrowInt (s.length : Int) = s.length - 2 ^ 32 := narrowInt_of_ge hs hlt
  have hstart := hnonneg n
  have hpast : fromEnd s n ≥ narrowInt s.length := by omega
  rw [sdsrange, if_neg (by omega)]
  simp only [if_pos hpast, ite_self]

theorem length_sdsrange_le (s : Bytes) (start stop : Int) : (sdsrange s start stop).length ≤ s.length := by
  unfold sdsrange
  split
  · exact Nat.le_refl _
  · dsimp only
    repeat' split
    all_goals
      simp only [List.length_nil, List.length_take, List.length_drop]
      omega

/-! ## Quoted representations -/

/-- An sds string in memory: the bytes before the NUL that was written last, and `len`. -/
structure SdsBuffer where
  buf : Bytes
  len : Nat

def sdsempty : SdsBuffer := { buf := [], len := 0 }

/-- `sdscatlen` writes behind the first `len` bytes; the new length wraps around. -/
def SdsBuffer.catlen (s : SdsBuffer) (t : Bytes) : SdsBuffer :=
  { buf := s.buf.take s.len ++ t, len := (s.len + t.length) % 2 ^ 32 }

def isprint (c : UInt8) : Bool := 32 ≤ c ∧ c ≤ 126

def hexDigit (d : Nat) : UInt8 := if d < 10 then UInt8.ofNat (48 + d) else UInt8.ofNat (87 + d)

/-- What `sdscatrepr` appends for one byte. -/
def reprByte (c : UInt8) : Bytes :=
  if c = 92 ∨ c = 34 then [92, c]
  else if c = 10 then [92, 110]
  else if c = 13 then [92, 114]
  else if c = 9 then [92, 116]
  else if c = 7 then [92, 97]
  else if c = 8 then [92, 98]
  else if isprint c then [c]
  else [92, 120, hexDigit (c.toNat / 16), hexDigit (c.toNat % 16)]

def sdscatrepr (s : SdsBuffer) (p : Bytes) : SdsBuffer :=
  (p.foldl (fun s c => s.catlen (reprByte c)) (s.catlen [34])).catlen [34]

/-- The representations of the strings, with a space between two of them. -/
def joinReprs (s : SdsBuffer) : List Bytes → SdsBuffer
  | [] => s
  | [p] => sdscatrepr s p
  | p :: ps => joinReprs ((sdscatrepr s p).catlen [32]) ps

end RedisCluster.Util
