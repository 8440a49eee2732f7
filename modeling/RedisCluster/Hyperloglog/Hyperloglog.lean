import Mathlib.Data.Rat.Defs
import Mathlib.Logic.Function.Basic
import RedisCluster.Util.Strings

/-!
# `hyperloglog.c`

An HLL string is its header and the bytes after it: 6-bit registers side by side, or a sequence of
opcodes for runs of equal registers. What lies behind the bytes is the NUL terminator of the string;
`none` stands for a run that reads or writes anything else outside the string or the register array.
The sums of `2^-reg` are exact rationals, and `estimate` is the floating point part of `hllCount`.
-/

namespace RedisCluster.Hyperloglog

open RedisCluster.Util

def HLL_REGISTERS : Nat := 16384
def HLL_BITS : Nat := 6
def HLL_REGISTER_MAX : Nat := 63
def HLL_HDR_SIZE : Nat := 16
def HLL_DENSE_BYTES : Nat := 12288

def HLL_SPARSE_VAL_MAX_VALUE : Nat := 32
def HLL_SPARSE_VAL_MAX_LEN : Nat := 4
def HLL_SPARSE_ZERO_MAX_LEN : Nat := 64

inductive Encoding where
  | dense
  | sparse
  deriving DecidableEq, Repr

/-- `struct hllhdr` with the bytes that follow it; `card` is little endian. -/
structure Hll where
  encoding : Encoding
  card : UInt64
  registers : Bytes
  deriving DecidableEq, Repr

def HLL_INVALIDATE_CACHE (h : Hll) : Hll := { h with card := h.card ||| 128 }

def HLL_VALID_CACHE (h : Hll) : Bool := h.card &&& 128 == 0

/-! ## Dense registers -/

/-- `p[n]`, the NUL terminator at the end included. -/
def byteAt (p : Bytes) (n : Nat) : UInt8 := p.getD n 0

def HLL_DENSE_GET_REGISTER (p : Bytes) (regnum : Nat) : Nat :=
  let byte := regnum * HLL_BITS / 8
  let fb := regnum * HLL_BITS % 8
  let b0 := (byteAt p byte).toNat
  let b1 := (byteAt p (byte + 1)).toNat
  (b0 >>> fb ||| b1 <<< (8 - fb)) &&& HLL_REGISTER_MAX

def HLL_DENSE_SET_REGISTER (p : Bytes) (regnum val : Nat) : Bytes :=
  let byte := regnum * HLL_BITS / 8
  let fb := regnum * HLL_BITS % 8
  let p := p.set byte
    ((byteAt p byte &&& ~~~UInt8.ofNat (HLL_REGISTER_MAX <<< fb)) ||| UInt8.ofNat (val <<< fb))
  p.set (byte + 1)
    ((byteAt p (byte + 1) &&& ~~~UInt8.ofNat (HLL_REGISTER_MAX >>> (8 - fb))) |||
      UInt8.ofNat (val >>> (8 - fb)))

/-! ## Opcodes -/

def HLL_SPARSE_IS_ZERO (b : UInt8) : Bool := b &&& 0xc0 == 0
def HLL_SPARSE_IS_XZERO (b : UInt8) : Bool := b &&& 0xc0 == 0x40
def HLL_SPARSE_IS_VAL (b : UInt8) : Bool := b &&& 0x80 != 0
def HLL_SPARSE_ZERO_LEN (b : UInt8) : Nat := (b &&& 0x3f).toNat + 1
def HLL_SPARSE_XZERO_LEN (b c : UInt8) : Nat := ((b &&& 0x3f).toNat <<< 8 ||| c.toNat) + 1
def HLL_SPARSE_VAL_VALUE (b : UInt8) : Nat := ((b >>> 2) &&& 0x1f).toNat + 1
def HLL_SPARSE_VAL_LEN (b : UInt8) : Nat := (b &&& 0x3).toNat + 1

def HLL_SPARSE_VAL_SET (val len : Nat) : UInt8 := UInt8.ofNat (((val - 1) <<< 2 ||| (len - 1)) ||| 0x80)
def HLL_SPARSE_ZERO_SET (len : Nat) : UInt8 := UInt8.ofNat (len - 1)
def HLL_SPARSE_XZERO_SET (len : Nat) : Bytes :=
  [UInt8.ofNat (((len - 1) >>> 8) ||| 0x40), UInt8.ofNat ((len - 1) &&& 0xff)]

inductive Opcode where
  | zero (len : Nat)
  | xzero (len : Nat)
  | val (value len : Nat)
  deriving DecidableEq, Repr

/-- The opcode at `p`, where `c` is the byte after it. -/
def opcodeAt (b c : UInt8) : Opcode :=
  if HLL_SPARSE_IS_ZERO b then .zero (HLL_SPARSE_ZERO_LEN b)
  else if HLL_SPARSE_IS_XZERO b then .xzero (HLL_SPARSE_XZERO_LEN b c)
  else .val (HLL_SPARSE_VAL_VALUE b) (HLL_SPARSE_VAL_LEN b)

/-- What the loops `while(p < end)` over a sparse representation meet. -/
def opcodes : Bytes → List Opcode
  | [] => []
  | [b] => [opcodeAt b 0]
  | b :: c :: bs =>
    opcodeAt b c :: if HLL_SPARSE_IS_XZERO b then opcodes bs else opcodes (c :: bs)

/-! ## `MurmurHash64A` -/

def murmurM : UInt64 := 0xc6a4a7935bd1e995

def murmurMix (h k : UInt64) : UInt64 :=
  let k := k * murmurM
  let k := k ^^^ (k >>> 47)
  (h ^^^ (k * murmurM)) * murmurM

def littleEndian : Bytes → UInt64
  | [] => 0
  | b :: bs => b.toUInt64 ||| (littleEndian bs <<< 8)

def murmurBytes : UInt64 → Bytes → UInt64
  | h, b0 :: b1 :: b2 :: b3 :: b4 :: b5 :: b6 :: b7 :: bs =>
    murmurBytes (murmurMix h (littleEndian [b0, b1, b2, b3, b4, b5, b6, b7])) bs
  | h, [] => h
  | h, bs => (h ^^^ littleEndian bs) * murmurM

def MurmurHash64A (key : Bytes) (seed : UInt64) : UInt64 :=
  let h := murmurBytes (seed ^^^ (UInt64.ofNat key.length * murmurM)) key
  let h := h ^^^ (h >>> 47)
  let h := h * murmurM
  h ^^^ (h >>> 47)

/-- `while((hash & bit) == 0)`, from bit number `bit` on. -/
def countZeroes (hash : UInt64) : Nat → Nat → Nat → Nat
  | 0, _, count => count
  | rounds + 1, bit, count =>
    if hash.toNat.testBit bit then count else countZeroes hash rounds (bit + 1) (count + 1)

def hllPatLen (ele : Bytes) : Nat × Nat :=
  let hash := MurmurHash64A ele 0xadc83b19
  (countZeroes (hash ||| ((1 : UInt64) <<< 63)) 49 14 1, hash.toNat % HLL_REGISTERS)

/-! ## The dense representation -/

def hllDenseAdd (h : Hll) (ele : Bytes) : Hll × Int :=
  let (count, index) := hllPatLen ele
  if count > HLL_DENSE_GET_REGISTER h.registers index then
    ({ h with registers := HLL_DENSE_SET_REGISTER h.registers index count }, 1)
  else (h, 0)

def PE (reg : Nat) : ℚ := 1 / 2 ^ reg

/-- The registers of one iteration of `hllDenseSum`. -/
def denseBlock (r : Nat → UInt8) : List Nat :=
  let r := fun k => (r k).toNat
  [r 0 &&& 63, (r 0 >>> 6 ||| r 1 <<< 2) &&& 63, (r 1 >>> 4 ||| r 2 <<< 4) &&& 63, (r 2 >>> 2) &&& 63,
    r 3 &&& 63, (r 3 >>> 6 ||| r 4 <<< 2) &&& 63, (r 4 >>> 4 ||| r 5 <<< 4) &&& 63, (r 5 >>> 2) &&& 63,
    r 6 &&& 63, (r 6 >>> 6 ||| r 7 <<< 2) &&& 63, (r 7 >>> 4 ||| r 8 <<< 4) &&& 63, (r 8 >>> 2) &&& 63,
    r 9 &&& 63, (r 9 >>> 6 ||| r 10 <<< 2) &&& 63, (r 10 >>> 4 ||| r 11 <<< 4) &&& 63,
    (r 11 >>> 2) &&& 63]

/-- The sum and the number of zero registers. -/
def hllDenseSum (registers : Bytes) : ℚ × Nat :=
  (List.range 1024).foldl (fun (sum : ℚ × Nat) j =>
    let rs := denseBlock fun k => byteAt registers (12 * j + k)
    (sum.1 + (rs.map PE).sum, sum.2 + rs.count 0)) (0, 0)

/-! ## The sparse representation -/

/-- The writes of one VAL opcode; `none` is a write behind the last register. -/
def denseRun (regval : Nat) : Nat → Bytes → Nat → Option (Bytes × Nat)
  | 0, registers, idx => some (registers, idx)
  | runlen + 1, registers, idx =>
    if idx < HLL_REGISTERS then
      denseRun regval runlen (HLL_DENSE_SET_REGISTER registers idx regval) (idx + 1)
    else none

def denseRuns : List Opcode → Bytes → Nat → Option (Bytes × Nat)
  | [], registers, idx => some (registers, idx)
  | .zero len :: ops, registers, idx => denseRuns ops registers (idx + len)
  | .xzero len :: ops, registers, idx => denseRuns ops registers (idx + len)
  | .val value len :: ops, registers, idx => do
    let (registers, idx) ← denseRun value len registers idx
    denseRuns ops registers idx

def hllSparseToDense (h : Hll) : Option (Option Hll) :=
  match h.encoding with
  | .dense => some (some h)
  | .sparse => do
    let (registers, idx) ← denseRuns (opcodes h.registers) (List.replicate HLL_DENSE_BYTES 0) 0
    some (if idx = HLL_REGISTERS then some { h with encoding := .dense, registers := registers }
      else none)

/-- Where the search of `hllSparseAdd` stops: what comes before `prev`, the opcode at `prev`, and what
starts at `p`. -/
structure Located where
  before : Bytes
  prev : Bytes
  rest : Bytes
  first : Nat
  span : Nat
  deriving DecidableEq, Repr

def opcodeLen : Opcode → Nat
  | .zero len => len
  | .xzero len => len
  | .val _ len => len

def locate (index : Nat) : Bytes → Bytes → Bytes → Nat → Nat → Located
  | before, prev, [], first, span => ⟨before, prev, [], first, span⟩
  | before, prev, [b], first, _ =>
    let span := opcodeLen (opcodeAt b 0)
    if index < first + span then ⟨before, prev, [b], first, span⟩
    else ⟨before ++ prev, [b], [], first + span, span⟩
  | before, prev, b :: c :: bs, first, _ =>
    let span := opcodeLen (opcodeAt b c)
    if index < first + span then ⟨before, prev, b :: c :: bs, first, span⟩
    else if HLL_SPARSE_IS_XZERO b then locate index (before ++ prev) [b, c] bs (first + span) span
    else locate index (before ++ prev) [b] (c :: bs) (first + span) span

def zeroRun (len : Nat) : Bytes :=
  if len > HLL_SPARSE_ZERO_MAX_LEN then HLL_SPARSE_XZERO_SET len else [HLL_SPARSE_ZERO_SET len]

/-- The opcodes that take the place of one that covers more than the register `index`. -/
def splitOpcode (op : Opcode) (index first last count : Nat) : Bytes :=
  match op with
  | .val value _ =>
    (if index ≠ first then [HLL_SPARSE_VAL_SET value (index - first)] else []) ++
      [HLL_SPARSE_VAL_SET count 1] ++
      (if index ≠ last then [HLL_SPARSE_VAL_SET value (last - index)] else [])
  | _ =>
    (if index ≠ first then zeroRun (index - first) else []) ++ [HLL_SPARSE_VAL_SET count 1] ++
      (if index ≠ last then zeroRun (last - index) else [])

/-- Step 4, with at most `scanlen` opcodes to scan. -/
def mergeValues : Nat → Bytes → Bytes → Bytes
  | 0, before, rest => before ++ rest
  | _ + 1, before, [] => before
  | scanlen + 1, before, [b] =>
    if HLL_SPARSE_IS_XZERO b then before ++ [b] else mergeValues scanlen (before ++ [b]) []
  | scanlen + 1, before, b :: c :: bs =>
    if HLL_SPARSE_IS_XZERO b then mergeValues scanlen (before ++ [b, c]) bs
    else if HLL_SPARSE_IS_ZERO b then mergeValues scanlen (before ++ [b]) (c :: bs)
    else if HLL_SPARSE_IS_VAL c ∧ HLL_SPARSE_VAL_VALUE b = HLL_SPARSE_VAL_VALUE c ∧
        HLL_SPARSE_VAL_LEN b + HLL_SPARSE_VAL_LEN c ≤ HLL_SPARSE_VAL_MAX_LEN then
      mergeValues scanlen before
        (HLL_SPARSE_VAL_SET (HLL_SPARSE_VAL_VALUE b) (HLL_SPARSE_VAL_LEN b + HLL_SPARSE_VAL_LEN c) :: bs)
    else mergeValues scanlen (before ++ [b]) (c :: bs)

/-- The end of `hllSparseAdd` after an update of the opcodes. -/
def updated (h : Hll) (before registers : Bytes) : Hll × Int :=
  (HLL_INVALIDATE_CACHE { h with registers := mergeValues 5 before registers }, 1)

/-- The assertion after `promote` is a `none` too. -/
def promote (h : Hll) (ele : Bytes) : Option (Hll × Int) :=
  match hllSparseToDense h with
  | none => none
  | some none => some (h, -1)
  | some (some h) =>
    let r := hllDenseAdd h ele
    if r.2 = 1 then some (r.1, 1) else none

/-- `none` too where the search ends behind the last opcode, or at an opcode that is cut off. -/
def hllSparseAdd (hll_sparse_max_bytes : Nat) (h : Hll) (ele : Bytes) : Option (Hll × Int) :=
  let (count, index) := hllPatLen ele
  if count > HLL_SPARSE_VAL_MAX_VALUE then promote h ele
  else
    let l := locate index [] [] h.registers 0 0
    if l.span = 0 then some (h, -1)
    else
      match l.rest with
      | [] => none
      | b :: bs =>
        let op := opcodeAt b (bs.headD 0)
        let oldlen := if HLL_SPARSE_IS_XZERO b then 2 else 1
        if l.rest.length < oldlen then none
        else
          match op with
          | .val value len =>
            if value ≥ count then some (h, 0)
            else if len = 1 then some (updated h l.before (l.prev ++ HLL_SPARSE_VAL_SET count 1 :: bs))
            else splitAndUpdate h l op oldlen count index
          | .zero len =>
            if len = 1 then some (updated h l.before (l.prev ++ HLL_SPARSE_VAL_SET count 1 :: bs))
            else splitAndUpdate h l op oldlen count index
          | .xzero _ => splitAndUpdate h l op oldlen count index
where
  /-- Case D. -/
  splitAndUpdate (h : Hll) (l : Located) (op : Opcode) (oldlen count index : Nat) :
      Option (Hll × Int) :=
    let seq := splitOpcode op index l.first (l.first + l.span - 1) count
    if seq.length > oldlen ∧
        HLL_HDR_SIZE + h.registers.length + (seq.length - oldlen) > hll_sparse_max_bytes then
      promote h ele
    else some (updated h l.before (l.prev ++ seq ++ l.rest.drop oldlen))

/-- The sum, the number of zero registers, and the number of registers in the string. -/
def hllSparseSum (sparse : Bytes) : ℚ × Nat × Nat :=
  let sum := (opcodes sparse).foldl (fun (sum : ℚ × Nat × Nat) op =>
    match op with
    | .zero len => (sum.1, sum.2.1 + len, sum.2.2 + len)
    | .xzero len => (sum.1, sum.2.1 + len, sum.2.2 + len)
    | .val value len => (sum.1 + PE value * (len : ℚ), sum.2.1, sum.2.2 + len)) (0, 0, 0)
  (sum.1 + (sum.2.1 : ℚ), sum.2.1, sum.2.2)

/-! ## Counting -/

def rawWord (E : ℚ) (ez : Nat) (bytes : Bytes) : ℚ × Nat :=
  if littleEndian bytes = 0 then (E, ez + 8)
  else
    bytes.foldl (fun (sum : ℚ × Nat) b =>
      if b = 0 then (sum.1, sum.2 + 1) else (sum.1 + PE b.toNat, sum.2)) (E, ez)

def hllRawSum (registers : Nat → UInt8) : ℚ × Nat :=
  let sum := (List.range (HLL_REGISTERS / 8)).foldl (fun (sum : ℚ × Nat) j =>
    rawWord sum.1 sum.2 ((List.range 8).map fun k => registers (8 * j + k))) (0, 0)
  (sum.1 + (sum.2 : ℚ), sum.2)

/-- The count, `none` where the sparse representation is invalid. -/
def hllCount (estimate : ℚ → Nat → UInt64) (h : Hll) : Option UInt64 :=
  match h.encoding with
  | .dense => some (estimate (hllDenseSum h.registers).1 (hllDenseSum h.registers).2)
  | .sparse =>
    let (E, ez, idx) := hllSparseSum h.registers
    if idx = HLL_REGISTERS then some (estimate E ez) else none

def hllAdd (hll_sparse_max_bytes : Nat) (h : Hll) (ele : Bytes) : Option (Hll × Int) :=
  match h.encoding with
  | .dense => some (hllDenseAdd h ele)
  | .sparse => hllSparseAdd hll_sparse_max_bytes h ele

/-- The comparisons of `hllMerge` for one VAL opcode. -/
def maxRun (regval : Nat) : Nat → (Nat → UInt8) → Nat → Option ((Nat → UInt8) × Nat)
  | 0, max, i => some (max, i)
  | runlen + 1, max, i =>
    if i < HLL_REGISTERS then
      maxRun regval runlen
        (if regval > (max i).toNat then Function.update max i (UInt8.ofNat regval) else max) (i + 1)
    else none

def maxRuns : List Opcode → (Nat → UInt8) → Nat → Option ((Nat → UInt8) × Nat)
  | [], max, i => some (max, i)
  | .zero len :: ops, max, i => maxRuns ops max (i + len)
  | .xzero len :: ops, max, i => maxRuns ops max (i + len)
  | .val value len :: ops, max, i => do
    let (max, i) ← maxRun value len max i
    maxRuns ops max i

def hllMerge (max : Nat → UInt8) (h : Hll) : Option (Option (Nat → UInt8)) :=
  match h.encoding with
  | .dense =>
    some (some ((List.range HLL_REGISTERS).foldl (fun max i =>
      let val := HLL_DENSE_GET_REGISTER h.registers i
      if val > (max i).toNat then Function.update max i (UInt8.ofNat val) else max) max))
  | .sparse => do
    let (max, i) ← maxRuns (opcodes h.registers) max 0
    some (if i = HLL_REGISTERS then some max else none)

/-! ## Commands -/

/-- Sixteen thousand zero registers in one opcode. -/
def createHLLObject : Hll := ⟨.sparse, 0, HLL_SPARSE_XZERO_SET HLL_REGISTERS⟩

/-- The length test of `isHLLObjectOrReply`; the other tests are about values that are no HLL. -/
def isHLLObject (h : Hll) : Bool :=
  match h.encoding with
  | .dense => h.registers.length == HLL_DENSE_BYTES
  | .sparse => true

/-- The HLL values of a database. -/
abbrev Db := Bytes → Option Hll

inductive Reply where
  | integer (value : UInt64)
  | ok
  | wrongType
  | invalidHll
  deriving DecidableEq, Repr

/-- The loop of PFADD over its elements: the value, how many changed it, and whether one returned -1. -/
def addElements (hll_sparse_max_bytes : Nat) : Hll → Nat → List Bytes → Option (Hll × Nat × Bool)
  | h, updated, [] => some (h, updated, false)
  | h, updated, ele :: eles => do
    let (h, retval) ← hllAdd hll_sparse_max_bytes h ele
    if retval = -1 then some (h, updated, true)
    else addElements hll_sparse_max_bytes h (if retval = 1 then updated + 1 else updated) eles

def pfaddCommand (hll_sparse_max_bytes : Nat) (db : Db) (key : Bytes) (eles : List Bytes) :
    Option (Db × Reply) :=
  let add (h : Hll) (created : Nat) : Option (Db × Reply) := do
    let (h, updated, invalid) ← addElements hll_sparse_max_bytes h created eles
    if invalid then some (Function.update db key (some h), .invalidHll)
    else
      some (Function.update db key (some (if updated ≠ 0 then HLL_INVALIDATE_CACHE h else h)),
        .integer (if updated ≠ 0 then 1 else 0))
  match db key with
  | none => add createHLLObject 1
  | some h => if isHLLObject h then add h 0 else some (db, .wrongType)

/-- The loop of PFCOUNT and PFMERGE over their keys; an error ends it. -/
def mergeKeys (db : Db) : (Nat → UInt8) → List Bytes → Option (Except Reply (Nat → UInt8))
  | max, [] => some (.ok max)
  | max, key :: keys =>
    match db key with
    | none => mergeKeys db max keys
    | some h =>
      if isHLLObject h then do
        match ← hllMerge max h with
        | none => some (.error .invalidHll)
        | some max => mergeKeys db max keys
      else some (.error .wrongType)

def pfcountCommand (estimate : ℚ → Nat → UInt64) (db : Db) : List Bytes → Option (Db × Reply)
  | [key] =>
    match db key with
    | none => some (db, .integer 0)
    | some h =>
      if !isHLLObject h then some (db, .wrongType)
      else if HLL_VALID_CACHE h then some (db, .integer h.card)
      else
        match hllCount estimate h with
        | none => some (db, .invalidHll)
        | some card => some (Function.update db key (some { h with card := card }), .integer card)
  | keys => do
    match ← mergeKeys db (fun _ => 0) keys with
    | .error reply => some (db, reply)
    | .ok registers =>
      let (E, ez) := hllRawSum registers
      some (db, .integer (estimate E ez))

/-- The loop of PFMERGE that writes the registers. -/
def setRegisters (registers : Bytes) (max : Nat → UInt8) : Nat → Bytes
  | 0 => registers
  | n + 1 => HLL_DENSE_SET_REGISTER (setRegisters registers max n) n (max n).toNat

def pfmergeCommand (db : Db) (dest : Bytes) (sources : List Bytes) : Option (Db × Reply) := do
  match ← mergeKeys db (fun _ => 0) (dest :: sources) with
  | .error reply => some (db, reply)
  | .ok max =>
    let h := (db dest).getD createHLLObject
    match ← hllSparseToDense h with
    | none => some (Function.update db dest (some h), .invalidHll)
    | some h =>
      let h := HLL_INVALIDATE_CACHE { h with registers := setRegisters h.registers max HLL_REGISTERS }
      some (Function.update db dest (some h), .ok)

/-- The commands, each with the configuration it runs under. -/
inductive Command where
  | pfadd (hll_sparse_max_bytes : Nat) (key : Bytes) (eles : List Bytes)
  | pfcount (keys : List Bytes)
  | pfmerge (dest : Bytes) (sources : List Bytes)

def step (estimate : ℚ → Nat → UInt64) (db : Db) : Command → Option (Db × Reply)
  | .pfadd hll_sparse_max_bytes key eles => pfaddCommand hll_sparse_max_bytes db key eles
  | .pfcount keys => pfcountCommand estimate db keys
  | .pfmerge dest sources => pfmergeCommand db dest sources

/-- The database after the commands, from `db` on. -/
def run (estimate : ℚ → Nat → UInt64) (db : Db) (commands : List Command) : Option Db :=
  commands.foldlM (fun db command => (step estimate db command).map Prod.fst) db

end RedisCluster.Hyperloglog
