import RedisCluster.Multi.Command
import RedisCluster.Sets.SetType

/-!
# `bitops.c`: BITOP, BITCOUNT and BITPOS

A string is the list of its bytes, at an address `addr`; only the address modulo the size of a word matters.
Words are little endian. The bits of a string are numbered from the most significant bit of its first byte.
-/

namespace RedisCluster.Bitops

open RedisCluster.Util RedisCluster.Lib RedisCluster.Sets

/-! ## `redisPopcount` -/

/-- The table of the number of one bits of each byte. -/
def bitsinbyteTable : List Nat :=
  [0,1,1,2,1,2,2,3,1,2,2,3,2,3,3,4,1,2,2,3,2,3,3,4,2,3,3,4,3,4,4,5,1,2,2,3,2,3,3,4,2,3,3,4,3,4,4,5,2,3,3,4,3,4,4,5,
   3,4,4,5,4,5,5,6,1,2,2,3,2,3,3,4,2,3,3,4,3,4,4,5,2,3,3,4,3,4,4,5,3,4,4,5,4,5,5,6,2,3,3,4,3,4,4,5,3,4,4,5,4,5,5,6,
   3,4,4,5,4,5,5,6,4,5,5,6,5,6,6,7,1,2,2,3,2,3,3,4,2,3,3,4,3,4,4,5,2,3,3,4,3,4,4,5,3,4,4,5,4,5,5,6,2,3,3,4,3,4,4,5,
   3,4,4,5,4,5,5,6,3,4,4,5,4,5,5,6,4,5,5,6,5,6,6,7,2,3,3,4,3,4,4,5,3,4,4,5,4,5,5,6,3,4,4,5,4,5,5,6,4,5,5,6,5,6,6,7,
   3,4,4,5,4,5,5,6,4,5,5,6,5,6,6,7,4,5,5,6,5,6,6,7,5,6,6,7,6,7,7,8]

def bitsinbyte (b : UInt8) : Nat := bitsinbyteTable.getD b.toNat 0

/-- The bytes before a boundary of 32 bit: `bits`, and what is left. -/
def popcountHead : Nat → Nat → Bytes → Nat × Bytes
  | _, bits, [] => (bits, [])
  | addr, bits, b :: p =>
    if addr % 4 = 0 then (bits, b :: p) else popcountHead (addr + 1) (bits + bitsinbyte b) p

def aux32 (aux : UInt32) : UInt32 :=
  let aux : UInt32 := aux - ((aux >>> 1) &&& (0x55555555 : UInt32))
  let aux : UInt32 := (aux &&& (0x33333333 : UInt32)) + ((aux >>> 2) &&& (0x33333333 : UInt32))
  (((aux + (aux >>> 4)) &&& (0x0F0F0F0F : UInt32)) * (0x01010101 : UInt32)) >>> 24

def word32 (p : Bytes) : UInt32 := UInt32.ofNat (leNat (p.take 4))

/-- 16 bytes at a time, as often as they last. -/
def popcountWords (n bits : Nat) (p : Bytes) : Nat × Bytes :=
  match n with
  | 0 => (bits, p)
  | n + 1 =>
    let aux1 := aux32 (word32 p)
    let aux2 := aux32 (word32 (p.drop 4))
    let aux3 := aux32 (word32 (p.drop 8))
    let aux4 := aux32 (word32 (p.drop 12))
    popcountWords n (bits + (aux1 + aux2 + aux3 + aux4).toNat) (p.drop 16)

def popcountTail : Nat → Bytes → Nat
  | bits, [] => bits
  | bits, b :: p => popcountTail (bits + bitsinbyte b) p

def redisPopcount (addr : Nat) (s : Bytes) : Nat :=
  let (bits, p) := popcountHead addr 0 s
  let (bits, p) := popcountWords (p.length / 16) bits p
  popcountTail bits p

/-! ## `redisBitpos` -/

/-- The bytes before a boundary of a word: `pos`, and what is left. -/
def bitposHead (skipval : UInt8) : Nat → Nat → Bytes → Nat × Bytes
  | _, pos, [] => (pos, [])
  | addr, pos, b :: c =>
    if addr % 8 = 0 then (pos, b :: c)
    else if b ≠ skipval then (pos, b :: c)
    else bitposHead skipval (addr + 1) (pos + 8) c

def word64 (p : Bytes) : UInt64 := UInt64.ofNat (leNat (p.take 8))

def bitposWords (skipval : UInt64) : Nat → Nat → Bytes → Nat × Bytes
  | 0, pos, l => (pos, l)
  | n + 1, pos, l =>
    if word64 l ≠ skipval then (pos, l) else bitposWords skipval n (pos + 64) (l.drop 8)

/-- The loop that loads bytes into `word`. -/
def bitposLoad : Nat → UInt64 → Bytes → UInt64
  | 0, word, _ => word
  | n + 1, word, [] => bitposLoad n (word <<< 8) []
  | n + 1, word, b :: c => bitposLoad n ((word <<< 8) ||| b.toUInt64) c

/-- The scan bit by bit; `none` is the end of the loop, where `redisPanic` is. -/
def bitposScan (bit : Bool) (word : UInt64) : Nat → UInt64 → Nat → Option Nat
  | 0, _, _ => none
  | n + 1, one, pos =>
    if one = 0 then none
    else if decide (one &&& word ≠ 0) = bit then some pos
    else bitposScan bit word n (one >>> 1) (pos + 1)

def ULONG_MAX : UInt64 := 0xFFFFFFFFFFFFFFFF

def redisBitpos (addr : Nat) (s : Bytes) (bit : Bool) : Option Int :=
  let (pos, c) := bitposHead (if bit then 0 else 255) addr 0 s
  let (pos, l) := bitposWords (if bit then 0 else ULONG_MAX) (c.length / 8) pos c
  let word := bitposLoad 8 0 l
  if bit && word = 0 then some (-1)
  else (bitposScan bit word 65 (~~~(ULONG_MAX >>> 1)) pos).map fun (pos : Nat) => (pos : Int)

/-! ## BITOP -/

inductive BitOp where
  | and
  | or
  | xor
  | not
  deriving DecidableEq, Repr

/-- The operation on a word of the result and one of a further source. -/
def BitOp.word : BitOp → UInt64 → UInt64 → UInt64
  | .and, x, y => x &&& y
  | .or, x, y => x ||| y
  | .xor, x, y => x ^^^ y
  | .not, x, _ => x

def BitOp.byte : BitOp → UInt8 → UInt8 → UInt8
  | .and, x, y => x &&& y
  | .or, x, y => x ||| y
  | .xor, x, y => x ^^^ y
  | .not, x, _ => x

def loadWord (p : Bytes) (off : Nat) : UInt64 := word64 (p.drop off)

def storeWord (p : Bytes) (off : Nat) (w : UInt64) : Bytes :=
  p.take off ++ leBytes 8 w.toNat ++ p.drop (off + 8)

/-- `lres[0]` to `lres[3]`, with `lres` and `lp[i]` at `j`. -/
def fourWords (f : UInt64 → UInt64 → UInt64) (j : Nat) (res lp : Bytes) : Bytes :=
  [0, 1, 2, 3].foldl (fun res k => storeWord res (j + 8 * k) (f (loadWord res (j + 8 * k)) (loadWord lp (j + 8 * k)))) res

/-- One round of the fast loop, over the sources behind the first. -/
def fastRound (op : BitOp) (srcs : List Bytes) (j : Nat) (res : Bytes) : Bytes :=
  match op with
  | .not => fourWords (fun x _ => ~~~x) j res res
  | op => srcs.foldl (fun res lp => fourWords op.word j res lp) res

/-- The fast loop, as often as four words of the shortest string are left: `j` and `res`. -/
def fastLoop (op : BitOp) (srcs : List Bytes) : Nat → Nat → Bytes → Nat × Bytes
  | 0, j, res => (j, res)
  | n + 1, j, res => fastLoop op srcs n (j + 32) (fastRound op srcs j res)

def byteAt (s : Bytes) (j : Nat) : UInt8 := s.getD j 0

/-- The byte of the result at `j` when it is computed alone. -/
def outputByte (op : BitOp) (src0 : Bytes) (srcs : List Bytes) (j : Nat) : UInt8 :=
  let output := if op = .not then ~~~(byteAt src0 j) else byteAt src0 j
  srcs.foldl (fun output s => op.byte output (byteAt s j)) output

def slowLoop (op : BitOp) (src0 : Bytes) (srcs : List Bytes) : Nat → Nat → Bytes → Bytes
  | 0, _, res => res
  | n + 1, j, res => slowLoop op src0 srcs n (j + 1) (res.set j (outputByte op src0 srcs j))

def maxLength (src0 : Bytes) (srcs : List Bytes) : Nat := ((src0 :: srcs).map List.length).foldl max 0

def minLength (src0 : Bytes) (srcs : List Bytes) : Nat := (srcs.map List.length).foldl min src0.length

/-- The fast path: the next byte to process and `res`. -/
def fastPath (op : BitOp) (src0 : Bytes) (srcs : List Bytes) : Nat × Bytes :=
  let res := List.replicate (maxLength src0 srcs) 0
  let minlen := minLength src0 srcs
  if minlen ≠ 0 ∧ srcs.length + 1 ≤ 16 then
    fastLoop op srcs (minlen / 32) 0 (src0.take minlen ++ res.drop minlen)
  else (0, res)

/-- The result for the sources `src0 :: srcs`, a missing key being an empty string; `none` if there is nothing
to store. -/
def bitop (op : BitOp) (src0 : Bytes) (srcs : List Bytes) : Option Bytes :=
  if maxLength src0 srcs = 0 then none
  else
    let r := fastPath op src0 srcs
    some (slowLoop op src0 srcs (maxLength src0 srcs - r.1) r.1 r.2)

def opByName (opname : Bytes) : Option BitOp :=
  if Multi.sameCaseless opname (ascii "and") then some .and
  else if Multi.sameCaseless opname (ascii "or") then some .or
  else if Multi.sameCaseless opname (ascii "xor") then some .xor
  else if Multi.sameCaseless opname (ascii "not") then some .not
  else none

inductive BitopError where
  | syntaxerr
  | notSingle
  | wrongtype
  deriving DecidableEq, Repr

def BitopError.text : BitopError → String
  | syntaxerr => "-ERR syntax error\r\n"
  | notSingle => "-ERR BITOP NOT must be called with a single source key.\r\n"
  | wrongtype => "-WRONGTYPE Operation against a key holding the wrong kind of value\r\n"

/-- A value as a command on strings meets it; `none` has another type. -/
abbrev StringValue := Option StringObject

/-- `src[j]` and `len[j]`; a missing key is an empty string. -/
def loadSource : Option StringValue → Except BitopError Bytes
  | none => .ok []
  | some none => .error .wrongtype
  | some (some o) => .ok (getDecodedObject o)

/-- What `bitopCommand` makes of the name and of the values of the source keys: the string to store, or nothing
where the target is to be deleted, and the length replied. -/
def bitopCommand (opname : Bytes) (key0 : Option StringValue) (keys : List (Option StringValue)) :
    Except BitopError (Option Bytes × Nat) := do
  match opByName opname with
  | none => throw .syntaxerr
  | some op =>
    if op = .not ∧ keys ≠ [] then throw .notSingle
    else do
      let src0 ← loadSource key0
      let srcs ← keys.mapM loadSource
      return (bitop op src0 srcs, ((bitop op src0 srcs).getD []).length)

/-! ## BITCOUNT and BITPOS -/

def bitRange (strlen start stop : Int) : Int × Int :=
  let start := if start < 0 then strlen + start else start
  let stop := if stop < 0 then strlen + stop else stop
  let start := if start < 0 then 0 else start
  let stop := if stop < 0 then 0 else stop
  let stop := if stop ≥ strlen then strlen - 1 else stop
  (start, stop)

def bytesFrom (p : Bytes) (start stop : Int) : Bytes :=
  (p.drop start.toNat).take (stop - start + 1).toNat

/-- The number that `bitcountCommand` replies for a string at `addr`; `none` is the range of the whole string. -/
def bitcount (addr : Nat) (o : StringObject) (range : Option (Int × Int)) : Nat :=
  let p := getDecodedObject o
  let strlen : Int := p.length
  let (start, stop) :=
    match range with
    | some (start, stop) => bitRange strlen start stop
    | none => (0, strlen - 1)
  if start > stop then 0 else redisPopcount (addr + start.toNat) (bytesFrom p start stop)

/-- The arguments of BITPOS behind the bit. -/
inductive PosRange where
  | whole
  | start (start : Int)
  | both (start stop : Int)

/-- The number that `bitposCommand` replies for a string at `addr`; `none` is the panic. -/
def bitpos (addr : Nat) (o : StringObject) (bit : Bool) (range : PosRange) : Option Int :=
  let p := getDecodedObject o
  let strlen : Int := p.length
  let (start, stop) :=
    match range with
    | .whole => (0, strlen - 1)
    | .start start => bitRange strlen start (strlen - 1)
    | .both start stop => bitRange strlen start stop
  let end_given := match range with | .both _ _ => true | _ => false
  if start > stop then some (-1)
  else
    let bytes := stop - start + 1
    (redisBitpos (addr + start.toNat) (bytesFrom p start stop) bit).map fun pos =>
      if end_given && !bit && pos = bytes * 8 then -1
      else if pos ≠ -1 then pos + start * 8
      else pos

/-! ## Bit by bit -/

/-- The bit at a position; behind the string there are zeros. -/
def bitAt (s : Bytes) (i : Nat) : Bool := (byteAt s (i / 8)).toNat.testBit (7 - i % 8)

def countOnes (s : Bytes) : Nat := (List.range (8 * s.length)).countP (bitAt s)

/-- The position of the first such bit, or what stands for none. -/
def firstBit (s : Bytes) (bit : Bool) : Int :=
  match (List.range (8 * s.length)).find? fun i => bitAt s i = bit with
  | some i => i
  | none => if bit then -1 else s.length * 8

/-- The operation on the bits at one position. -/
def BitOp.bits : BitOp → Bool → List Bool → Bool
  | .and, b, bs => b && bs.all id
  | .or, b, bs => b || bs.any id
  | .xor, b, bs => bs.foldl Bool.xor b
  | .not, b, _ => !b

/-- The sources give this string; `none` is the empty one. -/
structure BitopResult (op : BitOp) (src0 : Bytes) (srcs : List Bytes) (res : Option Bytes) : Prop where
  stored : res = none ↔ ∀ s ∈ src0 :: srcs, s = []
  longest : (∀ s ∈ src0 :: srcs, s.length ≤ (res.getD []).length) ∧
    ∃ s ∈ src0 :: srcs, s.length = (res.getD []).length
  bits : ∀ i < 8 * (res.getD []).length,
    bitAt (res.getD []) i = op.bits (bitAt src0 i) (srcs.map (bitAt · i))

/-! ## Ranges of bytes -/

/-- An index from the end is one from the start. -/
def fromStart (strlen i : Int) : Int := if i < 0 then strlen + i else i

/-- The byte at the position `i` is in the range. -/
def InRange (strlen start stop : Int) (i : Nat) : Prop :=
  fromStart strlen start ≤ i ∧ i ≤ fromStart strlen stop ∧ (i : Int) < strlen

instance (strlen start stop : Int) (i : Nat) : Decidable (InRange strlen start stop i) :=
  inferInstanceAs (Decidable (_ ∧ _))

/-- The bits of the bytes in the range, by their positions in the string. -/
def rangeBits (s : Bytes) (start stop : Int) : List Nat :=
  (List.range (8 * s.length)).filter fun i => InRange s.length start stop (i / 8)

def countInRange (s : Bytes) (start stop : Int) : Nat := (rangeBits s start stop).countP (bitAt s)

/-- What BITPOS must reply; `padded` is the case that no end is given. -/
def firstInRange (s : Bytes) (bit : Bool) (start stop : Int) (padded : Bool) : Int :=
  match (rangeBits s start stop).find? fun i => bitAt s i = bit with
  | some i => i
  | none => if padded && !bit && !(rangeBits s start stop).isEmpty then s.length * 8 else -1

/-- The range is empty, but both ends are moved to the first byte. -/
def MovedToFirst (s : Bytes) (start stop : Int) : Prop :=
  s ≠ [] ∧ fromStart s.length start ≤ 0 ∧ fromStart s.length stop < 0

/-- The ends of the range that the arguments of BITPOS give. -/
def PosRange.ends (strlen : Int) : PosRange → Int × Int
  | .whole => (0, strlen - 1)
  | .start i => (i, strlen - 1)
  | .both i j => (i, j)

def PosRange.padded : PosRange → Bool
  | .both _ _ => false
  | _ => true

end RedisCluster.Bitops
