import RedisCluster.Ziplist.Update

/-!
# `ziplist.c`: the public operations

Walking a ziplist, its length, and runs of operations on it. A caller gets the pointers it gives to an insert or
a delete from `ziplistIndex`.
-/

namespace RedisCluster.Ziplist

open RedisCluster.Lib RedisCluster.Util

def entryHead : Nat := ZIPLIST_HEADER_SIZE

def entryEnd (zl : Bytes) : Nat := ziplistBytes zl - 1

/-! ## Walking -/

/-- The backward loop of `ziplistIndex`: the pointer, and the index that is left. -/
def indexBack (zl : Bytes) : Nat → Nat → Nat × Int
  | p, 0 => (p, if (zipEntry (zl.drop p)).prevrawlen > 0 then -1 else 0)
  | p, index + 1 =>
    if (zipEntry (zl.drop p)).prevrawlen > 0 then indexBack zl (p - (zipEntry (zl.drop p)).prevrawlen) index
    else (p, index + 1)

def indexForward (zl : Bytes) : Nat → Nat → Nat × Int
  | p, 0 => (p, if byteOf zl p ≠ ZIP_END then -1 else 0)
  | p, index + 1 =>
    if byteOf zl p ≠ ZIP_END then indexForward zl (p + zipRawEntryLength (zl.drop p)) index else (p, index + 1)

def ziplistIndex (zl : Bytes) (index : Int) : Option Nat :=
  let found :=
    if index < 0 then
      if byteOf zl (ziplistTailOffset zl) ≠ ZIP_END then indexBack zl (ziplistTailOffset zl) (-index - 1).toNat
      else (ziplistTailOffset zl, -index - 1)
    else indexForward zl entryHead index.toNat
  if byteOf zl found.1 = ZIP_END ∨ found.2 > 0 then none else some found.1

def ziplistNext (zl : Bytes) (p : Nat) : Option Nat :=
  if byteOf zl p = ZIP_END then none
  else
    let p := p + zipRawEntryLength (zl.drop p)
    if byteOf zl p = ZIP_END then none else some p

def ziplistPrev (zl : Bytes) (p : Nat) : Except String (Option Nat) :=
  if byteOf zl p = ZIP_END then
    let p := ziplistTailOffset zl
    .ok (if byteOf zl p = ZIP_END then none else some p)
  else if p = entryHead then .ok none
  else
    let entry := zipEntry (zl.drop p)
    if entry.prevrawlen > 0 then .ok (some (p - entry.prevrawlen)) else .error "assert(entry.prevrawlen > 0)"

def ziplistGet (zl : Bytes) (p : Nat) : Except String (Option (Bytes ⊕ Int)) :=
  if byteOf zl p = ZIP_END then .ok none
  else
    let entry := zipEntry (zl.drop p)
    if zipIsStr entry.encoding then .ok (some (.inl ((zl.drop (p + entry.headersize)).take entry.len)))
    else
      match zipLoadInteger (zl.drop (p + entry.headersize)) entry.encoding with
      | some v => .ok (some (.inr v))
      | none => .error "assert(NULL)"

def lenLoop (zl : Bytes) : Nat → Nat → Nat → Except String Nat
  | 0, _, _ => .error "no end"
  | fuel + 1, p, len =>
    if byteOf zl p = ZIP_END then .ok len else lenLoop zl fuel (p + zipRawEntryLength (zl.drop p)) (len + 1)

/-- `ziplistLen`: the length, which is stored again when it is small enough. -/
def ziplistLen (zl : Bytes) : Except String (Nat × Bytes) :=
  if ziplistLength zl < UINT16_MAX then .ok (ziplistLength zl, zl)
  else do
    let len ← lenLoop zl (zl.length + 1) ZIPLIST_HEADER_SIZE 0
    .ok (len, if len < UINT16_MAX then setLength zl len else zl)

/-! ## The entries as strings -/

/-- An element in the form in which it is printed. -/
def spell : Bytes ⊕ Int → Bytes
  | .inl s => s
  | .inr v => ll2string v

def decodeFrom (zl : Bytes) : Nat → Nat → Except String (List Bytes)
  | 0, _ => .error "no end"
  | fuel + 1, p => do
    match ← ziplistGet zl p with
    | none => .ok []
    | some v =>
      let rest ← decodeFrom zl fuel (p + zipRawEntryLength (zl.drop p))
      .ok (spell v :: rest)

def decode (zl : Bytes) : Except String (List Bytes) := decodeFrom zl (zl.length + 1) entryHead

/-- The pointers that a walk with `ziplistNext` visits. -/
def forwardFrom (zl : Bytes) : Nat → Option Nat → List Nat
  | 0, _ => []
  | _, none => []
  | fuel + 1, some p => p :: forwardFrom zl fuel (ziplistNext zl p)

def forward (zl : Bytes) : List Nat := forwardFrom zl (zl.length + 1) (ziplistIndex zl 0)

/-- The pointers that a walk with `ziplistPrev` visits. -/
def backwardFrom (zl : Bytes) : Nat → Nat → Except String (List Nat)
  | 0, _ => .error "no head"
  | fuel + 1, p => do
    match ← ziplistPrev zl p with
    | none => .ok []
    | some q =>
      let rest ← backwardFrom zl fuel q
      .ok (q :: rest)

def backward (zl : Bytes) : Except String (List Nat) := backwardFrom zl (zl.length + 1) (entryEnd zl)

/-! ## Runs -/

/-- A string and its length, an `unsigned int`. -/
abbrev Text := { s : Bytes // s.length < 2 ^ 32 }

inductive Where | head | tail
  deriving DecidableEq

def ziplistPush (zl : Bytes) (s : Bytes) : Where → Except String Bytes
  | .head => ziplistInsert zl entryHead s
  | .tail => ziplistInsert zl (entryEnd zl) s

def ziplistDelete (zl : Bytes) (p : Nat) : Except String Bytes := ziplistDeleteAt zl p 1

/-- The index is an `unsigned int` that is passed on as an `int`. -/
def ziplistDeleteRange (zl : Bytes) (index num : UInt32) : Except String Bytes :=
  (ziplistIndex zl index.toInt32.toInt).elim (.ok zl) fun p => ziplistDeleteAt zl p num.toNat

inductive Op
  | push (s : Text) (place : Where)
  /-- In front of the entry with this index, or at the end where there is none. -/
  | insert (index : Nat) (s : Text)
  | delete (index : Nat)
  | deleteRange (index num : UInt32)
  | len

/-- The pointer to an entry, or to the end. -/
def pointerTo (zl : Bytes) (index : Nat) : Nat := (ziplistIndex zl index).getD (entryEnd zl)

def Op.run (zl : Bytes) : Op → Except String Bytes
  | .push s place => ziplistPush zl s.1 place
  | .insert index s => ziplistInsert zl (pointerTo zl index) s.1
  | .delete index => (ziplistIndex zl index).elim (.ok zl) (ziplistDelete zl)
  | .deleteRange index num => ziplistDeleteRange zl index num
  | .len => (ziplistLen zl).map Prod.snd

def runOps (zl : Bytes) (ops : List Op) : Except String Bytes := ops.foldlM Op.run zl

/-! ## The list that a ziplist stands for -/

def rangeStart (length : Nat) (index : UInt32) : Nat :=
  if 0 ≤ index.toInt32.toInt then index.toInt32.toInt.toNat
  else if -index.toInt32.toInt ≤ length then (length + index.toInt32.toInt).toNat
  else length

def Op.onList (l : List Bytes) : Op → List Bytes
  | .push s .head => s.1 :: l
  | .push s .tail => l ++ [s.1]
  | .insert index s => l.take index ++ s.1 :: l.drop index
  | .delete index => l.eraseIdx index
  | .deleteRange index num =>
    l.take (rangeStart l.length index) ++ l.drop (rangeStart l.length index + num.toNat)
  | .len => l

end RedisCluster.Ziplist

/-!
## The entries of a ziplist

Each entry holds the length of the one before it. `fixPrevlens` is what a cascade makes of the entries
behind one whose length has changed.
-/

namespace RedisCluster.Ziplist

open RedisCluster.Lib RedisCluster.Util

def entriesBody (es : List Entry) : Bytes := es.flatMap Entry.bytes

namespace Entry

def rawlen (e : Entry) : Nat := e.bytes.length

def prevValue (e : Entry) : Nat := zipDecodePrevlen e.prevlen

end Entry

theorem prevEncode_size (len : Nat) :
    (zipPrevEncodeLength len).length = zipDecodePrevlensize (zipPrevEncodeLength len) ∧
      byteAt (zipPrevEncodeLength len) 0 ≠ ZIP_END := by
  unfold zipPrevEncodeLength
  split
  · rename_i hlt
    have hbig : ZIP_BIGLEN = 254 := rfl
    have hbyte : byteAt [UInt8.ofNat len] 0 = len := by
      show (UInt8.ofNat len).toNat = len
      rw [UInt8.toNat_ofNat', Nat.mod_eq_of_lt (by omega)]
    have hend : ZIP_END = 255 := rfl
    rw [zipDecodePrevlensize, hbyte, if_pos hlt]
    exact ⟨rfl, by omega⟩
  · exact ⟨by rw [List.length_cons, length_leBytes]; rfl, show (254 : Nat) ≠ 255 by decide⟩

/-- Another length of the entry before it. -/
def Entry.withPrev (e : Entry) (len : Nat) : Entry :=
  { e with
    prevlen := zipPrevEncodeLength len
    prevlen_size := (prevEncode_size len).1
    prevlen_end := (prevEncode_size len).2 }

def Entry.withLargePrev (e : Entry) (len : Nat) : Entry :=
  { e with
    prevlen := zipPrevEncodeLengthForceLarge len
    prevlen_size := by rw [zipPrevEncodeLengthForceLarge, List.length_cons, length_leBytes]; rfl
    prevlen_end := show (254 : Nat) ≠ 255 by decide }

/-- The entries behind one of length `prev`. -/
def Chained : Nat → List Entry → Prop
  | _, [] => True
  | prev, e :: es => e.prevValue = prev ∧ Chained e.rawlen es

/-- The entries behind the first one hold the right lengths. -/
def ChainedTail : List Entry → Prop
  | [] => True
  | e :: es => Chained e.rawlen es

def lastOffset : List Entry → Nat
  | [] => 0
  | [_] => 0
  | e :: f :: es => e.rawlen + lastOffset (f :: es)

def fixPrevlens : Nat → List Entry → List Entry
  | _, [] => []
  | prev, e :: es =>
    if e.prevValue = prev then e :: es
    else if e.prevlen.length < (zipPrevEncodeLength prev).length then
      e.withPrev prev :: fixPrevlens (e.withPrev prev).rawlen es
    else if e.prevlen.length > (zipPrevEncodeLength prev).length then e.withLargePrev prev :: es
    else e.withPrev prev :: es

/-- The entries behind an update: the first of them gets the length before it in a field of the size for it. -/
def settle : Nat → List Entry → List Entry
  | _, [] => []
  | prev, e :: es => e.withPrev prev :: fixPrevlens (e.withPrev prev).rawlen es

def endLen : Nat → List Entry → Nat
  | prev, [] => prev
  | _, e :: es => endLen e.rawlen es

end RedisCluster.Ziplist
