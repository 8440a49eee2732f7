import Mathlib.Data.Finset.Sort
import RedisCluster.Lib.Block
import RedisCluster.Lib.Bytes
import RedisCluster.Lib.Run

/-!
# `intset.c`: a packed sorted array of integers

The element width is the `encoding`, 2, 4 or 8 bytes. `contents` is the block behind the header.
`uint32_t` arithmetic is explicit: the byte counts of `intsetResize` and `intsetMoveTail` wrap. An
`int` that overflows and an access outside the block have no result. The header fields are stored
little-endian, so the `memrev` and `intrev` macros do nothing on a little-endian host.
-/

namespace RedisCluster

open RedisCluster.Lib

def INTSET_ENC_INT16 : Nat := 2

def INTSET_ENC_INT32 : Nat := 4

def INTSET_ENC_INT64 : Nat := 8

structure Intset where
  encoding : Nat
  length : Nat
  contents : Block

def u32 (n : Nat) : Nat := n % 2 ^ 32

def _intsetValueEncoding (v : Int) : Nat :=
  if v < -2 ^ 31 ∨ v > 2 ^ 31 - 1 then INTSET_ENC_INT64
  else if v < -2 ^ 15 ∨ v > 2 ^ 15 - 1 then INTSET_ENC_INT32
  else INTSET_ENC_INT16

/-- The element at `pos` when the array is read with elements of `enc` bytes. -/
def _intsetGetEncoded (is : Intset) (pos : Int) (enc : Nat) : Option Int :=
  if pos < 0 then none else (is.contents.load (pos.toNat * enc) enc).map leInt

def _intsetGet (is : Intset) (pos : Int) : Option Int := _intsetGetEncoded is pos is.encoding

def _intsetSet (is : Intset) (pos : Int) (value : Int) : Option Intset :=
  if pos < 0 then none
  else
    (is.contents.store (pos.toNat * is.encoding) (leBytes is.encoding value)).map fun b =>
      { is with contents := b }

def intsetNew : Intset :=
  { encoding := INTSET_ENC_INT16, length := 0, contents := Block.alloc 0 }

def intsetResize (is : Intset) (len : Nat) : Intset :=
  { is with contents := is.contents.realloc (u32 (len * is.encoding)) }

def intMid (min max : Int) : Option Int :=
  if min + max > 2 ^ 31 - 1 then none else some ((min + max) / 2)

/-- The bisection `while(max >= min)` of `intsetSearch`: `min`, `mid` and `cur` at its end. -/
def searchLoop (is : Intset) (value : Int) : Nat → (min max mid cur : Int) →
    Option (Int × Int × Int)
  | 0, min, _, mid, cur => some (min, mid, cur)
  | fuel + 1, min, max, mid, cur =>
    if max ≥ min then do
      let mid ← intMid min max
      let cur ← _intsetGet is mid
      if value > cur then searchLoop is value fuel (mid + 1) max mid cur
      else if value < cur then searchLoop is value fuel min (mid - 1) mid cur
      else some (min, mid, cur)
    else some (min, mid, cur)

/-- Whether the value is there, and `*pos`: its place, or the place where it can be inserted. The
loop halves `max - min`, so `length` iterations are enough. -/
def intsetSearch (is : Intset) (value : Int) : Option (Bool × Nat) :=
  if is.length = 0 then some (false, 0)
  else do
    let last ← _intsetGet is (is.length - 1 : Nat)
    if value > last then return (false, is.length)
    let first ← _intsetGet is 0
    if value < first then return (false, 0)
    let (min, mid, cur) ← searchLoop is value (is.length + 1) 0 (is.length - 1 : Nat) (-1) (-1)
    if value = cur then return (true, mid.toNat) else return (false, min.toNat)

/-- The loop `while(length--)` of `intsetUpgradeAndAdd`, from the last element to the first. -/
def upgradeLoop (curenc prepend : Nat) : Nat → Intset → Option Intset
  | 0, is => some is
  | length + 1, is => do
    let v ← _intsetGetEncoded is length curenc
    let is ← _intsetSet is (length + prepend : Nat) v
    upgradeLoop curenc prepend length is

/-- A value that needs a wider encoding is smaller or larger than all elements. -/
def intsetUpgradeAndAdd (is : Intset) (value : Int) : Option Intset := do
  let curenc := is.encoding
  let newenc := _intsetValueEncoding value
  let length := is.length
  let prepend := if value < 0 then 1 else 0
  let is := { is with encoding := newenc }
  let is := intsetResize is (u32 (is.length + 1))
  let is ← upgradeLoop curenc prepend length is
  let is ← if prepend = 1 then _intsetSet is 0 value else _intsetSet is is.length value
  return { is with length := u32 (is.length + 1) }

def intsetMoveTail (is : Intset) (src dst : Nat) : Option Intset := do
  let bytes := u32 (u32 (is.length - src) * is.encoding)
  let b ← is.contents.memmove (dst * is.encoding) (src * is.encoding) bytes
  return { is with contents := b }

/-- The end of `intsetAdd`, once the place `pos` of the new value is known. -/
def addAt (is : Intset) (pos : Nat) (value : Int) : Option Intset := do
  let is := intsetResize is (u32 (is.length + 1))
  let is ← if pos < is.length then intsetMoveTail is pos (pos + 1) else some is
  let is ← _intsetSet is pos value
  return { is with length := u32 (is.length + 1) }

def intsetAdd (is : Intset) (value : Int) : Option (Intset × Bool) :=
  let valenc := _intsetValueEncoding value
  if valenc > is.encoding then do
    let is ← intsetUpgradeAndAdd is value
    return (is, true)
  else do
    let (found, pos) ← intsetSearch is value
    if found then return (is, false)
    let is ← addAt is pos value
    return (is, true)

/-- The end of `intsetRemove`, once the value has been found at `pos`. -/
def removeAt (is : Intset) (pos : Nat) : Option Intset := do
  let len := is.length
  let is ← if pos < len - 1 then intsetMoveTail is (pos + 1) pos else some is
  let is := intsetResize is (len - 1)
  return { is with length := len - 1 }

def intsetRemove (is : Intset) (value : Int) : Option (Intset × Bool) :=
  let valenc := _intsetValueEncoding value
  if valenc ≤ is.encoding then do
    let (found, pos) ← intsetSearch is value
    if found then
      let is ← removeAt is pos
      return (is, true)
    else return (is, false)
  else some (is, false)

def intsetFind (is : Intset) (value : Int) : Option Bool :=
  let valenc := _intsetValueEncoding value
  if valenc ≤ is.encoding then do
    let (found, _) ← intsetSearch is value
    return found
  else some false

/-- `intsetGet`: the value at `pos` if there is one. -/
def intsetGet (is : Intset) (pos : Nat) : Option (Option Int) :=
  if pos < is.length then (_intsetGet is pos).map some else some none

def intsetLen (is : Intset) : Nat := is.length

end RedisCluster

/-!
## Runs of intset operations and the set they stand for

The purpose of an intset is a finite set of 64-bit integers, read in ascending order.
-/

namespace RedisCluster

open RedisCluster.Lib

/-- An `int64_t`. -/
abbrev Int64Value := {v : Int // FitsBytes 8 v}

inductive IntsetOp where
  | add (v : Int64Value)
  | remove (v : Int64Value)
  | find (v : Int64Value)
  | get (pos : Nat)
  | len

inductive IntsetReply where
  | success (b : Bool)
  | found (b : Bool)
  | value (v : Option Int)
  | count (n : Nat)
  deriving DecidableEq

def intsetStep (is : Intset) : IntsetOp → Option (Intset × IntsetReply)
  | .add v => (intsetAdd is v).map fun r => (r.1, .success r.2)
  | .remove v => (intsetRemove is v).map fun r => (r.1, .success r.2)
  | .find v => (intsetFind is v).map fun b => (is, .found b)
  | .get pos => (intsetGet is pos).map fun v => (is, .value v)
  | .len => some (is, .count (intsetLen is))

def setStep (s : Finset Int) : IntsetOp → Finset Int × IntsetReply
  | .add v => (insert v.val s, .success (decide (v.val ∉ s)))
  | .remove v => (s.erase v.val, .success (decide (v.val ∈ s)))
  | .find v => (s, .found (decide (v.val ∈ s)))
  | .get pos => (s, .value s.sort[pos]?)
  | .len => (s, .count s.card)

end RedisCluster
