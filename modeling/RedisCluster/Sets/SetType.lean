import RedisCluster.Intset.Intset
import RedisCluster.Util.Strings

/-!
# `t_set.c`: sets in two encodings

A set is an intset or a dict of string objects. The dict is the list of its keys in the order in which
an iterator gives them; its type compares keys by their decoded strings, and a new key goes to the
end. An operation whose intset runs out of its block, or whose assertion fails, has no result.
-/

namespace RedisCluster.Sets

open RedisCluster.Util RedisCluster.Lib

/-! ## String objects -/

/-- A string object: with the encoding RAW or EMBSTR, or with the encoding INT. -/
inductive StringObject where
  | sds (s : Bytes)
  | int (n : Int64Value)
  deriving DecidableEq

def getDecodedObject : StringObject → Bytes
  | .sds s => s
  | .int n => ll2string n.val

/-- `isObjectRepresentableAsLongLong`, with `*llval`. -/
def isObjectRepresentableAsLongLong : StringObject → Option Int
  | .int n => some n.val
  | .sds s => string2ll s

/-- An object that is referenced elsewhere stays as it is. `string2l` checks the range of `long`. -/
def tryObjectEncoding (refcount : Nat) : StringObject → StringObject
  | .int n => .int n
  | .sds s =>
    if refcount > 1 then .sds s
    else if s.length ≤ 21 then
      match string2ll s with
      | some v => if h : FitsBytes 8 v then .int ⟨v, h⟩ else .sds s
      | none => .sds s
    else .sds s

def createStringObjectFromLongLong (value : Int) : StringObject :=
  if h : FitsBytes 8 value then .int ⟨value, h⟩ else .sds (ll2string value)

def dictEncObjKeyCompare : StringObject → StringObject → Bool
  | .int a, .int b => a.val = b.val
  | o1, o2 => getDecodedObject o1 = getDecodedObject o2

/-! ## The dict of a set -/

abbrev SetDict := List StringObject

def dictFind (d : SetDict) (key : StringObject) : Bool := d.any (dictEncObjKeyCompare key)

def dictAdd (d : SetDict) (key : StringObject) : Option SetDict :=
  if dictFind d key then none else some (d ++ [key])

def dictDelete (d : SetDict) (key : StringObject) : Option SetDict :=
  if dictFind d key then some (d.eraseP (dictEncObjKeyCompare key)) else none

/-! ## Sets -/

inductive SetObject where
  | intset (is : Intset)
  | ht (d : SetDict)

def createIntsetObject : SetObject := .intset intsetNew

def createSetObject : SetObject := .ht []

def setTypeCreate (value : StringObject) : SetObject :=
  if (isObjectRepresentableAsLongLong value).isSome then createIntsetObject else createSetObject

def setTypeSize : SetObject → Nat
  | .intset is => intsetLen is
  | .ht d => d.length

/-- The values that the calls of `setTypeNext` give from position `ii` on; `fuel` bounds the calls. -/
def intsetFrom (is : Intset) : Nat → Nat → Option (List Int)
  | 0, _ => some []
  | fuel + 1, ii => do
    match ← intsetGet is ii with
    | none => some []
    | some v => (intsetFrom is fuel (ii + 1)).map (v :: ·)

def intsetValues (is : Intset) : Option (List Int) := intsetFrom is (intsetLen is + 1) 0

def setTypeObjects : SetObject → Option (List StringObject)
  | .intset is => (intsetValues is).map (List.map createStringObjectFromLongLong)
  | .ht d => some d

/-- The loop of `setTypeConvert`, with the assertion that each element is new. -/
def convertLoop : List Int → SetDict → Option SetDict
  | [], d => some d
  | v :: vs, d => (dictAdd d (createStringObjectFromLongLong v)).bind (convertLoop vs)

/-- To `REDIS_ENCODING_HT`, the only conversion there is. -/
def setTypeConvert (is : Intset) : Option SetObject := do
  let vs ← intsetValues is
  let d ← convertLoop vs []
  return .ht d

/-- The set and whether the value was added; `max` is `server.set_max_intset_entries`. -/
def setTypeAdd (max : Nat) (subject : SetObject) (value : StringObject) :
    Option (SetObject × Bool) :=
  match subject with
  | .ht d =>
    match dictAdd d value with
    | some d => some (.ht d, true)
    | none => some (.ht d, false)
  | .intset is =>
    match isObjectRepresentableAsLongLong value with
    | some llval => do
      let (is, success) ← intsetAdd is llval
      if success then
        if intsetLen is > max then do
          let s ← setTypeConvert is
          return (s, true)
        else return (.intset is, true)
      else return (.intset is, false)
    | none => do
      match ← setTypeConvert is with
      | .ht d => (dictAdd d value).map fun d => (.ht d, true)
      | .intset _ => none

/-- The set and whether the value was removed. -/
def setTypeRemove (setobj : SetObject) (value : StringObject) : Option (SetObject × Bool) :=
  match setobj with
  | .ht d =>
    match dictDelete d value with
    | some d => some (.ht d, true)
    | none => some (.ht d, false)
  | .intset is =>
    match isObjectRepresentableAsLongLong value with
    | some llval => (intsetRemove is llval).map fun r => (.intset r.1, r.2)
    | none => some (.intset is, false)

def setTypeIsMember (subject : SetObject) (value : StringObject) : Option Bool :=
  match subject with
  | .ht d => some (dictFind d value)
  | .intset is =>
    match isObjectRepresentableAsLongLong value with
    | some llval => intsetFind is llval
    | none => some false

/-- `r` is what `rand` gave; the set is not empty. -/
def setTypeRandomElement (setobj : SetObject) (r : Nat) : Option StringObject :=
  match setobj with
  | .ht d => d[r % d.length]?
  | .intset is => (intsetGet is (r % intsetLen is)).bind (Option.map createStringObjectFromLongLong)

end RedisCluster.Sets
