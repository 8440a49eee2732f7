import RedisCluster.Lib.Bytes
import RedisCluster.Lib.Ring
import RedisCluster.Lib.Run
import RedisCluster.Util.Strings
import Mathlib.Data.Finmap

/-!
# `zipmap.c`

A zipmap is its bytes, and a pointer into it an offset; `none` stands for an access outside of the block or a
loop without an end. Lengths are `unsigned int`. The bytes that `zrealloc` adds have no defined content; they
are 0 here.
-/

namespace RedisCluster.Zipmap

open RedisCluster.Lib
open RedisCluster.Util

def ZIPMAP_BIGLEN : Nat := 254
def ZIPMAP_END : UInt8 := 255
def ZIPMAP_VALUE_MAX_FREE : Nat := 4

def uint (n : Nat) : Nat := n % 2 ^ 32

/-! ## Memory -/

def store (zm : Bytes) (p : Nat) (bs : Bytes) : Option Bytes :=
  if p + bs.length ≤ zm.length then some (overwriteAt zm p bs) else none

def memmove (zm : Bytes) (dst src n : Nat) : Option Bytes :=
  if src + n ≤ zm.length then store zm dst ((zm.drop src).take n) else none

def zipmapResize (zm : Bytes) (len : Nat) : Option Bytes :=
  store ((zm ++ List.replicate (len - zm.length) 0).take len) (len - 1) [ZIPMAP_END]

/-! ## Lengths -/

def zipmapNew : Bytes := [0, ZIPMAP_END]

def ZIPMAP_LEN_BYTES (l : Nat) : Nat := if l < ZIPMAP_BIGLEN then 1 else 5

def zipmapDecodeLength (p : Bytes) : Option Nat :=
  match p with
  | [] => none
  | b :: q =>
    if b.toNat < ZIPMAP_BIGLEN then some b.toNat
    else if q.length < 4 then none
    else some (leNat (q.take 4))

/-- The bytes that `zipmapEncodeLength` writes. -/
def zipmapEncodeLength (len : Nat) : Bytes :=
  if len < ZIPMAP_BIGLEN then [UInt8.ofNat len] else 254 :: leBytes 4 len

def zipmapRequiredLength (klen vlen : Nat) : Nat :=
  let l := uint (klen + vlen + 3)
  let l := if klen ≥ ZIPMAP_BIGLEN then uint (l + 4) else l
  if vlen ≥ ZIPMAP_BIGLEN then uint (l + 4) else l

def zipmapRawKeyLength (p : Bytes) : Option Nat :=
  (zipmapDecodeLength p).map fun l => uint (ZIPMAP_LEN_BYTES l + l)

def zipmapRawValueLength (p : Bytes) : Option Nat :=
  (zipmapDecodeLength p).bind fun l =>
    p[ZIPMAP_LEN_BYTES l]?.map fun free => uint (ZIPMAP_LEN_BYTES l + (free.toNat + 1 + l))

def zipmapRawEntryLength (p : Bytes) : Option Nat :=
  (zipmapRawKeyLength p).bind fun l =>
    (zipmapRawValueLength (p.drop l)).map fun v => uint (l + v)

/-! ## Lookups -/

/-- The offset behind the entry at `p`, whose key has `l` bytes. -/
def skipEntry (zm : Bytes) (p l : Nat) : Option Nat :=
  let p := p + uint (ZIPMAP_LEN_BYTES l + l)
  (zipmapDecodeLength (zm.drop p)).bind fun l =>
    let p := p + ZIPMAP_LEN_BYTES l
    zm[p]?.map fun free => p + uint (l + 1 + free.toNat)

/-- Whether the key at `p`, of `l` bytes, is this one. -/
def keyIs (zm key : Bytes) (p l : Nat) : Bool :=
  l = key.length ∧ (zm.drop (p + ZIPMAP_LEN_BYTES l)).take l = key

/-- The loop of `zipmapLookupRaw`, from `p` on with the entry `k` that was found before. `key` is `none` for
NULL. Without `totlen` the first entry that is found is returned. -/
def lookupLoop (zm : Bytes) (key : Option Bytes) (totlen : Bool) (p : Nat) (k : Option Nat) :
    Option (Option Nat × Nat) :=
  if h : p < zm.length then
    if zm[p] = ZIPMAP_END then some (k, p)
    else
      (zipmapDecodeLength (zm.drop p)).bind fun l =>
        let found := k.isNone && key.any fun key => keyIs zm key p l
        if found && !totlen then some (some p, p)
        else
          (skipEntry zm p l).bind fun next =>
            if hnext : p < next then lookupLoop zm key totlen next (if found then some p else k) else none
  else none
termination_by zm.length - p

/-- The entry of the key, if there is one, and `totlen`. -/
def zipmapLookupRaw (zm : Bytes) (key : Option Bytes) (totlen : Bool) : Option (Option Nat × Nat) :=
  (lookupLoop zm key totlen 1 none).map fun r => (r.1, uint (r.2 + 1))

def zipmapGet (zm key : Bytes) : Option (Option Bytes) :=
  (zipmapLookupRaw zm (some key) false).bind fun r =>
    match r.1 with
    | none => some none
    | some p => do
      let l ← zipmapRawKeyLength (zm.drop p)
      let p := p + l
      let vlen ← zipmapDecodeLength (zm.drop p)
      return some ((zm.drop (p + ZIPMAP_LEN_BYTES vlen + 1)).take vlen)

def zipmapExists (zm key : Bytes) : Option Bool :=
  (zipmapLookupRaw zm (some key) false).map fun r => r.1.isSome

def zipmapBlobLen (zm : Bytes) : Option Nat := (zipmapLookupRaw zm none true).map Prod.snd

/-! ## Iteration -/

/-- What `zipmapNext` gives out: the next entry, the key, the value, and the byte in front of the value. -/
structure Item where
  next : Nat
  key : Bytes
  value : Bytes
  free : UInt8
  deriving DecidableEq, Repr

def zipmapNext (zm : Bytes) (p : Nat) : Option (Option Item) := do
  let b ← zm[p]?
  if b = ZIPMAP_END then return none
  else
    let klen ← zipmapDecodeLength (zm.drop p)
    let key := (zm.drop (p + ZIPMAP_LEN_BYTES klen)).take klen
    let rawKey ← zipmapRawKeyLength (zm.drop p)
    let v := p + rawKey
    let vlen ← zipmapDecodeLength (zm.drop v)
    let free ← zm[v + ZIPMAP_LEN_BYTES vlen]?
    let value := (zm.drop (v + 1 + ZIPMAP_LEN_BYTES vlen)).take vlen
    let rawValue ← zipmapRawValueLength (zm.drop v)
    return some { next := v + rawValue, key := key, value := value, free := free }

/-- A loop that calls `zipmapNext` until it returns NULL. -/
def iterate (zm : Bytes) (p : Nat) : Option (List Item) :=
  match zipmapNext zm p with
  | none => none
  | some none => some []
  | some (some i) =>
    if p < i.next ∧ i.next < zm.length then (iterate zm i.next).map (i :: ·) else none
termination_by zm.length - p
decreasing_by omega

def zipmapRewind : Nat := 1

/-- The zipmap, in which the count may be set again, and the length. -/
def zipmapLen (zm : Bytes) : Option (Bytes × Nat) :=
  zm.head?.bind fun n =>
    if n.toNat < ZIPMAP_BIGLEN then some (zm, n.toNat)
    else
      (iterate zm zipmapRewind).map fun items =>
        (if items.length < ZIPMAP_BIGLEN then zm.set 0 (UInt8.ofNat items.length) else zm, items.length)

/-! ## Changes -/

/-- The room of `freelen` bytes that `zipmapSet` has for the entry. -/
structure Room where
  zm : Bytes
  p : Nat
  zmlen : Nat
  freelen : Nat
  deriving DecidableEq, Repr

def appendRoom (zm : Bytes) (zmlen reqlen : Nat) : Option Room := do
  let zm ← zipmapResize zm (uint (zmlen + reqlen))
  let n ← zm.head?
  return {
    zm := if n.toNat < ZIPMAP_BIGLEN then zm.set 0 (n + 1) else zm
    p := zmlen - 1
    zmlen := uint (zmlen + reqlen)
    freelen := reqlen }

/-- The entry at `p`, made larger if it has to be. -/
def updateRoom (zm : Bytes) (p zmlen reqlen : Nat) : Option Room := do
  let freelen ← zipmapRawEntryLength (zm.drop p)
  if freelen < reqlen then
    let zm ← zipmapResize zm (uint (zmlen - freelen + reqlen))
    let zm ← memmove zm (p + reqlen) (p + freelen) (zmlen - (p + freelen + 1))
    return { zm := zm, p := p, zmlen := uint (zmlen - freelen + reqlen), freelen := reqlen }
  else return { zm := zm, p := p, zmlen := zmlen, freelen := freelen }

/-- The zipmap and `vempty`: too much room is given back. -/
def trim (r : Room) (reqlen : Nat) : Option (Bytes × Nat) :=
  let empty := r.freelen - reqlen
  if empty ≥ ZIPMAP_VALUE_MAX_FREE then do
    let zm ← memmove r.zm (r.p + reqlen) (r.p + r.freelen) (r.zmlen - (r.p + r.freelen + 1))
    let zm ← zipmapResize zm (r.zmlen - empty)
    return (zm, 0)
  else some (r.zm, empty)

/-- The bytes that are written of an entry, one after the other. -/
def entryBytes (key val : Bytes) (vempty : Nat) : Bytes :=
  zipmapEncodeLength key.length ++ (key ++ (zipmapEncodeLength val.length ++ (UInt8.ofNat vempty :: val)))

def writeEntry (zm : Bytes) (p : Nat) (key val : Bytes) (vempty : Nat) : Option Bytes :=
  store zm p (entryBytes key val vempty)

def zipmapSet (zm key val : Bytes) : Option Bytes := do
  let reqlen := zipmapRequiredLength key.length val.length
  let (found, zmlen) ← zipmapLookupRaw zm (some key) true
  let r ← match found with
    | none => appendRoom zm zmlen reqlen
    | some p => updateRoom zm p zmlen reqlen
  let (zm, vempty) ← trim r reqlen
  writeEntry zm r.p key val vempty

def zipmapDel (zm key : Bytes) : Option Bytes := do
  let (found, zmlen) ← zipmapLookupRaw zm (some key) true
  match found with
  | none => return zm
  | some p =>
    let freelen ← zipmapRawEntryLength (zm.drop p)
    let zm ← memmove zm p (p + freelen) (zmlen - (p + freelen + 1))
    let zm ← zipmapResize zm (zmlen - freelen)
    let n ← zm.head?
    return if n.toNat < ZIPMAP_BIGLEN then zm.set 0 (n - 1) else zm

/-! ## Sequences of calls -/

inductive Op where
  | set (key val : Bytes)
  | del (key : Bytes)
  /-- `zipmapLen`, which may write the count. -/
  | len
  deriving DecidableEq, Repr

def perform (zm : Bytes) : Op → Option Bytes
  | .set key val => zipmapSet zm key val
  | .del key => zipmapDel zm key
  | .len => (zipmapLen zm).map Prod.fst

def performs (zm : Bytes) (ops : List Op) : Option Bytes := ops.foldlM perform zm

/-- The bytes of an entry of which none are free. -/
def entrySize (klen vlen : Nat) : Nat := ZIPMAP_LEN_BYTES klen + (klen + (ZIPMAP_LEN_BYTES vlen + (1 + vlen)))

/-- The bytes that the entry of the key takes now. -/
def occupied (zm key : Bytes) : Nat :=
  match zipmapLookupRaw zm (some key) true with
  | some (some p, _) => (zipmapRawEntryLength (zm.drop p)).getD 0
  | _ => 0

/-- With the new entry the zipmap has less than 4 GB. -/
def Fits (zm : Bytes) : Op → Prop
  | .set key val => zm.length - occupied zm key + entrySize key.length val.length < 2 ^ 32
  | _ => True

/-! ## The map -/

/-- What a zipmap stands for. -/
abbrev Map : Type := Finmap fun _ : Bytes => Bytes

def Map.step (m : Map) : Op → Map
  | .set key val => m.insert key val
  | .del key => m.erase key
  | .len => m

/-- The zipmap shows the map through each of its functions, and no value has much free space behind it. -/
structure Faithful (zm : Bytes) (m : Map) : Prop where
  iterates : ∃ items, iterate zm zipmapRewind = some items ∧ (items.map Item.key).Nodup ∧
    (∀ key val, (∃ i ∈ items, i.key = key ∧ i.value = val) ↔ m.lookup key = some val) ∧
    ∀ i ∈ items, i.free.toNat < ZIPMAP_VALUE_MAX_FREE
  get_eq : ∀ key, zipmapGet zm key = some (m.lookup key)
  exists_eq : ∀ key, zipmapExists zm key = some (m.lookup key).isSome
  len_eq : (zipmapLen zm).map Prod.snd = some m.keys.card
  blobLen_eq : zipmapBlobLen zm = some zm.length

end RedisCluster.Zipmap
