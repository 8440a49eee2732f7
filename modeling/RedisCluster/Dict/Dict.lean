import Mathlib.Data.UInt
import RedisCluster.Lib.Buckets

/-!
# `dict.c`: the hash table with incremental rehashing

A bucket array is a function from bucket numbers to chains, so that a table of any size can be
allocated; buckets that `zcalloc` did not allocate stay empty. `hashFunction` of the `dictType` is
the parameter `hash`, and keys are compared by equality. `dict_can_resize` is a global of the source
that `dictEnableResize` and `dictDisableResize` switch; every operation takes its value.
-/

namespace RedisCluster

open RedisCluster.Lib

variable {K V : Type}

def DICT_HT_INITIAL_SIZE : Nat := 4

def LONG_MAX : Nat := 2 ^ 63 - 1

def dict_force_resize_ratio : Nat := 5

structure DictEntry (K V : Type) where
  key : K
  val : V
  deriving DecidableEq, Repr

/-- One table: `size` is the number of buckets (0 while `table` is NULL). -/
structure Dictht (K V : Type) where
  table : Nat → List (DictEntry K V)
  size : Nat
  sizemask : Nat
  used : Nat

structure Dict (K V : Type) where
  ht0 : Dictht K V
  ht1 : Dictht K V
  /-- -1 when no rehash is in progress. -/
  rehashidx : Int
  /-- The number of running safe iterators. -/
  iterators : Int

def _dictReset : Dictht K V := { table := fun _ => [], size := 0, sizemask := 0, used := 0 }

def dictCreate : Dict K V :=
  { ht0 := _dictReset, ht1 := _dictReset, rehashidx := -1, iterators := 0 }

def dictIsRehashing (d : Dict K V) : Bool := d.rehashidx != -1

def dictSize (d : Dict K V) : Nat := d.ht0.used + d.ht1.used

/-- The doubling loop of `_dictNextPower`, started at `i`. -/
def nextPowerFrom (size : Nat) : Nat → Nat → Nat
  | 0, i => i
  | fuel + 1, i => if size ≤ i then i else nextPowerFrom size fuel (i * 2)

/-- The loop ends within 64 doublings, as `size` is below `LONG_MAX`. -/
def _dictNextPower (size : Nat) : Nat :=
  if size ≥ LONG_MAX then LONG_MAX else nextPowerFrom size 64 DICT_HT_INITIAL_SIZE

/-- The table `n` of `dictExpand`, with `realsize` buckets from `zcalloc`. -/
def newTable (realsize : Nat) : Dictht K V :=
  { table := fun _ => [], size := realsize, sizemask := realsize - 1, used := 0 }

def dictExpand (d : Dict K V) (size : Nat) : Dict K V × Bool :=
  let realsize := _dictNextPower size
  if dictIsRehashing d || decide (d.ht0.used > size) then (d, false)
  -- the first initialization: `table` is NULL
  else if d.ht0.size = 0 then ({ d with ht0 := newTable realsize }, true)
  else ({ d with ht1 := newTable realsize, rehashidx := 0 }, true)

/-- `int minimal = d->ht[0].used`: the low 32 bits, read as a signed number. -/
def toInt32 (n : Nat) : Int :=
  if n % 2 ^ 32 < 2 ^ 31 then ((n % 2 ^ 32 : Nat) : Int)
  else ((n % 2 ^ 32 : Nat) : Int) - 2 ^ 32

/-- The size that `dictResize` asks `dictExpand` for. -/
def resizeRequest (d : Dict K V) : Nat :=
  let minimal := toInt32 d.ht0.used
  if minimal < DICT_HT_INITIAL_SIZE then DICT_HT_INITIAL_SIZE else minimal.toNat

def dictResize (canResize : Bool) (d : Dict K V) : Dict K V × Bool :=
  if !canResize || dictIsRehashing d then (d, false) else dictExpand d (resizeRequest d)

/-! ## Rehashing -/

/-- `while(d->ht[0].table[d->rehashidx] == NULL) d->rehashidx++`, for at most `fuel` buckets. -/
def skipEmpty (t : Dictht K V) : Nat → Nat → Nat
  | 0, i => i
  | fuel + 1, i => if (t.table i).isEmpty then skipEmpty t fuel (i + 1) else i

def Dictht.push (t : Dictht K V) (h : Nat) (de : DictEntry K V) : Dictht K V :=
  { t with table := Function.update t.table h (de :: t.table h), used := t.used + 1 }

/-- The bucket of a key in a table: `dictHashKey(d, key) & sizemask`. -/
def Dictht.bucketOf (hash : K → UInt32) (t : Dictht K V) (k : K) : Nat :=
  (hash k).toNat &&& t.sizemask

/-- The inner loop of `dictRehash`: the chain `des` goes entry by entry from `ht[0]` to `ht[1]`. -/
def moveChain (hash : K → UInt32) : List (DictEntry K V) → Dict K V → Dict K V
  | [], d => d
  | de :: des, d =>
    moveChain hash des
      { d with
        ht0 := { d.ht0 with used := d.ht0.used - 1 }
        ht1 := d.ht1.push (d.ht1.bucketOf hash de.key) de }

/-- One iteration of `dictRehash` while `ht[0].used > 0`: the first non-empty bucket at or after
`rehashidx` moves to `ht[1]`. -/
def rehashBucket (hash : K → UInt32) (d : Dict K V) : Dict K V :=
  let i := skipEmpty d.ht0 (d.ht0.size - d.rehashidx.toNat) d.rehashidx.toNat
  let d := moveChain hash (d.ht0.table i) d
  { d with ht0 := { d.ht0 with table := Function.update d.ht0.table i [] }, rehashidx := (i : Int) + 1 }

/-- `ht[0].used` is 0: the new table takes the place of the old one. -/
def rehashDone (d : Dict K V) : Dict K V :=
  { d with ht0 := d.ht1, ht1 := _dictReset, rehashidx := -1 }

/-- The loop `while(n--)` of `dictRehash`. -/
def rehashLoop (hash : K → UInt32) : Nat → Dict K V → Dict K V × Bool
  | 0, d => (d, true)
  | n + 1, d =>
    if d.ht0.used = 0 then (rehashDone d, false) else rehashLoop hash n (rehashBucket hash d)

def dictRehash (hash : K → UInt32) (d : Dict K V) (n : Nat) : Dict K V × Bool :=
  if !dictIsRehashing d then (d, false) else rehashLoop hash n d

def _dictRehashStep (hash : K → UInt32) (d : Dict K V) : Dict K V :=
  if d.iterators = 0 then (dictRehash hash d 1).1 else d

/-- `if (dictIsRehashing(d)) _dictRehashStep(d)`, the first step of adding, finding and deleting. -/
def rehashStepIfNeeded (hash : K → UInt32) (d : Dict K V) : Dict K V :=
  if dictIsRehashing d then _dictRehashStep hash d else d

/-! ## Adding -/

/-- The size `_dictExpandIfNeeded` asks `dictExpand` for, if it does. -/
def expandRequest (canResize : Bool) (d : Dict K V) : Option Nat :=
  if dictIsRehashing d then none
  else if d.ht0.size = 0 then some DICT_HT_INITIAL_SIZE
  else if d.ht0.used ≥ d.ht0.size &&
      (canResize || decide (d.ht0.used / d.ht0.size > dict_force_resize_ratio)) then
    some (d.ht0.used * 2)
  else none

def _dictExpandIfNeeded (canResize : Bool) (d : Dict K V) : Dict K V × Bool :=
  match expandRequest canResize d with
  | none => (d, true)
  | some size => dictExpand d size

section
variable [DecidableEq K]

/-- The entry of a chain that holds the key. -/
def chainFind (k : K) (l : List (DictEntry K V)) : Option (DictEntry K V) :=
  l.find? (fun e => e.key = k)

/-- The bucket number of a new entry before it is returned as an `int`. -/
def freeBucket (hash : K → UInt32) (d : Dict K V) (k : K) : Nat :=
  if dictIsRehashing d then d.ht1.bucketOf hash k else d.ht0.bucketOf hash k

/-- The key is in a chain that `_dictKeyIndex` looks through. -/
def keyPresent (hash : K → UInt32) (d : Dict K V) (k : K) : Bool :=
  (chainFind k (d.ht0.table (d.ht0.bucketOf hash k))).isSome ||
    (dictIsRehashing d && (chainFind k (d.ht1.table (d.ht1.bucketOf hash k))).isSome)

/-- The `unsigned int idx` comes back through the return type `int`; -1 says the key is there. -/
def _dictKeyIndex (hash : K → UInt32) (canResize : Bool) (d : Dict K V) (k : K) :
    Dict K V × Int :=
  let r := _dictExpandIfNeeded canResize d
  if !r.2 then (r.1, -1)
  else if keyPresent hash r.1 k then (r.1, -1)
  else (r.1, toInt32 (freeBucket hash r.1 k))

/-- `dictAddRaw` and `dictSetVal`. The new entry goes into `ht[1]` while rehashing. A negative index
other than -1 is outside the table; the model writes it where `ht->table[index]` would point, to a
bucket that no lookup visits. -/
def dictAdd (hash : K → UInt32) (canResize : Bool) (d : Dict K V) (k : K) (v : V) :
    Dict K V × Bool :=
  let d := rehashStepIfNeeded hash d
  let r := _dictKeyIndex hash canResize d k
  if r.2 = -1 then (r.1, false)
  else
    let index := (r.2 % 2 ^ 61).toNat
    let de : DictEntry K V := { key := k, val := v }
    if dictIsRehashing r.1 then ({ r.1 with ht1 := r.1.ht1.push index de }, true)
    else ({ r.1 with ht0 := r.1.ht0.push index de }, true)

/-! ## Finding, replacing and deleting -/

/-- The lookup itself, after the incremental rehash step. -/
def findEntry (hash : K → UInt32) (d : Dict K V) (k : K) : Option (DictEntry K V) :=
  match chainFind k (d.ht0.table (d.ht0.bucketOf hash k)) with
  | some e => some e
  | none =>
    if dictIsRehashing d then chainFind k (d.ht1.table (d.ht1.bucketOf hash k)) else none

def dictFind (hash : K → UInt32) (d : Dict K V) (k : K) : Dict K V × Option (DictEntry K V) :=
  if d.ht0.size = 0 then (d, none)
  else
    let d := rehashStepIfNeeded hash d
    (d, findEntry hash d k)

/-- `dictSetVal` on the entry of `k` in one table. -/
def Dictht.setVal (hash : K → UInt32) (t : Dictht K V) (k : K) (v : V) : Dictht K V :=
  let h := t.bucketOf hash k
  { t with
    table := Function.update t.table h
      ((t.table h).map fun e => if e.key = k then { e with val := v } else e) }

/-- Overwrite the value of the entry that `dictFind` returned: in `ht[0]` if the key is there. -/
def setFound (hash : K → UInt32) (d : Dict K V) (k : K) (v : V) : Dict K V :=
  if (chainFind k (d.ht0.table (d.ht0.bucketOf hash k))).isSome then
    { d with ht0 := d.ht0.setVal hash k v }
  else { d with ht1 := d.ht1.setVal hash k v }

/-- True when the key was added, false when its value was overwritten. -/
def dictReplace (hash : K → UInt32) (canResize : Bool) (d : Dict K V) (k : K) (v : V) :
    Dict K V × Bool :=
  let r := dictAdd hash canResize d k v
  if r.2 then (r.1, true)
  else (setFound hash (dictFind hash r.1 k).1 k v, false)

/-- Unlink the first entry of the chain that holds the key. -/
def chainErase (k : K) (l : List (DictEntry K V)) : List (DictEntry K V) :=
  l.eraseP (fun e => e.key = k)

def Dictht.unlink (hash : K → UInt32) (t : Dictht K V) (k : K) : Dictht K V :=
  let h := t.bucketOf hash k
  { t with table := Function.update t.table h (chainErase k (t.table h)), used := t.used - 1 }

def dictDelete (hash : K → UInt32) (d : Dict K V) (k : K) : Dict K V × Bool :=
  if d.ht0.size = 0 then (d, false)
  else
    let d := rehashStepIfNeeded hash d
    if (chainFind k (d.ht0.table (d.ht0.bucketOf hash k))).isSome then
      ({ d with ht0 := d.ht0.unlink hash k }, true)
    else if dictIsRehashing d &&
        (chainFind k (d.ht1.table (d.ht1.bucketOf hash k))).isSome then
      ({ d with ht1 := d.ht1.unlink hash k }, true)
    else (d, false)

end

/-! ## Safe iterators -/

/-- A safe iterator: `entry` is the entry returned last and `nextEntry` the rest of its chain as it
was when the entry was returned. -/
structure DictIterator (K V : Type) where
  index : Int
  table : Nat
  entry : Option (DictEntry K V)
  nextEntry : List (DictEntry K V)

def dictGetSafeIterator : DictIterator K V :=
  { index := -1, table := 0, entry := none, nextEntry := [] }

/-- The loop of `dictNext` once the chain of the current bucket is exhausted: the next non-empty
bucket, going over to `ht[1]` at the end of `ht[0]` while rehashing. -/
def nextBucket (d : Dict K V) : Nat → DictIterator K V → DictIterator K V
  | 0, it => { it with entry := none, nextEntry := [] }
  | fuel + 1, it =>
    let ht := if it.table = 0 then d.ht0 else d.ht1
    let index := it.index + 1
    -- `iter->index >= (signed) ht->size`
    if index ≥ toInt32 ht.size then
      if dictIsRehashing d && it.table == 0 then
        match d.ht1.table 0 with
        | e :: es => { index := 0, table := 1, entry := some e, nextEntry := es }
        | [] => nextBucket d fuel { it with index := 0, table := 1 }
      else { it with index := index, entry := none, nextEntry := [] }
    else
      match ht.table index.toNat with
      | e :: es => { it with index := index, entry := some e, nextEntry := es }
      | [] => nextBucket d fuel { it with index := index }

/-- The first call on a safe iterator counts it in `iterators`. -/
def dictNext (d : Dict K V) (it : DictIterator K V) : Dict K V × DictIterator K V :=
  match it.entry, it.nextEntry with
  | some _, e :: es => (d, { it with entry := some e, nextEntry := es })
  | _, _ =>
    let d := if it.index = -1 ∧ it.table = 0 then { d with iterators := d.iterators + 1 } else d
    (d, nextBucket d (d.ht0.size + d.ht1.size + 1) it)

def dictReleaseIterator (d : Dict K V) (it : DictIterator K V) : Dict K V :=
  if it.index = -1 ∧ it.table = 0 then d else { d with iterators := d.iterators - 1 }

end RedisCluster
