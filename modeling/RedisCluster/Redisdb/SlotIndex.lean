import RedisCluster.Multi.Command
import RedisCluster.Redisdb.RedisDb
import RedisCluster.Util.Sds
import RedisCluster.Zset.Ranges

/-!
# `db.c`: the keys of a slot

Database 0 of a node in cluster mode, the only one that a client can select there, with the skip list
`slots_to_keys`. The scores are hash slots. The level of a new node, which the source draws by chance, is an
argument.
-/

namespace RedisCluster.Redisdb.SlotIndex

open RedisCluster.Util

/-- What `zslRandomLevel` can return. -/
abbrev Level := { level : Nat // 1 ≤ level ∧ level ≤ ZSKIPLIST_MAXLEVEL }

variable {V : Type}

structure SlotDb (V : Type) where
  db : RedisDb V
  slots_to_keys : Zskiplist Nat Bytes
  loading : Bool
  masterhost : Bool

/-! ## The hooks -/

def slotToKeyAdd (zsl : Zskiplist Nat Bytes) (key : Bytes) (level : Level) : Zskiplist Nat Bytes :=
  (zslInsert zsl (Multi.keyHashSlot key) key level).1

def slotToKeyDel (zsl : Zskiplist Nat Bytes) (key : Bytes) : Zskiplist Nat Bytes :=
  (zslDelete zsl (Multi.keyHashSlot key) key).1

def dbAdd (st : SlotDb V) (key : Bytes) (val : V) (level : Level) : Option (SlotDb V) :=
  (Redisdb.dbAdd st.db key val).map fun db =>
    { st with db := db, slots_to_keys := slotToKeyAdd st.slots_to_keys key level }

def dbOverwrite (st : SlotDb V) (key : Bytes) (val : V) : Option (SlotDb V) :=
  if key ∈ st.db.dict then some { st with db := { st.db with dict := st.db.dict.insert key val } } else none

def dbDelete (st : SlotDb V) (key : Bytes) : SlotDb V :=
  let r := Redisdb.dbDelete st.db key
  { st with db := r.1, slots_to_keys := if r.2 then slotToKeyDel st.slots_to_keys key else st.slots_to_keys }

/-- `emptyDb` and FLUSHDB do the same to this database. -/
def emptyDb (st : SlotDb V) : SlotDb V :=
  { st with db := { dict := ∅, expires := ∅ }, slots_to_keys := zslCreate }

/-- A key whose time has passed is deleted, unless the node is loading or a slave. -/
def expireIfNeeded (st : SlotDb V) (key : Bytes) (now : Int) : Option (SlotDb V) :=
  (getExpire st.db key).map fun when =>
    if when < 0 ∨ st.loading ∨ st.masterhost ∨ now ≤ when then st else dbDelete st key

def setExpire (st : SlotDb V) (key : Bytes) (when : Int) : Option (SlotDb V) :=
  (Redisdb.setExpire st.db key when).map fun db => { st with db := db }

/-- `setKey`: the lookup may delete the key; `removeExpire` ends it. -/
def setKey (st : SlotDb V) (key : Bytes) (val : V) (level : Level) (now : Int) : Option (SlotDb V) :=
  (expireIfNeeded st key now).bind fun st =>
    (if key ∈ st.db.dict then dbOverwrite st key val else dbAdd st key val level).map fun st =>
      { st with db := { st.db with expires := st.db.expires.erase key } }

/-! ## The keys of a slot -/

def slotRange (hashslot : Nat) : Zrangespec Nat := { min := hashslot, max := hashslot, minex := false, maxex := false }

/-- The loop of `getKeysInSlot` from the node `n` on, with `count` as it counts down; `j` is an `int`, so there is
no place behind `INT_MAX`. The list has at most `fuel` nodes from `n` on. -/
def keysLoop (zsl : Zskiplist Nat Bytes) (hashslot : Nat) : Nat → Option Nat → Nat → Nat → Option (List Bytes)
  | fuel + 1, some n, count + 1, j =>
    if (zsl.node n).score = hashslot then
      if j ≥ 2 ^ 31 then none
      else
        (keysLoop zsl hashslot fuel (zsl.link n 0).forward count (j + 1)).map ((zsl.node n).obj.getD [] :: ·)
    else some []
  | _, _, _, _ => some []

/-- The keys that are written, `none` for a failed assertion or a write in front of the array. -/
def getKeysInSlot (zsl : Zskiplist Nat Bytes) (hashslot count : Nat) : Option (List Bytes) :=
  match zslFirstInRange zsl (slotRange hashslot) with
  | .error _ => none
  | .ok n => keysLoop zsl hashslot zsl.length n count 0

/-- The loop of `delKeysInSlot`: the next node is read before the key is deleted. -/
def delLoop (hashslot : Nat) : Nat → Option Nat → SlotDb V → SlotDb V
  | fuel + 1, some n, st =>
    if (st.slots_to_keys.node n).score = hashslot then
      delLoop hashslot fuel (st.slots_to_keys.link n 0).forward (dbDelete st ((st.slots_to_keys.node n).obj.getD []))
    else st
  | _, _, st => st

def delKeysInSlot (st : SlotDb V) (hashslot : Nat) : Option (SlotDb V) :=
  match zslFirstInRange st.slots_to_keys (slotRange hashslot) with
  | .error _ => none
  | .ok n => some (delLoop hashslot st.slots_to_keys.length n st)

/-- `rank` and `count` are `int`s, and the result is an `unsigned int`. -/
def countKeysInSlot (zsl : Zskiplist Nat Bytes) (hashslot : Nat) : Option Int :=
  let rankOf := fun zn : Nat => narrowInt (zslGetRank zsl (zsl.node zn).score ((zsl.node zn).obj.getD []))
  match zslFirstInRange zsl (slotRange hashslot) with
  | .error _ => none
  | .ok none => some 0
  | .ok (some zn) =>
    let count := narrowInt (zsl.length - (rankOf zn - 1))
    match zslLastInRange zsl (slotRange hashslot) with
    | none => some (count % 2 ^ 32)
    | some zn => some (narrowInt (count - (zsl.length - rankOf zn)) % 2 ^ 32)

/-! ## Runs -/

inductive Action (V : Type) where
  | dbAdd (key : Bytes) (val : V) (level : Level)
  | dbOverwrite (key : Bytes) (val : V)
  | setKey (key : Bytes) (val : V) (level : Level) (now : Int)
  | setExpire (key : Bytes) (when : Int)
  | dbDelete (key : Bytes)
  | emptyDb
  | expire (key : Bytes) (now : Int)
  | delKeysInSlot (hashslot : Nat)
  | role (loading masterhost : Bool)

def step (st : SlotDb V) : Action V → Option (SlotDb V)
  | .dbAdd key val level => dbAdd st key val level
  | .dbOverwrite key val => dbOverwrite st key val
  | .setKey key val level now => setKey st key val level now
  | .setExpire key when => setExpire st key when
  | .dbDelete key => some (dbDelete st key)
  | .emptyDb => some (emptyDb st)
  | .expire key now => expireIfNeeded st key now
  | .delKeysInSlot hashslot => delKeysInSlot st hashslot
  | .role loading masterhost => some { st with loading := loading, masterhost := masterhost }

def initial : SlotDb V :=
  { db := { dict := ∅, expires := ∅ }, slots_to_keys := zslCreate, loading := false, masterhost := false }

/-! ## What the index should be -/

def keysOf (st : SlotDb V) (hashslot : Nat) : Finset Bytes :=
  st.db.dict.keys.filter fun key => Multi.keyHashSlot key = hashslot

/-- The skip list has one node for each key, with its slot, and no other. -/
def IndexExact (st : SlotDb V) : Prop :=
  ∃ es : List (Nat ×ₗ Bytes), (levelNodes st.slots_to_keys 0).map (nodeElem st.slots_to_keys) = es.map some ∧
    es.Nodup ∧ ∀ e, e ∈ es ↔ (ofLex e).2 ∈ st.db.dict ∧ (ofLex e).1 = Multi.keyHashSlot (ofLex e).2

/-- The three functions read and remove the keys of the slot. -/
structure SlotReads (st : SlotDb V) (hashslot : Nat) : Prop where
  count : countKeysInSlot st.slots_to_keys hashslot = some ((keysOf st hashslot).card : Int)
  get : ∀ n, ∃ keys, getKeysInSlot st.slots_to_keys hashslot n = some keys ∧ keys.Nodup ∧
    (∀ key ∈ keys, key ∈ keysOf st hashslot) ∧ keys.length = min n (keysOf st hashslot).card
  del : ∃ st', delKeysInSlot st hashslot = some st' ∧ IndexExact st' ∧
    ∀ key, st'.db.dict.lookup key = if key ∈ keysOf st hashslot then none else st.db.dict.lookup key

/-- No link of the index passes `2 ^ 32` nodes, and no slot has more keys than `int` counts. -/
def IndexFits (st : SlotDb V) : Prop :=
  GapsFit st.slots_to_keys ∧ ∀ hashslot, (keysOf st hashslot).card ≤ 2 ^ 31

end RedisCluster.Redisdb.SlotIndex
