import Mathlib.Data.Finmap
import RedisCluster.Aof.Format

/-!
# `db.c`: the dict of the values and the dict of the expire times

A database as the source keeps it, with both dicts. A function has no result where an assertion fails: an
entry of `expires` without a key in `dict`, or `dbAdd` of a key that is there. The clock is read at each
lookup; in a script the readings are all the same.
-/

namespace RedisCluster.Redisdb

open RedisCluster.Util

/-- A dict with the keys of a database. -/
abbrev Dict (α : Type) := Finmap fun _ : Bytes => α

variable {V : Type}

structure RedisDb (V : Type) where
  dict : Dict V
  expires : Dict Int

structure Server (V : Type) where
  db : Nat → RedisDb V
  dbnum : Nat
  cluster_enabled : Bool
  loading : Bool
  /-- `masterhost != NULL`. -/
  masterhost : Bool
  dirty : Nat

def Server.setDb (s : Server V) (dbid : Nat) (db : RedisDb V) : Server V :=
  { s with db := Function.update s.db dbid db }

/-! ## One database -/

def lookupKey (db : RedisDb V) (key : Bytes) : Option V := db.dict.lookup key

def dbAdd (db : RedisDb V) (key : Bytes) (val : V) : Option (RedisDb V) :=
  if key ∈ db.dict then none else some { db with dict := db.dict.insert key val }

/-- The second result says that the key was there. -/
def dbDelete (db : RedisDb V) (key : Bytes) : RedisDb V × Bool :=
  ({ dict := db.dict.erase key, expires := db.expires.erase key }, decide (key ∈ db.dict))

def setExpire (db : RedisDb V) (key : Bytes) (when : Int) : Option (RedisDb V) :=
  if key ∈ db.dict then some { db with expires := db.expires.insert key when } else none

def getExpire (db : RedisDb V) (key : Bytes) : Option Int :=
  match db.expires.lookup key with
  | none => some (-1)
  | some when => if key ∈ db.dict then some when else none

/-! ## Lookups -/

def expireIfNeeded (s : Server V) (dbid : Nat) (key : Bytes) (now : Int) : Option (Server V × Bool) :=
  (getExpire (s.db dbid) key).map fun when =>
    if when < 0 then (s, false)
    else if s.loading then (s, false)
    else if s.masterhost then (s, decide (now > when))
    else if now ≤ when then (s, false)
    else
      let r := dbDelete (s.db dbid) key
      (s.setDb dbid r.1, r.2)

def lookupKeyWrite (s : Server V) (dbid : Nat) (key : Bytes) (now : Int) : Option (Server V × Option V) :=
  (expireIfNeeded s dbid key now).map fun r => (r.1, lookupKey (r.1.db dbid) key)

/-! ## RENAME, RENAMENX and MOVE -/

inductive Reply where
  | sameobjecterr
  | nokeyerr
  | czero
  | cone
  | ok
  | outofrangeerr
  | notInClusterMode
  deriving DecidableEq, Repr

/-- Both halves of the entry are carried over. -/
def renameEntry (db : RedisDb V) (key newkey : Bytes) (o : V) (expire : Int) : Option (RedisDb V) :=
  (dbAdd db newkey o).bind fun db =>
    (if expire ≠ -1 then setExpire db newkey expire else some db).map fun db => (dbDelete db key).1

/-- `now` and `now'` are the clock at the two lookups. -/
def renameGenericCommand (s : Server V) (dbid : Nat) (key newkey : Bytes) (nx : Bool) (now now' : Int) :
    Option (Server V × Reply) :=
  if key = newkey then some (s, .sameobjecterr)
  else
    (lookupKeyWrite s dbid key now).bind fun (s, o) =>
      match o with
      | none => some (s, .nokeyerr)
      | some o =>
        (getExpire (s.db dbid) key).bind fun expire =>
          (lookupKeyWrite s dbid newkey now').bind fun (s, old) =>
            if old.isSome && nx then some (s, .czero)
            else
              let db := if old.isSome then (dbDelete (s.db dbid) newkey).1 else s.db dbid
              (renameEntry db key newkey o expire).map fun db =>
                ({ s.setDb dbid db with dirty := s.dirty + 1 }, if nx then .cone else .ok)

/-- The client has selected the database `srcid`. -/
def moveCommand (s : Server V) (srcid : Nat) (key id : Bytes) (now now' : Int) : Option (Server V × Reply) :=
  let dstid := Aof.atoi id
  if s.cluster_enabled then some (s, .notInClusterMode)
  else if dstid < 0 ∨ dstid ≥ s.dbnum then some (s, .outofrangeerr)
  else if dstid = srcid then some (s, .sameobjecterr)
  else
    (lookupKeyWrite s srcid key now).bind fun (s, o) =>
      match o with
      | none => some (s, .czero)
      | some o =>
        (lookupKeyWrite s dstid.toNat key now').bind fun (s, old) =>
          if old.isSome then some (s, .czero)
          else
            (dbAdd (s.db dstid.toNat) key o).map fun db =>
              let s := s.setDb dstid.toNat db
              let s := s.setDb srcid (dbDelete (s.db srcid) key).1
              ({ s with dirty := s.dirty + 1 }, .cone)

/-! ## RANDOMKEY -/

/-- What `dictGetRandomKey` finds at its calls. -/
structure Choices (V : Type) where
  key : Nat → Dict V → Option Bytes
  key_none : ∀ i d, key i d = none ↔ d = ∅
  key_mem : ∀ i d k, key i d = some k → k ∈ d

/-- The clock at the turns of a loop. -/
structure Clock where
  now : Nat → Int
  mono : ∀ i j, i ≤ j → now i ≤ now j
  nonneg : 0 ≤ now 0

/-- The loop of `dbRandomKey` from its turn `i` on, for at most `fuel` turns: the key, if any, and the turn
that it was found at. -/
def randomKeyLoop (choices : Choices V) (clock : Clock) (dbid : Nat) : Nat → Nat → Server V →
    Option (Server V × Option Bytes × Nat)
  | 0, _, _ => none
  | fuel + 1, i, s =>
    match choices.key i (s.db dbid).dict with
    | none => some (s, none, i)
    | some key =>
      if key ∈ (s.db dbid).expires then
        match expireIfNeeded s dbid key (clock.now i) with
        | none => none
        | some (s, true) => randomKeyLoop choices clock dbid fuel (i + 1) s
        | some (s, false) => some (s, some key, i)
      else some (s, some key, i)

def dbRandomKey (choices : Choices V) (clock : Clock) (dbid fuel : Nat) (s : Server V) :
    Option (Server V × Option Bytes × Nat) :=
  randomKeyLoop choices clock dbid fuel 0 s

/-! ## What the commands should do -/

/-- Every entry of `expires` has a key in `dict`. -/
def RedisDb.WF (db : RedisDb V) : Prop := ∀ key, key ∈ db.expires → key ∈ db.dict

/-- A server whose databases are in order. -/
structure Keyspace (V : Type) where
  server : Server V
  wf : ∀ dbid, (server.db dbid).WF

/-- The value and the expire time of a key. -/
def RedisDb.entry (db : RedisDb V) (key : Bytes) : Option V × Option Int :=
  (db.dict.lookup key, db.expires.lookup key)

/-- The expire time of the key has passed. -/
def Past (db : RedisDb V) (key : Bytes) (now : Int) : Prop := ∃ when, db.expires.lookup key = some when ∧ when < now

/-- A lookup removes keys that are past their time and whose time is not negative. -/
def Removes (s : Server V) (dbid : Nat) (key : Bytes) (now : Int) : Prop :=
  s.loading = false ∧ s.masterhost = false ∧
    ∃ when, (s.db dbid).expires.lookup key = some when ∧ 0 ≤ when ∧ when < now

def Present (s : Server V) (dbid : Nat) (key : Bytes) (now : Int) : Prop :=
  key ∈ (s.db dbid).dict ∧ ¬ Removes s dbid key now

/-- Nothing has changed, but that the lookup may have removed `key`. -/
def Untouched (s s' : Server V) (dbid : Nat) (key : Bytes) (now : Int) : Prop :=
  (∀ j k, (j, k) ≠ (dbid, key) → (s'.db j).entry k = (s.db j).entry k) ∧
    ((s'.db dbid).entry key = (s.db dbid).entry key ∨
      Removes s dbid key now ∧ (s'.db dbid).entry key = (none, none))

/-- The entry of one key has become the one of the other, and no other key has changed. -/
def Transferred (s s' : Server V) (srcid : Nat) (key : Bytes) (dstid : Nat) (newkey : Bytes) : Prop :=
  (s.db srcid).dict.lookup key ≠ none ∧ (s'.db dstid).entry newkey = (s.db srcid).entry key ∧
    (s'.db srcid).entry key = (none, none) ∧
    ∀ j k, (j, k) ≠ (srcid, key) → (j, k) ≠ (dstid, newkey) → (s'.db j).entry k = (s.db j).entry k

/-- No assertion fails, the databases stay in order, and the entry is transferred or nothing changes. -/
def RenameExact (s : Keyspace V) (dbid : Nat) (key newkey : Bytes) (nx : Bool) (now now' : Int) : Prop :=
  ∃ s' reply, renameGenericCommand s.server dbid key newkey nx now now' = some (s', reply) ∧
    (∀ j, (s'.db j).WF) ∧
    (Untouched s.server s' dbid key now ∨ Transferred s.server s' dbid key dbid newkey)

def MoveExact (s : Keyspace V) (srcid : Nat) (key id : Bytes) (now now' : Int) : Prop :=
  ∃ s' reply, moveCommand s.server srcid key id now now' = some (s', reply) ∧
    (∀ j, (s'.db j).WF) ∧
    (Untouched s.server s' srcid key now ∨
      Transferred s.server s' srcid key (Aof.atoi id).toNat key)

def Renames (s : Server V) (dbid : Nat) (key newkey : Bytes) (nx : Bool) (now now' : Int) : Prop :=
  key ≠ newkey ∧ Present s dbid key now ∧ (nx = true → ¬ Present s dbid newkey now')

def Moves (s : Server V) (srcid : Nat) (key id : Bytes) (now now' : Int) : Prop :=
  s.cluster_enabled = false ∧ 0 ≤ Aof.atoi id ∧ Aof.atoi id < s.dbnum ∧ Aof.atoi id ≠ srcid ∧
    Present s srcid key now ∧ ¬ Present s (Aof.atoi id).toNat key now'

end RedisCluster.Redisdb
