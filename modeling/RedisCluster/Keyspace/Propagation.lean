import RedisCluster.Keyspace.Db
import RedisCluster.Lib.Run
import RedisCluster.Multi.Command

/-!
# Deletions that no command asked for

The paths that remove a key on their own: the lookup of an expired key, the active expire cycle,
eviction under `maxmemory` and the keys of a slot that another node took. A command is given by its
procedure on the databases; the lookups it makes come before its effect, each with the clock it
read. `aof` and `slaves` are all that was ever fed to the AOF and to the slaves.
-/

namespace RedisCluster.Keyspace

open RedisCluster.Util RedisCluster.Lib

variable {V : Type}

/-- A command with its arguments. What it changes it counts in `server.dirty`, the second result. -/
structure Command (V : Type) where
  argv : List Bytes
  proc : Nat → (Nat → Db V) → (Nat → Db V) × Nat
  clean : ∀ dbid dbs, (proc dbid dbs).2 = 0 → (proc dbid dbs).1 = dbs

/-- A command fed to the AOF or to the slaves, for the database it is preceded by a SELECT of. -/
structure Entry (V : Type) where
  dbid : Nat
  cmd : Command V

structure Server (V : Type) where
  db : Nat → Db V
  /-- `masterhost != NULL`. -/
  masterhost : Bool
  loading : Bool
  /-- `aof_state != REDIS_AOF_OFF`. -/
  aof_state_on : Bool
  aof : List (Entry V)
  slaves : List (Entry V)

def delKey (key : Bytes) (dbid : Nat) (dbs : Nat → Db V) : (Nat → Db V) × Nat :=
  if dbExists (dbs dbid) key then (Function.update dbs dbid (dbDelete (dbs dbid) key).1, 1)
  else (dbs, 0)

/-- The command `DEL key`, as `propagateExpire` builds it. -/
def delCommand (key : Bytes) : Command V where
  argv := [ascii "DEL", key]
  proc := delKey key
  clean := by
    intro dbid dbs h
    unfold delKey at h ⊢
    by_cases hk : dbExists (dbs dbid) key = true
    · rw [if_pos hk] at h
      cases h
    · rw [if_neg hk]

def feedAppendOnlyFile (s : Server V) (e : Entry V) : Server V := { s with aof := s.aof ++ [e] }

def replicationFeedSlaves (s : Server V) (e : Entry V) : Server V :=
  { s with slaves := s.slaves ++ [e] }

def propagate (s : Server V) (e : Entry V) : Server V :=
  replicationFeedSlaves (if s.aof_state_on then feedAppendOnlyFile s e else s) e

def propagateExpire (s : Server V) (dbid : Nat) (key : Bytes) : Server V :=
  let e : Entry V := { dbid := dbid, cmd := delCommand key }
  replicationFeedSlaves (if s.aof_state_on then feedAppendOnlyFile s e else s) e

def deleteKey (s : Server V) (dbid : Nat) (key : Bytes) : Server V :=
  { s with db := Function.update s.db dbid (dbDelete (s.db dbid) key).1 }

/-! ## The four paths -/

/-- `now` is the clock, or the time at which the running script was started. -/
def expireIfNeeded (s : Server V) (dbid : Nat) (key : Bytes) (now : Int) : Server V × Bool :=
  let when := getExpire (s.db dbid) key
  if when < 0 then (s, false)
  else if s.loading then (s, false)
  else if s.masterhost then (s, decide (now > when))
  else if now ≤ when then (s, false)
  else (deleteKey (propagateExpire s dbid key) dbid key, dbExists (s.db dbid) key)

/-- The entry of `expires` is the one of `key`, if there is one. -/
def activeExpireCycleTryExpire (s : Server V) (dbid : Nat) (key : Bytes) (now : Int) :
    Server V × Bool :=
  match ((s.db dbid).dict key).bind Keyed.expire with
  | none => (s, false)
  | some t =>
    if now > t then (deleteKey (propagateExpire s dbid key) dbid key, true) else (s, false)

/-- The end of one turn of `freeMemoryIfNeeded`: the policy has chosen `bestkey` among the keys. -/
def freeMemoryEvict (s : Server V) (dbid : Nat) (bestkey : Bytes) : Server V :=
  if dbExists (s.db dbid) bestkey then
    deleteKey (propagateExpire s dbid bestkey) dbid bestkey
  else s

/-- All keys of the slot go; `slots_to_keys` holds the keys of database 0. -/
def delKeysInSlot (s : Server V) (hashslot : Nat) : Server V :=
  let db := s.db 0
  { s with
    db := Function.update s.db 0
      { dict := fun key => if Multi.keyHashSlot key = hashslot then none else db.dict key } }

/-! ## Commands -/

/-- `lookupKeyRead` or `lookupKeyWrite` of a key, at the time `now`. -/
structure Lookup where
  dbid : Nat
  key : Bytes
  now : Int

def lookupStep (s : Server V) (l : Lookup) : Server V := (expireIfNeeded s l.dbid l.key l.now).1

/-- The effect of a command and its propagation, once the keys are looked up. -/
def callProc (s : Server V) (dbid : Nat) (cmd : Command V) : Server V :=
  let r := cmd.proc dbid s.db
  let s := { s with db := r.1 }
  if r.2 ≠ 0 then propagate s { dbid := dbid, cmd := cmd } else s

def call (s : Server V) (dbid : Nat) (lookups : List Lookup) (cmd : Command V) : Server V :=
  callProc (run lookupStep s lookups) dbid cmd

/-! ## Runs -/

inductive Action (V : Type) where
  | call (dbid : Nat) (lookups : List Lookup) (cmd : Command V)
  | tryExpire (dbid : Nat) (key : Bytes) (now : Int)
  | evict (dbid : Nat) (bestkey : Bytes)
  /-- An UPDATE or a heartbeat claimed the slot for another node. -/
  | delSlot (hashslot : Nat)
  /-- `startAppendOnly` or `stopAppendOnly`. -/
  | appendOnly (on : Bool)

def act (s : Server V) : Action V → Server V
  | .call dbid lookups cmd => call s dbid lookups cmd
  | .tryExpire dbid key now => (activeExpireCycleTryExpire s dbid key now).1
  | .evict dbid bestkey => freeMemoryEvict s dbid bestkey
  | .delSlot hashslot => delKeysInSlot s hashslot
  | .appendOnly on => { s with aof_state_on := on }

/-- The part of an action that no command asked for: all of it, or the lookups before the effect of
a command. -/
def unasked (s : Server V) : Action V → Server V
  | .call _ lookups _ => run lookupStep s lookups
  | a => act s a

/-! ## What the propagation is for -/

/-- A replica executes what it receives; its own lookups have its own clock. -/
def replay (r : Server V) (es : List (Entry V × List Lookup)) : Server V :=
  run (fun r e => call r e.1.dbid e.2 e.1.cmd) r es

/-- Every key that is gone from `s` to `t` was fed as a DEL in its database in between, to the slaves
and, when it is on, to the AOF. -/
def FedBetween (s t : Server V) : Prop :=
  ∀ dbid key, dbExists (s.db dbid) key = true → dbExists (t.db dbid) key = false →
    (∃ es, t.slaves = s.slaves ++ es ∧ ⟨dbid, delCommand key⟩ ∈ es) ∧
      (s.aof_state_on = true → ∃ es, t.aof = s.aof ++ es ∧ ⟨dbid, delCommand key⟩ ∈ es)

/-- Any replica that had the databases of `s₀` has those of `s` after the stream fed in between. -/
def InSync (s₀ s : Server V) : Prop :=
  ∃ es, s.slaves = s₀.slaves ++ es ∧
    ∀ r : Server V, r.masterhost = true → r.db = s₀.db →
      ∀ rs, rs.map Prod.fst = es → (replay r rs).db = s.db

/-- Deletions that no command asked for are propagated, all along the run. -/
def PropagatesDeletions (s₀ : Server V) (as : List (Action V)) : Prop :=
  RunMeets act (fun s a => FedBetween s (unasked s a)) s₀ as ∧
    ∀ bs, bs <+: as → InSync s₀ (run act s₀ bs)

def SlotEmpty (s : Server V) : Action V → Prop
  | .delSlot hashslot => ∀ key, Multi.keyHashSlot key = hashslot → dbExists (s.db 0) key = false
  | _ => True

end RedisCluster.Keyspace
