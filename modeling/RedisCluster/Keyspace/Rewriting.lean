import RedisCluster.Keyspace.Propagation

/-!
# Commands that are propagated in another form

INCRBYFLOAT goes out as SET, HINCRBYFLOAT as HSET, SPOP as SREM, BLPOP and BRPOP as LPOP and RPOP, a
BRPOPLPUSH that had to wait as RPOP and LPUSH, and EXPIRE with a time in the past as DEL. Objects
are their contents. Floating-point numbers are a parameter; `ζ` are the contents of sorted sets. One
action reads the clock once.
-/

namespace RedisCluster.Keyspace

open RedisCluster.Util RedisCluster.Lib

inductive Value (ζ : Type) where
  | string (s : Bytes)
  | list (l : List Bytes)
  | set (members : Finset Bytes)
  | hash (h : Bytes → Option Bytes)
  | zset (z : ζ)

/-- `long double` of the platform: `getLongDoubleFromObject`, the sum, `isnan` or `isinf`, and
`createStringObjectFromLongDouble`. -/
structure LongDouble where
  carrier : Type
  zero : carrier
  parse : Bytes → Option carrier
  add : carrier → carrier → carrier
  nanOrInf : carrier → Bool
  print : carrier → Bytes

variable {ζ : Type} {V : Type}

/-! ## The commands that are propagated -/

/-- A command that works on the selected database only. -/
def Command.onDb (argv : List Bytes) (f : Db V → Db V × Nat)
    (clean : ∀ db, (f db).2 = 0 → (f db).1 = db) : Command V where
  argv := argv
  proc := fun dbid dbs => (Function.update dbs dbid (f (dbs dbid)).1, (f (dbs dbid)).2)
  clean := by
    intro dbid dbs h
    rw [clean _ h]
    exact Function.update_eq_self dbid dbs

def setKey (db : Db V) (key : Bytes) (val : V) : Db V :=
  removeExpire (if dbExists db key then dbOverwrite db key val else dbAdd db key val) key

def setCommand (key val : Bytes) : Command (Value ζ) :=
  Command.onDb [ascii "SET", key, val] (fun db => (setKey db key (.string val), 1))
    (fun _ h => by cases h)

/-- `hashTypeLookupWriteOrCreate` and `hashTypeSet`. -/
def hset (key field val : Bytes) (db : Db (Value ζ)) : Db (Value ζ) × Nat :=
  match lookupKey db key with
  | none => (dbAdd db key (.hash (Function.update (fun _ => none) field (some val))), 1)
  | some (.hash h) => (dbOverwrite db key (.hash (Function.update h field (some val))), 1)
  | some _ => (db, 0)

/-- Removing one element of a set, and the key when no other is left. -/
def srem (key ele : Bytes) (db : Db (Value ζ)) : Db (Value ζ) × Nat :=
  match lookupKey db key with
  | some (.set members) =>
    if ele ∈ members then
      if members.erase ele = ∅ then ((dbDelete db key).1, 1)
      else (dbOverwrite db key (.set (members.erase ele)), 1)
    else (db, 0)
  | _ => (db, 0)

/-- `REDIS_HEAD` and `REDIS_TAIL`. -/
inductive ListEnd where
  | head
  | tail
  deriving DecidableEq, Repr

/-- `listTypePop`: the value and what is left. -/
def listTypePop : ListEnd → List Bytes → Option (Bytes × List Bytes)
  | _, [] => none
  | .head, v :: l => some (v, l)
  | .tail, v :: l => some ((v :: l).getLast (List.cons_ne_nil v l), (v :: l).dropLast)

def listTypePush (l : List Bytes) (value : Bytes) : ListEnd → List Bytes
  | .head => value :: l
  | .tail => l ++ [value]

/-- The end of a pop: the list is stored, or its key goes when it is empty. -/
def storeList (db : Db (Value ζ)) (key : Bytes) (l : List Bytes) : Db (Value ζ) :=
  if l = [] then (dbDelete db key).1 else dbOverwrite db key (.list l)

def popGeneric (e : ListEnd) (key : Bytes) (db : Db (Value ζ)) : Db (Value ζ) × Nat :=
  match lookupKey db key with
  | some (.list l) =>
    match listTypePop e l with
    | some (_, l') => (storeList db key l', 1)
    | none => (db, 0)
  | _ => (db, 0)

/-- `pushGenericCommand` with one value, and `rpoplpushHandlePush`: at the head of the list, which is
created if it is not there. -/
def pushHead (key val : Bytes) (db : Db (Value ζ)) : Db (Value ζ) × Nat :=
  match lookupKey db key with
  | none => (dbAdd db key (.list [val]), 1)
  | some (.list l) => (dbOverwrite db key (.list (listTypePush l val .head)), 1)
  | some _ => (db, 0)

/-- `rpoplpushCommand` once its two keys are looked up. The value is popped in place, so that a
destination equal to the source keeps its entry. -/
def rpoplpush (src dst : Bytes) (db : Db (Value ζ)) : Db (Value ζ) × Nat :=
  match lookupKey db src with
  | some (.list l) =>
    match lookupKey db dst with
    | none | some (.list _) =>
      match listTypePop .tail l with
      | some (value, l') =>
        let db := dbOverwrite db src (.list l')
        let db := (pushHead dst value db).1
        match lookupKey db src with
        | some (.list []) => ((dbDelete db src).1, 1)
        | _ => (db, 1)
      | none => (db, 0)
    | some _ => (db, 0)
  | _ => (db, 0)

theorem hset_clean (key field val : Bytes) (db : Db (Value ζ)) (h : (hset key field val db).2 = 0) :
    (hset key field val db).1 = db := by
  unfold hset at h ⊢
  cases hk : lookupKey db key with
  | none =>
    rw [hk] at h
    cases h
  | some v =>
    rw [hk] at h
    cases v with
    | hash x => cases h
    | string x => rfl
    | list x => rfl
    | set x => rfl
    | zset x => rfl

theorem srem_clean (key ele : Bytes) (db : Db (Value ζ)) (h : (srem key ele db).2 = 0) :
    (srem key ele db).1 = db := by
  unfold srem at h ⊢
  cases hk : lookupKey db key with
  | none => rfl
  | some v =>
    rw [hk] at h
    cases v with
    | set members =>
      dsimp only at h ⊢
      by_cases hmem : ele ∈ members
      · rw [if_pos hmem] at h
        by_cases hlast : members.erase ele = ∅
        · rw [if_pos hlast] at h
          cases h
        · rw [if_neg hlast] at h
          cases h
      · rw [if_neg hmem]
    | string x => rfl
    | list x => rfl
    | hash x => rfl
    | zset x => rfl

theorem popGeneric_clean (e : ListEnd) (key : Bytes) (db : Db (Value ζ))
    (h : (popGeneric e key db).2 = 0) : (popGeneric e key db).1 = db := by
  unfold popGeneric at h ⊢
  cases hk : lookupKey db key with
  | none => rfl
  | some v =>
    rw [hk] at h
    cases v with
    | list l =>
      dsimp only at h ⊢
      cases hpop : listTypePop e l with
      | none => rfl
      | some r =>
        rw [hpop] at h
        cases h
    | string x => rfl
    | hash x => rfl
    | set x => rfl
    | zset x => rfl

theorem pushHead_clean (key val : Bytes) (db : Db (Value ζ)) (h : (pushHead key val db).2 = 0) :
    (pushHead key val db).1 = db := by
  unfold pushHead at h ⊢
  cases hk : lookupKey db key with
  | none =>
    rw [hk] at h
    cases h
  | some v =>
    rw [hk] at h
    cases v with
    | list l => cases h
    | string x => rfl
    | hash x => rfl
    | set x => rfl
    | zset x => rfl

theorem rpoplpush_clean (src dst : Bytes) (db : Db (Value ζ)) (h : (rpoplpush src dst db).2 = 0) :
    (rpoplpush src dst db).1 = db := by
  unfold rpoplpush at h ⊢
  cases hsrc : lookupKey db src with
  | none => rfl
  | some v =>
    rw [hsrc] at h
    cases v with
    | list l =>
      dsimp only at h ⊢
      cases hpop : listTypePop .tail l with
      | none => split <;> rfl
      | some r =>
        rw [hpop] at h
        -- the destination is missing, a list, or of another type
        split at h
        · dsimp only at h
          split at h <;> cases h
        · dsimp only at h
          split at h <;> cases h
        · rfl
    | string x => rfl
    | hash x => rfl
    | set x => rfl
    | zset x => rfl

def hsetCommand (key field val : Bytes) : Command (Value ζ) :=
  Command.onDb [ascii "HSET", key, field, val] (hset key field val) (hset_clean key field val)

def sremCommand (key ele : Bytes) : Command (Value ζ) :=
  Command.onDb [ascii "SREM", key, ele] (srem key ele) (srem_clean key ele)

def popCommand (e : ListEnd) (key : Bytes) : Command (Value ζ) :=
  Command.onDb [if e = .head then ascii "LPOP" else ascii "RPOP", key] (popGeneric e key)
    (popGeneric_clean e key)

def lpushCommand (key val : Bytes) : Command (Value ζ) :=
  Command.onDb [ascii "LPUSH", key, val] (pushHead key val) (pushHead_clean key val)

def brpoplpushForm (src dst timeout : Bytes) : Command (Value ζ) :=
  Command.onDb [ascii "BRPOPLPUSH", src, dst, timeout] (rpoplpush src dst) (rpoplpush_clean src dst)

/-! ## The commands of the clients -/

/-- The server after the key has been looked up. -/
def looked (s : Server V) (dbid : Nat) (key : Bytes) (now : Int) : Server V :=
  (expireIfNeeded s dbid key now).1

/-- The database is changed and `cmd` propagated. -/
def commit (s : Server V) (dbid : Nat) (db : Db V) (cmd : Command V) : Server V :=
  propagate { s with db := Function.update s.db dbid db } { dbid := dbid, cmd := cmd }

def incrbyfloatCommand (F : LongDouble) (s : Server (Value ζ)) (dbid : Nat) (key incr : Bytes)
    (now : Int) : Server (Value ζ) :=
  let s := looked s dbid key now
  match lookupKey (s.db dbid) key with
  | some (.string old) =>
    match F.parse old, F.parse incr with
    | some value, some incr =>
      let value := F.add value incr
      if F.nanOrInf value then s
      else
        commit s dbid (dbOverwrite (s.db dbid) key (.string (F.print value)))
          (setCommand key (F.print value))
    | _, _ => s
  | some _ => s
  | none =>
    match F.parse incr with
    | some incr =>
      let value := F.add F.zero incr
      if F.nanOrInf value then s
      else
        commit s dbid (dbAdd (s.db dbid) key (.string (F.print value)))
          (setCommand key (F.print value))
    | none => s

/-- The field is set on the hash, which is created if it is not there. -/
def hincrbyfloatCommand (F : LongDouble) (s : Server (Value ζ)) (dbid : Nat) (key field incr : Bytes)
    (now : Int) : Server (Value ζ) :=
  match F.parse incr with
  | none => s
  | some incr =>
    let s := looked s dbid key now
    match lookupKey (s.db dbid) key with
    | some (.hash h) =>
      match h field with
      | some current =>
        match F.parse current with
        | some value =>
          let new := F.print (F.add value incr)
          commit s dbid (dbOverwrite (s.db dbid) key (.hash (Function.update h field (some new))))
            (hsetCommand key field new)
        | none => s
      | none =>
        let new := F.print (F.add F.zero incr)
        commit s dbid (dbOverwrite (s.db dbid) key (.hash (Function.update h field (some new))))
          (hsetCommand key field new)
    | some _ => s
    | none =>
      let new := F.print (F.add F.zero incr)
      commit s dbid (dbAdd (s.db dbid) key (.hash (Function.update (fun _ => none) field (some new))))
        (hsetCommand key field new)

/-- `ele` is the element that `setTypeRandomElement` chose. -/
def spopCommand (s : Server (Value ζ)) (dbid : Nat) (key ele : Bytes) (now : Int) :
    Server (Value ζ) :=
  let s := looked s dbid key now
  match lookupKey (s.db dbid) key with
  | some (.set members) =>
    if ele ∈ members then
      let db := dbOverwrite (s.db dbid) key (.set (members.erase ele))
      let db := if members.erase ele = ∅ then (dbDelete db key).1 else db
      commit s dbid db (sremCommand key ele)
    else s
  | _ => s

/-- The loop over the keys; at its end the client blocks. -/
def blockingPopGenericCommand (e : ListEnd) (dbid : Nat) (now : Int) :
    List Bytes → Server (Value ζ) → Server (Value ζ)
  | [], s => s
  | key :: keys, s =>
    let s := looked s dbid key now
    match lookupKey (s.db dbid) key with
    | none => blockingPopGenericCommand e dbid now keys s
    | some (.list l) =>
      match listTypePop e l with
      | some (_, l') =>
        let db := dbOverwrite (s.db dbid) key (.list l')
        let db := if l' = [] then (dbDelete db key).1 else db
        commit s dbid db (popCommand e key)
      | none => blockingPopGenericCommand e dbid now keys s
    | some _ => s

/-- Served at once, it is propagated as it was sent. -/
def brpoplpushCommand (s : Server (Value ζ)) (dbid : Nat) (src dst timeout : Bytes) (now : Int) :
    Server (Value ζ) :=
  let s := looked s dbid src now
  match lookupKey (s.db dbid) src with
  | some (.list _) =>
    let s := looked (looked s dbid src now) dbid dst now
    let r := rpoplpush src dst (s.db dbid)
    if r.2 = 0 then s else commit s dbid r.1 (brpoplpushForm src dst timeout)
  | _ => s

/-- `when` is the absolute time; `sent` is the command as the client sent it. -/
def expireGenericCommand (s : Server (Value ζ)) (dbid : Nat) (key : Bytes) (when : Int)
    (sent : Command (Value ζ)) (now : Int) : Server (Value ζ) :=
  let s := looked s dbid key now
  if !dbExists (s.db dbid) key then s
  else if decide (when ≤ now) && !s.loading && !s.masterhost then
    commit s dbid (dbDelete (s.db dbid) key).1 (delCommand key)
  else commit s dbid (setExpire (s.db dbid) key when) sent

/-! ## Blocked clients that are served -/

/-- What a blocked client waits with: BLPOP, BRPOP, or BRPOPLPUSH to the given key. -/
inductive Receiver where
  | blpop
  | brpop
  | brpoplpush (dstkey : Bytes)

def Receiver.where : Receiver → ListEnd
  | .blpop => .head
  | .brpop | .brpoplpush _ => .tail

/-- `serveClientBlockedOnList`, with the `listTypePush` of its caller when the destination is not a
list. The value is popped already. -/
def serveClientBlockedOnList (s : Server (Value ζ)) (dbid : Nat) (key : Bytes) (receiver : Receiver)
    (value : Bytes) (now : Int) : Server (Value ζ) :=
  match receiver with
  | .blpop | .brpop => propagate s { dbid := dbid, cmd := popCommand receiver.where key }
  | .brpoplpush dstkey =>
    let s := looked s dbid dstkey now
    match lookupKey (s.db dbid) dstkey with
    | none | some (.list _) =>
      let s := propagate s { dbid := dbid, cmd := popCommand .tail key }
      commit s dbid (pushHead dstkey value (s.db dbid)).1 (lpushCommand dstkey value)
    | some _ =>
      match lookupKey (s.db dbid) key with
      | some (.list l) =>
        { s with
          db := Function.update s.db dbid
            (dbOverwrite (s.db dbid) key (.list (listTypePush l value .tail))) }
      | _ => s

/-- The loop `while(numclients--)` of `handleClientsBlockedOnLists`. -/
def serveLoop (dbid : Nat) (key : Bytes) (now : Int) :
    List Receiver → Server (Value ζ) → Server (Value ζ)
  | [], s => s
  | receiver :: receivers, s =>
    match lookupKey (s.db dbid) key with
    | some (.list l) =>
      match listTypePop receiver.where l with
      | some (value, l') =>
        let s := { s with
          db := Function.update s.db dbid (dbOverwrite (s.db dbid) key (.list l')) }
        serveLoop dbid key now receivers (serveClientBlockedOnList s dbid key receiver value now)
      | none => s
    | _ => s

/-- One key of `ready_keys` with the clients that wait for it. -/
def handleReadyKey (s : Server (Value ζ)) (dbid : Nat) (key : Bytes) (receivers : List Receiver)
    (now : Int) : Server (Value ζ) :=
  let s := looked s dbid key now
  match lookupKey (s.db dbid) key with
  | some (.list _) =>
    let s := serveLoop dbid key now receivers s
    match lookupKey (s.db dbid) key with
    | some (.list []) => deleteKey s dbid key
    | _ => s
  | _ => s

/-! ## All of them -/

inductive Rewritten (ζ : Type) where
  | incrbyfloat (key incr : Bytes)
  | hincrbyfloat (key field incr : Bytes)
  | spop (key ele : Bytes)
  | blockingPop (e : ListEnd) (keys : List Bytes)
  | brpoplpush (src dst timeout : Bytes)
  | expire (key : Bytes) (when : Int) (sent : Command (Value ζ))
  | served (key : Bytes) (receivers : List Receiver)

def execute (F : LongDouble) (s : Server (Value ζ)) (dbid : Nat) (now : Int) :
    Rewritten ζ → Server (Value ζ)
  | .incrbyfloat key incr => incrbyfloatCommand F s dbid key incr now
  | .hincrbyfloat key field incr => hincrbyfloatCommand F s dbid key field incr now
  | .spop key ele => spopCommand s dbid key ele now
  | .blockingPop e keys => blockingPopGenericCommand e dbid now keys s
  | .brpoplpush src dst timeout => brpoplpushCommand s dbid src dst timeout now
  | .expire key when sent => expireGenericCommand s dbid key when sent now
  | .served key receivers => handleReadyKey s dbid key receivers now

/-- EXPIRE is propagated in another form when its time is past; the others always are. -/
def InOtherForm (s : Server (Value ζ)) (now : Int) : Rewritten ζ → Prop
  | .expire _ when _ => when ≤ now ∧ s.loading = false ∧ s.masterhost = false
  | _ => True

/-- What is propagated brings a replica with the same databases to those of the master. -/
def ReplicatesFaithfully (F : LongDouble) (s : Server (Value ζ)) (dbid : Nat) (now : Int)
    (a : Rewritten ζ) : Prop :=
  InOtherForm s now a → InSync s (execute F s dbid now a)

/-! ## When an expire time is lost on the way -/

/-- The entry that a lookup at time `now` finds. -/
def liveEntry (s : Server V) (dbid : Nat) (key : Bytes) (now : Int) : Option (Keyed V) :=
  match (s.db dbid).dict key with
  | none => none
  | some e =>
    match e.expire with
    | none => some e
    | some t =>
      if 0 ≤ t ∧ t < now ∧ s.loading = false ∧ s.masterhost = false then none else some e

def wrongType (s : Server (Value ζ)) (dbid : Nat) (now : Int) (key : Bytes) : Bool :=
  match (liveEntry s dbid key now).map Keyed.val with
  | none | some (.list _) => false
  | some _ => true

/-- How the receivers use up a list of `n` elements: the number that is left, and whether some
BRPOPLPUSH from `key` to `key` found one element only. -/
def rotation (key : Bytes) (wrong : Bytes → Bool) : List Receiver → Nat → Bool → Nat × Bool
  | [], n, alone => (n, alone)
  | _ :: _, 0, alone => (0, alone)
  | .blpop :: rs, n + 1, alone => rotation key wrong rs n alone
  | .brpop :: rs, n + 1, alone => rotation key wrong rs n alone
  | .brpoplpush dst :: rs, n + 1, alone =>
    if dst = key then rotation key wrong rs (n + 1) (alone || n == 0)
    else if wrong dst then rotation key wrong rs (n + 1) alone
    else rotation key wrong rs n alone

/-- The key of a successful INCRBYFLOAT has an expire time; or the key of a list has one, a client
rotates its only element, and no later client takes that. -/
def ExpireLost (F : LongDouble) (s : Server (Value ζ)) (dbid : Nat) (now : Int) :
    Rewritten ζ → Prop
  | .incrbyfloat key incr => ∃ old t value inc,
      liveEntry s dbid key now = some ⟨.string old, some t⟩ ∧ F.parse old = some value ∧
        F.parse incr = some inc ∧ F.nanOrInf (F.add value inc) = false
  | .served key receivers => ∃ l t,
      liveEntry s dbid key now = some ⟨.list l, some t⟩ ∧
        (rotation key (wrongType s dbid now) receivers l.length false).2 = true ∧
        (rotation key (wrongType s dbid now) receivers l.length false).1 ≠ 0
  | _ => False

end RedisCluster.Keyspace
