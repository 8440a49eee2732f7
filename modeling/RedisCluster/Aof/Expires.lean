import RedisCluster.Aof.Format
import RedisCluster.Keyspace.Rewriting

/-!
# Expire times in the append only file

The commands that set a TTL, what `feedAppendOnlyFile` writes for them, and the replay of the file. The
procedure of a command reads the clock once, `feedAppendOnlyFile` once more. `string` makes a value of
an argument of SET, `load` the value of a DUMP payload.
-/

namespace RedisCluster.Aof

open RedisCluster.Util RedisCluster.Keyspace RedisCluster.Lib

variable {V : Type}

/-! ## Commands -/

inductive Proc where
  | set
  | setex
  | psetex
  | expire
  | pexpire
  | expireat
  | pexpireat
  | restore
  | del
  | select
  deriving DecidableEq, Repr

def redisCommandTable : List (Bytes × Proc) :=
  [(ascii "set", .set), (ascii "setex", .setex), (ascii "psetex", .psetex), (ascii "del", .del),
    (ascii "select", .select), (ascii "expire", .expire), (ascii "expireat", .expireat),
    (ascii "pexpire", .pexpire), (ascii "pexpireat", .pexpireat), (ascii "restore", .restore)]

def lookupCommand (name : Bytes) : Option Proc :=
  (redisCommandTable.find? fun e => name.map Multi.tolower = e.1).map Prod.snd

structure Codec (V : Type) where
  string : Bytes → V
  /-- `verifyDumpPayload` and `rdbLoadObject`. -/
  load : Bytes → Option V

structure Server (V : Type) where
  db : Nat → Db V
  /-- `masterhost != NULL`. -/
  masterhost : Bool
  loading : Bool
  /-- `none` stands for -1. -/
  aof_selected_db : Option Nat
  /-- All that was ever appended to `aof_buf`. -/
  aof_buf : Bytes

def setDb (s : Server V) (dbid : Nat) (db : Db V) : Server V :=
  { s with db := Function.update s.db dbid db }

/-! ## Feeding -/

/-- The times in seconds become milliseconds, and the relative ones absolute. -/
def expireAtMillis (cmd : Proc) (seconds : Bytes) (mstime : Int) : Int :=
  let when := (strtoll seconds).value
  let when :=
    if cmd = .expire ∨ cmd = .setex ∨ cmd = .expireat then toLongLong (when * 1000) else when
  if cmd = .expire ∨ cmd = .pexpire ∨ cmd = .setex ∨ cmd = .psetex then toLongLong (when + mstime)
  else when

def catAppendOnlyExpireAtCommand (buf : Bytes) (cmd : Proc) (key seconds : Bytes) (mstime : Int) :
    Bytes :=
  catAppendOnlyGenericCommand buf
    [ascii "PEXPIREAT", key, ll2string (expireAtMillis cmd seconds mstime)]

def selectText (dictid : Nat) : Bytes :=
  ascii "*2\r\n$6\r\nSELECT\r\n$" ++ ll2string (decimal dictid).length ++ crlf ++ decimal dictid ++ crlf

def arg (argv : List Bytes) (j : Nat) : Bytes := argv.getD j []

def feedAppendOnlyFile (s : Server V) (cmd : Proc) (dictid : Nat) (argv : List Bytes) (mstime : Int) :
    Server V :=
  let buf := if s.aof_selected_db = some dictid then [] else selectText dictid
  let buf :=
    if cmd = .expire ∨ cmd = .pexpire ∨ cmd = .expireat then
      catAppendOnlyExpireAtCommand buf cmd (arg argv 1) (arg argv 2) mstime
    else if cmd = .setex ∨ cmd = .psetex then
      catAppendOnlyExpireAtCommand
        (catAppendOnlyGenericCommand buf [ascii "SET", arg argv 1, arg argv 3]) cmd (arg argv 1)
        (arg argv 2) mstime
    else catAppendOnlyGenericCommand buf argv
  { s with aof_selected_db := some dictid, aof_buf := s.aof_buf ++ buf }

/-! ## Lookups -/

/-- `propagateExpire` comes before the key is deleted. -/
def expireIfNeeded (s : Server V) (dbid : Nat) (key : Bytes) (mstime : Int) : Server V × Bool :=
  let when := getExpire (s.db dbid) key
  if when < 0 then (s, false)
  else if s.loading then (s, false)
  else if s.masterhost then (s, decide (mstime > when))
  else if mstime ≤ when then (s, false)
  else
    let s := feedAppendOnlyFile s .del dbid [ascii "DEL", key] mstime
    (setDb s dbid (dbDelete (s.db dbid) key).1, dbExists (s.db dbid) key)

def lookupKeyWrite (s : Server V) (dbid : Nat) (key : Bytes) (mstime : Int) : Server V × Option V :=
  let s := (expireIfNeeded s dbid key mstime).1
  (s, lookupKey (s.db dbid) key)

def lookupKeyRead (s : Server V) (dbid : Nat) (key : Bytes) (mstime : Int) : Server V × Option V :=
  lookupKeyWrite s dbid key mstime

def setKey (s : Server V) (dbid : Nat) (key : Bytes) (val : V) (mstime : Int) : Server V :=
  let s := (lookupKeyWrite s dbid key mstime).1
  setDb s dbid (Keyspace.setKey (s.db dbid) key val)

/-! ## Procedures -/

/-- What `call` propagates: nothing, the command, or what it was rewritten to. -/
inductive Outcome where
  | clean
  | dirty
  | rewritten (cmd : Proc) (argv : List Bytes)

structure SetOptions where
  nx : Bool
  xx : Bool
  /-- The argument and whether it is in seconds. -/
  expire : Option (Bytes × Bool)
  deriving DecidableEq, Repr

/-- The two letters, in any case, and the end of the string. -/
def isOption (a : Bytes) (x y : UInt8) : Bool :=
  Multi.tolower (a.getD 0 0) = x ∧ Multi.tolower (a.getD 1 0) = y ∧ a.getD 2 0 = 0

/-- The loop over the options of SET; `none` is the syntax error. -/
def setOptions : List Bytes → SetOptions → Option SetOptions
  | [], o => some o
  | [a], o =>
    if isOption a 110 120 then some { o with nx := true }
    else if isOption a 120 120 then some { o with xx := true }
    else none
  | a :: next :: rest, o =>
    if isOption a 110 120 then setOptions (next :: rest) { o with nx := true }
    else if isOption a 120 120 then setOptions (next :: rest) { o with xx := true }
    else if isOption a 101 120 then setOptions rest { o with expire := some (next, true) }
    else if isOption a 112 120 then setOptions rest { o with expire := some (next, false) }
    else none

/-- The TTL in milliseconds, if there is one; `none` for an invalid one. -/
def expireMillis : Option (Bytes × Bool) → Option (Option Int)
  | none => some none
  | some (expire, seconds) =>
    match getLongLongFromObject expire with
    | none => none
    | some v => if v ≤ 0 then none else some (some (if seconds then toLongLong (v * 1000) else v))

def setGenericCommand (s : Server V) (dbid : Nat) (o : SetOptions) (key : Bytes) (val : V)
    (mstime : Int) : Server V × Outcome :=
  match expireMillis o.expire with
  | none => (s, .clean)
  | some milliseconds =>
    let r := if o.nx then lookupKeyWrite s dbid key mstime else (s, none)
    if o.nx && r.2.isSome then (r.1, .clean)
    else
      let q := if o.xx then lookupKeyWrite r.1 dbid key mstime else (r.1, none)
      if o.xx && q.2.isNone then (q.1, .clean)
      else
        let s := setKey q.1 dbid key val mstime
        match milliseconds with
        | none => (s, .dirty)
        | some ms =>
          (setDb s dbid (setExpire (s.db dbid) key (toLongLong (mstime + ms))), .dirty)

/-- A time in the past deletes the key, unless it comes from the file or from a master. -/
def expireGenericCommand (s : Server V) (dbid : Nat) (key param : Bytes) (basetime : Int)
    (seconds : Bool) (mstime : Int) : Server V × Outcome :=
  match getLongLongFromObject param with
  | none => (s, .clean)
  | some v =>
    let when := toLongLong ((if seconds then toLongLong (v * 1000) else v) + basetime)
    let r := lookupKeyRead s dbid key mstime
    let s := r.1
    if r.2.isNone then (s, .clean)
    else if when ≤ mstime && !s.loading && !s.masterhost then
      (setDb s dbid (dbDelete (s.db dbid) key).1, .rewritten .del [ascii "DEL", key])
    else (setDb s dbid (setExpire (s.db dbid) key when), .dirty)

def restoreCommand (load : Bytes → Option V) (s : Server V) (dbid : Nat) (key ttl payload : Bytes)
    (options : List Bytes) (mstime : Int) : Server V × Outcome :=
  if !options.all (Multi.sameCaseless · (ascii "replace")) then (s, .clean)
  else
    let replace := !options.isEmpty
    let r := if replace then (s, none) else lookupKeyWrite s dbid key mstime
    let s := r.1
    if r.2.isSome then (s, .clean)
    else
      match getLongLongFromObject ttl with
      | none => (s, .clean)
      | some ttl =>
        if ttl < 0 then (s, .clean)
        else
          match load payload with
          | none => (s, .clean)
          | some obj =>
            let db := if replace then (dbDelete (s.db dbid) key).1 else s.db dbid
            let db := dbAdd db key obj
            (setDb s dbid
              (if ttl = 0 then db else setExpire db key (toLongLong (mstime + ttl))), .dirty)

/-- The keys that were deleted are counted. -/
def delCommand (s : Server V) (dbid : Nat) (mstime : Int) : List Bytes → Nat → Server V × Outcome
  | [], deleted => (s, if deleted = 0 then .clean else .dirty)
  | key :: keys, deleted =>
    let s := (expireIfNeeded s dbid key mstime).1
    let r := dbDelete (s.db dbid) key
    delCommand (setDb s dbid r.1) dbid mstime keys (if r.2 then deleted + 1 else deleted)

/-- The check of the arity leaves these lengths of `argv`. -/
def proc (codec : Codec V) (s : Server V) (dbid : Nat) (cmd : Proc) (argv : List Bytes)
    (mstime : Int) : Server V × Outcome :=
  match cmd, argv with
  | .set, _ :: key :: val :: options =>
    match setOptions options { nx := false, xx := false, expire := none } with
    | none => (s, .clean)
    | some o => setGenericCommand s dbid o key (codec.string val) mstime
  | .setex, [_, key, seconds, val] =>
    setGenericCommand s dbid { nx := false, xx := false, expire := some (seconds, true) } key
      (codec.string val) mstime
  | .psetex, [_, key, milliseconds, val] =>
    setGenericCommand s dbid { nx := false, xx := false, expire := some (milliseconds, false) } key
      (codec.string val) mstime
  | .expire, [_, key, param] => expireGenericCommand s dbid key param mstime true mstime
  | .pexpire, [_, key, param] => expireGenericCommand s dbid key param mstime false mstime
  | .expireat, [_, key, param] => expireGenericCommand s dbid key param 0 true mstime
  | .pexpireat, [_, key, param] => expireGenericCommand s dbid key param 0 false mstime
  | .restore, _ :: key :: ttl :: payload :: options =>
    restoreCommand codec.load s dbid key ttl payload options mstime
  | .del, _ :: key :: keys => delCommand s dbid mstime (key :: keys) 0
  | _, _ => (s, .clean)

/-! ## Running commands -/

/-- A command that a client sends, with the two readings of the clock. -/
structure Request where
  dbid : Nat
  argv : List Bytes
  mstime : Int
  mstimeFeed : Int

/-- What was rewritten is fed in place of the command. -/
def propagate (cmd : Proc) (r : Request) : Server V × Outcome → Server V
  | (s, .clean) => s
  | (s, .dirty) => feedAppendOnlyFile s cmd r.dbid r.argv r.mstimeFeed
  | (s, .rewritten cmd argv) => feedAppendOnlyFile s cmd r.dbid argv r.mstimeFeed

def call (codec : Codec V) (s : Server V) (r : Request) : Server V :=
  match lookupCommand (arg r.argv 0) with
  | none => s
  | some cmd => propagate cmd r (proc codec s r.dbid cmd r.argv r.mstime)

/-! ## Replaying -/

/-- `server.dbnum` and `server.cluster_enabled`. -/
structure Config where
  dbnum : Nat
  cluster_enabled : Bool
  /-- It is an `int`. -/
  dbnum_lt : dbnum < 2 ^ 31

/-- The fake client of `loadAppendOnlyFile`, and the server. -/
structure FakeClient (V : Type) where
  server : Server V
  dbid : Nat

def selectCommand (cfg : Config) (c : FakeClient V) (id : Bytes) : FakeClient V :=
  match getLongLongFromObject id with
  | none => c
  | some id =>
    if cfg.cluster_enabled ∧ id ≠ 0 then c
    else if id < 0 ∨ id ≥ cfg.dbnum then c
    else { c with dbid := id.toNat }

/-- One command of the file; `none` is the exit for an unknown one. -/
def replayCommand (cfg : Config) (codec : Codec V) (c : FakeClient V) (argv : List Bytes)
    (mstime : Int) : Option (FakeClient V) :=
  match lookupCommand (arg argv 0) with
  | none => none
  | some cmd =>
    if cmd = .select ∧ argv.length = 2 then some (selectCommand cfg c (arg argv 1))
    else some { c with server := (proc codec c.server c.dbid cmd argv mstime).1 }

/-- The loop of `loadAppendOnlyFile`. Every turn reads at least one byte; `loops` counts them. -/
def loadLoop (cfg : Config) (codec : Codec V) (mstime : Nat → Int) :
    Nat → Nat → Bytes → FakeClient V → Option (FakeClient V)
  | 0, _, _, _ => none
  | fuel + 1, loops, fp, c =>
    let r := fgets 127 fp
    if r.1 = [] then some c
    else if r.1.head? ≠ some 42 then none
    else
      let argc := atoi r.1.tail
      if argc < 1 then none
      else
        match readArgs argc.toNat r.2 with
        | none => none
        | some (argv, fp) =>
          match replayCommand cfg codec c argv (mstime loops) with
          | none => none
          | some c => loadLoop cfg codec mstime fuel (loops + 1) fp c

/-- The file is replayed onto the databases `db`; `mstime` is the clock at each of its commands. -/
def loadAppendOnlyFile (cfg : Config) (codec : Codec V) (mstime : Nat → Int) (file : Bytes)
    (db : Nat → Db V) : Option (FakeClient V) :=
  loadLoop cfg codec mstime (file.length + 1) 0 file
    { server := { db := db, masterhost := false, loading := true, aof_selected_db := none, aof_buf := [] }
      dbid := 0 }

end RedisCluster.Aof
