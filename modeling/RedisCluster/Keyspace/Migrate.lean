import RedisCluster.Aof.Format
import RedisCluster.Keyspace.Propagation

/-!
# `cluster.c`: MIGRATE

`migrateCommand` with every answer of the sockets and of the target, and its one retry. A number that is
given as text is read by `getLongFromObject`. `written` are the texts that were given to `syncWrite`.
-/

namespace RedisCluster.Keyspace

open RedisCluster.Util

variable {V : Type}

/-- What the conversation with the target comes to; `timedout` is `errno == ETIMEDOUT`. -/
inductive Exchange where
  | writeFails (timedout : Bool)
  /-- One of the two replies does not come. -/
  | readFails (timedout : Bool)
  | replies (buf1 buf2 : Bytes)
  deriving DecidableEq, Repr

/-- One pass through `migrateCommand`: the clock of the lookup and of the TTL, the socket with the reply of
`migrateGetSocket` if there is none, and the conversation. -/
structure Attempt where
  now : Int
  mstime : Int
  noSocket : Option Bytes
  exchange : Exchange
  deriving DecidableEq, Repr

structure Options where
  copy : Bool
  replace : Bool
  deriving DecidableEq, Repr

/-- The loop over the arguments from the sixth on; `none` for a syntax error. -/
def parseOptions (args : List Bytes) : Option Options :=
  args.foldlM (fun o arg =>
    if Multi.sameCaseless arg (ascii "copy") then some { o with copy := true }
    else if Multi.sameCaseless arg (ascii "replace") then some { o with replace := true }
    else none) { copy := false, replace := false }

/-- What MIGRATE sees of the server: `cluster_enabled`, and `createDumpPayload`. -/
structure Dumping (V : Type) where
  cluster_enabled : Bool
  createDumpPayload : V → Bytes

/-- The commands for the target: SELECT and RESTORE. -/
def restoreText (w : Dumping V) (dbid : Int) (key : Bytes) (ttl : Int) (o : V) (replace : Bool) : Bytes :=
  Aof.commandText [ascii "SELECT", ll2string dbid] ++
    Aof.commandText
      ([if w.cluster_enabled then ascii "RESTORE-ASKING" else ascii "RESTORE", key, ll2string ttl,
        w.createDumpPayload o] ++ if replace then [ascii "REPLACE"] else [])

def migrateTtl (expireat mstime : Int) : Int :=
  if expireat ≠ -1 then (if expireat - mstime < 1 then 1 else expireat - mstime) else 0

/-- What a procedure leaves: `dirty` counts its changes, and `rewritten` is what
`rewriteClientCommandVector` made of the client's command. -/
structure Migrated (V : Type) where
  server : Server V
  reply : Bytes
  dirty : Nat
  rewritten : Option (Command V)
  written : List Bytes

def answered (s : Server V) (reply : Bytes) (written : List Bytes) : Migrated V :=
  { server := s, reply := reply, dirty := 0, rewritten := none, written := written }

/-- A failed conversation: `again` is the jump to `try_again` if `retry_num` is 0. -/
def socketError (again : Option (Server V → List Bytes → Migrated V)) (timedout : Bool) (reply : Bytes)
    (s : Server V) (written : List Bytes) : Migrated V :=
  match again with
  | some again => if timedout then answered s reply written else again s written
  | none => answered s reply written

def migrateReplies (s : Server V) (dbid : Nat) (key : Bytes) (copy : Bool) (buf1 buf2 : Bytes)
    (written : List Bytes) : Migrated V :=
  if buf1.head? = some 45 ∨ buf2.head? = some 45 then
    let error := if buf1.head? = some 45 then buf1.tail else buf2.tail
    answered s (ascii "-ERR Target instance replied with error: " ++ error ++ ascii "\r\n") written
  else
    { server := if copy then s else deleteKey s dbid key
      reply := ascii "+OK\r\n"
      dirty := 1
      rewritten := some (delCommand key)
      written := written }

/-- What follows the connection, with the commands in `written`. -/
def converse (again : Option (Server V → List Bytes → Migrated V)) (s : Server V) (dbid : Nat) (key : Bytes)
    (copy : Bool) (written : List Bytes) (e : Exchange) : Migrated V :=
  match e with
  | .writeFails timedout =>
    socketError again timedout (ascii "-IOERR error or timeout writing to target instance\r\n") s written
  | .readFails timedout =>
    socketError again timedout (ascii "-IOERR error or timeout reading from target node\r\n") s written
  | .replies buf1 buf2 => migrateReplies s dbid key copy buf1 buf2 written

/-- One pass, for a client with the database `dbid` selected. -/
def migrateAttempt (w : Dumping V) (dbid : Nat) (argv : List Bytes) (a : Attempt)
    (again : Option (Server V → List Bytes → Migrated V)) (s : Server V) (written : List Bytes) : Migrated V :=
  match parseOptions (argv.drop 6) with
  | none => answered s (ascii "-ERR syntax error\r\n") written
  | some options =>
    match Aof.getLongLongFromObject (argv.getD 5 []), Aof.getLongLongFromObject (argv.getD 4 []) with
    | some _, some target =>
      let key := argv.getD 3 []
      let s := (expireIfNeeded s dbid key a.now).1
      match lookupKey (s.db dbid) key with
      | none => answered s (ascii "+NOKEY\r\n") written
      | some o =>
        match a.noSocket with
        | some reply => answered s reply written
        | none =>
          let ttl := migrateTtl (getExpire (s.db dbid) key) a.mstime
          converse again s dbid key options.copy (written ++ [restoreText w target key ttl o options.replace])
            a.exchange
    | _, _ => answered s (ascii "-ERR value is not an integer or out of range\r\n") written

def migrateCommand (w : Dumping V) (dbid : Nat) (argv : List Bytes) (first second : Attempt) (s : Server V) :
    Migrated V :=
  migrateAttempt w dbid argv first (some (migrateAttempt w dbid argv second none)) s []

/-- `call` of MIGRATE: the command as it is rewritten is propagated if something is dirty. -/
def callMigrate (w : Dumping V) (dbid : Nat) (argv : List Bytes) (first second : Attempt) (s : Server V) :
    Server V :=
  let r := migrateCommand w dbid argv first second s
  match r.rewritten with
  | some cmd => if r.dirty ≠ 0 then propagate r.server { dbid := dbid, cmd := cmd } else r.server
  | none => r.server

/-! ## What MIGRATE owes -/

/-- The key is there, and the lookup at the time `now` leaves it. -/
def LiveAt (s : Server V) (dbid : Nat) (key : Bytes) (now : Int) : Prop :=
  dbExists ((expireIfNeeded s dbid key now).1.db dbid) key = true

def Exchange.Accepts (e : Exchange) : Prop :=
  ∃ buf1 buf2, e = .replies buf1 buf2 ∧ buf1.head? ≠ some 45 ∧ buf2.head? ≠ some 45

def Exchange.Retries (e : Exchange) : Prop := e = .writeFails false ∨ e = .readFails false

/-- The target takes the key, in the first attempt or in the retry. -/
def TargetTakes (s : Server V) (dbid : Nat) (key : Bytes) (first second : Attempt) : Prop :=
  LiveAt s dbid key first.now ∧ first.noSocket = none ∧
    (first.exchange.Accepts ∨
      first.exchange.Retries ∧ LiveAt s dbid key second.now ∧ second.noSocket = none ∧ second.exchange.Accepts)

/-- The key is found to have expired, by the first lookup or by the one of the retry. -/
def ExpiresMeanwhile (s : Server V) (dbid : Nat) (key : Bytes) (first second : Attempt) : Prop :=
  ¬ LiveAt s dbid key first.now ∨
    first.noSocket = none ∧ first.exchange.Retries ∧ ¬ LiveAt s dbid key second.now

/-- The arguments are in order: their options. -/
def migrateOptions (argv : List Bytes) : Option Options :=
  if (Aof.getLongLongFromObject (argv.getD 5 [])).isSome ∧ (Aof.getLongLongFromObject (argv.getD 4 [])).isSome then
    parseOptions (argv.drop 6)
  else none

/-- What was fed from `s` to `t` takes a replica, or a server that loads the AOF, from the databases of `s`
to those of `t`. -/
def Reproduces (s t : Server V) : Prop :=
  ∃ es, t.slaves = s.slaves ++ es ∧ t.aof = (if s.aof_state_on then s.aof ++ es else s.aof) ∧
    ∀ r : Server V, (r.masterhost = true ∨ r.loading = true) → r.db = s.db →
      ∀ rs, rs.map Prod.fst = es → (replay r rs).db = t.db

/-- A key that is gone has expired, or the target has taken it and COPY was not given; and what was done is
what is propagated. -/
structure MigratesRight (s : Server V) (dbid : Nat) (argv : List Bytes) (first second : Attempt) (t : Server V) :
    Prop where
  kept : ∀ dbid' key', dbExists (s.db dbid') key' = true → dbExists (t.db dbid') key' = false →
    dbid' = dbid ∧ key' = argv.getD 3 [] ∧
      (ExpiresMeanwhile s dbid key' first second ∨
        TargetTakes s dbid key' first second ∧ ∃ o, migrateOptions argv = some o ∧ o.copy = false)
  propagated : Reproduces s t

end RedisCluster.Keyspace
