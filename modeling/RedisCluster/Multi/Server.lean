import RedisCluster.Cluster.NodeTable
import RedisCluster.Lib.Run
import RedisCluster.Multi.Command

/-!
# The state `processCommand` works on

The conditions `processCommand` checks, the clients with their transactions, the dirty counter, and
the commands fed to the AOF and to the slaves. The keyspace is an element of `δ`; what the commands
other than those of transactions do to it, and which commands they propagate themselves, is given by
`World`. `origin`, `calls` and `execs` are history: no code reads them.
-/

namespace RedisCluster.Multi

open RedisCluster.Bus

abbrev ClientId := Nat

inductive AofState where
  | off
  | on
  | waitRewrite
  deriving DecidableEq, Repr

/-- What `processCommand` and `propagate` read of the configuration, of replication, of persistence and
of the cluster. -/
structure Conditions (ν : Type) where
  requirepass : Bool
  cluster_enabled : Bool
  cluster : BusState ν
  maxmemory : Nat
  stop_writes_on_bgsave_err : Bool
  saveparamslen : Nat
  /-- `lastbgsave_status == REDIS_ERR`. -/
  lastbgsave_err : Bool
  /-- `aof_last_write_status == REDIS_ERR`, and the text for the error. -/
  aof_last_write_err : Option String
  /-- `masterhost != NULL`. -/
  masterhost : Bool
  repl_min_slaves_to_write : Int
  repl_min_slaves_max_lag : Int
  repl_good_slaves_count : Int
  repl_slave_ro : Bool
  /-- `repl_state == REDIS_REPL_CONNECTED`. -/
  repl_connected : Bool
  repl_serve_stale_data : Bool
  loading : Bool
  lua_timedout : Bool
  aof_state : AofState

/-- The fields of `redisClient` that commands may change for their own client. The two counts are those
of `pubsub_channels` and `pubsub_patterns`. -/
structure Session where
  authenticated : Bool
  master : Bool
  asking : Bool
  readonly : Bool
  close_after_reply : Bool
  db : Nat
  channels : Nat
  patterns : Nat
  deriving DecidableEq, Repr

/-- `processCommand` never queues the commands that handle transactions. -/
def RedisCommand.Queueable (cmd : RedisCommand) : Prop :=
  cmd.proc ≠ .execCommand ∧ cmd.proc ≠ .discardCommand ∧ cmd.proc ≠ .multiCommand ∧
    cmd.proc ≠ .watchCommand

instance (cmd : RedisCommand) : Decidable cmd.Queueable :=
  inferInstanceAs (Decidable (_ ∧ _ ∧ _ ∧ _))

structure MultiCmd where
  cmd : RedisCommand
  argv : List Bytes
  queueable : cmd.Queueable

structure Client where
  session : Session
  multi : Bool
  dirty_cas : Bool
  dirty_exec : Bool
  mstate : List MultiCmd

/-- What the procedures of commands read and write. -/
structure Live (δ ν : Type) where
  data : δ
  dirty : Int
  conditions : Conditions ν
  client : ClientId → Client

/-- Who handed a command to `propagate`: the server itself, `call` for a command of a client, or the
transaction with the number `n`: `execCommandPropagateMulti`, `call` for a queued command, and `call`
for EXEC. -/
inductive Origin where
  | server
  | command (c : ClientId)
  | multi (n : Nat)
  | queued (n : Nat)
  | exec (n : Nat)
  deriving DecidableEq, Repr

/-- A command fed to the AOF or to the slaves, with the database it is for. -/
structure Entry where
  origin : Origin
  db : Nat
  argv : List Bytes
  deriving DecidableEq, Repr

/-- A call of a command, with the state it finds. -/
structure CallPoint (δ ν : Type) where
  origin : Origin
  client : ClientId
  cmd : RedisCommand
  argv : List Bytes
  data : δ
  conditions : Conditions ν
  session : Session

structure Server (δ ν : Type) where
  live : Live δ ν
  aof : List Entry
  repl : List Entry
  /-- A failed assertion: the process is gone. -/
  panicked : Bool
  calls : List (CallPoint δ ν)
  /-- The number of transactions executed. -/
  execs : Nat

/-- `redisOp`. -/
structure RedisOp where
  db : Nat
  argv : List Bytes
  aof : Bool
  repl : Bool
  deriving DecidableEq, Repr

/-- The commands that some code fed to the AOF and to the slaves by itself, as DEL for an expired
key. -/
structure Fed where
  aof : List (Nat × List Bytes)
  repl : List (Nat × List Bytes)
  deriving DecidableEq, Repr

/-- What the procedure of a command leaves behind. `argv` is the argument vector after
`rewriteClientCommandVector`, `also` what it gave to `alsoPropagate`, the force flags those of
`forceCommandPropagation`, and `touched` the clients that `touchWatchedKey` marked. -/
structure Effect (δ ν : Type) where
  data : δ
  dirty : Int
  conditions : Conditions ν
  session : Session
  touched : List ClientId
  fed : Fed
  argv : List Bytes
  also : List RedisOp
  force_aof : Bool
  force_repl : Bool

/-- What `lookupKeyRead` and `freeMemoryIfNeeded` answer and do: `lookupKeyRead` removes an expired
key, `freeMemoryIfNeeded` evicts. -/
structure Lookup (δ : Type) where
  found : Bool
  data : δ
  fed : Fed

/-- The code around transactions. -/
structure World (δ ν : Type) where
  commands : Bytes → Option RedisCommand
  proc : Proc → List Bytes → ClientId → Live δ ν → Effect δ ν
  lookupKeyRead : Bytes → Live δ ν → Lookup δ
  freeMemoryIfNeeded : Live δ ν → Lookup δ
  unwatchAllKeys : ClientId → δ → δ

variable {δ ν : Type}

namespace Live

def setClient (s : Live δ ν) (c : ClientId) (x : Client) : Live δ ν :=
  { s with client := Function.update s.client c x }

/-- `touchWatchedKey` for the clients of the list. -/
def touch (touched : List ClientId) (s : Live δ ν) : Live δ ν :=
  { s with
    client := fun c =>
      { s.client c with dirty_cas := (s.client c).dirty_cas || decide (c ∈ touched) } }

def perform (e : Effect δ ν) (c : ClientId) (s : Live δ ν) : Live δ ν :=
  let s := { s with data := e.data, dirty := e.dirty, conditions := e.conditions }.touch e.touched
  s.setClient c { s.client c with session := e.session }

end Live

namespace Server

def mapLive (s : Server δ ν) (f : Live δ ν → Live δ ν) : Server δ ν := { s with live := f s.live }

def setClient (s : Server δ ν) (c : ClientId) (x : Client) : Server δ ν :=
  s.mapLive fun t => t.setClient c x

abbrev client (s : Server δ ν) (c : ClientId) : Client := s.live.client c

def feed (o : Origin) (fed : Fed) (s : Server δ ν) : Server δ ν :=
  { s with
    aof := s.aof ++ fed.aof.map fun e => ⟨o, e.1, e.2⟩
    repl := s.repl ++ fed.repl.map fun e => ⟨o, e.1, e.2⟩ }

def note (s : Server δ ν) (p : CallPoint δ ν) : Server δ ν := { s with calls := s.calls ++ [p] }

end Server

end RedisCluster.Multi
