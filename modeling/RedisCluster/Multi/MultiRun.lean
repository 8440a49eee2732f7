import RedisCluster.Cluster.BusRun
import RedisCluster.Multi.Processing
import RedisCluster.Lib.Brackets

/-!
# Runs of the server

A run is a list of events: a client's next command comes to `processCommand`, a client comes or goes,
or some other part of the server does its work. That work may change the keyspace, the dirty counter
and all the conditions, touch watched keys, and feed commands to the AOF and to the slaves.
-/

namespace RedisCluster.Multi

open RedisCluster.Lib

/-- What the other parts of the server leave behind: cron jobs, replication, the cluster bus, clients
served with list elements, the end of a save. -/
structure Background (δ ν : Type) where
  data : δ
  dirty : Int
  conditions : Conditions ν
  touched : List ClientId
  fed : Fed

inductive Event (δ ν : Type) where
  | request (c : ClientId) (argv : List Bytes)
  | createClient (c : ClientId) (master : Bool)
  | freeClient (c : ClientId)
  | background (b : Background δ ν)

variable {δ ν : Type}

/-- A client after `createClient`; `master` is for the link of a slave to its master. -/
def newClient (master : Bool) : Client :=
  { session :=
      { authenticated := master, master := master, asking := false, readonly := false
        close_after_reply := false, db := 0, channels := 0, patterns := 0 }
    multi := false, dirty_cas := false, dirty_exec := false, mstate := [] }

/-- A client that is gone sends no more commands. -/
def freedClient : Client :=
  let x := newClient false
  { x with session := { x.session with close_after_reply := true } }

variable (w : World δ ν)

/-- The part of `processInputBuffer` after the parsing of a command. -/
def request (c : ClientId) (argv : List Bytes) (s : Server δ ν) : Server δ ν × Answer :=
  if s.panicked || (s.client c).session.close_after_reply then (s, .ignored)
  else
    let (s, a) := processCommand w c argv s
    if a = .closed ∨ a = .assertion then (s, a)
    else
      let asked := (w.commands (argv.headD [])).any fun cmd => cmd.proc = .askingCommand
      (resetClient c asked s, a)

def background (b : Background δ ν) (s : Server δ ν) : Server δ ν :=
  (s.mapLive fun t =>
    { t with data := b.data, dirty := b.dirty, conditions := b.conditions }.touch b.touched).feed
      .server b.fed

def step (s : Server δ ν) : Event δ ν → Server δ ν
  | .request c argv => (request w c argv s).1
  | .createClient c master => if s.panicked then s else s.setClient c (newClient master)
  | .freeClient c =>
    if s.panicked then s else (s.mapLive (discardTransaction w c)).setClient c freedClient
  | .background b => if s.panicked then s else background b s

/-- A server that just started: no command was fed, no client is there. -/
def initServer (data : δ) (conditions : Conditions ν) : Server δ ν :=
  { live := { data := data, dirty := 0, conditions := conditions, client := fun _ => freedClient }
    aof := [], repl := [], panicked := false, calls := [], execs := 0 }

/-! ## Transactions in a run -/

/-- The answer to a command of the client. -/
def answerTo (c : ClientId) (s : Server δ ν) : Event δ ν → Option Answer
  | .request d argv => if d = c then some (request w d argv s).2 else none
  | _ => none

/-- The answers after which a client has no transaction any more, or the same one no more. -/
def Answer.ends : Answer → Bool
  | .called .discard => true
  | .called (.exec _) => true
  | _ => false

/-- The transaction of the client goes on. -/
def StaysOpen (c : ClientId) (s : Server δ ν) : Event δ ν → Prop
  | .createClient d _ => d ≠ c
  | .freeClient d => d ≠ c
  | e => (answerTo w c s e).all fun a => !a.ends

instance decidableStaysOpen (c : ClientId) (s : Server δ ν) :
    (e : Event δ ν) → Decidable (StaysOpen w c s e)
  | .createClient d _ => inferInstanceAs (Decidable (d ≠ c))
  | .freeClient d => inferInstanceAs (Decidable (d ≠ c))
  | .request _ _ => inferInstanceAs (Decidable (_ = true))
  | .background _ => inferInstanceAs (Decidable (_ = true))

/-- `processCommand` answers a command of the client with an error. -/
def Rejects (c : ClientId) (s : Server δ ν) (e : Event δ ν) : Prop :=
  ∃ error, answerTo w c s e = some (.rejected error)

/-- Some event of the run meets `p` in the state it is performed in. -/
def RunHas (p : Server δ ν → Event δ ν → Prop) (s : Server δ ν) (es : List (Event δ ν)) : Prop :=
  ¬ RunMeets (step w) (fun s e => ¬ p s e) s es

/-- The command passes the checks before those of the state of the server. -/
def ReachesState (c : ClientId) (cmd : RedisCommand) (argv : List Bytes) (s : Server δ ν) : Prop :=
  Conditions.wrongArity cmd argv.length = false ∧
    s.live.conditions.noauth (s.client c).session cmd = false ∧
    (checkCluster w c cmd argv s).2 = none ∧
    (checkMemory w c cmd (checkCluster w c cmd argv s).1).2 = none

/-- The command passes the checks of the disk and of the slaves, and is refused as a write on a
read-only slave, or because of subscriptions, or while loading. -/
def StateSilent (cmd : RedisCommand) (g : Conditions ν) (x : Session) (error : Rejection) : Prop :=
  g.diskError cmd = false ∧ g.fewSlaves cmd = false ∧
    (error = .roslave ∧ g.roslave x cmd = true ∨
      error = .pubsub ∧ g.roslave x cmd = false ∧ Conditions.subscribed x cmd = true ∨
      error = .loading ∧ g.roslave x cmd = false ∧ Conditions.subscribed x cmd = false ∧
        g.staleSlave cmd = false ∧ g.stillLoading cmd = true)

/-- A command of the client comes to one of the two checks that leave its transaction as it is: it is
a write on a read-only slave, or the server is loading. -/
def RefusedSilently (c : ClientId) (s : Server δ ν) : Event δ ν → Prop
  | .request d argv =>
    d = c ∧ s.panicked = false ∧ (s.client c).session.close_after_reply = false ∧
      sameCaseless (argv.headD []) quitstring = false ∧
      ∃ cmd, w.commands (argv.headD []) = some cmd ∧ ReachesState w c cmd argv s ∧
        (StateSilent cmd s.live.conditions (s.client c).session .roslave ∨
          StateSilent cmd s.live.conditions (s.client c).session .loading)
  | _ => False

/-- EXEC runs none of the queued commands: the only call is that of EXEC itself. -/
def ExecAborts (c : ClientId) (argv : List Bytes) (s : Server δ ν) : Prop :=
  (request w c argv s).2 = .called (.exec .execabort) ∧
    (request w c argv s).1.calls.length = s.calls.length + 1

/-! ## The gates of a command -/

/-- The server did something of its own from `s` to `t`. -/
structure Aside (s t : Server δ ν) : Prop where
  live : ∃ d, t.live = { s.live with data := d }
  aof : ∃ l, t.aof = s.aof ++ l ∧ ∀ e ∈ l, e.origin = .server
  repl : ∃ l, t.repl = s.repl ++ l ∧ ∀ e ∈ l, e.origin = .server
  panicked : t.panicked = s.panicked
  calls : t.calls = s.calls
  execs : t.execs = s.execs

/-- `lookupKeyRead` finds the key, perhaps after the server did something of its own. -/
def WasFound (s : Server δ ν) (key : Bytes) : Prop :=
  ∃ t, Aside s t ∧ (w.lookupKeyRead key t.live).found = true

/-- This node serves the keys of a command, which all hash to `slot`: it owns the slot and has the keys
if the slot moves to another node; or it imports the slot, the client is ASKING or the command is
flagged so, and it has the keys if there are several; or the client is READONLY, the command is
read-only, and the node is a slave of the slot's owner. -/
def Serves (x : Session) (cmd : RedisCommand) (keys : List Bytes) (slot : Nat) (s : Server δ ν) :
    Prop :=
  let cl := s.live.conditions.cluster
  (cl.slots slot = some cl.myself ∧
      ∀ n, cl.migrating_slots_to slot = some n → n ≠ cl.myself → ∀ k ∈ keys, WasFound w s k) ∨
    ((cl.importing_slots_from slot).isSome = true ∧ (x.asking || cmd.flags.asking) = true ∧
      ((∃ k ∈ keys, ∃ k' ∈ keys, k ≠ k') → ∀ k ∈ keys, WasFound w s k)) ∨
    (x.readonly = true ∧ cmd.flags.readonly = true ∧ cl.nodeIsSlave cl.myself = true ∧
      ∃ n, (cl.node cl.myself).slaveof = some n ∧ cl.slots slot = some n)

/-- What `processCommand` makes sure of for a command of a client that is not the master link: a write
does not meet a read-only slave, and in cluster mode all keys hash to one slot, which this node
serves. -/
def Gate (c : ClientId) (cmd : RedisCommand) (argv : List Bytes) (s : Server δ ν) : Prop :=
  let g := s.live.conditions
  let x := (s.client c).session
  x.master = false →
    (cmd.flags.write = true → ¬ (g.masterhost = true ∧ g.repl_slave_ro = true)) ∧
    (g.cluster_enabled = true → cmd.proc ≠ .execCommand →
      ∃ keys, commandKeys cmd argv = some keys ∧
        (keys = [] ∨ g.cluster.ok = true ∧
          ∃ slot, (∀ k ∈ keys, keyHashSlot k = slot) ∧ Serves w x cmd keys slot s))

/-- The call is for a command that the client sent, or for a queued one. In the run `es` the command
was received at some point, it passed the gates there, and a direct call found the conditions and the
session of that point. -/
def PassedGates (s : Server δ ν) (es : List (Event δ ν)) (p : CallPoint δ ν) : Prop :=
  ∃ before after, es = before ++ .request p.client p.argv :: after ∧
    Gate w p.client p.cmd p.argv (run (step w) s before) ∧
    ((∀ n, p.origin ≠ .queued n) →
      p.conditions = (run (step w) s before).live.conditions ∧
        p.session = ((run (step w) s before).client p.client).session)

/-! ## A small server

GET, SET, RESTORE-ASKING, SAVE and READONLY as rows of the table, with what they do to the dirty counter and to the
session. -/

def asciiBytes (s : String) : Bytes := s.toList.map fun c => UInt8.ofNat c.toNat

def plainFlags : CommandFlags :=
  { write := false, readonly := false, denyoom := false, loading := false, stale := false
    asking := false }

def keylessRow (name : String) (proc : Proc) (arity : Int) (flags : CommandFlags) : RedisCommand :=
  { name := asciiBytes name, proc := proc, arity := arity, flags := flags, getkeys_proc := none
    firstkey := 0, lastkey := 0, keystep := 0, keystep_pos := fun h => absurd rfl h }

def oneKeyRow (name : String) (proc : Proc) (arity : Int) (flags : CommandFlags) : RedisCommand :=
  { name := asciiBytes name, proc := proc, arity := arity, flags := flags, getkeys_proc := none
    firstkey := 1, lastkey := 1, keystep := 1, keystep_pos := fun _ => Nat.one_pos }

def smallTable : List RedisCommand :=
  [oneKeyRow "get" (.other 0) 2 { plainFlags with readonly := true },
    oneKeyRow "set" (.other 1) (-3) { plainFlags with write := true, denyoom := true },
    oneKeyRow "restore-asking" (.other 1) (-4) { plainFlags with write := true, asking := true },
    keylessRow "save" (.other 2) 1 { plainFlags with readonly := true },
    keylessRow "readonly" (.other 3) 1 { plainFlags with readonly := true },
    keylessRow "multi" .multiCommand 1 plainFlags,
    keylessRow "exec" .execCommand 1 plainFlags]

/-- A command that changes at most the dirty counter. -/
def dirtyEffect (argv : List Bytes) (c : ClientId) (dirty : Int) (s : Live δ ν) : Effect δ ν :=
  { data := s.data, dirty := dirty, conditions := s.conditions, session := (s.client c).session
    touched := [], fed := ⟨[], []⟩, argv := argv, also := [], force_aof := false
    force_repl := false }

def smallWorld : World Unit Nat :=
  { commands := fun name => smallTable.find? fun cmd => sameCaseless cmd.name name
    proc := fun proc argv c s =>
      match proc with
      | .other 1 => dirtyEffect argv c (s.dirty + 1) s
      | .other 2 => dirtyEffect argv c 0 s
      | .other 3 =>
        { dirtyEffect argv c s.dirty s with session := { (s.client c).session with readonly := true } }
      | _ => dirtyEffect argv c s.dirty s
    lookupKeyRead := fun _ s => { found := true, data := s.data, fed := ⟨[], []⟩ }
    freeMemoryIfNeeded := fun s => { found := true, data := s.data, fed := ⟨[], []⟩ }
    unwatchAllKeys := fun _ d => d }

/-- A master without cluster mode, with the AOF on. -/
def plainConditions : Conditions Nat :=
  { requirepass := false, cluster_enabled := false, cluster := Bus.busInit 0 0 0 false
    maxmemory := 0, stop_writes_on_bgsave_err := true, saveparamslen := 1, lastbgsave_err := false
    aof_last_write_err := none, masterhost := false, repl_min_slaves_to_write := 0
    repl_min_slaves_max_lag := 10, repl_good_slaves_count := 0, repl_slave_ro := true
    repl_connected := true, repl_serve_stale_data := true, loading := false
    lua_timedout := false, aof_state := .on }

/-- In cluster mode, with all slots at the node 1. This is the node 0: a slave of the node 1, or a
master that imports the slots. -/
def clusterConditions (slave : Bool) : Conditions Nat :=
  let cl := Bus.busInit 0 0 0 false
  { plainConditions with
    cluster_enabled := true
    masterhost := slave
    cluster :=
      { cl with
        ok := true
        slots := fun _ => some 1
        importing_slots_from := fun _ => if slave then none else some 1
        node := fun n =>
          { cl.node n with
            flags := { (cl.node n).flags with slave := slave && n = 0, myself := n = 0 }
            slaveof := if slave && n = 0 then some 1 else none } } }

/-- The conditions change, and nothing else. -/
def changesTo (g : Conditions Nat) (dirty : Int) : Event Unit Nat :=
  .background { data := (), dirty := dirty, conditions := g, touched := [], fed := ⟨[], []⟩ }

/-- The server after one client connected. -/
def smallServer (g : Conditions Nat) : Server Unit Nat :=
  step smallWorld (initServer () g) (.createClient 1 false)

/-- The client sends the words of a command. -/
def sends (words : List String) : Event Unit Nat := .request 1 (words.map asciiBytes)

end RedisCluster.Multi

/-!
## Transactions in the propagated stream

In the commands fed to the AOF, and in those fed to the slaves, the entries of the transaction `n` are
the MULTI that `execCommandPropagateMulti` feeds, what the queued commands feed, and EXEC. They have
to form one block.
-/

namespace RedisCluster.Multi

open RedisCluster.Lib

variable {δ ν : Type}

def txRoles (n : Nat) : Roles Entry where
  opening e := e.origin = .multi n
  inner e := e.origin = .queued n
  closing e := e.origin = .exec n
  opening_inner _ h k := Origin.noConfusion (h.symm.trans k)
  opening_closing _ h k := Origin.noConfusion (h.symm.trans k)
  closing_inner _ h k := Origin.noConfusion (h.symm.trans k)

/-- Every MULTI is followed by exactly what its transaction feeds and by one EXEC, with nothing in
between, and there is no EXEC without its MULTI. -/
def WellBracketed (stream : List Entry) : Prop := ∀ n, (txRoles n).Bracketed stream

def blank (t : Live δ ν) : Server δ ν :=
  { live := t, aof := [], repl := [], panicked := false, calls := [], execs := 0 }

def Conditions.feedsAof (g : Conditions ν) : Bool := g.aof_state ≠ .off

variable (w : World δ ν)

/-- The commands of a queue called one after the other. -/
def runQueue (n : Nat) (c : ClientId) (queue : List MultiCmd) (s : Server δ ν) : Server δ ν :=
  queue.foldl (queuedCall w n c) s

section Queue

variable (c : ClientId) (t : Live δ ν)

/-- The commands of the queue before the first one that is not read-only, and those from it on. -/
def readonlyPart : List MultiCmd := (t.client c).mstate.takeWhile fun m => m.cmd.flags.readonly

def writingPart : List MultiCmd := (t.client c).mstate.dropWhile fun m => m.cmd.flags.readonly

/-- The states where MULTI is due and after the last command, of a server that only calls the
queue. -/
def beforeMulti : Server δ ν := runQueue w 0 c (readonlyPart c t) (blank (unwatchAllKeys w c t))

def afterQueue : Server δ ν := runQueue w 0 c (writingPart c t) (blank (beforeMulti w c t).live)

/-- When the queue is called in the state `t`: if all of it is read-only, the counter does not change.
If not, the commands before the first one that is not read-only feed nothing, the counter after the
last command is not one less than at the start, and the AOF is on after the last command if and only if
it is where MULTI is due. -/
def TransactionOk : Prop :=
  if writingPart c t = [] then (beforeMulti w c t).live.dirty = t.dirty
  else
    (afterQueue w c t).live.dirty + 1 ≠ t.dirty ∧ (beforeMulti w c t).repl = [] ∧
      (beforeMulti w c t).live.conditions.feedsAof =
        (afterQueue w c t).live.conditions.feedsAof ∧
      ((beforeMulti w c t).live.conditions.feedsAof = true → (beforeMulti w c t).aof = [])

end Queue

/-- The state in which a request is called, if it is. -/
def atCall (c : ClientId) (argv : List Bytes) (s : Server δ ν) : Live δ ν :=
  ((w.commands (argv.headD [])).elim s fun cmd => (checkCommand w c cmd argv s).1).live

/-- An EXEC that runs its transaction does so in a state that meets the condition. -/
def ExecOk (s : Server δ ν) : Event δ ν → Prop
  | .request c argv =>
    (∃ count, (request w c argv s).2 = .called (.exec (.replies count))) →
      TransactionOk w c (atCall w c argv s)
  | _ => True

end RedisCluster.Multi
