import RedisCluster.Multi.Server

/-!
# `processCommand`, `call` and EXEC

From a command a client sent to its place in the queue of a transaction or to its call, with every
exit of `processCommand`, and what `call` and EXEC propagate. The force flags of a client and
`also_propagate` live from the start of a `call` to its end, so they are the result of the procedure
here. Monitors, the slow log and statistics are left out.
-/

namespace RedisCluster.Multi

open RedisCluster.Bus

variable {δ ν : Type}

/-! ## Propagation -/

def propagate (o : Origin) (op : RedisOp) (s : Server δ ν) : Server δ ν :=
  let entry : Entry := ⟨o, op.db, op.argv⟩
  { s with
    aof := if s.live.conditions.aof_state ≠ .off ∧ op.aof then s.aof ++ [entry] else s.aof
    repl := if op.repl then s.repl ++ [entry] else s.repl }

/-- What a procedure leaves for the rest of `call`. -/
structure Outcome where
  argv : List Bytes
  also : List RedisOp
  force_aof : Bool
  force_repl : Bool
  deriving DecidableEq, Repr

/-- `propagate` of the command itself: it changed the dataset, or asks to be propagated. -/
def propagateCommand (o : Origin) (c : ClientId) (dirty : Int) (out : Outcome) (s : Server δ ν) :
    Server δ ν :=
  let aof := out.force_aof || dirty ≠ 0
  let repl := out.force_repl || dirty ≠ 0
  if aof || repl then
    propagate o { db := (s.client c).session.db, argv := out.argv, aof := aof, repl := repl } s
  else s

def callPoint (o : Origin) (c : ClientId) (cmd : RedisCommand) (argv : List Bytes)
    (s : Server δ ν) : CallPoint δ ν :=
  { origin := o, client := c, cmd := cmd, argv := argv, data := s.live.data
    conditions := s.live.conditions, session := (s.client c).session }

/-- `call` with `REDIS_CALL_FULL`, around the procedure `body`. -/
def callWith (o : Origin) (c : ClientId) (cmd : RedisCommand) (argv : List Bytes)
    (body : Server δ ν → Server δ ν × Outcome) (s : Server δ ν) : Server δ ν :=
  let (t, out) := body (s.note (callPoint o c cmd argv s))
  let t := propagateCommand o c (t.live.dirty - s.live.dirty) out t
  out.also.foldl (fun t op => propagate o op t) t

def quiet (argv : List Bytes) (f : Live δ ν → Live δ ν) (s : Server δ ν) : Server δ ν × Outcome :=
  (s.mapLive f, { argv := argv, also := [], force_aof := false, force_repl := false })

variable (w : World δ ν)

/-- The procedure of a command that no transaction treats in a special way. -/
def procBody (o : Origin) (c : ClientId) (proc : Proc) (argv : List Bytes) (s : Server δ ν) :
    Server δ ν × Outcome :=
  let e := w.proc proc argv c s.live
  ((s.mapLive fun t => t.perform e c).feed o e.fed,
    { argv := e.argv, also := e.also, force_aof := e.force_aof, force_repl := e.force_repl })

/-! ## Transactions -/

def unwatchAllKeys (c : ClientId) (s : Live δ ν) : Live δ ν :=
  { s with data := w.unwatchAllKeys c s.data }

def discardTransaction (c : ClientId) (s : Live δ ν) : Live δ ν :=
  unwatchAllKeys w c
    (s.setClient c
      { s.client c with mstate := [], multi := false, dirty_cas := false, dirty_exec := false })

def flagTransaction (c : ClientId) (s : Server δ ν) : Server δ ν :=
  if (s.client c).multi then s.setClient c { s.client c with dirty_exec := true } else s

def multiCommand (c : ClientId) (s : Live δ ν) : Live δ ν :=
  if (s.client c).multi then s
  else s.setClient c { s.client c with multi := true }

def discardCommand (c : ClientId) (s : Live δ ν) : Live δ ν :=
  if (s.client c).multi then discardTransaction w c s else s

def unwatchCommand (c : ClientId) (s : Live δ ν) : Live δ ν :=
  let s := unwatchAllKeys w c s
  s.setClient c { s.client c with dirty_cas := false }

/-- The procedure of a command of a queue. -/
def queuedBody (o : Origin) (c : ClientId) (m : MultiCmd) (s : Server δ ν) :
    Server δ ν × Outcome :=
  match m.cmd.proc with
  | .unwatchCommand => quiet m.argv (unwatchCommand w c) s
  | proc => procBody w o c proc m.argv s

def multistring : Bytes := [77, 85, 76, 84, 73]

def execCommandPropagateMulti (n : Nat) (c : ClientId) (s : Server δ ν) : Server δ ν :=
  propagate (.multi n)
    { db := (s.client c).session.db, argv := [multistring], aof := true, repl := true } s

def queuedCall (n : Nat) (c : ClientId) (s : Server δ ν) (m : MultiCmd) : Server δ ν :=
  callWith (.queued n) c m.cmd m.argv (queuedBody w (.queued n) c m) s

/-- The loop of `execCommand`; the second result is `must_propagate`. -/
def execLoop (n : Nat) (c : ClientId) : List MultiCmd → Bool → Server δ ν → Server δ ν × Bool
  | [], must_propagate, s => (s, must_propagate)
  | m :: queue, must_propagate, s =>
    let first := !must_propagate && !m.cmd.flags.readonly
    let s := if first then execCommandPropagateMulti n c s else s
    execLoop n c queue (must_propagate || first) (queuedCall w n c s m)

/-- The reply to EXEC: an error, or the replies of the commands that ran. -/
inductive ExecReply where
  | withoutMulti
  | execabort
  | nullmultibulk
  | replies (count : Nat)
  deriving DecidableEq, Repr

def execCommand (c : ClientId) (s : Server δ ν) : Server δ ν × ExecReply :=
  let x := s.client c
  if !x.multi then (s, .withoutMulti)
  else if x.dirty_cas || x.dirty_exec then
    (s.mapLive (discardTransaction w c), if x.dirty_exec then .execabort else .nullmultibulk)
  else
    let n := s.execs
    let (t, must_propagate) := execLoop w n c x.mstate false (s.mapLive (unwatchAllKeys w c))
    let t := t.mapLive (discardTransaction w c)
    let t := if must_propagate then t.mapLive fun t => { t with dirty := t.dirty + 1 } else t
    ({ t with execs := n + 1 }, .replies x.mstate.length)

/-- The answer of a called command, where it is about a transaction. -/
inductive CallReply where
  | multi
  | nestedMulti
  | watchInsideMulti
  | discard
  | discardWithoutMulti
  | exec (reply : ExecReply)
  | other
  deriving DecidableEq, Repr

/-- `call` for a command that a client sent. -/
def call (c : ClientId) (cmd : RedisCommand) (argv : List Bytes) (s : Server δ ν) :
    Server δ ν × CallReply :=
  let x := s.client c
  let direct := callWith (.command c) c cmd argv
  match cmd.proc with
  | .execCommand =>
    -- a transaction that runs has the number `execs`
    (callWith (.exec s.execs) c cmd argv (fun s => ((execCommand w c s).1, ⟨argv, [], false, false⟩)) s,
      .exec (execCommand w c s).2)
  | .multiCommand =>
    (direct (quiet argv (multiCommand c)) s, if x.multi then .nestedMulti else .multi)
  | .discardCommand =>
    (direct (quiet argv (discardCommand w c)) s,
      if x.multi then .discard else .discardWithoutMulti)
  | .watchCommand =>
    if x.multi then (direct (quiet argv id) s, .watchInsideMulti)
    else (direct (procBody w (.command c) c .watchCommand argv) s, .other)
  | .unwatchCommand => (direct (quiet argv (unwatchCommand w c)) s, .other)
  | proc => (direct (procBody w (.command c) c proc argv) s, .other)

/-! ## Cluster redirection -/

/-- The result of `getNodeByQuery`. -/
inductive Route where
  | node (n : Addr) (hashslot : Nat) (ask : Bool)
  | crossSlot
  | unstable
  /-- The assertion on the first key's node, or on the number of arguments, failed. -/
  | assertion
  deriving DecidableEq, Repr

/-- The variables of the loop of `getNodeByQuery`, once there is a first key. -/
structure KeyScan where
  firstkey : Bytes
  slot : Nat
  n : Addr
  migrating_slot : Bool
  importing_slot : Bool
  multiple_keys : Bool
  missing_keys : Nat
  deriving DecidableEq, Repr

def lookupKeyRead (key : Bytes) (s : Server δ ν) : Server δ ν × Bool :=
  let r := w.lookupKeyRead key s.live
  ((s.mapLive fun t => { t with data := r.data }).feed .server r.fed, r.found)

/-- What the first key of a query says: the slot, its node, and whether the slot is moving. -/
def firstKey (c : BusState ν) (key : Bytes) : Except Route KeyScan :=
  let slot := keyHashSlot key
  match c.slots slot with
  | none => .error .assertion
  | some n =>
    let migrating := n == c.myself && (c.migrating_slots_to slot).isSome
    .ok
      { firstkey := key, slot := slot, n := n, migrating_slot := migrating
        importing_slot := !migrating && (c.importing_slots_from slot).isSome
        multiple_keys := false, missing_keys := 0 }

def nextKey (r : KeyScan) (key : Bytes) : Except Route KeyScan :=
  if r.firstkey = key then .ok r
  else if r.slot ≠ keyHashSlot key then .error .crossSlot
  else .ok { r with multiple_keys := true }

/-- One round of the loop of `getNodeByQuery`. -/
def scanKey (r : Option KeyScan) (key : Bytes) (s : Server δ ν) :
    Server δ ν × Except Route KeyScan :=
  match r.elim (firstKey s.live.conditions.cluster key) (fun r => nextKey r key) with
  | .error e => (s, .error e)
  | .ok r =>
    if r.migrating_slot || r.importing_slot then
      let (s, found) := lookupKeyRead w key s
      (s, .ok (if found then r else { r with missing_keys := r.missing_keys + 1 }))
    else (s, .ok r)

def scanKeys : List Bytes → Option KeyScan → Server δ ν → Server δ ν × Except Route (Option KeyScan)
  | [], r, s => (s, .ok r)
  | key :: keys, r, s =>
    match scanKey w r key s with
    | (s, .error e) => (s, .error e)
    | (s, .ok r) => scanKeys keys (some r) s

/-- The loop over the commands of a transaction, or over the one command. -/
def scanCommands : List (RedisCommand × List Bytes) → Option KeyScan → Server δ ν →
    Server δ ν × Except Route (Option KeyScan)
  | [], r, s => (s, .ok r)
  | (cmd, argv) :: cmds, r, s =>
    match commandKeys cmd argv with
    | none => (s, .error .assertion)
    | some keys =>
      match scanKeys w keys r s with
      | (s, .error e) => (s, .error e)
      | (s, .ok r) => scanCommands cmds r s

/-- What follows the loop of `getNodeByQuery`. -/
def routeQuery (c : BusState ν) (x : Session) (cmd : RedisCommand) : Option KeyScan → Route
  | none => .node c.myself 0 false
  | some r =>
    if r.migrating_slot && r.missing_keys ≠ 0 then
      .node ((c.migrating_slots_to r.slot).getD c.myself) r.slot true
    else if r.importing_slot && (x.asking || cmd.flags.asking) then
      if r.multiple_keys && r.missing_keys ≠ 0 then .unstable else .node c.myself r.slot false
    else if x.readonly && cmd.flags.readonly && c.nodeIsSlave c.myself &&
        (c.node c.myself).slaveof == some r.n then
      .node c.myself r.slot false
    else .node r.n r.slot false

/-- The commands a query is about: those of the transaction for EXEC, else the command itself. -/
def queryCommands (x : Client) (cmd : RedisCommand) (argv : List Bytes) :
    List (RedisCommand × List Bytes) :=
  if cmd.proc = .execCommand then x.mstate.map fun m => (m.cmd, m.argv) else [(cmd, argv)]

def getNodeByQuery (c : ClientId) (cmd : RedisCommand) (argv : List Bytes) (s : Server δ ν) :
    Server δ ν × Route :=
  if cmd.proc = .execCommand ∧ (s.client c).multi = false then
    (s, .node s.live.conditions.cluster.myself 0 false)
  else
    match scanCommands w (queryCommands (s.client c) cmd argv) none s with
    | (t, .error e) => (t, e)
    | (t, .ok r) => (t, routeQuery t.live.conditions.cluster (s.client c).session cmd r)

/-! ## The exits of `processCommand` -/

/-- The errors of `processCommand`. -/
inductive Rejection where
  | unknownCommand (name : Bytes)
  | wrongArity (name : Bytes)
  | noauth
  | clusterdown
  | crossslot
  | tryagain
  | ask (hashslot : Nat) (ip : String) (port : Nat)
  | moved (hashslot : Nat) (ip : String) (port : Nat)
  | oom
  | bgsave
  | misconf (error : String)
  | noreplicas
  | roslave
  | pubsub
  | masterdown
  | loading
  | slowscript
  deriving DecidableEq, Repr

/-- An argument of `%s` in `addReplyErrorFormat`, which turns newlines into spaces. -/
def text (s : Bytes) : String :=
  String.ofList ((cstr s).map fun b => if b = 13 ∨ b = 10 then ' ' else Char.ofNat b.toNat)

def Rejection.reply : Rejection → String
  | unknownCommand name => s!"-ERR unknown command '{text name}'\r\n"
  | wrongArity name => s!"-ERR wrong number of arguments for '{text name}' command\r\n"
  | noauth => "-NOAUTH Authentication required.\r\n"
  | clusterdown => "-CLUSTERDOWN The cluster is down. Use CLUSTER INFO for more information\r\n"
  | crossslot => "-CROSSSLOT Keys in request don't hash to the same slot\r\n"
  | tryagain => "-TRYAGAIN Multiple keys request during rehashing of slot\r\n"
  | ask hashslot ip port => s!"-ASK {hashslot} {ip}:{port}\r\n"
  | moved hashslot ip port => s!"-MOVED {hashslot} {ip}:{port}\r\n"
  | oom => "-OOM command not allowed when used memory > 'maxmemory'.\r\n"
  | bgsave =>
    "-MISCONF Redis is configured to save RDB snapshots, but is currently not able to persist on disk. Commands that may modify the data set are disabled. Please check Redis logs for details about the error.\r\n"
  | misconf error => s!"-MISCONF Errors writing to the AOF file: {error}\r\n"
  | noreplicas => "-NOREPLICAS Not enough good slaves to write.\r\n"
  | roslave => "-READONLY You can't write against a read only slave.\r\n"
  | pubsub =>
    "-ERR only (P)SUBSCRIBE / (P)UNSUBSCRIBE / QUIT allowed in this context\r\n"
  | masterdown =>
    "-MASTERDOWN Link with MASTER is down and slave-serve-stale-data is set to 'no'.\r\n"
  | loading => "-LOADING Redis is loading the dataset in memory\r\n"
  | slowscript =>
    "-BUSY Redis is busy running a script. You can only call SCRIPT KILL or SHUTDOWN NOSAVE.\r\n"

namespace Conditions

variable (g : Conditions ν)

def wrongArity (cmd : RedisCommand) (argc : Nat) : Bool :=
  (0 < cmd.arity && cmd.arity ≠ argc) || (argc : Int) < -cmd.arity

def noauth (x : Session) (cmd : RedisCommand) : Bool :=
  g.requirepass && !x.authenticated && cmd.proc ≠ .authCommand

def redirects (x : Session) (cmd : RedisCommand) : Bool :=
  g.cluster_enabled && !x.master && !cmd.keyless

def diskError (cmd : RedisCommand) : Bool :=
  ((g.stop_writes_on_bgsave_err && 0 < g.saveparamslen && g.lastbgsave_err) ||
      g.aof_last_write_err.isSome) &&
    !g.masterhost && (cmd.flags.write || cmd.proc = .pingCommand)

def fewSlaves (cmd : RedisCommand) : Bool :=
  g.repl_min_slaves_to_write ≠ 0 && g.repl_min_slaves_max_lag ≠ 0 && cmd.flags.write &&
    g.repl_good_slaves_count < g.repl_min_slaves_to_write

def roslave (x : Session) (cmd : RedisCommand) : Bool :=
  g.masterhost && g.repl_slave_ro && !x.master && cmd.flags.write

def subscribed (x : Session) (cmd : RedisCommand) : Bool :=
  (0 < x.channels || 0 < x.patterns) && cmd.proc ≠ .subscribeCommand &&
    cmd.proc ≠ .unsubscribeCommand && cmd.proc ≠ .psubscribeCommand &&
    cmd.proc ≠ .punsubscribeCommand

def staleSlave (cmd : RedisCommand) : Bool :=
  g.masterhost && !g.repl_connected && !g.repl_serve_stale_data && !cmd.flags.stale

def stillLoading (cmd : RedisCommand) : Bool := g.loading && !cmd.flags.loading

def slowScript (cmd : RedisCommand) (argv : List Bytes) : Bool :=
  g.lua_timedout && cmd.proc ≠ .authCommand && cmd.proc ≠ .replconfCommand &&
    !(cmd.proc = .shutdownCommand && argv.length = 2 && firstLetter (argv.getD 1 []) = 110) &&
    !(cmd.proc = .scriptCommand && argv.length = 2 && firstLetter (argv.getD 1 []) = 107)

end Conditions

/-- The answer of `processCommand`; `ignored` and `assertion` stand for a process or a client that
is gone. -/
inductive Answer where
  | closed
  | rejected (error : Rejection)
  | queued
  | called (reply : CallReply)
  | assertion
  | ignored
  deriving DecidableEq, Repr

def reject (c : ClientId) (error : Rejection) (s : Server δ ν) : Server δ ν × Option Answer :=
  (flagTransaction c s, some (.rejected error))

def rejectSilently (error : Rejection) (s : Server δ ν) : Server δ ν × Option Answer :=
  (s, some (.rejected error))

/-- The redirections; `none` lets the command pass. -/
def checkCluster (c : ClientId) (cmd : RedisCommand) (argv : List Bytes) (s : Server δ ν) :
    Server δ ν × Option Answer :=
  if !s.live.conditions.redirects (s.client c).session cmd then (s, none)
  else if !s.live.conditions.cluster.ok then reject c .clusterdown s
  else
    let (s, route) := getNodeByQuery w c cmd argv s
    let cl := s.live.conditions.cluster
    match route with
    | .crossSlot => reject c .crossslot s
    | .unstable => reject c .tryagain s
    | .assertion => ({ s with panicked := true }, some .assertion)
    | .node n hashslot ask =>
      if n = cl.myself then (s, none)
      else if ask then reject c (.ask hashslot (cl.info n).ip (cl.info n).port) s
      else reject c (.moved hashslot (cl.info n).ip (cl.info n).port) s

def checkMemory (c : ClientId) (cmd : RedisCommand) (s : Server δ ν) :
    Server δ ν × Option Answer :=
  if s.live.conditions.maxmemory = 0 then (s, none)
  else
    let r := w.freeMemoryIfNeeded s.live
    let s := (s.mapLive fun t => { t with data := r.data }).feed .server r.fed
    if cmd.flags.denyoom && !r.found then reject c .oom s else (s, none)

/-- The checks from the disk errors to the slow script. -/
def checkState (c : ClientId) (cmd : RedisCommand) (argv : List Bytes) (s : Server δ ν) :
    Server δ ν × Option Answer :=
  let g := s.live.conditions
  let x := (s.client c).session
  if g.diskError cmd then
    reject c (match g.aof_last_write_err with | none => .bgsave | some e => .misconf e) s
  else if g.fewSlaves cmd then reject c .noreplicas s
  else if g.roslave x cmd then rejectSilently .roslave s
  else if Conditions.subscribed x cmd then rejectSilently .pubsub s
  else if g.staleSlave cmd then reject c .masterdown s
  else if g.stillLoading cmd then rejectSilently .loading s
  else if g.slowScript cmd argv then reject c .slowscript s
  else (s, none)

/-- Go on with the next check unless the command was answered. -/
def orElse (r : Server δ ν × Option Answer) (next : Server δ ν → Server δ ν × Option Answer) :
    Server δ ν × Option Answer :=
  match r.2 with
  | some a => (r.1, some a)
  | none => next r.1

def checkCommand (c : ClientId) (cmd : RedisCommand) (argv : List Bytes) (s : Server δ ν) :
    Server δ ν × Option Answer :=
  if Conditions.wrongArity cmd argv.length then reject c (.wrongArity cmd.name) s
  else if s.live.conditions.noauth (s.client c).session cmd then reject c .noauth s
  else
    orElse (checkCluster w c cmd argv s) fun s =>
      orElse (checkMemory w c cmd s) fun s => checkState c cmd argv s

def queueMultiCommand (c : ClientId) (m : MultiCmd) (s : Server δ ν) : Server δ ν :=
  s.setClient c { s.client c with mstate := (s.client c).mstate ++ [m] }

def quitstring : Bytes := [113, 117, 105, 116]

def processCommand (c : ClientId) (argv : List Bytes) (s : Server δ ν) : Server δ ν × Answer :=
  let name := argv.headD []
  if sameCaseless name quitstring then
    let x := s.client c
    (s.setClient c { x with session := { x.session with close_after_reply := true } }, .closed)
  else
    match w.commands name with
    | none => (flagTransaction c s, .rejected (.unknownCommand name))
    | some cmd =>
      match checkCommand w c cmd argv s with
      | (s, some a) => (s, a)
      | (s, none) =>
        if h : (s.client c).multi = true ∧ cmd.Queueable then
          (queueMultiCommand c ⟨cmd, argv, h.2⟩ s, .queued)
        else
          let (s, reply) := call w c cmd argv s
          (s, .called reply)

/-- `resetClient`: the ASKING flag is for one command, or for one transaction. -/
def resetClient (c : ClientId) (asked : Bool) (s : Server δ ν) : Server δ ν :=
  let x := s.client c
  if !x.multi && !asked then s.setClient c { x with session := { x.session with asking := false } }
  else s

end RedisCluster.Multi
