import RedisCluster.Aof.Format
import RedisCluster.Multi.MultiRun

/-!
# The slot table between two sleeps

CLUSTER changes the slot table at once, but the cluster state is computed again only by
`clusterBeforeSleep`. Here is the server with the procedure of CLUSTER, and `getNodeByQuery` with the
pointer and the error code it returns. `unowned` is history: the slots without an owner, going by what
the accepted commands took and gave.
-/

namespace RedisCluster.Multi

open RedisCluster.Bus

variable {δ ν : Type}

/-! ## The arguments of CLUSTER -/

def chars (a : Bytes) : String := String.ofList ((cstr a).map fun b => Char.ofNat b.toNat)

/-- An argument that is no number is refused as a slot out of range is. -/
def slotArgument (a : Bytes) : Int := (Aof.getLongLongFromObject a).getD (-1)

def setslotArguments (name : Bytes → ν) (argv : List Bytes) : Option (Command ν) :=
  let action (s : String) := sameCaseless (argv.getD 3 []) (asciiBytes s)
  let slot := slotArgument (argv.getD 2 [])
  let node := name (argv.getD 4 [])
  if action "migrating" && argv.length = 5 then some (.setslotMigrating slot node)
  else if action "importing" && argv.length = 5 then some (.setslotImporting slot node)
  else if action "stable" && argv.length = 4 then some (.setslotStable slot)
  else if action "node" && argv.length = 5 then some (.setslotNode slot node)
  else none

/-- The command in the arguments of CLUSTER; `none` if it is refused for its form, or only reads. -/
def clusterArguments (name : Bytes → ν) (argv : List Bytes) : Option (Command ν) :=
  let word (i : Nat) (s : String) := sameCaseless (argv.getD i []) (asciiBytes s)
  let argc := argv.length
  if word 1 "meet" && argc = 4 then
    (Aof.getLongLongFromObject (argv.getD 3 [])).map fun port => .meet (chars (argv.getD 2 [])) port
  else if word 1 "flushslots" && argc = 2 then some .flushslots
  else if (word 1 "addslots" || word 1 "delslots") && argc ≥ 3 then
    let slots := (argv.drop 2).map slotArgument
    some (if word 1 "delslots" then .delslots slots else .addslots slots)
  else if word 1 "setslot" && argc ≥ 4 then setslotArguments name argv
  else if word 1 "forget" && argc = 3 then some (.forget (name (argv.getD 2 [])))
  else if word 1 "replicate" && argc = 3 then some (.replicate (name (argv.getD 2 [])))
  else if word 1 "failover" && (argc = 2 || argc = 3) then
    if argc = 3 && !word 2 "force" then none else some (.failover (argc = 3))
  else if word 1 "set-config-epoch" && argc = 3 then
    (Aof.getLongLongFromObject (argv.getD 2 [])).map .setConfigEpoch
  else if word 1 "reset" && (argc = 2 || argc = 3) then
    if argc = 3 && !word 2 "hard" && !word 2 "soft" then none
    else some (.reset (argc = 3 && word 2 "hard"))
  else none

/-! ## What a command does to the owners -/

section Owners

variable [LinearOrder ν]

/-- The slot has no owner after the command, if it is accepted. -/
def takesSlot (c : BusState ν) (slot : Nat) : Command ν → Bool
  | .delslots args => (slot : Int) ∈ args
  | .flushslots => slot ∈ (c.node c.myself).slots
  | .forget name => (Bus.clusterLookupNode c name).any fun n => c.slots slot = some n
  | .reset _ => true
  | _ => false

/-- The slot has an owner after the command, if it is accepted. -/
def givesSlot (slot : Nat) : Command ν → Bool
  | .addslots args => (slot : Int) ∈ args
  | .setslotNode arg _ => arg = slot
  | _ => false

def accepted : Bus.Reply ν → Bool
  | .ok => true
  | _ => false

def unownedAfter (cfg : BusConfig) (env : BusEnv ν) (cmd : Command ν) (c : BusState ν)
    (unowned : Nat → Bool) (slot : Nat) : Bool :=
  if accepted (clusterCommand cfg env cmd c).2 then
    unowned slot && !givesSlot slot cmd || takesSlot c slot cmd
  else unowned slot

def runCluster (cfg : BusConfig) : List (BusEnv ν × Command ν) → BusState ν → (Nat → Bool) →
    BusState ν × (Nat → Bool)
  | [], c, unowned => (c, unowned)
  | (env, cmd) :: cmds, c, unowned =>
    runCluster cfg cmds (clusterCommand cfg env cmd c).1 (unownedAfter cfg env cmd c unowned)

end Owners

/-! ## The server with CLUSTER -/

/-- The keyspace with the history. -/
structure Watched (δ : Type) where
  data : δ
  unowned : Nat → Bool

def Live.keyspace (s : Live (Watched δ) ν) : Live δ ν :=
  { data := s.data.data, dirty := s.dirty, conditions := s.conditions, client := s.client }

def Lookup.watched (r : Lookup δ) (unowned : Nat → Bool) : Lookup (Watched δ) :=
  { found := r.found, data := ⟨r.data, unowned⟩, fed := r.fed }

structure ClusterWorld (δ ν : Type) extends World δ ν where
  cfg : BusConfig
  /-- `clusterCommand` in the table of commands. -/
  clusterProc : Proc
  /-- What CLUSTER reads from outside the cluster state. -/
  env : Live δ ν → BusEnv ν
  /-- The node name in an argument. -/
  name : Bytes → ν
  /-- The CLUSTER commands that another procedure runs, as a script may. -/
  scripted : Proc → List Bytes → ClientId → Live δ ν → List (BusEnv ν × Command ν)

namespace ClusterWorld

variable (w : ClusterWorld δ ν)

def clusterCalls (proc : Proc) (argv : List Bytes) (c : ClientId) (s : Live δ ν) :
    List (BusEnv ν × Command ν) :=
  if !s.conditions.cluster_enabled then []
  else if proc = w.clusterProc then
    ((clusterArguments w.name argv).map fun cmd => (w.env s, cmd)).toList
  else w.scripted proc argv c s

variable [LinearOrder ν]

def procEffect (proc : Proc) (argv : List Bytes) (c : ClientId) (s : Live (Watched δ) ν) :
    Effect (Watched δ) ν :=
  let e := w.proc proc argv c s.keyspace
  let r := runCluster w.cfg (w.clusterCalls proc argv c s.keyspace) s.conditions.cluster
    s.data.unowned
  { data := ⟨e.data, r.2⟩, dirty := e.dirty, conditions := { e.conditions with cluster := r.1 }
    session := e.session, touched := e.touched, fed := e.fed, argv := e.argv, also := e.also
    force_aof := e.force_aof, force_repl := e.force_repl }

def world : World (Watched δ) ν :=
  { commands := w.commands
    proc := w.procEffect
    lookupKeyRead := fun key s => (w.lookupKeyRead key s.keyspace).watched s.data.unowned
    freeMemoryIfNeeded := fun s => (w.freeMemoryIfNeeded s.keyspace).watched s.data.unowned
    unwatchAllKeys := fun c d => ⟨w.unwatchAllKeys c d.data, d.unowned⟩ }

end ClusterWorld

/-- The server at the start of an iteration. -/
def watch (s : Server δ ν) : Server (Watched δ) ν :=
  { live :=
      { data := ⟨s.live.data, fun slot => (s.live.conditions.cluster.slots slot).isNone⟩
        dirty := s.live.dirty, conditions := s.live.conditions, client := s.live.client }
    aof := s.aof, repl := s.repl, panicked := s.panicked, calls := [], execs := s.execs }

/-! ## What `getNodeByQuery` returns -/

/-- `REDIS_CLUSTER_REDIR_*`. -/
inductive Redir where
  | none
  | crossSlot
  | unstable
  | ask
  | moved
  deriving DecidableEq, Repr

/-- The node, and what was stored through `hashslot` and `error_code`. -/
structure Target where
  node : Option Addr
  hashslot : Nat
  error_code : Redir
  deriving DecidableEq, Repr

def queryEnd (c : BusState ν) (x : Session) (cmd : RedisCommand) : Option KeyScan → Target
  | none => ⟨some c.myself, 0, .none⟩
  | some r =>
    if r.migrating_slot && r.missing_keys ≠ 0 then ⟨c.migrating_slots_to r.slot, r.slot, .ask⟩
    else if r.importing_slot && (x.asking || cmd.flags.asking) then
      if r.multiple_keys && r.missing_keys ≠ 0 then ⟨none, r.slot, .unstable⟩
      else ⟨some c.myself, r.slot, .none⟩
    else if x.readonly && cmd.flags.readonly && c.nodeIsSlave c.myself &&
        (c.node c.myself).slaveof == some r.n then
      ⟨some c.myself, r.slot, .none⟩
    else ⟨some r.n, r.slot, if r.n = c.myself then .none else .moved⟩

def queryTarget (w : World δ ν) (c : ClientId) (cmd : RedisCommand) (argv : List Bytes)
    (s : Server δ ν) : Option Target :=
  if cmd.proc = .execCommand ∧ (s.client c).multi = false then
    some ⟨some s.live.conditions.cluster.myself, 0, .none⟩
  else
    match scanCommands w (queryCommands (s.client c) cmd argv) none s with
    | (_, .error .crossSlot) => some ⟨none, 0, .crossSlot⟩
    | (_, .error _) => none
    | (t, .ok r) => some (queryEnd t.live.conditions.cluster (s.client c).session cmd r)

/-- How `processCommand` reads the result. -/
def Target.route (r : Target) : Route :=
  match r.node, r.error_code with
  | none, .crossSlot => .crossSlot
  | none, _ => .unstable
  | some n, code => .node n r.hashslot (code = .ask)

/-! ## An iteration -/

def iterate (w : World δ ν) (s : Server δ ν) (r : ClientId × List Bytes) : Server δ ν :=
  (request w r.1 r.2 s).1

/-- `processCommand` calls `getNodeByQuery` for the command. -/
def Queries (w : World δ ν) (s : Server δ ν) (r : ClientId × List Bytes) (cmd : RedisCommand) :
    Prop :=
  s.panicked = false ∧ (s.client r.1).session.close_after_reply = false ∧
    sameCaseless (r.2.headD []) quitstring = false ∧ w.commands (r.2.headD []) = some cmd ∧
    Conditions.wrongArity cmd r.2.length = false ∧
    s.live.conditions.noauth (s.client r.1).session cmd = false ∧
    s.live.conditions.redirects (s.client r.1).session cmd = true ∧
    s.live.conditions.cluster.ok = true

end RedisCluster.Multi
