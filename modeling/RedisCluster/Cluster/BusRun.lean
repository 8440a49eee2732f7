import RedisCluster.Cluster.Election
import RedisCluster.Cluster.BusPacket

/-!
# A node of the cluster

What happens at a node besides packets: `clusterCron` with failovers and replica migration,
`clusterUpdateState`, `clusterBeforeSleep` and the `CLUSTER` commands. A run of a node is a list of
events, each with what the node reads from outside at that moment.
-/

namespace RedisCluster.Bus

def REDIS_CLUSTER_MAX_REJOIN_DELAY : Int := 5000
def REDIS_CLUSTER_MIN_REJOIN_DELAY : Int := 500
def REDIS_CLUSTER_WRITABLE_DELAY : Int := 2000

variable {ν : Type}

/-! ## `clusterUpdateState` -/

/-- A master that counts for the size of the cluster. -/
def servesSlots (c : BusState ν) (n : Addr) : Bool :=
  c.nodeIsMaster n && decide ((c.node n).numslots ≠ 0)

def slotIsDown (c : BusState ν) (j : Nat) : Bool :=
  match c.slots j with
  | none => true
  | some n => c.nodeFailed n

/-- The state that the slots and the masters in reach call for; `size` is up to date. -/
def newState (c : BusState ν) (unreachable : Nat) : Bool :=
  !((List.range REDIS_CLUSTER_SLOTS).any (slotIsDown c)) && !decide (unreachable ≥ c.size / 2 + 1)

def unreachableMasters (c : BusState ν) : Nat :=
  c.nodes.countP fun n => servesSlots c n && (c.nodeFailed n || c.nodeTimedOut n)

def updateSize (c : BusState ν) : BusState ν :=
  c.lift fun s => { s with size := c.nodes.countP (servesSlots c) }

def rejoinDelay (cfg : BusConfig) : Int :=
  max (min cfg.cluster_node_timeout REDIS_CLUSTER_MAX_REJOIN_DELAY) REDIS_CLUSTER_MIN_REJOIN_DELAY

def clusterUpdateState (cfg : BusConfig) (env : BusEnv ν) (c : BusState ν) : BusState ν :=
  let c := c.lift fun s =>
    { s with todo_before_sleep := { s.todo_before_sleep with updateState := false } }
  let c := if c.first_call_time = 0 then { c with first_call_time := env.mstime } else c
  if c.nodeIsMaster c.myself ∧ env.mstime - c.first_call_time < REDIS_CLUSTER_WRITABLE_DELAY then c
  else
    let c := updateSize c
    let unreachable := unreachableMasters c
    let ok := newState c unreachable
    let c := if unreachable ≥ c.size / 2 + 1 then { c with among_minority_time := env.mstime } else c
    if ok ≠ c.ok then
      if ok ∧ c.nodeIsMaster c.myself ∧ env.mstime - c.among_minority_time < rejoinDelay cfg then c
      else { c with ok := ok }
    else c

/-! ## Failover -/

def clusterGetSlaveRank (env : BusEnv ν) (c : BusState ν) : Nat :=
  match (c.node c.myself).slaveof with
  | none => 0
  | some master => (c.slavesOf master).countP fun s =>
      s ≠ c.myself && decide ((c.info s).repl_offset > env.slave_repl_offset)

def failoverEnv (env : BusEnv ν) (c : BusState ν) : FailoverEnv :=
  { mstime := env.mstime, random := env.random, rank := clusterGetSlaveRank env c
    connected := env.connected, unixtime := env.unixtime
    lastinteraction := env.lastinteraction, repl_down_since := env.repl_down_since }

/-- The loop that claims all slots of the old master. -/
def takeSlots (oldmaster : Addr) (c : BusState ν) : BusState ν :=
  (List.range REDIS_CLUSTER_SLOTS).foldl (fun c j =>
    if j ∈ (c.node oldmaster).slots then clusterAddSlot c.myself j (clusterDelSlot j c) else c) c

def manualFailoverCheckTimeout (env : BusEnv ν) (c : BusState ν) : BusState ν :=
  if c.mf_end ≠ 0 ∧ c.mf_end < env.mstime then resetManualFailover c else c

def clusterHandleManualFailover (env : BusEnv ν) (c : BusState ν) : BusState ν :=
  if c.mf_end = 0 ∨ c.mf_can_start ∨ c.mf_master_offset = 0 then c
  else if c.mf_master_offset = env.slave_repl_offset then
    c.lift fun s => { s with mf_can_start := true }
  else c

/-- The slave with the smallest name among the slaves of the masters with `max_slaves` of them. -/
def migrationCandidate [LinearOrder ν] (max_slaves : Nat) (c : BusState ν) : Addr :=
  c.nodes.foldl (fun candidate n =>
    if c.nodeIsSlave n || c.nodeFailed n then candidate
    else if clusterCountNonFailingSlaves c n = max_slaves then
      (c.slavesOf n).foldl (fun candidate s =>
        if (c.info s).name < (c.info candidate).name then s else candidate) candidate
    else candidate) c.myself

def migrationTarget (c : BusState ν) : Option Addr :=
  c.nodes.find? fun n => !(c.nodeIsSlave n || c.nodeFailed n) &&
    decide (clusterCountNonFailingSlaves c n = 0 ∧ (c.node n).numslots > 0)

def migratesTo [LinearOrder ν] (cfg : BusConfig) (max_slaves : Nat) (c : BusState ν) :
    Option Addr :=
  match (c.node c.myself).slaveof with
  | none => none
  | some mymaster =>
    let okslaves := (c.slavesOf mymaster).countP fun s => !c.nodeFailed s && !c.nodeTimedOut s
    if !c.ok || decide (okslaves ≤ cfg.cluster_migration_barrier) then none
    else if migrationCandidate max_slaves c = c.myself then migrationTarget c
    else none

def clusterHandleSlaveMigration [LinearOrder ν] (cfg : BusConfig) (max_slaves : Nat)
    (c : BusState ν) : BusState ν :=
  match migratesTo cfg max_slaves c with
  | none => c
  | some target => clusterSetMaster target c

section Node

variable [DecidableEq ν]

/-- The slave takes the place of its master. -/
def winFailover (cfg : BusConfig) (env : BusEnv ν) (oldmaster : Addr) (c : BusState ν) :
    BusState ν :=
  let c := takeSlots oldmaster (clusterSetNodeAsMaster c.myself c)
  let c := c.modNode c.myself fun x => { x with configEpoch := c.failover_auth_epoch }
  let c := clusterSaveConfigOrDie (clusterUpdateState cfg env c)
  resetManualFailover (clusterBroadcastPong cfg env false c)

def clusterHandleSlaveFailover (cfg : BusConfig) (env : BusEnv ν) (c : BusState ν) :
    BusState ν :=
  let c := c.lift fun s =>
    { s with todo_before_sleep := { s.todo_before_sleep with handleFailover := false } }
  let fenv := failoverEnv env c
  match failoverBranch cfg.toClusterConfig fenv c.toClusterState with
  | .notNeeded => c
  | .dataAge => c
  | .schedule => clusterBroadcastPong cfg env true (c.lift (scheduleFailover fenv))
  | .waitingDelay => c.lift (updateFailoverRank fenv)
  | .expired => c.lift (updateFailoverRank fenv)
  | .askForVotes =>
    let c := (c.lift (updateFailoverRank fenv)).lift askForVotes
    clusterBroadcastMessage { clusterBuildMessageHdr cfg env c .failoverAuthRequest with
      forceack := decide (c.mf_end ≠ 0) } c
  | .win =>
    let c := c.lift (updateFailoverRank fenv)
    match (c.node c.myself).slaveof with
    | none => c
    | some oldmaster => winFailover cfg env oldmaster c
  | .waitingVotes => c.lift (updateFailoverRank fenv)

/-! ## `clusterCron` -/

def handshakeExpired (cfg : BusConfig) (env : BusEnv ν) (c : BusState ν) (n : Addr) : Bool :=
  !((c.node n).flags.myself || (c.info n).noaddr) && c.nodeInHandshake n &&
    decide (env.mstime - (c.info n).ctime > max cfg.cluster_node_timeout 1000)

def connectNode (cfg : BusConfig) (env : BusEnv ν) (n : Addr) (c : BusState ν) : BusState ν :=
  let c := (c.modNode n fun x => { x with link := true }).modInfo n fun x =>
    { x with link_ctime := env.mstime }
  let old_ping_sent := (c.info n).ping_sent
  let c := clusterSendPing cfg env (some n) (if (c.info n).meet then .meet else .ping) c
  c.modInfo n fun x => { x with
    ping_sent := if old_ping_sent ≠ 0 then old_ping_sent else x.ping_sent
    meet := false }

/-- The first loop of `clusterCron`: handshakes that take too long, and missing links. -/
def cronConnect (cfg : BusConfig) (env : BusEnv ν) (c : BusState ν) (n : Addr) : BusState ν :=
  if (c.node n).flags.myself || (c.info n).noaddr then c
  else if handshakeExpired cfg env c n then freeClusterNode n c
  else if !(c.node n).link && env.connects n then connectNode cfg env n c
  else c

/-- The node of the sample that has waited longest for a PONG. -/
def cronSample (env : BusEnv ν) (c : BusState ν) : Option Addr :=
  env.sample.foldl (fun best n =>
    if (c.node n).link = false ∨ (c.info n).ping_sent ≠ 0 ∨ (c.node n).flags.myself ∨
        c.nodeInHandshake n then best
    else match best with
      | none => some n
      | some b => if (c.info b).pong_received > (c.info n).pong_received then some n else some b) none

/-- The second loop of `clusterCron`: the state and what the loop counts. -/
structure CronScan (ν : Type) where
  cluster : BusState ν
  orphaned_masters : Nat
  max_slaves : Nat
  this_slaves : Nat
  update_state : Bool

def cronCount (n : Addr) (r : CronScan ν) : CronScan ν :=
  let c := r.cluster
  if c.nodeIsSlave c.myself && c.nodeIsMaster n && !c.nodeFailed n then
    let okslaves := clusterCountNonFailingSlaves c n
    { r with
      orphaned_masters := if okslaves = 0 ∧ (c.node n).numslots > 0 then r.orphaned_masters + 1
        else r.orphaned_masters
      max_slaves := max r.max_slaves okslaves
      this_slaves := if (c.node c.myself).slaveof = some n then okslaves else r.this_slaves }
  else r

/-- The link is too old for the PONG that is missing. -/
def linkIsStuck (cfg : BusConfig) (env : BusEnv ν) (c : BusState ν) (n : Addr) : Bool :=
  (c.node n).link && decide (env.mstime - (c.info n).link_ctime > cfg.cluster_node_timeout ∧
    (c.info n).ping_sent ≠ 0 ∧ (c.info n).pong_received < (c.info n).ping_sent ∧
    env.mstime - (c.info n).ping_sent > cfg.cluster_node_timeout / 2)

/-- Whether a PING is sent to the node in this call. -/
def cronPings (cfg : BusConfig) (env : BusEnv ν) (c : BusState ν) (n : Addr) : Bool :=
  (c.node n).link &&
    (decide ((c.info n).ping_sent = 0 ∧
      env.mstime - (c.info n).pong_received > cfg.cluster_node_timeout / 2) ||
    (decide (c.mf_end ≠ 0) && c.nodeIsMaster c.myself && decide (c.mf_slave = some n)))

def setPfailFlag (n : Addr) (c : BusState ν) : BusState ν :=
  c.modInfo n fun x => { x with pfail := true }

def cronCheck (cfg : BusConfig) (env : BusEnv ν) (r : CronScan ν) (n : Addr) : CronScan ν :=
  let c := r.cluster
  if (c.node n).flags.myself || (c.info n).noaddr || c.nodeInHandshake n then r
  else
    let r := cronCount n r
    let c := if linkIsStuck cfg env c n then freeNodeLink n c else c
    if cronPings cfg env c n then
      { r with cluster := clusterSendPing cfg env (some n) .ping c }
    else if (c.info n).ping_sent ≠ 0 ∧
        env.mstime - (c.info n).ping_sent > cfg.cluster_node_timeout ∧
        !(c.nodeFailed n || c.nodeTimedOut n) then
      { r with cluster := setPfailFlag n c, update_state := true }
    else { r with cluster := c }

def cronScan (cfg : BusConfig) (env : BusEnv ν) (c : BusState ν) : CronScan ν :=
  c.nodes.foldl (cronCheck cfg env) ⟨c, 0, 0, 0, false⟩

/-- The part of `clusterCron` before the checks of the nodes. -/
def cronLinks (cfg : BusConfig) (env : BusEnv ν) (c : BusState ν) : BusState ν :=
  let c := c.nodes.foldl (cronConnect cfg env) c
  match cronSample env c with
  | none => c
  | some n => clusterSendPing cfg env (some n) .ping c

end Node

section Run

variable [LinearOrder ν]

/-- The part of `clusterCron` that only slaves run. -/
def cronSlave (cfg : BusConfig) (env : BusEnv ν) (r : CronScan ν) (c : BusState ν) : BusState ν :=
  if c.nodeIsSlave c.myself then
    let c := clusterHandleSlaveFailover cfg env (clusterHandleManualFailover env c)
    if r.orphaned_masters ≠ 0 ∧ r.max_slaves ≥ 2 ∧ r.this_slaves = r.max_slaves then
      clusterHandleSlaveMigration cfg r.max_slaves c
    else c
  else c

def clusterCron (cfg : BusConfig) (env : BusEnv ν) (c : BusState ν) : BusState ν :=
  let r := cronScan cfg env (cronLinks cfg env c)
  let c := cronSlave cfg env r (manualFailoverCheckTimeout env r.cluster)
  if r.update_state || !c.ok then clusterUpdateState cfg env c else c

def clusterBeforeSleep (cfg : BusConfig) (env : BusEnv ν) (c : BusState ν) : BusState ν :=
  let c := if c.todo_before_sleep.handleFailover then clusterHandleSlaveFailover cfg env c else c
  let c := if c.todo_before_sleep.updateState then clusterUpdateState cfg env c else c
  c.lift fun s => { s with todo_before_sleep := ⟨false, false, false, false⟩ }

/-! ## Commands -/

/-- The argument of `CLUSTER RESET`, and of `CLUSTER FAILOVER`, is `hard` and `force`. -/
inductive Command (ν : Type) where
  | meet (ip : String) (port : Int)
  | flushslots
  | addslots (slots : List Int)
  | delslots (slots : List Int)
  | setslotMigrating (slot : Int) (name : ν)
  | setslotImporting (slot : Int) (name : ν)
  | setslotStable (slot : Int)
  | setslotNode (slot : Int) (name : ν)
  | forget (name : ν)
  | replicate (name : ν)
  | failover (force : Bool)
  | setConfigEpoch (epoch : Int)
  | reset (hard : Bool)

inductive Reply (ν : Type) where
  | ok
  | error (text : String)
  | errorNode (text : String) (name : ν)

def getSlotOrReply (slot : Int) : Option Nat :=
  if slot < 0 ∨ slot ≥ REDIS_CLUSTER_SLOTS then none else some slot.toNat

def invalidSlot : Reply ν := .error "Invalid or out of range slot"

/-- The slots of the arguments of ADDSLOTS and DELSLOTS, or the error. -/
def checkSlotArgs (del : Bool) (c : BusState ν) : List Int → List Nat → Except (Reply ν) (List Nat)
  | [], seen => .ok seen
  | arg :: args, seen =>
    match getSlotOrReply arg with
    | none => .error invalidSlot
    | some slot =>
      if del && (c.slots slot).isNone then
        .error (.error ("Slot " ++ toString slot ++ " is already unassigned"))
      else if !del && (c.slots slot).isSome then
        .error (.error ("Slot " ++ toString slot ++ " is already busy"))
      else if slot ∈ seen then
        .error (.error ("Slot " ++ toString slot ++ " specified multiple times"))
      else checkSlotArgs del c args (slot :: seen)

def addDelSlot (del : Bool) (slots : List Nat) (c : BusState ν) (j : Nat) : BusState ν :=
  if j ∈ slots then
    let c := { c with importing_slots_from := Function.update c.importing_slots_from j none }
    let c := redisAssert (if del then (c.slots j).isSome else (c.slots j).isNone)
      .clusterCommandSlots c
    if del then clusterDelSlot j c else clusterAddSlot c.myself j c
  else c

def clusterAddDelSlots (del : Bool) (args : List Int) (c : BusState ν) : BusState ν × Reply ν :=
  match checkSlotArgs del c args [] with
  | .error e => (c, e)
  | .ok slots =>
    (clusterDoBeforeSleep (orTodo todoUpdate todoSave)
      ((List.range REDIS_CLUSTER_SLOTS).foldl (addDelSlot del slots) c), .ok)

/-- The new `configEpoch` at the end of the import of a slot. -/
def importEpoch (c : BusState ν) : BusState ν :=
  let maxEpoch := clusterGetMaxEpoch c.toClusterState
  if (c.node c.myself).configEpoch = 0 ∨ (c.node c.myself).configEpoch ≠ maxEpoch then
    let e := (c.currentEpoch + 1) % 2 ^ 64
    let c := c.lift fun s => { s with currentEpoch := e }
    clusterDoBeforeSleep todoFsync (c.modNode c.myself fun x => { x with configEpoch := e })
  else c

def setslotNode (env : BusEnv ν) (slot : Nat) (n : Addr) (c : BusState ν) : BusState ν :=
  let c := if env.countKeysInSlot slot = 0 then
      { c with migrating_slots_to := Function.update c.migrating_slots_to slot none } else c
  let c := if n = c.myself ∧ (c.importing_slots_from slot).isSome then
      let c := importEpoch c
      { c with importing_slots_from := Function.update c.importing_slots_from slot none }
    else c
  clusterAddSlot n slot (clusterDelSlot slot c)

/-- The actions of `CLUSTER SETSLOT`. -/
inductive SetslotAction (ν : Type) where
  | migrating (name : ν)
  | importing (name : ν)
  | stable
  | node (name : ν)

def clusterSetslot (env : BusEnv ν) (arg : Int) (action : SetslotAction ν) (c : BusState ν) :
    BusState ν × Reply ν :=
  match getSlotOrReply arg with
  | none => (c, invalidSlot)
  | some slot =>
    let done (c : BusState ν) := (clusterDoBeforeSleep (orTodo todoSave todoUpdate) c, Reply.ok)
    match action with
    | .migrating name =>
      if c.slots slot ≠ some c.myself then
        (c, .error ("I'm not the owner of hash slot " ++ toString slot))
      else match clusterLookupNode c name with
        | none => (c, .errorNode "I don't know about node" name)
        | some n => done { c with
            migrating_slots_to := Function.update c.migrating_slots_to slot (some n) }
    | .importing name =>
      if c.slots slot = some c.myself then
        (c, .error ("I'm already the owner of hash slot " ++ toString slot))
      else match clusterLookupNode c name with
        -- the message names the argument before the node
        | none => (c, .error "I don't know about node importing")
        | some n => done { c with
            importing_slots_from := Function.update c.importing_slots_from slot (some n) }
    | .stable => done { c with
        importing_slots_from := Function.update c.importing_slots_from slot none
        migrating_slots_to := Function.update c.migrating_slots_to slot none }
    | .node name =>
      match clusterLookupNode c name with
      | none => (c, .errorNode "Unknown node" name)
      | some n =>
        if c.slots slot = some c.myself ∧ n ≠ c.myself ∧ env.countKeysInSlot slot ≠ 0 then
          (c, .error ("Can't assign hashslot " ++ toString slot ++
            " to a different node while I still hold keys for this hash slot."))
        else done (setslotNode env slot n c)

def clusterForget (cfg : BusConfig) (env : BusEnv ν) (name : ν) (c : BusState ν) :
    BusState ν × Reply ν :=
  match clusterLookupNode c name with
  | none => (c, .errorNode "Unknown node" name)
  | some n =>
    if n = c.myself then (c, .error "I tried hard but I can't forget myself...")
    else if c.nodeIsSlave c.myself ∧ (c.node c.myself).slaveof = some n then
      (c, .error "Can't forget my master!")
    else
      (clusterDoBeforeSleep (orTodo todoUpdate todoSave)
        (clusterDelNode cfg env n (clusterBlacklistAddNode env n c)), .ok)

def clusterReplicate (env : BusEnv ν) (name : ν) (c : BusState ν) : BusState ν × Reply ν :=
  match clusterLookupNode c name with
  | none => (c, .errorNode "Unknown node" name)
  | some n =>
    if n = c.myself then (c, .error "Can't replicate myself")
    else if (c.node n).slaveof.isSome then
      (c, .error "I can only replicate a master, not a slave.")
    else if c.nodeIsMaster c.myself ∧ ((c.node c.myself).numslots ≠ 0 ∨ env.dbsize ≠ 0) then
      (c, .error "To set a master the node must be empty and without assigned slots.")
    else (clusterDoBeforeSleep (orTodo todoUpdate todoSave) (clusterSetMaster n c), .ok)

def clusterFailover (cfg : BusConfig) (env : BusEnv ν) (force : Bool) (c : BusState ν) :
    BusState ν × Reply ν :=
  if c.nodeIsMaster c.myself then (c, .error "You should send CLUSTER FAILOVER to a slave")
  else
    let start (c : BusState ν) : BusState ν :=
      (resetManualFailover c).lift fun s => { s with mf_end := env.mstime + REDIS_CLUSTER_MF_TIMEOUT }
    let down : Reply ν := .error "Master is down or failed, please use CLUSTER FAILOVER FORCE"
    if force then ((start c).lift fun s => { s with mf_can_start := true }, .ok)
    else match (c.node c.myself).slaveof with
      | none => (c, down)
      | some m =>
        if c.nodeFailed m || !(c.node m).link then (c, down)
        else (clusterSendTo cfg env m .mfstart (start c), .ok)

def clusterSetConfigEpoch (epoch : Int) (c : BusState ν) : BusState ν × Reply ν :=
  if epoch < 0 then (c, .error ("Invalid config epoch specified: " ++ toString epoch))
  else if c.nodes.length > 1 then
    (c, .error "The user can assign a config epoch only when the node does not know any other node.")
  else if (c.node c.myself).configEpoch ≠ 0 then
    (c, .error "Node config epoch is already non-zero")
  else
    (clusterDoBeforeSleep (orTodo todoUpdate todoSave)
      (c.modNode c.myself fun x => { x with configEpoch := epoch.toNat }), .ok)

/-- The new identity after `CLUSTER RESET HARD`. -/
def resetIdentity (env : BusEnv ν) (c : BusState ν) : BusState ν :=
  let c := c.lift fun s => { s with currentEpoch := 0, lastVoteEpoch := 0 }
  let c := c.modNode c.myself fun x => { x with configEpoch := 0 }
  let c := dictDeleteNode (c.info c.myself).name c
  clusterAddNode c.myself (c.modInfo c.myself fun x => { x with name := (env.newNode c).2 })

/-- `clusterReset` up to the loop that removes the nodes. -/
def resetSlots (c : BusState ν) : BusState ν :=
  let c := if c.nodeIsSlave c.myself then clusterSetNodeAsMaster c.myself c else c
  let c := resetManualFailover (clusterCloseAllSlots c)
  (List.range REDIS_CLUSTER_SLOTS).foldl (fun c j => clusterDelSlot j c) c

def resetNode (cfg : BusConfig) (env : BusEnv ν) (c : BusState ν) (n : Addr) : BusState ν :=
  if n = c.myself then c else clusterDelNode cfg env n c

def clusterReset (cfg : BusConfig) (env : BusEnv ν) (hard : Bool) (c : BusState ν) : BusState ν :=
  let c := resetSlots c
  let c := c.nodes.foldl (resetNode cfg env) c
  let c := if hard then resetIdentity env c else c
  clusterDoBeforeSleep (orTodo todoSave (orTodo todoUpdate todoFsync)) c

def clusterCommand (cfg : BusConfig) (env : BusEnv ν) (cmd : Command ν) (c : BusState ν) :
    BusState ν × Reply ν :=
  match cmd with
  | .meet ip port =>
    let r := clusterStartHandshake env ip port c
    (r.1, if r.2 = .einval then
      .error ("Invalid node address specified: " ++ ip ++ ":" ++ toString port) else .ok)
  | .flushslots =>
    if env.dbsize ≠ 0 then (c, .error "DB must be empty to perform CLUSTER FLUSHSLOTS.")
    else (clusterDoBeforeSleep (orTodo todoUpdate todoSave) (clusterDelNodeSlots c.myself c), .ok)
  | .addslots slots => clusterAddDelSlots false slots c
  | .delslots slots => clusterAddDelSlots true slots c
  | .setslotMigrating slot name => clusterSetslot env slot (.migrating name) c
  | .setslotImporting slot name => clusterSetslot env slot (.importing name) c
  | .setslotStable slot => clusterSetslot env slot .stable c
  | .setslotNode slot name => clusterSetslot env slot (.node name) c
  | .forget name => clusterForget cfg env name c
  | .replicate name => clusterReplicate env name c
  | .failover force => clusterFailover cfg env force c
  | .setConfigEpoch epoch => clusterSetConfigEpoch epoch c
  | .reset hard =>
    if c.nodeIsMaster c.myself ∧ env.dbsize ≠ 0 then
      (c, .error "CLUSTER RESET can't be called with master nodes containing keys")
    else (clusterReset cfg env hard c, .ok)

/-- The check of the slots against the keys when the server starts. -/
def verifySlot (env : BusEnv ν) (c : BusState ν) (j : Nat) : BusState ν :=
  if env.countKeysInSlot j = 0 ∨ c.slots j = some c.myself ∨ (c.importing_slots_from j).isSome then c
  else match c.slots j with
    | none => clusterAddSlot c.myself j c
    | some owner => { c with
        importing_slots_from := Function.update c.importing_slots_from j (some owner) }

def verifyClusterConfigWithData (env : BusEnv ν) (c : BusState ν) : BusState ν :=
  if c.nodeIsSlave c.myself then c
  else (List.range REDIS_CLUSTER_SLOTS).foldl (verifySlot env) c

/-! ## Runs -/

inductive BusEvent (ν : Type) where
  | packet (via : Option Addr) (hdr : BusMsg ν)
  /-- The link to a node breaks. -/
  | linkError (n : Addr)
  | command (cmd : Command ν)
  | cron
  | beforeSleep
  | verifyData
  /-- The `nodes` dict visits its nodes in another order from now on. -/
  | rehash (order : List Addr)

structure BusAct (ν : Type) where
  env : BusEnv ν
  event : BusEvent ν

/-- A packet comes in on an accepted link or on the link to a node. -/
def linkExists (via : Option Addr) (c : BusState ν) : Bool :=
  match via with
  | none => true
  | some n => decide (n ∈ c.nodes) && (c.node n).link

/-- One event at a node that has not crashed. -/
def busEvent (cfg : BusConfig) (env : BusEnv ν) (event : BusEvent ν) (c : BusState ν) :
    BusState ν :=
  match event with
  | .packet via hdr => if linkExists via c then clusterProcessPacket cfg env via hdr c else c
  | .linkError n => if linkExists (some n) c then freeNodeLink n c else c
  | .command cmd => (clusterCommand cfg env cmd c).1
  | .cron => clusterCron cfg env c
  | .beforeSleep => clusterBeforeSleep cfg env c
  | .verifyData => verifyClusterConfigWithData env c
  | .rehash order => if order.Perm c.nodes then c.lift fun s => { s with nodes := order } else c

def busStep (cfg : BusConfig) (c : BusState ν) (a : BusAct ν) : BusState ν :=
  if c.crashed.isSome then c
  else busEvent cfg a.env a.event { c with sent := [], deletedSlots := [] }

/-- A node at address `a` that starts without a configuration file. `clusterInit` does not assign
`failover_auth_sent`, the memory of no node counts but that of `myself`. -/
def busInit (a : Addr) (name : ν) (now : Int) (failover_auth_sent : Bool) : BusState ν :=
  { myself := a, currentEpoch := 0, size := 1, nodes := [a], slots := fun _ => none
    failover_auth_time := 0, failover_auth_count := 0, failover_auth_sent := failover_auth_sent
    failover_auth_rank := 0, failover_auth_epoch := 0, mf_end := 0, mf_can_start := false
    lastVoteEpoch := 0, todo_before_sleep := ⟨false, false, false, false⟩
    node := fun _ =>
      { flags := { master := true, slave := false, fail := false, myself := true, handshake := false }
        slaveof := none, slots := ∅, numslots := 0, configEpoch := 0, voted_time := 0
        link := false }
    info := fun _ =>
      { ctime := now, name := name, pfail := false, noaddr := false, meet := false, numslaves := 0
        slaves := [], ping_sent := 0, pong_received := 0, fail_time := 0, repl_offset_time := 0
        repl_offset := 0, ip := "", port := 0, link_ctime := 0, fail_reports := [] }
    ok := false, nodes_black_list := [], migrating_slots_to := fun _ => none
    importing_slots_from := fun _ => none, mf_slave := none, mf_master_offset := 0
    first_call_time := 0, among_minority_time := 0, crashed := none, sent := [], deletedSlots := [] }

end Run

end RedisCluster.Bus
