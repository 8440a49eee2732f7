import Mathlib.Data.Finset.Sort
import RedisCluster.Cluster.ClusterState

/-!
# Votes and elections

The master's side (`clusterSendFailoverAuthIfNeeded`), the slave's side
(`clusterHandleSlaveFailover`) and what `clusterProcessPacket` does with the epochs of a header and
with the messages of an election. Functions return the new state and the messages they send.
-/

namespace RedisCluster

variable {ν : Type} [DecidableEq ν]

def REDIS_CLUSTER_SLAVE_VALIDITY_MULT : Int := 10

structure ClusterConfig where
  cluster_node_timeout : Int
  repl_ping_slave_period : Int

/-! ## The vote of a master -/

/-- The slot is served by nobody with a newer configuration than the request claims. -/
def slotNotNewer (c : ClusterState ν) (request : ClusterMsg ν) (j : Nat) : Bool :=
  match c.slots j with
  | none => true
  | some owner => decide ((c.node owner).configEpoch ≤ request.configEpoch)

/-- `clusterSendFailoverAuthIfNeeded` for a request of `n`: the new state and the messages, or
nothing if the vote is denied. -/
def clusterSendFailoverAuthIfNeeded (cfg : ClusterConfig) (mstime : Int) (n : ν)
    (request : ClusterMsg ν) (c : ClusterState ν) :
    Option (ClusterState ν × List (ν × ClusterMsg ν)) :=
  if c.nodeIsSlave c.myself || (c.node c.myself).numslots = 0 then none
  else if request.currentEpoch < c.currentEpoch then none
  else if c.lastVoteEpoch = c.currentEpoch then none
  else
    match (c.node n).slaveof with
    | none => none
    | some master =>
      if c.nodeIsMaster n || (!c.nodeFailed master && !request.forceack) then none
      else if mstime - (c.node master).voted_time < cfg.cluster_node_timeout * 2 then none
      else if ∀ j ∈ request.myslots, slotNotNewer c request j = true then
        some ({ c.setNode master { c.node master with voted_time := mstime } with
            lastVoteEpoch := c.currentEpoch },
          clusterSendMessage c n (clusterBuildMessageHdr c .failoverAuthAck))
      else none

/-! ## The election of a slave -/

/-- What `clusterHandleSlaveFailover` reads from outside the cluster state. -/
structure FailoverEnv where
  mstime : Int
  /-- `random() % 500`. -/
  random : Int
  /-- `clusterGetSlaveRank()`. -/
  rank : Int
  /-- `repl_state == REDIS_REPL_CONNECTED`. -/
  connected : Bool
  unixtime : Int
  lastinteraction : Int
  repl_down_since : Int

def failoverDataAge (cfg : ClusterConfig) (env : FailoverEnv) : Int :=
  let age := (if env.connected then env.unixtime - env.lastinteraction
    else env.unixtime - env.repl_down_since) * 1000
  if age > cfg.cluster_node_timeout then age - cfg.cluster_node_timeout else age

def failoverAuthTimeout (cfg : ClusterConfig) : Int := max (cfg.cluster_node_timeout * 2) 2000

/-- A slave that has fallen in rank before it asked for votes waits longer. -/
def updateFailoverRank (env : FailoverEnv) (c : ClusterState ν) : ClusterState ν :=
  if c.failover_auth_sent = false ∧ c.mf_end = 0 ∧ env.rank > c.failover_auth_rank then
    { c with
      failover_auth_time := c.failover_auth_time + (env.rank - c.failover_auth_rank) * 1000
      failover_auth_rank := env.rank }
  else c

/-- The ways through `clusterHandleSlaveFailover`. -/
inductive FailoverBranch where
  | notNeeded
  | dataAge
  | schedule
  | waitingDelay
  | expired
  | askForVotes
  | win
  | waitingVotes
  deriving DecidableEq, Repr

def failoverBranch (cfg : ClusterConfig) (env : FailoverEnv) (c : ClusterState ν) :
    FailoverBranch :=
  let auth_age := env.mstime - c.failover_auth_time
  let needed_quorum := c.size / 2 + 1
  let manual_failover := decide (c.mf_end ≠ 0) && c.mf_can_start
  match (c.node c.myself).slaveof with
  | none => .notNeeded
  | some master =>
    if c.nodeIsMaster c.myself || (!c.nodeFailed master && !manual_failover) ||
        (c.node master).numslots = 0 then .notNeeded
    else if failoverDataAge cfg env > cfg.repl_ping_slave_period * 1000 +
        cfg.cluster_node_timeout * REDIS_CLUSTER_SLAVE_VALIDITY_MULT ∧ manual_failover = false then
      .dataAge
    else if auth_age > failoverAuthTimeout cfg * 2 then .schedule
    else if env.mstime < (updateFailoverRank env c).failover_auth_time then .waitingDelay
    else if auth_age > failoverAuthTimeout cfg then .expired
    else if c.failover_auth_sent = false then .askForVotes
    else if c.failover_auth_count ≥ needed_quorum then .win
    else .waitingVotes

/-- The new election that starts after a delay. -/
def scheduleFailover (env : FailoverEnv) (c : ClusterState ν) : ClusterState ν :=
  let c := { c with
    failover_auth_time := env.mstime + 500 + env.random + env.rank * 1000
    failover_auth_count := 0
    failover_auth_sent := false
    failover_auth_rank := env.rank }
  if c.mf_end ≠ 0 then { c with failover_auth_time := env.mstime, failover_auth_rank := 0 } else c

def askForVotes (c : ClusterState ν) : ClusterState ν :=
  let e := (c.currentEpoch + 1) % 2 ^ 64
  { c with
    currentEpoch := e
    failover_auth_epoch := e
    failover_auth_sent := true
    todo_before_sleep := { c.todo_before_sleep.save with updateState := true } }

def clusterRequestFailoverAuth (c : ClusterState ν) : List (ν × ClusterMsg ν) :=
  clusterBroadcastMessage c
    { clusterBuildMessageHdr c .failoverAuthRequest with forceack := decide (c.mf_end ≠ 0) }

def clusterSetNodeAsMaster (n : ν) (c : ClusterState ν) : ClusterState ν :=
  if c.nodeIsMaster n then c
  else
    let x := c.node n
    { c.setNode n { x with
        flags := { x.flags with slave := false, master := true }
        slaveof := none } with
      todo_before_sleep := { c.todo_before_sleep with saveConfig := true, updateState := true } }

def resetManualFailover (c : ClusterState ν) : ClusterState ν :=
  { c with mf_end := 0, mf_can_start := false }

/-- The loop that claims all slots of the old master. -/
def takeSlots (oldmaster : ν) (c : ClusterState ν) : ClusterState ν :=
  (List.range REDIS_CLUSTER_SLOTS).foldl (fun c j =>
    if j ∈ (c.node oldmaster).slots then clusterAddSlot c.myself j (clusterDelSlot j c) else c) c

/-- The new `configEpoch`; `clusterSaveConfigOrDie(1)` then clears the save flags. -/
def claimEpoch (c : ClusterState ν) : ClusterState ν :=
  { c.setNode c.myself { c.node c.myself with configEpoch := c.failover_auth_epoch } with
    todo_before_sleep := { c.todo_before_sleep with saveConfig := false, fsyncConfig := false } }

/-- The slave takes the place of its master. -/
def winFailover (c : ClusterState ν) : ClusterState ν :=
  match (c.node c.myself).slaveof with
  | none => c
  | some oldmaster => claimEpoch (takeSlots oldmaster (clusterSetNodeAsMaster c.myself c))

/-- The new state, the messages, and whether the slave was promoted. -/
def clusterHandleSlaveFailover (cfg : ClusterConfig) (env : FailoverEnv) (c : ClusterState ν) :
    ClusterState ν × List (ν × ClusterMsg ν) × Bool :=
  let c := { c with todo_before_sleep := { c.todo_before_sleep with handleFailover := false } }
  match failoverBranch cfg env c with
  | .notNeeded => (c, [], false)
  | .dataAge => (c, [], false)
  | .schedule =>
    let c := scheduleFailover env c
    (c, clusterBroadcastPong c true, false)
  | .waitingDelay => (updateFailoverRank env c, [], false)
  | .expired => (updateFailoverRank env c, [], false)
  | .askForVotes =>
    let c := askForVotes (updateFailoverRank env c)
    (c, clusterRequestFailoverAuth c, false)
  | .win =>
    let c := winFailover (updateFailoverRank env c)
    (resetManualFailover c, clusterBroadcastPong c false, true)
  | .waitingVotes => (updateFailoverRank env c, [], false)

/-! ## Packets -/

/-- What `clusterProcessPacket` does with the epochs in the header of a known node. -/
def updateEpochs (sender : ν) (hdr : ClusterMsg ν) (c : ClusterState ν) : ClusterState ν :=
  let c := if hdr.currentEpoch > c.currentEpoch then { c with currentEpoch := hdr.currentEpoch }
    else c
  if hdr.configEpoch > (c.node sender).configEpoch then
    { c.setNode sender { c.node sender with configEpoch := hdr.configEpoch } with
      todo_before_sleep := c.todo_before_sleep.save }
  else c

/-- A vote is counted if it comes from a master with slots and is not older than the election. -/
def countVote (sender : ν) (senderCurrentEpoch : Nat) (c : ClusterState ν) : ClusterState ν :=
  if c.nodeIsMaster sender ∧ (c.node sender).numslots > 0 ∧
      senderCurrentEpoch ≥ c.failover_auth_epoch then
    { c with
      failover_auth_count := c.failover_auth_count + 1
      todo_before_sleep := { c.todo_before_sleep with handleFailover := true } }
  else c

/-- `clusterProcessPacket`: the new state, the messages, and whether a vote was granted. The epoch
of a sender in handshake is taken as 0. -/
def clusterProcessPacket (cfg : ClusterConfig) (mstime : Int) (hdr : ClusterMsg ν)
    (c : ClusterState ν) : ClusterState ν × List (ν × ClusterMsg ν) × Bool :=
  match clusterLookupNode c hdr.sender with
  | none => (c, [], false)
  | some sender =>
    let known := !c.nodeInHandshake sender
    let c := if known then updateEpochs sender hdr c else c
    match hdr.type with
    | .failoverAuthRequest =>
      match clusterSendFailoverAuthIfNeeded cfg mstime sender hdr c with
      | none => (c, [], false)
      | some (c, out) => (c, out, true)
    | .failoverAuthAck => (countVote sender (if known then hdr.currentEpoch else 0) c, [], false)
    | .ping | .pong => (c, [], false)

/-! ## Everything else -/

/-- What the rest of a node (gossip, commands, `clusterCron`, `clusterUpdateState`) may change
between two of these functions: what it knows of the nodes, the manual failover, its todo flags, and
it may raise `currentEpoch`. -/
structure LocalChange (ν : Type) where
  nodes : List ν
  node : ν → ClusterNode ν
  slots : Nat → Option ν
  size : Nat
  mf_end : Int
  mf_can_start : Bool
  epoch : Nat
  todo : TodoFlags

def localChange (ch : LocalChange ν) (c : ClusterState ν) : ClusterState ν :=
  { c with
    nodes := ch.nodes
    node := ch.node
    slots := ch.slots
    size := ch.size
    mf_end := ch.mf_end
    mf_can_start := ch.mf_can_start
    currentEpoch := max c.currentEpoch ch.epoch
    todo_before_sleep := ch.todo }

end RedisCluster
