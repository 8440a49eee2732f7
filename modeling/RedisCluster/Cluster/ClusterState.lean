import Mathlib.Data.Finset.Basic

/-!
# The view a node has of the cluster

The parts of `clusterState` and `clusterNode` that elections and votes use. Nodes are named by
elements of `ν`; `node` is the memory they live in and `nodes` lists the names in the `nodes` dict. A
slot bitmap is the set of the slots whose bit is 1.
-/

namespace RedisCluster

def REDIS_CLUSTER_SLOTS : Nat := 16384

/-- The bits of `flags` of a node. -/
structure NodeFlags where
  master : Bool
  slave : Bool
  fail : Bool
  myself : Bool
  handshake : Bool
  deriving DecidableEq, Repr

structure ClusterNode (ν : Type) where
  flags : NodeFlags
  slaveof : Option ν
  slots : Finset Nat
  numslots : Nat
  configEpoch : Nat
  /-- When this node last voted for a slave of the node. -/
  voted_time : Int
  /-- Whether there is a link to the node. -/
  link : Bool

/-- `todo_before_sleep`. -/
structure TodoFlags where
  handleFailover : Bool
  updateState : Bool
  saveConfig : Bool
  fsyncConfig : Bool
  deriving DecidableEq, Repr

structure ClusterState (ν : Type) where
  myself : ν
  currentEpoch : Nat
  /-- The number of masters with at least one slot. -/
  size : Nat
  nodes : List ν
  node : ν → ClusterNode ν
  slots : Nat → Option ν
  failover_auth_time : Int
  failover_auth_count : Nat
  failover_auth_sent : Bool
  failover_auth_rank : Int
  failover_auth_epoch : Nat
  mf_end : Int
  mf_can_start : Bool
  lastVoteEpoch : Nat
  todo_before_sleep : TodoFlags

inductive ClusterMsgType where
  | ping
  | pong
  | failoverAuthRequest
  | failoverAuthAck
  deriving DecidableEq, Repr

/-- The header fields of `clusterMsg` that elections use. -/
structure ClusterMsg (ν : Type) where
  type : ClusterMsgType
  sender : ν
  currentEpoch : Nat
  configEpoch : Nat
  myslots : Finset Nat
  /-- `CLUSTERMSG_FLAG0_FORCEACK`. -/
  forceack : Bool

variable {ν : Type} [DecidableEq ν]

namespace ClusterState

def nodeIsMaster (c : ClusterState ν) (n : ν) : Bool := (c.node n).flags.master

def nodeIsSlave (c : ClusterState ν) (n : ν) : Bool := (c.node n).flags.slave

def nodeFailed (c : ClusterState ν) (n : ν) : Bool := (c.node n).flags.fail

def nodeInHandshake (c : ClusterState ν) (n : ν) : Bool := (c.node n).flags.handshake

def setNode (c : ClusterState ν) (n : ν) (x : ClusterNode ν) : ClusterState ν :=
  { c with node := Function.update c.node n x }

end ClusterState

def clusterLookupNode (c : ClusterState ν) (name : ν) : Option ν :=
  if name ∈ c.nodes then some name else none

/-- `clusterDoBeforeSleep(CLUSTER_TODO_SAVE_CONFIG|CLUSTER_TODO_FSYNC_CONFIG)`. -/
def TodoFlags.save (t : TodoFlags) : TodoFlags := { t with saveConfig := true, fsyncConfig := true }

/-! ## Slots -/

def clusterAddSlot (n : ν) (slot : Nat) (c : ClusterState ν) : ClusterState ν :=
  if (c.slots slot).isSome then c
  else
    let x := c.node n
    { c.setNode n { x with
        slots := insert slot x.slots
        numslots := if slot ∈ x.slots then x.numslots else x.numslots + 1 } with
      slots := Function.update c.slots slot (some n) }

def clusterDelSlot (slot : Nat) (c : ClusterState ν) : ClusterState ν :=
  match c.slots slot with
  | none => c
  | some n =>
    let x := c.node n
    { c.setNode n { x with
        slots := x.slots.erase slot
        numslots := if slot ∈ x.slots then x.numslots - 1 else x.numslots } with
      slots := Function.update c.slots slot none }

/-! ## Messages -/

/-- `clusterBuildMessageHdr`: a slave sends the slots and the `configEpoch` of its master. -/
def clusterBuildMessageHdr (c : ClusterState ν) (type : ClusterMsgType) : ClusterMsg ν :=
  let me := c.node c.myself
  let master := if me.flags.slave then me.slaveof.getD c.myself else c.myself
  { type := type
    sender := c.myself
    currentEpoch := c.currentEpoch
    configEpoch := (c.node master).configEpoch
    myslots := (c.node master).slots
    forceack := false }

/-- `clusterSendMessage` to a node, if there is a link to it. -/
def clusterSendMessage (c : ClusterState ν) (n : ν) (msg : ClusterMsg ν) :
    List (ν × ClusterMsg ν) :=
  if (c.node n).link then [(n, msg)] else []

def clusterBroadcastMessage (c : ClusterState ν) (msg : ClusterMsg ν) : List (ν × ClusterMsg ν) :=
  (c.nodes.filter fun n => (c.node n).link &&
    !((c.node n).flags.myself || (c.node n).flags.handshake)).map fun n => (n, msg)

/-- `clusterBroadcastPong`, to all nodes or to the slaves of this node and of its master. -/
def clusterBroadcastPong (c : ClusterState ν) (localSlaves : Bool) : List (ν × ClusterMsg ν) :=
  let me := c.node c.myself
  (c.nodes.filter fun n => (c.node n).link && !(n = c.myself || (c.node n).flags.handshake) &&
    (!localSlaves || ((c.node n).flags.slave && (c.node n).slaveof.isSome &&
      ((c.node n).slaveof = some c.myself || (c.node n).slaveof = me.slaveof)))).map
    fun n => (n, clusterBuildMessageHdr c .pong)

end RedisCluster
