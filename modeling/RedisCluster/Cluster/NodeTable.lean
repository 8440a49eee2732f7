import RedisCluster.Lib.Bytes
import RedisCluster.Cluster.Failover

/-!
# The node table

The whole of `clusterState` and `clusterNode`. A node is known by its address (a `clusterNode *`);
`BusState` adds to the fields that elections use the fields that gossip, replication and slot changes
need, with names of type `ν`. `nodes` lists the nodes of the `nodes` dict in the order in which an
iterator visits them. The memory of a freed node keeps its last contents until the address is
allocated again. `strcasecmp` is on lower-case strings, and a name argument stands for the 40
characters that `clusterLookupNode` reads.
-/

namespace RedisCluster.Bus

open RedisCluster.Lib

abbrev Addr := Nat

def REDIS_CLUSTER_PORT_INCR : Nat := 10000
def REDIS_CLUSTER_FAIL_REPORT_VALIDITY_MULT : Int := 2
def REDIS_CLUSTER_FAIL_UNDO_TIME_MULT : Int := 2
def REDIS_CLUSTER_BLACKLIST_TTL : Int := 60
def REDIS_CLUSTER_MF_TIMEOUT : Int := 5000

structure FailReport where
  node : Addr
  time : Int
  deriving DecidableEq, Repr

/-- The fields of `clusterNode` besides those of `ClusterNode`. `slaves` is the whole array, of which
the first `numslaves` entries count. -/
structure NodeInfo (ν : Type) where
  ctime : Int
  name : ν
  pfail : Bool
  noaddr : Bool
  meet : Bool
  numslaves : Nat
  slaves : List Addr
  ping_sent : Int
  pong_received : Int
  fail_time : Int
  repl_offset_time : Int
  repl_offset : Int
  ip : String
  port : Nat
  /-- `link->ctime`, while there is a link. -/
  link_ctime : Int
  fail_reports : List FailReport

/-- The bits of the `flags` field of a message. -/
structure MsgFlags where
  node : NodeFlags
  pfail : Bool
  noaddr : Bool
  meet : Bool
  deriving DecidableEq, Repr

structure MsgGossip (ν : Type) where
  nodename : ν
  ip : String
  port : Nat
  flags : MsgFlags

/-- The type of a message and the data that goes with it. -/
inductive MsgData (ν : Type) where
  | ping (gossip : List (MsgGossip ν))
  | pong (gossip : List (MsgGossip ν))
  | meet (gossip : List (MsgGossip ν))
  | fail (nodename : ν)
  | publish
  | failoverAuthRequest
  | failoverAuthAck
  | update (nodename : ν) (configEpoch : Nat) (slots : Finset Nat)
  | mfstart

/-- `clusterMsg`. A name of zeroes in `slaveof` is `none`. -/
structure BusMsg (ν : Type) where
  sender : ν
  myslots : Finset Nat
  slaveof : Option ν
  port : Nat
  flags : MsgFlags
  currentEpoch : Nat
  configEpoch : Nat
  offset : Int
  /-- `CLUSTERMSG_FLAG0_PAUSED`. -/
  paused : Bool
  /-- `CLUSTERMSG_FLAG0_FORCEACK`. -/
  forceack : Bool
  data : MsgData ν

/-- Where the process can stop: the assertions, and a NULL pointer. -/
inductive Crash where
  | clusterDelSlot
  | clusterCommandSlots
  | freeClusterNode
  | clusterRenameNode
  | clusterSetMaster
  | clearNodeFailureIfNeeded
  | nullPointer
  deriving DecidableEq, Repr

structure BusState (ν : Type) extends ClusterState Addr where
  info : Addr → NodeInfo ν
  /-- `state == REDIS_CLUSTER_OK`. -/
  ok : Bool
  /-- Names with the time their entry expires. -/
  nodes_black_list : List (ν × Int)
  migrating_slots_to : Nat → Option Addr
  importing_slots_from : Nat → Option Addr
  mf_slave : Option Addr
  mf_master_offset : Int
  /-- The static variables of `clusterUpdateState`. -/
  first_call_time : Int
  among_minority_time : Int
  /-- The first assertion that failed: the process is gone. -/
  crashed : Option Crash
  /-- The messages added to the send buffers in this step, each with the node of its link; `none` is
  a link accepted from a client. -/
  sent : List (Option Addr × BusMsg ν)
  /-- The slots whose keys `delKeysInSlot` removed in this step. -/
  deletedSlots : List Nat

structure BusConfig extends ClusterConfig where
  cluster_migration_barrier : Nat
  port : Nat

/-- What a step reads from outside the cluster state. -/
structure BusEnv (ν : Type) where
  mstime : Int
  /-- `time(NULL)`. -/
  unixtime : Int
  countKeysInSlot : Nat → Nat
  /-- `dictSize(server.db[0].dict)`. -/
  dbsize : Nat
  master_repl_offset : Int
  /-- `replicationGetSlaveOffset()`. -/
  slave_repl_offset : Int
  /-- The address that `zmalloc` returns for a node, and its random name. -/
  newNode : BusState ν → Addr × ν
  /-- `inet_pton` and `inet_ntop`. -/
  normalizeIp : String → Option String
  /-- `anetPeerToString` of the link. -/
  peerIp : String
  /-- Whether a connection attempt to the node succeeds. -/
  connects : Addr → Bool
  /-- The nodes that `dictGetRandomKey` returns for the gossip section of a message. -/
  gossip : BusState ν → List Addr
  /-- The five nodes that `clusterCron` samples, if it does in this call. -/
  sample : List Addr
  /-- `random() % 500`. -/
  random : Int
  /-- `repl_state == REDIS_REPL_CONNECTED`. -/
  connected : Bool
  lastinteraction : Int
  repl_down_since : Int

variable {ν : Type}

namespace BusState

def nodeTimedOut (c : BusState ν) (n : Addr) : Bool := (c.info n).pfail

def setInfo (c : BusState ν) (n : Addr) (x : NodeInfo ν) : BusState ν :=
  { c with info := Function.update c.info n x }

/-- A change to the part of the state that elections use. -/
def lift (f : ClusterState Addr → ClusterState Addr) (c : BusState ν) : BusState ν :=
  { c with toClusterState := f c.toClusterState }

def modNode (c : BusState ν) (n : Addr) (f : ClusterNode Addr → ClusterNode Addr) : BusState ν :=
  c.lift fun s => s.setNode n (f (s.node n))

def modInfo (c : BusState ν) (n : Addr) (f : NodeInfo ν → NodeInfo ν) : BusState ν :=
  c.setInfo n (f (c.info n))

/-- The entries of the `slaves` array of a node. -/
def slavesOf (c : BusState ν) (n : Addr) : List Addr := (c.info n).slaves.take (c.info n).numslaves

end BusState

/-- The process ends if an assertion fails. -/
def redisAssert (cond : Bool) (what : Crash) (c : BusState ν) : BusState ν :=
  if cond then c else { c with crashed := c.crashed <|> some what }

/-! ## `todo_before_sleep` -/

def todoFailover : TodoFlags := ⟨true, false, false, false⟩
def todoUpdate : TodoFlags := ⟨false, true, false, false⟩
def todoSave : TodoFlags := ⟨false, false, true, false⟩
def todoFsync : TodoFlags := ⟨false, false, false, true⟩

def orTodo (a b : TodoFlags) : TodoFlags :=
  ⟨a.handleFailover || b.handleFailover, a.updateState || b.updateState,
    a.saveConfig || b.saveConfig, a.fsyncConfig || b.fsyncConfig⟩

def clusterDoBeforeSleep (flags : TodoFlags) (c : BusState ν) : BusState ν :=
  c.lift fun s => { s with todo_before_sleep := orTodo s.todo_before_sleep flags }

def clusterSaveConfigOrDie (c : BusState ν) : BusState ν :=
  c.lift fun s => { s with
    todo_before_sleep := { s.todo_before_sleep with saveConfig := false, fsyncConfig := false } }

/-! ## Failure reports -/

/-- A report of a node replaces its earlier one. -/
def addReport (now : Int) (sender : Addr) : List FailReport → List FailReport
  | [] => [⟨sender, now⟩]
  | r :: rs => if r.node = sender then ⟨sender, now⟩ :: rs else r :: addReport now sender rs

def clusterNodeAddFailureReport (env : BusEnv ν) (failing sender : Addr) (c : BusState ν) :
    BusState ν :=
  c.modInfo failing fun x => { x with fail_reports := addReport env.mstime sender x.fail_reports }

def reportMaxTime (cfg : BusConfig) : Int :=
  cfg.cluster_node_timeout * REDIS_CLUSTER_FAIL_REPORT_VALIDITY_MULT

def clusterNodeCleanupFailureReports (cfg : BusConfig) (env : BusEnv ν) (n : Addr)
    (c : BusState ν) : BusState ν :=
  c.modInfo n fun x => { x with
    fail_reports := x.fail_reports.filter fun r => !decide (env.mstime - r.time > reportMaxTime cfg) }

def clusterNodeDelFailureReport (cfg : BusConfig) (env : BusEnv ν) (n sender : Addr)
    (c : BusState ν) : BusState ν :=
  if (c.info n).fail_reports.any fun r => r.node = sender then
    clusterNodeCleanupFailureReports cfg env n
      (c.modInfo n fun x => { x with
        fail_reports := x.fail_reports.eraseP fun r => r.node = sender })
  else c

/-! ## Slaves -/

def pointers : List UInt8 → List Addr
  | a :: b :: c :: d :: e :: f :: g :: h :: bs => leNat [a, b, c, d, e, f, g, h] :: pointers bs
  | _ => []

def pointerBytes (ps : List Addr) : List UInt8 := ps.flatMap fun p : Addr => leBytes 8 (p : Int)

/-- `memmove(slaves+j, slaves+(j+1), n)`, where `n` counts bytes: it writes to `k` pointers. -/
def moveSlaves (slaves : List Addr) (j n : Nat) : List Addr :=
  let k := (n + 7) / 8
  let bs := (pointerBytes (slaves.drop (j + 1))).take n ++ (pointerBytes (slaves.drop j)).drop n
  slaves.take j ++ pointers (bs.take (8 * k)) ++ slaves.drop (j + k)

def clusterNodeRemoveSlave (master slave : Addr) (c : BusState ν) : BusState ν :=
  let j := (c.slavesOf master).idxOf slave
  if j < (c.slavesOf master).length then
    c.modInfo master fun x => { x with
      slaves := moveSlaves x.slaves j (x.numslaves - 1 - j)
      numslaves := x.numslaves - 1 }
  else c

def clusterNodeAddSlave (master slave : Addr) (c : BusState ν) : BusState ν :=
  if slave ∈ c.slavesOf master then c
  else
    c.modInfo master fun x => { x with
      slaves := x.slaves.take x.numslaves ++ [slave]
      numslaves := x.numslaves + 1 }

def clusterNodeResetSlaves (n : Addr) (c : BusState ν) : BusState ν :=
  c.modInfo n fun x => { x with slaves := [], numslaves := 0 }

def clusterCountNonFailingSlaves (c : BusState ν) (n : Addr) : Nat :=
  (c.slavesOf n).countP fun s => !c.nodeFailed s

/-- `if (n->slaveof) clusterNodeRemoveSlave(n->slaveof, n)`. -/
def leaveMaster (n : Addr) (c : BusState ν) : BusState ν :=
  match (c.node n).slaveof with
  | none => c
  | some m => clusterNodeRemoveSlave m n c

/-! ## Slots -/

def clusterAddSlot (n : Addr) (slot : Nat) (c : BusState ν) : BusState ν :=
  c.lift (RedisCluster.clusterAddSlot n slot)

def slotBitSet (c : BusState ν) (slot : Nat) : Bool :=
  match c.slots slot with
  | none => true
  | some n => decide (slot ∈ (c.node n).slots)

def clusterDelSlot (slot : Nat) (c : BusState ν) : BusState ν :=
  (redisAssert (slotBitSet c slot) .clusterDelSlot c).lift (RedisCluster.clusterDelSlot slot)

def clusterDelNodeSlots (n : Addr) (c : BusState ν) : BusState ν :=
  (List.range REDIS_CLUSTER_SLOTS).foldl
    (fun c j => if j ∈ (c.node n).slots then clusterDelSlot j c else c) c

def clusterCloseAllSlots (c : BusState ν) : BusState ν :=
  { c with migrating_slots_to := fun _ => none, importing_slots_from := fun _ => none }

/-! ## Nodes -/

def createClusterNode (env : BusEnv ν) (a : Addr) (name : ν) (flags : NodeFlags) (meet : Bool)
    (c : BusState ν) : BusState ν :=
  (c.modNode a fun _ =>
    { flags := flags, slaveof := none, slots := ∅, numslots := 0, configEpoch := 0,
      voted_time := 0, link := false }).modInfo a fun _ =>
    { ctime := env.mstime, name := name, pfail := false, noaddr := false, meet := meet,
      numslaves := 0, slaves := [], ping_sent := 0, pong_received := 0, fail_time := 0,
      repl_offset_time := 0, repl_offset := 0, ip := "", port := 0, link_ctime := 0,
      fail_reports := [] }

variable [DecidableEq ν]

def clusterLookupNode (c : BusState ν) (name : ν) : Option Addr :=
  c.nodes.find? fun a => (c.info a).name = name

def clusterAddNode (n : Addr) (c : BusState ν) : BusState ν :=
  match clusterLookupNode c (c.info n).name with
  | some _ => c
  | none => c.lift fun s => { s with nodes := n :: s.nodes }

def dictDeleteNode (name : ν) (c : BusState ν) : BusState ν :=
  match clusterLookupNode c name with
  | none => c
  | some a => c.lift fun s => { s with nodes := s.nodes.erase a }

/-- `redisAssert(dictDelete(…) == DICT_OK)`. -/
def dictDeleteOrDie (name : ν) (what : Crash) (c : BusState ν) : BusState ν :=
  dictDeleteNode name (redisAssert (clusterLookupNode c name).isSome what c)

def freeNodeLink (n : Addr) (c : BusState ν) : BusState ν :=
  c.modNode n fun x => { x with link := false }

def freeClusterNode (n : Addr) (c : BusState ν) : BusState ν :=
  freeNodeLink n (leaveMaster n (dictDeleteOrDie (c.info n).name .freeClusterNode c))

/-- One round of the slot loop of `clusterDelNode`. -/
def unassignSlot (delnode : Addr) (c : BusState ν) (j : Nat) : BusState ν :=
  let c := if c.importing_slots_from j = some delnode then
      { c with importing_slots_from := Function.update c.importing_slots_from j none } else c
  let c := if c.migrating_slots_to j = some delnode then
      { c with migrating_slots_to := Function.update c.migrating_slots_to j none } else c
  if c.slots j = some delnode then clusterDelSlot j c else c

def clusterDelNode (cfg : BusConfig) (env : BusEnv ν) (delnode : Addr) (c : BusState ν) :
    BusState ν :=
  let c := (List.range REDIS_CLUSTER_SLOTS).foldl (unassignSlot delnode) c
  let c := c.nodes.foldl (fun c n =>
    if n = delnode then c else clusterNodeDelFailureReport cfg env n delnode c) c
  let c := if c.nodeIsSlave delnode then leaveMaster delnode c else c
  freeClusterNode delnode c

def clusterRenameNode (n : Addr) (newname : ν) (c : BusState ν) : BusState ν :=
  let c := dictDeleteOrDie (c.info n).name .clusterRenameNode c
  clusterAddNode n (c.modInfo n fun x => { x with name := newname })

/-! ## The blacklist -/

def clusterBlacklistCleanup (env : BusEnv ν) (c : BusState ν) : BusState ν :=
  { c with nodes_black_list := c.nodes_black_list.filter fun e => !decide (e.2 < env.unixtime) }

def clusterBlacklistAddNode (env : BusEnv ν) (n : Addr) (c : BusState ν) : BusState ν :=
  let c := clusterBlacklistCleanup env c
  let name := (c.info n).name
  { c with nodes_black_list :=
      (name, env.unixtime + REDIS_CLUSTER_BLACKLIST_TTL) ::
        c.nodes_black_list.filter fun e => e.1 ≠ name }

/-! ## Handshakes -/

def clusterHandshakeInProgress (c : BusState ν) (ip : String) (port : Nat) : Bool :=
  c.nodes.any fun n => c.nodeInHandshake n && (c.info n).ip.toLower == ip.toLower &&
    (c.info n).port == port

inductive HandshakeResult where
  | started
  | einval
  | eagain
  deriving DecidableEq, Repr

def handshakeFlags : NodeFlags :=
  { master := false, slave := false, fail := false, myself := false, handshake := true }

def clusterStartHandshake (env : BusEnv ν) (ip : String) (port : Int) (c : BusState ν) :
    BusState ν × HandshakeResult :=
  match env.normalizeIp ip with
  | none => (c, .einval)
  | some norm_ip =>
    if port ≤ 0 ∨ port > 65535 - REDIS_CLUSTER_PORT_INCR then (c, .einval)
    else if clusterHandshakeInProgress c norm_ip port.toNat then (c, .eagain)
    else
      let n := env.newNode c
      let c := createClusterNode env n.1 n.2 handshakeFlags true c
      let c := c.modInfo n.1 fun x => { x with ip := norm_ip, port := port.toNat }
      (clusterAddNode n.1 c, .started)

end RedisCluster.Bus
