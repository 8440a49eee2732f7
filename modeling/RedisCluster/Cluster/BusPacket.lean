import RedisCluster.Cluster.NodeTable

/-!
# Messages of the cluster bus

Sending (`clusterBuildMessageHdr`, `clusterSendPing` and the broadcasts) and receiving
(`clusterProcessPacket` with the gossip section). `clusterProcessPacket` is cut into the parts that
follow each other in its body; `via` is the node of the link a packet came in on, and `none` stands
for an accepted link.
-/

namespace RedisCluster.Bus

variable {ν : Type}

/-! ## Sending -/

def myFlags (c : BusState ν) (n : Addr) : MsgFlags :=
  { node := (c.node n).flags, pfail := (c.info n).pfail, noaddr := (c.info n).noaddr
    meet := (c.info n).meet }

/-- The node whose slots and `configEpoch` a message carries. -/
def headerMaster (c : BusState ν) : Addr :=
  if c.nodeIsSlave c.myself then (c.node c.myself).slaveof.getD c.myself else c.myself

def clusterBuildMessageHdr (cfg : BusConfig) (env : BusEnv ν) (c : BusState ν)
    (data : MsgData ν) : BusMsg ν :=
  { sender := (c.info c.myself).name
    myslots := (c.node (headerMaster c)).slots
    slaveof := (c.node c.myself).slaveof.map fun m => (c.info m).name
    port := cfg.port
    flags := myFlags c c.myself
    currentEpoch := c.currentEpoch
    configEpoch := (c.node (headerMaster c)).configEpoch
    offset := if c.nodeIsSlave c.myself then env.slave_repl_offset else env.master_repl_offset
    paused := c.nodeIsMaster c.myself && decide (c.mf_end ≠ 0)
    forceack := false
    data := data }

def clusterSendMessage (link : Option Addr) (msg : BusMsg ν) (c : BusState ν) : BusState ν :=
  { c with sent := c.sent ++ [(link, msg)] }

def clusterBroadcastMessage (msg : BusMsg ν) (c : BusState ν) : BusState ν :=
  c.nodes.foldl (fun c n =>
    if (c.node n).link && !((c.node n).flags.myself || (c.node n).flags.handshake) then
      clusterSendMessage (some n) msg c
    else c) c

inductive PingType where
  | ping
  | pong
  | meet
  deriving DecidableEq, Repr

def PingType.data : PingType → List (MsgGossip ν) → MsgData ν
  | .ping => .ping
  | .pong => .pong
  | .meet => .meet

/-- The loop of `clusterSendPing` over the nodes `picks` that are drawn at random. -/
def gossipSection [DecidableEq ν] (c : BusState ν) :
    List Addr → Nat → List (MsgGossip ν) → List (MsgGossip ν)
  | [], _, gossip => gossip
  | n :: picks, freshnodes, gossip =>
    if freshnodes = 0 ∨ gossip.length ≥ 3 then gossip
    else if n = c.myself ∨ (c.node n).flags.handshake ∨ (c.info n).noaddr ∨
        ((c.node n).link = false ∧ (c.node n).numslots = 0) then
      gossipSection c picks (freshnodes - 1) gossip
    else if gossip.any fun g => g.nodename = (c.info n).name then
      gossipSection c picks freshnodes gossip
    else
      gossipSection c picks (freshnodes - 1) (gossip ++
        [⟨(c.info n).name, (c.info n).ip, (c.info n).port, myFlags c n⟩])

/-- `link->node->ping_sent = mstime()` for a PING. -/
def notePing (env : BusEnv ν) (link : Option Addr) (type : PingType) (c : BusState ν) :
    BusState ν :=
  match link, type with
  | some n, .ping => c.modInfo n fun x => { x with ping_sent := env.mstime }
  | _, _ => c

def clusterSendPing [DecidableEq ν] (cfg : BusConfig) (env : BusEnv ν) (link : Option Addr)
    (type : PingType) (c : BusState ν) : BusState ν :=
  let c := notePing env link type c
  let gossip := gossipSection c (env.gossip c) (c.nodes.length - 2) []
  clusterSendMessage link (clusterBuildMessageHdr cfg env c (type.data gossip)) c

def localSlave (c : BusState ν) (n : Addr) : Bool :=
  c.nodeIsSlave n && (c.node n).slaveof.isSome &&
    ((c.node n).slaveof = some c.myself || (c.node n).slaveof = (c.node c.myself).slaveof)

def clusterBroadcastPong [DecidableEq ν] (cfg : BusConfig) (env : BusEnv ν) (localSlaves : Bool)
    (c : BusState ν) : BusState ν :=
  c.nodes.foldl (fun c n =>
    if (c.node n).link && !(n = c.myself || c.nodeInHandshake n) &&
        (!localSlaves || localSlave c n) then
      clusterSendPing cfg env (some n) .pong c
    else c) c

def clusterSendFail (cfg : BusConfig) (env : BusEnv ν) (nodename : ν) (c : BusState ν) :
    BusState ν :=
  clusterBroadcastMessage (clusterBuildMessageHdr cfg env c (.fail nodename)) c

/-- `clusterSendUpdate` on the link of `target`. -/
def clusterSendUpdate (cfg : BusConfig) (env : BusEnv ν) (target n : Addr) (c : BusState ν) :
    BusState ν :=
  if (c.node target).link then
    clusterSendMessage (some target) (clusterBuildMessageHdr cfg env c
      (.update (c.info n).name (c.node n).configEpoch (c.node n).slots)) c
  else c

/-- A message without data to `n`, if there is a link to it. -/
def clusterSendTo (cfg : BusConfig) (env : BusEnv ν) (n : Addr) (data : MsgData ν)
    (c : BusState ν) : BusState ν :=
  if (c.node n).link then
    clusterSendMessage (some n) (clusterBuildMessageHdr cfg env c data) c
  else c

/-! ## Failure detection -/

/-- The votes that `markNodeAsFailingIfNeeded` counts. -/
def failureVotes (c : BusState ν) (n : Addr) : Nat :=
  (c.info n).fail_reports.length + if c.nodeIsMaster c.myself then 1 else 0

/-- The node is marked in this call: it is in PFAIL and the votes reach the quorum. -/
def marksAsFailing (cfg : BusConfig) (env : BusEnv ν) (n : Addr) (c : BusState ν) : Bool :=
  c.nodeTimedOut n && !c.nodeFailed n &&
    decide (c.size / 2 + 1 ≤ failureVotes (clusterNodeCleanupFailureReports cfg env n c) n)

def setFailFlag (env : BusEnv ν) (n : Addr) (c : BusState ν) : BusState ν :=
  (c.modNode n fun x => { x with flags := { x.flags with fail := true } }).modInfo n fun x =>
    { x with pfail := false, fail_time := env.mstime }

def markNodeAsFailingIfNeeded (cfg : BusConfig) (env : BusEnv ν) (n : Addr) (c : BusState ν) :
    BusState ν :=
  if !c.nodeTimedOut n || c.nodeFailed n then c
  else
    let marks := marksAsFailing cfg env n c
    let c := clusterNodeCleanupFailureReports cfg env n c
    if marks then
      let c := setFailFlag env n c
      let c := if c.nodeIsMaster c.myself then clusterSendFail cfg env (c.info n).name c else c
      clusterDoBeforeSleep (orTodo todoUpdate todoSave) c
    else c

def clearFailFlag (n : Addr) (c : BusState ν) : BusState ν :=
  clusterDoBeforeSleep (orTodo todoUpdate todoSave)
    (c.modNode n fun x => { x with flags := { x.flags with fail := false } })

def clearNodeFailureIfNeeded (cfg : BusConfig) (env : BusEnv ν) (n : Addr) (c : BusState ν) :
    BusState ν :=
  let c := redisAssert (c.nodeFailed n) .clearNodeFailureIfNeeded c
  let c := if c.nodeIsSlave n ∨ (c.node n).numslots = 0 then clearFailFlag n c else c
  if c.nodeIsMaster n ∧ (c.node n).numslots > 0 ∧ env.mstime - (c.info n).fail_time >
      cfg.cluster_node_timeout * REDIS_CLUSTER_FAIL_UNDO_TIME_MULT then
    clearFailFlag n c
  else c

/-! ## Roles -/

def clusterSetNodeAsMaster (n : Addr) (c : BusState ν) : BusState ν :=
  if c.nodeIsMaster n then c
  else (leaveMaster n c).lift (RedisCluster.clusterSetNodeAsMaster n)

def resetManualFailover (c : BusState ν) : BusState ν :=
  { c.lift RedisCluster.resetManualFailover with mf_slave := none, mf_master_offset := 0 }

def setSlaveFlag (n : Addr) (c : BusState ν) : BusState ν :=
  c.modNode n fun x => { x with flags := { x.flags with master := false, slave := true } }

def clusterSetMaster (n : Addr) (c : BusState ν) : BusState ν :=
  let c := redisAssert (n ≠ c.myself) .clusterSetMaster c
  let c := redisAssert ((c.node c.myself).numslots = 0) .clusterSetMaster c
  let c := if c.nodeIsMaster c.myself then clusterCloseAllSlots (setSlaveFlag c.myself c)
    else leaveMaster c.myself c
  let c := c.modNode c.myself fun x => { x with slaveof := some n }
  resetManualFailover (clusterNodeAddSlave n c.myself c)

/-! ## Slots -/

/-- What the loop of `clusterUpdateSlotsConfigWith` works on. -/
structure Rebinding (ν : Type) where
  cluster : BusState ν
  newmaster : Bool
  dirty_slots : List Nat

def curmaster (c : BusState ν) : Option Addr :=
  if c.nodeIsMaster c.myself then some c.myself else (c.node c.myself).slaveof

/-- The slot is unassigned or served with an older configuration. -/
def slotIsOlder (c : BusState ν) (epoch : Nat) (j : Nat) : Bool :=
  match c.slots j with
  | none => true
  | some owner => decide ((c.node owner).configEpoch < epoch)

def rebindSlot (env : BusEnv ν) (cur : Option Addr) (sender : Addr) (epoch : Nat)
    (slots : Finset Nat) (r : Rebinding ν) (j : Nat) : Rebinding ν :=
  let c := r.cluster
  if j ∉ slots ∨ c.slots j = some sender ∨ (c.importing_slots_from j).isSome then r
  else if slotIsOlder c epoch j then
    { cluster := clusterDoBeforeSleep (orTodo todoSave (orTodo todoUpdate todoFsync))
        (clusterAddSlot sender j (clusterDelSlot j c))
      newmaster := r.newmaster || decide (c.slots j = cur)
      dirty_slots := if c.slots j = some c.myself ∧ env.countKeysInSlot j ≠ 0 ∧ sender ≠ c.myself
        then r.dirty_slots ++ [j] else r.dirty_slots }
  else r

def rebindSlots (env : BusEnv ν) (sender : Addr) (epoch : Nat) (slots : Finset Nat)
    (c : BusState ν) : Rebinding ν :=
  (List.range REDIS_CLUSTER_SLOTS).foldl
    (rebindSlot env (curmaster c) sender epoch slots) ⟨c, false, []⟩

/-- This node, or its master, has lost its last slot to the sender. -/
def losesLastSlot (cur : Option Addr) (r : Rebinding ν) : Bool :=
  r.newmaster && match cur with
    | none => false
    | some m => (r.cluster.node m).numslots = 0

def clusterUpdateSlotsConfigWith (env : BusEnv ν) (sender : Addr) (epoch : Nat)
    (slots : Finset Nat) (c : BusState ν) : BusState ν :=
  if sender = c.myself then c
  else
    let cur := curmaster c
    let r := rebindSlots env sender epoch slots c
    let c := redisAssert (!(r.newmaster && cur.isNone)) .nullPointer r.cluster
    if losesLastSlot cur r then
      clusterDoBeforeSleep (orTodo todoSave (orTodo todoUpdate todoFsync))
        (clusterSetMaster sender c)
    else { c with deletedSlots := c.deletedSlots ++ r.dirty_slots }

/-! ## `clusterProcessPacket` -/

section Packet

variable [DecidableEq ν]

/-- The fields of a message that the election functions read; none of them reads the type. -/
def BusMsg.request (hdr : BusMsg ν) (sender : Addr) : ClusterMsg Addr :=
  { type := .failoverAuthRequest, sender := sender, currentEpoch := hdr.currentEpoch
    configEpoch := hdr.configEpoch, myslots := hdr.myslots, forceack := hdr.forceack }

/-- The header of a message from a known node. -/
def processHeader (env : BusEnv ν) (sender : Addr) (hdr : BusMsg ν) (c : BusState ν) :
    BusState ν :=
  if c.nodeInHandshake sender then c
  else
    let c := c.lift (updateEpochs sender (hdr.request sender))
    let c := c.modInfo sender fun x =>
      { x with repl_offset := hdr.offset, repl_offset_time := env.mstime }
    if c.mf_end ≠ 0 ∧ c.nodeIsSlave c.myself ∧ (c.node c.myself).slaveof = some sender ∧
        hdr.paused ∧ c.mf_master_offset = 0 then
      { c with mf_master_offset := hdr.offset }
    else c

/-- What a master says about the state of `n`. -/
def gossipReport (cfg : BusConfig) (env : BusEnv ν) (sender : Option Addr) (n : Addr)
    (g : MsgGossip ν) (c : BusState ν) : BusState ν :=
  match sender with
  | none => c
  | some s =>
    if c.nodeIsMaster s ∧ n ≠ c.myself then
      if g.flags.node.fail || g.flags.pfail then
        markNodeAsFailingIfNeeded cfg env n (clusterNodeAddFailureReport env n s c)
      else clusterNodeDelFailureReport cfg env n s c
    else c

def processGossip (cfg : BusConfig) (env : BusEnv ν) (sender : Option Addr) (c : BusState ν)
    (g : MsgGossip ν) : BusState ν :=
  match clusterLookupNode c g.nodename with
  | some n =>
    let c := gossipReport cfg env sender n g c
    if (c.nodeFailed n || c.nodeTimedOut n) &&
        ((c.info n).ip.toLower != g.ip.toLower || (c.info n).port != g.port) then
      (clusterStartHandshake env g.ip g.port c).1
    else c
  | none =>
    if sender.isSome && !g.flags.noaddr then
      let c := clusterBlacklistCleanup env c
      if c.nodes_black_list.any fun e => e.1 = g.nodename then c
      else (clusterStartHandshake env g.ip g.port c).1
    else c

def clusterProcessGossipSection (cfg : BusConfig) (env : BusEnv ν) (via : Option Addr)
    (hdr : BusMsg ν) (gossip : List (MsgGossip ν)) (c : BusState ν) : BusState ν :=
  let sender := match via with
    | some n => some n
    | none => clusterLookupNode c hdr.sender
  gossip.foldl (processGossip cfg env sender) c

/-- The node of a MEET from somebody unknown. -/
def processMeet (env : BusEnv ν) (hdr : BusMsg ν) (c : BusState ν) : BusState ν :=
  let n := env.newNode c
  let c := createClusterNode env n.1 n.2 handshakeFlags false c
  let c := c.modInfo n.1 fun x => { x with ip := env.peerIp, port := hdr.port }
  clusterDoBeforeSleep todoSave (clusterAddNode n.1 c)

/-- The address of a node changed, unless the packet came in on the link to it. -/
def addressChanges (env : BusEnv ν) (n : Addr) (via : Option Addr) (port : Nat)
    (c : BusState ν) : Bool :=
  !(via = some n) && !((c.info n).port == port && env.peerIp == (c.info n).ip)

def nodeUpdateAddressIfNeeded (env : BusEnv ν) (n : Addr) (via : Option Addr) (port : Nat)
    (c : BusState ν) : BusState ν :=
  if addressChanges env n via port c then
    clusterDoBeforeSleep (orTodo todoSave todoUpdate)
      (freeNodeLink n (c.modInfo n fun x => { x with ip := env.peerIp, port := port }))
  else c

/-- The link is to a node in handshake that turns out to be known, or to another node than the one
that answers: the packet is not looked at any further. -/
def dropsPacket (via sender : Option Addr) (hdr : BusMsg ν) (c : BusState ν) : Bool :=
  match via with
  | none => false
  | some n => if c.nodeInHandshake n then sender.isSome else (c.info n).name ≠ hdr.sender

/-- What a packet that is dropped does to the node of its link. -/
def dropPacket (env : BusEnv ν) (n : Addr) (sender : Option Addr) (hdr : BusMsg ν)
    (c : BusState ν) : BusState ν :=
  if c.nodeInHandshake n then
    match sender with
    | none => c
    | some s => freeClusterNode n (nodeUpdateAddressIfNeeded env s (some n) hdr.port c)
  else
    clusterDoBeforeSleep todoSave
      (freeNodeLink n (c.modInfo n fun x => { x with noaddr := true, ip := "", port := 0 }))

/-- The first answer of a node in handshake. -/
def completeHandshake (n : Addr) (hdr : BusMsg ν) (c : BusState ν) : BusState ν :=
  let c := clusterRenameNode n hdr.sender c
  clusterDoBeforeSleep todoSave (c.modNode n fun x => { x with flags := { x.flags with
    handshake := false
    master := x.flags.master || hdr.flags.node.master
    slave := x.flags.slave || hdr.flags.node.slave } })

def processPong (cfg : BusConfig) (env : BusEnv ν) (n : Addr) (c : BusState ν) : BusState ν :=
  let c := c.modInfo n fun x => { x with pong_received := env.mstime, ping_sent := 0 }
  if c.nodeTimedOut n then
    clusterDoBeforeSleep (orTodo todoSave todoUpdate) (c.modInfo n fun x => { x with pfail := false })
  else if c.nodeFailed n then clearNodeFailureIfNeeded cfg env n c
  else c

/-- A sender that says it is a slave stops being a master. -/
def demoteSender (sender : Addr) (c : BusState ν) : BusState ν :=
  if c.nodeIsMaster sender then
    let c := setSlaveFlag sender (clusterDelNodeSlots sender c)
    let c := if (c.info sender).numslaves ≠ 0 then clusterNodeResetSlaves sender c else c
    clusterDoBeforeSleep (orTodo todoSave todoUpdate) c
  else c

def changeMaster (sender master : Addr) (c : BusState ν) : BusState ν :=
  if (c.node sender).slaveof ≠ some master then
    let c := clusterNodeAddSlave master sender (leaveMaster sender c)
    clusterDoBeforeSleep todoSave (c.modNode sender fun x => { x with slaveof := some master })
  else c

def processRole (sender : Addr) (hdr : BusMsg ν) (c : BusState ν) : BusState ν :=
  match hdr.slaveof with
  | none => clusterSetNodeAsMaster sender c
  | some name =>
    match clusterLookupNode c name with
    | none => demoteSender sender c
    | some master => changeMaster sender master (demoteSender sender c)

/-- The slots of the sender, or of its master, differ from those it announces. -/
def dirtySlots (sender : Addr) (hdr : BusMsg ν) (c : BusState ν) : Bool :=
  match (if c.nodeIsMaster sender then some sender else (c.node sender).slaveof) with
  | none => false
  | some m => (c.node m).slots ≠ hdr.myslots

/-- The first slot that the sender claims with an older configuration than that of its owner. -/
def staleSlot (sender : Addr) (epoch : Nat) (slots : Finset Nat) (c : BusState ν) : Option Addr :=
  (List.range REDIS_CLUSTER_SLOTS).findSome? fun j =>
    if j ∈ slots ∧ c.slots j ≠ some sender then
      match c.slots j with
      | none => none
      | some owner => if (c.node owner).configEpoch > epoch then some owner else none
    else none

def clusterHandleConfigEpochCollision [LinearOrder ν] (sender : Addr) (c : BusState ν) :
    BusState ν :=
  if (c.node sender).configEpoch ≠ (c.node c.myself).configEpoch || !c.nodeIsMaster sender ||
      !c.nodeIsMaster c.myself then c
  else if (c.info sender).name ≤ (c.info c.myself).name then c
  else
    let e := (c.currentEpoch + 1) % 2 ^ 64
    let c := c.lift fun s => { s with currentEpoch := e }
    clusterSaveConfigOrDie (c.modNode c.myself fun x => { x with configEpoch := e })

end Packet

section Process

variable [LinearOrder ν]

def adoptSlots (env : BusEnv ν) (sender : Addr) (epoch : Nat) (hdr : BusMsg ν) (c : BusState ν) :
    BusState ν :=
  if c.nodeIsMaster sender && dirtySlots sender hdr c then
    clusterUpdateSlotsConfigWith env sender epoch hdr.myslots c
  else c

/-- An UPDATE for a sender with an old configuration. -/
def sendStaleUpdate (cfg : BusConfig) (env : BusEnv ν) (sender : Addr) (epoch : Nat)
    (hdr : BusMsg ν) (c : BusState ν) : BusState ν :=
  match staleSlot sender epoch hdr.myslots c with
  | none => c
  | some owner => clusterSendUpdate cfg env sender owner c

def resolveCollision (sender : Addr) (epoch : Nat) (c : BusState ν) : BusState ν :=
  if c.nodeIsMaster c.myself && c.nodeIsMaster sender &&
      epoch = (c.node c.myself).configEpoch then
    clusterHandleConfigEpochCollision sender c
  else c

/-- The slots of the sender of a heartbeat; `epoch` is 0 for a sender in handshake. -/
def processSlots (cfg : BusConfig) (env : BusEnv ν) (sender : Addr) (epoch : Nat) (hdr : BusMsg ν)
    (c : BusState ν) : BusState ν :=
  let dirty := dirtySlots sender hdr c
  let c := adoptSlots env sender epoch hdr c
  let c := if dirty then sendStaleUpdate cfg env sender epoch hdr c else c
  resolveCollision sender epoch c

/-- The first answer on a link to a node in handshake. -/
def heartbeatHandshake (via : Option Addr) (hdr : BusMsg ν) (c : BusState ν) : BusState ν :=
  match via with
  | some n => if c.nodeInHandshake n then completeHandshake n hdr c else c
  | none => c

def heartbeatAddress (env : BusEnv ν) (via sender : Option Addr) (type : PingType) (hdr : BusMsg ν)
    (c : BusState ν) : BusState ν :=
  match sender, type with
  | some s, .ping => if c.nodeInHandshake s then c else
      nodeUpdateAddressIfNeeded env s via hdr.port c
  | _, _ => c

def heartbeatPong (cfg : BusConfig) (env : BusEnv ν) (via : Option Addr) (type : PingType)
    (c : BusState ν) : BusState ν :=
  match via, type with
  | some n, .pong => processPong cfg env n c
  | _, _ => c

/-- The role and the slots of a known sender. -/
def heartbeatSender (cfg : BusConfig) (env : BusEnv ν) (sender : Option Addr) (epoch : Nat)
    (hdr : BusMsg ν) (c : BusState ν) : BusState ν :=
  match sender with
  | none => c
  | some s => processSlots cfg env s epoch hdr (processRole s hdr c)

/-- A PING, PONG or MEET, after the answer to it, up to the gossip section. -/
def heartbeatBody (cfg : BusConfig) (env : BusEnv ν) (via sender : Option Addr) (type : PingType)
    (epoch : Nat) (hdr : BusMsg ν) (c : BusState ν) : BusState ν :=
  let c := heartbeatAddress env via sender type hdr (heartbeatHandshake via hdr c)
  heartbeatSender cfg env sender epoch hdr (heartbeatPong cfg env via type c)

/-- A PING, PONG or MEET up to its first gossip section. -/
def pingBody (env : BusEnv ν) (sender : Option Addr) (type : PingType) (hdr : BusMsg ν)
    (c : BusState ν) : BusState ν :=
  if sender.isNone && type = .meet then processMeet env hdr c else c

def answerPing (cfg : BusConfig) (env : BusEnv ν) (via sender : Option Addr) (type : PingType)
    (hdr : BusMsg ν) (gossip : List (MsgGossip ν)) (c : BusState ν) : BusState ν :=
  if type = .pong then c
  else clusterSendPing cfg env via .pong
    (clusterProcessGossipSection cfg env via hdr gossip (pingBody env sender type hdr c))

def processPing (cfg : BusConfig) (env : BusEnv ν) (via sender : Option Addr) (type : PingType)
    (epoch : Nat) (hdr : BusMsg ν) (gossip : List (MsgGossip ν)) (c : BusState ν) : BusState ν :=
  let c := answerPing cfg env via sender type hdr gossip c
  if dropsPacket via sender hdr c then
    match via with
    | none => c
    | some n => dropPacket env n sender hdr c
  else clusterProcessGossipSection cfg env via hdr gossip
    (heartbeatBody cfg env via sender type epoch hdr c)

def processFail (env : BusEnv ν) (nodename : ν) (c : BusState ν) : BusState ν :=
  match clusterLookupNode c nodename with
  | none => c
  | some failing =>
    if c.nodeFailed failing || (c.node failing).flags.myself then c
    else clusterDoBeforeSleep (orTodo todoSave todoUpdate) (setFailFlag env failing c)

def processAuthRequest (cfg : BusConfig) (env : BusEnv ν) (sender : Addr) (hdr : BusMsg ν)
    (c : BusState ν) : BusState ν :=
  match clusterSendFailoverAuthIfNeeded cfg.toClusterConfig env.mstime sender
      (hdr.request sender) c.toClusterState with
  | none => c
  | some r =>
    (clusterSendTo cfg env sender .failoverAuthAck c).lift fun _ => r.1

def processMfstart (env : BusEnv ν) (sender : Addr) (c : BusState ν) : BusState ν :=
  if (c.node sender).slaveof ≠ some c.myself then c
  else
    let c := resetManualFailover c
    { c.lift (fun s => { s with mf_end := env.mstime + REDIS_CLUSTER_MF_TIMEOUT }) with
      mf_slave := some sender }

def processUpdate (env : BusEnv ν) (nodename : ν) (epoch : Nat) (slots : Finset Nat)
    (c : BusState ν) : BusState ν :=
  match clusterLookupNode c nodename with
  | none => c
  | some n =>
    if (c.node n).configEpoch ≥ epoch then c
    else
      let c := if c.nodeIsSlave n then clusterSetNodeAsMaster n c else c
      let c := clusterDoBeforeSleep (orTodo todoSave todoFsync)
        (c.modNode n fun x => { x with configEpoch := epoch })
      clusterUpdateSlotsConfigWith env n epoch slots c

/-- A node of the table that is not in handshake. -/
def knownSender (sender : Option Addr) (c : BusState ν) : Bool :=
  match sender with
  | none => false
  | some s => !c.nodeInHandshake s

def senderHeader (env : BusEnv ν) (sender : Option Addr) (hdr : BusMsg ν) (c : BusState ν) :
    BusState ν :=
  match sender with
  | none => c
  | some s => processHeader env s hdr c

/-- The part of `clusterProcessPacket` that depends on the type of the packet. -/
def processData (cfg : BusConfig) (env : BusEnv ν) (via sender : Option Addr)
    (senderCurrentEpoch senderConfigEpoch : Nat) (hdr : BusMsg ν) (c : BusState ν) : BusState ν :=
  match hdr.data, sender with
  | .ping gossip, _ => processPing cfg env via sender .ping senderConfigEpoch hdr gossip c
  | .pong gossip, _ => processPing cfg env via sender .pong senderConfigEpoch hdr gossip c
  | .meet gossip, _ => processPing cfg env via sender .meet senderConfigEpoch hdr gossip c
  | .fail nodename, some _ => processFail env nodename c
  | .failoverAuthRequest, some s => processAuthRequest cfg env s hdr c
  | .failoverAuthAck, some s => c.lift (countVote s senderCurrentEpoch)
  | .mfstart, some s => processMfstart env s c
  | .update nodename epoch slots, some _ => processUpdate env nodename epoch slots c
  | _, _ => c

/-- `clusterProcessPacket` for a packet that passed the length checks. The epochs of a sender in
handshake are taken as 0. -/
def clusterProcessPacket (cfg : BusConfig) (env : BusEnv ν) (via : Option Addr) (hdr : BusMsg ν)
    (c : BusState ν) : BusState ν :=
  let sender := clusterLookupNode c hdr.sender
  let known := knownSender sender c
  processData cfg env via sender (if known then hdr.currentEpoch else 0)
    (if known then hdr.configEpoch else 0) hdr (senderHeader env sender hdr c)

end Process

end RedisCluster.Bus
