import RedisCluster.Cluster.BusSpec

/-!
# Who considers a node failing

A run that also keeps what the masters said about each other: each entry of a gossip section that
`clusterProcessGossipSection` takes for a report is a `Statement`, and each call of
`markNodeAsFailingIfNeeded` is recorded with the state it is made in. The steps are those of
`busStep`.
-/

namespace RedisCluster.Bus

open RedisCluster.Lib

variable {ν : Type}

/-- A master said that a node is in FAIL or PFAIL, or that it is not. -/
structure Statement where
  reporter : Addr
  about : Addr
  bad : Bool
  time : Int
  deriving DecidableEq, Repr

/-- A call of `markNodeAsFailingIfNeeded` for `node`, with what was said so far, the latest first. -/
structure MarkCall (ν : Type) where
  env : BusEnv ν
  cluster : BusState ν
  log : List Statement
  node : Addr

/-- A node, what the masters of its table said, and the calls of the last step. -/
structure Heard (ν : Type) where
  cluster : BusState ν
  log : List Statement
  calls : List (MarkCall ν)

section Run

variable [LinearOrder ν]

/-- What a gossip entry says, if it is taken for a report. -/
def statement (env : BusEnv ν) (sender : Option Addr) (c : BusState ν) (g : MsgGossip ν) :
    Option Statement :=
  match clusterLookupNode c g.nodename, sender with
  | some n, some s =>
    if c.nodeIsMaster s ∧ n ≠ c.myself then some ⟨s, n, g.flags.node.fail || g.flags.pfail, env.mstime⟩
    else none
  | _, _ => none

def hearGossip (cfg : BusConfig) (env : BusEnv ν) (sender : Option Addr) (h : Heard ν)
    (g : MsgGossip ν) : Heard ν :=
  let c := processGossip cfg env sender h.cluster g
  match statement env sender h.cluster g with
  | none => { h with cluster := c }
  | some x =>
    { cluster := c
      log := x :: h.log
      calls := if x.bad then
          ⟨env, clusterNodeAddFailureReport env x.about x.reporter h.cluster, x :: h.log, x.about⟩ ::
            h.calls
        else h.calls }

def hearGossipSection (cfg : BusConfig) (env : BusEnv ν) (via : Option Addr) (hdr : BusMsg ν)
    (gossip : List (MsgGossip ν)) (h : Heard ν) : Heard ν :=
  let sender := match via with
    | some n => some n
    | none => clusterLookupNode h.cluster hdr.sender
  gossip.foldl (hearGossip cfg env sender) h

def hearAnswerPing (cfg : BusConfig) (env : BusEnv ν) (via sender : Option Addr) (type : PingType)
    (hdr : BusMsg ν) (gossip : List (MsgGossip ν)) (h : Heard ν) : Heard ν :=
  if type = .pong then h
  else
    let h := hearGossipSection cfg env via hdr gossip
      { h with cluster := pingBody env sender type hdr h.cluster }
    { h with cluster := clusterSendPing cfg env via .pong h.cluster }

def hearPing (cfg : BusConfig) (env : BusEnv ν) (via sender : Option Addr) (type : PingType)
    (epoch : Nat) (hdr : BusMsg ν) (gossip : List (MsgGossip ν)) (h : Heard ν) : Heard ν :=
  let h := hearAnswerPing cfg env via sender type hdr gossip h
  if dropsPacket via sender hdr h.cluster then
    match via with
    | none => h
    | some n => { h with cluster := dropPacket env n sender hdr h.cluster }
  else hearGossipSection cfg env via hdr gossip
    { h with cluster := heartbeatBody cfg env via sender type epoch hdr h.cluster }

def hearPacket (cfg : BusConfig) (env : BusEnv ν) (via : Option Addr) (hdr : BusMsg ν)
    (h : Heard ν) : Heard ν :=
  let sender := clusterLookupNode h.cluster hdr.sender
  let known := knownSender sender h.cluster
  let epoch := if known then hdr.configEpoch else 0
  let d := { h with cluster := senderHeader env sender hdr h.cluster }
  match hdr.data with
  | .ping gossip => hearPing cfg env via sender .ping epoch hdr gossip d
  | .pong gossip => hearPing cfg env via sender .pong epoch hdr gossip d
  | .meet gossip => hearPing cfg env via sender .meet epoch hdr gossip d
  | _ => { h with cluster := clusterProcessPacket cfg env via hdr h.cluster }

def hearEvent (cfg : BusConfig) (env : BusEnv ν) (event : BusEvent ν) (h : Heard ν) : Heard ν :=
  match event with
  | .packet via hdr => if linkExists via h.cluster then hearPacket cfg env via hdr h else h
  | event => { h with cluster := busEvent cfg env event h.cluster }

/-- What was said by or about a node is forgotten with the node. -/
def hearStep (cfg : BusConfig) (h : Heard ν) (a : BusAct ν) : Heard ν :=
  if h.cluster.crashed.isSome then { h with calls := [] }
  else
    let h := hearEvent cfg a.env a.event
      ⟨{ h.cluster with sent := [], deletedSlots := [] }, h.log, []⟩
    { h with log := h.log.filter fun x => x.reporter ∈ h.cluster.nodes ∧ x.about ∈ h.cluster.nodes }

end Run

/-! ## The quorum -/

/-- The last that was said by `s` about `n`. -/
def lastWord (log : List Statement) (s n : Addr) : Option Statement :=
  log.find? fun x => x.reporter = s ∧ x.about = n

/-- The master `s` considers the node of the call to be in PFAIL or FAIL: this node by its own flag,
another one by a report that is not too old. -/
def Considers (cfg : BusConfig) (call : MarkCall ν) (s : Addr) : Prop :=
  (s = call.cluster.myself ∧ call.cluster.nodeTimedOut call.node) ∨
    ∃ x, lastWord call.log s call.node = some x ∧ x.bad ∧
      call.env.mstime - x.time ≤ reportMaxTime cfg

/-- The number of masters that serve slots. -/
def slotMasters (c : BusState ν) : Nat := c.nodes.countP (servesSlots c)

/-- A majority of the masters that serve slots considers the node to be failing. -/
def Majority (cfg : BusConfig) (call : MarkCall ν) : Prop :=
  ∃ voters : Finset Addr, slotMasters call.cluster / 2 + 1 ≤ voters.card ∧
    ∀ s ∈ voters, s ∈ call.cluster.nodes ∧ servesSlots call.cluster s ∧ Considers cfg call s

/-- In a call that gets to count, `size` is up to date and every vote that is counted is that of
another master that serves slots, or of this node if it is one. -/
def CountsMasters (cfg : BusConfig) (call : MarkCall ν) : Prop :=
  let c := call.cluster
  c.nodeTimedOut call.node → c.nodeFailed call.node = false →
    c.size = slotMasters c ∧ (c.nodeIsMaster c.myself → servesSlots c c.myself) ∧
      ∀ r ∈ (c.info call.node).fail_reports, call.env.mstime - r.time ≤ reportMaxTime cfg →
        r.node ≠ c.myself ∧ servesSlots c r.node

/-- Nobody in the table has a report of the node. -/
def NoReportBy (c : BusState ν) (n : Addr) : Prop :=
  ∀ k ∈ c.nodes, ∀ r ∈ (c.info k).fail_reports, r.node ≠ n

/-- A node in handshake is no master yet, and nobody has a report of it. -/
def HandshakesReportNothing (c : BusState ν) : Prop :=
  ∀ n ∈ c.nodes, c.nodeInHandshake n → c.nodeIsMaster n = false ∧ NoReportBy c n

instance (cfg : BusConfig) (call : MarkCall ν) : Decidable (CountsMasters cfg call) :=
  inferInstanceAs (Decidable (_ → _ → _ ∧ (_ → _) ∧ ∀ r ∈ _, _ → _ ∧ _))

instance (c : BusState ν) (n : Addr) : Decidable (NoReportBy c n) :=
  inferInstanceAs (Decidable (∀ k ∈ c.nodes, ∀ r ∈ (c.info k).fail_reports, r.node ≠ n))

instance (c : BusState ν) : Decidable (HandshakesReportNothing c) :=
  inferInstanceAs (Decidable
    (∀ n ∈ c.nodes, c.nodeInHandshake n → c.nodeIsMaster n = false ∧ NoReportBy c n))

/-- The step counts only votes of masters that serve slots. -/
def QuorumKept [LinearOrder ν] (cfg : BusConfig) (h : Heard ν) (a : BusAct ν) : Prop :=
  HandshakesReportNothing h.cluster ∧ ∀ call ∈ (hearStep cfg h a).calls, CountsMasters cfg call

instance [LinearOrder ν] (cfg : BusConfig) (h : Heard ν) (a : BusAct ν) :
    Decidable (QuorumKept cfg h a) :=
  inferInstanceAs (Decidable (_ ∧ ∀ call ∈ (hearStep cfg h a).calls, CountsMasters cfg call))

def hearInit (a : Addr) (name : ν) (now : Int) (failover_auth_sent : Bool) : Heard ν :=
  ⟨busInit a name now failover_auth_sent, [], []⟩

end RedisCluster.Bus
