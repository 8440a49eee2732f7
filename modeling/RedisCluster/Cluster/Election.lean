import RedisCluster.Lib.EpochVote
import RedisCluster.Lib.Links
import RedisCluster.Lib.Run
import RedisCluster.Cluster.Failover

/-!
# A cluster that elects a new master

Every node has its own state; packets travel on FIFO links and may be delayed or lost with their
link. A step delivers one packet, runs `clusterHandleSlaveFailover` on one node, sends a heartbeat,
or is something else a node does (`localChange`). The votes granted, the ACKs processed and the
promotions are recorded on the side.
-/

namespace RedisCluster

open RedisCluster.Lib

variable {ν : Type} [DecidableEq ν]

structure ElectionState (ν : Type) where
  cluster : ν → ClusterState ν
  links : Links ν (ClusterMsg ν)
  /-- The votes granted, each for the `currentEpoch` of the voter. -/
  votes : List (Vote ν)
  /-- The ACKs processed, each with the epoch in its header. -/
  acks : List (Vote ν)
  /-- The slaves promoted, each with its new `configEpoch`. -/
  promotions : List (ν × Nat)

inductive ElectionAct (ν : Type) where
  | deliver (src dst : ν) (mstime : Int)
  | handleFailover (n : ν) (env : FailoverEnv)
  | ping (src dst : ν)
  | resetLink (src dst : ν)
  | other (n : ν) (ch : LocalChange ν)

/-- A node processes a packet that came over the link from `src`. -/
def deliverPacket (cfg : ClusterConfig) (mstime : Int) (src dst : ν) (hdr : ClusterMsg ν)
    (rest : List (ClusterMsg ν)) (w : ElectionState ν) : ElectionState ν :=
  let r := clusterProcessPacket cfg mstime hdr (w.cluster dst)
  { w with
    cluster := Function.update w.cluster dst r.1
    links := (w.links.set src dst rest).send dst r.2.1
    votes := if r.2.2 then w.votes ++ [⟨dst, hdr.sender, r.1.lastVoteEpoch⟩] else w.votes
    acks := if hdr.type = .failoverAuthAck then w.acks ++ [⟨hdr.sender, dst, hdr.currentEpoch⟩]
      else w.acks }

/-- A node runs `clusterHandleSlaveFailover`. -/
def handleFailoverAt (cfg : ClusterConfig) (n : ν) (env : FailoverEnv) (w : ElectionState ν) :
    ElectionState ν :=
  let r := clusterHandleSlaveFailover cfg env (w.cluster n)
  { w with
    cluster := Function.update w.cluster n r.1
    links := w.links.send n r.2.1
    promotions := if r.2.2 then w.promotions ++ [(n, (r.1.node n).configEpoch)] else w.promotions }

def electionStep (cfg : ClusterConfig) (w : ElectionState ν) : ElectionAct ν → ElectionState ν
  | .deliver src dst mstime =>
    match w.links src dst with
    | [] => w
    | hdr :: rest => deliverPacket cfg mstime src dst hdr rest w
  | .handleFailover n env => handleFailoverAt cfg n env w
  | .ping src dst =>
    let c := w.cluster src
    { w with links := w.links.send src (clusterSendMessage c dst (clusterBuildMessageHdr c .ping)) }
  | .resetLink src dst => { w with links := w.links.set src dst [] }
  | .other n ch => { w with cluster := Function.update w.cluster n (localChange ch (w.cluster n)) }

/-- The node takes no node but those of `M` for a master with slots, it knows how many there are,
and it has no link to itself. -/
structure KnowsMasters (M : Finset ν) (c : ClusterState ν) : Prop where
  masters : ∀ x, x ≠ c.myself → c.nodeIsMaster x = true → 0 < (c.node x).numslots → x ∈ M
  size : M.card ≤ c.size
  link : (c.node c.myself).link = false

/-- The nodes have started and nothing has been sent yet. -/
structure ElectionStart (M : Finset ν) (w : ElectionState ν) : Prop where
  myself : ∀ n, (w.cluster n).myself = n
  knows : ∀ n, KnowsMasters M (w.cluster n)
  lastVote : ∀ n, (w.cluster n).lastVoteEpoch ≤ (w.cluster n).currentEpoch
  auth_epoch : ∀ n, (w.cluster n).failover_auth_epoch = 0
  auth_count : ∀ n, (w.cluster n).failover_auth_count = 0
  links : ∀ a b, w.links a b = []
  votes : w.votes = []
  acks : w.acks = []
  promotions : w.promotions = []

/-- The set of masters stays the same: no change a node makes by itself teaches it another one. -/
def MastersFixed (M : Finset ν) (w : ElectionState ν) : ElectionAct ν → Prop
  | .other n ch => KnowsMasters M (localChange ch (w.cluster n))
  | _ => True

/-- A slave that asks for votes has not counted any since it scheduled the election, and its
`currentEpoch` does not wrap. -/
def CountFresh (cfg : ClusterConfig) (w : ElectionState ν) : ElectionAct ν → Prop
  | .handleFailover n env => failoverBranch cfg env (w.cluster n) = .askForVotes →
      (w.cluster n).failover_auth_count = 0 ∧ (w.cluster n).currentEpoch + 1 < 2 ^ 64
  | _ => True

instance (cfg : ClusterConfig) (w : ElectionState ν) : ∀ a, Decidable (CountFresh cfg w a)
  | .handleFailover .. => inferInstanceAs (Decidable (_ → _))
  | .deliver .. => inferInstanceAs (Decidable True)
  | .ping .. => inferInstanceAs (Decidable True)
  | .resetLink .. => inferInstanceAs (Decidable True)
  | .other .. => inferInstanceAs (Decidable True)

/-- At most one slave is promoted in an epoch, and each promotion rests on ACKs that a majority of
the masters granted for its epoch. -/
def ElectionSafe (M : Finset ν) (w : ElectionState ν) : Prop :=
  (∀ s s' e, (s, e) ∈ w.promotions → (s', e) ∈ w.promotions → s = s') ∧
    ∀ s e, (s, e) ∈ w.promotions → ∃ V ⊆ M, M.card / 2 + 1 ≤ V.card ∧
      ∀ v ∈ V, (⟨v, s, e⟩ : Vote ν) ∈ w.votes ∧ (⟨v, s, e⟩ : Vote ν) ∈ w.acks

end RedisCluster

/-!
## A voter that saves its configuration and crashes

`nodes.conf` ends with a line `vars currentEpoch … lastVoteEpoch …`; `ConfVars` is that line. The
node lines are read into the node table a restart begins with. A run of a voter processes packets,
saves its configuration before it sleeps if a flag asks for it, and may crash and start again from
the last configuration it wrote. The votes it granted are recorded on the side.
-/

namespace RedisCluster

open RedisCluster.Lib

variable {ν : Type} [DecidableEq ν]

/-- The `vars` line of `nodes.conf`. -/
structure ConfVars where
  currentEpoch : Nat
  lastVoteEpoch : Nat

/-- The vars that `clusterSaveConfig` writes. -/
def clusterSaveConfig (c : ClusterState ν) : ConfVars := ⟨c.currentEpoch, c.lastVoteEpoch⟩

/-- `clusterBeforeSleep`: the new state and what it wrote to `nodes.conf`, if it did. -/
def clusterBeforeSleep (cfg : ClusterConfig) (env : FailoverEnv) (c : ClusterState ν) :
    ClusterState ν × Option ConfVars :=
  let r := if c.todo_before_sleep.handleFailover then clusterHandleSlaveFailover cfg env c
    else (c, [], false)
  ({ r.1 with todo_before_sleep := ⟨false, false, false, false⟩ },
    if r.2.2 || r.1.todo_before_sleep.saveConfig then some (clusterSaveConfig r.1) else none)

/-- What the node lines of `nodes.conf` are read into. -/
structure NodeTable (ν : Type) where
  myself : ν
  nodes : List ν
  node : ν → ClusterNode ν
  slots : Nat → Option ν
  /-- `clusterInit` does not assign `failover_auth_sent`. -/
  failover_auth_sent : Bool

def clusterGetMaxEpoch (c : ClusterState ν) : Nat :=
  max ((c.nodes.map fun n => (c.node n).configEpoch).foldl max 0) c.currentEpoch

/-- `clusterInit` with `clusterLoadConfig`. -/
def clusterInit (t : NodeTable ν) (vars : ConfVars) : ClusterState ν :=
  let c : ClusterState ν :=
    { myself := t.myself, currentEpoch := vars.currentEpoch, size := 1, nodes := t.nodes
      node := t.node, slots := t.slots, failover_auth_time := 0, failover_auth_count := 0
      failover_auth_sent := t.failover_auth_sent, failover_auth_rank := 0, failover_auth_epoch := 0
      mf_end := 0, mf_can_start := false, lastVoteEpoch := vars.lastVoteEpoch
      todo_before_sleep := ⟨false, false, false, false⟩ }
  { c with currentEpoch := clusterGetMaxEpoch c }

structure VoterState (ν : Type) where
  cluster : ClusterState ν
  conf : ConfVars
  /-- The slaves voted for, each with the epoch. -/
  votes : List (ν × Nat)

inductive VoterAct (ν : Type) where
  | packet (mstime : Int) (hdr : ClusterMsg ν)
  | beforeSleep (env : FailoverEnv)
  | other (ch : LocalChange ν)
  | crash (t : NodeTable ν)

/-- A node that starts for the first time. -/
def voterBoot (t : NodeTable ν) : VoterState ν :=
  { cluster := clusterInit t ⟨0, 0⟩, conf := ⟨0, 0⟩, votes := [] }

def voterStep (cfg : ClusterConfig) (s : VoterState ν) : VoterAct ν → VoterState ν
  | .packet mstime hdr =>
    let r := clusterProcessPacket cfg mstime hdr s.cluster
    { s with
      cluster := r.1
      votes := if r.2.2 then s.votes ++ [(hdr.sender, r.1.lastVoteEpoch)] else s.votes }
  | .beforeSleep env =>
    let r := clusterBeforeSleep cfg env s.cluster
    { s with cluster := r.1, conf := r.2.getD s.conf }
  | .other ch => { s with cluster := localChange ch s.cluster }
  | .crash t => { s with cluster := clusterInit t s.conf }

/-- No vote is newer than the last configuration written when the node crashes, and an election of
its own does not wrap `currentEpoch`. -/
def VoteSaved (cfg : ClusterConfig) (s : VoterState ν) : VoterAct ν → Prop
  | .crash _ => s.conf.lastVoteEpoch = s.cluster.lastVoteEpoch
  | .beforeSleep env => failoverBranch cfg env s.cluster = .askForVotes →
      s.cluster.currentEpoch + 1 < 2 ^ 64
  | _ => True

instance (cfg : ClusterConfig) (s : VoterState ν) : ∀ a, Decidable (VoteSaved cfg s a)
  | .crash _ => inferInstanceAs (Decidable (_ = _))
  | .beforeSleep _ => inferInstanceAs (Decidable (_ → _))
  | .packet .. => inferInstanceAs (Decidable True)
  | .other _ => inferInstanceAs (Decidable True)

end RedisCluster
