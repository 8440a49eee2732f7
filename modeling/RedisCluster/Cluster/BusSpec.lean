import RedisCluster.Lib.TwoWay
import RedisCluster.Cluster.BusRun

/-!
# What must hold of the node table

The invariants of slots and roles, and for each the condition on an event under which the code keeps
it. Conditions are on the state before the event, or on the states that the event's own loops go
through.
-/

namespace RedisCluster.Bus

open RedisCluster.Lib

variable {ν : Type}

/-! ## The allocation of nodes -/

/-- `zmalloc` returns no node of the table, and the random name is not the name of one and meets
`P`. -/
def FreshEnv [DecidableEq ν] (P : ν → Prop) (env : BusEnv ν) : Prop :=
  ∀ c : BusState ν, (env.newNode c).1 ∉ c.nodes ∧ clusterLookupNode c (env.newNode c).2 = none ∧
    P (env.newNode c).2

/-- The name is not that of the sender of the packet. -/
def notSender : BusEvent ν → ν → Prop
  | .packet _ hdr, name => name ≠ hdr.sender
  | _, _ => True

def FreshNodes [DecidableEq ν] (a : BusAct ν) : Prop := FreshEnv (notSender a.event) a.env

/-- Every connection succeeds, nothing else happens outside of the node, and a new node gets a name
greater than `seen`. -/
def idleEnv (seen : Nat) (mstime : Int) : BusEnv Nat :=
  { mstime := mstime, unixtime := mstime / 1000, countKeysInSlot := fun _ => 0, dbsize := 0
    master_repl_offset := 0, slave_repl_offset := 0
    newNode := fun c => (c.nodes.foldr max 0 + 1,
      (c.nodes.map fun n => (c.info n).name).foldr max seen + 1)
    normalizeIp := some, peerIp := "", connects := fun _ => true, gossip := fun _ => []
    sample := [], random := 0, connected := false, lastinteraction := 0, repl_down_since := 0 }

theorem le_foldr_max {x : Nat} (b : Nat) {xs : List Nat} (h : x = b ∨ x ∈ xs) :
    x ≤ xs.foldr max b := by
  induction xs with
  | nil =>
    rcases h with rfl | h
    · exact Nat.le_refl x
    · cases h
  | cons y ys ih =>
    rcases h with h | h
    · exact le_trans (ih (Or.inl h)) (le_max_right _ _)
    · rcases List.mem_cons.mp h with rfl | h
      · exact le_max_left _ _
      · exact le_trans (ih (Or.inr h)) (le_max_right _ _)

theorem freshEnv_idle (seen : Nat) (mstime : Int) :
    FreshEnv (fun name => seen < name) (idleEnv seen mstime) := by
  intro c
  refine ⟨fun h => ?_, ?_, ?_⟩
  · have hle := le_foldr_max 0 (Or.inr h)
    simp [idleEnv] at hle
  · simp only [clusterLookupNode, List.find?_eq_none]
    intro n hn he
    have he : (c.info n).name = ((idleEnv seen mstime).newNode c).2 := of_decide_eq_true he
    have hle := le_foldr_max seen (Or.inr (List.mem_map_of_mem (f := fun n => (c.info n).name) hn))
    simp only [idleEnv] at he
    omega
  · exact Nat.lt_succ_of_le (le_foldr_max seen (Or.inl rfl))

theorem freshNodes_idle {seen : Nat} (mstime : Int) {ev : BusEvent Nat}
    (h : ∀ name, seen < name → notSender ev name) : FreshNodes ⟨idleEnv seen mstime, ev⟩ := by
  intro c
  obtain ⟨h1, h2, h3⟩ := freshEnv_idle seen mstime c
  exact ⟨h1, h2, h _ h3⟩

/-! ## Slots -/

/-- The table and the bitmaps of the nodes agree, and `numslots` counts the bits. Only nodes of the
table own slots. -/
structure SlotTable (c : BusState ν) : Prop where
  owner : ∀ j n, c.slots j = some n ↔ n ∈ c.nodes ∧ j ∈ (c.node n).slots
  range : ∀ j n, c.slots j = some n → j < REDIS_CLUSTER_SLOTS
  count : ∀ n ∈ c.nodes, (c.node n).numslots = (c.node n).slots.card

theorem SlotTable.owner_unique {c : BusState ν} (h : SlotTable c) {j : Nat} {n m : Addr}
    (hn : n ∈ c.nodes) (hm : m ∈ c.nodes) (hjn : j ∈ (c.node n).slots)
    (hjm : j ∈ (c.node m).slots) : n = m := by
  have h1 := (h.owner j n).mpr ⟨hn, hjn⟩
  rw [(h.owner j m).mpr ⟨hm, hjm⟩] at h1
  exact (Option.some.inj h1).symm

/-- A node in handshake that is dropped, because the node that answered is known already or because
the handshake takes too long, owns no slot. -/
def HandshakesOwnNoSlot [DecidableEq ν] (cfg : BusConfig) (c : BusState ν) (a : BusAct ν) : Prop :=
  match a.event with
  | .packet (some n) hdr =>
    c.nodeInHandshake n → clusterLookupNode c hdr.sender ≠ none → (c.node n).slots = ∅
  | .cron => ∀ n ∈ c.nodes, handshakeExpired cfg a.env c n → (c.node n).slots = ∅
  | _ => True

/-! ## Slaves -/

/-- `slaveof` and the lists of slaves agree, and `numslaves` counts the entries of a list. -/
structure Topology (c : BusState ν) : Prop
    extends TwoWay c.nodes (fun n => (c.node n).slaveof) c.slavesOf where
  length : ∀ m ∈ c.nodes, (c.slavesOf m).length = (c.info m).numslaves

/-- The node is the last entry of the list of its master. -/
def LeavesLast (c : BusState ν) (n : Addr) : Prop :=
  ∀ m, (c.node n).slaveof = some m → (c.slavesOf m).getLast? = some n

/-- The node can be freed: it is the last entry of the list of its master, and no other node has it
for a master. -/
def FreeOk (c : BusState ν) (n : Addr) : Prop :=
  LeavesLast c n ∧ ∀ s ∈ c.nodes, s ≠ n → (c.node s).slaveof ≠ some n

/-- The node is a master, or it can leave its master. -/
def TurnOk (c : BusState ν) (n : Addr) : Prop := c.nodeIsMaster n = false → LeavesLast c n

section Topology

variable [LinearOrder ν]

/-- The role that the sender announces: a master that becomes a slave has no slaves itself, and a
slave that gets another master is the last entry of the list of the old one. -/
def RoleOk (sender : Addr) (hdr : BusMsg ν) (c : BusState ν) : Prop :=
  match hdr.slaveof with
  | none => TurnOk c sender
  | some name => (c.nodeIsMaster sender → c.slavesOf sender = []) ∧
      ∀ m, clusterLookupNode c name = some m → (c.node sender).slaveof ≠ some m → LeavesLast c sender

/-- If this node, or its master, loses its last slot, it can leave its master. -/
def ClaimOk (env : BusEnv ν) (sender : Addr) (epoch : Nat) (slots : Finset Nat) (c : BusState ν) :
    Prop :=
  sender ≠ c.myself → losesLastSlot (curmaster c) (rebindSlots env sender epoch slots c) →
    TurnOk c c.myself

def HeartbeatOk (cfg : BusConfig) (env : BusEnv ν) (via sender : Option Addr) (type : PingType)
    (epoch : Nat) (hdr : BusMsg ν) (gossip : List (MsgGossip ν)) (c : BusState ν) : Prop :=
  let c := answerPing cfg env via sender type hdr gossip c
  if dropsPacket via sender hdr c then
    ∀ n s, via = some n → sender = some s → c.nodeInHandshake n → FreeOk c n
  else
    let c := heartbeatPong cfg env via type
      (heartbeatAddress env via sender type hdr (heartbeatHandshake via hdr c))
    ∀ s, sender = some s → RoleOk s hdr c ∧
      let c := processRole s hdr c
      c.nodeIsMaster s && dirtySlots s hdr c → ClaimOk env s epoch hdr.myslots c

def UpdateOk (env : BusEnv ν) (nodename : ν) (epoch : Nat) (slots : Finset Nat) (c : BusState ν) :
    Prop :=
  ∀ n, clusterLookupNode c nodename = some n → (c.node n).configEpoch < epoch →
    (c.nodeIsSlave n → TurnOk c n) ∧
      ClaimOk env n epoch slots (clusterDoBeforeSleep (orTodo todoSave todoFsync)
        ((if c.nodeIsSlave n then clusterSetNodeAsMaster n c else c).modNode n
          fun x => { x with configEpoch := epoch }))

def PacketOk (cfg : BusConfig) (env : BusEnv ν) (via : Option Addr) (hdr : BusMsg ν)
    (c : BusState ν) : Prop :=
  let sender := clusterLookupNode c hdr.sender
  let epoch := if knownSender sender c then hdr.configEpoch else 0
  let c := senderHeader env sender hdr c
  match hdr.data with
  | .ping gossip => HeartbeatOk cfg env via sender .ping epoch hdr gossip c
  | .pong gossip => HeartbeatOk cfg env via sender .pong epoch hdr gossip c
  | .meet gossip => HeartbeatOk cfg env via sender .meet epoch hdr gossip c
  | .update nodename epoch slots => sender.isSome → UpdateOk env nodename epoch slots c
  | _ => True

/-- A slave that wins an election can leave its master. -/
def FailoverOk (cfg : BusConfig) (env : BusEnv ν) (c : BusState ν) : Prop :=
  failoverBranch cfg.toClusterConfig (failoverEnv env c) c.toClusterState = .win → TurnOk c c.myself

def CronOk (cfg : BusConfig) (env : BusEnv ν) (c : BusState ν) : Prop :=
  RunMeets (cronConnect cfg env) (fun c n => handshakeExpired cfg env c n → FreeOk c n) c c.nodes ∧
    let r := cronScan cfg env (cronLinks cfg env c)
    let c := clusterHandleManualFailover env (manualFailoverCheckTimeout env r.cluster)
    c.nodeIsSlave c.myself → FailoverOk cfg env c ∧
      let c := clusterHandleSlaveFailover cfg env c
      (migratesTo cfg r.max_slaves c).isSome → TurnOk c c.myself

def CommandOk (cfg : BusConfig) (env : BusEnv ν) (c : BusState ν) : Command ν → Prop
  | .forget name => ∀ n, clusterLookupNode c name = some n → n ≠ c.myself →
      ¬ (c.nodeIsSlave c.myself ∧ (c.node c.myself).slaveof = some n) → FreeOk c n
  | .replicate name => ∀ n, clusterLookupNode c name = some n → n ≠ c.myself →
      (c.node n).slaveof = none → TurnOk c c.myself
  | .reset _ => ¬ (c.nodeIsMaster c.myself ∧ env.dbsize ≠ 0) →
      (c.nodeIsSlave c.myself → TurnOk c c.myself) ∧ ∀ b, b = resetSlots c →
        RunMeets (resetNode cfg env) (fun c n => n ≠ c.myself → FreeOk c n) b b.nodes
  | _ => True

/-- Each time a slave is taken from the list of its master it is the last entry, the list of a node
that becomes a slave is empty, and no other node has a node that is freed for its master. -/
def TopologyKept (cfg : BusConfig) (c : BusState ν) (a : BusAct ν) : Prop :=
  c.crashed = none →
    let c := { c with sent := [], deletedSlots := [] }
    match a.event with
    | .packet via hdr => linkExists via c → PacketOk cfg a.env via hdr c
    | .command cmd => CommandOk cfg a.env c cmd
    | .cron => CronOk cfg a.env c
    | .beforeSleep => c.todo_before_sleep.handleFailover → FailoverOk cfg a.env c
    | _ => True

end Topology

end RedisCluster.Bus
