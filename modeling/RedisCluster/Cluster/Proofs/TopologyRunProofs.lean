import RedisCluster.Cluster.Proofs.TopologyProofs
import RedisCluster.Cluster.Proofs.SlotCommandProofs

/-!
# Proofs: masters and slaves, commands and whole runs

`REPLICATE`, `FORGET` and `RESET` edit the relation; the other commands keep it. A node that follows
a handshake node is left with a dangling `slaveof` when the handshake times out.
-/

namespace RedisCluster.Bus

open RedisCluster.Lib

variable {ν : Type} [LinearOrder ν] {cfg : BusConfig} {env : BusEnv ν}

omit [LinearOrder ν] in
theorem onlySlots_importing (c : BusState ν) (f : Nat → Option Addr) :
    OnlySlots c { c with importing_slots_from := f } :=
  ⟨rfl, rfl, rfl, rfl, rfl, rfl, fun _ => ⟨rfl, rfl, rfl⟩⟩

omit [LinearOrder ν] in
theorem onlySlots_addDelSlot (del : Bool) (slots : List Nat) (c : BusState ν) (j : Nat) :
    OnlySlots c (addDelSlot del slots c j) := by
  unfold addDelSlot
  refine OnlySlots.ite (fun _ => ?_) fun _ => OnlySlots.refl c
  have h1 := onlySlots_importing c (Function.update c.importing_slots_from j none)
  dsimp only
  generalize { c with importing_slots_from := Function.update c.importing_slots_from j none } = d
    at h1 ⊢
  have h2 := h1.trans (onlySlots_assert (if del then (c.slots j).isSome else (c.slots j).isNone)
    .clusterCommandSlots d)
  generalize redisAssert (if del then (c.slots j).isSome else (c.slots j).isNone)
    .clusterCommandSlots d = e at h2 ⊢
  exact OnlySlots.ite (fun _ => h2.trans (onlySlots_delSlot j e))
    fun _ => h2.trans (onlySlots_addSlot _ j e)

omit [LinearOrder ν] in
theorem onlySlots_addDelSlots (del : Bool) (args : List Int) (c : BusState ν) :
    OnlySlots c (clusterAddDelSlots del args c).1 := by
  unfold clusterAddDelSlots
  split
  · exact OnlySlots.refl c
  · exact (OnlySlots.foldl (onlySlots_addDelSlot del _) _ c).trans (onlySlots_todo _ _)

omit [LinearOrder ν] in
theorem keepsRoles_importEpoch (c : BusState ν) : KeepsRoles c (importEpoch c) := by
  refine KeepsRoles.ite (fun _ => ?_) fun _ => KeepsRoles.refl c
  have h := keepsRoles_lift c (fun s => { s with currentEpoch := (c.currentEpoch + 1) % 2 ^ 64 })
    fun _ => rfl
  exact (h.trans (keepsRoles_modNode _ _ _ (by intro x; rfl))).trans (soft_todo _ _).keepsRoles

omit [LinearOrder ν] in
theorem keepsRoles_setslotNode (slot : Nat) (n : Addr) (c : BusState ν) :
    KeepsRoles c (setslotNode env slot n c) := by
  obtain ⟨d, e, hd, he, heq⟩ := setslotNode_eq env slot n c
  have h : KeepsRoles c e := by
    rcases he with rfl | he
    · exact hd.keepsRoles
    · exact hd.keepsRoles.trans ((keepsRoles_importEpoch d).trans he.keepsRoles)
  rw [heq]
  exact h.trans ((onlySlots_delSlot slot e).trans (onlySlots_addSlot n slot _)).keepsRoles

theorem keepsRoles_setslot (env : BusEnv ν) (arg : Int) (action : SetslotAction ν)
    (c : BusState ν) : KeepsRoles c (clusterSetslot env arg action c).1 := by
  rcases clusterSetslot_cases env arg action c with hsoft | ⟨slot, n, -, -, heq⟩
  · exact hsoft.keepsRoles
  · rw [heq]
    exact (keepsRoles_setslotNode slot n c).trans (soft_todo _ _).keepsRoles

omit [LinearOrder ν] in
theorem keepsRoles_setConfigEpoch (epoch : Int) (c : BusState ν) :
    KeepsRoles c (clusterSetConfigEpoch epoch c).1 := by
  unfold clusterSetConfigEpoch
  repeat' split
  case isFalse.isFalse.isFalse =>
    exact (keepsRoles_modNode c c.myself (fun x => { x with configEpoch := epoch.toNat }) fun _ => rfl).trans
      (soft_todo _ _).keepsRoles
  all_goals exact KeepsRoles.refl c

omit [LinearOrder ν] in
theorem onlySlots_verifyData (env : BusEnv ν) (c : BusState ν) :
    OnlySlots c (verifyClusterConfigWithData env c) := by
  unfold verifyClusterConfigWithData
  refine OnlySlots.ite (fun _ => OnlySlots.refl c) fun _ => OnlySlots.foldl (fun x j => ?_) _ c
  unfold verifySlot
  split
  · exact OnlySlots.refl x
  · split
    · exact onlySlots_addSlot _ j x
    · exact onlySlots_importing x _

theorem topologyOk_forget {name : ν} {c : BusState ν} (h : TopologyOk c)
    (hok : CommandOk cfg env c (.forget name)) : TopologyOk (clusterForget cfg env name c).1 := by
  unfold clusterForget
  cases hlook : clusterLookupNode c name with
  | none => exact h
  | some n =>
    dsimp only
    split
    case isTrue => exact h
    case isFalse hme =>
      split
      case isTrue => exact h
      case isFalse hmaster =>
        have hs : Soft c (clusterBlacklistAddNode env n c) :=
          ⟨⟨rfl, rfl, rfl, id, fun _ hm => Or.inl hm⟩, fun _ => rfl⟩
        have hfree := hs.keepsRoles.freeOk (hok n hlook hme hmaster)
        exact (topologyOk_delNode cfg env (h.soft hs) (lookup_some hlook).1 hme hfree).soft
          (soft_todo _ _)

theorem topologyOk_replicate {name : ν} {c : BusState ν} (h : TopologyOk c)
    (hok : CommandOk cfg env c (.replicate name)) : TopologyOk (clusterReplicate env name c).1 := by
  unfold clusterReplicate
  cases hlook : clusterLookupNode c name with
  | none => exact h
  | some n =>
    dsimp only
    split
    case isTrue => exact h
    case isFalse hme =>
      split
      case isTrue => exact h
      case isFalse hslave =>
        split
        case isTrue => exact h
        case isFalse =>
          have hturn := hok n hlook hme (by simpa using hslave)
          exact (topologyOk_setMaster h (lookup_some hlook).1 hturn).soft (soft_todo _ _)

omit [LinearOrder ν] in
theorem topologyOk_resetSlots {c : BusState ν} (h : TopologyOk c)
    (hok : c.nodeIsSlave c.myself → TurnOk c c.myself) : TopologyOk (resetSlots c) := by
  have h1 : TopologyOk (if c.nodeIsSlave c.myself then clusterSetNodeAsMaster c.myself c else c) := by
    split
    case isTrue hslave => exact topologyOk_setNodeAsMaster h h.me (hok hslave)
    case isFalse => exact h
  have hloop : ∀ d : BusState ν, OnlySlots d
      ((List.range REDIS_CLUSTER_SLOTS).foldl (fun c j => clusterDelSlot j c) d) :=
    OnlySlots.foldl (fun x j => onlySlots_delSlot j x) _
  unfold resetSlots
  exact (hloop _).keepsRoles.topologyOk
    ((h1.soft (soft_closeAllSlots _)).soft (soft_resetManualFailover _))

theorem topologyOk_resetNodes {c : BusState ν} (h : TopologyOk c)
    (hok : RunMeets (resetNode cfg env) (fun c n => n ≠ c.myself → FreeOk c n) c c.nodes) :
    TopologyOk (c.nodes.foldl (resetNode cfg env) c) := by
  refine foldl_nodes (fun x n hx hn hfree => ?_) c.nodes h h.nodup (fun _ hn => hn) hok
  refine ⟨?_, resetNode_nodes cfg env hx.toDictOk hn⟩
  unfold resetNode
  split
  case isTrue => exact hx
  case isFalse hme => exact topologyOk_delNode cfg env hx hn hme (hfree hme)

theorem topologyOk_resetIdentity {P : ν → Prop} (henv : FreshEnv P env) {c : BusState ν}
    (h : TopologyOk c) : TopologyOk (resetIdentity env c) := by
  unfold resetIdentity
  dsimp only
  have h1 := keepsRoles_lift c (fun s => { s with currentEpoch := 0, lastVoteEpoch := 0 }) fun _ => rfl
  generalize c.lift (fun s => { s with currentEpoch := 0, lastVoteEpoch := 0 }) = b at h1 ⊢
  have h2 := h1.trans (keepsRoles_modNode b b.myself (fun x => { x with configEpoch := 0 }) fun _ => rfl)
  generalize b.modNode b.myself (fun x => { x with configEpoch := 0 }) = d at h2 ⊢
  have hd := h2.topologyOk h
  rw [dictDeleteNode_of_mem hd.toDictOk hd.me]
  refine topologyOk_readd hd hd.me fun m hm hne => ?_
  refine lookup_eq_none.mp (henv (d.lift fun s => { s with nodes := s.nodes.erase d.myself })).2.1 m ?_
  exact hd.nodup.mem_erase_iff.mpr ⟨hne, hm⟩

theorem topologyOk_reset {P : ν → Prop} (henv : FreshEnv P env) (hard : Bool)
    {c : BusState ν} (h : TopologyOk c) (hslave : c.nodeIsSlave c.myself → TurnOk c c.myself)
    (hok : ∀ b, b = resetSlots c →
      RunMeets (resetNode cfg env) (fun c n => n ≠ c.myself → FreeOk c n) b b.nodes) :
    TopologyOk (clusterReset cfg env hard c) := by
  have hslots := topologyOk_resetSlots h hslave
  obtain ⟨b, hb⟩ : ∃ b, b = resetSlots c := ⟨_, rfl⟩
  have hnodes := hok b hb
  unfold clusterReset
  rw [← hb] at hslots ⊢
  have h1 := topologyOk_resetNodes hslots hnodes
  dsimp only
  generalize b.nodes.foldl (resetNode cfg env) b = d at h1 ⊢
  refine TopologyOk.soft ?_ (soft_todo _ _)
  split
  · exact topologyOk_resetIdentity henv h1
  · exact h1

theorem topologyOk_command {P : ν → Prop} (henv : FreshEnv P env) (cmd : Command ν) {c : BusState ν}
    (h : TopologyOk c) (hok : CommandOk cfg env c cmd) :
    TopologyOk (clusterCommand cfg env cmd c).1 := by
  cases cmd with
  | meet ip port => exact topologyOk_grows h (grows_startHandshake henv ip port c)
  | flushslots =>
    unfold clusterCommand
    dsimp only
    split
    · exact h
    · exact ((onlySlots_delNodeSlots c.myself c).keepsRoles.topologyOk h).soft (soft_todo _ _)
  | addslots slots => exact (onlySlots_addDelSlots false slots c).keepsRoles.topologyOk h
  | delslots slots => exact (onlySlots_addDelSlots true slots c).keepsRoles.topologyOk h
  | setslotMigrating slot name => exact (keepsRoles_setslot env slot (.migrating name) c).topologyOk h
  | setslotImporting slot name => exact (keepsRoles_setslot env slot (.importing name) c).topologyOk h
  | setslotStable slot => exact (keepsRoles_setslot env slot .stable c).topologyOk h
  | setslotNode slot name => exact (keepsRoles_setslot env slot (.node name) c).topologyOk h
  | forget name => exact topologyOk_forget h hok
  | replicate name => exact topologyOk_replicate h hok
  | failover force => exact h.soft (soft_clusterFailover force c)
  | setConfigEpoch epoch => exact (keepsRoles_setConfigEpoch epoch c).topologyOk h
  | reset hard =>
    unfold clusterCommand
    dsimp only
    split
    case isTrue => exact h
    case isFalse hrun =>
      exact topologyOk_reset henv hard h (hok hrun).1 (hok hrun).2

theorem topologyOk_step {c : BusState ν} {a : BusAct ν} (h : TopologyOk c) (hfresh : FreshNodes a)
    (hok : TopologyKept cfg c a) : TopologyOk (busStep cfg c a) := by
  unfold busStep
  split
  case isTrue => exact h
  case isFalse halive =>
    have hok := hok (by simpa using halive)
    have hs : Soft c { c with sent := [], deletedSlots := [] } :=
      ⟨⟨rfl, rfl, rfl, id, fun _ hm => by cases hm⟩, fun _ => rfl⟩
    have hd := h.soft hs
    generalize { c with sent := [], deletedSlots := [] } = d at hd hok ⊢
    unfold FreshNodes at hfresh
    unfold busEvent
    cases hev : a.event with
    | packet via hdr =>
      rw [hev] at hfresh hok
      dsimp only
      split
      case isTrue hlink =>
        refine topologyOk_processPacket hd hfresh (fun n hn => ?_) (hok hlink)
        rw [hn] at hlink
        simp only [linkExists, Bool.and_eq_true, decide_eq_true_eq] at hlink
        exact hlink.1
      case isFalse => exact hd
    | linkError n =>
      dsimp only
      split
      · exact hd.soft (soft_freeNodeLink n _)
      · exact hd
    | command cmd =>
      rw [hev] at hok
      exact topologyOk_command hfresh cmd hd hok
    | cron =>
      rw [hev] at hok
      exact topologyOk_cron hd hok
    | beforeSleep =>
      rw [hev] at hok
      unfold clusterBeforeSleep
      dsimp only
      have h1 : TopologyOk (if d.todo_before_sleep.handleFailover then
          clusterHandleSlaveFailover cfg a.env d else d) := by
        split
        case isTrue htodo => exact topologyOk_slaveFailover hd (hok htodo)
        case isFalse => exact hd
      generalize (if d.todo_before_sleep.handleFailover then
          clusterHandleSlaveFailover cfg a.env d else d) = e at h1 ⊢
      refine TopologyOk.soft ?_ (soft_lift _ _ (by intro x; rfl))
      split
      · exact h1.soft (soft_updateState cfg a.env e)
      · exact h1
    | verifyData => exact (onlySlots_verifyData a.env d).keepsRoles.topologyOk hd
    | rehash order =>
      dsimp only
      split
      case isTrue hp =>
        exact ⟨⟨hd.toTwoWay.congr (fun _ => hp.mem_iff) (fun _ _ => rfl) fun _ _ => rfl,
          fun m hm => hd.length m (hp.mem_iff.mp hm)⟩, hd.toDictOk.rehash hp,
          hd.mine⟩
      case isFalse => exact hd

omit [LinearOrder ν] in
theorem topologyOk_init (a : Addr) (name : ν) (now : Int) (sent : Bool) :
    TopologyOk (busInit a name now sent) := by
  refine ⟨⟨⟨fun m hm s hs => rfl, fun s hs m hsm => ?_, fun m hm s hs => ?_⟩, fun m hm => rfl⟩,
    dictOk_init a name now sent, fun _ => rfl⟩
  · cases hsm
  · cases hs

/-- Every run keeps the relation between masters and slaves, as long as each event does nothing but
what `TopologyKept` allows. -/
theorem topology_run (cfg : BusConfig) (a : Addr) (name : ν) (now : Int) (sent : Bool)
    (acts : List (BusAct ν))
    (hok : RunMeets (busStep cfg) (fun c act => FreshNodes act ∧ TopologyKept cfg c act)
      (busInit a name now sent) acts) :
    Topology (run (busStep cfg) (busInit a name now sent) acts) := by
  have h : TopologyOk (run (busStep cfg) (busInit a name now sent) acts) :=
    run_inv (fun c act hc hact => topologyOk_step hc hact.1 hact.2) (topologyOk_init a name now sent)
      hok
  exact h.toTopology

/-- A node meets another one and becomes its slave. -/
theorem topology_replicate : Topology (run (busStep busConfig) (busInit 0 0 0 false)
    [⟨idleEnv 20 1000, .command (.meet "10.0.0.2" 7000)⟩,
      ⟨idleEnv 20 1000, .command (.replicate 21)⟩, ⟨idleEnv 20 1000, .cron⟩]) := by
  refine topology_run busConfig 0 0 0 false _
    ⟨⟨freshNodes_idle _ fun _ _ => trivial, fun _ => trivial⟩,
      ⟨freshNodes_idle _ fun _ _ => trivial, fun _ _ _ _ _ hm => ?_⟩,
      ⟨freshNodes_idle _ fun _ _ => trivial,
        fun _ => ⟨⟨fun h => ?_, fun h => ?_, trivial⟩, fun _ => ⟨fun h => ?_, fun h => ?_⟩⟩⟩, trivial⟩
  · exact absurd hm (by decide +kernel)
  · exact absurd h (by decide +kernel)
  · exact absurd h (by decide +kernel)
  · exact absurd h (by decide +kernel)
  · exact absurd h (by decide +kernel)

def plainPong (sender : Nat) (slaveof : Option Nat) : BusMsg Nat :=
  { sender := sender, myslots := ∅, slaveof := slaveof, port := 7000
    flags :=
      { node :=
          { master := slaveof.isNone, slave := slaveof.isSome, fail := false, myself := true
            handshake := false }
        pfail := false, noaddr := false, meet := false }
    currentEpoch := 0, configEpoch := 0, offset := 0, paused := false, forceack := false
    data := .pong [] }

def meetNode (ip : String) : BusAct Nat := ⟨idleEnv 20 1000, .command (.meet ip 7000)⟩

def pongFrom (n : Addr) (sender : Nat) (slaveof : Option Nat) : BusAct Nat :=
  ⟨idleEnv 20 1000, .packet (some n) (plainPong sender slaveof)⟩

theorem freshNodes_meet (ip : String) : FreshNodes (meetNode ip) :=
  freshNodes_idle _ fun _ _ => trivial

theorem freshNodes_pong {n : Addr} {sender : Nat} {slaveof : Option Nat} (hle : sender ≤ 20) :
    FreshNodes (pongFrom n sender slaveof) := by
  refine freshNodes_idle _ fun name hlt => ?_
  have hlt' : 20 < name := hlt
  show name ≠ sender
  omega

/-- Three nodes follow this one, and the first of them becomes a master again: one byte for each
slave that comes after it is moved, not one pointer. -/
theorem topology_not_kept : ¬ ∀ acts : List (BusAct Nat),
    RunMeets (busStep busConfig) (fun _ act => FreshNodes act) (busInit 0 0 0 false) acts →
      Topology (run (busStep busConfig) (busInit 0 0 0 false) acts) := by
  intro h
  have hend := h [meetNode "10.0.0.2", meetNode "10.0.0.3", meetNode "10.0.0.4",
      ⟨idleEnv 20 1000, .cron⟩, pongFrom 1 10 (some 0), pongFrom 2 11 (some 0), pongFrom 3 12 (some 0),
      pongFrom 1 10 (some 0), pongFrom 2 11 (some 0), pongFrom 3 12 (some 0), pongFrom 1 10 none]
    ⟨freshNodes_meet _, freshNodes_meet _, freshNodes_meet _, freshNodes_idle _ fun _ _ => trivial,
      freshNodes_pong (by decide), freshNodes_pong (by decide), freshNodes_pong (by decide),
      freshNodes_pong (by decide), freshNodes_pong (by decide), freshNodes_pong (by decide),
      freshNodes_pong (by decide), trivial⟩
  have hcount := hend.count 0 (by decide +kernel) 3 (by decide +kernel)
  revert hcount
  decide +kernel

end RedisCluster.Bus
