import RedisCluster.Cluster.Proofs.RoleProofs
import RedisCluster.Cluster.Proofs.SlotRunProofs

/-!
# Proofs: masters and slaves over runs

New nodes and freed nodes, and then the events one by one. A node that is freed leaves the list of its
master; if it is not the last entry there, or somebody follows it, the event breaks the relation, and
this is what `TopologyKept` excludes.
-/

namespace RedisCluster.Bus

open RedisCluster.Lib

variable {ν : Type}

section Nodes

variable [DecidableEq ν]

theorem topologyOk_free {c g : BusState ν} (h : TopologyOk c) {n : Addr} (hn : n ∈ c.nodes)
    (hme : n ≠ c.myself) (hfree : ∀ s ∈ c.nodes, s ≠ n → (c.node s).slaveof ≠ some n)
    (hdict : KeepsDict c g) (hl : Lists c.nodes g) (hcan : CanLeave c.nodes n g)
    (hup : ∀ s, (g.node s).slaveof = (c.node s).slaveof)
    (hrole : ∀ s, g.nodeIsMaster s = c.nodeIsMaster s)
    (hdown : ∀ k ∈ c.nodes, (g.slavesOf k).erase n = (c.slavesOf k).erase n) :
    TopologyOk (freeClusterNode n g) := by
  have hg := hdict.dictOk h.toDictOk
  have hng : n ∈ g.nodes := hdict.nodes ▸ hn
  have hmeg : n ≠ g.myself := hdict.myself ▸ hme
  unfold freeClusterNode
  rw [dictDelete_of_mem hg hng]
  refine TopologyOk.soft ?_ (soft_freeNodeLink n _)
  set x := g.lift fun s => { s with nodes := s.nodes.erase n } with hx
  obtain ⟨hly, hy⟩ := leaveMaster_spec (c := x) (hl.congr rfl) ⟨hcan.master, hcan.other, hcan.last⟩
  have hkeep := keepsDict_leaveMaster n x
  have hnode := leaveMaster_node n x
  generalize leaveMaster n x = y at hly hy hkeep hnode ⊢
  have hnodes : y.nodes = c.nodes.erase n := by
    rw [hkeep.nodes, ← hdict.nodes]
    rfl
  have hmy : y.myself = c.myself := hkeep.myself.trans hdict.myself
  have hupy : (fun s => (y.node s).slaveof) = fun s => (c.node s).slaveof := by
    funext s
    rw [hnode]
    exact hup s
  have hmem : ∀ m ∈ c.nodes.erase n, m ∈ c.nodes := fun m hm => List.mem_of_mem_erase hm
  refine ⟨⟨?_, fun m hm => ?_⟩, hkeep.dictOk (hg.erase hmeg), fun hm => ?_⟩
  · rw [hnodes, hupy]
    exact h.toTwoWay.remove h.nodup hfree fun m hm _ => (hy m hm).trans (hdown m hm)
  · rw [hnodes] at hm
    exact hly.length m (hmem m hm)
  · rw [hmy] at hm ⊢
    rw [congrFun hupy c.myself]
    refine h.mine ?_
    rw [← hrole]
    unfold ClusterState.nodeIsMaster at hm ⊢
    rw [hnode] at hm
    exact hm

theorem topologyOk_freeNode {c : BusState ν} (h : TopologyOk c) {n : Addr} (hn : n ∈ c.nodes)
    (hme : n ≠ c.myself) (hok : FreeOk c n) : TopologyOk (freeClusterNode n c) :=
  topologyOk_free h hn hme hok.2 (KeepsDict.refl c) h.lists (h.canLeave hn hok.1) (fun _ => rfl)
    (fun _ => rfl) fun _ _ => rfl

theorem topologyOk_delNodeRest (cfg : BusConfig) (env : BusEnv ν) {c : BusState ν}
    (h : TopologyOk c) {n : Addr} (hn : n ∈ c.nodes) (hme : n ≠ c.myself) (hok : FreeOk c n) :
    TopologyOk (delNodeRest cfg env n c) := by
  unfold delNodeRest
  dsimp only
  have h1 := mild_delReports cfg env n c.nodes c
  generalize c.nodes.foldl (fun c m =>
    if m = n then c else clusterNodeDelFailureReport cfg env m n c) c = d at h1 ⊢
  have hd := h1.keepsRoles.topologyOk h
  have hnd : n ∈ d.nodes := h1.nodes ▸ hn
  have hmed : n ≠ d.myself := h1.keepsDict.myself ▸ hme
  have hokd := h1.keepsRoles.freeOk hok
  split
  case isFalse => exact topologyOk_freeNode hd hnd hmed hokd
  case isTrue =>
    obtain ⟨hl, hdown⟩ := leaveMaster_spec hd.lists (hd.canLeave hnd hokd.1)
    have hgone : ∀ k ∈ d.nodes, n ∉ (leaveMaster n d).slavesOf k := by
      intro k hk
      rw [hdown k hk]
      exact (hd.toTwoWay.nodup hk).not_mem_erase
    have hnode := leaveMaster_node n d
    refine topologyOk_free hd hnd hmed hokd.2 (keepsDict_leaveMaster n d) hl ⟨fun m hm => ?_,
      fun k hk _ => hgone k hk, fun m hm hmem => ?_⟩ (fun s => ?_) (fun s => ?_) fun k hk => ?_
    · rw [hnode] at hm
      exact hd.up_mem n hnd m hm
    · rw [hnode] at hm
      exact absurd hmem (hgone m (hd.up_mem n hnd m hm))
    · rw [hnode]
    · simp only [ClusterState.nodeIsMaster, hnode]
    · rw [List.erase_of_not_mem (hgone k hk), hdown k hk]

theorem topologyOk_delNode (cfg : BusConfig) (env : BusEnv ν) {c : BusState ν} (h : TopologyOk c)
    {n : Addr} (hn : n ∈ c.nodes) (hme : n ≠ c.myself) (hok : FreeOk c n) :
    TopologyOk (clusterDelNode cfg env n c) := by
  have h1 := onlySlots_unassignSlots n c
  have hnodes : n ∈ ((List.range REDIS_CLUSTER_SLOTS).foldl (unassignSlot n) c).nodes := by
    rw [h1.nodes]
    exact hn
  have hmy : n ≠ ((List.range REDIS_CLUSTER_SLOTS).foldl (unassignSlot n) c).myself := by
    rw [h1.myself]
    exact hme
  exact topologyOk_delNodeRest cfg env (h1.keepsRoles.topologyOk h) hnodes hmy
    (h1.keepsRoles.freeOk hok)

theorem topologyOk_grows {P : ν → Prop} {c c' : BusState ν} (h : TopologyOk c)
    (hg : Grows P c c') : TopologyOk c' := by
  induction hg with
  | mild hs => exact hs.keepsRoles.topologyOk h
  | @create c a name f env meet ha hlook hname hf =>
    have hdict := h.toDictOk.create env meet ha hlook hname hf
    obtain ⟨-, hmy, -⟩ := (Grows.create env meet ha hlook hname hf).rest
    obtain ⟨hnodes, hself, hother⟩ := addFreshNode_spec env meet hlook ha hf
    generalize addFreshNode env a name meet f c = c' at hdict hmy hnodes hself hother
    have hne : ∀ n ∈ c.nodes, n ≠ a := fun n hn he => ha (he ▸ hn)
    have hup : ∀ n ∈ c.nodes, (c'.node n).slaveof = (c.node n).slaveof :=
      fun n hn => congrArg NodeView.slaveof (hother n (hne n hn))
    have hslaves : ∀ n ∈ c.nodes, (c'.info n).slaves = (c.info n).slaves ∧
        (c'.info n).numslaves = (c.info n).numslaves :=
      fun n hn => ⟨congrArg NodeView.slaves (hother n (hne n hn)),
        congrArg NodeView.numslaves (hother n (hne n hn))⟩
    have hdown : ∀ n ∈ c.nodes, c'.slavesOf n = c.slavesOf n := by
      intro n hn
      unfold BusState.slavesOf
      rw [(hslaves n hn).1, (hslaves n hn).2]
    have hnew : c'.slavesOf a = [] := by
      have hz : (c'.info a).slaves = [] := congrArg NodeView.slaves hself
      unfold BusState.slavesOf
      rw [hz, List.take_nil]
    refine ⟨⟨?_, fun m hm => ?_⟩, hdict, fun hm => ?_⟩
    · rw [hnodes]
      exact h.toTwoWay.insert ha (congrArg NodeView.slaveof hself) hnew hup hdown
    · rw [hnodes] at hm
      rcases List.mem_cons.mp hm with rfl | hm
      · have hz : (c'.info m).numslaves = 0 := congrArg NodeView.numslaves hself
        rw [hnew, hz]
        rfl
      · rw [hdown m hm, (hslaves m hm).2]
        exact h.length m hm
    · rw [hmy] at hm ⊢
      rw [hup _ h.me]
      refine h.mine ?_
      have hrole : c'.nodeIsMaster c.myself = c.nodeIsMaster c.myself :=
        congrArg NodeView.master (hother _ (hne _ h.me))
      rw [← hrole]
      exact hm
  | trans _ _ ih1 ih2 => exact ih2 (ih1 h)

theorem topologyOk_readd {c : BusState ν} (h : TopologyOk c) {n : Addr} (hn : n ∈ c.nodes)
    {newname : ν} (hnew : ∀ m ∈ c.nodes, m ≠ n → (c.info m).name ≠ newname) :
    TopologyOk (clusterAddNode n ((c.lift fun s => { s with nodes := s.nodes.erase n }).modInfo n
      fun x => { x with name := newname })) := by
  rw [readd_spec h.toDictOk hnew]
  have hcons := mem_cons_erase h.toDictOk hn
  have hs : ∀ m, (((c.lift fun s => { s with nodes := n :: s.nodes.erase n }).modInfo n
      fun x => { x with name := newname }).info m).slaves = (c.info m).slaves ∧
      (((c.lift fun s => { s with nodes := n :: s.nodes.erase n }).modInfo n
      fun x => { x with name := newname }).info m).numslaves = (c.info m).numslaves :=
    fun m => ⟨modInfo_proj (fun x => x.slaves) _ n (fun x => { x with name := newname })
        (fun _ => rfl) m,
      modInfo_proj (fun x => x.numslaves) _ n (fun x => { x with name := newname })
        (fun _ => rfl) m⟩
  have hdown : ∀ m, ((c.lift fun s => { s with nodes := n :: s.nodes.erase n }).modInfo n
      fun x => { x with name := newname }).slavesOf m = c.slavesOf m := by
    intro m
    unfold BusState.slavesOf
    rw [(hs m).1, (hs m).2]
  refine ⟨⟨h.toTwoWay.congr hcons (fun _ _ => rfl) fun m _ => hdown m, fun m hm => ?_⟩,
    h.toDictOk.readd hn hnew, h.mine⟩
  rw [hdown, (hs m).2]
  exact h.length m ((hcons m).mp hm)

theorem topologyOk_completeHandshake {c : BusState ν} (h : TopologyOk c) {n : Addr}
    (hn : n ∈ c.nodes) (hhs : c.nodeInHandshake n = true) {hdr : BusMsg ν}
    (hnew : clusterLookupNode c hdr.sender = none) : TopologyOk (completeHandshake n hdr c) := by
  unfold completeHandshake clusterRenameNode
  rw [dictDelete_of_mem h.toDictOk hn]
  have h1 := topologyOk_readd h hn fun m hm _ => lookup_eq_none.mp hnew m hm
  have hmy : (clusterAddNode n ((c.lift fun s => { s with nodes := s.nodes.erase n }).modInfo n
      fun x => { x with name := hdr.sender })).myself = c.myself := by
    rw [readd_spec h.toDictOk fun m hm _ => lookup_eq_none.mp hnew m hm]
    rfl
  dsimp only
  generalize clusterAddNode n ((c.lift fun s => { s with nodes := s.nodes.erase n }).modInfo n
      fun x => { x with name := hdr.sender }) = d at h1 hmy ⊢
  refine TopologyOk.soft ?_ (soft_todo _ _)
  refine topologyOk_flags h1 n _ (fun _ => rfl) (h1.toDictOk.endHandshake n fun _ => rfl)
    fun hme => ?_
  rw [hmy] at hme
  rw [hme, h.handshake] at hhs
  cases hhs

end Nodes

theorem onlySlots_rebindSlot (env : BusEnv ν) (cur : Option Addr) (sender : Addr) (epoch : Nat)
    (slots : Finset Nat) (r : Rebinding ν) (j : Nat) :
    OnlySlots r.cluster (rebindSlot env cur sender epoch slots r j).cluster := by
  unfold rebindSlot
  dsimp only
  split
  · exact OnlySlots.refl _
  · split
    · exact ((onlySlots_delSlot j _).trans (onlySlots_addSlot sender j _)).trans
        (onlySlots_todo _ _)
    · exact OnlySlots.refl _

theorem onlySlots_rebindSlots (env : BusEnv ν) (sender : Addr) (epoch : Nat) (slots : Finset Nat)
    (c : BusState ν) : OnlySlots c (rebindSlots env sender epoch slots c).cluster := by
  suffices hfold : ∀ (js : List Nat) (r : Rebinding ν), OnlySlots r.cluster
      (js.foldl (rebindSlot env (curmaster c) sender epoch slots) r).cluster from
    hfold _ ⟨c, false, []⟩
  intro js
  induction js with
  | nil => exact fun r => OnlySlots.refl _
  | cons j js ih =>
    exact fun r => (onlySlots_rebindSlot env _ sender epoch slots r j).trans (ih _)

theorem topologyOk_updateSlotsConfig {env : BusEnv ν} {sender : Addr} {epoch : Nat}
    {slots : Finset Nat} {c : BusState ν} (h : TopologyOk c) (hs : sender ∈ c.nodes)
    (hok : ClaimOk env sender epoch slots c) :
    TopologyOk (clusterUpdateSlotsConfigWith env sender epoch slots c) := by
  unfold clusterUpdateSlotsConfigWith
  split
  case isTrue => exact h
  case isFalse hne =>
    have h1 := (onlySlots_rebindSlots env sender epoch slots c).keepsRoles
    have hok := hok hne
    dsimp only
    generalize rebindSlots env sender epoch slots c = r at h1 hok ⊢
    have h2 := h1.trans (keepsRoles_assert (!(r.newmaster && (curmaster c).isNone)) .nullPointer _)
    generalize redisAssert (!(r.newmaster && (curmaster c).isNone)) .nullPointer r.cluster = d at h2 ⊢
    have hd := h2.topologyOk h
    split
    case isTrue hloses =>
      refine TopologyOk.soft (topologyOk_setMaster hd (h2.nodes ▸ hs) ?_) (soft_todo _ _)
      rw [h2.myself]
      exact h2.turnOk (hok hloses)
    case isFalse => exact hd.soft (soft_deletedSlots d _)

theorem keepsRoles_collision [LinearOrder ν] (s : Addr) (c : BusState ν) :
    KeepsRoles c (clusterHandleConfigEpochCollision s c) := by
  refine KeepsRoles.ite (fun _ => KeepsRoles.refl c) fun _ =>
    KeepsRoles.ite (fun _ => KeepsRoles.refl c) fun _ => ?_
  have h := keepsRoles_lift c (fun s => { s with currentEpoch := (c.currentEpoch + 1) % 2 ^ 64 })
    fun _ => rfl
  exact (h.trans (keepsRoles_modNode _ _ _ (by intro x; rfl))).trans (soft_saveConfig _).keepsRoles

theorem keepsRoles_updateEpochs (n : Addr) (hdr : ClusterMsg Addr) (c : BusState ν) :
    KeepsRoles c (c.lift (updateEpochs n hdr)) := by
  have h1 : KeepsRoles c (c.lift (raiseEpoch hdr)) := by
    refine keepsRoles_lift c _ fun x => ?_
    unfold raiseEpoch
    split <;> rfl
  rw [lift_updateEpochs]
  refine KeepsRoles.ite (fun _ => ?_) fun _ => h1
  exact (h1.trans (keepsRoles_modNode _ n _ (by intro x; rfl))).trans
    (keepsRoles_lift _ _ (by intro x; rfl))

theorem onlySlots_takeSlots (m : Addr) (c : BusState ν) : OnlySlots c (takeSlots m c) :=
  OnlySlots.foldl (fun x j => OnlySlots.ite
    (fun _ => (onlySlots_delSlot j x).trans (onlySlots_addSlot _ j _)) fun _ => OnlySlots.refl x) _ c

theorem migratesTo_mem [LinearOrder ν] {cfg : BusConfig} {max_slaves : Nat} {c : BusState ν}
    {target : Addr} (h : migratesTo cfg max_slaves c = some target) : target ∈ c.nodes := by
  unfold migratesTo at h
  split at h
  · cases h
  · dsimp only at h
    split at h
    · cases h
    · split at h
      · exact List.mem_of_find?_eq_some h
      · cases h

section Process

variable [LinearOrder ν] {P : ν → Prop} {cfg : BusConfig} {env : BusEnv ν}

omit [LinearOrder ν] in
theorem keepsRoles_processHeader [DecidableEq ν] (s : Addr) (hdr : BusMsg ν) (c : BusState ν) :
    KeepsRoles c (processHeader env s hdr c) := by
  refine KeepsRoles.ite (fun _ => KeepsRoles.refl c) fun _ => ?_
  have h := (keepsRoles_updateEpochs s (hdr.request s) c).trans
    (soft_modInfo _ s (fun x =>
      { x with repl_offset := hdr.offset, repl_offset_time := env.mstime }) fun _ => rfl).keepsRoles
  exact KeepsRoles.ite (fun _ => h.trans ⟨⟨rfl, rfl, fun _ => rfl, fun _ => rfl⟩, rfl⟩) fun _ => h

variable (env) in
omit [LinearOrder ν] in
theorem keepsRoles_senderHeader [DecidableEq ν] (sender : Option Addr) (hdr : BusMsg ν)
    (c : BusState ν) : KeepsRoles c (senderHeader env sender hdr c) := by
  unfold senderHeader
  split
  · exact KeepsRoles.refl c
  · exact keepsRoles_processHeader _ hdr c

theorem topologyOk_processSlots {s : Addr} {epoch : Nat} {hdr : BusMsg ν} {c : BusState ν}
    (h : TopologyOk c) (hs : s ∈ c.nodes)
    (hok : c.nodeIsMaster s && dirtySlots s hdr c → ClaimOk env s epoch hdr.myslots c) :
    TopologyOk (processSlots cfg env s epoch hdr c) := by
  unfold processSlots resolveCollision
  dsimp only
  have h1 : TopologyOk (adoptSlots env s epoch hdr c) := by
    unfold adoptSlots
    split
    case isTrue hdirty => exact topologyOk_updateSlotsConfig h hs (hok hdirty)
    case isFalse => exact h
  generalize adoptSlots env s epoch hdr c = d at h1 ⊢
  have h2 : TopologyOk (if dirtySlots s hdr c then sendStaleUpdate cfg env s epoch hdr d else d) := by
    split
    · exact h1.soft (soft_sendStaleUpdate cfg env s epoch hdr d)
    · exact h1
  generalize (if dirtySlots s hdr c then sendStaleUpdate cfg env s epoch hdr d else d) = e at h2 ⊢
  split
  · exact (keepsRoles_collision s e).topologyOk h2
  · exact h2

theorem topologyOk_heartbeatBody {c : BusState ν} (h : TopologyOk c) {via sender : Option Addr}
    {type : PingType} {epoch : Nat} {hdr : BusMsg ν} (hvia : ∀ n, via = some n → n ∈ c.nodes)
    (hsender : ∀ s, sender = some s → s ∈ c.nodes)
    (hnew : ∀ n, via = some n → c.nodeInHandshake n → sender = none ∧
      clusterLookupNode c hdr.sender = none)
    (hok : ∀ d, d = heartbeatPong cfg env via type
        (heartbeatAddress env via sender type hdr (heartbeatHandshake via hdr c)) →
      ∀ s, sender = some s → RoleOk s hdr d ∧
        (let e := processRole s hdr d
        e.nodeIsMaster s && dirtySlots s hdr e → ClaimOk env s epoch hdr.myslots e)) :
    TopologyOk (heartbeatBody cfg env via sender type epoch hdr c) := by
  unfold heartbeatBody
  have h1 := heartbeatHandshake_keeps h hsender hnew fun n hn hhs hlook =>
    topologyOk_completeHandshake h (hvia n hn) hhs hlook
  generalize heartbeatHandshake via hdr c = d at h1 hok ⊢
  have h2 := (soft_heartbeatAddress env via sender type hdr d).trans
    (soft_heartbeatPong cfg env via type _)
  unfold heartbeatSender
  dsimp only
  generalize heartbeatPong cfg env via type (heartbeatAddress env via sender type hdr d) = e
    at h2 hok ⊢
  cases sender with
  | none => exact h1.1.soft h2
  | some s =>
    obtain ⟨hrole, hclaim⟩ := hok e rfl s rfl
    have hmem : s ∈ e.nodes := by
      rw [h2.nodes]
      exact h1.2 s rfl
    have h3 := topologyOk_processRole (h1.1.soft h2) hmem hrole
    refine topologyOk_processSlots h3 ?_ hclaim
    rw [(slotStep_processRole s hdr e).nodes]
    exact hmem

theorem topologyOk_dropPacket {c : BusState ν} (h : TopologyOk c) {n : Addr} (hn : n ∈ c.nodes)
    {sender : Option Addr} {hdr : BusMsg ν}
    (hok : ∀ s, sender = some s → c.nodeInHandshake n → FreeOk c n) :
    TopologyOk (dropPacket env n sender hdr c) := by
  unfold dropPacket
  split
  case isTrue hhs =>
    cases sender with
    | none => exact h
    | some s =>
      have hs := soft_updateAddress env s (some n) hdr.port c
      have hne : n ≠ c.myself := by
        rintro rfl
        rw [h.handshake] at hhs
        cases hhs
      have hd := h.soft hs
      have hfree := hs.keepsRoles.freeOk (hok s rfl hhs)
      have hmem : n ∈ (nodeUpdateAddressIfNeeded env s (some n) hdr.port c).nodes := by
        rw [hs.nodes]
        exact hn
      refine topologyOk_freeNode hd hmem ?_ hfree
      rw [hs.keepsDict.myself]
      exact hne
  case isFalse =>
    exact ((h.soft (soft_modInfo c n _ (by intro x; rfl))).soft (soft_freeNodeLink n _)).soft (soft_todo _ _)

theorem topologyOk_processPing {c : BusState ν} (h : TopologyOk c) (henv : FreshEnv P env)
    {via : Option Addr} {type : PingType} {epoch : Nat}
    {hdr : BusMsg ν} {gossip : List (MsgGossip ν)} (hP : ¬ P hdr.sender)
    (hvia : ∀ n, via = some n → n ∈ c.nodes)
    (hok : HeartbeatOk cfg env via (clusterLookupNode c hdr.sender) type epoch hdr gossip c) :
    TopologyOk (processPing cfg env via (clusterLookupNode c hdr.sender) type epoch hdr gossip c) := by
  unfold processPing
  unfold HeartbeatOk at hok
  have hg := grows_answerPing henv cfg via (clusterLookupNode c hdr.sender) type hdr gossip c
  generalize answerPing cfg env via (clusterLookupNode c hdr.sender) type hdr gossip c = d
    at hg hok ⊢
  have hd := topologyOk_grows h hg
  dsimp only at hok ⊢
  split
  case isTrue hdrop =>
    rw [if_pos hdrop] at hok
    cases via with
    | none => exact hd
    | some n =>
      exact topologyOk_dropPacket hd (hg.node n (hvia n rfl)).1 fun s hs hhs => hok n s rfl hs hhs
  case isFalse hdrop =>
    rw [if_neg hdrop] at hok
    refine topologyOk_grows ?_ (grows_gossipSection henv cfg via hdr gossip _)
    refine topologyOk_heartbeatBody hd (fun n hn => (hg.node n (hvia n hn)).1)
      (fun s hs => (hg.node s (lookup_some hs).1).1) (fun n hn hhs => ?_)
      fun e he s hs => he ▸ hok s hs
    have hnone := sender_of_not_drops hdrop hn hhs
    exact ⟨hnone, hg.lookup hP hnone⟩

theorem topologyOk_processUpdate {nodename : ν} {epoch : Nat} {slots : Finset Nat} {c : BusState ν}
    (h : TopologyOk c) (hok : UpdateOk env nodename epoch slots c) :
    TopologyOk (processUpdate env nodename epoch slots c) := by
  unfold processUpdate
  cases hlook : clusterLookupNode c nodename with
  | none => exact h
  | some n =>
    dsimp only
    split
    case isTrue => exact h
    case isFalse hold =>
      obtain ⟨hturn, hclaim⟩ := hok n hlook (by omega)
      have hn := (lookup_some hlook).1
      have h1 : TopologyOk (if c.nodeIsSlave n then clusterSetNodeAsMaster n c else c) := by
        split
        case isTrue hslave => exact topologyOk_setNodeAsMaster h hn (hturn hslave)
        case isFalse => exact h
      have hn1 : n ∈ (if c.nodeIsSlave n then clusterSetNodeAsMaster n c else c).nodes := by
        split
        · rw [(keepsSlots_setNodeAsMaster n c).nodes]
          exact hn
        · exact hn
      generalize (if c.nodeIsSlave n then clusterSetNodeAsMaster n c else c) = d at h1 hn1 hclaim ⊢
      have h2 : TopologyOk (d.modNode n fun x => { x with configEpoch := epoch }) :=
        (keepsRoles_modNode d n _ (by intro x; rfl)).topologyOk h1
      exact topologyOk_updateSlotsConfig (h2.soft (soft_todo _ _)) hn1 hclaim

theorem topologyOk_processPacket {c : BusState ν} (h : TopologyOk c) {hdr : BusMsg ν}
    (henv : FreshEnv (fun name => name ≠ hdr.sender) env) {via : Option Addr}
    (hvia : ∀ n, via = some n → n ∈ c.nodes) (hok : PacketOk cfg env via hdr c) :
    TopologyOk (clusterProcessPacket cfg env via hdr c) := by
  unfold clusterProcessPacket
  unfold PacketOk at hok
  dsimp only at hok ⊢
  have hhead := keepsRoles_senderHeader env (clusterLookupNode c hdr.sender) hdr c
  generalize hepoch : (if knownSender (clusterLookupNode c hdr.sender) c then hdr.configEpoch else 0)
    = epoch at hok ⊢
  generalize senderHeader env (clusterLookupNode c hdr.sender) hdr c = d at hhead hok ⊢
  have hd := hhead.topologyOk h
  have hlook := hhead.lookup hdr.sender
  rw [← hlook] at hok ⊢
  have hping : ∀ (type : PingType) (gossip : List (MsgGossip ν)),
      HeartbeatOk cfg env via (clusterLookupNode d hdr.sender) type epoch hdr gossip d → TopologyOk
      (processPing cfg env via (clusterLookupNode d hdr.sender) type epoch hdr gossip d) := by
    intro type gossip hbeat
    exact topologyOk_processPing hd henv (fun hne => hne rfl)
      (fun n hn => hhead.nodes ▸ hvia n hn) hbeat
  unfold processData
  cases hdata : hdr.data with
  | ping gossip =>
    rw [hdata] at hok
    exact hping .ping gossip hok
  | pong gossip =>
    rw [hdata] at hok
    exact hping .pong gossip hok
  | meet gossip =>
    rw [hdata] at hok
    exact hping .meet gossip hok
  | fail nodename =>
    cases clusterLookupNode d hdr.sender with
    | none => exact hd
    | some s => exact hd.soft (soft_processFail env nodename d)
  | publish => exact hd
  | failoverAuthRequest =>
    cases clusterLookupNode d hdr.sender with
    | none => exact hd
    | some s => exact hd.soft (soft_processAuthRequest cfg env s hdr d)
  | failoverAuthAck =>
    cases clusterLookupNode d hdr.sender with
    | none => exact hd
    | some s => exact hd.soft (soft_countVote s _ d)
  | update nodename epoch slots =>
    rw [hdata] at hok
    cases hsender : clusterLookupNode d hdr.sender with
    | none => exact hd
    | some s =>
      rw [hsender] at hok
      exact topologyOk_processUpdate hd (hok rfl)
  | mfstart =>
    cases clusterLookupNode d hdr.sender with
    | none => exact hd
    | some s => exact hd.soft (soft_mfstart env s d)

omit [LinearOrder ν] in
theorem failoverBranch_todo (cfg : ClusterConfig) (env : FailoverEnv) (c : ClusterState Addr)
    (t : TodoFlags) :
    failoverBranch cfg env { c with todo_before_sleep := t } = failoverBranch cfg env c := by
  have htime : (updateFailoverRank env { c with todo_before_sleep := t }).failover_auth_time =
      (updateFailoverRank env c).failover_auth_time := by
    unfold updateFailoverRank
    dsimp only
    split <;> rfl
  unfold failoverBranch
  rw [htime]
  rfl

theorem topologyOk_winFailover (m : Addr) {c : BusState ν} (h : TopologyOk c)
    (hok : TurnOk c c.myself) : TopologyOk (winFailover cfg env m c) := by
  unfold winFailover
  have h1 := topologyOk_setNodeAsMaster h h.me hok
  generalize clusterSetNodeAsMaster c.myself c = d at h1 ⊢
  have h2 := (onlySlots_takeSlots m d).keepsRoles.topologyOk h1
  generalize takeSlots m d = e at h2 ⊢
  have h3 : TopologyOk (e.modNode e.myself fun x => { x with configEpoch := e.failover_auth_epoch }) :=
    (keepsRoles_modNode e e.myself _ (by intro x; rfl)).topologyOk h2
  have h4 := (h3.soft (soft_updateState cfg env _)).soft (soft_saveConfig _)
  exact (h4.soft (soft_broadcastPong cfg env false _)).soft (soft_resetManualFailover _)

theorem topologyOk_slaveFailover {c : BusState ν} (h : TopologyOk c) (hok : FailoverOk cfg env c) :
    TopologyOk (clusterHandleSlaveFailover cfg env c) := by
  unfold clusterHandleSlaveFailover
  dsimp only
  have h1 := soft_lift c (fun s =>
    { s with todo_before_sleep := { s.todo_before_sleep with handleFailover := false } }) fun _ => rfl
  have hbranch : failoverBranch cfg.toClusterConfig (failoverEnv env (c.lift fun s =>
      { s with todo_before_sleep := { s.todo_before_sleep with handleFailover := false } }))
      (c.lift fun s => { s with todo_before_sleep := { s.todo_before_sleep with
        handleFailover := false } }).toClusterState =
      failoverBranch cfg.toClusterConfig (failoverEnv env c) c.toClusterState :=
    failoverBranch_todo cfg.toClusterConfig (failoverEnv env c) c.toClusterState _
  unfold FailoverOk at hok
  rw [← hbranch] at hok
  clear hbranch
  generalize c.lift (fun s =>
    { s with todo_before_sleep := { s.todo_before_sleep with handleFailover := false } }) = d
    at h1 hok ⊢
  have hd := h.soft h1
  have hrank := hd.soft (soft_updateRank (failoverEnv env d) d)
  split
  · exact hd
  · exact hd
  · exact (hd.soft (soft_schedule _ d)).soft (soft_broadcastPong cfg env true _)
  · exact hrank
  · exact hrank
  · have hask := (keepsRoles_lift _ askForVotes fun _ => rfl).topologyOk hrank
    refine TopologyOk.soft hask (soft_broadcast ?_)
    exact ⟨rfl, rfl, ⟨_, rfl⟩, fun _ _ _ h => by cases h⟩
  · rename_i hwin
    have hturn := h1.keepsRoles.turnOk (hok hwin)
    rw [← h1.keepsDict.myself] at hturn
    have hkeep := (soft_updateRank (failoverEnv env d) d).keepsRoles
    have hturn := hkeep.turnOk hturn
    rw [← hkeep.myself] at hturn
    generalize d.lift (updateFailoverRank (failoverEnv env d)) = e at hrank hturn ⊢
    split
    · exact hrank
    · exact topologyOk_winFailover _ hrank hturn
  · exact hrank

theorem topologyOk_cronLinks {c : BusState ν} (h : TopologyOk c)
    (hok : RunMeets (cronConnect cfg env) (fun c n => handshakeExpired cfg env c n → FreeOk c n)
      c c.nodes) : TopologyOk (cronLinks cfg env c) := by
  have hloop : TopologyOk (c.nodes.foldl (cronConnect cfg env) c) := by
    refine foldl_nodes (fun x n hx hn hfree => ?_) c.nodes h h.nodup (fun _ hn => hn) hok
    refine ⟨?_, cronConnect_nodes cfg env hx.toDictOk hn⟩
    unfold cronConnect
    split
    · exact hx
    · split
      case isTrue hexp =>
        exact topologyOk_freeNode hx hn (expired_ne_myself hx.toDictOk hexp) (hfree hexp)
      case isFalse =>
        split
        · exact hx.soft (soft_connectNode cfg env n x)
        · exact hx
  unfold cronLinks
  generalize c.nodes.foldl (cronConnect cfg env) c = d at hloop ⊢
  dsimp only
  split
  · exact hloop
  · exact hloop.soft (soft_sendPing cfg env _ .ping d)

theorem topologyOk_migration {max_slaves : Nat} {c : BusState ν} (h : TopologyOk c)
    (hok : (migratesTo cfg max_slaves c).isSome → TurnOk c c.myself) :
    TopologyOk (clusterHandleSlaveMigration cfg max_slaves c) := by
  unfold clusterHandleSlaveMigration
  cases htarget : migratesTo cfg max_slaves c with
  | none => exact h
  | some target =>
    refine topologyOk_setMaster h (migratesTo_mem htarget) (hok ?_)
    rw [htarget]
    rfl

theorem topologyOk_cron {c : BusState ν} (h : TopologyOk c) (hok : CronOk cfg env c) :
    TopologyOk (clusterCron cfg env c) := by
  unfold clusterCron
  obtain ⟨hloop, hslave⟩ := hok
  dsimp only at hslave ⊢
  have h1 := (topologyOk_cronLinks h hloop).soft (soft_cronScan cfg env _)
  generalize cronScan cfg env (cronLinks cfg env c) = r at h1 hslave ⊢
  have h2 := h1.soft (soft_manualTimeout env r.cluster)
  generalize manualFailoverCheckTimeout env r.cluster = d at h2 hslave ⊢
  have h3 : TopologyOk (cronSlave cfg env r d) := by
    unfold cronSlave
    split
    case isFalse => exact h2
    case isTrue hisslave =>
      have hsoft := soft_manualFailover env d
      have hrole : (clusterHandleManualFailover env d).nodeIsSlave
          (clusterHandleManualFailover env d).myself = true := by
        rw [hsoft.keepsRoles.isSlave, hsoft.keepsDict.myself]
        exact hisslave
      obtain ⟨hfail, hmig⟩ := hslave hrole
      have h4 := topologyOk_slaveFailover (h2.soft hsoft) hfail
      dsimp only
      split
      · exact topologyOk_migration h4 hmig
      · exact h4
  generalize cronSlave cfg env r d = e at h3 ⊢
  split
  · exact h3.soft (soft_updateState cfg env e)
  · exact h3

end Process

end RedisCluster.Bus
