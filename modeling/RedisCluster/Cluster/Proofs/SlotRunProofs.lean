import RedisCluster.Cluster.Proofs.SlotTableProofs

/-!
# Proofs: the slot table over runs

Every event keeps `TableOk`. The one thing that can go wrong is in the event: a node in handshake that
is freed while it owns a slot.
-/

namespace RedisCluster.Bus

open RedisCluster.Lib

variable {ν : Type}

theorem slotStep_delNodeSlots (n : Addr) (c : BusState ν) : SlotStep c (clusterDelNodeSlots n c) :=
  SlotStep.foldl fun x j _ _ => SlotStep.ite (fun _ => slotStep_delSlot j x) fun _ => SlotStep.refl x

theorem slotStep_takeSlots (m : Addr) {c : BusState ν} (hme : c.myself ∈ c.nodes) :
    SlotStep c (takeSlots m c) := by
  refine SlotStep.foldl fun x j hj hx => SlotStep.ite (fun _ => ?_) fun _ => SlotStep.refl x
  have hdel := slotStep_delSlot j x
  refine hdel.trans (slotStep_addSlot ?_ (List.mem_range.mp hj))
  rw [hdel.nodes, hx.nodes, hx.myself]
  exact hme

theorem slotStep_rebindSlot (env : BusEnv ν) (cur : Option Addr) {sender : Addr} (epoch : Nat)
    (slots : Finset Nat) {r : Rebinding ν} {j : Nat} (hs : sender ∈ r.cluster.nodes)
    (hj : j < REDIS_CLUSTER_SLOTS) :
    SlotStep r.cluster (rebindSlot env cur sender epoch slots r j).cluster := by
  unfold rebindSlot
  dsimp only
  split
  · exact SlotStep.refl _
  · split
    · have hdel := slotStep_delSlot j r.cluster
      have hadd := slotStep_addSlot (c := clusterDelSlot j r.cluster) (hdel.nodes ▸ hs) hj
      exact (hdel.trans hadd).trans (soft_todo _ _).slotStep
    · exact SlotStep.refl _

theorem slotStep_rebindSlots (env : BusEnv ν) {sender : Addr} (epoch : Nat) (slots : Finset Nat)
    {c : BusState ν} (hs : sender ∈ c.nodes) :
    SlotStep c (rebindSlots env sender epoch slots c).cluster := by
  suffices hfold : ∀ (js : List Nat) (r : Rebinding ν), (∀ j ∈ js, j < REDIS_CLUSTER_SLOTS) →
      SlotStep c r.cluster →
      SlotStep c (js.foldl (rebindSlot env (curmaster c) sender epoch slots) r).cluster from
    hfold _ ⟨c, false, []⟩ (fun j hj => List.mem_range.mp hj) (SlotStep.refl c)
  intro js
  induction js with
  | nil => exact fun r _ hr => hr
  | cons j js ih =>
    intro r hjs hr
    refine ih _ (fun i hi => hjs i (List.mem_cons_of_mem _ hi)) (hr.trans ?_)
    exact slotStep_rebindSlot env _ epoch slots (hr.nodes ▸ hs) (hjs j List.mem_cons_self)

theorem soft_deletedSlots (c : BusState ν) (js : List Nat) :
    Soft c { c with deletedSlots := js } :=
  ⟨⟨rfl, rfl, rfl, id, fun _ hm => Or.inl hm⟩, fun _ => rfl⟩

theorem slotStep_updateSlotsConfig (env : BusEnv ν) {sender : Addr} (epoch : Nat)
    (slots : Finset Nat) {c : BusState ν} (hs : sender ∈ c.nodes) :
    SlotStep c (clusterUpdateSlotsConfigWith env sender epoch slots c) := by
  unfold clusterUpdateSlotsConfigWith
  split
  · exact SlotStep.refl c
  · have h1 := slotStep_rebindSlots env epoch slots hs
    dsimp only
    generalize rebindSlots env sender epoch slots c = r at h1 ⊢
    have h2 := h1.trans (soft_redisAssert (!(r.newmaster && (curmaster c).isNone))
      .nullPointer r.cluster nofun).slotStep
    generalize redisAssert (!(r.newmaster && (curmaster c).isNone)) .nullPointer r.cluster = d at h2 ⊢
    split
    · exact (h2.trans (keepsSlots_setMaster sender d).step).trans (soft_todo _ _).slotStep
    · exact h2.trans (soft_deletedSlots d _).slotStep

theorem slotStep_demoteSender (s : Addr) (c : BusState ν) : SlotStep c (demoteSender s c) := by
  refine SlotStep.ite (fun _ => ?_) fun _ => SlotStep.refl c
  have h := (slotStep_delNodeSlots s c).trans
    (KeepsSlots.modNode (clusterDelNodeSlots s c) s
      (fun x => { x with flags := { x.flags with master := false, slave := true } })
      fun _ => rfl).step
  refine SlotStep.trans ?_ (soft_todo _ _).slotStep
  exact SlotStep.ite (fun _ => h.trans (KeepsSlots.modInfo _ s _ (by intro x; rfl)).step) fun _ => h

section Packets

variable [DecidableEq ν]

theorem slotStep_processRole (s : Addr) (hdr : BusMsg ν) (c : BusState ν) :
    SlotStep c (processRole s hdr c) := by
  unfold processRole
  split
  · exact (keepsSlots_setNodeAsMaster s c).step
  · split
    · exact slotStep_demoteSender s c
    · exact (slotStep_demoteSender s c).trans (keepsSlots_changeMaster s _ _).step

omit [DecidableEq ν] in
theorem tableOk_erase {c : BusState ν} (h : TableOk c) {n : Addr} (hme : n ≠ c.myself)
    (hslots : (c.node n).slots = ∅) :
    TableOk (c.lift fun s => { s with nodes := s.nodes.erase n }) := by
  have hmem : ∀ m, m ∈ c.nodes.erase n ↔ m ≠ n ∧ m ∈ c.nodes := fun m => h.nodup.mem_erase_iff
  refine ⟨⟨fun j m => ?_, h.range, fun m hm => h.count m (List.mem_of_mem_erase hm)⟩,
    h.toDictOk.erase hme, h.alive⟩
  show c.slots j = some m ↔ m ∈ c.nodes.erase n ∧ j ∈ (c.node m).slots
  rw [h.owner, hmem]
  constructor
  · rintro ⟨hm, hj⟩
    refine ⟨⟨?_, hm⟩, hj⟩
    rintro rfl
    rw [hslots] at hj
    exact absurd hj (Finset.notMem_empty j)
  · rintro ⟨⟨_, hm⟩, hj⟩
    exact ⟨hm, hj⟩

theorem tableOk_freeNode {c : BusState ν} (h : TableOk c) {n : Addr} (hn : n ∈ c.nodes)
    (hme : n ≠ c.myself) (hslots : (c.node n).slots = ∅) : TableOk (freeClusterNode n c) := by
  unfold freeClusterNode
  rw [dictDelete_of_mem h.toDictOk hn]
  have herase := tableOk_erase h hme hslots
  exact (soft_freeNodeLink n _).keepsSlots.tableOk
    ((keepsSlots_leaveMaster n _).tableOk herase)

theorem tableOk_readd {c : BusState ν} (h : TableOk c) {n : Addr} (hn : n ∈ c.nodes)
    {newname : ν} (hnew : ∀ m ∈ c.nodes, m ≠ n → (c.info m).name ≠ newname) :
    TableOk (clusterAddNode n ((c.lift fun s => { s with nodes := s.nodes.erase n }).modInfo n
      fun x => { x with name := newname })) := by
  rw [readd_spec h.toDictOk hnew]
  have hcons := mem_cons_erase h.toDictOk hn
  refine ⟨⟨fun j m => ?_, h.range, fun m hm => h.count m ((hcons m).mp hm)⟩,
    h.toDictOk.readd hn hnew, h.alive⟩
  exact (h.owner j m).trans (and_congr_left fun _ => (hcons m).symm)

theorem tableOk_rename {c : BusState ν} (h : TableOk c) {n : Addr} (hn : n ∈ c.nodes)
    {newname : ν} (hnew : clusterLookupNode c newname = none) :
    TableOk (clusterRenameNode n newname c) := by
  unfold clusterRenameNode
  rw [dictDelete_of_mem h.toDictOk hn]
  exact tableOk_readd h hn fun m hm _ => lookup_eq_none.mp hnew m hm

theorem tableOk_completeHandshake {c : BusState ν} (h : TableOk c) {n : Addr} (hn : n ∈ c.nodes)
    {hdr : BusMsg ν} (hnew : clusterLookupNode c hdr.sender = none) :
    TableOk (completeHandshake n hdr c) := by
  unfold completeHandshake
  have h1 := tableOk_rename h hn hnew
  generalize clusterRenameNode n hdr.sender c = d at h1
  refine (soft_todo _ _).keepsSlots.tableOk ?_
  have hbits := comp_update_eq (fun x : ClusterNode Addr => (x.slots, x.numslots)) d.node n
    { d.node n with flags := { (d.node n).flags with
        handshake := false
        master := (d.node n).flags.master || hdr.flags.node.master
        slave := (d.node n).flags.slave || hdr.flags.node.slave } } rfl
  have hb := fun m => Prod.mk.inj (congrFun hbits m)
  refine ⟨⟨fun j m => ?_, h1.range, fun m hm => ?_⟩, h1.toDictOk.endHandshake n fun _ => rfl, h1.alive⟩
  · exact (h1.owner j m).trans (and_congr_right fun _ => by rw [← (hb m).1]; rfl)
  · exact ((hb m).2.trans (h1.count m hm)).trans (congrArg Finset.card (hb m).1.symm)

end Packets

section Process

variable [LinearOrder ν] {P : ν → Prop} {cfg : BusConfig} {env : BusEnv ν}

theorem slotStep_processSlots {s : Addr} (epoch : Nat) (hdr : BusMsg ν) {c : BusState ν}
    (hs : s ∈ c.nodes) : SlotStep c (processSlots cfg env s epoch hdr c) := by
  unfold processSlots resolveCollision
  dsimp only
  have h1 : SlotStep c (adoptSlots env s epoch hdr c) :=
    SlotStep.ite (fun _ => slotStep_updateSlotsConfig env epoch _ hs) fun _ => SlotStep.refl c
  generalize adoptSlots env s epoch hdr c = d at h1 ⊢
  have hstale := soft_sendStaleUpdate cfg env s epoch hdr d
  have h2 : SlotStep c (if dirtySlots s hdr c then sendStaleUpdate cfg env s epoch hdr d else d) :=
    SlotStep.ite (fun _ => h1.trans hstale.slotStep) fun _ => h1
  generalize (if dirtySlots s hdr c then sendStaleUpdate cfg env s epoch hdr d else d) = e at h2 ⊢
  exact SlotStep.ite (fun _ => h2.trans (keepsSlots_collision s e).step) fun _ => h2

theorem tableOk_dropPacket {c : BusState ν} (h : TableOk c) {n : Addr} (hn : n ∈ c.nodes)
    (sender : Option Addr) (hdr : BusMsg ν)
    (hslots : c.nodeInHandshake n → sender ≠ none → (c.node n).slots = ∅) :
    TableOk (dropPacket env n sender hdr c) := by
  unfold dropPacket
  split
  case isTrue hhs =>
    cases sender with
    | none => exact h
    | some s =>
      have hs := soft_updateAddress env s (some n) hdr.port c
      have hne : n ≠ c.myself := by
        rintro rfl
        rw [h.handshake] at hhs
        cases hhs
      have hbits : ((nodeUpdateAddressIfNeeded env s (some n) hdr.port c).node n).slots =
          (c.node n).slots := congrArg NodeView.slots (hs.nodeView n)
      refine tableOk_freeNode (h.soft hs) (hs.nodes ▸ hn) ?_ ?_
      · rw [hs.keepsSlots.myself]
        exact hne
      · rw [hbits]
        exact hslots hhs (by simp)
  case isFalse =>
    exact ((h.soft (soft_modInfo c n _ (by intro x; rfl))).soft (soft_freeNodeLink n _)).soft (soft_todo _ _)

/-- A sender is known only if no handshake is completed. -/
theorem heartbeatHandshake_keeps {T : BusState ν → Prop} {c : BusState ν} (h : T c)
    {via sender : Option Addr} {hdr : BusMsg ν} (hsender : ∀ s, sender = some s → s ∈ c.nodes)
    (hnew : ∀ n, via = some n → c.nodeInHandshake n → sender = none ∧
      clusterLookupNode c hdr.sender = none)
    (hcomplete : ∀ n, via = some n → c.nodeInHandshake n = true →
      clusterLookupNode c hdr.sender = none → T (completeHandshake n hdr c)) :
    T (heartbeatHandshake via hdr c) ∧
      ∀ s, sender = some s → s ∈ (heartbeatHandshake via hdr c).nodes := by
  cases via with
  | none => exact ⟨h, hsender⟩
  | some n =>
    unfold heartbeatHandshake
    by_cases hhs : c.nodeInHandshake n = true
    · obtain ⟨hs, hlook⟩ := hnew n rfl hhs
      simp only [hhs, if_true]
      refine ⟨hcomplete n rfl hhs hlook, fun s he => ?_⟩
      rw [hs] at he
      cases he
    · simp only [hhs]
      exact ⟨h, hsender⟩

theorem tableOk_heartbeatBody {c : BusState ν} (h : TableOk c) {via sender : Option Addr}
    (type : PingType) (epoch : Nat) {hdr : BusMsg ν} (hvia : ∀ n, via = some n → n ∈ c.nodes)
    (hsender : ∀ s, sender = some s → s ∈ c.nodes)
    (hnew : ∀ n, via = some n → c.nodeInHandshake n → sender = none ∧
      clusterLookupNode c hdr.sender = none) :
    TableOk (heartbeatBody cfg env via sender type epoch hdr c) := by
  unfold heartbeatBody
  have h1 := heartbeatHandshake_keeps h hsender hnew fun n hn _ hlook =>
    tableOk_completeHandshake h (hvia n hn) hlook
  generalize heartbeatHandshake via hdr c = d at h1 ⊢
  have h2 := (soft_heartbeatAddress env via sender type hdr d).trans
    (soft_heartbeatPong cfg env via type _)
  unfold heartbeatSender
  dsimp only
  generalize heartbeatPong cfg env via type (heartbeatAddress env via sender type hdr d) = e at h2 ⊢
  cases sender with
  | none => exact h1.1.soft h2
  | some s =>
    have hrole := slotStep_processRole s hdr e
    have hmem : s ∈ (processRole s hdr e).nodes := by
      rw [hrole.nodes, h2.nodes]
      exact h1.2 s rfl
    exact (slotStep_processSlots epoch hdr hmem).table (hrole.table (h1.1.soft h2))

theorem tableOk_processPing {c : BusState ν} (h : TableOk c) (henv : FreshEnv P env)
    {via : Option Addr} (type : PingType) (epoch : Nat) {hdr : BusMsg ν}
    (gossip : List (MsgGossip ν)) (hP : ¬ P hdr.sender) (hvia : ∀ n, via = some n → n ∈ c.nodes)
    (hslots : ∀ n, via = some n → c.nodeInHandshake n →
      clusterLookupNode c hdr.sender ≠ none → (c.node n).slots = ∅) :
    TableOk (processPing cfg env via (clusterLookupNode c hdr.sender) type epoch hdr gossip c) := by
  unfold processPing
  have hg := grows_answerPing henv cfg via (clusterLookupNode c hdr.sender) type hdr gossip c
  generalize answerPing cfg env via (clusterLookupNode c hdr.sender) type hdr gossip c = d at hg ⊢
  have hd := h.grows hg
  dsimp only
  split
  case isTrue hdrop =>
    cases via with
    | none => exact hd
    | some n =>
      obtain ⟨hmem, hview⟩ := hg.node n (hvia n rfl)
      have hb : (d.node n).slots = (c.node n).slots := congrArg NodeView.slots hview
      have hh : d.nodeInHandshake n = c.nodeInHandshake n := congrArg NodeView.handshake hview
      refine tableOk_dropPacket hd hmem _ hdr fun hhs hs => ?_
      rw [hb]
      exact hslots n rfl (hh ▸ hhs) hs
  case isFalse hdrop =>
    refine TableOk.grows ?_ (grows_gossipSection henv cfg via hdr gossip _)
    refine tableOk_heartbeatBody hd type epoch (fun n hn => (hg.node n (hvia n hn)).1)
      (fun s hs => (hg.node s (lookup_some hs).1).1) fun n hn hhs => ?_
    have hnone := sender_of_not_drops hdrop hn hhs
    exact ⟨hnone, hg.lookup hP hnone⟩

theorem slotStep_processUpdate (nodename : ν) (epoch : Nat) (slots : Finset Nat) (c : BusState ν) :
    SlotStep c (processUpdate env nodename epoch slots c) := by
  unfold processUpdate
  split
  · exact SlotStep.refl c
  · rename_i n hlook
    refine SlotStep.ite (fun _ => SlotStep.refl c) fun _ => ?_
    have h1 : KeepsSlots c (if c.nodeIsSlave n then clusterSetNodeAsMaster n c else c) :=
      KeepsSlots.ite (fun _ => keepsSlots_setNodeAsMaster n c) fun _ => KeepsSlots.refl c
    have h2 := (h1.trans (KeepsSlots.modNode _ n (fun x => { x with configEpoch := epoch }) fun _ => rfl)).trans
      (soft_todo (orTodo todoSave todoFsync) _).keepsSlots
    exact h2.step.trans (slotStep_updateSlotsConfig env epoch slots
      (h2.nodes ▸ (lookup_some hlook).1))

theorem tableOk_processPacket {c : BusState ν} (h : TableOk c) {hdr : BusMsg ν}
    (henv : FreshEnv (fun name => name ≠ hdr.sender) env) {via : Option Addr}
    (hvia : ∀ n, via = some n → n ∈ c.nodes)
    (hslots : ∀ n, via = some n → c.nodeInHandshake n →
      clusterLookupNode c hdr.sender ≠ none → (c.node n).slots = ∅) :
    TableOk (clusterProcessPacket cfg env via hdr c) := by
  unfold clusterProcessPacket
  dsimp only
  have hhead : KeepsSlots c (senderHeader env (clusterLookupNode c hdr.sender) hdr c) := by
    unfold senderHeader
    split
    · exact KeepsSlots.refl c
    · exact keepsSlots_processHeader env _ hdr c
  generalize senderHeader env (clusterLookupNode c hdr.sender) hdr c = d at hhead ⊢
  have hd := hhead.tableOk h
  have hlook : clusterLookupNode c hdr.sender = clusterLookupNode d hdr.sender := by
    unfold clusterLookupNode
    rw [hhead.nodes]
    simp only [hhead.name]
  have hping : ∀ (type : PingType) (epoch : Nat) (gossip : List (MsgGossip ν)), TableOk
      (processPing cfg env via (clusterLookupNode c hdr.sender) type epoch hdr gossip d) := by
    intro type epoch gossip
    rw [hlook]
    refine tableOk_processPing hd henv type epoch gossip (fun hne => hne rfl)
      (fun n hn => hhead.nodes ▸ hvia n hn) fun n hn hhs hs => ?_
    rw [(hhead.bits n).1]
    exact hslots n hn (hhead.handshake n ▸ hhs) (hlook ▸ hs)
  generalize clusterLookupNode c hdr.sender = sender at hping ⊢
  unfold processData
  split
  · exact hping _ _ _
  · exact hping _ _ _
  · exact hping _ _ _
  · exact hd.soft (soft_processFail env _ d)
  · exact hd.soft (soft_processAuthRequest cfg env _ hdr d)
  · exact hd.soft (soft_countVote _ _ d)
  · exact hd.soft (soft_mfstart env _ d)
  · exact (slotStep_processUpdate _ _ _ d).table hd
  · exact hd

end Process

section Removal

variable [DecidableEq ν] {cfg : BusConfig} {env : BusEnv ν}

omit [DecidableEq ν] in
theorem slotStep_unassignSlot (n : Addr) (c : BusState ν) (j : Nat) :
    SlotStep c (unassignSlot n c j) := by
  obtain ⟨importing, migrating, heq⟩ := unassignSlot_eq n c j
  have hopen : Soft c
      { c with importing_slots_from := importing, migrating_slots_to := migrating } :=
    ⟨⟨rfl, rfl, rfl, id, fun _ hm => Or.inl hm⟩, fun _ => rfl⟩
  rw [heq]
  exact SlotStep.ite (fun _ => hopen.slotStep.trans (slotStep_delSlot j _)) fun _ => hopen.slotStep

omit [DecidableEq ν] in
theorem unassignSlot_value (n : Addr) (c : BusState ν) (j : Nat) :
    (unassignSlot n c j).slots =
      if c.slots j = some n then Function.update c.slots j none else c.slots := by
  obtain ⟨importing, migrating, heq⟩ := unassignSlot_eq n c j
  rw [heq]
  split
  · exact delSlot_slots j _
  · rfl

omit [DecidableEq ν] in
theorem unassignSlot_slots {n : Addr} {c : BusState ν} {j i : Nat}
    (h : (unassignSlot n c j).slots i = some n) : c.slots i = some n ∧ i ≠ j := by
  rw [unassignSlot_value] at h
  split at h
  · by_cases hij : i = j
    · rw [hij, Function.update_self] at h
      cases h
    · rw [Function.update_of_ne hij] at h
      exact ⟨h, hij⟩
  · rename_i hne
    refine ⟨h, ?_⟩
    rintro rfl
    exact hne h

omit [DecidableEq ν] in
theorem unassignSlots_slots {n : Addr} {i : Nat} (js : List Nat) {c : BusState ν}
    (h : (js.foldl (unassignSlot n) c).slots i = some n) : c.slots i = some n ∧ i ∉ js := by
  induction js generalizing c with
  | nil => exact ⟨h, List.not_mem_nil⟩
  | cons j js ih =>
    obtain ⟨h1, h2⟩ := ih h
    obtain ⟨h3, h4⟩ := unassignSlot_slots h1
    exact ⟨h3, fun hmem => (List.mem_cons.mp hmem).elim h4 h2⟩

variable (cfg env) in
theorem tableOk_delNode {c : BusState ν} (h : TableOk c) {n : Addr} (hn : n ∈ c.nodes)
    (hme : n ≠ c.myself) :
    TableOk (clusterDelNode cfg env n c) ∧ (clusterDelNode cfg env n c).nodes = c.nodes.erase n ∧
      (clusterDelNode cfg env n c).myself = c.myself := by
  unfold clusterDelNode
  dsimp only
  have h1 : SlotStep c ((List.range REDIS_CLUSTER_SLOTS).foldl (unassignSlot n) c) :=
    SlotStep.foldl fun x j _ _ => slotStep_unassignSlot n x j
  have hfree : ∀ i, ((List.range REDIS_CLUSTER_SLOTS).foldl (unassignSlot n) c).slots i ≠ some n := by
    intro i hi
    obtain ⟨h2, h3⟩ := unassignSlots_slots _ hi
    exact h3 (List.mem_range.mpr (h.range i n h2))
  generalize (List.range REDIS_CLUSTER_SLOTS).foldl (unassignSlot n) c = d at h1 hfree ⊢
  have hd := h1.table h
  have h2 := mild_delReports cfg env n d.nodes d
  generalize d.nodes.foldl (fun c m =>
      if m = n then c else clusterNodeDelFailureReport cfg env m n c) d = e at h2 ⊢
  have h3 : KeepsSlots d (if e.nodeIsSlave n then leaveMaster n e else e) :=
    KeepsSlots.ite (fun _ => h2.keepsSlots.trans (keepsSlots_leaveMaster n e)) fun _ => h2.keepsSlots
  generalize (if e.nodeIsSlave n then leaveMaster n e else e) = f at h3 ⊢
  have hf := h3.tableOk hd
  have hmem : n ∈ f.nodes := by
    rw [h3.nodes, h1.nodes]
    exact hn
  have hmy : n ≠ f.myself := by
    rw [h3.myself, h1.myself]
    exact hme
  have hslots : (f.node n).slots = ∅ := by
    rw [(h3.bits n).1]
    refine Finset.eq_empty_of_forall_notMem fun j hj => hfree j ?_
    exact (hd.owner j n).mpr ⟨h1.nodes ▸ hn, hj⟩
  obtain ⟨-, hnodes, hmyself⟩ := dictOk_freeNode hf.toDictOk hmem hmy
  refine ⟨tableOk_freeNode hf hmem hmy hslots, ?_, ?_⟩
  · rw [hnodes, h3.nodes, h1.nodes]
  · rw [hmyself, h3.myself, h1.myself]

omit [DecidableEq ν] in
theorem tableOk_foldl_nodes {f : BusState ν → Addr → BusState ν} {Q : BusState ν → Addr → Prop}
    (hf : ∀ x n, TableOk x → n ∈ x.nodes → Q x n → TableOk (f x n) ∧
      (∀ m ∈ x.nodes, m ≠ n → m ∈ (f x n).nodes) ∧ ∀ m, m ≠ n → Q x m → Q (f x n) m)
    (ns : List Addr) {c : BusState ν} (h : TableOk c) (hnd : ns.Nodup) (hmem : ∀ n ∈ ns, n ∈ c.nodes)
    (hQ : ∀ n ∈ ns, Q c n) : TableOk (ns.foldl f c) := by
  induction ns generalizing c with
  | nil => exact h
  | cons n ns ih =>
    obtain ⟨hnot, hnd⟩ := List.nodup_cons.mp hnd
    obtain ⟨h1, h2, h3⟩ := hf c n h (hmem n List.mem_cons_self) (hQ n List.mem_cons_self)
    have hne : ∀ m ∈ ns, m ≠ n := fun m hm he => hnot (he ▸ hm)
    refine ih h1 hnd (fun m hm => h2 m (hmem m (List.mem_cons_of_mem _ hm)) (hne m hm)) fun m hm => ?_
    exact h3 m (hne m hm) (hQ m (List.mem_cons_of_mem _ hm))

end Removal

section Cron

variable [LinearOrder ν] {cfg : BusConfig} {env : BusEnv ν}

theorem slotStep_winFailover (m : Addr) {c : BusState ν} (hme : c.myself ∈ c.nodes) :
    SlotStep c (winFailover cfg env m c) := by
  unfold winFailover
  have h1 := (keepsSlots_setNodeAsMaster c.myself c).step
  generalize clusterSetNodeAsMaster c.myself c = d at h1 ⊢
  have hd : d.myself ∈ d.nodes := by
    rw [h1.myself, h1.nodes]
    exact hme
  have h2 := h1.trans (slotStep_takeSlots m hd)
  generalize takeSlots m d = e at h2 ⊢
  have h3 := h2.trans (KeepsSlots.modNode e e.myself
    (fun x => { x with configEpoch := e.failover_auth_epoch }) fun _ => rfl).step
  have h4 := (h3.trans (soft_updateState cfg env _).slotStep).trans (soft_saveConfig _).slotStep
  exact (h4.trans (soft_broadcastPong cfg env false _).slotStep).trans
    (soft_resetManualFailover _).slotStep

variable (cfg env) in
theorem slotStep_slaveFailover {c : BusState ν} (hme : c.myself ∈ c.nodes) :
    SlotStep c (clusterHandleSlaveFailover cfg env c) := by
  unfold clusterHandleSlaveFailover
  dsimp only
  have h1 := soft_lift c (fun s =>
    { s with todo_before_sleep := { s.todo_before_sleep with handleFailover := false } }) fun _ => rfl
  generalize c.lift (fun s =>
    { s with todo_before_sleep := { s.todo_before_sleep with handleFailover := false } }) = d at h1 ⊢
  have hrank := h1.trans (soft_updateRank (failoverEnv env d) d)
  split
  · exact h1.slotStep
  · exact h1.slotStep
  · exact ((h1.trans (soft_schedule _ d)).trans (soft_broadcastPong cfg env true _)).slotStep
  · exact hrank.slotStep
  · exact hrank.slotStep
  · refine (hrank.keepsSlots.trans (keepsSlots_lift _ askForVotes fun _ => rfl)).step.trans ?_
    refine (soft_broadcast ?_).slotStep
    exact ⟨rfl, rfl, ⟨_, rfl⟩, fun _ _ _ h => by cases h⟩
  · generalize d.lift (updateFailoverRank (failoverEnv env d)) = e at hrank ⊢
    split
    · exact hrank.slotStep
    · refine hrank.slotStep.trans (slotStep_winFailover _ ?_)
      rw [hrank.keepsSlots.myself, hrank.nodes]
      exact hme
  · exact hrank.slotStep

theorem dictDeleteOrDie_same (name : ν) (what : Crash) (c : BusState ν) :
    (dictDeleteOrDie name what c).node = c.node ∧ (dictDeleteOrDie name what c).info = c.info := by
  unfold dictDeleteOrDie dictDeleteNode redisAssert
  split <;> split <;> exact ⟨rfl, rfl⟩

omit [LinearOrder ν] in
theorem leaveMaster_same (n : Addr) (c : BusState ν) :
    (leaveMaster n c).node = c.node ∧
      ∀ m, ((leaveMaster n c).info m).noaddr = (c.info m).noaddr ∧
        ((leaveMaster n c).info m).ctime = (c.info m).ctime := by
  unfold leaveMaster clusterNodeRemoveSlave
  split
  · exact ⟨rfl, fun _ => ⟨rfl, rfl⟩⟩
  · dsimp only
    split
    · refine ⟨rfl, fun m => ⟨?_, ?_⟩⟩
      · refine modInfo_proj (fun x => x.noaddr) c _ _ ?_ m
        exact fun _ => rfl
      · refine modInfo_proj (fun x => x.ctime) c _ _ ?_ m
        exact fun _ => rfl
    · exact ⟨rfl, fun _ => ⟨rfl, rfl⟩⟩

theorem freeNode_same (n : Addr) (c : BusState ν) (m : Addr) :
    ((freeClusterNode n c).node m).slots = (c.node m).slots ∧
      ((freeClusterNode n c).node m).flags = (c.node m).flags ∧
      ((freeClusterNode n c).info m).noaddr = (c.info m).noaddr ∧
      ((freeClusterNode n c).info m).ctime = (c.info m).ctime := by
  unfold freeClusterNode
  obtain ⟨hnode, hinfo⟩ := dictDeleteOrDie_same (c.info n).name .freeClusterNode c
  generalize dictDeleteOrDie (c.info n).name .freeClusterNode c = d at hnode hinfo ⊢
  obtain ⟨hnode', hinfo'⟩ := leaveMaster_same n d
  refine ⟨?_, ?_, ?_, ?_⟩
  · rw [← hnode, ← hnode']
    exact modNode_proj (fun x => x.slots) _ n (fun x => { x with link := false }) (fun _ => rfl) m
  · rw [← hnode, ← hnode']
    exact modNode_proj (fun x => x.flags) _ n (fun x => { x with link := false }) (fun _ => rfl) m
  · rw [← hinfo]
    exact (hinfo' m).1
  · rw [← hinfo]
    exact (hinfo' m).2

variable (cfg env) in
theorem connectNode_other {c : BusState ν} {n m : Addr} (hmn : m ≠ n) :
    (connectNode cfg env n c).node m = c.node m ∧ (connectNode cfg env n c).info m = c.info m := by
  have hping : ∀ (type : PingType) (x : BusState ν),
      (clusterSendPing cfg env (some n) type x).node = x.node ∧
        (clusterSendPing cfg env (some n) type x).info m = x.info m := by
    intro type x
    cases type <;> refine ⟨rfl, ?_⟩ <;>
      simp [clusterSendPing, clusterSendMessage, notePing, BusState.modInfo, BusState.setInfo,
        Function.update_of_ne hmn]
  unfold connectNode
  dsimp only
  generalize hd : (c.modNode n fun x => { x with link := true }).modInfo n
    (fun x => { x with link_ctime := env.mstime }) = d
  have hdm : d.node m = c.node m ∧ d.info m = c.info m := by
    rw [← hd]
    constructor
    · simp [BusState.modInfo, BusState.setInfo, BusState.modNode, BusState.lift,
        ClusterState.setNode, Function.update_of_ne hmn]
    · simp [BusState.modInfo, BusState.setInfo, BusState.modNode, BusState.lift,
        Function.update_of_ne hmn]
  obtain ⟨hpn, hpi⟩ := hping (if (d.info n).meet then .meet else .ping) d
  generalize clusterSendPing cfg env (some n) (if (d.info n).meet then .meet else .ping) d = e
    at hpn hpi ⊢
  constructor
  · rw [← hdm.1, ← hpn]
    rfl
  · rw [← hdm.2, ← hpi]
    exact Function.update_of_ne hmn _ _

variable (cfg env) in
theorem cronConnect_other {c : BusState ν} {n m : Addr} (hmn : m ≠ n) :
    handshakeExpired cfg env (cronConnect cfg env c n) m = handshakeExpired cfg env c m ∧
      ((cronConnect cfg env c n).node m).slots = (c.node m).slots := by
  unfold cronConnect
  split
  · exact ⟨rfl, rfl⟩
  · split
    · obtain ⟨h1, h2, h3, h4⟩ := freeNode_same n c m
      simp only [handshakeExpired, ClusterState.nodeInHandshake, h1, h2, h3, h4, and_self]
    · split
      · obtain ⟨h1, h2⟩ := connectNode_other cfg env (c := c) hmn
        simp only [handshakeExpired, ClusterState.nodeInHandshake, h1, h2, and_self]
      · exact ⟨rfl, rfl⟩

theorem tableOk_cronLinks {c : BusState ν} (h : TableOk c)
    (hslots : ∀ n ∈ c.nodes, handshakeExpired cfg env c n → (c.node n).slots = ∅) :
    TableOk (cronLinks cfg env c) := by
  have hloop : TableOk (c.nodes.foldl (cronConnect cfg env) c) := by
    refine tableOk_foldl_nodes (Q := fun x n => handshakeExpired cfg env x n → (x.node n).slots = ∅)
      (fun x n hx hn hQ => ?_) c.nodes h h.nodup (fun _ hn => hn) hslots
    refine ⟨?_, ?_, fun m hm hQm => ?_⟩
    · unfold cronConnect
      split
      · exact hx
      · split
        case isTrue hexp =>
          exact tableOk_freeNode hx hn (expired_ne_myself hx.toDictOk hexp) (hQ hexp)
        case isFalse =>
          split
          · exact hx.soft (soft_connectNode cfg env n x)
          · exact hx
    · exact cronConnect_nodes cfg env hx.toDictOk hn
    · obtain ⟨h1, h2⟩ := cronConnect_other cfg env (c := x) hm
      rw [h1, h2]
      exact hQm
  unfold cronLinks
  generalize c.nodes.foldl (cronConnect cfg env) c = d at hloop ⊢
  dsimp only
  split
  · exact hloop
  · exact hloop.soft (soft_sendPing cfg env _ .ping d)

end Cron

end RedisCluster.Bus
