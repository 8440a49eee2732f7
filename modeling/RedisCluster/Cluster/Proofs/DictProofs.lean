import RedisCluster.Cluster.Proofs.ViewProofs

/-!
# Proofs: the dict of the nodes

`DictOk` says that the nodes of the table are distinct, that their names are, and that `myself` is one
of them and not in handshake. Nodes come and go with `clusterAddNode` and `dictDelete`; everything
else leaves the dict alone.
-/

namespace RedisCluster.Bus

open RedisCluster.Lib

variable {ν : Type}

structure DictOk (c : BusState ν) : Prop where
  nodup : c.nodes.Nodup
  names : ∀ n ∈ c.nodes, ∀ m ∈ c.nodes, (c.info n).name = (c.info m).name → n = m
  me : c.myself ∈ c.nodes
  handshake : c.nodeInHandshake c.myself = false

/-- The nodes, their names and the handshakes stay. -/
structure KeepsDict (c c' : BusState ν) : Prop where
  nodes : c'.nodes = c.nodes
  myself : c'.myself = c.myself
  name : ∀ n, (c'.info n).name = (c.info n).name
  handshake : ∀ n, c'.nodeInHandshake n = c.nodeInHandshake n

namespace KeepsDict

variable {a b c c' : BusState ν}

theorem refl (c : BusState ν) : KeepsDict c c := ⟨rfl, rfl, fun _ => rfl, fun _ => rfl⟩

theorem trans (h1 : KeepsDict a b) (h2 : KeepsDict b c) : KeepsDict a c :=
  ⟨h2.nodes.trans h1.nodes, h2.myself.trans h1.myself, fun n => (h2.name n).trans (h1.name n),
    fun n => (h2.handshake n).trans (h1.handshake n)⟩

theorem dictOk (h : KeepsDict c c') (hc : DictOk c) : DictOk c' := by
  refine ⟨?_, fun n hn m hm hnm => ?_, ?_, ?_⟩
  · rw [h.nodes]
    exact hc.nodup
  · rw [h.nodes] at hn hm
    rw [h.name, h.name] at hnm
    exact hc.names n hn m hm hnm
  · rw [h.nodes, h.myself]
    exact hc.me
  · rw [h.myself, h.handshake]
    exact hc.handshake

theorem lookup [DecidableEq ν] (h : KeepsDict c c') (name : ν) :
    clusterLookupNode c' name = clusterLookupNode c name := by
  unfold clusterLookupNode
  rw [h.nodes]
  simp only [h.name]

end KeepsDict

theorem Mild.keepsDict {c c' : BusState ν} (h : Mild c c') : KeepsDict c c' :=
  ⟨h.nodes, congrArg EpochView.myself h.epoch,
    fun n => congrFun (congrArg EpochView.name h.epoch) n,
    fun n => congrFun (congrArg EpochView.handshake h.epoch) n⟩

theorem DictOk.rehash {c : BusState ν} (h : DictOk c) {order : List Addr}
    (hp : order.Perm c.nodes) : DictOk (c.lift fun s => { s with nodes := order }) :=
  ⟨hp.nodup_iff.mpr h.nodup,
    fun n hn m hm => h.names n (hp.mem_iff.mp hn) m (hp.mem_iff.mp hm), hp.mem_iff.mpr h.me,
    h.handshake⟩

theorem dictOk_init (a : Addr) (name : ν) (now : Int) (sent : Bool) :
    DictOk (busInit a name now sent) := by
  refine ⟨List.nodup_singleton a, fun n hn m hm _ => ?_, List.mem_singleton_self a, rfl⟩
  rw [List.mem_singleton.mp hn, List.mem_singleton.mp hm]

theorem DictOk.erase {c : BusState ν} (h : DictOk c) {n : Addr} (hme : n ≠ c.myself) :
    DictOk (c.lift fun s => { s with nodes := s.nodes.erase n }) :=
  ⟨h.nodup.erase n,
    fun a ha b hb => h.names a (List.mem_of_mem_erase ha) b (List.mem_of_mem_erase hb),
    h.nodup.mem_erase_iff.mpr ⟨hme.symm, h.me⟩, h.handshake⟩

section Names

variable [DecidableEq ν]

theorem DictOk.create {P : ν → Prop} {c : BusState ν} (h : DictOk c) (env : BusEnv ν) {a : Addr}
    {name : ν} {f : NodeInfo ν → NodeInfo ν} (meet : Bool) (ha : a ∉ c.nodes)
    (hlook : clusterLookupNode c name = none) (hP : P name)
    (hf : ∀ x, (f x).slaves = x.slaves ∧ (f x).numslaves = x.numslaves ∧ (f x).name = x.name) :
    DictOk (addFreshNode env a name meet f c) := by
  obtain ⟨-, hmy, -⟩ := (Grows.create env meet ha hlook hP hf).rest
  obtain ⟨hnodes, hself, hother⟩ := addFreshNode_spec env meet hlook ha hf
  generalize addFreshNode env a name meet f c = c' at hmy hnodes hself hother
  have hne : ∀ n ∈ c.nodes, n ≠ a := fun n hn he => ha (he ▸ hn)
  have hname : (c'.info a).name = name := congrArg NodeView.name hself
  have hold : ∀ k ∈ c.nodes, (c'.info k).name = (c.info k).name :=
    fun k hk => congrArg NodeView.name (hother k (hne k hk))
  refine ⟨?_, fun n hn m hm hnm => ?_, ?_, ?_⟩
  · rw [hnodes]
    exact List.nodup_cons.mpr ⟨ha, h.nodup⟩
  · rw [hnodes] at hn hm
    rcases List.mem_cons.mp hn with hn | hn <;> rcases List.mem_cons.mp hm with hm | hm
    · rw [hn, hm]
    · rw [hn, hname, hold m hm] at hnm
      exact absurd hnm.symm (lookup_eq_none.mp hlook m hm)
    · rw [hm, hname, hold n hn] at hnm
      exact absurd hnm (lookup_eq_none.mp hlook n hn)
    · rw [hold n hn, hold m hm] at hnm
      exact h.names n hn m hm hnm
  · rw [hnodes, hmy]
    exact List.mem_cons_of_mem _ h.me
  · rw [hmy]
    have hh : c'.nodeInHandshake c.myself = c.nodeInHandshake c.myself :=
      congrArg NodeView.handshake (hother _ (hne _ h.me))
    rw [hh]
    exact h.handshake

theorem sender_of_not_drops {c : BusState ν} {via sender : Option Addr} {hdr : BusMsg ν} {n : Addr}
    (hdrop : ¬ dropsPacket via sender hdr c = true) (hvia : via = some n) (hhs : c.nodeInHandshake n = true) :
    sender = none := by
  unfold dropsPacket at hdrop
  rw [hvia] at hdrop
  simp only [hhs, if_true, Bool.not_eq_true, Option.isSome_eq_false_iff] at hdrop
  simpa using hdrop

theorem dictDeleteNode_of_mem {c : BusState ν} (h : DictOk c) {n : Addr} (hn : n ∈ c.nodes) :
    dictDeleteNode (c.info n).name c = c.lift fun s => { s with nodes := s.nodes.erase n } := by
  have hlook : clusterLookupNode c (c.info n).name = some n :=
    lookup_of_mem hn fun m hm heq => h.names m hm n hn heq
  unfold dictDeleteNode
  rw [hlook]

theorem dictDelete_of_mem {c : BusState ν} (h : DictOk c) {n : Addr} (hn : n ∈ c.nodes)
    (what : Crash) : dictDeleteOrDie (c.info n).name what c =
      c.lift fun s => { s with nodes := s.nodes.erase n } := by
  have hlook : clusterLookupNode c (c.info n).name = some n :=
    lookup_of_mem hn fun m hm he => h.names m hm n hn he
  unfold dictDeleteOrDie redisAssert
  rw [hlook]
  simp only [Option.isSome_some, if_true]
  exact dictDeleteNode_of_mem h hn

theorem readd_spec {c : BusState ν} (h : DictOk c) {n : Addr} {newname : ν}
    (hnew : ∀ m ∈ c.nodes, m ≠ n → (c.info m).name ≠ newname) :
    clusterAddNode n ((c.lift fun s => { s with nodes := s.nodes.erase n }).modInfo n
      fun x => { x with name := newname }) =
      (c.lift fun s => { s with nodes := n :: s.nodes.erase n }).modInfo n
        fun x => { x with name := newname } := by
  set d := (c.lift fun s => { s with nodes := s.nodes.erase n }).modInfo n
    fun x => { x with name := newname } with hd
  have hself : (d.info n).name = newname := by simp [hd, BusState.modInfo, BusState.setInfo]
  have hnone : clusterLookupNode d (d.info n).name = none := by
    refine lookup_eq_none.mpr fun m hm => ?_
    obtain ⟨hmn, hmem⟩ := h.nodup.mem_erase_iff.mp hm
    have hother : (d.info m).name = (c.info m).name := by
      simp [hd, BusState.modInfo, BusState.setInfo, BusState.lift, Function.update_of_ne hmn]
    rw [hself, hother]
    exact hnew m hmem hmn
  unfold clusterAddNode
  rw [hnone]
  rfl

omit [DecidableEq ν] in
theorem mem_cons_erase {c : BusState ν} (h : DictOk c) {n : Addr} (hn : n ∈ c.nodes) (m : Addr) :
    m ∈ n :: c.nodes.erase n ↔ m ∈ c.nodes := by
  rw [List.mem_cons, h.nodup.mem_erase_iff]
  by_cases hm : m = n
  · simp [hm, hn]
  · simp [hm]

omit [DecidableEq ν] in
theorem DictOk.readd {c : BusState ν} (h : DictOk c) {n : Addr} (hn : n ∈ c.nodes) {newname : ν}
    (hnew : ∀ m ∈ c.nodes, m ≠ n → (c.info m).name ≠ newname) :
    DictOk ((c.lift fun s => { s with nodes := n :: s.nodes.erase n }).modInfo n
      fun x => { x with name := newname }) := by
  set d := (c.lift fun s => { s with nodes := n :: s.nodes.erase n }).modInfo n
    fun x => { x with name := newname } with hd
  have hself : (d.info n).name = newname := by simp [hd, BusState.modInfo, BusState.setInfo]
  have hother : ∀ m, m ≠ n → (d.info m).name = (c.info m).name := by
    intro m hm
    simp [hd, BusState.modInfo, BusState.setInfo, BusState.lift, Function.update_of_ne hm]
  have hcons := mem_cons_erase h hn
  refine ⟨?_, fun a ha b hb hab => ?_, (hcons _).mpr h.me, h.handshake⟩
  · exact List.nodup_cons.mpr ⟨fun hmn => (h.nodup.mem_erase_iff.mp hmn).1 rfl, h.nodup.erase n⟩
  · have ha := (hcons a).mp ha
    have hb := (hcons b).mp hb
    by_cases han : a = n <;> by_cases hbn : b = n
    · rw [han, hbn]
    · rw [han, hself, hother b hbn] at hab
      exact absurd hab.symm (hnew b hb hbn)
    · rw [hbn, hself, hother a han] at hab
      exact absurd hab (hnew a ha han)
    · rw [hother a han, hother b hbn] at hab
      exact h.names a ha b hb hab

end Names

theorem keepsDict_modInfo (c : BusState ν) (n : Addr) (f : NodeInfo ν → NodeInfo ν)
    (h : ∀ x, (f x).name = x.name) : KeepsDict c (c.modInfo n f) :=
  ⟨rfl, rfl, congrFun (comp_update_eq (fun x : NodeInfo ν => x.name) c.info n _ (h _)), fun _ => rfl⟩

theorem keepsDict_modNode (c : BusState ν) (n : Addr) (f : ClusterNode Addr → ClusterNode Addr)
    (h : ∀ x, (f x).flags.handshake = x.flags.handshake) : KeepsDict c (c.modNode n f) :=
  ⟨rfl, rfl, fun _ => rfl,
    congrFun (comp_update_eq (fun x : ClusterNode Addr => x.flags.handshake) c.node n _ (h _))⟩

theorem DictOk.endHandshake {c : BusState ν} (h : DictOk c) (n : Addr)
    {f : ClusterNode Addr → ClusterNode Addr} (hf : ∀ x, (f x).flags.handshake = false) :
    DictOk (c.modNode n f) := by
  refine ⟨h.nodup, h.names, h.me, ?_⟩
  show ((c.modNode n f).node c.myself).flags.handshake = false
  by_cases hme : c.myself = n
  · simp [BusState.modNode, BusState.lift, ClusterState.setNode, hme, hf]
  · simp only [BusState.modNode, BusState.lift, ClusterState.setNode, Function.update_of_ne hme]
    exact h.handshake

theorem keepsDict_leaveMaster (n : Addr) (c : BusState ν) : KeepsDict c (leaveMaster n c) := by
  unfold leaveMaster clusterNodeRemoveSlave
  split
  · exact KeepsDict.refl c
  · dsimp only
    split
    · exact keepsDict_modInfo c _ _ (by intro x; rfl)
    · exact KeepsDict.refl c

theorem dictOk_freeNode [DecidableEq ν] {c : BusState ν} (h : DictOk c) {n : Addr}
    (hn : n ∈ c.nodes) (hme : n ≠ c.myself) :
    DictOk (freeClusterNode n c) ∧ (freeClusterNode n c).nodes = c.nodes.erase n ∧
      (freeClusterNode n c).myself = c.myself := by
  unfold freeClusterNode
  rw [dictDelete_of_mem h hn]
  have hk := (keepsDict_leaveMaster n (c.lift fun s => { s with nodes := s.nodes.erase n })).trans
    (soft_freeNodeLink n _).keepsDict
  exact ⟨hk.dictOk (h.erase hme), hk.nodes, hk.myself⟩

theorem expired_ne_myself {cfg : BusConfig} {env : BusEnv ν} {c : BusState ν} (h : DictOk c)
    {n : Addr} (hexp : handshakeExpired cfg env c n = true) : n ≠ c.myself := by
  rintro rfl
  have hhs := h.handshake
  simp [handshakeExpired, hhs] at hexp

/-- Nothing but slots, bitmaps and what goes with them is changed. -/
structure OnlySlots (c c' : BusState ν) : Prop where
  info : c'.info = c.info
  sent : c'.sent = c.sent
  nodes : c'.nodes = c.nodes
  myself : c'.myself = c.myself
  currentEpoch : c'.currentEpoch = c.currentEpoch
  failover_auth_epoch : c'.failover_auth_epoch = c.failover_auth_epoch
  node : ∀ n, (c'.node n).flags = (c.node n).flags ∧ (c'.node n).slaveof = (c.node n).slaveof ∧
    (c'.node n).configEpoch = (c.node n).configEpoch

namespace OnlySlots

variable {a b c c' : BusState ν}

theorem refl (c : BusState ν) : OnlySlots c c :=
  ⟨rfl, rfl, rfl, rfl, rfl, rfl, fun _ => ⟨rfl, rfl, rfl⟩⟩

theorem trans (h1 : OnlySlots a b) (h2 : OnlySlots b c) : OnlySlots a c := by
  refine ⟨h2.info.trans h1.info, h2.sent.trans h1.sent, h2.nodes.trans h1.nodes,
    h2.myself.trans h1.myself, h2.currentEpoch.trans h1.currentEpoch,
    h2.failover_auth_epoch.trans h1.failover_auth_epoch, fun n => ?_⟩
  obtain ⟨h3, h4, h5⟩ := h1.node n
  obtain ⟨h6, h7, h8⟩ := h2.node n
  exact ⟨h6.trans h3, h7.trans h4, h8.trans h5⟩

theorem ite {p : Prop} [Decidable p] {x y : BusState ν} (hx : p → OnlySlots c x)
    (hy : ¬ p → OnlySlots c y) : OnlySlots c (if p then x else y) := by
  split
  · exact hx ‹_›
  · exact hy ‹_›

theorem foldl {α : Type} {f : BusState ν → α → BusState ν} (h : ∀ c a, OnlySlots c (f c a))
    (as : List α) (c : BusState ν) : OnlySlots c (as.foldl f c) := by
  induction as generalizing c with
  | nil => exact refl c
  | cons a as ih => exact (h c a).trans (ih _)

theorem keepsDict (h : OnlySlots c c') : KeepsDict c c' := by
  refine ⟨h.nodes, h.myself, fun n => by rw [h.info], fun n => ?_⟩
  simp only [ClusterState.nodeInHandshake, (h.node n).1]

end OnlySlots

theorem onlySlots_setNode (c : BusState ν) (n : Addr) (x : ClusterNode Addr)
    (slots : Nat → Option Addr) (h : x.flags = (c.node n).flags ∧ x.slaveof = (c.node n).slaveof ∧
      x.configEpoch = (c.node n).configEpoch) :
    OnlySlots c (c.lift fun s => { s.setNode n x with slots := slots }) := by
  refine ⟨rfl, rfl, rfl, rfl, rfl, rfl, fun m => ?_⟩
  have hm := comp_update_eq (fun x : ClusterNode Addr => (x.flags, x.slaveof, x.configEpoch))
    c.node n x (by rw [h.1, h.2.1, h.2.2])
  have hm := congrFun hm m
  simp only [Prod.mk.injEq] at hm
  exact hm

theorem onlySlots_addSlot (n : Addr) (j : Nat) (c : BusState ν) :
    OnlySlots c (clusterAddSlot n j c) := by
  unfold clusterAddSlot BusState.lift RedisCluster.clusterAddSlot
  dsimp only
  split
  · exact OnlySlots.refl c
  · exact onlySlots_setNode c n _ _ ⟨rfl, rfl, rfl⟩

theorem onlySlots_assert (cond : Bool) (what : Crash) (c : BusState ν) :
    OnlySlots c (redisAssert cond what c) := by
  unfold redisAssert
  split
  · exact OnlySlots.refl c
  · exact ⟨rfl, rfl, rfl, rfl, rfl, rfl, fun _ => ⟨rfl, rfl, rfl⟩⟩

theorem onlySlots_delSlot (j : Nat) (c : BusState ν) : OnlySlots c (clusterDelSlot j c) := by
  unfold clusterDelSlot
  have h := onlySlots_assert (slotBitSet c j) .clusterDelSlot c
  generalize redisAssert (slotBitSet c j) .clusterDelSlot c = d at h ⊢
  refine h.trans ?_
  unfold BusState.lift RedisCluster.clusterDelSlot
  split
  · exact OnlySlots.refl d
  · exact onlySlots_setNode d _ _ _ ⟨rfl, rfl, rfl⟩

theorem onlySlots_todo (flags : TodoFlags) (c : BusState ν) :
    OnlySlots c (clusterDoBeforeSleep flags c) :=
  ⟨rfl, rfl, rfl, rfl, rfl, rfl, fun _ => ⟨rfl, rfl, rfl⟩⟩

/-- Apart from the owner of the slot, a round of the loop changes open slots only. -/
theorem unassignSlot_eq (n : Addr) (c : BusState ν) (j : Nat) : ∃ importing migrating,
    unassignSlot n c j = if c.slots j = some n then
      clusterDelSlot j { c with importing_slots_from := importing, migrating_slots_to := migrating }
    else { c with importing_slots_from := importing, migrating_slots_to := migrating } := by
  refine ⟨if c.importing_slots_from j = some n then Function.update c.importing_slots_from j none
    else c.importing_slots_from, if c.migrating_slots_to j = some n then
      Function.update c.migrating_slots_to j none else c.migrating_slots_to, ?_⟩
  unfold unassignSlot
  by_cases himporting : c.importing_slots_from j = some n
  · by_cases hmigrating : c.migrating_slots_to j = some n
    · simp only [if_pos himporting, if_pos hmigrating]
    · simp only [if_pos himporting, if_neg hmigrating]
  · by_cases hmigrating : c.migrating_slots_to j = some n
    · simp only [if_neg himporting, if_pos hmigrating]
    · simp only [if_neg himporting, if_neg hmigrating]

theorem onlySlots_unassignSlot (n : Addr) (c : BusState ν) (j : Nat) :
    OnlySlots c (unassignSlot n c j) := by
  obtain ⟨importing, migrating, heq⟩ := unassignSlot_eq n c j
  have hopen : OnlySlots c
      { c with importing_slots_from := importing, migrating_slots_to := migrating } :=
    ⟨rfl, rfl, rfl, rfl, rfl, rfl, fun _ => ⟨rfl, rfl, rfl⟩⟩
  rw [heq]
  exact OnlySlots.ite (fun _ => hopen.trans (onlySlots_delSlot j _)) fun _ => hopen

theorem onlySlots_unassignSlots (n : Addr) (c : BusState ν) :
    OnlySlots c ((List.range REDIS_CLUSTER_SLOTS).foldl (unassignSlot n) c) :=
  OnlySlots.foldl (onlySlots_unassignSlot n) _ c

def delNodeRest [DecidableEq ν] (cfg : BusConfig) (env : BusEnv ν) (n : Addr) (c : BusState ν) : BusState ν :=
  let c := c.nodes.foldl (fun c m =>
    if m = n then c else clusterNodeDelFailureReport cfg env m n c) c
  let c := if c.nodeIsSlave n then leaveMaster n c else c
  freeClusterNode n c

theorem dictOk_delNode [DecidableEq ν] (cfg : BusConfig) (env : BusEnv ν) {c : BusState ν}
    (h : DictOk c) {n : Addr} (hn : n ∈ c.nodes) (hme : n ≠ c.myself) :
    DictOk (clusterDelNode cfg env n c) ∧ (clusterDelNode cfg env n c).nodes = c.nodes.erase n ∧
      (clusterDelNode cfg env n c).myself = c.myself := by
  have hrest : ∀ d : BusState ν, KeepsDict c d → DictOk (delNodeRest cfg env n d) ∧
      (delNodeRest cfg env n d).nodes = c.nodes.erase n ∧
      (delNodeRest cfg env n d).myself = c.myself := by
    intro d hd
    unfold delNodeRest
    dsimp only
    have h1 := mild_delReports cfg env n d.nodes d
    generalize d.nodes.foldl (fun c m =>
      if m = n then c else clusterNodeDelFailureReport cfg env m n c) d = e at h1 ⊢
    have h2 : KeepsDict c (if e.nodeIsSlave n then leaveMaster n e else e) := by
      split
      · exact (hd.trans h1.keepsDict).trans (keepsDict_leaveMaster n e)
      · exact hd.trans h1.keepsDict
    generalize (if e.nodeIsSlave n then leaveMaster n e else e) = f at h2 ⊢
    obtain ⟨h3, h4, h5⟩ := dictOk_freeNode (h2.dictOk h) (h2.nodes ▸ hn) (h2.myself ▸ hme)
    exact ⟨h3, by rw [h4, h2.nodes], h5.trans h2.myself⟩
  exact hrest _ (onlySlots_unassignSlots n c).keepsDict

theorem foldl_nodes {I : BusState ν → Prop} {f : BusState ν → Addr → BusState ν}
    {ok : BusState ν → Addr → Prop}
    (hf : ∀ x n, I x → n ∈ x.nodes → ok x n → I (f x n) ∧ ∀ m ∈ x.nodes, m ≠ n → m ∈ (f x n).nodes)
    (ns : List Addr) {c : BusState ν} (h : I c) (hnd : ns.Nodup) (hmem : ∀ n ∈ ns, n ∈ c.nodes)
    (hok : RunMeets f ok c ns) : I (ns.foldl f c) := by
  induction ns generalizing c with
  | nil => exact h
  | cons n ns ih =>
    obtain ⟨hnot, hnd⟩ := List.nodup_cons.mp hnd
    obtain ⟨h1, h2⟩ := hf c n h (hmem n List.mem_cons_self) hok.1
    exact ih h1 hnd (fun m hm => h2 m (hmem m (List.mem_cons_of_mem _ hm)) fun he => hnot (he ▸ hm))
      hok.2

theorem cronConnect_nodes [DecidableEq ν] (cfg : BusConfig) (env : BusEnv ν) {c : BusState ν}
    (h : DictOk c) {n : Addr} (hn : n ∈ c.nodes) :
    ∀ m ∈ c.nodes, m ≠ n → m ∈ (cronConnect cfg env c n).nodes := by
  intro m hm hne
  unfold cronConnect
  split
  · exact hm
  · split
    · rename_i hexp
      rw [(dictOk_freeNode h hn (expired_ne_myself h hexp)).2.1]
      exact h.nodup.mem_erase_iff.mpr ⟨hne, hm⟩
    · split
      · rw [(soft_connectNode cfg env n c).nodes]
        exact hm
      · exact hm

theorem resetNode_nodes [LinearOrder ν] (cfg : BusConfig) (env : BusEnv ν) {c : BusState ν}
    (h : DictOk c) {n : Addr} (hn : n ∈ c.nodes) :
    ∀ m ∈ c.nodes, m ≠ n → m ∈ (resetNode cfg env c n).nodes := by
  intro m hm hne
  unfold resetNode
  split
  · exact hm
  · rename_i hme
    rw [(dictOk_delNode cfg env h hn hme).2.1]
    exact h.nodup.mem_erase_iff.mpr ⟨hne, hm⟩

end RedisCluster.Bus
