import RedisCluster.Cluster.Proofs.ChangeProofs

/-!
# Proofs: steps as chains of changes

Each function that is neither soft nor calm, as a chain of changes, and from these the events.
-/

namespace RedisCluster.Bus

open RedisCluster.Lib

variable {ν : Type}

/-! ## Nodes that come and go -/

theorem leaveMaster_sent (n : Addr) (c : BusState ν) : (leaveMaster n c).sent = c.sent := by
  unfold leaveMaster clusterNodeRemoveSlave
  split
  · rfl
  · dsimp only
    split <;> rfl

section Nodes

variable [DecidableEq ν]

theorem creates_addFreshNode {P : ν → Prop} {c : BusState ν} {a : Addr} {name : ν}
    {f : NodeInfo ν → NodeInfo ν} (env : BusEnv ν) (meet : Bool) (ha : a ∉ c.nodes)
    (hlook : clusterLookupNode c name = none) (hP : P name)
    (hf : ∀ x, (f x).name = x.name ∧ (f x).fail_reports = x.fail_reports) :
    Creates P a c (addFreshNode env a name meet f c) := by
  rw [addFreshNode_eq env meet hlook ha fun x => (hf x).1]
  set d := (createClusterNode env a name handshakeFlags meet c).modInfo a f with hd
  have hname : (d.info a).name = name := by
    simp only [hd, BusState.modInfo, BusState.setInfo, Function.update_self, (hf _).1,
      createClusterNode]
  refine ⟨ha, rfl, ?_, fun n hn => ?_, ?_, ?_, ?_, fun n hn => ?_, ⟨rfl, rfl, rfl, rfl⟩⟩
  · exact (show (d.info a).name = name from hname) ▸ hP
  · show (c.info n).name ≠ (d.info a).name
    rw [hname]
    exact lookup_eq_none.mp hlook n hn
  · simp [hd, createClusterNode, BusState.modInfo, BusState.setInfo, BusState.modNode,
      BusState.lift, ClusterState.setNode, ClusterState.nodeInHandshake, handshakeFlags]
  · simp [hd, createClusterNode, BusState.modInfo, BusState.setInfo, BusState.modNode,
      BusState.lift, ClusterState.setNode]
  · show (d.info a).fail_reports = []
    simp only [hd, BusState.modInfo, BusState.setInfo, Function.update_self, (hf _).2,
      createClusterNode]
  · simp [hd, createClusterNode, BusState.modInfo, BusState.setInfo, BusState.modNode,
      BusState.lift, ClusterState.setNode, ClusterState.nodeInHandshake, Function.update_of_ne hn]

theorem removes_freeNode {c : BusState ν} (h : DictOk c) {n : Addr} (hn : n ∈ c.nodes) :
    Removes n c (freeClusterNode n c) := by
  unfold freeClusterNode
  rw [dictDelete_of_mem h hn]
  have hcalm := (calm_leaveMaster n (c.lift fun s => { s with nodes := s.nodes.erase n })).trans
    (soft_freeNodeLink n _).calm
  exact ⟨hcalm.nodes, hcalm.name, hcalm.handshake, hcalm.configEpoch,
    fun k => (hcalm.reports k) ▸ List.Sublist.refl _, hcalm.myself, hcalm.currentEpoch,
    hcalm.failover_auth_epoch, leaveMaster_sent n _⟩

end Nodes

/-! ## Reports of a node that is deleted -/

/-- Nothing but that some reports go away. -/
structure Forgets (c c' : BusState ν) : Prop extends KeepsDict c c' where
  reports : ∀ k, List.Sublist (c'.info k).fail_reports (c.info k).fail_reports
  configEpoch : ∀ k, (c'.node k).configEpoch = (c.node k).configEpoch
  rest : c'.currentEpoch = c.currentEpoch ∧ c'.failover_auth_epoch = c.failover_auth_epoch ∧
    c'.sent = c.sent

theorem Forgets.refl (c : BusState ν) : Forgets c c :=
  ⟨KeepsDict.refl c, fun _ => List.Sublist.refl _, fun _ => rfl, rfl, rfl, rfl⟩

theorem Forgets.trans {a b c : BusState ν} (h1 : Forgets a b) (h2 : Forgets b c) : Forgets a c := by
  obtain ⟨h3, h4, h5⟩ := h1.rest
  obtain ⟨h6, h7, h8⟩ := h2.rest
  exact ⟨h1.toKeepsDict.trans h2.toKeepsDict, fun k => (h2.reports k).trans (h1.reports k),
    fun k => (h2.configEpoch k).trans (h1.configEpoch k), h6.trans h3, h7.trans h4, h8.trans h5⟩

theorem Calm.forgets {c c' : BusState ν} (h : Calm c c') (hsent : c'.sent = c.sent) :
    Forgets c c' :=
  ⟨h.toKeepsDict, fun k => (h.reports k) ▸ List.Sublist.refl _, h.configEpoch, h.currentEpoch,
    h.failover_auth_epoch, hsent⟩

theorem Forgets.removes {n : Addr} {c d e : BusState ν} (h : Forgets c d) (hr : Removes n d e) :
    Removes n c e := by
  obtain ⟨h1, h2, h3⟩ := h.rest
  obtain ⟨h4, h5, h6, h7⟩ := hr.rest
  exact ⟨by rw [hr.nodes, h.nodes], fun k => (hr.name k).trans (h.name k),
    fun k => (hr.handshake k).trans (h.handshake k),
    fun k => (hr.configEpoch k).trans (h.configEpoch k), fun k => (hr.reports k).trans (h.reports k),
    h4.trans h.myself, h5.trans h1, h6.trans h2, h7.trans h3⟩

theorem forgets_modReports (c : BusState ν) (n : Addr) (f : List FailReport → List FailReport)
    (hf : ∀ rs, List.Sublist (f rs) rs) :
    Forgets c (c.modInfo n fun x => { x with fail_reports := f x.fail_reports }) := by
  refine ⟨keepsDict_modInfo c n _ (by intro x; rfl), fun k => ?_, fun _ => rfl, rfl, rfl, rfl⟩
  by_cases hk : k = n
  · simp only [hk, BusState.modInfo, BusState.setInfo, Function.update_self]
    exact hf _
  · simp only [BusState.modInfo, BusState.setInfo, Function.update_of_ne hk]
    exact List.Sublist.refl _

theorem forgets_delReport (cfg : BusConfig) (env : BusEnv ν) (m s : Addr) (c : BusState ν) :
    Forgets c (clusterNodeDelFailureReport cfg env m s c) := by
  unfold clusterNodeDelFailureReport clusterNodeCleanupFailureReports
  split
  · exact (forgets_modReports c m (fun rs => rs.eraseP fun r => r.node = s)
      fun rs => List.eraseP_sublist).trans (forgets_modReports _ m (fun rs => rs.filter _)
      fun rs => List.filter_sublist)
  · exact Forgets.refl c

theorem delReport_gone (cfg : BusConfig) (env : BusEnv ν) {m s : Addr} {c : BusState ν}
    (hnd : ((c.info m).fail_reports.map FailReport.node).Nodup) :
    ∀ r ∈ ((clusterNodeDelFailureReport cfg env m s c).info m).fail_reports, r.node ≠ s := by
  intro r hr
  unfold clusterNodeDelFailureReport at hr
  split at hr
  case isFalse hnone =>
    simp only [List.any_eq_true, not_exists, not_and, decide_eq_true_eq] at hnone
    exact hnone r hr
  case isTrue =>
    simp only [clusterNodeCleanupFailureReports, BusState.modInfo, BusState.setInfo,
      Function.update_self] at hr
    have hr := List.mem_of_mem_filter hr
    rintro rfl
    generalize (c.info m).fail_reports = rs at hnd hr
    induction rs with
    | nil => cases hr
    | cons q rs ih =>
      simp only [List.map_cons, List.nodup_cons, List.mem_map, not_exists, not_and] at hnd
      by_cases hq : q.node = r.node
      · rw [List.eraseP_cons_of_pos (by simpa using hq)] at hr
        exact hnd.1 r hr hq.symm
      · rw [List.eraseP_cons_of_neg (by simpa using hq)] at hr
        rcases List.mem_cons.mp hr with rfl | hr
        · exact hq rfl
        · exact ih hnd.2 hr

theorem delReports_spec (cfg : BusConfig) (env : BusEnv ν) (n : Addr) (ms : List Addr)
    (c : BusState ν) :
    Forgets c (ms.foldl (fun c m => if m = n then c else clusterNodeDelFailureReport cfg env m n c) c) ∧
      ∀ k ∈ ms, k ≠ n → ((c.info k).fail_reports.map FailReport.node).Nodup →
        ∀ r ∈ ((ms.foldl (fun c m =>
          if m = n then c else clusterNodeDelFailureReport cfg env m n c) c).info k).fail_reports,
          r.node ≠ n := by
  induction ms generalizing c with
  | nil => exact ⟨Forgets.refl c, fun k hk => by cases hk⟩
  | cons m ms ih =>
    have hm : Forgets c (if m = n then c else clusterNodeDelFailureReport cfg env m n c) := by
      split
      · exact Forgets.refl c
      · exact forgets_delReport cfg env m n c
    obtain ⟨h1, h2⟩ := ih (if m = n then c else clusterNodeDelFailureReport cfg env m n c)
    refine ⟨hm.trans h1, fun k hk hkn hnd r hr => ?_⟩
    by_cases hkm : k = m
    · have hr := (h1.reports k).subset hr
      rw [hkm] at hkn hnd hr
      rw [if_neg hkn] at hr
      exact delReport_gone cfg env hnd r hr
    · have hk : k ∈ ms := by
        rcases List.mem_cons.mp hk with hk | hk
        · exact absurd hk hkm
        · exact hk
      refine h2 k hk hkn ?_ r hr
      exact ((hm.reports k).map FailReport.node).nodup hnd

theorem removes_delNode [DecidableEq ν] (cfg : BusConfig) (env : BusEnv ν) {c : BusState ν}
    (h : DictOk c) {n : Addr} (hn : n ∈ c.nodes) :
    Removes n c (clusterDelNode cfg env n c) ∧
      (DistinctReporters c → NoReportBy (clusterDelNode cfg env n c) n) := by
  unfold clusterDelNode
  have h1 := onlySlots_unassignSlots n c
  generalize (List.range REDIS_CLUSTER_SLOTS).foldl (unassignSlot n) c = d at h1 ⊢
  have h2 := h1.calm.forgets h1.sent
  obtain ⟨h3, hgone⟩ := delReports_spec cfg env n d.nodes d
  dsimp only
  generalize d.nodes.foldl (fun c m =>
    if m = n then c else clusterNodeDelFailureReport cfg env m n c) d = e at h3 hgone ⊢
  have h4 : Calm e (if e.nodeIsSlave n then leaveMaster n e else e) :=
    Calm.ite (fun _ => calm_leaveMaster n e) fun _ => Calm.refl e
  have h5 : (if e.nodeIsSlave n then leaveMaster n e else e).sent = e.sent := by
    split
    · exact leaveMaster_sent n e
    · rfl
  have h6 := h4.forgets h5
  generalize (if e.nodeIsSlave n then leaveMaster n e else e) = f at h6 ⊢
  have hall := (h2.trans h3).trans h6
  have hfree := removes_freeNode (hall.dictOk h) (hall.nodes ▸ hn)
  refine ⟨hall.removes hfree, fun hdist k hk r hr => ?_⟩
  rw [hfree.nodes, hall.nodes] at hk
  obtain ⟨hkn, hk⟩ := h.nodup.mem_erase_iff.mp hk
  refine hgone k (h1.nodes ▸ hk) hkn ?_ r ((h6.reports k).subset ((hfree.reports k).subset hr))
  rw [h1.info]
  exact hdist k hk

/-! ## Epochs -/

theorem setsEpochs_updateEpochs (s : Addr) (hdr : ClusterMsg Addr) (c : BusState ν) :
    SetsEpochs c (c.lift (updateEpochs s hdr)) (max c.currentEpoch hdr.currentEpoch)
      c.failover_auth_epoch
      (Function.update (configEpochs c) s (max (configEpochs c s) hdr.configEpoch)) := by
  have hraise : SetsEpochs c (c.lift (raiseEpoch hdr)) (max c.currentEpoch hdr.currentEpoch)
      c.failover_auth_epoch (configEpochs c) := by
    unfold BusState.lift raiseEpoch
    split
    case isTrue hlt =>
      refine ⟨⟨rfl, rfl, fun _ => rfl, fun _ => rfl⟩, fun _ => rfl, ?_, rfl, fun _ => rfl, rfl⟩
      exact (max_eq_right (Nat.le_of_lt hlt)).symm
    case isFalse hle =>
      refine ⟨KeepsDict.refl c, fun _ => rfl, ?_, rfl, fun _ => rfl, rfl⟩
      exact (max_eq_left (Nat.le_of_not_lt hle)).symm
  rw [lift_updateEpochs]
  generalize c.lift (raiseEpoch hdr) = d at hraise ⊢
  have hself : (d.node s).configEpoch = configEpochs c s := hraise.configEpoch s
  split
  case isTrue hlt =>
    have hkeep := keepsDict_modNode d s (fun x => { x with configEpoch := hdr.configEpoch })
      fun _ => rfl
    have hdict := hraise.toKeepsDict.trans hkeep
    refine ⟨⟨hdict.nodes, hdict.myself, hdict.name, hdict.handshake⟩, hraise.reports,
      hraise.currentEpoch, hraise.failover_auth_epoch, fun n => ?_, hraise.sent⟩
    by_cases hn : n = s
    · rw [hself] at hlt
      simp only [hn, BusState.modNode, BusState.lift, ClusterState.setNode, Function.update_self]
      exact (max_eq_right (Nat.le_of_lt hlt)).symm
    · simp only [BusState.modNode, BusState.lift, ClusterState.setNode, Function.update_of_ne hn]
      exact hraise.configEpoch n
  case isFalse hle =>
    refine ⟨hraise.toKeepsDict, hraise.reports, hraise.currentEpoch, hraise.failover_auth_epoch,
      fun n => ?_, hraise.sent⟩
    by_cases hn : n = s
    · rw [hself] at hle
      rw [hn, Function.update_self, hself]
      exact (max_eq_left (Nat.le_of_not_lt hle)).symm
    · rw [Function.update_of_ne hn]
      exact hraise.configEpoch n

theorem setsEpochs_modNode (c : BusState ν) (n : Addr) (e : Nat) :
    SetsEpochs c (c.modNode n fun x => { x with configEpoch := e }) c.currentEpoch
      c.failover_auth_epoch (Function.update (configEpochs c) n e) := by
  refine ⟨keepsDict_modNode c n _ (by intro x; rfl), fun _ => rfl, rfl, rfl, fun m => ?_, rfl⟩
  by_cases hm : m = n
  · simp [hm, BusState.modNode, BusState.lift, ClusterState.setNode]
  · simp [BusState.modNode, BusState.lift, ClusterState.setNode, Function.update_of_ne hm,
      configEpochs]

theorem setsEpochs_claim (c : BusState ν) :
    SetsEpochs c ((c.lift fun s => { s with currentEpoch := nextEpoch c }).modNode c.myself
        fun x => { x with configEpoch := nextEpoch c })
      (nextEpoch c) c.failover_auth_epoch
      (Function.update (configEpochs c) c.myself (nextEpoch c)) := by
  have h := setsEpochs_modNode (c.lift fun s => { s with currentEpoch := nextEpoch c }) c.myself
    (nextEpoch c)
  exact ⟨⟨h.nodes, h.myself, h.name, h.handshake⟩, h.reports, h.currentEpoch,
    h.failover_auth_epoch, h.configEpoch, h.sent⟩

theorem setsEpochs_ask (c : BusState ν) :
    SetsEpochs c (c.lift askForVotes) (nextEpoch c) (nextEpoch c) (configEpochs c) :=
  ⟨⟨rfl, rfl, fun _ => rfl, fun _ => rfl⟩, fun _ => rfl, rfl, rfl, fun _ => rfl, rfl⟩

section Functions

variable [LinearOrder ν] {P : ν → Prop} {F : BusState ν → Addr → Prop} {event : BusEvent ν}
  {cfg : BusConfig} {env : BusEnv ν}

theorem changes_collision (s : Addr) (c : BusState ν) :
    Changes P F event c (clusterHandleConfigEpochCollision s c) := by
  refine Changes.ite (fun _ => .refl) fun _ => Changes.ite (fun _ => .refl) fun _ => ?_
  exact (Relation.ReflTransGen.single (Change.claim (setsEpochs_claim c))).trans
    (soft_saveConfig _).calm.changes

theorem changes_importEpoch (c : BusState ν) : Changes P F event c (importEpoch c) := by
  refine Changes.ite (fun _ => ?_) fun _ => .refl
  exact (Relation.ReflTransGen.single (Change.claim (setsEpochs_claim c))).trans
    (soft_todo _ _).calm.changes

/-! ## Packets -/

theorem changes_senderHeader {via : Option Addr} {hdr : BusMsg ν} (hev : event = .packet via hdr)
    (c : BusState ν) :
    Changes P F event c (senderHeader env (clusterLookupNode c hdr.sender) hdr c) := by
  unfold senderHeader
  split
  case h_1 => exact .refl
  case h_2 s hlook =>
    unfold processHeader
    split
    case isTrue => exact .refl
    case isFalse hhs =>
      have h1 : Changes P F event c (c.lift (updateEpochs s (hdr.request s))) :=
        .single (.header via hdr s hev hlook (by simpa using hhs)
          (setsEpochs_updateEpochs s (hdr.request s) c))
      have h2 := h1.trans (Calm.modInfo _ s (fun x =>
        { x with repl_offset := hdr.offset, repl_offset_time := env.mstime }) fun _ => rfl).changes
      refine Changes.ite (fun _ => h2.trans (Calm.changes ?_)) fun _ => h2
      exact ⟨⟨rfl, rfl, fun _ => rfl, fun _ => rfl⟩, fun _ => rfl, rfl, rfl, fun _ => rfl,
        fun _ hm => Or.inl hm⟩

theorem changes_pingBody (henv : FreshEnv P env) (sender : Option Addr) (type : PingType)
    (hdr : BusMsg ν) (c : BusState ν) : Changes P F event c (pingBody env sender type hdr c) := by
  refine Changes.ite (fun _ => ?_) fun _ => .refl
  have h := creates_addFreshNode (f := fun x => { x with ip := env.peerIp, port := hdr.port }) env
    false (henv c).1 (henv c).2.1 (henv c).2.2 fun _ => ⟨rfl, rfl⟩
  exact (Relation.ReflTransGen.single (Change.create _ h)).trans (soft_todo _ _).calm.changes

theorem startHandshake_cases (henv : FreshEnv P env) (ip : String) (port : Int) (c : BusState ν) :
    (clusterStartHandshake env ip port c).1 = c ∨
      Creates P (env.newNode c).1 c (clusterStartHandshake env ip port c).1 := by
  unfold clusterStartHandshake
  split
  · exact Or.inl rfl
  · rename_i norm_ip _
    split
    · exact Or.inl rfl
    · split
      · exact Or.inl rfl
      · exact Or.inr (creates_addFreshNode (f := fun x => { x with ip := norm_ip, port := port.toNat })
          env true (henv c).1 (henv c).2.1 (henv c).2.2 fun _ => ⟨rfl, rfl⟩)

theorem changes_startHandshake (henv : FreshEnv P env) (ip : String) (port : Int) (c : BusState ν) :
    Changes P F event c (clusterStartHandshake env ip port c).1 := by
  rcases startHandshake_cases henv ip port c with h | h
  · rw [h]
  · exact .single (.create _ h)

theorem changes_completeHandshake {c : BusState ν} (h : DictOk c) {n : Addr} (hn : n ∈ c.nodes)
    (hhs : c.nodeInHandshake n = true) {hdr : BusMsg ν} (hev : event = .packet (some n) hdr)
    (hnew : clusterLookupNode c hdr.sender = none) :
    Changes P F event c (completeHandshake n hdr c) := by
  have hunknown : ∀ m ∈ c.nodes, m ≠ n → (c.info m).name ≠ hdr.sender :=
    fun m hm _ => lookup_eq_none.mp hnew m hm
  unfold completeHandshake clusterRenameNode
  rw [dictDelete_of_mem h hn, readd_spec h hunknown]
  refine Relation.ReflTransGen.trans (.single ?_) (soft_todo _ _).calm.changes
  refine Change.answer n hdr hev hn hhs ?_ ⟨rfl, hunknown, ?_, fun k hk => ⟨?_, ?_⟩, ?_, rfl, rfl⟩
    rfl rfl ?_
  · simp [ClusterState.nodeInHandshake, BusState.modNode, BusState.lift, ClusterState.setNode]
  · simp [BusState.modNode, BusState.lift, BusState.modInfo, BusState.setInfo]
  · simp [BusState.modNode, BusState.lift, BusState.modInfo, BusState.setInfo,
      Function.update_of_ne hk]
  · simp [ClusterState.nodeInHandshake, BusState.modNode, BusState.lift, BusState.modInfo,
      BusState.setInfo, ClusterState.setNode, Function.update_of_ne hk]
  · exact modInfo_proj (fun x => x.fail_reports)
      (c.lift fun s => { s with nodes := n :: s.nodes.erase n }) n
      (fun x => { x with name := hdr.sender }) fun _ => rfl
  · funext k
    exact modNode_proj (fun x => x.configEpoch) c n (fun x => { x with flags := { x.flags with
      handshake := false
      master := x.flags.master || hdr.flags.node.master
      slave := x.flags.slave || hdr.flags.node.slave } }) (fun _ => rfl) k

theorem changes_processSlots (s : Addr) (epoch : Nat) (hdr : BusMsg ν) (c : BusState ν) :
    Changes P F event c (processSlots cfg env s epoch hdr c) := by
  unfold processSlots resolveCollision
  dsimp only
  have h1 := calm_adoptSlots env s epoch hdr c
  generalize adoptSlots env s epoch hdr c = d at h1 ⊢
  have h2 : Calm c (if dirtySlots s hdr c then sendStaleUpdate cfg env s epoch hdr d else d) :=
    Calm.ite (fun _ => h1.trans (soft_sendStaleUpdate cfg env s epoch hdr d).calm) fun _ => h1
  exact Changes.ite (fun _ => h2.changes.trans (changes_collision s _)) fun _ => h2.changes

theorem changes_heartbeatBody {c : BusState ν} (h : DictOk c) {via sender : Option Addr}
    {type : PingType} {epoch : Nat} {hdr : BusMsg ν} (hev : event = .packet via hdr)
    (hvia : ∀ n, via = some n → n ∈ c.nodes)
    (hnew : ∀ n, via = some n → c.nodeInHandshake n → clusterLookupNode c hdr.sender = none) :
    Changes P F event c (heartbeatBody cfg env via sender type epoch hdr c) := by
  unfold heartbeatBody
  have h1 : Changes P F event c (heartbeatHandshake via hdr c) := by
    unfold heartbeatHandshake
    split
    · refine Changes.ite (fun hhs => ?_) fun _ => .refl
      exact changes_completeHandshake h (hvia _ rfl) hhs hev (hnew _ rfl hhs)
    · exact .refl
  have h2 := h1.trans ((soft_heartbeatAddress env via sender type hdr _).trans
    (soft_heartbeatPong cfg env via type _)).calm.changes
  unfold heartbeatSender
  split
  · exact h2
  · exact (h2.trans (calm_processRole _ hdr _).changes).trans (changes_processSlots _ epoch hdr _)

theorem changes_dropPacket {c : BusState ν} (h : DictOk c) {n : Addr} (hn : n ∈ c.nodes)
    {sender : Option Addr} {hdr : BusMsg ν} (hF : ∀ c d, Calm c d → F c n → F d n)
    (hfree : ∀ s, sender = some s → c.nodeInHandshake n → F c n) :
    Changes P F event c (dropPacket env n sender hdr c) := by
  unfold dropPacket
  split
  case isTrue hhs =>
    cases sender with
    | none => exact .refl
    | some s =>
      have h1 := (soft_updateAddress env s (some n) hdr.port c).calm
      dsimp only
      generalize nodeUpdateAddressIfNeeded env s (some n) hdr.port c = d at h1 ⊢
      have hd := h1.dictOk h
      have hnd : n ∈ d.nodes := h1.nodes ▸ hn
      refine h1.changes.tail (.free n hnd ?_ (hF c d h1 (hfree s rfl hhs)) (removes_freeNode hd hnd))
      rw [h1.handshake]
      exact hhs
  case isFalse =>
    exact ((Calm.modInfo c n _ (by intro x; rfl)).trans ((soft_freeNodeLink n _).trans
      (soft_todo _ _)).calm).changes

theorem changes_processUpdate {c : BusState ν} {via : Option Addr} {hdr : BusMsg ν} {name : ν}
    {epoch : Nat} {slots : Finset Nat} {s : Addr} (hev : event = .packet via hdr)
    (hdata : hdr.data = .update name epoch slots) (hs : clusterLookupNode c hdr.sender = some s)
    (hcur : c.nodeInHandshake s = false → hdr.currentEpoch ≤ c.currentEpoch) :
    Changes P F event c (processUpdate env name epoch slots c) := by
  unfold processUpdate
  split
  case h_1 => exact .refl
  case h_2 n _ =>
    refine Changes.ite (fun _ => .refl) fun _ => ?_
    have h1 : Calm c (if c.nodeIsSlave n then clusterSetNodeAsMaster n c else c) :=
      Calm.ite (fun _ => calm_setNodeAsMaster n c) fun _ => Calm.refl c
    generalize (if c.nodeIsSlave n then clusterSetNodeAsMaster n c else c) = d at h1 ⊢
    have h2 : Change P F event d (d.modNode n fun x => { x with configEpoch := epoch }) := by
      refine Change.update via hdr name epoch slots s n hev hdata ((h1.lookup _).trans hs)
        (fun hhs => ?_) (setsEpochs_modNode d n epoch)
      rw [h1.handshake] at hhs
      rw [h1.currentEpoch]
      exact hcur hhs
    have h3 := h1.changes.tail h2
    exact (h3.trans (soft_todo _ _).calm.changes).trans (calm_updateSlotsConfig _ _ _ _ _).changes

omit [LinearOrder ν] in
theorem senderHeader_epoch [DecidableEq ν] {sender : Option Addr} {hdr : BusMsg ν} {c : BusState ν} {s : Addr}
    (hs : sender = some s) (hhs : (senderHeader env sender hdr c).nodeInHandshake s = false) :
    hdr.currentEpoch ≤ (senderHeader env sender hdr c).currentEpoch := by
  subst hs
  have hepoch : hdr.currentEpoch ≤ (c.lift (updateEpochs s (hdr.request s))).currentEpoch := by
    rw [(setsEpochs_updateEpochs s (hdr.request s) c).currentEpoch]
    exact le_max_right _ _
  unfold senderHeader processHeader at hhs ⊢
  dsimp only at hhs ⊢
  split at hhs
  case isTrue hshake => rw [hshake] at hhs; cases hhs
  case isFalse hshake =>
    rw [if_neg hshake]
    split <;> exact hepoch

theorem changes_plainPacket {c : BusState ν} {via : Option Addr} {hdr : BusMsg ν}
    (hev : event = .packet via hdr) (hping : ∀ gossip, hdr.data ≠ .ping gossip)
    (hpong : ∀ gossip, hdr.data ≠ .pong gossip) (hmeet : ∀ gossip, hdr.data ≠ .meet gossip) :
    Changes P F event c (clusterProcessPacket cfg env via hdr c) := by
  unfold clusterProcessPacket
  have hhead : Changes P F event c (senderHeader env (clusterLookupNode c hdr.sender) hdr c) :=
    changes_senderHeader hev c
  have hlook := keepsRoles_senderHeader env (clusterLookupNode c hdr.sender) hdr c
  have hepoch : ∀ s, clusterLookupNode c hdr.sender = some s →
      (senderHeader env (clusterLookupNode c hdr.sender) hdr c).nodeInHandshake s = false →
      hdr.currentEpoch ≤ (senderHeader env (clusterLookupNode c hdr.sender) hdr c).currentEpoch :=
    fun s => senderHeader_epoch
  dsimp only
  generalize senderHeader env (clusterLookupNode c hdr.sender) hdr c = d at hhead hlook hepoch ⊢
  have hlook := hlook.lookup hdr.sender
  refine hhead.trans ?_
  unfold processData
  split
  case h_1 hdata => exact absurd hdata (hping _)
  case h_2 hdata => exact absurd hdata (hpong _)
  case h_3 hdata => exact absurd hdata (hmeet _)
  case h_4 => exact (soft_processFail env _ d).calm.changes
  case h_5 s _ _ => exact (soft_processAuthRequest cfg env s hdr d).calm.changes
  case h_6 s _ _ => exact (soft_countVote s _ d).calm.changes
  case h_7 s _ _ => exact (soft_mfstart env s d).calm.changes
  case h_8 s hdata hs => exact changes_processUpdate hev hdata (hlook.trans hs) (hepoch s hs)
  case h_9 => exact .refl

/-! ## Failovers and `clusterCron` -/

variable (cfg env) in
omit [LinearOrder ν] in
theorem changes_winFailover [DecidableEq ν] (m : Addr) (c : BusState ν) :
    Changes P F event c (winFailover cfg env m c) := by
  unfold winFailover
  have h1 := (calm_setNodeAsMaster c.myself c).trans
    (onlySlots_takeSlots m (clusterSetNodeAsMaster c.myself c)).calm
  dsimp only
  generalize takeSlots m (clusterSetNodeAsMaster c.myself c) = d at h1 ⊢
  have h2 : Changes P F event c
      (d.modNode d.myself fun x => { x with configEpoch := d.failover_auth_epoch }) :=
    h1.changes.tail (.win (setsEpochs_modNode d d.myself d.failover_auth_epoch))
  have h3 := h2.trans ((soft_updateState cfg env _).trans (soft_saveConfig _)).calm.changes
  exact h3.trans ((soft_broadcastPong cfg env false _).trans
    (soft_resetManualFailover _)).calm.changes

variable (cfg env) in
omit [LinearOrder ν] in
theorem changes_slaveFailover [DecidableEq ν] (c : BusState ν) :
    Changes P F event c (clusterHandleSlaveFailover cfg env c) := by
  unfold clusterHandleSlaveFailover
  dsimp only
  have h1 := (soft_lift c (fun s => { s with todo_before_sleep :=
    { s.todo_before_sleep with handleFailover := false } }) fun _ => rfl).calm
  generalize c.lift (fun s =>
    { s with todo_before_sleep := { s.todo_before_sleep with handleFailover := false } }) = d
    at h1 ⊢
  have hrank := h1.trans (soft_updateRank (failoverEnv env d) d).calm
  split
  · exact h1.changes
  · exact h1.changes
  · exact (h1.trans ((soft_schedule _ d).trans (soft_broadcastPong cfg env true _)).calm).changes
  · exact hrank.changes
  · exact hrank.changes
  · have hask : Changes P F event c
        ((d.lift (updateFailoverRank (failoverEnv env d))).lift askForVotes) :=
      hrank.changes.tail (.ask (setsEpochs_ask _))
    refine hask.trans (Soft.calm (soft_broadcast ?_)).changes
    exact ⟨rfl, rfl, ⟨_, rfl⟩, fun _ _ _ h => by cases h⟩
  · generalize d.lift (updateFailoverRank (failoverEnv env d)) = e at hrank ⊢
    split
    · exact hrank.changes
    · exact hrank.changes.trans (changes_winFailover cfg env _ e)
  · exact hrank.changes

theorem changes_cronLinks {c : BusState ν} (h : DictOk c)
    (hfree : RunMeets (cronConnect cfg env) (fun c n => handshakeExpired cfg env c n → F c n)
      c c.nodes) : Changes P F event c (cronLinks cfg env c) := by
  have hloop : DictOk (c.nodes.foldl (cronConnect cfg env) c) ∧
      Changes P F event c (c.nodes.foldl (cronConnect cfg env) c) := by
    refine foldl_nodes (I := fun d => DictOk d ∧ Changes P F event c d) (fun x n hx hn hF => ?_)
      c.nodes ⟨h, .refl⟩ h.nodup (fun _ hn => hn) hfree
    have hstep : Changes P F event x (cronConnect cfg env x n) := by
      unfold cronConnect
      split
      · exact .refl
      · split
        case isTrue hexp =>
          have hhs : x.nodeInHandshake n = true := by
            simp only [handshakeExpired, Bool.and_eq_true] at hexp
            exact hexp.1.2
          exact .single (.free n hn hhs (hF hexp) (removes_freeNode hx.1 hn))
        case isFalse =>
          exact Changes.ite (fun _ => (soft_connectNode cfg env n x).calm.changes) fun _ => .refl
    exact ⟨⟨hstep.dictOk hx.1, hx.2.trans hstep⟩, cronConnect_nodes cfg env hx.1 hn⟩
  unfold cronLinks
  dsimp only
  split
  · exact hloop.2
  · exact hloop.2.trans (soft_sendPing cfg env _ .ping _).calm.changes

theorem changes_cron {c : BusState ν} (h : DictOk c)
    (hfree : RunMeets (cronConnect cfg env) (fun c n => handshakeExpired cfg env c n → F c n)
      c c.nodes) : Changes P F event c (clusterCron cfg env c) := by
  unfold clusterCron
  have h1 : Changes P F event c (cronLinks cfg env c) := changes_cronLinks h hfree
  have h2 := h1.trans (soft_cronScan cfg env _).calm.changes
  dsimp only
  generalize cronScan cfg env (cronLinks cfg env c) = r at h2 ⊢
  have h3 := h2.trans (soft_manualTimeout env r.cluster).calm.changes
  have h4 : Changes P F event c (cronSlave cfg env r (manualFailoverCheckTimeout env r.cluster)) := by
    unfold cronSlave
    refine Changes.ite (fun _ => ?_) fun _ => h3
    have h5 := (h3.trans (soft_manualFailover env _).calm.changes).trans (changes_slaveFailover cfg env _)
    exact Changes.ite (fun _ => h5.trans (calm_migration cfg _ _).changes) fun _ => h5
  exact Changes.ite (fun _ => h4.trans (soft_updateState cfg env _).calm.changes) fun _ => h4

theorem changes_beforeSleep (c : BusState ν) :
    Changes P F event c (clusterBeforeSleep cfg env c) := by
  unfold clusterBeforeSleep
  have h1 : Changes P F event c (if c.todo_before_sleep.handleFailover then
      clusterHandleSlaveFailover cfg env c else c) :=
    Changes.ite (fun _ => changes_slaveFailover cfg env c) fun _ => .refl
  dsimp only
  generalize (if c.todo_before_sleep.handleFailover then
    clusterHandleSlaveFailover cfg env c else c) = d at h1 ⊢
  have h2 : Changes P F event c (if d.todo_before_sleep.updateState then
      clusterUpdateState cfg env d else d) :=
    Changes.ite (fun _ => h1.trans (soft_updateState cfg env d).calm.changes) fun _ => h1
  exact h2.trans (soft_lift _ _ (by intro x; rfl)).calm.changes

/-! ## Commands -/

theorem changes_setslotNode (slot : Nat) (n : Addr) (c : BusState ν) :
    Changes P F event c (setslotNode env slot n c) := by
  obtain ⟨d, e, hd, he, heq⟩ := setslotNode_eq env slot n c
  have h : Changes P F event c e := by
    rcases he with rfl | he
    · exact hd.calm.changes
    · exact hd.calm.changes.trans ((changes_importEpoch d).trans he.calm.changes)
  rw [heq]
  exact h.trans ((onlySlots_delSlot slot e).trans (onlySlots_addSlot n slot _)).calm.changes

variable (env) in
theorem changes_setslot (arg : Int) (action : SetslotAction ν) (c : BusState ν) :
    Changes P F event c (clusterSetslot env arg action c).1 := by
  rcases clusterSetslot_cases env arg action c with hsoft | ⟨slot, n, -, -, heq⟩
  · exact hsoft.calm.changes
  · rw [heq]
    exact (changes_setslotNode slot n c).trans (soft_todo _ _).calm.changes

theorem changes_forget {name : ν} {c : BusState ν} (h : DictOk c) :
    Changes P F event c (clusterForget cfg env name c).1 := by
  unfold clusterForget
  cases hlook : clusterLookupNode c name with
  | none => exact .refl
  | some n =>
    dsimp only
    split
    case isTrue => exact .refl
    case isFalse hme =>
      split
      case isTrue => exact .refl
      case isFalse =>
        have hs : Calm c (clusterBlacklistAddNode env n c) :=
          Soft.calm ⟨⟨rfl, rfl, rfl, id, fun _ hm => Or.inl hm⟩, fun _ => rfl⟩
        generalize clusterBlacklistAddNode env n c = d at hs ⊢
        have hn : n ∈ d.nodes := hs.nodes ▸ (lookup_some hlook).1
        obtain ⟨hrem, hgone⟩ := removes_delNode cfg env (hs.dictOk h) hn
        exact (hs.changes.tail (.delete n hn (hs.myself ▸ hme) hgone hrem)).trans
          (soft_todo _ _).calm.changes

variable (cfg env) in
theorem changes_resetNodes {c : BusState ν} (h : DictOk c) :
    DictOk (c.nodes.foldl (resetNode cfg env) c) ∧
      Changes P F event c (c.nodes.foldl (resetNode cfg env) c) := by
  have hall : ∀ (ns : List Addr) (d : BusState ν),
      RunMeets (resetNode cfg env) (fun _ _ => True) d ns := by
    intro ns
    induction ns with
    | nil => exact fun _ => trivial
    | cons n ns ih => exact fun d => ⟨trivial, ih _⟩
  refine foldl_nodes (I := fun d => DictOk d ∧ Changes P F event c d) (fun x n hx hn _ => ?_)
    c.nodes ⟨h, .refl⟩ h.nodup (fun _ hn => hn) (hall _ c)
  have hstep : Changes P F event x (resetNode cfg env x n) := by
    unfold resetNode
    split
    case isTrue => exact .refl
    case isFalse hme =>
      obtain ⟨hrem, hgone⟩ := removes_delNode cfg env hx.1 hn
      exact .single (.delete n hn hme hgone hrem)
  exact ⟨⟨hstep.dictOk hx.1, hx.2.trans hstep⟩, resetNode_nodes cfg env hx.1 hn⟩

theorem changes_resetIdentity (henv : FreshEnv P env) {c : BusState ν} (h : DictOk c)
    (hev : event = .command (.reset true)) : Changes P F event c (resetIdentity env c) := by
  unfold resetIdentity
  dsimp only
  have hkeep : KeepsDict c ((c.lift fun s => { s with currentEpoch := 0, lastVoteEpoch := 0 }).modNode
      c.myself fun x => { x with configEpoch := 0 }) :=
    KeepsDict.trans (b := c.lift fun s => { s with currentEpoch := 0, lastVoteEpoch := 0 })
      ⟨rfl, rfl, fun _ => rfl, fun _ => rfl⟩ (keepsDict_modNode _ c.myself _ (by intro x; rfl))
  have hreports : ∀ k, (((c.lift fun s => { s with currentEpoch := 0, lastVoteEpoch := 0 }).modNode
      c.myself fun x => { x with configEpoch := 0 }).info k).fail_reports =
      (c.info k).fail_reports := fun _ => rfl
  have hsent : ((c.lift fun s => { s with currentEpoch := 0, lastVoteEpoch := 0 }).modNode
      c.myself fun x => { x with configEpoch := 0 }).sent = c.sent := rfl
  have hmyself : (c.lift fun s => { s with currentEpoch := 0, lastVoteEpoch := 0 }).myself =
      c.myself := rfl
  rw [hmyself]
  generalize (c.lift fun s => { s with currentEpoch := 0, lastVoteEpoch := 0 }).modNode c.myself
    (fun x => { x with configEpoch := 0 }) = d at hkeep hreports hsent ⊢
  have hd := hkeep.dictOk h
  rw [dictDeleteNode_of_mem hd hd.me]
  generalize hnew : (env.newNode (d.lift fun s =>
    { s with nodes := s.nodes.erase d.myself })).2 = newname
  obtain ⟨-, hnone, hP⟩ := henv (d.lift fun s => { s with nodes := s.nodes.erase d.myself })
  rw [hnew] at hnone hP
  have hunknown : ∀ m ∈ d.nodes, m ≠ d.myself → (d.info m).name ≠ newname := by
    intro m hm hne
    exact lookup_eq_none.mp hnone m (hd.nodup.mem_erase_iff.mpr ⟨hne, hm⟩)
  show Changes P F event c (clusterAddNode d.myself ((d.lift fun s =>
    { s with nodes := s.nodes.erase d.myself }).modInfo d.myself fun x => { x with name := newname }))
  rw [readd_spec hd hunknown, hkeep.myself]
  refine .single (.identity newname hev hP ⟨?_, fun k hk hne => ?_, ?_, fun k hk => ⟨?_, ?_⟩,
    fun k => ?_, hkeep.myself, hsent⟩ ?_)
  · show c.myself :: d.nodes.erase c.myself = c.myself :: c.nodes.erase c.myself
    rw [hkeep.nodes]
  · rw [← hkeep.name]
    rw [← hkeep.nodes] at hk
    rw [← hkeep.myself] at hne
    exact hunknown k hk hne
  · simp [BusState.lift, BusState.modInfo, BusState.setInfo]
  · rw [← hkeep.name]
    simp [BusState.lift, BusState.modInfo, BusState.setInfo, Function.update_of_ne hk]
  · exact hkeep.handshake k
  · rw [← hreports k]
    exact modInfo_proj (fun x => x.fail_reports)
      (d.lift fun s => { s with nodes := c.myself :: s.nodes.erase c.myself }) c.myself
      (fun x => { x with name := newname }) (fun _ => rfl) k
  · exact hkeep.handshake c.myself

theorem changes_reset (henv : FreshEnv P env) (hard : Bool) {c : BusState ν} (h : DictOk c)
    (hev : event = .command (.reset hard)) : Changes P F event c (clusterReset cfg env hard c) := by
  have h1 := calm_resetSlots c
  obtain ⟨b, hb⟩ : ∃ b, b = resetSlots c := ⟨_, rfl⟩
  unfold clusterReset
  rw [← hb] at h1 ⊢
  obtain ⟨hdict, h2⟩ : DictOk (b.nodes.foldl (resetNode cfg env) b) ∧
      Changes P F event b (b.nodes.foldl (resetNode cfg env) b) :=
    changes_resetNodes cfg env (h1.dictOk h)
  dsimp only
  generalize b.nodes.foldl (resetNode cfg env) b = d at hdict h2 ⊢
  have h3 := h1.changes.trans h2
  refine Relation.ReflTransGen.trans ?_ (soft_todo _ _).calm.changes
  cases hard with
  | false => exact h3
  | true => exact h3.trans (changes_resetIdentity henv hdict hev)

theorem changes_setConfigEpoch (epoch : Int) (c : BusState ν)
    (hev : event = .command (.setConfigEpoch epoch)) :
    Changes P F event c (clusterSetConfigEpoch epoch c).1 := by
  unfold clusterSetConfigEpoch
  repeat' split
  case isFalse.isFalse.isFalse =>
    exact (Relation.ReflTransGen.single (Change.setConfigEpoch epoch hev
      (setsEpochs_modNode c c.myself epoch.toNat))).trans (soft_todo _ _).calm.changes
  all_goals exact .refl

theorem changes_command (henv : FreshEnv P env) (cmd : Command ν) {c : BusState ν} (h : DictOk c)
    (hev : event = .command cmd) : Changes P F event c (clusterCommand cfg env cmd c).1 := by
  cases cmd with
  | meet ip port => exact changes_startHandshake henv ip port c
  | flushslots =>
    unfold clusterCommand
    dsimp only
    split
    · exact .refl
    · exact ((onlySlots_delNodeSlots c.myself c).calm.trans (soft_todo _ _).calm).changes
  | addslots slots => exact (onlySlots_addDelSlots false slots c).calm.changes
  | delslots slots => exact (onlySlots_addDelSlots true slots c).calm.changes
  | setslotMigrating slot name => exact changes_setslot env slot (.migrating name) c
  | setslotImporting slot name => exact changes_setslot env slot (.importing name) c
  | setslotStable slot => exact changes_setslot env slot .stable c
  | setslotNode slot name => exact changes_setslot env slot (.node name) c
  | forget name => exact changes_forget h
  | replicate name => exact (calm_replicate env name c).changes
  | failover force => exact (soft_clusterFailover force c).calm.changes
  | setConfigEpoch epoch => exact changes_setConfigEpoch epoch c hev
  | reset hard =>
    unfold clusterCommand
    dsimp only
    split
    · exact .refl
    · exact changes_reset henv hard h hev

theorem changes_event (henv : FreshEnv P env) {c : BusState ν} (h : DictOk c)
    (hpacket : ∀ via hdr, event ≠ .packet via hdr)
    (hcron : event = .cron → RunMeets (cronConnect cfg env)
      (fun c n => handshakeExpired cfg env c n → F c n) c c.nodes) :
    Changes P F event c (busEvent cfg env event c) := by
  unfold busEvent
  cases event with
  | packet via hdr => exact absurd rfl (hpacket via hdr)
  | linkError n =>
    exact Changes.ite (fun _ => (soft_freeNodeLink n c).calm.changes) fun _ => .refl
  | command cmd => exact changes_command henv cmd h rfl
  | cron => exact changes_cron h (hcron rfl)
  | beforeSleep => exact changes_beforeSleep c
  | verifyData => exact (onlySlots_verifyData env c).calm.changes
  | rehash order =>
    exact Changes.ite (fun hp => .single (.rehash order hp rfl)) fun _ => .refl

end Functions

end RedisCluster.Bus
