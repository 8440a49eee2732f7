import RedisCluster.Cluster.Proofs.TopologyRunProofs

/-!
# Proofs: what slots and roles leave alone

A function is `Calm` if it keeps the names, the handshakes, the epochs and the failure reports, and
sends only messages whose header is that of the state. Functions that move slots or change roles are
calm.
-/

namespace RedisCluster.Bus

variable {ν : Type}

structure Calm (c c' : BusState ν) : Prop extends KeepsDict c c' where
  reports : ∀ n, (c'.info n).fail_reports = (c.info n).fail_reports
  currentEpoch : c'.currentEpoch = c.currentEpoch
  failover_auth_epoch : c'.failover_auth_epoch = c.failover_auth_epoch
  configEpoch : ∀ n, (c'.node n).configEpoch = (c.node n).configEpoch
  sent : ∀ m ∈ c'.sent, m ∈ c.sent ∨ HeaderOf (epochView c) m.2

theorem Soft.calm {c c' : BusState ν} (h : Soft c c') : Calm c c' :=
  ⟨h.keepsDict, h.reports, congrArg EpochView.currentEpoch h.epoch,
    congrArg EpochView.failover_auth_epoch h.epoch,
    fun n => congrFun (congrArg EpochView.configEpoch h.epoch) n, h.sent⟩

theorem OnlySlots.calm {c c' : BusState ν} (h : OnlySlots c c') : Calm c c' :=
  ⟨h.keepsDict, fun n => by rw [h.info], h.currentEpoch, h.failover_auth_epoch,
    fun n => (h.node n).2.2, fun m hm => Or.inl (h.sent ▸ hm)⟩

namespace Calm

variable {a b c c' : BusState ν}

theorem refl (c : BusState ν) : Calm c c := (Soft.refl c).calm

theorem epoch (h : Calm c c') : epochView c' = epochView c := by
  have h1 : (fun n => (c'.node n).configEpoch) = fun n => (c.node n).configEpoch :=
    funext h.configEpoch
  have h2 : (fun n => c'.nodeInHandshake n) = fun n => c.nodeInHandshake n := funext h.handshake
  have h3 : (fun n => (c'.info n).name) = fun n => (c.info n).name := funext h.name
  simp only [epochView, h.nodes, h.myself, h.currentEpoch, h.failover_auth_epoch, h1, h2, h3]

theorem trans (h1 : Calm a b) (h2 : Calm b c) : Calm a c := by
  refine ⟨h1.toKeepsDict.trans h2.toKeepsDict, fun n => (h2.reports n).trans (h1.reports n),
    h2.currentEpoch.trans h1.currentEpoch, h2.failover_auth_epoch.trans h1.failover_auth_epoch,
    fun n => (h2.configEpoch n).trans (h1.configEpoch n), fun m hm => ?_⟩
  rcases h2.sent m hm with hm | hm
  · exact h1.sent m hm
  · rw [h1.epoch] at hm
    exact Or.inr hm

theorem ite {p : Prop} [Decidable p] {x y : BusState ν} (hx : p → Calm c x) (hy : ¬ p → Calm c y) :
    Calm c (if p then x else y) := by
  split
  · exact hx ‹_›
  · exact hy ‹_›

theorem modNode (c : BusState ν) (n : Addr) (f : ClusterNode Addr → ClusterNode Addr)
    (h : ∀ x, ((f x).flags.handshake, (f x).configEpoch) = (x.flags.handshake, x.configEpoch)) :
    Calm c (c.modNode n f) := by
  simp only [Prod.mk.injEq] at h
  exact ⟨keepsDict_modNode c n f fun x => (h x).1, fun _ => rfl, rfl, rfl,
    modNode_proj (fun x => x.configEpoch) c n f fun x => (h x).2, fun _ hm => Or.inl hm⟩

theorem modInfo (c : BusState ν) (n : Addr) (f : NodeInfo ν → NodeInfo ν)
    (h : ∀ x, ((f x).name, (f x).fail_reports) = (x.name, x.fail_reports)) :
    Calm c (c.modInfo n f) := by
  simp only [Prod.mk.injEq] at h
  exact ⟨keepsDict_modInfo c n f fun x => (h x).1,
    modInfo_proj (fun x => x.fail_reports) c n f fun x => (h x).2, rfl, rfl, fun _ => rfl,
    fun _ hm => Or.inl hm⟩

end Calm

theorem calm_removeSlave (m s : Addr) (c : BusState ν) : Calm c (clusterNodeRemoveSlave m s c) :=
  Calm.ite (fun _ => Calm.modInfo c m _ (by intro x; rfl)) fun _ => Calm.refl c

theorem calm_addSlave (m s : Addr) (c : BusState ν) : Calm c (clusterNodeAddSlave m s c) :=
  Calm.ite (fun _ => Calm.refl c) fun _ => Calm.modInfo c m _ (by intro x; rfl)

theorem calm_leaveMaster (n : Addr) (c : BusState ν) : Calm c (leaveMaster n c) := by
  unfold leaveMaster
  split
  · exact Calm.refl c
  · exact calm_removeSlave _ _ c

theorem calm_setSlaveFlag (n : Addr) (c : BusState ν) : Calm c (setSlaveFlag n c) :=
  Calm.modNode c n _ (by intro x; rfl)

theorem calm_setNodeAsMaster (n : Addr) (c : BusState ν) : Calm c (clusterSetNodeAsMaster n c) := by
  refine Calm.ite (fun _ => Calm.refl c) fun _ => (calm_leaveMaster n c).trans ?_
  generalize leaveMaster n c = d
  unfold BusState.lift RedisCluster.clusterSetNodeAsMaster
  split
  · exact Calm.refl d
  · have h := Calm.modNode d n (fun x => { x with
      flags := { x.flags with slave := false, master := true }, slaveof := none }) fun _ => rfl
    exact ⟨⟨h.nodes, h.myself, h.name, h.handshake⟩, h.reports, h.currentEpoch,
      h.failover_auth_epoch, h.configEpoch, h.sent⟩

theorem calm_assert (cond : Bool) (what : Crash) (c : BusState ν) :
    Calm c (redisAssert cond what c) :=
  (onlySlots_assert cond what c).calm

theorem calm_setMaster (n : Addr) (c : BusState ν) : Calm c (clusterSetMaster n c) :=
  setMaster_rel (R := Calm) Calm.trans (fun h => h.calm) calm_setSlaveFlag calm_leaveMaster
    (fun _ c => Calm.modNode c _ _ fun _ => rfl) calm_addSlave n c

theorem calm_changeMaster (s m : Addr) (c : BusState ν) : Calm c (changeMaster s m c) := by
  refine Calm.ite (fun _ => ?_) fun _ => Calm.refl c
  have h := (calm_leaveMaster s c).trans (calm_addSlave m s _)
  exact (h.trans (Calm.modNode _ s _ (by intro x; rfl))).trans (soft_todo _ _).calm

theorem calm_demoteSender (s : Addr) (c : BusState ν) : Calm c (demoteSender s c) := by
  refine Calm.ite (fun _ => ?_) fun _ => Calm.refl c
  have h := (onlySlots_delNodeSlots s c).calm.trans (calm_setSlaveFlag s _)
  refine Calm.trans ?_ (soft_todo _ _).calm
  exact Calm.ite (fun _ => h.trans (Calm.modInfo _ s _ (by intro x; rfl))) fun _ => h

theorem calm_processRole [DecidableEq ν] (s : Addr) (hdr : BusMsg ν) (c : BusState ν) :
    Calm c (processRole s hdr c) := by
  unfold processRole
  split
  · exact calm_setNodeAsMaster s c
  · split
    · exact calm_demoteSender s c
    · exact (calm_demoteSender s c).trans (calm_changeMaster s _ _)

theorem calm_migration [LinearOrder ν] (cfg : BusConfig) (max_slaves : Nat) (c : BusState ν) :
    Calm c (clusterHandleSlaveMigration cfg max_slaves c) := by
  unfold clusterHandleSlaveMigration
  split
  · exact Calm.refl c
  · exact calm_setMaster _ c

theorem calm_updateSlotsConfig (env : BusEnv ν) (sender : Addr) (epoch : Nat) (slots : Finset Nat)
    (c : BusState ν) : Calm c (clusterUpdateSlotsConfigWith env sender epoch slots c) := by
  refine Calm.ite (fun _ => Calm.refl c) fun _ => ?_
  have h1 := (onlySlots_rebindSlots env sender epoch slots c).calm
  generalize rebindSlots env sender epoch slots c = r at h1 ⊢
  have h2 := h1.trans (calm_assert (!(r.newmaster && (curmaster c).isNone)) .nullPointer _)
  refine Calm.ite (fun _ => ?_) fun _ => h2.trans (soft_deletedSlots _ _).calm
  exact (h2.trans (calm_setMaster sender _)).trans (soft_todo _ _).calm

theorem calm_adoptSlots [LinearOrder ν] (env : BusEnv ν) (s : Addr) (epoch : Nat) (hdr : BusMsg ν)
    (c : BusState ν) : Calm c (adoptSlots env s epoch hdr c) :=
  Calm.ite (fun _ => calm_updateSlotsConfig env s epoch hdr.myslots c) fun _ => Calm.refl c

theorem calm_resetSlots (c : BusState ν) : Calm c (resetSlots c) := by
  unfold resetSlots
  have h1 : Calm c (if c.nodeIsSlave c.myself then clusterSetNodeAsMaster c.myself c else c) :=
    Calm.ite (fun _ => calm_setNodeAsMaster _ c) fun _ => Calm.refl c
  have h2 := (h1.trans (soft_closeAllSlots _).calm).trans (soft_resetManualFailover _).calm
  exact h2.trans (OnlySlots.foldl (fun x j => onlySlots_delSlot j x) _ _).calm

theorem calm_replicate [LinearOrder ν] (env : BusEnv ν) (name : ν) (c : BusState ν) :
    Calm c (clusterReplicate env name c).1 := by
  unfold clusterReplicate
  split
  · exact Calm.refl c
  · split
    · exact Calm.refl c
    · split
      · exact Calm.refl c
      · split
        · exact Calm.refl c
        · exact (calm_setMaster _ c).trans (soft_todo _ _).calm

end RedisCluster.Bus
