import RedisCluster.Cluster.Proofs.DictProofs

/-!
# Proofs: the slot table

`TableOk` adds to `SlotTable` what the dict of the nodes guarantees. Every function is a sequence of
soft changes, of new nodes, and of `clusterAddSlot` and `clusterDelSlot`; a node is freed only when it
owns no slot.
-/

namespace RedisCluster.Bus

open RedisCluster.Lib

variable {ν : Type}

/-- The slot table and the dict. -/
structure TableOk (c : BusState ν) : Prop extends SlotTable c, DictOk c where
  alive : c.crashed ≠ some .clusterDelSlot

/-- The slots, the nodes, their names and the handshakes stay. -/
structure KeepsSlots (c c' : BusState ν) : Prop where
  slot : slotView c' = slotView c
  name : ∀ n, (c'.info n).name = (c.info n).name
  handshake : ∀ n, c'.nodeInHandshake n = c.nodeInHandshake n
  crash : c'.crashed = some .clusterDelSlot → c.crashed = some .clusterDelSlot

theorem Mild.keepsSlots {c c' : BusState ν} (h : Mild c c') : KeepsSlots c c' :=
  ⟨h.slot, fun n => congrFun (congrArg EpochView.name h.epoch) n,
    fun n => congrFun (congrArg EpochView.handshake h.epoch) n, h.crash⟩

namespace KeepsSlots

variable {a b c c' : BusState ν}

theorem refl (c : BusState ν) : KeepsSlots c c := (Soft.refl c).keepsSlots

theorem trans (h1 : KeepsSlots a b) (h2 : KeepsSlots b c) : KeepsSlots a c :=
  ⟨h2.slot.trans h1.slot, fun n => (h2.name n).trans (h1.name n),
    fun n => (h2.handshake n).trans (h1.handshake n), fun h => h1.crash (h2.crash h)⟩

theorem ite {p : Prop} [Decidable p] {x y : BusState ν} (hx : p → KeepsSlots c x)
    (hy : ¬ p → KeepsSlots c y) : KeepsSlots c (if p then x else y) := by
  split
  · exact hx ‹_›
  · exact hy ‹_›

theorem nodes (h : KeepsSlots c c') : c'.nodes = c.nodes := congrArg SlotView.nodes h.slot

theorem myself (h : KeepsSlots c c') : c'.myself = c.myself := congrArg SlotView.myself h.slot

theorem slots (h : KeepsSlots c c') : c'.slots = c.slots := congrArg SlotView.table h.slot

theorem bits (h : KeepsSlots c c') (n : Addr) :
    (c'.node n).slots = (c.node n).slots ∧ (c'.node n).numslots = (c.node n).numslots :=
  Prod.mk.inj (congrFun (congrArg SlotView.bits h.slot) n)

theorem tableOk (h : KeepsSlots c c') (hc : TableOk c) : TableOk c' := by
  have hdict : KeepsDict c c' := ⟨h.nodes, h.myself, h.name, h.handshake⟩
  refine ⟨⟨fun j n => ?_, fun j n hj => ?_, fun n hn => ?_⟩, hdict.dictOk hc.toDictOk,
    fun ha => hc.alive (h.crash ha)⟩
  · rw [h.slots, h.nodes, (h.bits n).1]
    exact hc.owner j n
  · rw [h.slots] at hj
    exact hc.range j n hj
  · rw [h.nodes] at hn
    rw [(h.bits n).1, (h.bits n).2]
    exact hc.count n hn

theorem modNode (c : BusState ν) (n : Addr) (f : ClusterNode Addr → ClusterNode Addr)
    (h : ∀ x, ((f x).slots, (f x).numslots, (f x).flags.handshake) =
      (x.slots, x.numslots, x.flags.handshake)) : KeepsSlots c (c.modNode n f) := by
  simp only [Prod.mk.injEq] at h
  obtain ⟨h1, h2, h3⟩ := h (c.node n)
  have hb := comp_update_eq (fun x : ClusterNode Addr => (x.slots, x.numslots)) c.node n
    (f (c.node n)) (by rw [h1, h2])
  have hh := comp_update_eq (fun x : ClusterNode Addr => x.flags.handshake) c.node n
    (f (c.node n)) h3
  refine ⟨?_, fun _ => rfl, congrFun hh, id⟩
  simp only [slotView, BusState.modNode, BusState.lift, ClusterState.setNode, hb]

theorem modInfo (c : BusState ν) (n : Addr) (f : NodeInfo ν → NodeInfo ν)
    (h : ∀ x, (f x).name = x.name) : KeepsSlots c (c.modInfo n f) :=
  ⟨rfl, congrFun (comp_update_eq (fun x : NodeInfo ν => x.name) c.info n _ (h _)), fun _ => rfl, id⟩

end KeepsSlots

theorem keepsSlots_removeSlave (m s : Addr) (c : BusState ν) :
    KeepsSlots c (clusterNodeRemoveSlave m s c) :=
  KeepsSlots.ite (fun _ => KeepsSlots.modInfo c m _ (by intro x; rfl)) fun _ => KeepsSlots.refl c

theorem keepsSlots_addSlave (m s : Addr) (c : BusState ν) :
    KeepsSlots c (clusterNodeAddSlave m s c) :=
  KeepsSlots.ite (fun _ => KeepsSlots.refl c) fun _ => KeepsSlots.modInfo c m _ (by intro x; rfl)

theorem keepsSlots_leaveMaster (n : Addr) (c : BusState ν) : KeepsSlots c (leaveMaster n c) := by
  unfold leaveMaster
  split
  · exact KeepsSlots.refl c
  · exact keepsSlots_removeSlave _ _ c

theorem keepsSlots_setNodeAsMaster (n : Addr) (c : BusState ν) :
    KeepsSlots c (clusterSetNodeAsMaster n c) := by
  refine KeepsSlots.ite (fun _ => KeepsSlots.refl c) fun _ => ?_
  refine (keepsSlots_leaveMaster n c).trans ?_
  generalize leaveMaster n c = c
  unfold BusState.lift RedisCluster.clusterSetNodeAsMaster
  split
  · exact KeepsSlots.refl c
  · have h := KeepsSlots.modNode c n (fun x => { x with
      flags := { x.flags with slave := false, master := true }, slaveof := none }) fun _ => rfl
    exact ⟨h.slot, h.name, h.handshake, h.crash⟩

/-- A relation that the steps of `clusterSetMaster` keep holds between its start and its end. -/
theorem setMaster_rel {R : BusState ν → BusState ν → Prop} (trans : ∀ {a b c}, R a b → R b c → R a c)
    (soft : ∀ {a b}, Soft a b → R a b) (flag : ∀ n c, R c (setSlaveFlag n c))
    (leave : ∀ n c, R c (leaveMaster n c))
    (slaveof : ∀ n c, R c (c.modNode c.myself fun x => { x with slaveof := some n }))
    (add : ∀ m s c, R c (clusterNodeAddSlave m s c)) (n : Addr) (c : BusState ν) :
    R c (clusterSetMaster n c) := by
  unfold clusterSetMaster
  dsimp only
  have h1 := soft_redisAssert (n ≠ c.myself) .clusterSetMaster c nofun
  generalize redisAssert (n ≠ c.myself) .clusterSetMaster c = c1 at h1 ⊢
  have h2 := soft (h1.trans
    (soft_redisAssert ((c1.node c1.myself).numslots = 0) .clusterSetMaster c1 nofun))
  generalize redisAssert ((c1.node c1.myself).numslots = 0) .clusterSetMaster c1 = c2 at h2 ⊢
  have h3 : R c2 (if c2.nodeIsMaster c2.myself then
      clusterCloseAllSlots (setSlaveFlag c2.myself c2) else leaveMaster c2.myself c2) := by
    split
    · exact trans (flag _ c2) (soft (soft_closeAllSlots _))
    · exact leave _ c2
  generalize (if c2.nodeIsMaster c2.myself then
      clusterCloseAllSlots (setSlaveFlag c2.myself c2) else leaveMaster c2.myself c2) = c3 at h3 ⊢
  have h4 := trans (trans h2 h3) (slaveof n c3)
  exact trans (trans h4 (add n _ _)) (soft (soft_resetManualFailover _))

theorem keepsSlots_setMaster (n : Addr) (c : BusState ν) : KeepsSlots c (clusterSetMaster n c) :=
  setMaster_rel (R := KeepsSlots) KeepsSlots.trans (fun h => h.keepsSlots)
    (fun _ c => KeepsSlots.modNode c _ _ (by intro x; rfl))
    keepsSlots_leaveMaster (fun _ c => KeepsSlots.modNode c _ _ fun _ => rfl) keepsSlots_addSlave n c

theorem keepsSlots_changeMaster (s m : Addr) (c : BusState ν) :
    KeepsSlots c (changeMaster s m c) := by
  refine KeepsSlots.ite (fun _ => ?_) fun _ => KeepsSlots.refl c
  have h := (keepsSlots_leaveMaster s c).trans (keepsSlots_addSlave m s _)
  exact (h.trans (KeepsSlots.modNode _ s _ (by intro x; rfl))).trans (soft_todo _ _).keepsSlots

theorem keepsSlots_lift (c : BusState ν) (f : ClusterState Addr → ClusterState Addr)
    (h : ∀ s, ((f s).nodes, (f s).myself, (f s).slots, (f s).node) =
      (s.nodes, s.myself, s.slots, s.node)) : KeepsSlots c (c.lift f) := by
  simp only [Prod.mk.injEq] at h
  obtain ⟨h1, h2, h3, h4⟩ := h c.toClusterState
  refine ⟨?_, fun _ => rfl, fun n => ?_, id⟩
  · simp only [slotView, BusState.lift, h1, h2, h3, h4]
  · simp only [ClusterState.nodeInHandshake, BusState.lift, h4]

theorem keepsSlots_updateEpochs (n : Addr) (hdr : ClusterMsg Addr) (c : BusState ν) :
    KeepsSlots c (c.lift (updateEpochs n hdr)) := by
  have h1 : KeepsSlots c (c.lift (raiseEpoch hdr)) := by
    refine keepsSlots_lift c _ fun x => ?_
    unfold raiseEpoch
    split <;> rfl
  rw [lift_updateEpochs]
  refine KeepsSlots.ite (fun _ => ?_) fun _ => h1
  exact (h1.trans (KeepsSlots.modNode _ n _ (by intro x; rfl))).trans
    (keepsSlots_lift _ _ (by intro x; rfl))

theorem keepsSlots_processHeader [DecidableEq ν] (env : BusEnv ν) (s : Addr) (hdr : BusMsg ν)
    (c : BusState ν) : KeepsSlots c (processHeader env s hdr c) := by
  refine KeepsSlots.ite (fun _ => KeepsSlots.refl c) fun _ => ?_
  have h := (keepsSlots_updateEpochs s (hdr.request s) c).trans
    (KeepsSlots.modInfo _ s (fun x =>
      { x with repl_offset := hdr.offset, repl_offset_time := env.mstime }) fun _ => rfl)
  exact KeepsSlots.ite (fun _ => ⟨h.slot, h.name, h.handshake, h.crash⟩) fun _ => h

theorem keepsSlots_collision [LinearOrder ν] (s : Addr) (c : BusState ν) :
    KeepsSlots c (clusterHandleConfigEpochCollision s c) := by
  refine KeepsSlots.ite (fun _ => KeepsSlots.refl c) fun _ =>
    KeepsSlots.ite (fun _ => KeepsSlots.refl c) fun _ => ?_
  have h := keepsSlots_lift c (fun s => { s with currentEpoch := (c.currentEpoch + 1) % 2 ^ 64 })
    fun _ => rfl
  exact (h.trans (KeepsSlots.modNode _ _ _ (by intro x; rfl))).trans (soft_saveConfig _).keepsSlots

theorem keepsSlots_importEpoch (c : BusState ν) : KeepsSlots c (importEpoch c) := by
  refine KeepsSlots.ite (fun _ => ?_) fun _ => KeepsSlots.refl c
  have h := keepsSlots_lift c (fun s => { s with currentEpoch := (c.currentEpoch + 1) % 2 ^ 64 })
    fun _ => rfl
  exact (h.trans (KeepsSlots.modNode _ _ _ (by intro x; rfl))).trans (soft_todo _ _).keepsSlots

theorem TableOk.soft {c c' : BusState ν} (h : TableOk c) (hs : Soft c c') : TableOk c' :=
  hs.keepsSlots.tableOk h

theorem TableOk.grows [DecidableEq ν] {P : ν → Prop} {c c' : BusState ν} (h : TableOk c)
    (hg : Grows P c c') : TableOk c' := by
  induction hg with
  | mild hs => exact hs.keepsSlots.tableOk h
  | @create c a name f env meet ha hlook hP hf =>
    have hdict := h.toDictOk.create env meet ha hlook hP hf
    obtain ⟨hslots, -⟩ := (Grows.create env meet ha hlook hP hf).rest
    have hcrash : (addFreshNode env a name meet f c).crashed = c.crashed := by
      unfold addFreshNode clusterAddNode
      split <;> rfl
    obtain ⟨hnodes, hself, hother⟩ := addFreshNode_spec env meet hlook ha hf
    generalize addFreshNode env a name meet f c = c' at hdict hslots hcrash hnodes hself hother
    have hne : ∀ n ∈ c.nodes, n ≠ a := fun n hn he => ha (he ▸ hn)
    have hbits : (c'.node a).slots = ∅ := congrArg NodeView.slots hself
    refine ⟨⟨fun j n => ?_, fun j n hj => ?_, fun n hn => ?_⟩, hdict, hcrash ▸ h.alive⟩
    · rw [hslots, hnodes, h.owner]
      by_cases hna : n = a
      · rw [hna, hbits]
        simp [ha]
      · have hb : (c'.node n).slots = (c.node n).slots := congrArg NodeView.slots (hother n hna)
        rw [hb]
        simp [hna]
    · rw [hslots] at hj
      exact h.range j n hj
    · rw [hnodes] at hn
      rcases List.mem_cons.mp hn with rfl | hn
      · have hz : (c'.node n).numslots = 0 := congrArg NodeView.numslots hself
        rw [hz, hbits]
        rfl
      · have hb : (c'.node n).slots = (c.node n).slots :=
          congrArg NodeView.slots (hother n (hne n hn))
        have hk : (c'.node n).numslots = (c.node n).numslots :=
          congrArg NodeView.numslots (hother n (hne n hn))
        rw [hb, hk]
        exact h.count n hn
  | trans _ _ ih1 ih2 => exact ih2 (ih1 h)

/-- A step of the slot table that keeps the dict. -/
structure SlotStep (c c' : BusState ν) : Prop extends KeepsDict c c' where
  table : TableOk c → TableOk c'

namespace SlotStep

variable {a b c c' : BusState ν}

theorem refl (c : BusState ν) : SlotStep c c := ⟨KeepsDict.refl c, id⟩

theorem trans (h1 : SlotStep a b) (h2 : SlotStep b c) : SlotStep a c :=
  ⟨h1.toKeepsDict.trans h2.toKeepsDict, fun h => h2.table (h1.table h)⟩

theorem ite {p : Prop} [Decidable p] {x y : BusState ν} (hx : p → SlotStep c x)
    (hy : ¬ p → SlotStep c y) : SlotStep c (if p then x else y) := by
  split
  · exact hx ‹_›
  · exact hy ‹_›

theorem foldl {α : Type} {f : BusState ν → α → BusState ν} {as : List α}
    (h : ∀ x, ∀ a ∈ as, SlotStep c x → SlotStep x (f x a)) : SlotStep c (as.foldl f c) := by
  suffices hfold : ∀ (bs : List α) (x : BusState ν), (∀ b ∈ bs, b ∈ as) → SlotStep c x →
      SlotStep c (bs.foldl f x) from hfold as c (fun _ hb => hb) (refl c)
  intro bs
  induction bs with
  | nil => exact fun x _ hx => hx
  | cons b bs ih =>
    intro x hb hx
    exact ih _ (fun y hy => hb y (List.mem_cons_of_mem _ hy))
      (hx.trans (h x b (hb b List.mem_cons_self) hx))

end SlotStep

theorem KeepsSlots.step {c c' : BusState ν} (h : KeepsSlots c c') : SlotStep c c' :=
  ⟨⟨h.nodes, h.myself, h.name, h.handshake⟩, h.tableOk⟩

theorem Soft.slotStep {c c' : BusState ν} (h : Soft c c') : SlotStep c c' := h.keepsSlots.step

theorem addSlot_spec {n : Addr} {j : Nat} {c : BusState ν} (hfree : c.slots j = none) :
    (clusterAddSlot n j c).slots = Function.update c.slots j (some n) ∧
      ∀ m, ((clusterAddSlot n j c).node m).slots =
          (if m = n then insert j (c.node n).slots else (c.node m).slots) ∧
        ((clusterAddSlot n j c).node m).numslots =
          (if m = n ∧ j ∉ (c.node n).slots then (c.node m).numslots + 1
            else (c.node m).numslots) ∧
        (clusterAddSlot n j c).nodeInHandshake m = c.nodeInHandshake m := by
  have heq : (clusterAddSlot n j c).toClusterState =
      RedisCluster.clusterAddSlot n j c.toClusterState := rfl
  have hif : ¬ (c.slots j).isSome = true := by simp [hfree]
  rw [heq, RedisCluster.clusterAddSlot, if_neg hif]
  refine ⟨rfl, fun m => ?_⟩
  by_cases hm : m = n
  · rw [hm]
    by_cases hj : j ∈ (c.node n).slots <;>
      simp [ClusterState.setNode, ClusterState.nodeInHandshake, hj]
  · simp [ClusterState.setNode, ClusterState.nodeInHandshake, hm]

theorem slotStep_addSlot {n : Addr} {j : Nat} {c : BusState ν} (hn : n ∈ c.nodes)
    (hj : j < REDIS_CLUSTER_SLOTS) : SlotStep c (clusterAddSlot n j c) := by
  by_cases hfree : c.slots j = none
  case neg =>
    have hsame : clusterAddSlot n j c = c := by
      obtain ⟨m, hm⟩ := Option.ne_none_iff_exists'.mp hfree
      unfold clusterAddSlot BusState.lift RedisCluster.clusterAddSlot
      rw [if_pos (by rw [hm]; rfl)]
    rw [hsame]
    exact SlotStep.refl c
  have hdict := (onlySlots_addSlot n j c).keepsDict
  have hnodes := hdict.nodes
  obtain ⟨hslots, hnode⟩ := addSlot_spec (n := n) hfree
  refine ⟨hdict, fun h => ?_⟩
  have hnot : ∀ m ∈ c.nodes, j ∉ (c.node m).slots := by
    intro m hm hjm
    have := (h.owner j m).mpr ⟨hm, hjm⟩
    rw [hfree] at this
    cases this
  refine ⟨⟨fun i m => ?_, fun i m hi => ?_, fun m hm => ?_⟩, hdict.dictOk h.toDictOk, h.alive⟩
  · rw [hslots, hnodes, (hnode m).1]
    by_cases hij : i = j
    · rw [hij, Function.update_self]
      constructor
      · intro he
        rw [← Option.some.inj he, if_pos rfl]
        exact ⟨hn, Finset.mem_insert_self _ _⟩
      · rintro ⟨hm, hjm⟩
        by_cases hmn : m = n
        · rw [hmn]
        · rw [if_neg hmn] at hjm
          exact absurd hjm (hnot m hm)
    · rw [Function.update_of_ne hij, h.owner]
      by_cases hmn : m = n
      · rw [if_pos hmn, hmn]
        simp [hij]
      · rw [if_neg hmn]
  · rw [hslots] at hi
    by_cases hij : i = j
    · rw [hij]
      exact hj
    · rw [Function.update_of_ne hij] at hi
      exact h.range i m hi
  · rw [hnodes] at hm
    rw [(hnode m).1, (hnode m).2.1]
    by_cases hmn : m = n
    · rw [if_pos ⟨hmn, hnot n hn⟩, if_pos hmn, hmn,
        Finset.card_insert_of_notMem (hnot n hn), h.count n hn]
    · rw [if_neg fun hand => hmn hand.1, if_neg hmn]
      exact h.count m hm

theorem delSlot_base (j : Nat) (c : BusState ν) :
    (clusterDelSlot j c).toClusterState = RedisCluster.clusterDelSlot j c.toClusterState := by
  unfold clusterDelSlot redisAssert
  split <;> rfl

theorem delSlot_slots (j : Nat) (c : BusState ν) :
    (clusterDelSlot j c).slots = Function.update c.slots j none := by
  rw [delSlot_base]
  unfold RedisCluster.clusterDelSlot
  split
  · rename_i hnone
    rw [← hnone]
    exact (Function.update_eq_self j _).symm
  · rfl

theorem delSlot_spec {n : Addr} {j : Nat} {c : BusState ν} (hj : c.slots j = some n)
    (hbit : j ∈ (c.node n).slots) :
    (clusterDelSlot j c).slots = Function.update c.slots j none ∧
      (clusterDelSlot j c).crashed = c.crashed ∧
      ∀ m, ((clusterDelSlot j c).node m).slots =
          (if m = n then (c.node n).slots.erase j else (c.node m).slots) ∧
        ((clusterDelSlot j c).node m).numslots =
          (if m = n then (c.node m).numslots - 1 else (c.node m).numslots) ∧
        (clusterDelSlot j c).nodeInHandshake m = c.nodeInHandshake m := by
  have hassert : slotBitSet c j = true := by
    unfold slotBitSet
    rw [hj]
    exact decide_eq_true hbit
  have heq : clusterDelSlot j c = c.lift (RedisCluster.clusterDelSlot j) := by
    unfold clusterDelSlot redisAssert
    rw [if_pos hassert]
  rw [heq]
  unfold BusState.lift RedisCluster.clusterDelSlot
  rw [hj]
  refine ⟨rfl, rfl, fun m => ?_⟩
  by_cases hm : m = n
  · simp [hm, ClusterState.setNode, ClusterState.nodeInHandshake, hbit]
  · simp [ClusterState.setNode, ClusterState.nodeInHandshake, hm]

theorem slotStep_delSlot (j : Nat) (c : BusState ν) : SlotStep c (clusterDelSlot j c) := by
  have honly := onlySlots_delSlot j c
  have hdict := honly.keepsDict
  have hnodes := honly.nodes
  refine ⟨hdict, fun h => ?_⟩
  cases hown : c.slots j with
  | none =>
    have hsame : clusterDelSlot j c = c := by
      unfold clusterDelSlot BusState.lift RedisCluster.clusterDelSlot redisAssert slotBitSet
      simp [hown]
    rw [hsame]
    exact h
  | some n =>
    obtain ⟨hmem, hbit⟩ := (h.owner j n).mp hown
    obtain ⟨hslots, hcrash, hnode⟩ := delSlot_spec hown hbit
    have hnot : ∀ m ∈ c.nodes, m ≠ n → j ∉ (c.node m).slots :=
      fun m hm hne hjm => hne (h.owner_unique hm hmem hjm hbit)
    refine ⟨⟨fun i m => ?_, fun i m hi => ?_, fun m hm => ?_⟩, hdict.dictOk h.toDictOk, ?_⟩
    · rw [hslots, hnodes, (hnode m).1]
      by_cases hij : i = j
      · rw [hij, Function.update_self]
        by_cases hmn : m = n
        · simp [hmn]
        · rw [if_neg hmn]
          simp only [reduceCtorEq, false_iff, not_and]
          exact fun hm => hnot m hm hmn
      · rw [Function.update_of_ne hij, h.owner]
        by_cases hmn : m = n
        · simp [hmn, hij]
        · rw [if_neg hmn]
    · rw [hslots] at hi
      by_cases hij : i = j
      · rw [hij, Function.update_self] at hi
        cases hi
      · rw [Function.update_of_ne hij] at hi
        exact h.range i m hi
    · rw [hnodes] at hm
      rw [(hnode m).1, (hnode m).2.1]
      by_cases hmn : m = n
      · rw [if_pos hmn, if_pos hmn, hmn, Finset.card_erase_of_mem hbit, h.count n hmem]
      · rw [if_neg hmn, if_neg hmn]
        exact h.count m hm
    · rw [hcrash]
      exact h.alive

end RedisCluster.Bus
