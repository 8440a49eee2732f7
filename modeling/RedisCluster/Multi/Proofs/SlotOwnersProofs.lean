import RedisCluster.Cluster.Proofs.SlotCommandProofs
import RedisCluster.Multi.Proofs.HashSlotProofs
import RedisCluster.Multi.SlotOwners

/-!
# Proofs: the owner of a slot within one iteration

What a CLUSTER command does to the owners is what `unownedAfter` says of it (`command_owners`), so the
history is right after every request (`told_iterate`), and the cluster state is the same all along
(`iterate_ok`). `getNodeByQuery` finds an owner exactly where the history has one.
-/

namespace RedisCluster.Bus

variable {ν : Type}

/-! ## Loops over slots -/

theorem foldl_takes {f : BusState ν → Nat → BusState ν} {p : BusState ν → Nat → Prop}
    (hstep : ∀ c j s, (f c j).slots s = none ↔ c.slots s = none ∨ s = j ∧ p c s)
    (hkeep : ∀ c j s, (f c j).slots s ≠ none → (p (f c j) s ↔ p c s)) (js : List Nat)
    (c : BusState ν) (s : Nat) :
    (js.foldl f c).slots s = none ↔ c.slots s = none ∨ s ∈ js ∧ p c s := by
  induction js generalizing c with
  | nil => simp
  | cons j js ih =>
    rw [List.foldl_cons, ih, hstep, List.mem_cons]
    by_cases hnone : c.slots s = none ∨ s = j ∧ p c s
    · have hright : c.slots s = none ∨ (s = j ∨ s ∈ js) ∧ p c s :=
        hnone.imp_right fun h => ⟨Or.inl h.1, h.2⟩
      exact iff_of_true (Or.inl hnone) hright
    · have hsame := hkeep c j s fun h => hnone ((hstep c j s).mp h)
      rw [hsame]
      constructor
      · rintro (h | ⟨hmem, hhit⟩)
        · exact h.imp_right fun h => ⟨Or.inl h.1, h.2⟩
        · exact Or.inr ⟨Or.inr hmem, hhit⟩
      · rintro (h | ⟨rfl | hmem, hhit⟩)
        · exact Or.inl (Or.inl h)
        · exact Or.inl (Or.inr ⟨rfl, hhit⟩)
        · exact Or.inr ⟨hmem, hhit⟩

theorem foldl_gives {f : BusState ν → Nat → BusState ν} {p : Nat → Prop}
    (hstep : ∀ c j s, (f c j).slots s = none ↔ c.slots s = none ∧ ¬ (s = j ∧ p s)) (js : List Nat)
    (c : BusState ν) (s : Nat) :
    (js.foldl f c).slots s = none ↔ c.slots s = none ∧ ¬ (s ∈ js ∧ p s) := by
  induction js generalizing c with
  | nil => simp
  | cons j js ih =>
    rw [List.foldl_cons, ih, hstep, List.mem_cons]
    constructor
    · rintro ⟨⟨hnone, hj⟩, hjs⟩
      exact ⟨hnone, fun ⟨hmem, hhit⟩ => hmem.elim (fun h => hj ⟨h, hhit⟩) fun h => hjs ⟨h, hhit⟩⟩
    · rintro ⟨hnone, hnot⟩
      exact ⟨⟨hnone, fun h => hnot ⟨Or.inl h.1, h.2⟩⟩, fun h => hnot ⟨Or.inr h.1, h.2⟩⟩

theorem update_none_iff (t : Nat → Option Addr) (j s : Nat) :
    Function.update t j none s = none ↔ t s = none ∨ s = j := by
  by_cases h : s = j
  · simp [h]
  · simp [h]

theorem delSlot_none (j s : Nat) (c : BusState ν) :
    (clusterDelSlot j c).slots s = none ↔ c.slots s = none ∨ s = j := by
  rw [delSlot_slots, update_none_iff]

theorem addSlot_none (n : Addr) (j s : Nat) (c : BusState ν) :
    (clusterAddSlot n j c).slots s = none ↔ c.slots s = none ∧ s ≠ j := by
  by_cases hfree : c.slots j = none
  · rw [(addSlot_spec hfree).1]
    by_cases h : s = j
    · simp [h]
    · simp [h]
  · obtain ⟨m, hm⟩ := Option.ne_none_iff_exists'.mp hfree
    have hsame : clusterAddSlot n j c = c := by
      unfold clusterAddSlot BusState.lift RedisCluster.clusterAddSlot
      rw [if_pos (by rw [hm]; rfl)]
    rw [hsame]
    refine ⟨fun h => ⟨h, ?_⟩, And.left⟩
    rintro rfl
    exact hfree h

theorem delSlot_bit {j s : Nat} (hne : s ≠ j) (n : Addr) (c : BusState ν) :
    s ∈ ((clusterDelSlot j c).node n).slots ↔ s ∈ (c.node n).slots := by
  rw [delSlot_base]
  unfold RedisCluster.clusterDelSlot
  split
  · rfl
  · rename_i m _
    by_cases hn : n = m
    · subst hn
      simp [ClusterState.setNode, hne]
    · simp [ClusterState.setNode, hn]

theorem delNodeSlots_none (n : Addr) {s : Nat} (hs : s < REDIS_CLUSTER_SLOTS) (c : BusState ν) :
    (clusterDelNodeSlots n c).slots s = none ↔ c.slots s = none ∨ s ∈ (c.node n).slots := by
  have hmem : s ∈ List.range REDIS_CLUSTER_SLOTS := List.mem_range.mpr hs
  rw [clusterDelNodeSlots]
  generalize List.range REDIS_CLUSTER_SLOTS = js at hmem ⊢
  refine (foldl_takes (p := fun c s => s ∈ (c.node n).slots) ?_ ?_ js c s).trans ?_
  · intro c j s
    split
    · rename_i hbit
      rw [delSlot_none]
      refine or_congr_right ⟨?_, And.left⟩
      rintro rfl
      exact ⟨rfl, hbit⟩
    · rename_i hbit
      refine ⟨Or.inl, ?_⟩
      rintro (h | ⟨rfl, hhit⟩)
      · exact h
      · exact absurd hhit hbit
  · intro c j s hsome
    split at hsome
    · rename_i hbit
      rw [if_pos hbit]
      exact delSlot_bit (fun h => hsome ((delSlot_none j s c).mpr (Or.inr h))) n c
    · rename_i hbit
      rw [if_neg hbit]
  · exact or_congr_right (and_iff_right hmem)

theorem redisAssert_slots (cond : Bool) (what : Crash) (c : BusState ν) :
    (redisAssert cond what c).slots = c.slots := by
  unfold redisAssert
  split <;> rfl

theorem addDelSlot_del (slots : List Nat) (c : BusState ν) (j s : Nat) :
    (addDelSlot true slots c j).slots s = none ↔ c.slots s = none ∨ s = j ∧ s ∈ slots := by
  unfold addDelSlot
  split
  · rename_i hmem
    have hbase := redisAssert_slots (c.slots j).isSome .clusterCommandSlots
      { c with importing_slots_from := Function.update c.importing_slots_from j none }
    have hdel := delSlot_none j s (redisAssert (c.slots j).isSome .clusterCommandSlots
      { c with importing_slots_from := Function.update c.importing_slots_from j none })
    rw [hbase] at hdel
    refine hdel.trans (or_congr_right ⟨?_, And.left⟩)
    rintro rfl
    exact ⟨rfl, hmem⟩
  · rename_i hmem
    refine ⟨Or.inl, ?_⟩
    rintro (h | ⟨rfl, hs⟩)
    · exact h
    · exact absurd hs hmem

theorem addDelSlot_add (slots : List Nat) (c : BusState ν) (j s : Nat) :
    (addDelSlot false slots c j).slots s = none ↔ c.slots s = none ∧ ¬ (s = j ∧ s ∈ slots) := by
  unfold addDelSlot
  split
  · rename_i hmem
    have hbase := redisAssert_slots (c.slots j).isNone .clusterCommandSlots
      { c with importing_slots_from := Function.update c.importing_slots_from j none }
    have hadd := addSlot_none (redisAssert (c.slots j).isNone .clusterCommandSlots
        { c with importing_slots_from := Function.update c.importing_slots_from j none }).myself j s
      (redisAssert (c.slots j).isNone .clusterCommandSlots
        { c with importing_slots_from := Function.update c.importing_slots_from j none })
    rw [hbase] at hadd
    refine hadd.trans (and_congr_right fun _ => not_congr ⟨?_, And.left⟩)
    rintro rfl
    exact ⟨rfl, hmem⟩
  · rename_i hmem
    refine ⟨fun h => ⟨h, ?_⟩, And.left⟩
    rintro ⟨rfl, hs⟩
    exact hmem hs

/-! ## Nodes -/

theorem unassignSlots_none (n : Addr) (js : List Nat) (c : BusState ν) (s : Nat) :
    (js.foldl (unassignSlot n) c).slots s = none ↔
      c.slots s = none ∨ s ∈ js ∧ c.slots s = some n := by
  refine foldl_takes (p := fun c s => c.slots s = some n) ?_ ?_ js c s
  · intro c j s
    rw [unassignSlot_value]
    split
    · rename_i hj
      rw [update_none_iff]
      refine or_congr_right ⟨?_, And.left⟩
      rintro rfl
      exact ⟨rfl, hj⟩
    · rename_i hj
      refine ⟨Or.inl, ?_⟩
      rintro (h | ⟨rfl, hhit⟩)
      · exact h
      · exact absurd hhit hj
  · intro c j s hsome
    rw [unassignSlot_value] at hsome ⊢
    split at hsome
    · rename_i hj
      have hne : s ≠ j := fun h => hsome ((update_none_iff c.slots j s).mpr (Or.inr h))
      rw [if_pos hj, Function.update_of_ne hne]
    · rename_i hj
      rw [if_neg hj]

section Nodes

variable [LinearOrder ν] (cfg : BusConfig) (env : BusEnv ν)

theorem addNode_slots (n : Addr) (c : BusState ν) : (clusterAddNode n c).slots = c.slots := by
  unfold clusterAddNode
  split <;> rfl

theorem dictDeleteNode_slots (name : ν) (c : BusState ν) :
    (dictDeleteNode name c).slots = c.slots := by
  unfold dictDeleteNode
  split <;> rfl

theorem freeNode_slots (n : Addr) (c : BusState ν) : (freeClusterNode n c).slots = c.slots := by
  have hdict : (dictDeleteOrDie (c.info n).name .freeClusterNode c).slots = c.slots := by
    rw [dictDeleteOrDie, dictDeleteNode_slots, redisAssert_slots]
  have hleave := (keepsSlots_leaveMaster n (dictDeleteOrDie (c.info n).name .freeClusterNode c)).slots
  unfold freeClusterNode
  exact hleave.trans hdict

theorem delNode_none (n : Addr) {s : Nat} (hs : s < REDIS_CLUSTER_SLOTS) (c : BusState ν) :
    (clusterDelNode cfg env n c).slots s = none ↔ c.slots s = none ∨ c.slots s = some n := by
  have hloop : ((List.range REDIS_CLUSTER_SLOTS).foldl (unassignSlot n) c).slots s = none ↔
      c.slots s = none ∨ c.slots s = some n :=
    (unassignSlots_none n _ c s).trans (or_congr_right (and_iff_right (List.mem_range.mpr hs)))
  unfold clusterDelNode
  dsimp only
  rw [freeNode_slots]
  generalize (List.range REDIS_CLUSTER_SLOTS).foldl (unassignSlot n) c = d at hloop ⊢
  have hreports := (mild_delReports cfg env n d.nodes d).keepsSlots
  generalize d.nodes.foldl (fun c m =>
      if m = n then c else clusterNodeDelFailureReport cfg env m n c) d = e at hreports ⊢
  have hleave : KeepsSlots d (if e.nodeIsSlave n then leaveMaster n e else e) :=
    KeepsSlots.ite (fun _ => hreports.trans (keepsSlots_leaveMaster n e)) fun _ => hreports
  rw [hleave.slots, hloop]

theorem resetNodes_none {s : Nat} (hs : s < REDIS_CLUSTER_SLOTS) (ns : List Addr) {c : BusState ν}
    (h : c.slots s = none) : (ns.foldl (resetNode cfg env) c).slots s = none := by
  induction ns generalizing c with
  | nil => exact h
  | cons n ns ih =>
    refine ih ?_
    unfold resetNode
    split
    · exact h
    · exact (delNode_none cfg env n hs c).mpr (Or.inl h)

omit [LinearOrder ν] in
theorem resetSlots_none {s : Nat} (hs : s < REDIS_CLUSTER_SLOTS) (c : BusState ν) :
    (resetSlots c).slots s = none := by
  have hmem : s ∈ List.range REDIS_CLUSTER_SLOTS := List.mem_range.mpr hs
  rw [resetSlots]
  generalize List.range REDIS_CLUSTER_SLOTS = js at hmem ⊢
  generalize resetManualFailover _ = d
  refine (foldl_takes (f := fun c j => clusterDelSlot j c) (p := fun _ _ => True) ?_
    (fun _ _ _ _ => Iff.rfl) js d s).mpr (Or.inr ⟨hmem, trivial⟩)
  intro c j s
  rw [delSlot_none, and_true]

end Nodes

/-! ## The cluster state -/

theorem foldl_ok {α : Type} {f : BusState ν → α → BusState ν} (hf : ∀ c a, (f c a).ok = c.ok)
    (as : List α) (c : BusState ν) : (as.foldl f c).ok = c.ok := by
  induction as generalizing c with
  | nil => rfl
  | cons a as ih => rw [List.foldl_cons, ih, hf]

theorem ite_ok {p : Prop} [Decidable p] {x y : BusState ν} {b : Bool} (hx : x.ok = b)
    (hy : y.ok = b) : (if p then x else y).ok = b := by
  split
  · exact hx
  · exact hy

theorem redisAssert_ok (cond : Bool) (what : Crash) (c : BusState ν) :
    (redisAssert cond what c).ok = c.ok := ite_ok rfl rfl

theorem delSlot_ok (j : Nat) (c : BusState ν) : (clusterDelSlot j c).ok = c.ok :=
  redisAssert_ok (slotBitSet c j) .clusterDelSlot c

theorem delSlots_ok (c : BusState ν) (j : Nat) : (clusterDelSlot j c).ok = c.ok := delSlot_ok j c

theorem delNodeSlots_ok (n : Addr) (c : BusState ν) : (clusterDelNodeSlots n c).ok = c.ok := by
  rw [clusterDelNodeSlots]
  exact foldl_ok (fun c j => ite_ok (delSlot_ok j c) rfl) _ c

theorem addDelSlot_ok (del : Bool) (slots : List Nat) (c : BusState ν) (j : Nat) :
    (addDelSlot del slots c j).ok = c.ok := by
  rw [addDelSlot]
  refine ite_ok (ite_ok ?_ ?_) rfl
  · rw [delSlot_ok, redisAssert_ok]
  · exact redisAssert_ok _ _ _

theorem todo_ok (flags : TodoFlags) (c : BusState ν) : (clusterDoBeforeSleep flags c).ok = c.ok := rfl

theorem addDelSlots_ok (del : Bool) (args : List Int) (c : BusState ν) :
    (clusterAddDelSlots del args c).1.ok = c.ok := by
  rw [clusterAddDelSlots]
  generalize List.range REDIS_CLUSTER_SLOTS = js
  split
  · rfl
  · rw [todo_ok]
    exact foldl_ok (addDelSlot_ok del _) js c

theorem importEpoch_ok (c : BusState ν) : (importEpoch c).ok = c.ok := by
  unfold importEpoch
  exact ite_ok rfl rfl

theorem setslotNode_ok (env : BusEnv ν) (slot : Nat) (n : Addr) (c : BusState ν) :
    (setslotNode env slot n c).ok = c.ok := by
  have hadd : ∀ d : BusState ν, (clusterAddSlot n slot d).ok = d.ok := fun _ => rfl
  rw [setslotNode, hadd, delSlot_ok]
  refine ite_ok ?_ ?_
  · exact (importEpoch_ok _).trans (ite_ok rfl rfl)
  · exact ite_ok rfl rfl

theorem setslot_ok [LinearOrder ν] (env : BusEnv ν) (arg : Int) (action : SetslotAction ν)
    (c : BusState ν) :
    (clusterSetslot env arg action c).1.ok = c.ok := by
  unfold clusterSetslot
  split
  · rfl
  · cases action with
    | migrating name =>
      dsimp only
      split
      · rfl
      · split <;> rfl
    | importing name =>
      dsimp only
      split
      · rfl
      · split <;> rfl
    | stable => rfl
    | node name =>
      dsimp only
      split
      · rfl
      · split
        · rfl
        · exact setslotNode_ok env _ _ c

theorem removeSlave_ok (m s : Addr) (c : BusState ν) : (clusterNodeRemoveSlave m s c).ok = c.ok := by
  unfold clusterNodeRemoveSlave
  exact ite_ok rfl rfl

theorem leaveMaster_ok (n : Addr) (c : BusState ν) : (leaveMaster n c).ok = c.ok := by
  unfold leaveMaster
  split
  · rfl
  · exact removeSlave_ok _ _ c

theorem unassignSlot_ok (n : Addr) (c : BusState ν) (j : Nat) : (unassignSlot n c j).ok = c.ok := by
  rw [unassignSlot]
  refine ite_ok ?_ ?_
  · rw [delSlot_ok]
    exact ite_ok (ite_ok rfl rfl) (ite_ok rfl rfl)
  · exact ite_ok (ite_ok rfl rfl) (ite_ok rfl rfl)

section Nodes

variable [LinearOrder ν] (cfg : BusConfig) (env : BusEnv ν)

theorem addNode_ok (n : Addr) (c : BusState ν) : (clusterAddNode n c).ok = c.ok := by
  unfold clusterAddNode
  split <;> rfl

theorem dictDeleteNode_ok (name : ν) (c : BusState ν) : (dictDeleteNode name c).ok = c.ok := by
  unfold dictDeleteNode
  split <;> rfl

theorem freeNode_ok (n : Addr) (c : BusState ν) : (freeClusterNode n c).ok = c.ok := by
  have hlink : ∀ d : BusState ν, (freeNodeLink n d).ok = d.ok := fun _ => rfl
  rw [freeClusterNode, hlink, leaveMaster_ok, dictDeleteOrDie, dictDeleteNode_ok, redisAssert_ok]

omit [LinearOrder ν] in
theorem delFailureReport_ok (n sender : Addr) (c : BusState ν) :
    (clusterNodeDelFailureReport cfg env n sender c).ok = c.ok := by
  unfold clusterNodeDelFailureReport
  exact ite_ok rfl rfl

theorem delNode_ok (n : Addr) (c : BusState ν) : (clusterDelNode cfg env n c).ok = c.ok := by
  have hloop := foldl_ok (unassignSlot_ok n) (List.range REDIS_CLUSTER_SLOTS) c
  rw [clusterDelNode, freeNode_ok]
  generalize (List.range REDIS_CLUSTER_SLOTS).foldl (unassignSlot n) c = d at hloop ⊢
  have hreports := foldl_ok (f := fun c m =>
    if m = n then c else clusterNodeDelFailureReport cfg env m n c)
    (fun c m => ite_ok rfl (delFailureReport_ok cfg env m n c)) d.nodes d
  exact ite_ok ((leaveMaster_ok n _).trans (hreports.trans hloop)) (hreports.trans hloop)

theorem startHandshake_ok (ip : String) (port : Int) (c : BusState ν) :
    (clusterStartHandshake env ip port c).1.ok = c.ok := by
  unfold clusterStartHandshake
  split
  · rfl
  · split
    · rfl
    · split
      · rfl
      · exact addNode_ok _ _

theorem forget_ok (name : ν) (c : BusState ν) : (clusterForget cfg env name c).1.ok = c.ok := by
  unfold clusterForget
  split
  · rfl
  · split
    · rfl
    · split
      · rfl
      · rw [todo_ok, delNode_ok]
        rfl

omit [LinearOrder ν] in
theorem setMaster_ok (n : Addr) (c : BusState ν) : (clusterSetMaster n c).ok = c.ok := by
  have hadd : ∀ (m s : Addr) (d : BusState ν),
      (resetManualFailover (clusterNodeAddSlave m s d)).ok = d.ok := fun m s d =>
    ite_ok (x := d) (p := s ∈ d.slavesOf m) rfl rfl
  have hslaveof : ∀ (m : Addr) (d : BusState ν),
      (d.modNode m fun x => { x with slaveof := some n }).ok = d.ok := fun _ _ => rfl
  have hclose : ∀ (m : Addr) (d : BusState ν), (clusterCloseAllSlots (setSlaveFlag m d)).ok = d.ok :=
    fun _ _ => rfl
  rw [clusterSetMaster, hadd, hslaveof]
  refine ite_ok ?_ ?_
  · rw [hclose, redisAssert_ok, redisAssert_ok]
  · rw [leaveMaster_ok, redisAssert_ok, redisAssert_ok]

theorem replicate_ok (name : ν) (c : BusState ν) : (clusterReplicate env name c).1.ok = c.ok := by
  unfold clusterReplicate
  repeat' split
  case h_2.isFalse.isFalse.isFalse =>
    rw [todo_ok]
    exact setMaster_ok _ c
  all_goals rfl

omit [LinearOrder ν] in
theorem failover_ok (force : Bool) (c : BusState ν) :
    (clusterFailover cfg env force c).1.ok = c.ok := by
  have hsend : ∀ (m : Addr) (d : BusState ν), (clusterSendTo cfg env m .mfstart d).ok = d.ok :=
    fun m d => ite_ok (p := (d.node m).link = true) rfl rfl
  unfold clusterFailover
  split
  · rfl
  · dsimp only
    split
    · rfl
    · split
      · rfl
      · split
        · rfl
        · exact hsend _ _

omit [LinearOrder ν] in
theorem setConfigEpoch_ok (epoch : Int) (c : BusState ν) :
    (clusterSetConfigEpoch epoch c).1.ok = c.ok := by
  unfold clusterSetConfigEpoch
  repeat' split
  all_goals rfl

omit [LinearOrder ν] in
theorem setNodeAsMaster_ok (n : Addr) (c : BusState ν) : (clusterSetNodeAsMaster n c).ok = c.ok := by
  unfold clusterSetNodeAsMaster
  exact ite_ok rfl (leaveMaster_ok n c)

theorem resetIdentity_ok (c : BusState ν) : (resetIdentity env c).ok = c.ok := by
  unfold resetIdentity
  dsimp only
  rw [addNode_ok]
  exact dictDeleteNode_ok _ _

theorem reset_ok (hard : Bool) (c : BusState ν) : (clusterReset cfg env hard c).ok = c.ok := by
  have hclose : ∀ d : BusState ν, (resetManualFailover (clusterCloseAllSlots d)).ok = d.ok :=
    fun _ => rfl
  have hslots : (resetSlots c).ok = c.ok := by
    rw [resetSlots, foldl_ok delSlots_ok, hclose]
    exact ite_ok (setNodeAsMaster_ok _ c) rfl
  have hnodes := foldl_ok (f := resetNode cfg env)
    (fun c n => ite_ok (p := n = c.myself) rfl (delNode_ok cfg env n c)) (resetSlots c).nodes (resetSlots c)
  rw [clusterReset, todo_ok]
  generalize (resetSlots c).nodes.foldl (resetNode cfg env) (resetSlots c) = d at hnodes ⊢
  exact ite_ok ((resetIdentity_ok env d).trans (hnodes.trans hslots)) (hnodes.trans hslots)

theorem command_ok (cmd : Command ν) (c : BusState ν) : (clusterCommand cfg env cmd c).1.ok = c.ok := by
  cases cmd with
  | meet ip port => exact startHandshake_ok env ip port c
  | flushslots =>
    rw [clusterCommand]
    split
    · rfl
    · rw [todo_ok, delNodeSlots_ok]
  | addslots slots => exact addDelSlots_ok false slots c
  | delslots slots => exact addDelSlots_ok true slots c
  | setslotMigrating slot name => exact setslot_ok env slot (.migrating name) c
  | setslotImporting slot name => exact setslot_ok env slot (.importing name) c
  | setslotStable slot => exact setslot_ok env slot .stable c
  | setslotNode slot name => exact setslot_ok env slot (.node name) c
  | forget name => exact forget_ok cfg env name c
  | replicate name => exact replicate_ok env name c
  | failover force => exact failover_ok cfg env force c
  | setConfigEpoch epoch => exact setConfigEpoch_ok epoch c
  | reset hard =>
    rw [clusterCommand]
    split
    · rfl
    · exact reset_ok cfg env hard c

end Nodes

end RedisCluster.Bus

namespace RedisCluster.Multi

open RedisCluster.Bus RedisCluster.Lib

variable {δ ν : Type}

/-! ## Commands -/

/-- The owner of a slot after a command: what an accepted command gives and takes, and no change for
one that is refused. -/
def Owners (c : BusState ν) (r : BusState ν × Bus.Reply ν) (slot : Nat) (gives takes : Bool) : Prop :=
  r.1.slots slot = none ↔
    if accepted r.2 then c.slots slot = none ∧ gives = false ∨ takes = true
    else c.slots slot = none

theorem Owners.refused {c : BusState ν} {e : Bus.Reply ν} (he : accepted e = false) (slot : Nat)
    (gives takes : Bool) : Owners c (c, e) slot gives takes := by
  unfold Owners
  rw [he]
  exact Iff.rfl

theorem Owners.kept {c : BusState ν} {r : BusState ν × Bus.Reply ν} (h : r.1.slots = c.slots)
    (slot : Nat) : Owners c r slot false false := by
  unfold Owners
  rw [h]
  split
  · simp
  · rfl

theorem todo_slots (flags : TodoFlags) (c : BusState ν) :
    (clusterDoBeforeSleep flags c).slots = c.slots := rfl

theorem getSlotOrReply_eq {arg : Int} {slot : Nat} (h : getSlotOrReply arg = some slot) :
    (slot : Int) = arg := by
  unfold getSlotOrReply at h
  split at h
  · cases h
  · have hnat := Option.some.inj h
    omega

theorem mem_checkSlotArgs {del : Bool} {c : BusState ν} {args : List Int} {seen slots : List Nat}
    (h : checkSlotArgs del c args seen = .ok slots) (s : Nat) :
    s ∈ slots ↔ (s : Int) ∈ args ∨ s ∈ seen := by
  induction args generalizing seen with
  | nil =>
    obtain rfl := Except.ok.inj h
    simp
  | cons arg args ih =>
    unfold checkSlotArgs at h
    split at h
    · cases h
    · rename_i slot hslot
      have harg := getSlotOrReply_eq hslot
      split at h
      · cases h
      · split at h
        · cases h
        · split at h
          · cases h
          · have hcast : s = slot ↔ (s : Int) = arg := by omega
            rw [ih h, List.mem_cons, List.mem_cons, hcast]
            tauto

theorem addDelSlots_owners (del : Bool) (args : List Int) {s : Nat} (hs : s < REDIS_CLUSTER_SLOTS)
    (c : BusState ν) :
    Owners c (clusterAddDelSlots del args c) s (!del && decide ((s : Int) ∈ args))
      (del && decide ((s : Int) ∈ args)) := by
  have hmem : s ∈ List.range REDIS_CLUSTER_SLOTS := List.mem_range.mpr hs
  rw [clusterAddDelSlots]
  generalize List.range REDIS_CLUSTER_SLOTS = js at hmem ⊢
  split
  · rename_i e he
    refine Owners.refused ?_ s _ _
    clear hmem
    -- every error is an answer of `checkSlotArgs`
    generalize ([] : List Nat) = seen at he
    induction args generalizing seen with
    | nil => cases he
    | cons arg args ih =>
      unfold checkSlotArgs at he
      repeat' split at he
      all_goals first
        | exact ih _ he
        | (obtain rfl := Except.error.inj he; rfl)
  · rename_i slots hslots
    have hiff : s ∈ slots ↔ (s : Int) ∈ args :=
      (mem_checkSlotArgs hslots s).trans (or_iff_left List.not_mem_nil)
    unfold Owners
    rw [todo_slots]
    cases del with
    | true =>
      rw [foldl_takes (p := fun _ s => s ∈ slots) (addDelSlot_del slots) fun _ _ _ _ => Iff.rfl]
      simp [accepted, hiff, hmem]
    | false =>
      rw [foldl_gives (addDelSlot_add slots)]
      simp [accepted, hiff, hmem]

section Commands

variable [LinearOrder ν] (cfg : BusConfig) (env : BusEnv ν)

omit [LinearOrder ν] in
theorem setslotNode_none (slot s : Nat) (n : Addr) (c : BusState ν) :
    (setslotNode env slot n c).slots s = none ↔ c.slots s = none ∧ s ≠ slot := by
  obtain ⟨e, he, heq⟩ := setslotNode_keeps env slot n c
  rw [heq, addSlot_none, delSlot_none, he.slots]
  tauto

theorem setslot_owners (arg : Int) (action : SetslotAction ν) (s : Nat) (c : BusState ν) :
    Owners c (clusterSetslot env arg action c) s
      (match action with | .node _ => decide (arg = s) | _ => false) false := by
  unfold clusterSetslot
  split
  · exact Owners.refused rfl s _ _
  · rename_i slot hslot
    have harg := getSlotOrReply_eq hslot
    dsimp only
    cases action with
    | migrating name =>
      dsimp only
      split
      · exact Owners.refused rfl s _ _
      · split
        · exact Owners.refused rfl s _ _
        · exact Owners.kept rfl s
    | importing name =>
      dsimp only
      split
      · exact Owners.refused rfl s _ _
      · split
        · exact Owners.refused rfl s _ _
        · exact Owners.kept rfl s
    | stable => exact Owners.kept rfl s
    | node name =>
      dsimp only
      split
      · exact Owners.refused rfl s _ _
      · split
        · exact Owners.refused rfl s _ _
        · unfold Owners
          rw [todo_slots, setslotNode_none]
          have hcast : s ≠ slot ↔ ¬ arg = s := by omega
          simp [accepted, hcast]

theorem startHandshake_slots (ip : String) (port : Int) (c : BusState ν) :
    (clusterStartHandshake env ip port c).1.slots = c.slots := by
  unfold clusterStartHandshake
  split
  · rfl
  · split
    · rfl
    · split
      · rfl
      · exact addNode_slots _ _

theorem replicate_slots (name : ν) (c : BusState ν) :
    (clusterReplicate env name c).1.slots = c.slots := by
  unfold clusterReplicate
  repeat' split
  case h_2.isFalse.isFalse.isFalse =>
    rw [todo_slots]
    exact (keepsSlots_setMaster _ c).slots
  all_goals rfl

omit [LinearOrder ν] in
theorem setConfigEpoch_slots (epoch : Int) (c : BusState ν) :
    (clusterSetConfigEpoch epoch c).1.slots = c.slots := by
  unfold clusterSetConfigEpoch
  repeat' split
  all_goals rfl

theorem forget_owners (name : ν) {s : Nat} (hs : s < REDIS_CLUSTER_SLOTS) (c : BusState ν) :
    Owners c (clusterForget cfg env name c) s false (takesSlot c s (.forget name)) := by
  unfold clusterForget
  split
  · exact Owners.refused rfl s _ _
  · rename_i n hn
    split
    · exact Owners.refused rfl s _ _
    · split
      · exact Owners.refused rfl s _ _
      · have hblack : (clusterBlacklistAddNode env n c).slots = c.slots := rfl
        unfold Owners
        rw [todo_slots, delNode_none cfg env n hs, hblack]
        simp [accepted, takesSlot, hn]

theorem resetIdentity_slots (c : BusState ν) : (resetIdentity env c).slots = c.slots := by
  unfold resetIdentity
  dsimp only
  rw [addNode_slots]
  exact dictDeleteNode_slots _ _

theorem reset_none (hard : Bool) {s : Nat} (hs : s < REDIS_CLUSTER_SLOTS) (c : BusState ν) :
    (clusterReset cfg env hard c).slots s = none := by
  have hnone := resetNodes_none cfg env hs (resetSlots c).nodes (resetSlots_none hs c)
  rw [clusterReset]
  generalize (resetSlots c).nodes.foldl (resetNode cfg env) (resetSlots c) = d at hnone
  rw [todo_slots]
  split
  · rw [resetIdentity_slots]
    exact hnone
  · exact hnone

theorem command_owners (cmd : Command ν) {s : Nat} (hs : s < REDIS_CLUSTER_SLOTS) (c : BusState ν) :
    Owners c (clusterCommand cfg env cmd c) s (givesSlot s cmd) (takesSlot c s cmd) := by
  cases cmd with
  | meet ip port => exact Owners.kept (startHandshake_slots env ip port c) s
  | flushslots =>
    rw [clusterCommand]
    split
    · exact Owners.refused rfl s _ _
    · unfold Owners
      rw [todo_slots, delNodeSlots_none c.myself hs]
      simp [accepted, givesSlot, takesSlot]
  | addslots slots =>
    have h := addDelSlots_owners false slots hs c
    rw [clusterCommand]
    simpa [givesSlot, takesSlot] using h
  | delslots slots =>
    have h := addDelSlots_owners true slots hs c
    rw [clusterCommand]
    simpa [givesSlot, takesSlot] using h
  | setslotMigrating slot name => exact setslot_owners env slot (.migrating name) s c
  | setslotImporting slot name => exact setslot_owners env slot (.importing name) s c
  | setslotStable slot => exact setslot_owners env slot .stable s c
  | setslotNode slot name => exact setslot_owners env slot (.node name) s c
  | forget name => exact forget_owners cfg env name hs c
  | replicate name => exact Owners.kept (replicate_slots env name c) s
  | failover force => exact Owners.kept (soft_clusterFailover force c).keepsSlots.slots s
  | setConfigEpoch epoch => exact Owners.kept (setConfigEpoch_slots epoch c) s
  | reset hard =>
    rw [clusterCommand]
    split
    · exact Owners.refused rfl s _ _
    · unfold Owners
      rw [reset_none cfg env hard hs]
      simp [accepted, takesSlot]

end Commands

/-! ## The history -/

def Told (s : Live (Watched δ) ν) : Prop :=
  ∀ slot < REDIS_CLUSTER_SLOTS, s.data.unowned slot = true ↔ s.conditions.cluster.slots slot = none

theorem told_watch (s : Server δ ν) : Told (watch s).live := fun _ _ => Option.isNone_iff_eq_none

section History

variable [LinearOrder ν]

theorem runCluster_told (cfg : BusConfig) (cmds : List (BusEnv ν × Command ν)) {c : BusState ν}
    {unowned : Nat → Bool}
    (h : ∀ slot < REDIS_CLUSTER_SLOTS, unowned slot = true ↔ c.slots slot = none) :
    ∀ slot < REDIS_CLUSTER_SLOTS, (runCluster cfg cmds c unowned).2 slot = true ↔
      (runCluster cfg cmds c unowned).1.slots slot = none := by
  induction cmds generalizing c unowned with
  | nil => exact h
  | cons a cmds ih =>
    obtain ⟨env, cmd⟩ := a
    refine ih fun slot hslot => ?_
    have howners := command_owners cfg env cmd hslot c
    unfold Owners at howners
    rw [howners]
    unfold unownedAfter
    split
    · rw [← h slot hslot]
      simp
    · exact h slot hslot

theorem runCluster_ok (cfg : BusConfig) (cmds : List (BusEnv ν × Command ν)) (c : BusState ν)
    (unowned : Nat → Bool) : (runCluster cfg cmds c unowned).1.ok = c.ok := by
  induction cmds generalizing c unowned with
  | nil => rfl
  | cons a cmds ih =>
    rw [runCluster, ih]
    exact command_ok cfg a.1 a.2 c

variable (w : ClusterWorld δ ν)

theorem told_preserves : Preserves w.world (Told (δ := δ)) where
  proc h _ _ _ := runCluster_told w.cfg _ h
  lookup h _ := h
  evict h := h
  unwatch h _ := h
  client h _ _ := h
  dirty h _ := h

theorem told_iterate {s : Server (Watched δ) ν} (h : Told s.live) (r : ClientId × List Bytes) :
    Told (iterate w.world s r).live := (told_preserves w).request r.1 r.2 h

theorem ok_preserves (ok : Bool) :
    Preserves w.world fun s => s.conditions.cluster.ok = ok where
  proc h _ _ _ := (runCluster_ok w.cfg _ _ _).trans h
  lookup h _ := h
  evict h := h
  unwatch h _ := h
  client h _ _ := h
  dirty h _ := h

theorem iterate_ok (s : Server (Watched δ) ν) (r : ClientId × List Bytes) :
    (iterate w.world s r).live.conditions.cluster.ok = s.live.conditions.cluster.ok :=
  (ok_preserves w _).request r.1 r.2 rfl

end History

/-! ## The result of `getNodeByQuery` -/

theorem keyHashSlot_lt (key : Bytes) : keyHashSlot key < REDIS_CLUSTER_SLOTS := by
  unfold keyHashSlot
  exact Nat.and_lt_two_pow (n := 14) _ (by decide)

section Query

variable (w : World δ ν) (c : ClientId) (cmd : RedisCommand) (argv : List Bytes) (s : Server δ ν)

theorem query_loop :
    (∃ t r, scanCommands w (queryCommands (s.client c) cmd argv) none s = (t, .ok r) ∧
      t.live.conditions = s.live.conditions ∧
      ∃ seen, Scanned w s seen r) ∨
      ∃ t, ∃ e, scanCommands w (queryCommands (s.client c) cmd argv) none s = (t, .error e) ∧
        (e = .crossSlot ∨ e = .assertion) := by
  have haside := aside_scanCommands w (queryCommands (s.client c) cmd argv) none s
  have hstart : Scanned w s [] none := rfl
  rcases scanCommands_outcome (queryCommands (s.client c) cmd argv) (Aside.refl s) hstart with
    ⟨t, r, hrun, hscanned⟩ | ⟨t, hrun, -⟩ | ⟨t, hrun, -⟩
  · rw [hrun] at haside
    exact Or.inl ⟨t, r, hrun, haside.conditions, _, hscanned⟩
  · exact Or.inr ⟨t, _, hrun, Or.inl rfl⟩
  · exact Or.inr ⟨t, _, hrun, Or.inr rfl⟩

theorem Scanned.migrating {w : World δ ν} {s : Server δ ν} {seen : List Bytes} {r : KeyScan}
    (h : Scanned w s seen (some r)) (hmig : r.migrating_slot = true) :
    ∃ n, s.live.conditions.cluster.migrating_slots_to r.slot = some n := by
  obtain ⟨-, -, -, hflag, -⟩ := h
  rw [hmig] at hflag
  have hboth := (Bool.and_eq_true _ _).mp hflag.symm
  exact Option.isSome_iff_exists.mp hboth.2

theorem queryEnd_route {w : World δ ν} {s : Server δ ν} {seen : List Bytes} {r : Option KeyScan}
    (h : Scanned w s seen r) (x : Session) (cmd : RedisCommand) :
    (queryEnd s.live.conditions.cluster x cmd r).route =
        routeQuery s.live.conditions.cluster x cmd r ∧
      ((queryEnd s.live.conditions.cluster x cmd r).node = none →
        (queryEnd s.live.conditions.cluster x cmd r).error_code = .unstable) := by
  cases r with
  | none => exact ⟨rfl, nofun⟩
  | some r =>
    unfold queryEnd routeQuery
    dsimp only
    split
    · rename_i hask
      obtain ⟨n, hn⟩ := h.migrating ((Bool.and_eq_true _ _).mp hask).1
      rw [hn]
      exact ⟨rfl, nofun⟩
    · split
      · split
        · exact ⟨rfl, fun _ => rfl⟩
        · exact ⟨rfl, nofun⟩
      · split
        · exact ⟨rfl, nofun⟩
        · refine ⟨?_, nofun⟩
          by_cases hn : r.n = s.live.conditions.cluster.myself
          · simp [Target.route, hn]
          · simp [Target.route, hn]

theorem getNodeByQuery_target :
    (getNodeByQuery w c cmd argv s).2 =
      (queryTarget w c cmd argv s).elim .assertion Target.route := by
  unfold getNodeByQuery queryTarget
  split
  · rfl
  · rcases query_loop w c cmd argv s with ⟨t, r, hrun, hcond, seen, hscanned⟩ | ⟨t, e, hrun, rfl | rfl⟩
    · rw [hrun]
      dsimp only [Option.elim_some]
      rw [hcond]
      exact (queryEnd_route hscanned _ cmd).1.symm
    · rw [hrun]
      rfl
    · rw [hrun]
      rfl

theorem queryTarget_error {target : Target} (htarget : target ∈ queryTarget w c cmd argv s)
    (hnone : target.node = none) :
    target.error_code = .crossSlot ∨ target.error_code = .unstable := by
  unfold queryTarget at htarget
  split at htarget
  · obtain rfl := Option.some.inj (Option.mem_def.mp htarget)
    cases hnone
  · rcases query_loop w c cmd argv s with ⟨t, r, hrun, hcond, seen, hscanned⟩ | ⟨t, e, hrun, rfl | rfl⟩
    · rw [hrun] at htarget
      obtain rfl := Option.some.inj (Option.mem_def.mp htarget)
      rw [hcond] at hnone ⊢
      exact Or.inr ((queryEnd_route hscanned _ cmd).2 hnone)
    · rw [hrun] at htarget
      obtain rfl := Option.some.inj (Option.mem_def.mp htarget)
      exact Or.inl rfl
    · rw [hrun] at htarget
      cases htarget

end Query

/-! ## Iterations -/

/-- `getNodeByQuery` finds an owner for the slot of the first key, and if it returns no node then with an
error that `processCommand` handles. -/
def HandlesQuery (w : World δ ν) (s : Server δ ν) (r : ClientId × List Bytes) : Prop :=
  ∀ cmd, Queries w s r cmd →
    ¬ FirstUnserved s (queryKeys (batch (s.client r.1) cmd r.2)) ∧
      ∀ target ∈ queryTarget w r.1 cmd r.2 s,
        target.node = none → target.error_code = .crossSlot ∨ target.error_code = .unstable

def FirstKeyOwned (w : World (Watched δ) ν) (s : Server (Watched δ) ν) (r : ClientId × List Bytes) :
    Prop :=
  ∀ cmd, Queries w s r cmd →
    ∀ key ∈ (queryKeys (batch (s.client r.1) cmd r.2)).head?,
      s.live.data.unowned (keyHashSlot key) = false

theorem handlesQuery_iff (w : World (Watched δ) ν) {s : Server (Watched δ) ν} (h : Told s.live)
    (r : ClientId × List Bytes) : HandlesQuery w s r ↔ FirstKeyOwned w s r := by
  refine forall_congr' fun cmd => imp_congr_right fun _ => ?_
  rw [and_iff_left fun target => queryTarget_error w r.1 cmd r.2 s]
  constructor
  · intro hserved key hkey
    rw [← Bool.not_eq_true]
    exact fun hunowned => hserved ⟨key, hkey, (h _ (keyHashSlot_lt key)).mp hunowned⟩
  · rintro howned ⟨key, hkey, hslot⟩
    have hfalse := howned key hkey
    rw [(h _ (keyHashSlot_lt key)).mpr hslot] at hfalse
    cases hfalse

/-- In an iteration `getNodeByQuery` finds an owner and returns an error that is handled at every call
exactly if no call is for a slot that had no owner at the start, or that an accepted command took from
its owner, and that got none since. -/
theorem queries_handled_iff [LinearOrder ν] (w : ClusterWorld δ ν) (s : Server δ ν)
    (rs : List (ClientId × List Bytes)) :
    RunMeets (iterate w.world) (HandlesQuery w.world) (watch s) rs ↔
      RunMeets (iterate w.world) (FirstKeyOwned w.world) (watch s) rs := by
  have hall : ∀ t : Server (Watched δ) ν, Told t.live →
      (RunMeets (iterate w.world) (HandlesQuery w.world) t rs ↔
        RunMeets (iterate w.world) (FirstKeyOwned w.world) t rs) := by
    induction rs with
    | nil => exact fun _ _ => Iff.rfl
    | cons r rs ih =>
      intro t ht
      rw [runMeets_cons, runMeets_cons, handlesQuery_iff w.world ht r, ih _ (told_iterate w ht r)]
  exact hall (watch s) (told_watch s)

/-! ## A slot that is taken and asked for -/

def clusterRow : RedisCommand :=
  keylessRow "cluster" (.other 4) (-2) { plainFlags with readonly := true }

def smallClusterWorld : ClusterWorld Unit Nat :=
  { smallWorld with
    commands := fun name => (clusterRow :: smallTable).find? fun cmd => sameCaseless cmd.name name
    cfg := busConfig, clusterProc := .other 4, env := fun _ => idleEnv 0 0, name := fun _ => 0
    scripted := fun _ _ _ _ => [] }

def ownerConditions : Conditions Nat :=
  let cl := busInit 0 0 0 false
  { plainConditions with
    cluster_enabled := true
    cluster :=
      { cl with
        ok := true
        slots := fun slot => if slot < REDIS_CLUSTER_SLOTS then some 0 else none
        node := fun n =>
          { cl.node n with
            slots := Finset.range REDIS_CLUSTER_SLOTS, numslots := REDIS_CLUSTER_SLOTS } } }

def getRow : RedisCommand := oneKeyRow "get" (.other 0) 2 { plainFlags with readonly := true }

def delSlotsRequest : ClientId × List Bytes := (1, ["cluster", "delslots", "12182"].map asciiBytes)

def getRequest : ClientId × List Bytes := (1, ["get", "foo"].map asciiBytes)

def afterDelSlots : Server (Watched Unit) Nat :=
  iterate smallClusterWorld.world (watch (smallServer ownerConditions)) delSlotsRequest

theorem afterDelSlots_ok : afterDelSlots.live.conditions.cluster.ok = true :=
  iterate_ok smallClusterWorld (watch (smallServer ownerConditions)) delSlotsRequest

/-- The cluster is OK and all slots have an owner; then GET finds none after a DELSLOTS in the same
iteration. -/
theorem get_unowned :
    (smallServer ownerConditions).live.conditions.cluster.ok = true ∧
      (∀ slot < REDIS_CLUSTER_SLOTS,
        ((smallServer ownerConditions).live.conditions.cluster.slots slot).isSome) ∧
      ¬ RunMeets (iterate smallClusterWorld.world) (HandlesQuery smallClusterWorld.world)
        (watch (smallServer ownerConditions)) [delSlotsRequest, getRequest] := by
  refine ⟨rfl, fun slot hslot => ?_, ?_⟩
  · have hslots : (smallServer ownerConditions).live.conditions.cluster.slots slot =
        if slot < REDIS_CLUSTER_SLOTS then some 0 else none := rfl
    rw [hslots, if_pos hslot]
    rfl
  · rw [runMeets_cons, runMeets_cons]
    rintro ⟨-, hget, -⟩
    have htold : Told afterDelSlots.live :=
      told_iterate smallClusterWorld (told_watch _) delSlotsRequest
    have howned := (handlesQuery_iff smallClusterWorld.world htold getRequest).mp hget
    have hqueries : Queries smallClusterWorld.world afterDelSlots getRequest getRow :=
      ⟨rfl, rfl, rfl, rfl, rfl, rfl, rfl, afterDelSlots_ok⟩
    have hkey : (queryKeys (batch (afterDelSlots.client getRequest.1) getRow getRequest.2)).head? =
        some (asciiBytes "foo") := rfl
    have hslot : keyHashSlot (asciiBytes "foo") = 12182 := by decide +kernel
    have htaken : afterDelSlots.live.data.unowned 12182 = true := rfl
    have hfalse := howned getRow hqueries _ (Option.mem_def.mpr hkey)
    rw [hslot, htaken] at hfalse
    cases hfalse

end RedisCluster.Multi
