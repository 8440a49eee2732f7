import RedisCluster.Cluster.Proofs.SlotRunProofs

/-!
# Proofs: the slot table, commands and whole runs

The commands are folds of single slot changes, of removals of nodes whose slots were taken away
first, and of role changes. With `clusterCron` and the packets this gives the invariant of a run.
-/

namespace RedisCluster.Bus

open RedisCluster.Lib

variable {ν : Type} [LinearOrder ν] {cfg : BusConfig} {env : BusEnv ν}

theorem keepsSlots_migration (max_slaves : Nat) (c : BusState ν) :
    KeepsSlots c (clusterHandleSlaveMigration cfg max_slaves c) := by
  unfold clusterHandleSlaveMigration
  split
  · exact KeepsSlots.refl c
  · exact keepsSlots_setMaster _ c

variable (cfg env) in
theorem slotStep_cronSlave (r : CronScan ν) {c : BusState ν} (hme : c.myself ∈ c.nodes) :
    SlotStep c (cronSlave cfg env r c) := by
  unfold cronSlave
  refine SlotStep.ite (fun _ => ?_) fun _ => SlotStep.refl c
  have h1 := soft_manualFailover env c
  have hd : (clusterHandleManualFailover env c).myself ∈ (clusterHandleManualFailover env c).nodes := by
    rw [h1.nodes, h1.keepsSlots.myself]
    exact hme
  have h2 := h1.slotStep.trans (slotStep_slaveFailover cfg env hd)
  exact SlotStep.ite (fun _ => h2.trans (keepsSlots_migration r.max_slaves _).step) fun _ => h2

theorem tableOk_cron {c : BusState ν} (h : TableOk c)
    (hslots : ∀ n ∈ c.nodes, handshakeExpired cfg env c n → (c.node n).slots = ∅) :
    TableOk (clusterCron cfg env c) := by
  unfold clusterCron
  dsimp only
  have h1 := (tableOk_cronLinks h hslots).soft (soft_cronScan cfg env _)
  generalize cronScan cfg env (cronLinks cfg env c) = r at h1 ⊢
  have h2 := h1.soft (soft_manualTimeout env r.cluster)
  generalize manualFailoverCheckTimeout env r.cluster = d at h2 ⊢
  have h3 := (slotStep_cronSlave cfg env r h2.me).table h2
  generalize cronSlave cfg env r d = e at h3 ⊢
  split
  · exact h3.soft (soft_updateState cfg env e)
  · exact h3

theorem tableOk_beforeSleep {c : BusState ν} (h : TableOk c) :
    TableOk (clusterBeforeSleep cfg env c) := by
  unfold clusterBeforeSleep
  dsimp only
  have h1 : TableOk (if c.todo_before_sleep.handleFailover then
      clusterHandleSlaveFailover cfg env c else c) := by
    split
    · exact (slotStep_slaveFailover cfg env h.me).table h
    · exact h
  generalize (if c.todo_before_sleep.handleFailover then
      clusterHandleSlaveFailover cfg env c else c) = d at h1 ⊢
  have h2 : TableOk (if d.todo_before_sleep.updateState then clusterUpdateState cfg env d else d) := by
    split
    · exact h1.soft (soft_updateState cfg env d)
    · exact h1
  exact h2.soft (soft_lift _ _ (by intro x; rfl))

omit [LinearOrder ν] in
theorem soft_importing (c : BusState ν) (f : Nat → Option Addr) :
    Soft c { c with importing_slots_from := f } :=
  ⟨⟨rfl, rfl, rfl, id, fun _ hm => Or.inl hm⟩, fun _ => rfl⟩

omit [LinearOrder ν] in
theorem soft_migrating (c : BusState ν) (f : Nat → Option Addr) :
    Soft c { c with migrating_slots_to := f } :=
  ⟨⟨rfl, rfl, rfl, id, fun _ hm => Or.inl hm⟩, fun _ => rfl⟩

omit [LinearOrder ν] in
theorem slotStep_addDelSlot (del : Bool) (slots : List Nat) {c : BusState ν} {j : Nat}
    (hme : c.myself ∈ c.nodes) (hj : j < REDIS_CLUSTER_SLOTS) :
    SlotStep c (addDelSlot del slots c j) := by
  unfold addDelSlot
  refine SlotStep.ite (fun _ => ?_) fun _ => SlotStep.refl c
  have h1 := soft_importing c (Function.update c.importing_slots_from j none)
  dsimp only
  generalize { c with importing_slots_from := Function.update c.importing_slots_from j none } = d
    at h1 ⊢
  have h2 := h1.trans (soft_redisAssert (if del then (c.slots j).isSome else (c.slots j).isNone)
    .clusterCommandSlots d nofun)
  generalize redisAssert (if del then (c.slots j).isSome else (c.slots j).isNone)
    .clusterCommandSlots d = e at h2 ⊢
  refine SlotStep.ite (fun _ => h2.slotStep.trans (slotStep_delSlot j e)) fun _ => ?_
  refine h2.slotStep.trans (slotStep_addSlot ?_ hj)
  rw [h2.nodes, h2.keepsSlots.myself]
  exact hme

omit [LinearOrder ν] in
theorem slotStep_addDelSlots (del : Bool) (args : List Int) {c : BusState ν}
    (hme : c.myself ∈ c.nodes) : SlotStep c (clusterAddDelSlots del args c).1 := by
  unfold clusterAddDelSlots
  split
  · exact SlotStep.refl c
  · rename_i slots _
    refine SlotStep.trans (SlotStep.foldl fun x j hj hx => ?_) (soft_todo _ _).slotStep
    refine slotStep_addDelSlot del slots ?_ (List.mem_range.mp hj)
    rw [hx.nodes, hx.myself]
    exact hme

omit [LinearOrder ν] in
theorem setslotNode_eq (env : BusEnv ν) (slot : Nat) (n : Addr) (c : BusState ν) :
    ∃ d e, Soft c d ∧ (e = d ∨ Soft (importEpoch d) e) ∧
      setslotNode env slot n c = clusterAddSlot n slot (clusterDelSlot slot e) := by
  unfold setslotNode
  dsimp only
  have hd : Soft c (if env.countKeysInSlot slot = 0 then
      { c with migrating_slots_to := Function.update c.migrating_slots_to slot none } else c) :=
    Soft.ite (fun _ => soft_migrating c _) fun _ => Soft.refl c
  generalize (if env.countKeysInSlot slot = 0 then
      { c with migrating_slots_to := Function.update c.migrating_slots_to slot none } else c) = d
    at hd ⊢
  refine ⟨d, _, hd, ?_, rfl⟩
  split
  · exact .inr (soft_importing _ _)
  · exact .inl rfl

omit [LinearOrder ν] in
/-- Before the slot changes its owner nothing about slots changes. -/
theorem setslotNode_keeps (env : BusEnv ν) (slot : Nat) (n : Addr) (c : BusState ν) :
    ∃ e, KeepsSlots c e ∧ setslotNode env slot n c = clusterAddSlot n slot (clusterDelSlot slot e) := by
  obtain ⟨d, e, hd, he, heq⟩ := setslotNode_eq env slot n c
  refine ⟨e, ?_, heq⟩
  rcases he with rfl | he
  · exact hd.keepsSlots
  · exact hd.keepsSlots.trans ((keepsSlots_importEpoch d).trans he.keepsSlots)

omit [LinearOrder ν] in
theorem slotStep_setslotNode {slot : Nat} {n : Addr} {c : BusState ν} (hn : n ∈ c.nodes)
    (hslot : slot < REDIS_CLUSTER_SLOTS) : SlotStep c (setslotNode env slot n c) := by
  obtain ⟨e, he, heq⟩ := setslotNode_keeps env slot n c
  have hdel := slotStep_delSlot slot e
  rw [heq]
  refine (he.step.trans hdel).trans (slotStep_addSlot ?_ hslot)
  rw [hdel.nodes, he.nodes]
  exact hn

omit [LinearOrder ν] in
theorem getSlotOrReply_lt {arg : Int} {slot : Nat} (h : getSlotOrReply arg = some slot) :
    slot < REDIS_CLUSTER_SLOTS := by
  unfold getSlotOrReply at h
  split at h
  · cases h
  · injection h with h
    omega

/-- Either no slot changes its owner, or the slot goes to a node that is known. -/
theorem clusterSetslot_cases (env : BusEnv ν) (arg : Int) (action : SetslotAction ν) (c : BusState ν) :
    Soft c (clusterSetslot env arg action c).1 ∨
      ∃ slot n, slot < REDIS_CLUSTER_SLOTS ∧ n ∈ c.nodes ∧ (clusterSetslot env arg action c).1 =
        clusterDoBeforeSleep (orTodo todoSave todoUpdate) (setslotNode env slot n c) := by
  unfold clusterSetslot
  split
  · exact .inl (Soft.refl c)
  · rename_i slot hslot
    dsimp only
    cases action with
    | migrating name =>
      dsimp only
      split
      · exact .inl (Soft.refl c)
      · split
        · exact .inl (Soft.refl c)
        · exact .inl ((soft_migrating c _).trans (soft_todo _ _))
    | importing name =>
      dsimp only
      split
      · exact .inl (Soft.refl c)
      · split
        · exact .inl (Soft.refl c)
        · exact .inl ((soft_importing c _).trans (soft_todo _ _))
    | stable =>
      have h1 := soft_importing c (Function.update c.importing_slots_from slot none)
      have h2 := h1.trans (soft_migrating _ (Function.update c.migrating_slots_to slot none))
      exact .inl (h2.trans (soft_todo _ _))
    | node name =>
      dsimp only
      split
      · exact .inl (Soft.refl c)
      · rename_i n hn
        split
        · exact .inl (Soft.refl c)
        · exact .inr ⟨slot, n, getSlotOrReply_lt hslot, (lookup_some hn).1, rfl⟩

theorem slotStep_setslot (env : BusEnv ν) (arg : Int) (action : SetslotAction ν) (c : BusState ν) :
    SlotStep c (clusterSetslot env arg action c).1 := by
  rcases clusterSetslot_cases env arg action c with hsoft | ⟨slot, n, hslot, hn, heq⟩
  · exact hsoft.slotStep
  · rw [heq]
    exact (slotStep_setslotNode hn hslot).trans (soft_todo _ _).slotStep

theorem tableOk_forget (name : ν) {c : BusState ν} (h : TableOk c) :
    TableOk (clusterForget cfg env name c).1 := by
  unfold clusterForget
  split
  · exact h
  · rename_i n hn
    split
    · exact h
    · rename_i hme
      split
      · exact h
      · have hs : Soft c (clusterBlacklistAddNode env n c) :=
          ⟨⟨rfl, rfl, rfl, id, fun _ hm => Or.inl hm⟩, fun _ => rfl⟩
        exact (tableOk_delNode cfg env (h.soft hs) (lookup_some hn).1 hme).1.soft (soft_todo _ _)

theorem slotStep_replicate (name : ν) (c : BusState ν) :
    SlotStep c (clusterReplicate env name c).1 := by
  unfold clusterReplicate
  repeat' split
  case h_2.isFalse.isFalse.isFalse =>
    exact ((keepsSlots_setMaster _ c).trans (soft_todo _ _).keepsSlots).step
  all_goals exact SlotStep.refl c

omit [LinearOrder ν] in
theorem soft_clusterFailover (force : Bool) (c : BusState ν) :
    Soft c (clusterFailover cfg env force c).1 := by
  have hstart : Soft c ((resetManualFailover c).lift fun s =>
      { s with mf_end := env.mstime + REDIS_CLUSTER_MF_TIMEOUT }) :=
    (soft_resetManualFailover c).trans (soft_lift _ _ (by intro x; rfl))
  unfold clusterFailover
  split
  · exact Soft.refl c
  · dsimp only
    split
    · exact hstart.trans (soft_lift _ (fun s => { s with mf_can_start := true }) fun _ => rfl)
    · split
      · exact Soft.refl c
      · split
        · exact Soft.refl c
        · exact hstart.trans (soft_sendTo cfg env _ (by simp) _)

omit [LinearOrder ν] in
theorem slotStep_setConfigEpoch (epoch : Int) (c : BusState ν) :
    SlotStep c (clusterSetConfigEpoch epoch c).1 := by
  unfold clusterSetConfigEpoch
  repeat' split
  case isFalse.isFalse.isFalse =>
    exact ((KeepsSlots.modNode c c.myself (fun x => { x with configEpoch := epoch.toNat }) fun _ => rfl).trans
      (soft_todo _ _).keepsSlots).step
  all_goals exact SlotStep.refl c

omit [LinearOrder ν] in
theorem slotStep_resetSlots (c : BusState ν) : SlotStep c (resetSlots c) := by
  unfold resetSlots
  have h1 : KeepsSlots c (if c.nodeIsSlave c.myself then clusterSetNodeAsMaster c.myself c else c) :=
    KeepsSlots.ite (fun _ => keepsSlots_setNodeAsMaster c.myself c) fun _ => KeepsSlots.refl c
  dsimp only
  generalize (if c.nodeIsSlave c.myself then clusterSetNodeAsMaster c.myself c else c) = d at h1 ⊢
  have h2 := (h1.trans (soft_closeAllSlots d).keepsSlots).trans (soft_resetManualFailover _).keepsSlots
  exact h2.step.trans (SlotStep.foldl fun x j _ _ => slotStep_delSlot j x)

variable (cfg env) in
theorem tableOk_resetNodes {c : BusState ν} (h : TableOk c) :
    TableOk (c.nodes.foldl (resetNode cfg env) c) := by
  refine tableOk_foldl_nodes (Q := fun _ _ => True) (fun x n hx hn _ => ?_) c.nodes h h.nodup
    (fun _ hn => hn) fun _ _ => trivial
  refine ⟨?_, resetNode_nodes cfg env hx.toDictOk hn, fun _ _ _ => trivial⟩
  unfold resetNode
  split
  · exact hx
  · rename_i hme
    exact (tableOk_delNode cfg env hx hn hme).1

theorem tableOk_resetIdentity {P : ν → Prop} (henv : FreshEnv P env) {c : BusState ν}
    (h : TableOk c) : TableOk (resetIdentity env c) := by
  unfold resetIdentity
  dsimp only
  have h1 := keepsSlots_lift c (fun s => { s with currentEpoch := 0, lastVoteEpoch := 0 }) fun _ => rfl
  generalize c.lift (fun s => { s with currentEpoch := 0, lastVoteEpoch := 0 }) = b at h1 ⊢
  have h2 := h1.trans (KeepsSlots.modNode b b.myself (fun x => { x with configEpoch := 0 }) fun _ => rfl)
  generalize b.modNode b.myself (fun x => { x with configEpoch := 0 }) = d at h2 ⊢
  have hd := h2.tableOk h
  rw [dictDeleteNode_of_mem hd.toDictOk hd.me]
  refine tableOk_readd hd hd.me fun m hm hne => ?_
  refine lookup_eq_none.mp (henv (d.lift fun s => { s with nodes := s.nodes.erase d.myself })).2.1 m ?_
  exact hd.nodup.mem_erase_iff.mpr ⟨hne, hm⟩

theorem tableOk_reset {P : ν → Prop} (henv : FreshEnv P env) (hard : Bool) {c : BusState ν}
    (h : TableOk c) : TableOk (clusterReset cfg env hard c) := by
  unfold clusterReset
  dsimp only
  have h1 := tableOk_resetNodes cfg env ((slotStep_resetSlots c).table h)
  generalize (resetSlots c).nodes.foldl (resetNode cfg env) (resetSlots c) = d at h1 ⊢
  refine TableOk.soft ?_ (soft_todo _ _)
  split
  · exact tableOk_resetIdentity henv h1
  · exact h1

theorem tableOk_command {P : ν → Prop} (henv : FreshEnv P env) (cmd : Command ν) {c : BusState ν}
    (h : TableOk c) : TableOk (clusterCommand cfg env cmd c).1 := by
  cases cmd with
  | meet ip port => exact h.grows (grows_startHandshake henv ip port c)
  | flushslots =>
    unfold clusterCommand
    dsimp only
    split
    · exact h
    · exact ((slotStep_delNodeSlots c.myself c).trans (soft_todo _ _).slotStep).table h
  | addslots slots => exact (slotStep_addDelSlots false slots h.me).table h
  | delslots slots => exact (slotStep_addDelSlots true slots h.me).table h
  | setslotMigrating slot name => exact (slotStep_setslot env slot (.migrating name) c).table h
  | setslotImporting slot name => exact (slotStep_setslot env slot (.importing name) c).table h
  | setslotStable slot => exact (slotStep_setslot env slot .stable c).table h
  | setslotNode slot name => exact (slotStep_setslot env slot (.node name) c).table h
  | forget name => exact tableOk_forget name h
  | replicate name => exact (slotStep_replicate name c).table h
  | failover force => exact h.soft (soft_clusterFailover force c)
  | setConfigEpoch epoch => exact (slotStep_setConfigEpoch epoch c).table h
  | reset hard =>
    unfold clusterCommand
    dsimp only
    split
    · exact h
    · exact tableOk_reset henv hard h

omit [LinearOrder ν] in
theorem slotStep_verifyData {c : BusState ν} (hme : c.myself ∈ c.nodes) :
    SlotStep c (verifyClusterConfigWithData env c) := by
  unfold verifyClusterConfigWithData
  refine SlotStep.ite (fun _ => SlotStep.refl c) fun _ => SlotStep.foldl fun x j hj hx => ?_
  unfold verifySlot
  split
  · exact SlotStep.refl x
  · split
    · refine slotStep_addSlot ?_ (List.mem_range.mp hj)
      rw [hx.nodes, hx.myself]
      exact hme
    · exact (soft_importing x _).slotStep

omit [LinearOrder ν] in
theorem tableOk_rehash {c : BusState ν} (h : TableOk c) {order : List Addr}
    (hp : order.Perm c.nodes) : TableOk (c.lift fun s => { s with nodes := order }) := by
  refine ⟨⟨fun j n => ?_, h.range, fun n hn => h.count n (hp.mem_iff.mp hn)⟩,
    h.toDictOk.rehash hp, h.alive⟩
  exact (h.owner j n).trans (and_congr_left fun _ => hp.mem_iff.symm)

theorem tableOk_step {c : BusState ν} {a : BusAct ν} (h : TableOk c) (hfresh : FreshNodes a)
    (hslots : HandshakesOwnNoSlot cfg c a) : TableOk (busStep cfg c a) := by
  unfold busStep
  split
  · exact h
  · have hs : Soft c { c with sent := [], deletedSlots := [] } :=
      ⟨⟨rfl, rfl, rfl, id, fun _ hm => by cases hm⟩, fun _ => rfl⟩
    have hd := h.soft hs
    unfold FreshNodes at hfresh
    unfold HandshakesOwnNoSlot at hslots
    unfold busEvent
    cases hev : a.event with
    | packet via hdr =>
      rw [hev] at hfresh hslots
      dsimp only
      split
      · rename_i hlink
        refine tableOk_processPacket hd hfresh (fun n hn => ?_) fun n hn hhs hlook => ?_
        · rw [hn] at hlink
          simp only [linkExists, Bool.and_eq_true, decide_eq_true_eq] at hlink
          exact hlink.1
        · rw [hn] at hslots
          exact hslots hhs hlook
      · exact hd
    | linkError n =>
      dsimp only
      split
      · exact hd.soft (soft_freeNodeLink n _)
      · exact hd
    | command cmd => exact tableOk_command hfresh cmd hd
    | cron =>
      rw [hev] at hslots
      exact tableOk_cron hd hslots
    | beforeSleep => exact tableOk_beforeSleep hd
    | verifyData => exact (slotStep_verifyData hd.me).table hd
    | rehash order =>
      dsimp only
      split
      · rename_i hp
        exact tableOk_rehash hd hp
      · exact hd

omit [LinearOrder ν] in
theorem tableOk_init (a : Addr) (name : ν) (now : Int) (sent : Bool) :
    TableOk (busInit a name now sent) := by
  refine ⟨⟨fun j n => ?_, fun j n h => ?_, fun n _ => rfl⟩, dictOk_init a name now sent, fun h => ?_⟩
  · simp [busInit]
  · cases h
  · cases h

/-- Every run keeps the slot table, as long as no node in handshake is dropped while it owns slots,
and the assertion of `clusterDelSlot` never fails. -/
theorem slotTable_run (cfg : BusConfig) (a : Addr) (name : ν) (now : Int) (sent : Bool)
    (acts : List (BusAct ν))
    (hok : RunMeets (busStep cfg) (fun c act => FreshNodes act ∧ HandshakesOwnNoSlot cfg c act)
      (busInit a name now sent) acts) :
    SlotTable (run (busStep cfg) (busInit a name now sent) acts) ∧
      (run (busStep cfg) (busInit a name now sent) acts).crashed ≠ some .clusterDelSlot := by
  have h : TableOk (run (busStep cfg) (busInit a name now sent) acts) :=
    run_inv (fun c act hc hact => tableOk_step hc hact.1 hact.2) (tableOk_init a name now sent) hok
  exact ⟨h.toSlotTable, h.alive⟩

def meetRun : List (BusAct Nat) :=
  [⟨idleEnv 0 1000, .command (.setslotNode 0 0)⟩, ⟨idleEnv 0 1000, .command (.meet "10.0.0.2" 7000)⟩,
    ⟨idleEnv 0 20000, .cron⟩]

def busConfig : BusConfig :=
  { cluster_node_timeout := 15000, repl_ping_slave_period := 10, cluster_migration_barrier := 1
    port := 7000 }

theorem slotTable_meetRun :
    SlotTable (run (busStep busConfig) (busInit 0 0 0 false) meetRun) ∧
      (run (busStep busConfig) (busInit 0 0 0 false) meetRun).crashed ≠ some .clusterDelSlot := by
  refine slotTable_run busConfig 0 0 0 false meetRun
    ⟨⟨freshNodes_idle _ fun _ _ => trivial, trivial⟩, ⟨freshNodes_idle _ fun _ _ => trivial, trivial⟩,
      ⟨freshNodes_idle _ fun _ _ => trivial, ?_⟩, trivial⟩
  intro n hn hexp
  have hn : n ∈ [1, 0] := hn
  rcases List.mem_pair.mp hn with rfl | rfl
  · rfl
  · cases hexp

/-- `SETSLOT` takes the name of a node in handshake, and `clusterCron` frees it with its slot. -/
theorem slotTable_not_kept : ¬ ∀ acts : List (BusAct Nat),
    RunMeets (busStep busConfig) (fun _ act => FreshNodes act) (busInit 0 0 0 false) acts →
      SlotTable (run (busStep busConfig) (busInit 0 0 0 false) acts) := by
  intro h
  have hend := h [⟨idleEnv 0 1000, .command (.meet "10.0.0.2" 7000)⟩,
    ⟨idleEnv 0 1000, .command (.setslotNode 0 1)⟩, ⟨idleEnv 0 20000, .cron⟩]
    ⟨freshNodes_idle _ fun _ _ => trivial, freshNodes_idle _ fun _ _ => trivial,
      freshNodes_idle _ fun _ _ => trivial, trivial⟩
  have hmem : 1 ∈ [0] := ((hend.owner 0 1).mp rfl).1
  exact absurd hmem (by decide)

end RedisCluster.Bus
