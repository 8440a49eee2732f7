import RedisCluster.Cluster.BusSpec

/-!
# Proofs: what most functions leave alone

The slot table, the roles and the epochs are three views of the state. A function is `Mild` if it
keeps all three and sends only messages whose header is that of the state, and `Soft` if it keeps the
failure reports too; most functions are. What the others do to one view is then a short case
analysis.
-/

namespace RedisCluster.Bus

variable {ν : Type}

/-! ## The views -/

/-- Who owns which slot. -/
structure SlotView where
  nodes : List Addr
  myself : Addr
  table : Nat → Option Addr
  bits : Addr → Finset Nat × Nat

/-- Who is a slave of whom. -/
structure RoleView where
  nodes : List Addr
  myself : Addr
  slaveof : Addr → Option Addr
  slaves : Addr → List Addr × Nat
  role : Addr → Bool × Bool

/-- The epochs, and the names that decide whose epochs count. -/
structure EpochView (ν : Type) where
  nodes : List Addr
  myself : Addr
  currentEpoch : Nat
  failover_auth_epoch : Nat
  configEpoch : Addr → Nat
  handshake : Addr → Bool
  name : Addr → ν

def slotView (c : BusState ν) : SlotView :=
  ⟨c.nodes, c.myself, c.slots, fun n => ((c.node n).slots, (c.node n).numslots)⟩

def roleView (c : BusState ν) : RoleView :=
  ⟨c.nodes, c.myself, fun n => (c.node n).slaveof,
    fun n => ((c.info n).slaves, (c.info n).numslaves), fun n => (c.nodeIsMaster n, c.nodeIsSlave n)⟩

def epochView (c : BusState ν) : EpochView ν :=
  ⟨c.nodes, c.myself, c.currentEpoch, c.failover_auth_epoch, fun n => (c.node n).configEpoch,
    fun n => c.nodeInHandshake n, fun n => (c.info n).name⟩

/-- The message carries the epochs of a state with this view. -/
structure HeaderOf (v : EpochView ν) (m : BusMsg ν) : Prop where
  sender : m.sender = v.name v.myself
  currentEpoch : m.currentEpoch = v.currentEpoch
  configEpoch : ∃ n, m.configEpoch = v.configEpoch n
  update : ∀ name epoch slots, m.data = .update name epoch slots → ∃ n, epoch = v.configEpoch n

structure Mild (c c' : BusState ν) : Prop where
  slot : slotView c' = slotView c
  role : roleView c' = roleView c
  epoch : epochView c' = epochView c
  crash : c'.crashed = some .clusterDelSlot → c.crashed = some .clusterDelSlot
  sent : ∀ m ∈ c'.sent, m ∈ c.sent ∨ HeaderOf (epochView c) m.2

structure Soft (c c' : BusState ν) : Prop extends Mild c c' where
  reports : ∀ n, (c'.info n).fail_reports = (c.info n).fail_reports

theorem Mild.refl (c : BusState ν) : Mild c c := ⟨rfl, rfl, rfl, id, fun _ hm => Or.inl hm⟩

theorem Mild.trans {a b c : BusState ν} (h1 : Mild a b) (h2 : Mild b c) : Mild a c := by
  refine ⟨h2.slot.trans h1.slot, h2.role.trans h1.role, h2.epoch.trans h1.epoch,
    fun h => h1.crash (h2.crash h), fun m hm => ?_⟩
  rcases h2.sent m hm with hm | hm
  · exact h1.sent m hm
  · rw [h1.epoch] at hm
    exact Or.inr hm

theorem Mild.nodes {c c' : BusState ν} (h : Mild c c') : c'.nodes = c.nodes :=
  congrArg SlotView.nodes h.slot

theorem Mild.ite {p : Prop} [Decidable p] {c x y : BusState ν} (hx : p → Mild c x)
    (hy : ¬ p → Mild c y) : Mild c (if p then x else y) := by
  split
  · exact hx ‹_›
  · exact hy ‹_›

theorem Soft.refl (c : BusState ν) : Soft c c := ⟨Mild.refl c, fun _ => rfl⟩

theorem Soft.trans {a b c : BusState ν} (h1 : Soft a b) (h2 : Soft b c) : Soft a c :=
  ⟨h1.toMild.trans h2.toMild, fun n => (h2.reports n).trans (h1.reports n)⟩

theorem Soft.foldl {α : Type} {f : BusState ν → α → BusState ν} (h : ∀ c a, Soft c (f c a))
    (as : List α) (c : BusState ν) : Soft c (as.foldl f c) := by
  induction as generalizing c with
  | nil => exact Soft.refl c
  | cons a as ih => exact (h c a).trans (ih _)

theorem Soft.ite {p : Prop} [Decidable p] {c x y : BusState ν} (hx : p → Soft c x)
    (hy : ¬ p → Soft c y) : Soft c (if p then x else y) := by
  split
  · exact hx ‹_›
  · exact hy ‹_›

/-! ## Assignments -/

theorem comp_update_eq {α β : Type} (g : α → β) (f : Addr → α) (n : Addr) (x : α)
    (h : g x = g (f n)) : (fun a => g (Function.update f n x a)) = fun a => g (f a) := by
  funext a
  by_cases ha : a = n
  · rw [ha, Function.update_self, h]
  · rw [Function.update_of_ne ha]

theorem modInfo_proj {β : Type} (g : NodeInfo ν → β) (c : BusState ν) (n : Addr)
    (f : NodeInfo ν → NodeInfo ν) (h : ∀ x, g (f x) = g x) (m : Addr) :
    g ((c.modInfo n f).info m) = g (c.info m) :=
  congrFun (comp_update_eq g c.info n _ (h _)) m

theorem modNode_proj {β : Type} (g : ClusterNode Addr → β) (c : BusState ν) (n : Addr)
    (f : ClusterNode Addr → ClusterNode Addr) (h : ∀ x, g (f x) = g x) (m : Addr) :
    g ((c.modNode n f).node m) = g (c.node m) :=
  congrFun (comp_update_eq g c.node n _ (h _)) m

theorem mild_modInfo (c : BusState ν) (n : Addr) (f : NodeInfo ν → NodeInfo ν)
    (h : ∀ x, ((f x).slaves, (f x).numslaves, (f x).name) = (x.slaves, x.numslaves, x.name)) :
    Mild c (c.modInfo n f) := by
  simp only [Prod.mk.injEq] at h
  obtain ⟨h1, h2, h3⟩ := h (c.info n)
  have hs := comp_update_eq (fun x : NodeInfo ν => (x.slaves, x.numslaves)) c.info n
    (f (c.info n)) (by rw [h1, h2])
  have hn := comp_update_eq (fun x : NodeInfo ν => x.name) c.info n (f (c.info n)) h3
  refine ⟨rfl, ?_, ?_, id, fun _ hm => Or.inl hm⟩
  · simp only [roleView, BusState.modInfo, BusState.setInfo, ClusterState.nodeIsMaster,
      ClusterState.nodeIsSlave, hs]
  · simp only [epochView, BusState.modInfo, BusState.setInfo, ClusterState.nodeInHandshake, hn]

theorem soft_modInfo (c : BusState ν) (n : Addr) (f : NodeInfo ν → NodeInfo ν)
    (h : ∀ x, ((f x).slaves, (f x).numslaves, (f x).name, (f x).fail_reports) =
      (x.slaves, x.numslaves, x.name, x.fail_reports)) : Soft c (c.modInfo n f) := by
  simp only [Prod.mk.injEq] at h
  refine ⟨mild_modInfo c n f fun x => ?_, modInfo_proj (fun x => x.fail_reports) c n f fun x => ?_⟩
  · rw [(h x).1, (h x).2.1, (h x).2.2.1]
  · exact (h x).2.2.2

theorem soft_modNode (c : BusState ν) (n : Addr) (f : ClusterNode Addr → ClusterNode Addr)
    (h : ∀ x, ((f x).slots, (f x).numslots, (f x).slaveof, (f x).configEpoch, (f x).flags.master,
        (f x).flags.slave, (f x).flags.handshake) =
      (x.slots, x.numslots, x.slaveof, x.configEpoch, x.flags.master, x.flags.slave,
        x.flags.handshake)) : Soft c (c.modNode n f) := by
  simp only [Prod.mk.injEq] at h
  obtain ⟨h1, h2, h3, h4, h5, h6, h7⟩ := h (c.node n)
  have hb := comp_update_eq (fun x : ClusterNode Addr => (x.slots, x.numslots)) c.node n
    (f (c.node n)) (by rw [h1, h2])
  have hs := comp_update_eq (fun x : ClusterNode Addr => x.slaveof) c.node n (f (c.node n)) h3
  have he := comp_update_eq (fun x : ClusterNode Addr => x.configEpoch) c.node n (f (c.node n)) h4
  have hr := comp_update_eq (fun x : ClusterNode Addr => (x.flags.master, x.flags.slave)) c.node n
    (f (c.node n)) (by rw [h5, h6])
  have hh := comp_update_eq (fun x : ClusterNode Addr => x.flags.handshake) c.node n
    (f (c.node n)) h7
  refine ⟨⟨?_, ?_, ?_, id, fun _ hm => Or.inl hm⟩, fun _ => rfl⟩
  · simp only [slotView, BusState.modNode, BusState.lift, ClusterState.setNode, hb]
  · simp only [roleView, BusState.modNode, BusState.lift, ClusterState.setNode,
      ClusterState.nodeIsMaster, ClusterState.nodeIsSlave, hs, hr]
  · simp only [epochView, BusState.modNode, BusState.lift, ClusterState.setNode,
      ClusterState.nodeInHandshake, he, hh]

theorem soft_lift (c : BusState ν) (f : ClusterState Addr → ClusterState Addr)
    (h : ∀ s, ((f s).nodes, (f s).myself, (f s).slots, (f s).node, (f s).currentEpoch,
        (f s).failover_auth_epoch) =
      (s.nodes, s.myself, s.slots, s.node, s.currentEpoch, s.failover_auth_epoch)) :
    Soft c (c.lift f) := by
  simp only [Prod.mk.injEq] at h
  obtain ⟨h1, h2, h3, h4, h5, h6⟩ := h c.toClusterState
  refine ⟨⟨?_, ?_, ?_, id, fun _ hm => Or.inl hm⟩, fun _ => rfl⟩
  · simp only [slotView, BusState.lift, h1, h2, h3, h4]
  · simp only [roleView, BusState.lift, ClusterState.nodeIsMaster, ClusterState.nodeIsSlave, h1, h2,
      h4]
  · simp only [epochView, BusState.lift, ClusterState.nodeInHandshake, h1, h2, h4, h5, h6]

theorem soft_redisAssert (cond : Bool) (what : Crash) (c : BusState ν)
    (hw : what ≠ .clusterDelSlot) : Soft c (redisAssert cond what c) := by
  refine Soft.ite (fun _ => Soft.refl c) fun _ =>
    ⟨⟨rfl, rfl, rfl, fun h => ?_, fun _ hm => Or.inl hm⟩, fun _ => rfl⟩
  have h : (c.crashed <|> some what) = some .clusterDelSlot := h
  cases hc : c.crashed with
  | none =>
    rw [hc] at h
    exact absurd (Option.some.inj h) hw
  | some k =>
    rw [hc] at h
    exact h

theorem soft_todo (flags : TodoFlags) (c : BusState ν) : Soft c (clusterDoBeforeSleep flags c) :=
  soft_lift c _ (by intro x; rfl)

theorem soft_saveConfig (c : BusState ν) : Soft c (clusterSaveConfigOrDie c) :=
  soft_lift c _ (by intro x; rfl)

theorem soft_closeAllSlots (c : BusState ν) : Soft c (clusterCloseAllSlots c) :=
  ⟨⟨rfl, rfl, rfl, id, fun _ hm => Or.inl hm⟩, fun _ => rfl⟩

theorem soft_resetManualFailover (c : BusState ν) : Soft c (resetManualFailover c) :=
  ⟨⟨rfl, rfl, rfl, id, fun _ hm => Or.inl hm⟩, fun _ => rfl⟩

theorem soft_freeNodeLink (n : Addr) (c : BusState ν) : Soft c (freeNodeLink n c) :=
  soft_modNode c n _ (by intro x; rfl)

/-! ## Failure reports -/

theorem mild_cleanupReports (cfg : BusConfig) (env : BusEnv ν) (n : Addr) (c : BusState ν) :
    Mild c (clusterNodeCleanupFailureReports cfg env n c) :=
  mild_modInfo c n _ (by intro x; rfl)

theorem mild_addReport (env : BusEnv ν) (n s : Addr) (c : BusState ν) :
    Mild c (clusterNodeAddFailureReport env n s c) :=
  mild_modInfo c n _ (by intro x; rfl)

theorem mild_delReport (cfg : BusConfig) (env : BusEnv ν) (n s : Addr) (c : BusState ν) :
    Mild c (clusterNodeDelFailureReport cfg env n s c) :=
  Mild.ite (fun _ => (mild_modInfo c n _ (by intro x; rfl)).trans
    (mild_cleanupReports cfg env n _)) fun _ => Mild.refl c

theorem mild_delReports (cfg : BusConfig) (env : BusEnv ν) (n : Addr) (ms : List Addr)
    (c : BusState ν) : Mild c (ms.foldl (fun c m =>
      if m = n then c else clusterNodeDelFailureReport cfg env m n c) c) := by
  induction ms generalizing c with
  | nil => exact Mild.refl c
  | cons m ms ih =>
    exact (Mild.ite (fun _ => Mild.refl c) fun _ => mild_delReport cfg env m n c).trans (ih _)

/-! ## Messages -/

theorem headerOf_build (cfg : BusConfig) (env : BusEnv ν) (c : BusState ν) (data : MsgData ν)
    (h : ∀ name epoch slots, data = .update name epoch slots → ∃ n, epoch = (c.node n).configEpoch) :
    HeaderOf (epochView c) (clusterBuildMessageHdr cfg env c data) :=
  ⟨rfl, rfl, ⟨headerMaster c, rfl⟩, h⟩

theorem soft_sendMessage (link : Option Addr) {msg : BusMsg ν} {c : BusState ν}
    (h : HeaderOf (epochView c) msg) : Soft c (clusterSendMessage link msg c) := by
  refine ⟨⟨rfl, rfl, rfl, id, fun m hm => ?_⟩, fun _ => rfl⟩
  rcases List.mem_append.mp hm with hm | hm
  · exact Or.inl hm
  · rw [List.mem_singleton.mp hm]
    exact Or.inr h

theorem soft_broadcast {msg : BusMsg ν} {c : BusState ν} (h : HeaderOf (epochView c) msg) :
    Soft c (clusterBroadcastMessage msg c) := by
  suffices hfold : ∀ (ns : List Addr) (c' : BusState ν), Soft c c' → Soft c (ns.foldl (fun c n =>
      if (c.node n).link && !((c.node n).flags.myself || (c.node n).flags.handshake) then
        clusterSendMessage (some n) msg c else c) c') from hfold _ c (Soft.refl c)
  intro ns
  induction ns with
  | nil => exact fun c' hc' => hc'
  | cons n ns ih =>
    intro c' hc'
    refine ih _ (hc'.trans (Soft.ite (fun _ => soft_sendMessage _ ?_) fun _ => Soft.refl c'))
    rw [hc'.epoch]
    exact h

theorem soft_notePing (env : BusEnv ν) (link : Option Addr) (type : PingType) (c : BusState ν) :
    Soft c (notePing env link type c) := by
  unfold notePing
  split
  · exact soft_modInfo c _ _ (by intro x; rfl)
  · exact Soft.refl c

theorem soft_sendPing [DecidableEq ν] (cfg : BusConfig) (env : BusEnv ν) (link : Option Addr)
    (type : PingType) (c : BusState ν) : Soft c (clusterSendPing cfg env link type c) := by
  refine (soft_notePing env link type c).trans (soft_sendMessage link (headerOf_build _ _ _ _ ?_))
  intro name epoch slots h
  cases type <;> cases h

theorem soft_broadcastPong [DecidableEq ν] (cfg : BusConfig) (env : BusEnv ν) (b : Bool)
    (c : BusState ν) : Soft c (clusterBroadcastPong cfg env b c) :=
  Soft.foldl (fun c _ => Soft.ite (fun _ => soft_sendPing cfg env _ .pong c) fun _ => Soft.refl c) _ _

theorem soft_sendFail (cfg : BusConfig) (env : BusEnv ν) (name : ν) (c : BusState ν) :
    Soft c (clusterSendFail cfg env name c) :=
  soft_broadcast (headerOf_build _ _ _ _ fun _ _ _ h => by cases h)

theorem soft_sendUpdate (cfg : BusConfig) (env : BusEnv ν) (target n : Addr) (c : BusState ν) :
    Soft c (clusterSendUpdate cfg env target n c) := by
  refine Soft.ite (fun _ => soft_sendMessage _ (headerOf_build _ _ _ _ ?_)) fun _ => Soft.refl c
  rintro name epoch slots h
  injection h with _ h2 _
  exact ⟨n, h2.symm⟩

theorem soft_sendTo (cfg : BusConfig) (env : BusEnv ν) (n : Addr) {data : MsgData ν}
    (h : ∀ name epoch slots, data ≠ .update name epoch slots) (c : BusState ν) :
    Soft c (clusterSendTo cfg env n data c) :=
  Soft.ite (fun _ => soft_sendMessage _ (headerOf_build _ _ _ _ fun _ _ _ hd => absurd hd (h _ _ _)))
    fun _ => Soft.refl c

/-! ## Failure detection -/

theorem soft_setFailFlag (env : BusEnv ν) (n : Addr) (c : BusState ν) : Soft c (setFailFlag env n c) :=
  (soft_modNode c n _ (by intro x; rfl)).trans
    (soft_modInfo _ n _ (by intro x; rfl))

theorem mild_markNode (cfg : BusConfig) (env : BusEnv ν) (n : Addr) (c : BusState ν) :
    Mild c (markNodeAsFailingIfNeeded cfg env n c) := by
  refine Mild.ite (fun _ => Mild.refl c) fun _ => ?_
  have hc := mild_cleanupReports cfg env n c
  refine Mild.ite (fun _ => ?_) fun _ => hc
  refine Mild.trans ?_ (soft_todo _ _).toMild
  have hf := hc.trans (soft_setFailFlag env n _).toMild
  exact Mild.ite (fun _ => hf.trans (soft_sendFail _ _ _ _).toMild) fun _ => hf

theorem soft_clearFailFlag (n : Addr) (c : BusState ν) : Soft c (clearFailFlag n c) :=
  (soft_modNode c n _ (by intro x; rfl)).trans (soft_todo _ _)

theorem soft_clearNodeFailure (cfg : BusConfig) (env : BusEnv ν) (n : Addr) (c : BusState ν) :
    Soft c (clearNodeFailureIfNeeded cfg env n c) := by
  have ha := soft_redisAssert (c.nodeFailed n) .clearNodeFailureIfNeeded c nofun
  have hb : Soft c (if (redisAssert (c.nodeFailed n) .clearNodeFailureIfNeeded c).nodeIsSlave n ∨
      ((redisAssert (c.nodeFailed n) .clearNodeFailureIfNeeded c).node n).numslots = 0 then
      clearFailFlag n (redisAssert (c.nodeFailed n) .clearNodeFailureIfNeeded c)
      else redisAssert (c.nodeFailed n) .clearNodeFailureIfNeeded c) :=
    Soft.ite (fun _ => ha.trans (soft_clearFailFlag n _)) fun _ => ha
  exact Soft.ite (fun _ => hb.trans (soft_clearFailFlag n _)) fun _ => hb

theorem soft_updateAddress (env : BusEnv ν) (n : Addr) (via : Option Addr) (port : Nat)
    (c : BusState ν) : Soft c (nodeUpdateAddressIfNeeded env n via port c) :=
  Soft.ite (fun _ => ((soft_modInfo c n _ (by intro x; rfl)).trans
    (soft_freeNodeLink n _)).trans (soft_todo _ _)) fun _ => Soft.refl c

theorem soft_processPong (cfg : BusConfig) (env : BusEnv ν) (n : Addr) (c : BusState ν) :
    Soft c (processPong cfg env n c) := by
  have h := soft_modInfo c n (fun x => { x with pong_received := env.mstime, ping_sent := 0 }) fun _ => rfl
  refine Soft.ite (fun _ => ?_) fun _ => ?_
  · exact (h.trans (soft_modInfo _ n _ (by intro x; rfl))).trans (soft_todo _ _)
  · exact Soft.ite (fun _ => h.trans (soft_clearNodeFailure cfg env n _)) fun _ => h

theorem soft_processFail [LinearOrder ν] (env : BusEnv ν) (name : ν) (c : BusState ν) :
    Soft c (processFail env name c) := by
  unfold processFail
  split
  · exact Soft.refl c
  · exact Soft.ite (fun _ => Soft.refl c) fun _ => (soft_setFailFlag env _ c).trans (soft_todo _ _)

theorem soft_mfstart (env : BusEnv ν) (s : Addr) (c : BusState ν) : Soft c (processMfstart env s c) :=
  Soft.ite (fun _ => Soft.refl c) fun _ => ⟨⟨rfl, rfl, rfl, id, fun _ hm => Or.inl hm⟩, fun _ => rfl⟩

theorem soft_countVote (s : Addr) (e : Nat) (c : BusState ν) : Soft c (c.lift (countVote s e)) := by
  refine soft_lift c _ fun s => ?_
  unfold countVote
  split <;> rfl

/-! ## Epochs -/

def raiseEpoch (hdr : ClusterMsg Addr) (s : ClusterState Addr) : ClusterState Addr :=
  if hdr.currentEpoch > s.currentEpoch then { s with currentEpoch := hdr.currentEpoch } else s

theorem lift_updateEpochs (n : Addr) (hdr : ClusterMsg Addr) (c : BusState ν) :
    c.lift (updateEpochs n hdr) =
      if hdr.configEpoch > ((c.lift (raiseEpoch hdr)).node n).configEpoch then
        ((c.lift (raiseEpoch hdr)).modNode n fun x => { x with configEpoch := hdr.configEpoch }).lift
          fun s => { s with todo_before_sleep := s.todo_before_sleep.save }
      else c.lift (raiseEpoch hdr) := by
  unfold BusState.lift updateEpochs raiseEpoch
  dsimp only
  split <;> split <;> rfl

/-! ## State and failovers -/

theorem soft_stateFields (c : BusState ν) (ok : Bool) (first among : Int) :
    Soft c { c with ok := ok, first_call_time := first, among_minority_time := among } :=
  ⟨⟨rfl, rfl, rfl, id, fun _ hm => Or.inl hm⟩, fun _ => rfl⟩

theorem soft_updateState (cfg : BusConfig) (env : BusEnv ν) (c : BusState ν) :
    Soft c (clusterUpdateState cfg env c) := by
  have hfirst : ∀ d : BusState ν, Soft d
      (if d.first_call_time = 0 then { d with first_call_time := env.mstime } else d) :=
    fun d => Soft.ite (fun _ => soft_stateFields d _ _ _) fun _ => Soft.refl d
  have hsize : ∀ d : BusState ν, Soft d (updateSize d) := fun d => soft_lift d _ (by intro x; rfl)
  have hamong : ∀ d : BusState ν, Soft d
      (if unreachableMasters d ≥ d.size / 2 + 1 then { d with among_minority_time := env.mstime }
        else d) :=
    fun d => Soft.ite (fun _ => soft_stateFields d _ _ _) fun _ => Soft.refl d
  have h1 := (soft_lift c (fun s =>
    { s with todo_before_sleep := { s.todo_before_sleep with updateState := false } }) fun _ => rfl).trans
      (hfirst _)
  have h2 := h1.trans ((hsize _).trans (hamong _))
  exact Soft.ite (fun _ => h1) fun _ => Soft.ite
    (fun _ => Soft.ite (fun _ => h2) fun _ => h2.trans (soft_stateFields _ _ _ _)) fun _ => h2

theorem soft_updateRank (fenv : FailoverEnv) (c : BusState ν) :
    Soft c (c.lift (updateFailoverRank fenv)) := by
  refine soft_lift c _ fun s => ?_
  unfold updateFailoverRank
  split <;> rfl

theorem soft_schedule (fenv : FailoverEnv) (c : BusState ν) :
    Soft c (c.lift (scheduleFailover fenv)) := by
  refine soft_lift c _ fun s => ?_
  unfold scheduleFailover
  dsimp only
  split <;> rfl

theorem soft_manualTimeout (env : BusEnv ν) (c : BusState ν) :
    Soft c (manualFailoverCheckTimeout env c) :=
  Soft.ite (fun _ => soft_resetManualFailover c) fun _ => Soft.refl c

theorem soft_manualFailover (env : BusEnv ν) (c : BusState ν) :
    Soft c (clusterHandleManualFailover env c) :=
  Soft.ite (fun _ => Soft.refl c) fun _ =>
    Soft.ite (fun _ => soft_lift c _ (by intro x; rfl)) fun _ => Soft.refl c

theorem soft_connectNode [DecidableEq ν] (cfg : BusConfig) (env : BusEnv ν) (n : Addr)
    (c : BusState ν) : Soft c (connectNode cfg env n c) := by
  have h1 := soft_modNode c n (fun x => { x with link := true }) fun _ => rfl
  have h2 := h1.trans (soft_modInfo _ n (fun x => { x with link_ctime := env.mstime }) fun _ => rfl)
  unfold connectNode
  exact (h2.trans (soft_sendPing cfg env _ _ _)).trans
    (soft_modInfo _ n _ (by intro x; rfl))

theorem soft_setPfailFlag (n : Addr) (c : BusState ν) : Soft c (setPfailFlag n c) :=
  soft_modInfo c n _ (by intro x; rfl)

theorem soft_cronCheck [DecidableEq ν] (cfg : BusConfig) (env : BusEnv ν) (r : CronScan ν)
    (n : Addr) : Soft r.cluster (cronCheck cfg env r n).cluster := by
  have hlink : Soft r.cluster (if linkIsStuck cfg env r.cluster n then freeNodeLink n r.cluster
      else r.cluster) :=
    Soft.ite (fun _ => soft_freeNodeLink n _) fun _ => Soft.refl _
  unfold cronCheck
  dsimp only
  split
  · exact Soft.refl _
  · generalize (if linkIsStuck cfg env r.cluster n then freeNodeLink n r.cluster
      else r.cluster) = c at hlink ⊢
    split
    · exact hlink.trans (soft_sendPing cfg env _ .ping _)
    · split
      · exact hlink.trans (soft_setPfailFlag n _)
      · exact hlink

theorem soft_cronScan [DecidableEq ν] (cfg : BusConfig) (env : BusEnv ν) (c : BusState ν) :
    Soft c (cronScan cfg env c).cluster := by
  suffices hfold : ∀ (ns : List Addr) (r : CronScan ν),
      Soft r.cluster (ns.foldl (cronCheck cfg env) r).cluster from hfold _ ⟨c, 0, 0, 0, false⟩
  intro ns
  induction ns with
  | nil => exact fun r => Soft.refl _
  | cons n ns ih => exact fun r => (soft_cronCheck cfg env r n).trans (ih _)

/-! ## New nodes -/

section Grows

variable [DecidableEq ν]

def addFreshNode (env : BusEnv ν) (a : Addr) (name : ν) (meet : Bool)
    (f : NodeInfo ν → NodeInfo ν) (c : BusState ν) : BusState ν :=
  clusterAddNode a ((createClusterNode env a name handshakeFlags meet c).modInfo a f)

/-- Mild changes and new nodes, whose names meet `P`. -/
inductive Grows (P : ν → Prop) : BusState ν → BusState ν → Prop where
  | mild {c c' : BusState ν} : Mild c c' → Grows P c c'
  | create {c : BusState ν} {a : Addr} {name : ν} {f : NodeInfo ν → NodeInfo ν} (env : BusEnv ν)
      (meet : Bool) : a ∉ c.nodes → clusterLookupNode c name = none → P name →
      (∀ x, (f x).slaves = x.slaves ∧ (f x).numslaves = x.numslaves ∧ (f x).name = x.name) →
      Grows P c (addFreshNode env a name meet f c)
  | trans {a b c : BusState ν} : Grows P a b → Grows P b c → Grows P a c

theorem Grows.refl {P : ν → Prop} (c : BusState ν) : Grows P c c := Grows.mild (Mild.refl c)

theorem Grows.foldl {P : ν → Prop} {α : Type} {f : BusState ν → α → BusState ν}
    (h : ∀ c a, Grows P c (f c a)) (as : List α) (c : BusState ν) : Grows P c (as.foldl f c) := by
  induction as generalizing c with
  | nil => exact Grows.refl c
  | cons a as ih => exact (h c a).trans (ih _)

theorem lookup_eq_none {c : BusState ν} {name : ν} :
    clusterLookupNode c name = none ↔ ∀ n ∈ c.nodes, (c.info n).name ≠ name := by
  simp [clusterLookupNode]

theorem lookup_some {c : BusState ν} {name : ν} {n : Addr} (h : clusterLookupNode c name = some n) :
    n ∈ c.nodes ∧ (c.info n).name = name :=
  ⟨List.mem_of_find?_eq_some h, by simpa using List.find?_some h⟩

theorem lookup_of_mem {c : BusState ν} {n : Addr} (hn : n ∈ c.nodes)
    (hu : ∀ m ∈ c.nodes, (c.info m).name = (c.info n).name → m = n) :
    clusterLookupNode c (c.info n).name = some n := by
  cases h : clusterLookupNode c (c.info n).name with
  | none => exact absurd rfl (lookup_eq_none.mp h n hn)
  | some m =>
    obtain ⟨h1, h2⟩ := lookup_some h
    rw [hu m h1 h2]

/-- The contents of a node that the views show. -/
structure NodeView (ν : Type) where
  slots : Finset Nat
  numslots : Nat
  slaveof : Option Addr
  configEpoch : Nat
  master : Bool
  slave : Bool
  handshake : Bool
  name : ν
  slaves : List Addr
  numslaves : Nat

def nodeView (c : BusState ν) (n : Addr) : NodeView ν :=
  ⟨(c.node n).slots, (c.node n).numslots, (c.node n).slaveof, (c.node n).configEpoch,
    c.nodeIsMaster n, c.nodeIsSlave n, c.nodeInHandshake n, (c.info n).name, (c.info n).slaves,
    (c.info n).numslaves⟩

def freshView (name : ν) : NodeView ν := ⟨∅, 0, none, 0, false, false, true, name, [], 0⟩

omit [DecidableEq ν] in
theorem Mild.nodeView {c c' : BusState ν} (h : Mild c c') (n : Addr) :
    nodeView c' n = nodeView c n := by
  obtain ⟨h1, h2⟩ := Prod.mk.inj (congrFun (congrArg SlotView.bits h.slot) n)
  have h3 : (c'.node n).slaveof = (c.node n).slaveof := congrFun (congrArg RoleView.slaveof h.role) n
  have h4 : (c'.node n).configEpoch = (c.node n).configEpoch :=
    congrFun (congrArg EpochView.configEpoch h.epoch) n
  obtain ⟨h5, h6⟩ := Prod.mk.inj (congrFun (congrArg RoleView.role h.role) n)
  have h7 : c'.nodeInHandshake n = c.nodeInHandshake n :=
    congrFun (congrArg EpochView.handshake h.epoch) n
  have h8 : (c'.info n).name = (c.info n).name := congrFun (congrArg EpochView.name h.epoch) n
  obtain ⟨h9, h10⟩ := Prod.mk.inj (congrFun (congrArg RoleView.slaves h.role) n)
  simp only [Bus.nodeView, h1, h2, h3, h4, h5, h6, h7, h8, h9, h10]

theorem addFreshNode_eq {c : BusState ν} {a : Addr} {name : ν} {f : NodeInfo ν → NodeInfo ν}
    (env : BusEnv ν) (meet : Bool) (hlook : clusterLookupNode c name = none) (ha : a ∉ c.nodes)
    (hf : ∀ x, (f x).name = x.name) : addFreshNode env a name meet f c =
      ((createClusterNode env a name handshakeFlags meet c).modInfo a f).lift
        fun s => { s with nodes := a :: s.nodes } := by
  set d := (createClusterNode env a name handshakeFlags meet c).modInfo a f with hd
  have hname : (d.info a).name = name := by
    simp only [hd, BusState.modInfo, BusState.setInfo, Function.update_self, hf, createClusterNode]
  have hnone : clusterLookupNode d (d.info a).name = none := by
    refine lookup_eq_none.mpr fun n hn => ?_
    have hna : n ≠ a := fun h => ha (h ▸ hn)
    have hnn : (d.info n).name = (c.info n).name := by
      simp [hd, createClusterNode, BusState.modInfo, BusState.setInfo, BusState.modNode,
        BusState.lift, Function.update_of_ne hna]
    rw [hname, hnn]
    exact lookup_eq_none.mp hlook n hn
  unfold addFreshNode clusterAddNode
  rw [← hd, hnone]

theorem addFreshNode_spec {c : BusState ν} {a : Addr} {name : ν} {f : NodeInfo ν → NodeInfo ν}
    (env : BusEnv ν) (meet : Bool) (hlook : clusterLookupNode c name = none) (ha : a ∉ c.nodes)
    (hf : ∀ x, (f x).slaves = x.slaves ∧ (f x).numslaves = x.numslaves ∧ (f x).name = x.name) :
    (addFreshNode env a name meet f c).nodes = a :: c.nodes ∧
      nodeView (addFreshNode env a name meet f c) a = freshView name ∧
      ∀ n, n ≠ a → nodeView (addFreshNode env a name meet f c) n = nodeView c n := by
  set d := (createClusterNode env a name handshakeFlags meet c).modInfo a f with hd
  have hself : nodeView d a = freshView name := by
    obtain ⟨h1, h2, h3⟩ := hf ((createClusterNode env a name handshakeFlags meet c).info a)
    simp only [nodeView, freshView, hd, BusState.modInfo, BusState.setInfo, Function.update_self,
      ClusterState.nodeIsMaster, ClusterState.nodeIsSlave, ClusterState.nodeInHandshake, h1, h2, h3]
    simp [createClusterNode, BusState.modInfo, BusState.setInfo, BusState.modNode, BusState.lift,
      ClusterState.setNode, handshakeFlags]
  have hother : ∀ n, n ≠ a → nodeView d n = nodeView c n := by
    intro n hn
    simp [nodeView, hd, createClusterNode, BusState.modInfo, BusState.setInfo, BusState.modNode,
      BusState.lift, ClusterState.setNode, ClusterState.nodeIsMaster, ClusterState.nodeIsSlave,
      ClusterState.nodeInHandshake, Function.update_of_ne hn]
  rw [addFreshNode_eq env meet hlook ha fun x => (hf x).2.2, ← hd]
  exact ⟨rfl, hself, hother⟩

theorem Grows.node {P : ν → Prop} {c c' : BusState ν} (h : Grows P c c') :
    ∀ n ∈ c.nodes, n ∈ c'.nodes ∧ nodeView c' n = nodeView c n := by
  induction h with
  | mild h =>
    intro n hn
    rw [h.nodes]
    exact ⟨hn, h.nodeView n⟩
  | create env meet ha hlook _ hf =>
    intro n hn
    obtain ⟨h1, _, h3⟩ := addFreshNode_spec env meet hlook ha hf
    rw [h1]
    exact ⟨List.mem_cons_of_mem _ hn, h3 n fun he => ha (he ▸ hn)⟩
  | trans _ _ ih1 ih2 =>
    intro n hn
    obtain ⟨h1, h2⟩ := ih1 n hn
    obtain ⟨h3, h4⟩ := ih2 n h1
    exact ⟨h3, h4.trans h2⟩

theorem Grows.rest {P : ν → Prop} {c c' : BusState ν} (h : Grows P c c') :
    c'.slots = c.slots ∧ c'.myself = c.myself ∧ c'.currentEpoch = c.currentEpoch ∧
      c'.failover_auth_epoch = c.failover_auth_epoch := by
  induction h with
  | mild h =>
    exact ⟨congrArg SlotView.table h.slot, congrArg SlotView.myself h.slot,
      congrArg EpochView.currentEpoch h.epoch, congrArg EpochView.failover_auth_epoch h.epoch⟩
  | create env meet ha hlook _ hf =>
    unfold addFreshNode clusterAddNode
    split <;> exact ⟨rfl, rfl, rfl, rfl⟩
  | trans _ _ ih1 ih2 =>
    obtain ⟨h1, h2, h3, h4⟩ := ih1
    obtain ⟨h5, h6, h7, h8⟩ := ih2
    exact ⟨h5.trans h1, h6.trans h2, h7.trans h3, h8.trans h4⟩

theorem Grows.lookup {P : ν → Prop} {c c' : BusState ν} (h : Grows P c c') {name : ν}
    (hP : ¬ P name) (hnone : clusterLookupNode c name = none) : clusterLookupNode c' name = none := by
  induction h with
  | @mild c c' h =>
    refine lookup_eq_none.mpr fun n hn => ?_
    rw [h.nodes] at hn
    have hname : (c'.info n).name = (c.info n).name := congrArg NodeView.name (h.nodeView n)
    rw [hname]
    exact lookup_eq_none.mp hnone n hn
  | @create c a newname f env meet ha hlook hnew hf =>
    obtain ⟨h1, h2, h3⟩ := addFreshNode_spec env meet hlook ha hf
    generalize addFreshNode env a newname meet f c = c' at h1 h2 h3
    refine lookup_eq_none.mpr fun n hn => ?_
    rw [h1] at hn
    by_cases hna : n = a
    · have hname : (c'.info a).name = newname := congrArg NodeView.name h2
      rw [hna, hname]
      rintro rfl
      exact hP hnew
    · have hname : (c'.info n).name = (c.info n).name := congrArg NodeView.name (h3 n hna)
      rw [hname]
      rcases List.mem_cons.mp hn with hn | hn
      · exact absurd hn hna
      · exact lookup_eq_none.mp hnone n hn
  | trans _ _ ih1 ih2 => exact ih2 (ih1 hnone)

/-! ## Gossip -/

variable {P : ν → Prop} {env : BusEnv ν}

theorem grows_startHandshake (henv : FreshEnv P env) (ip : String) (port : Int) (c : BusState ν) :
    Grows P c (clusterStartHandshake env ip port c).1 := by
  unfold clusterStartHandshake
  split
  · exact Grows.refl c
  · split
    · exact Grows.refl c
    · split
      · exact Grows.refl c
      · exact Grows.create env true (henv c).1 (henv c).2.1 (henv c).2.2 fun _ => ⟨rfl, rfl, rfl⟩

omit [DecidableEq ν] in
theorem soft_blacklistCleanup (env : BusEnv ν) (c : BusState ν) : Soft c (clusterBlacklistCleanup env c) :=
  ⟨⟨rfl, rfl, rfl, id, fun _ hm => Or.inl hm⟩, fun _ => rfl⟩

omit [DecidableEq ν] in
theorem mild_gossipReport (cfg : BusConfig) (env : BusEnv ν) (sender : Option Addr) (n : Addr)
    (g : MsgGossip ν) (c : BusState ν) : Mild c (gossipReport cfg env sender n g c) := by
  unfold gossipReport
  split
  · exact Mild.refl c
  · refine Mild.ite (fun _ => Mild.ite (fun _ => ?_) fun _ => ?_) fun _ => Mild.refl c
    · exact (mild_addReport env n _ c).trans (mild_markNode cfg env n _)
    · exact mild_delReport cfg env n _ c

theorem grows_processGossip (henv : FreshEnv P env) (cfg : BusConfig) (sender : Option Addr)
    (c : BusState ν) (g : MsgGossip ν) : Grows P c (processGossip cfg env sender c g) := by
  unfold processGossip
  split
  case h_1 n _ =>
    have h : Grows P c _ := Grows.mild (mild_gossipReport cfg env sender n g c)
    generalize gossipReport cfg env sender n g c = c' at h
    dsimp only
    split
    · exact h.trans (grows_startHandshake henv _ _ _)
    · exact h
  case h_2 =>
    have h : Grows P c _ := Grows.mild (soft_blacklistCleanup env c).toMild
    split
    · dsimp only
      split
      · exact h
      · exact h.trans (grows_startHandshake henv _ _ _)
    · exact Grows.refl c

theorem grows_gossipSection (henv : FreshEnv P env) (cfg : BusConfig) (via : Option Addr)
    (hdr : BusMsg ν) (gossip : List (MsgGossip ν)) (c : BusState ν) :
    Grows P c (clusterProcessGossipSection cfg env via hdr gossip c) :=
  Grows.foldl (fun c g => grows_processGossip henv cfg _ c g) gossip c

end Grows

section Ordered

variable [LinearOrder ν] {P : ν → Prop} {env : BusEnv ν}

omit [LinearOrder ν] in
theorem soft_heartbeatAddress (env : BusEnv ν) (via sender : Option Addr) (type : PingType)
    (hdr : BusMsg ν) (c : BusState ν) : Soft c (heartbeatAddress env via sender type hdr c) := by
  unfold heartbeatAddress
  split
  · exact Soft.ite (fun _ => Soft.refl c) fun _ => soft_updateAddress env _ via hdr.port c
  · exact Soft.refl c

omit [LinearOrder ν] in
theorem soft_heartbeatPong (cfg : BusConfig) (env : BusEnv ν) (via : Option Addr) (type : PingType)
    (c : BusState ν) : Soft c (heartbeatPong cfg env via type c) := by
  unfold heartbeatPong
  split
  · exact soft_processPong cfg env _ c
  · exact Soft.refl c

omit [LinearOrder ν] in
theorem soft_sendStaleUpdate (cfg : BusConfig) (env : BusEnv ν) (s : Addr) (epoch : Nat)
    (hdr : BusMsg ν) (c : BusState ν) : Soft c (sendStaleUpdate cfg env s epoch hdr c) := by
  unfold sendStaleUpdate
  split
  · exact Soft.refl c
  · exact soft_sendUpdate cfg env s _ c

omit [LinearOrder ν] in
theorem soft_processAuthRequest (cfg : BusConfig) (env : BusEnv ν) (s : Addr) (hdr : BusMsg ν)
    (c : BusState ν) : Soft c (processAuthRequest cfg env s hdr c) := by
  unfold processAuthRequest
  split
  · exact Soft.refl c
  · rename_i r hr
    have hvote : Soft c (c.lift fun _ => r.1) := by
      unfold clusterSendFailoverAuthIfNeeded at hr
      repeat' split at hr
      all_goals cases hr
      rename_i m _ _ _ _
      exact (soft_modNode c m (fun x => { x with voted_time := env.mstime }) fun _ => rfl).trans
        (soft_lift _ (fun x => { x with lastVoteEpoch := c.currentEpoch }) fun _ => rfl)
    have hsend : Soft c (clusterSendTo cfg env s .failoverAuthAck c) := soft_sendTo cfg env s (by simp) c
    have hinfo : (clusterSendTo cfg env s .failoverAuthAck c).info = c.info ∧
        (clusterSendTo cfg env s .failoverAuthAck c).crashed = c.crashed := by
      unfold clusterSendTo
      split <;> exact ⟨rfl, rfl⟩
    generalize clusterSendTo cfg env s .failoverAuthAck c = d at hsend hinfo ⊢
    refine ⟨⟨hvote.slot, ?_, ?_, hinfo.2 ▸ hvote.crash, hsend.sent⟩, fun n => ?_⟩
    · rw [← hvote.role]
      simp only [roleView, BusState.lift, hinfo.1, ClusterState.nodeIsMaster,
        ClusterState.nodeIsSlave]
    · rw [← hvote.epoch]
      simp only [epochView, BusState.lift, hinfo.1, ClusterState.nodeInHandshake]
    · simp only [BusState.lift, hinfo.1]

theorem grows_pingBody (henv : FreshEnv P env) (sender : Option Addr) (type : PingType)
    (hdr : BusMsg ν) (c : BusState ν) : Grows P c (pingBody env sender type hdr c) := by
  unfold pingBody
  split
  · refine Grows.trans ?_ (Grows.mild (soft_todo _ _).toMild)
    exact Grows.create env false (henv c).1 (henv c).2.1 (henv c).2.2 fun _ => ⟨rfl, rfl, rfl⟩
  · exact Grows.refl c

theorem grows_answerPing (henv : FreshEnv P env) (cfg : BusConfig) (via sender : Option Addr)
    (type : PingType) (hdr : BusMsg ν) (gossip : List (MsgGossip ν)) (c : BusState ν) :
    Grows P c (answerPing cfg env via sender type hdr gossip c) := by
  unfold answerPing
  split
  · exact Grows.refl c
  · exact ((grows_pingBody henv sender type hdr c).trans
      (grows_gossipSection henv cfg via hdr gossip _)).trans
      (Grows.mild (soft_sendPing cfg env via .pong _).toMild)

end Ordered

end RedisCluster.Bus
