import RedisCluster.Sentinel.Proofs.FailoverProofs

/-!
# Runs of one Sentinel

A run is right up to its end exactly when every reply to INFO in it is fine.
-/

namespace RedisCluster.Sentinel

open RedisCluster.Util
open RedisCluster.Multi (sameCaseless)

theorem infoLines_role (now : Int) (role : Option Role) (i : Info) (lines : List InfoLine) :
    (infoLines now role i lines).1 = lines.foldl roleLine role := by
  induction lines generalizing role i with
  | nil => rfl
  | cons line lines ih => exact ih _ _

theorem refreshMaster_keeps (o : Outside) (lines : List InfoLine) {m : Master} (h : Inv m) :
    Inv (refreshMaster o lines m) ∧ Quiet m (refreshMaster o lines m) := by
  unfold refreshMaster
  extract_lets r slaves
  obtain ⟨hinv, hepoch, hstate⟩ := foldl_addSlave o slaves h
  exact ⟨hinv.slaves rfl rfl rfl (like_refl _ _), .of_state hepoch hstate⟩

theorem like_replace {m : Master} (h : Inv m) {name : Addr} {ri slave : Slave}
    (hlookup : sentinelRedisInstanceLookupSlave m name = some ri) {code : Nat} (hlike : Like code ri slave) :
    List.Forall₂ (Like code) m.slaves (updateSlave name (fun _ => slave) m.slaves) := by
  obtain ⟨hri, hname⟩ := lookup_mem hlookup
  unfold updateSlave
  rw [List.forall₂_map_right_iff, List.forall₂_same]
  intro a ha
  show Like code a (if a.name = name then slave else a)
  by_cases hsame : a.name = name
  · rw [if_pos hsame, List.inj_on_of_nodup_map h.names ha hri (hsame.trans hname.symm)]
    exact hlike
  · rw [if_neg hsame]
    exact Like.refl code a

theorem mem_replace {m : Master} {name : Addr} {ri slave : Slave}
    (hlookup : sentinelRedisInstanceLookupSlave m name = some ri) :
    slave ∈ updateSlave name (fun _ => slave) m.slaves := by
  obtain ⟨hri, hname⟩ := lookup_mem hlookup
  exact List.mem_map.mpr ⟨ri, hri, if_pos hname⟩

theorem reconfInprog_ok {m : Master} (h : Inv m) {slave : Slave}
    (hsent : slave.reconf_sent = true → 5 ≤ m.failover_state.code) :
    ∃ slave', reconfInprog m slave = .ok slave' ∧ Like m.failover_state.code slave slave' := by
  unfold reconfInprog
  split
  · exact ⟨slave, rfl, Like.refl _ _⟩
  · rename_i hon
    have hcode := hsent (Bool.eq_true_of_not_eq_false hon)
    obtain ⟨promoted, -, -, hpromoted⟩ := promotedSlave_ok h (by omega)
    split
    · exact ⟨slave, rfl, Like.refl _ _⟩
    · rw [hpromoted]
      refine ⟨_, rfl, ?_⟩
      simp only []
      split
      · exact ⟨rfl, rfl, fun h => (by cases h)⟩
      · exact Like.refl _ _

theorem like_reconfDone {code : Nat} {a b : Slave} (h : Like code a b) : Like code a (reconfDone b) := by
  unfold reconfDone
  split
  · exact h
  · exact h

theorem actOnRole_keeps (o : Outside) (tilt : Bool) (role : Option Role) {slave : Slave} {m : Master}
    (h : Inv m) (hslave : slave ∈ m.slaves)
    (hhost : tilt = false → role = some .slave → slave.info.slave_master_port = m.addr.port →
      slave.info.slave_master_host ≠ none) :
    ∃ m', actOnRole o tilt role slave m = .ok m' ∧ Inv m' ∧
      (Quiet m m' ∨ (tilt = false ∧ role = some .master ∧ m.failover_state = .wait_promotion)) := by
  have hsame : Inv m ∧ (Quiet m m ∨ (tilt = false ∧ role = some .master ∧
      m.failover_state = .wait_promotion)) := ⟨h, .inl (.of_state rfl rfl)⟩
  unfold actOnRole
  cases tilt with
  | true => exact ⟨m, rfl, hsame⟩
  | false =>
    rw [if_neg Bool.false_ne_true]
    cases role with
    | none => exact ⟨m, rfl, hsame⟩
    | some role =>
      cases role with
      | master =>
        dsimp only
        split
        · rename_i hwait
          exact ⟨_, rfl, h.advance (q := .reconf_slaves) hwait.2 rfl (by decide) (by decide) (by decide)
            rfl rfl (like_refl _ _), .inr ⟨rfl, rfl, hwait.2⟩⟩
        · exact ⟨m, rfl, hsame⟩
      | slave =>
        dsimp only
        split
        · rename_i hnull
          exact absurd hnull.2 (hhost rfl rfl hnull.1)
        · split
          · obtain ⟨slave', hsteps, hlike⟩ := reconfInprog_ok h (h.sent slave hslave)
            rw [hsteps]
            exact ⟨_, rfl, h.slaves rfl rfl rfl (like_replace h (lookup_of_mem h hslave)
              (like_reconfDone hlike)), .inl (.of_state rfl rfl)⟩
          · exact ⟨m, rfl, hsame⟩

/-- The reply replaces what was known of the slave. -/
structure Replied (o : Outside) (lines : List InfoLine) (m : Master) (ri slave : Slave) (m₂ : Master) :
    Prop where
  inv : Inv m₂
  mem : slave ∈ m₂.slaves
  name : slave.name = ri.name
  state : m₂.failover_state = m.failover_state
  port : slave.info.slave_master_port = (infoLines o.now none ri.info lines).2.slave_master_port
  host : slave.info.slave_master_host = (infoLines o.now none ri.info lines).2.slave_master_host

theorem replied {m : Master} (h : Inv m) (o : Outside) (lines : List InfoLine) {name : Addr} {ri : Slave}
    (hlookup : sentinelRedisInstanceLookupSlave m name = some ri) (role : Option Role) :
    Replied o lines m ri
      { ri with info := reportRole o.now role (infoLines o.now none ri.info lines).2 }
      { m with slaves := updateSlave name (fun _ =>
        { ri with info := reportRole o.now role (infoLines o.now none ri.info lines).2 }) m.slaves } := by
  have hinfo : ∀ i : Info, (reportRole o.now role i).slave_master_port = i.slave_master_port ∧
      (reportRole o.now role i).slave_master_host = i.slave_master_host := by
    intro i
    unfold reportRole
    extract_lets
    split
    · exact ⟨rfl, rfl⟩
    · exact ⟨rfl, rfl⟩
  exact ⟨h.slaves rfl rfl rfl (like_replace h hlookup ⟨rfl, rfl, .inl⟩), mem_replace hlookup, rfl, rfl,
    (hinfo _).1, (hinfo _).2⟩

theorem refreshSlave_fine (o : Outside) (tilt : Bool) (lines : List InfoLine) (name : Addr) {m : Master}
    (h : Inv m)
    (hfine : ∀ ri, tilt = false → sentinelRedisInstanceLookupSlave m name = some ri →
      (lines.foldl roleLine none = some .master → m.failover_state = .wait_promotion →
        m.promoted_slave = some name) ∧
      (lines.foldl roleLine none = some .slave →
        (infoLines o.now none ri.info lines).2.slave_master_port = m.addr.port →
        (infoLines o.now none ri.info lines).2.slave_master_host ≠ none)) :
    ∃ m', refreshSlave o tilt lines name m = .ok m' ∧ Inv m' ∧
      (Quiet m m' ∨ (lines.foldl roleLine none = some .master ∧ m.promoted_slave = some name)) := by
  unfold refreshSlave
  cases hlookup : sentinelRedisInstanceLookupSlave m name with
  | none => exact ⟨m, rfl, h, .inl (.of_state rfl rfl)⟩
  | some ri =>
    have hreplied := replied h o lines hlookup (infoLines o.now none ri.info lines).1
    obtain ⟨m', hact, hinv, hcase⟩ := actOnRole_keeps o tilt (infoLines o.now none ri.info lines).1
      hreplied.inv hreplied.mem (fun htilt hrole hport => by
        rw [hreplied.host]
        rw [hreplied.port] at hport
        rw [infoLines_role] at hrole
        exact (hfine ri htilt hlookup).2 hrole hport)
    refine ⟨m', hact, hinv, ?_⟩
    rcases hcase with hquiet | ⟨htilt, hrole, hwait⟩
    · exact .inl ⟨hquiet.epoch, hquiet.state⟩
    · rw [infoLines_role] at hrole
      exact .inr ⟨hrole, (hfine ri htilt hlookup).1 hrole hwait⟩

theorem refreshSlave_other (o : Outside) (lines : List InfoLine) {name : Addr} {m : Master} (h : Inv m)
    {ri : Slave} (hlookup : sentinelRedisInstanceLookupSlave m name = some ri)
    (hrole : lines.foldl roleLine none = some .master) (hwait : m.failover_state = .wait_promotion) :
    ∃ m', refreshSlave o false lines name m = .ok m' ∧ m'.failover_state = .reconf_slaves := by
  have hflag := h.in_progress.mpr (by rw [hwait]; exact fun h => (by cases h))
  unfold refreshSlave actOnRole
  rw [hlookup]
  simp only [infoLines_role, hrole, Bool.false_eq_true, if_false, hflag, hwait, and_self, if_true]
  exact ⟨_, rfl, rfl⟩

theorem refreshSlave_null (o : Outside) (lines : List InfoLine) {name : Addr} {m : Master} (h : Inv m)
    {ri : Slave} (hlookup : sentinelRedisInstanceLookupSlave m name = some ri)
    (hrole : lines.foldl roleLine none = some .slave)
    (hport : (infoLines o.now none ri.info lines).2.slave_master_port = m.addr.port)
    (hhost : (infoLines o.now none ri.info lines).2.slave_master_host = none) :
    refreshSlave o false lines name m = .error .nullPointer := by
  have hreplied := replied h o lines hlookup (some .slave)
  unfold refreshSlave actOnRole
  rw [hlookup]
  simp only [infoLines_role, hrole, Bool.false_eq_true, if_false]
  rw [if_pos ⟨hreplied.port.trans hport, hreplied.host.trans hhost⟩]

theorem helloSender_keeps (o : Outside) (hello : Hello) {m : Master} (h : Inv m) :
    Inv (helloSender o hello m).2 ∧ (helloSender o hello m).2.failover_state = m.failover_state := by
  have hsentinels : ∀ sentinels, Inv { m with sentinels := sentinels } :=
    fun _ => h.slaves rfl rfl rfl (like_refl _ _)
  unfold helloSender
  extract_lets addr sentinels
  split
  · exact ⟨h, rfl⟩
  · split
    · exact ⟨hsentinels _, rfl⟩
    · split
      · exact ⟨hsentinels _, rfl⟩
      · exact ⟨hsentinels _, rfl⟩

theorem helloConfig_keeps (o : Outside) (hello : Hello) (sender : Bool) {m : Master} (h : Inv m) :
    helloConfig o hello sender m = .error .nullSender ∨
      ∃ m', helloConfig o hello sender m = .ok m' ∧ Inv m' ∧
        (m'.failover_state = m.failover_state ∨ m'.failover_state = .none) := by
  have hepoch : ∀ epoch, Inv { m with config_epoch := epoch } :=
    fun _ => h.slaves rfl rfl rfl (like_refl _ _)
  unfold helloConfig
  extract_lets m₁
  split
  · split
    · exact .inr ⟨_, rfl, hepoch _, .inl rfl⟩
    · split
      · exact .inl rfl
      · refine .inr ⟨_, rfl, (changed_keeps o _ _ (hepoch _)).1, ?_⟩
        cases hr : sentinelResetMasterAndChangeAddress o hello.master_ip hello.master_port m₁ with
        | none => exact .inl rfl
        | some m' => exact .inr (changeAddress_keeps o _ _ hr).2.2
  · exact .inr ⟨m, rfl, h, .inl rfl⟩

def SentinelInv (s : SentinelState) : Prop := ∀ name m, s.masters name = some m → Inv m

theorem SentinelInv.set {s : SentinelState} (h : SentinelInv s) {name : Bytes} {m : Master} (hm : Inv m) :
    SentinelInv (setMaster s name m) := by
  intro n m' hm'
  by_cases hn : n = name
  · rw [hn, setMaster_self, Option.some.injEq] at hm'
    rw [← hm']
    exact hm
  · rw [setMaster_of_ne s hn] at hm'
    exact h n m' hm'

def StepsAre (s s' : SentinelState) (P : Bytes → Master → Master → Prop) : Prop :=
  ∀ name m m', s.masters name = some m → s'.masters name = some m' → P name m m'

theorem stepsAre_set {s : SentinelState} {name : Bytes} {m m' : Master} {P : Bytes → Master → Master → Prop}
    (hm : s.masters name = some m) (hP : P name m m') (hsame : ∀ n m, P n m m) {epoch : Nat} :
    StepsAre s (setMaster { s with current_epoch := epoch } name m') P := by
  intro n a b ha hb
  by_cases hn : n = name
  · subst hn
    rw [setMaster_self, Option.some.injEq] at hb
    rw [hm, Option.some.injEq] at ha
    rw [← ha, ← hb]
    exact hP
  · rw [setMaster_of_ne _ hn] at hb
    rw [Option.some.inj (ha.symm.trans hb)]
    exact hsame n b

theorem stepsAre_refl {s : SentinelState} {P : Bytes → Master → Master → Prop} (hsame : ∀ n m, P n m m) :
    StepsAre s s P := by
  intro n a b ha hb
  rw [ha, Option.some.injEq] at hb
  rw [hb]
  exact hsame n b

theorem Quiet.not_sets {m m' : Master} (h : Quiet m m') {e : Event} : ¬ SetsConfigEpoch m m' e := by
  rintro (⟨hwait, hstate⟩ | ⟨hepoch, -⟩)
  · exact h.state hwait hstate
  · exact hepoch h.epoch

def StepOk (s : SentinelState) (e : Event) (r : Except Fault SentinelState) : Prop :=
  ∃ s', r = .ok s' ∧ SentinelInv s' ∧
    StepsAre s s' fun name m m' => SetsConfigEpoch m m' e → ReportsPromotion m name e

theorem onMaster_ok {s : SentinelState} (h : SentinelInv s) {e : Event} {name : Bytes}
    {f : Master → Except Fault (Nat × Master)}
    (hf : ∀ m, s.masters name = some m → ∃ r, f m = .ok r ∧ Inv r.2 ∧
      (SetsConfigEpoch m r.2 e → ReportsPromotion m name e)) :
    StepOk s e (onMaster s name f) := by
  have hsame : ∀ n m, SetsConfigEpoch m m e → ReportsPromotion m n e :=
    fun _ _ hsets => absurd hsets (Quiet.not_sets (.of_state rfl rfl))
  unfold onMaster
  cases hm : s.masters name with
  | none => exact ⟨s, rfl, h, stepsAre_refl hsame⟩
  | some m =>
    obtain ⟨r, hr, hinv, hsets⟩ := hf m hm
    simp only [hr]
    exact ⟨_, rfl, SentinelInv.set (s := { s with current_epoch := r.1 }) h hinv, stepsAre_set hm hsets hsame⟩

theorem onMaster_quiet {s : SentinelState} (h : SentinelInv s) {e : Event} {name : Bytes}
    {f : Master → Except Fault (Nat × Master)}
    (hf : ∀ m, s.masters name = some m → Inv m → Keeps m ((f m).map Prod.snd)) :
    StepOk s e (onMaster s name f) := by
  refine onMaster_ok h fun m hm => ?_
  obtain ⟨m', hr, hinv, hquiet⟩ := hf m hm (h name m hm)
  cases hfm : f m with
  | error err =>
    rw [hfm] at hr
    cases hr
  | ok r =>
    rw [hfm, Except.map, Except.ok.injEq] at hr
    exact ⟨r, rfl, hr ▸ hinv, fun hsets => absurd hsets (hr ▸ hquiet).not_sets⟩

theorem failoverCommand_keeps (o : Outside) (current_epoch : Nat) {m : Master} (h : Inv m) :
    Inv (failoverCommand o current_epoch m).2 ∧ Quiet m (failoverCommand o current_epoch m).2 := by
  unfold failoverCommand
  split
  · exact ⟨h, .of_state rfl rfl⟩
  · rename_i hidle
    split
    · exact ⟨h, .of_state rfl rfl⟩
    · obtain ⟨hinv, hquiet⟩ := start_keeps o current_epoch h (Bool.eq_false_iff.mpr hidle)
      exact ⟨hinv.slaves rfl rfl rfl (like_refl _ _), ⟨hquiet.epoch, hquiet.state⟩⟩

theorem rehash_keeps {m : Master} (h : Inv m) {slaves : List Slave} (hperm : slaves.Perm m.slaves) :
    Inv { m with slaves := slaves } := by
  refine ⟨⟨fun hcode => ?_, fun slave hslave => h.others slave (hperm.subset hslave), h.in_progress⟩,
    (hperm.map _).nodup_iff.mpr h.names, h.idle, fun slave hslave => h.sent slave (hperm.subset hslave)⟩
  obtain ⟨slave, hslave, hprom⟩ := h.promoted hcode
  exact ⟨slave, hperm.symm.subset hslave, hprom⟩

theorem hello_ok (o : Outside) {s : SentinelState} (h : SentinelInv s) (hello : Hello) :
    step o s (.hello hello) = .error .nullSender ∨ StepOk s (.hello hello) (step o s (.hello hello)) := by
  have hsame : ∀ n m, SetsConfigEpoch m m (.hello hello) → ReportsPromotion m n (.hello hello) :=
    fun _ _ hsets => absurd hsets (Quiet.not_sets (.of_state rfl rfl))
  show sentinelProcessHelloMessage o hello s = _ ∨ StepOk s _ (sentinelProcessHelloMessage o hello s)
  unfold sentinelProcessHelloMessage
  cases hm : s.masters hello.master_name with
  | none => exact .inr ⟨s, rfl, h, stepsAre_refl hsame⟩
  | some m =>
    obtain ⟨hsender, hstate⟩ := helloSender_keeps o hello (h _ m hm)
    simp only [bind, Except.bind, pure, Except.pure]
    rcases helloConfig_keeps o hello (helloSender o hello m).1 hsender with herr | ⟨m', hok, hinv, hcase⟩
    · rw [herr]
      exact .inl rfl
    · rw [hok]
      refine .inr ⟨_, rfl, SentinelInv.set (s := { s with current_epoch := _ }) h hinv,
        stepsAre_set hm (fun hsets => ?_) hsame⟩
      rcases hsets with ⟨hwait, hreconf⟩ | ⟨-, hhello⟩
      · rcases hcase with hcase | hcase
        · rw [hcase, hstate, hwait] at hreconf
          cases hreconf
        · rw [hcase] at hreconf
          cases hreconf
      · exact absurd rfl (hhello hello)

theorem step_ok (o : Outside) {s : SentinelState} (h : SentinelInv s) {e : Event} (hpossible : Possible o s e)
    (hfine : e.Fine o s) : step o s e = .error .nullSender ∨ StepOk s e (step o s e) := by
  have hsame : ∀ n m, SetsConfigEpoch m m e → ReportsPromotion m n e :=
    fun _ _ hsets => absurd hsets (Quiet.not_sets (.of_state rfl rfl))
  cases e with
  | monitor name ip port quorum =>
    refine .inr ?_
    rw [step]
    split
    · rename_i m hnone hm
      refine ⟨_, rfl, h.set ?_, ?_⟩
      · obtain ⟨addr, -, rfl⟩ := Option.map_eq_some_iff.mp hm
        exact inv_idle rfl rfl rfl rfl
      · intro n a b ha hb
        by_cases hn : n = name
        · rw [hn, hnone] at ha
          cases ha
        · rw [setMaster_of_ne s hn, ha, Option.some.injEq] at hb
          rw [hb]
          exact hsame n b
    · exact ⟨s, rfl, h, stepsAre_refl hsame⟩
  | remove name =>
    refine .inr ⟨_, rfl, fun n m hm => ?_, fun n a b ha hb => ?_⟩
    · by_cases hn : n = name
      · have hgone : Function.update s.masters name none n = none := by rw [hn, Function.update_self]
        cases hgone.symm.trans hm
      · exact h n m ((Function.update_of_ne hn none s.masters).symm.trans hm)
    · by_cases hn : n = name
      · have hgone : Function.update s.masters name none n = none := by rw [hn, Function.update_self]
        cases hgone.symm.trans hb
      · have hkept := (Function.update_of_ne hn none s.masters).symm.trans hb
        rw [Option.some.inj (ha.symm.trans hkept)]
        exact hsame n b
  | reset name =>
    exact .inr (onMaster_quiet h fun m _ _ => ⟨_, rfl, inv_reset _ _ m, quiet_reset _ _ m⟩)
  | failover name =>
    exact .inr (onMaster_quiet h fun m _ hm => ⟨_, rfl, failoverCommand_keeps o _ hm⟩)
  | set name quorum down_after_period failover_timeout parallel_syncs =>
    exact .inr (onMaster_quiet h fun m _ hm =>
      ⟨_, rfl, hm.slaves rfl rfl rfl (like_refl _ _), .of_state rfl rfl⟩)
  | timer name s_down o_down =>
    exact .inr (onMaster_quiet h fun m hm hinv => handleMaster_keeps o s_down o_down s hinv (hpossible m hm))
  | switch name =>
    refine .inr (onMaster_quiet h fun m _ hm => ?_)
    split
    · rename_i hstate
      obtain ⟨m', hm', hkeeps⟩ := switch_keeps o hm hstate
      rw [hm']
      exact ⟨m', rfl, hkeeps⟩
    · exact .same hm
  | tilt on => exact .inr ⟨_, rfl, h, stepsAre_refl hsame⟩
  | masterInfo name lines =>
    exact .inr (onMaster_quiet h fun m _ hm => ⟨_, rfl, refreshMaster_keeps o lines hm⟩)
  | slaveInfo name slave lines =>
    refine .inr (onMaster_ok h fun m hm => ?_)
    obtain ⟨m', hm', hinv, hcase⟩ := refreshSlave_fine o s.tilt lines slave (h name m hm)
      fun ri htilt hlookup => hfine m ri htilt hm hlookup
    rw [hm']
    refine ⟨_, rfl, hinv, fun hsets => ?_⟩
    rcases hcase with hquiet | ⟨hrole, hprom⟩
    · exact absurd hsets hquiet.not_sets
    · exact ⟨slave, lines, rfl, hrole, hprom⟩
  | slaveLink name slave link =>
    refine .inr (onMaster_quiet h fun m _ hm => ⟨_, rfl, hm.slaves rfl rfl rfl ?_, .of_state rfl rfl⟩)
    refine like_map (fun a => ?_) m.slaves
    split
    · exact ⟨rfl, rfl, .inl⟩
    · exact Like.refl _ a
  | hello hello => exact hello_ok o h hello
  | isMasterDown name req_epoch req_runid =>
    refine .inr (onMaster_quiet h fun m _ hm => ?_)
    obtain ⟨hinv, hquiet, -⟩ := inv_vote o s.runid s.current_epoch hm req_epoch req_runid
    exact ⟨_, rfl, hinv, hquiet⟩
  | vote name sentinel leader leader_epoch =>
    exact .inr (onMaster_quiet h fun m _ hm =>
      ⟨_, rfl, hm.slaves rfl rfl rfl (like_refl _ _), .of_state rfl rfl⟩)
  | rehash name slaves =>
    exact .inr (onMaster_quiet h fun m hm hinv =>
      ⟨_, rfl, rehash_keeps hinv (hpossible m hm), .of_state rfl rfl⟩)

theorem run_ok {s : SentinelState} {es : List (Outside × Event)} (h : SentinelInv s)
    (hpossible : PossibleRun s es) (hfine : FineRun s es) :
    run s es = .error .nullSender ∨ ∃ s', run s es = .ok s' ∧ SentinelInv s' := by
  induction es generalizing s with
  | nil => exact .inr ⟨s, rfl, h⟩
  | cons x es ih =>
    obtain ⟨o, e⟩ := x
    rw [run]
    rcases step_ok o h hpossible.1 hfine.1 with herr | ⟨s', hs', hinv, -⟩
    · rw [herr]
      exact .inl rfl
    · rw [hs']
      exact ih hinv (hpossible.2 s' hs') (hfine.2 s' hs')

theorem run_at {s s₁ : SentinelState} {before after : List (Outside × Event)} {o : Outside} {e : Event}
    (h : SentinelInv s) (hpossible : PossibleRun s (before ++ (o, e) :: after))
    (hfine : FineRun s (before ++ (o, e) :: after)) (hrun : run s before = .ok s₁) :
    SentinelInv s₁ ∧ Possible o s₁ e ∧ e.Fine o s₁ := by
  induction before generalizing s with
  | nil =>
    cases hrun
    exact ⟨h, hpossible.1, hfine.1⟩
  | cons x before ih =>
    obtain ⟨o', e'⟩ := x
    rw [run] at hrun
    rcases step_ok o' h hpossible.1 hfine.1 with herr | ⟨s', hs', hinv, -⟩
    · rw [herr] at hrun
      cases hrun
    · rw [hs'] at hrun
      exact ih hinv (hpossible.2 s' hs') (hfine.2 s' hs') hrun

theorem safe_of_fine {s : SentinelState} {es : List (Outside × Event)} (h : SentinelInv s)
    (hpossible : PossibleRun s es) (hfine : FineRun s es) : Safe s es := by
  refine ⟨fun s' hrun name m hm => ?_, ?_, fun before o e after s₁ s₂ name m m' hes hrun hstep hm hm' => ?_⟩
  · rcases run_ok h hpossible hfine with herr | ⟨s'', hs'', hinv⟩
    · rw [herr] at hrun
      cases hrun
    · rw [hs'', Except.ok.injEq] at hrun
      exact (hinv name m (hrun ▸ hm)).toConsistent
  · rcases run_ok h hpossible hfine with herr | ⟨s'', hs'', -⟩
    · rw [herr]
      exact ⟨fun h => (by cases h), fun h => (by cases h)⟩
    · rw [hs'']
      exact ⟨fun h => (by cases h), fun h => (by cases h)⟩
  · subst hes
    obtain ⟨hinv, hp, hf⟩ := run_at h hpossible hfine hrun
    rcases step_ok o hinv hp hf with herr | ⟨s', hs', -, hsteps⟩
    · rw [herr] at hstep
      cases hstep
    · rw [hs', Except.ok.injEq] at hstep
      exact hsteps name m m' hm (hstep ▸ hm')

theorem fine_of_safe {s : SentinelState} {o : Outside} {e : Event} {es : List (Outside × Event)}
    (h : SentinelInv s) (hsafe : Safe s ((o, e) :: es)) : e.Fine o s := by
  cases e with
  | slaveInfo name slave lines =>
    intro m ri htilt hm hlookup
    have hstep : step o s (.slaveInfo name slave lines) =
        ((refreshSlave o false lines slave m).map fun m => (s.current_epoch, m)).map fun r =>
          setMaster { s with current_epoch := r.1 } name r.2 := by
      rw [step, onMaster, hm, htilt]
    constructor
    · intro hrole hwait
      obtain ⟨m', hm', hstate⟩ := refreshSlave_other o lines (h name m hm) hlookup hrole hwait
      rw [hm'] at hstep
      obtain ⟨slave', lines', heq, -, hprom⟩ := hsafe.config_epoch [] o _ es s _ name m m' rfl rfl hstep hm
        (setMaster_self _ name m') (.inl ⟨hwait, hstate⟩)
      cases heq
      exact hprom
    · intro hrole hport hhost
      rw [refreshSlave_null o lines (h name m hm) hlookup hrole hport hhost] at hstep
      refine hsafe.no_fault.2 ?_
      rw [run, hstep]
      rfl
  | _ => exact trivial

theorem safe_tail {s s' : SentinelState} {o : Outside} {e : Event} {es : List (Outside × Event)}
    (hsafe : Safe s ((o, e) :: es)) (hstep : step o s e = .ok s') : Safe s' es := by
  have hrun : ∀ es, run s ((o, e) :: es) = run s' es := fun es => by
    rw [run, hstep]
    rfl
  refine ⟨fun s'' hs'' => hsafe.consistent s'' ((hrun es).trans hs''), hrun es ▸ hsafe.no_fault,
    fun before o' e' after s₁ s₂ name m m' hes hbefore => ?_⟩
  exact hsafe.config_epoch ((o, e) :: before) o' e' after s₁ s₂ name m m' (by rw [hes]; rfl)
    ((hrun before).trans hbefore)

theorem fineRun_of_safe {s : SentinelState} {es : List (Outside × Event)} (h : SentinelInv s)
    (hpossible : PossibleRun s es) (hsafe : Safe s es) : FineRun s es := by
  induction es generalizing s with
  | nil => exact trivial
  | cons x es ih =>
    obtain ⟨o, e⟩ := x
    have hfine := fine_of_safe h hsafe
    refine ⟨hfine, fun s' hs' => ?_⟩
    rcases step_ok o h hpossible.1 hfine with herr | ⟨s'', hs'', hinv, -⟩
    · rw [herr] at hs'
      cases hs'
    · rw [hs'', Except.ok.injEq] at hs'
      subst hs'
      exact ih hinv (hpossible.2 _ hs'') (safe_tail hsafe hs'')

/-- A run keeps the failover consistent, sets the epoch for a report of the promoted slave only and meets no
fault, exactly when all its replies to INFO are fine. -/
theorem failover_safe_iff (runid : Bytes) (es : List (Outside × Event))
    (hpossible : PossibleRun (start runid) es) :
    Safe (start runid) es ↔ FineRun (start runid) es := by
  have hstart : SentinelInv (start runid) := fun _ _ h => (by cases h)
  exact ⟨fineRun_of_safe hstart hpossible, safe_of_fine hstart hpossible⟩

def localAddr (port : Int) : Addr := { ip := ascii "127.0.0.1", port := port }

def quietOutside : Outside :=
  { now := 0
    desync := 0
    order := id
    selected := some (localAddr 6380)
    sends := fun _ => true
    resolve := some }

def handFailover : List (Outside × Event) :=
  [.monitor (ascii "m") (ascii "127.0.0.1") 6379 2,
    .masterInfo (ascii "m") [.role .master, .slave (ascii "127.0.0.1") 6380, .slave (ascii "127.0.0.1") 6381],
    .slaveLink (ascii "m") (localAddr 6380)
      { s_down := false, o_down := false, disconnected := false, last_avail_time := 0 },
    .failover (ascii "m"), .timer (ascii "m") false false, .timer (ascii "m") false false,
    .timer (ascii "m") false false].map fun e => (quietOutside, e)

def otherReport : Event := .slaveInfo (ascii "m") (localAddr 6381) [.role .master]

theorem handFailover_waits :
    ∃ s m, run (start (ascii "a")) handFailover = .ok s ∧ s.masters (ascii "m") = some m ∧
      m.failover_state = .wait_promotion ∧ m.promoted_slave = some (localAddr 6380) ∧
      ∃ s' m', step quietOutside s otherReport = .ok s' ∧ s'.masters (ascii "m") = some m' ∧
        m'.failover_state = .reconf_slaves :=
  ⟨_, _, rfl, rfl, rfl, rfl, _, _, rfl, rfl, rfl⟩

theorem selects_only {now : Int} {m : Master} (name : Addr) {slave : Slave}
    (h : goodSlaves now m = [slave]) (hname : slave.name = name) : Selects now m (some name) := by
  refine ⟨some slave, ⟨[slave], ⟨?_, fun _ => List.pairwise_singleton _ slave⟩, rfl⟩, ?_⟩
  · rw [h]
  · rw [← hname]
    rfl

theorem possible_other :
    PossibleRun (start (ascii "a")) (handFailover ++ [(quietOutside, otherReport)]) := by
  refine ⟨trivial, fun s₁ h₁ => ?_⟩
  cases h₁
  refine ⟨trivial, fun s₂ h₂ => ?_⟩
  cases h₂
  refine ⟨trivial, fun s₃ h₃ => ?_⟩
  cases h₃
  refine ⟨fun m hm => ?_, fun s₄ h₄ => ?_⟩
  · cases hm
    exact selects_only (localAddr 6380) rfl rfl
  cases h₄
  refine ⟨fun m hm => ?_, fun s₅ h₅ => ?_⟩
  · cases hm
    exact selects_only (localAddr 6380) rfl rfl
  cases h₅
  refine ⟨fun m hm => ?_, fun s₆ h₆ => ?_⟩
  · cases hm
    exact selects_only (localAddr 6380) rfl rfl
  cases h₆
  refine ⟨fun m hm => ?_, fun s₇ h₇ => ?_⟩
  · cases hm
    exact selects_only (localAddr 6380) rfl rfl
  exact ⟨trivial, fun _ _ => trivial⟩

/-- The run with the report of the other slave. -/
theorem failover_safe_other :
    Safe (start (ascii "a")) (handFailover ++ [(quietOutside, otherReport)]) ↔
      FineRun (start (ascii "a")) (handFailover ++ [(quietOutside, otherReport)]) :=
  failover_safe_iff (ascii "a") _ possible_other

/-- The other slave is taken for the promoted one. -/
theorem other_slave_ends_wait :
    PossibleRun (start (ascii "a")) (handFailover ++ [(quietOutside, otherReport)]) ∧
      ¬ Safe (start (ascii "a")) (handFailover ++ [(quietOutside, otherReport)]) := by
  refine ⟨possible_other, fun hsafe => ?_⟩
  obtain ⟨s, m, hrun, hm, hwait, hprom, s', m', hstep, hm', hstate⟩ := handFailover_waits
  obtain ⟨slave, lines, heq, -, hslave⟩ := hsafe.config_epoch handFailover quietOutside otherReport [] s s'
    _ m m' rfl hrun hstep hm hm' (.inl ⟨hwait, hstate⟩)
  cases heq
  rw [hprom] at hslave
  exact absurd hslave (by decide)

end RedisCluster.Sentinel
