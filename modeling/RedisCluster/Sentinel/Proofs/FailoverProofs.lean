import RedisCluster.Sentinel.Failover

/-!
# The failover of one master

Every function of the failover keeps the invariant of the master, meets no assertion, and follows no pointer to
nothing. None but the reply to INFO of a slave brings the master from waiting for the promotion to the next
state.
-/

namespace RedisCluster.Sentinel

open RedisCluster.Util

/-- What is kept on the way: names are unique, there is no promoted slave before one is selected, and a slave
is told its new master only when there is one. -/
structure Inv (m : Master) : Prop extends FailoverState.Consistent m where
  names : (m.slaves.map Slave.name).Nodup
  idle : m.failover_state.code < 3 → m.promoted_slave = none
  sent : ∀ slave ∈ m.slaves, slave.reconf_sent = true → 5 ≤ m.failover_state.code

def Like (code : Nat) (a b : Slave) : Prop :=
  b.name = a.name ∧ b.promoted = a.promoted ∧ (b.reconf_sent = true → a.reconf_sent = true ∨ 5 ≤ code)

theorem Like.refl (code : Nat) (a : Slave) : Like code a a := ⟨rfl, rfl, .inl⟩

theorem like_refl (code : Nat) (l : List Slave) : List.Forall₂ (Like code) l l :=
  List.forall₂_same.mpr fun a _ => Like.refl code a

theorem like_map {code : Nat} {f : Slave → Slave} (hf : ∀ a, Like code a (f a)) (l : List Slave) :
    List.Forall₂ (Like code) l (l.map f) := by
  induction l with
  | nil => exact .nil
  | cons a l ih => exact .cons (hf a) ih

theorem like_names {code : Nat} {l l' : List Slave} (h : List.Forall₂ (Like code) l l') :
    l'.map Slave.name = l.map Slave.name := by
  induction h with
  | nil => rfl
  | cons hab _ ih => rw [List.map_cons, List.map_cons, hab.1, ih]

theorem like_mem {code : Nat} {l l' : List Slave} (h : List.Forall₂ (Like code) l l') {b : Slave}
    (hb : b ∈ l') : ∃ a ∈ l, Like code a b := by
  induction h with
  | nil => exact absurd hb List.not_mem_nil
  | cons hab _ ih =>
    rcases List.mem_cons.mp hb with rfl | hb
    · exact ⟨_, List.mem_cons_self, hab⟩
    · obtain ⟨a, ha, hlike⟩ := ih hb
      exact ⟨a, List.mem_cons_of_mem _ ha, hlike⟩

theorem like_mem' {code : Nat} {l l' : List Slave} (h : List.Forall₂ (Like code) l l') {a : Slave}
    (ha : a ∈ l) : ∃ b ∈ l', Like code a b := by
  induction h with
  | nil => exact absurd ha List.not_mem_nil
  | cons hab _ ih =>
    rcases List.mem_cons.mp ha with rfl | ha
    · exact ⟨_, List.mem_cons_self, hab⟩
    · obtain ⟨b, hb, hlike⟩ := ih ha
      exact ⟨b, List.mem_cons_of_mem _ hb, hlike⟩

theorem code_none {st : FailoverState} : st = .none ↔ st.code = 0 := by
  cases st with
  | none => exact ⟨fun _ => rfl, fun _ => rfl⟩
  | _ => exact ⟨fun h => (by cases h), fun h => (by cases h)⟩

theorem Inv.advance {m m' : Master} (h : Inv m) {p q : FailoverState} (hp : m.failover_state = p)
    (hq : m'.failover_state = q) (hnone : q = .none ↔ p = .none) (h3 : 3 ≤ q.code ↔ 3 ≤ p.code)
    (h5 : 5 ≤ p.code → 5 ≤ q.code) (hflag : m'.failover_in_progress = m.failover_in_progress)
    (hprom : m'.promoted_slave = m.promoted_slave)
    (hslaves : List.Forall₂ (Like q.code) m.slaves m'.slaves) : Inv m' := by
  subst hp hq
  refine ⟨⟨fun hcode => ?_, fun b hb hpromoted => ?_, ?_⟩, ?_, fun hcode => ?_, fun b hb hsent => ?_⟩
  · obtain ⟨a, ha, hname, hpromoted⟩ := h.promoted (h3.mp hcode)
    obtain ⟨b, hb, hlike⟩ := like_mem' hslaves ha
    exact ⟨b, hb, by rw [hprom, hname, hlike.1], by rw [hlike.2.1, hpromoted]⟩
  · obtain ⟨a, ha, hlike⟩ := like_mem hslaves hb
    rw [hprom, hlike.1]
    exact h.others a ha (by rw [← hlike.2.1, hpromoted])
  · rw [hflag, h.in_progress]
    exact not_congr hnone.symm
  · rw [like_names hslaves]
    exact h.names
  · rw [hprom]
    exact h.idle (by omega)
  · obtain ⟨a, ha, hlike⟩ := like_mem hslaves hb
    rcases hlike.2.2 hsent with ha' | hcode
    · exact h5 (h.sent a ha ha')
    · exact hcode

theorem Inv.slaves {m m' : Master} (h : Inv m) (hflag : m'.failover_in_progress = m.failover_in_progress)
    (hprom : m'.promoted_slave = m.promoted_slave) (hstate : m'.failover_state = m.failover_state)
    (hslaves : List.Forall₂ (Like m.failover_state.code) m.slaves m'.slaves) : Inv m' :=
  h.advance rfl hstate Iff.rfl Iff.rfl id hflag hprom hslaves

/-- A step that neither sets the epoch of the configuration nor ends the wait for the promotion. -/
structure Quiet (m m' : Master) : Prop where
  epoch : m'.config_epoch = m.config_epoch
  state : m.failover_state = .wait_promotion → m'.failover_state ≠ .reconf_slaves

theorem Quiet.of_state {m m' : Master} (hepoch : m'.config_epoch = m.config_epoch)
    (hstate : m'.failover_state = m.failover_state) : Quiet m m' where
  epoch := hepoch
  state h := by
    rw [hstate, h]
    exact fun h => (by cases h)

theorem Quiet.to_state {m m' : Master} (hepoch : m'.config_epoch = m.config_epoch)
    (hstate : m'.failover_state ≠ .reconf_slaves) : Quiet m m' :=
  ⟨hepoch, fun _ => hstate⟩

def Keeps (m : Master) (r : Except Fault Master) : Prop := ∃ m', r = .ok m' ∧ Inv m' ∧ Quiet m m'

theorem Keeps.same {m : Master} (h : Inv m) : Keeps m (.ok m) := ⟨m, rfl, h, .of_state rfl rfl⟩

theorem map_name_updateSlave {f : Slave → Slave} (hf : ∀ a, (f a).name = a.name) (name : Addr)
    (l : List Slave) : (updateSlave name f l).map Slave.name = l.map Slave.name := by
  unfold updateSlave
  rw [List.map_map]
  refine List.map_congr_left fun a _ => ?_
  show (if a.name = name then f a else a).name = a.name
  split
  · exact hf a
  · rfl

theorem lookup_mem {m : Master} {name : Addr} {slave : Slave}
    (h : sentinelRedisInstanceLookupSlave m name = some slave) :
    slave ∈ m.slaves ∧ slave.name = name := by
  unfold sentinelRedisInstanceLookupSlave at h
  have hname := List.find?_some h
  exact ⟨List.mem_of_find?_eq_some h, of_decide_eq_true hname⟩

theorem lookup_of_mem {m : Master} (h : Inv m) {slave : Slave} (hslave : slave ∈ m.slaves) :
    sentinelRedisInstanceLookupSlave m slave.name = some slave := by
  cases hlookup : sentinelRedisInstanceLookupSlave m slave.name with
  | none =>
    have hno := List.find?_eq_none.mp hlookup slave hslave
    exact absurd (decide_eq_true rfl) hno
  | some other =>
    obtain ⟨hother, hname⟩ := lookup_mem hlookup
    rw [List.inj_on_of_nodup_map h.names hother hslave hname]

theorem promotedSlave_ok {m : Master} (h : Inv m) (hcode : 3 ≤ m.failover_state.code) :
    ∃ slave ∈ m.slaves, m.promoted_slave = some slave.name ∧ promotedSlave m = .ok slave := by
  obtain ⟨slave, hslave, hname, -⟩ := h.promoted hcode
  refine ⟨slave, hslave, hname, ?_⟩
  rw [promotedSlave, hname, Option.bind_some, lookup_of_mem h hslave]

theorem inv_addSlave (o : Outside) {m : Master} (h : Inv m) (name : Addr) : Inv (addSlave o m name) := by
  unfold addSlave createSlave
  split
  · exact h
  · split
    · exact h
    · rename_i addr _ hfresh
      have hnone : sentinelRedisInstanceLookupSlave m name = none := by
        exact Option.not_isSome_iff_eq_none.mp hfresh
      refine ⟨⟨fun hcode => ?_, fun slave hslave hpromoted => ?_, h.in_progress⟩, ?_, h.idle,
        fun slave hslave hsent => ?_⟩
      · obtain ⟨slave, hslave, hprom⟩ := h.promoted hcode
        exact ⟨slave, List.mem_append_left _ hslave, hprom⟩
      · rcases List.mem_append.mp hslave with hslave | hslave
        · exact h.others slave hslave hpromoted
        · rw [List.mem_singleton.mp hslave] at hpromoted
          cases hpromoted
      · rw [Option.getD_some, List.map_append]
        refine List.Nodup.append h.names (List.nodup_singleton _) fun x hx hx' => ?_
        obtain ⟨slave, hslave, rfl⟩ := List.mem_map.mp hx
        have hno := List.find?_eq_none.mp hnone slave hslave
        exact hno (decide_eq_true (List.mem_singleton.mp hx'))
      · rcases List.mem_append.mp hslave with hslave | hslave
        · exact h.sent slave hslave hsent
        · rw [List.mem_singleton.mp hslave] at hsent
          cases hsent

theorem addSlave_same (o : Outside) (m : Master) (name : Addr) :
    (addSlave o m name).config_epoch = m.config_epoch ∧
      (addSlave o m name).failover_state = m.failover_state := by
  unfold addSlave createSlave
  split
  · exact ⟨rfl, rfl⟩
  · split
    · exact ⟨rfl, rfl⟩
    · exact ⟨rfl, rfl⟩

theorem foldl_addSlave (o : Outside) (names : List Addr) {m : Master} (h : Inv m) :
    Inv (names.foldl (addSlave o) m) ∧ (names.foldl (addSlave o) m).config_epoch = m.config_epoch ∧
      (names.foldl (addSlave o) m).failover_state = m.failover_state := by
  induction names generalizing m with
  | nil => exact ⟨h, rfl, rfl⟩
  | cons name names ih =>
    obtain ⟨hinv, hepoch, hstate⟩ := ih (inv_addSlave o h name)
    exact ⟨hinv, hepoch.trans (addSlave_same o m name).1, hstate.trans (addSlave_same o m name).2⟩

theorem inv_idle {m : Master} (hslaves : m.slaves = []) (hflag : m.failover_in_progress = false)
    (hstate : m.failover_state = .none) (hprom : m.promoted_slave = none) : Inv m := by
  refine ⟨⟨fun hcode => ?_, fun slave hslave => ?_, ?_⟩, ?_, fun _ => hprom, fun slave hslave => ?_⟩
  · rw [hstate] at hcode
    exact absurd hcode (by decide)
  · rw [hslaves] at hslave
    exact absurd hslave List.not_mem_nil
  · rw [hflag, hstate]
    exact ⟨fun h => (by cases h), fun h => absurd rfl h⟩
  · rw [hslaves]
    exact List.nodup_nil
  · rw [hslaves] at hslave
    exact absurd hslave List.not_mem_nil

theorem inv_reset (now : Int) (noSentinels : Bool) (m : Master) :
    Inv (sentinelResetMaster now noSentinels m) :=
  inv_idle rfl rfl rfl rfl

theorem quiet_reset (now : Int) (noSentinels : Bool) (m : Master) :
    Quiet m (sentinelResetMaster now noSentinels m) :=
  .to_state rfl fun h => by cases h

theorem changeAddress_keeps (o : Outside) (ip : Bytes) (port : Int) {m m' : Master}
    (h : sentinelResetMasterAndChangeAddress o ip port m = some m') :
    Inv m' ∧ m'.config_epoch = m.config_epoch ∧ m'.failover_state = .none := by
  obtain ⟨newaddr, -, rfl⟩ := Option.map_eq_some_iff.mp h
  exact foldl_addSlave o _ (inv_idle rfl rfl rfl rfl)

theorem changed_keeps (o : Outside) (ip : Bytes) (port : Int) {m : Master} (h : Inv m) :
    Inv ((sentinelResetMasterAndChangeAddress o ip port m).getD m) ∧
      Quiet m ((sentinelResetMasterAndChangeAddress o ip port m).getD m) := by
  cases hr : sentinelResetMasterAndChangeAddress o ip port m with
  | none => exact ⟨h, .of_state rfl rfl⟩
  | some m' =>
    obtain ⟨hinv, hepoch, hstate⟩ := changeAddress_keeps o ip port hr
    refine ⟨hinv, .to_state hepoch ?_⟩
    rw [Option.getD_some, hstate]
    exact fun h => (by cases h)

theorem vote_same (o : Outside) (runid : Bytes) (current_epoch : Nat) (m : Master) (req_epoch : Nat)
    (req_runid : Bytes) :
    ∃ leader leader_epoch failover_start_time,
      (sentinelVoteLeader o runid current_epoch m req_epoch req_runid).2 = { m with
        leader := leader, leader_epoch := leader_epoch, failover_start_time := failover_start_time } := by
  unfold sentinelVoteLeader
  extract_lets epoch
  split
  · exact ⟨_, _, _, rfl⟩
  · exact ⟨m.leader, m.leader_epoch, m.failover_start_time, rfl⟩

theorem inv_vote (o : Outside) (runid : Bytes) (current_epoch : Nat) {m : Master} (h : Inv m)
    (req_epoch : Nat) (req_runid : Bytes) :
    Inv (sentinelVoteLeader o runid current_epoch m req_epoch req_runid).2 ∧
      Quiet m (sentinelVoteLeader o runid current_epoch m req_epoch req_runid).2 ∧
      (sentinelVoteLeader o runid current_epoch m req_epoch req_runid).2.failover_state =
        m.failover_state := by
  obtain ⟨leader, leader_epoch, time, heq⟩ := vote_same o runid current_epoch m req_epoch req_runid
  rw [heq]
  exact ⟨h.slaves rfl rfl rfl (like_refl _ _), .of_state rfl rfl, rfl⟩

theorem abort_keeps (o : Outside) {m : Master} (h : Inv m) (hsome : m.failover_state ≠ .none)
    (hcode : m.failover_state.code ≤ 4) : Keeps m (sentinelAbortFailover o m) := by
  have hflag := h.in_progress.mpr hsome
  have hle : ¬ FailoverState.wait_promotion.code < m.failover_state.code := Nat.not_lt.mpr hcode
  have hon : ¬ m.failover_in_progress = false := by
    rw [hflag]
    exact fun h => (by cases h)
  unfold sentinelAbortFailover
  rw [if_neg hon, if_neg hle]
  refine ⟨_, rfl, ?_, .to_state rfl fun h => by cases h⟩
  have hnotsent : ∀ slave ∈ m.slaves, slave.reconf_sent = false := fun slave hslave => by
    rw [Bool.eq_false_iff]
    intro hsent
    have := h.sent slave hslave hsent
    omega
  refine ⟨⟨fun hcode => absurd hcode (Nat.not_succ_le_zero 2), fun slave hslave hpromoted => ?_, ?_⟩, ?_,
    fun _ => rfl, fun slave hslave hsent => ?_⟩
  · -- the one slave with the flag has lost it
    simp only [] at hslave
    split at hslave
    · rename_i hnone
      have := h.others slave hslave hpromoted
      rw [hnone] at this
      cases this
    · rename_i name hname
      obtain ⟨a, ha, heq⟩ := List.mem_map.mp hslave
      by_cases hsame : a.name = name
      · rw [if_pos hsame] at heq
        rw [← heq] at hpromoted
        cases hpromoted
      · rw [if_neg hsame] at heq
        rw [heq] at ha hsame
        have := h.others slave ha hpromoted
        rw [hname, Option.some.injEq] at this
        exact absurd this.symm hsame
  · exact ⟨fun h => (by cases h), fun h => absurd rfl h⟩
  · simp only []
    split
    · exact h.names
    · rw [map_name_updateSlave (f := fun slave => { slave with promoted := false }) fun _ => rfl]
      exact h.names
  · simp only [] at hslave
    split at hslave
    · rw [hnotsent slave hslave] at hsent
      cases hsent
    · obtain ⟨a, ha, heq⟩ := List.mem_map.mp hslave
      split at heq
      · rw [← heq] at hsent
        have := hnotsent a ha
        rw [this] at hsent
        cases hsent
      · rw [← heq, hnotsent a ha] at hsent
        cases hsent

theorem start_keeps (o : Outside) (current_epoch : Nat) {m : Master} (h : Inv m)
    (hidle : m.failover_in_progress = false) :
    Inv (sentinelStartFailover o current_epoch m).2 ∧ Quiet m (sentinelStartFailover o current_epoch m).2 := by
  have hnone : m.failover_state = .none := by
    by_contra hsome
    rw [h.in_progress.mpr hsome] at hidle
    cases hidle
  have hcode : m.failover_state.code = 0 := code_none.mp hnone
  refine ⟨⟨⟨fun h => absurd h (by show ¬ 3 ≤ 1; omega), h.others, ?_⟩, h.names, fun _ => h.idle (by omega),
    fun slave hslave hsent => ?_⟩, .to_state rfl fun h => by cases h⟩
  · exact ⟨fun _ h => (by cases h), fun _ => rfl⟩
  · have := h.sent slave hslave hsent
    omega

theorem startIfNeeded_keeps (o : Outside) (current_epoch : Nat) {m : Master} (h : Inv m) :
    Inv (sentinelStartFailoverIfNeeded o current_epoch m).2 ∧
      Quiet m (sentinelStartFailoverIfNeeded o current_epoch m).2 := by
  have hsame : Inv m ∧ Quiet m m := ⟨h, .of_state rfl rfl⟩
  unfold sentinelStartFailoverIfNeeded
  split
  · exact hsame
  · split
    · exact hsame
    · rename_i hidle
      split
      · exact hsame
      · exact start_keeps o current_epoch h (Bool.eq_false_iff.mpr hidle)

theorem startIfNeeded_running (o : Outside) (current_epoch : Nat) {m : Master}
    (hflag : m.failover_in_progress = true) :
    sentinelStartFailoverIfNeeded o current_epoch m = (current_epoch, m) := by
  unfold sentinelStartFailoverIfNeeded
  rw [hflag]
  split
  · rfl
  · rfl

theorem getLeader_keeps (o : Outside) (runid : Bytes) (current_epoch : Nat) {m : Master} (h : Inv m)
    (hflag : m.failover_in_progress = true) (epoch : Nat) :
    ∃ leader current_epoch' m', sentinelGetLeader o runid current_epoch m epoch =
        .ok (leader, current_epoch', m') ∧
      Inv m' ∧ Quiet m m' ∧ m'.failover_state = m.failover_state := by
  have hon : ¬(m.o_down = false ∧ m.failover_in_progress = false) := by
    rw [hflag]
    exact fun h => (by cases h.2)
  unfold sentinelGetLeader
  rw [if_neg hon]
  exact ⟨_, _, _, rfl, inv_vote o runid current_epoch h epoch _⟩

theorem waitStart_keeps (o : Outside) (runid : Bytes) (current_epoch : Nat) {m : Master} (h : Inv m)
    (hstate : m.failover_state = .wait_start) :
    Keeps m ((sentinelFailoverWaitStart o runid current_epoch m).map Prod.snd) := by
  have hflag := h.in_progress.mpr (by rw [hstate]; exact fun h => (by cases h))
  obtain ⟨leader, e, m', hleader, hinv, hquiet, hsame⟩ :=
    getLeader_keeps o runid current_epoch h hflag m.failover_epoch
  have hstate' : m'.failover_state = .wait_start := hsame.trans hstate
  unfold sentinelFailoverWaitStart
  rw [hleader]
  simp only [bind, Except.bind, pure, Except.pure]
  split
  · split
    · obtain ⟨m'', habort, hinv', hquiet'⟩ := abort_keeps o hinv
        (by rw [hstate']; exact fun h => (by cases h)) (by rw [hstate']; decide)
      rw [habort]
      refine ⟨m'', rfl, hinv', ⟨hquiet'.epoch.trans hquiet.epoch, fun hwait => ?_⟩⟩
      rw [hstate] at hwait
      cases hwait
    · exact ⟨m', rfl, hinv, hquiet⟩
  · exact ⟨_, rfl, hinv.advance (q := .select_slave) hstate' rfl (by decide) (by decide) (by decide) rfl rfl
      (like_refl _ _), .to_state hquiet.epoch fun h => by cases h⟩

theorem selectSlave_keeps (o : Outside) {m : Master} (h : Inv m)
    (hstate : m.failover_state = .select_slave) (hselect : Selects o.now m o.selected) :
    Keeps m (sentinelFailoverSelectSlave o m) := by
  have hsome : m.failover_state ≠ .none := by
    rw [hstate]
    exact fun h => (by cases h)
  unfold sentinelFailoverSelectSlave
  split
  · exact abort_keeps o h hsome (by rw [hstate]; decide)
  · rename_i name hname
    rw [hname] at hselect
    obtain ⟨slave, hgood, hslavename⟩ := selects_some hselect
    have hslave : slave ∈ m.slaves := (List.mem_filter.mp hgood).1
    have hnone : m.promoted_slave = none := h.idle (by rw [hstate]; decide)
    have hnotsent : ∀ slave ∈ m.slaves, slave.reconf_sent = false := fun slave hslave => by
      rw [Bool.eq_false_iff]
      intro hsent
      have hcode := h.sent slave hslave hsent
      rw [hstate] at hcode
      exact absurd hcode (by decide)
    refine ⟨_, rfl, ⟨⟨fun _ => ?_, fun b hb hpromoted => ?_, ?_⟩, ?_, fun hcode => ?_,
      fun b hb hsent => ?_⟩, .to_state rfl fun h => by cases h⟩
    · refine ⟨{ slave with promoted := true }, List.mem_map.mpr ⟨slave, hslave, ?_⟩, ?_, rfl⟩
      · rw [if_pos hslavename]
      · rw [← hslavename]
    · obtain ⟨a, ha, rfl⟩ := List.mem_map.mp hb
      by_cases hsame : a.name = name
      · rw [if_pos hsame, ← hsame]
      · rw [if_neg hsame] at hpromoted
        have hprom := h.others a ha hpromoted
        rw [hnone] at hprom
        cases hprom
    · exact ⟨fun _ h => (by cases h), fun _ => h.in_progress.mpr hsome⟩
    · rw [map_name_updateSlave (f := fun slave => { slave with promoted := true }) fun _ => rfl]
      exact h.names
    · exact absurd hcode (Nat.lt_irrefl 3)
    · obtain ⟨a, ha, rfl⟩ := List.mem_map.mp hb
      have hfalse := hnotsent a ha
      split at hsent
      · rw [hfalse] at hsent
        cases hsent
      · rw [hfalse] at hsent
        cases hsent

theorem sendSlaveOfNoOne_keeps (o : Outside) {m : Master} (h : Inv m)
    (hstate : m.failover_state = .send_slaveof_noone) :
    Keeps m (sentinelFailoverSendSlaveOfNoOne o m) := by
  obtain ⟨slave, -, -, hpromoted⟩ := promotedSlave_ok h (by rw [hstate]; decide)
  unfold sentinelFailoverSendSlaveOfNoOne
  rw [hpromoted]
  simp only [bind, Except.bind, pure, Except.pure]
  split
  · split
    · exact abort_keeps o h (by rw [hstate]; exact fun h => (by cases h)) (by rw [hstate]; decide)
    · exact .same h
  · split
    · exact ⟨_, rfl, h.advance (q := .wait_promotion) hstate rfl (by decide) (by decide) (by decide) rfl rfl
        (like_refl _ _), .to_state rfl fun h => by cases h⟩
    · exact .same h

theorem waitPromotion_keeps (o : Outside) {m : Master} (h : Inv m)
    (hstate : m.failover_state = .wait_promotion) : Keeps m (sentinelFailoverWaitPromotion o m) := by
  unfold sentinelFailoverWaitPromotion
  split
  · exact abort_keeps o h (by rw [hstate]; exact fun h => (by cases h)) (by rw [hstate]; decide)
  · exact .same h

theorem like_reconfTimeout (now : Int) (a : Slave) : Like 5 a (reconfTimeout now a) := by
  unfold reconfTimeout
  split
  · exact ⟨rfl, rfl, fun _ => .inr (Nat.le_refl 5)⟩
  · exact Like.refl 5 a

theorem reconfLoop_ok (o : Outside) {m : Master} (h : Inv m) (hcode : 3 ≤ m.failover_state.code)
    (in_progress : Nat) (l : List Slave) :
    ∃ l', reconfLoop o m in_progress l = .ok l' ∧ List.Forall₂ (Like 5) l l' := by
  obtain ⟨promoted, -, -, hpromoted⟩ := promotedSlave_ok h hcode
  induction l generalizing in_progress with
  | nil => exact ⟨[], rfl, .nil⟩
  | cons a l ih =>
    obtain ⟨l', hl', hlike⟩ := ih in_progress
    obtain ⟨l'', hl'', hlike'⟩ := ih (in_progress + 1)
    have htimeout := like_reconfTimeout o.now a
    rw [reconfLoop]
    simp only [bind, Except.bind, pure, Except.pure, hpromoted, hl', hl'']
    split
    · exact ⟨_, rfl, like_refl 5 _⟩
    · split
      · exact ⟨_, rfl, .cons (Like.refl 5 a) hlike⟩
      · split
        · exact ⟨_, rfl, .cons htimeout hlike⟩
        · split
          · exact ⟨_, rfl, .cons ⟨htimeout.1, htimeout.2.1, fun _ => .inr (Nat.le_refl 5)⟩ hlike'⟩
          · exact ⟨_, rfl, .cons htimeout hlike⟩

theorem reconfEnd_keeps (o : Outside) {m : Master} (h : Inv m) (hstate : m.failover_state = .reconf_slaves) :
    Inv (reconfEnd o m) ∧ Quiet m (reconfEnd o m) ∧ (reconfEnd o m).slaves = m.slaves ∧
      5 ≤ (reconfEnd o m).failover_state.code := by
  unfold reconfEnd
  extract_lets
  split
  · exact ⟨h.advance (q := .update_config) hstate rfl (by decide) (by decide) (by decide) rfl rfl
      (like_refl _ _), .to_state rfl fun h => (by cases h), rfl, Nat.le_succ 5⟩
  · exact ⟨h, .of_state rfl rfl, rfl, by rw [hstate]; decide⟩

theorem detectEnd_keeps (o : Outside) {m : Master} (h : Inv m) (hstate : m.failover_state = .reconf_slaves) :
    Keeps m (sentinelFailoverDetectEnd o m) := by
  obtain ⟨promoted, -, -, hpromoted⟩ := promotedSlave_ok h (by rw [hstate]; decide)
  obtain ⟨hinv, hquiet, hslaves, hcode⟩ := reconfEnd_keeps o h hstate
  unfold sentinelFailoverDetectEnd
  split
  · exact .same h
  · rw [hpromoted]
    simp only [bind, Except.bind, pure, Except.pure]
    split
    · exact .same h
    · split
      · rw [← hslaves]
        refine ⟨_, rfl, hinv.slaves rfl rfl rfl (like_map (fun a => ?_) _), ⟨hquiet.epoch, hquiet.state⟩⟩
        split
        · exact ⟨rfl, rfl, fun _ => .inr hcode⟩
        · exact Like.refl _ a
      · exact ⟨_, rfl, hinv, hquiet⟩

theorem reconfNextSlave_keeps (o : Outside) {m : Master} (h : Inv m)
    (hstate : m.failover_state = .reconf_slaves) : Keeps m (sentinelFailoverReconfNextSlave o m) := by
  unfold sentinelFailoverReconfNextSlave
  obtain ⟨l', hl', hlike⟩ := reconfLoop_ok o h (by rw [hstate]; decide)
    (m.slaves.countP fun slave => slave.reconf_sent ∨ slave.reconf_inprog) m.slaves
  simp only [bind, Except.bind, hl']
  have hinv : Inv { m with slaves := l' } := h.slaves rfl rfl rfl (by rw [hstate]; exact hlike)
  obtain ⟨m', hm', hinv', hquiet⟩ := detectEnd_keeps o hinv hstate
  exact ⟨m', hm', hinv', ⟨hquiet.epoch, hquiet.state⟩⟩

theorem stateMachine_keeps (o : Outside) (runid : Bytes) (current_epoch : Nat) {m : Master} (h : Inv m)
    (hselect : Selects o.now m o.selected) :
    Keeps m ((sentinelFailoverStateMachine o runid current_epoch m).map Prod.snd) := by
  have hpair : ∀ r : Except Fault Master, Keeps m r →
      Keeps m ((r.map fun m => (current_epoch, m)).map Prod.snd) := by
    rintro r ⟨m', rfl, hkeeps⟩
    exact ⟨m', rfl, hkeeps⟩
  unfold sentinelFailoverStateMachine
  split
  · exact .same h
  · split
    · exact waitStart_keeps o runid current_epoch h ‹_›
    · exact hpair _ (selectSlave_keeps o h ‹_› hselect)
    · exact hpair _ (sendSlaveOfNoOne_keeps o h ‹_›)
    · exact hpair _ (waitPromotion_keeps o h ‹_›)
    · exact hpair _ (reconfNextSlave_keeps o h ‹_›)
    · exact .same h

theorem switch_keeps (o : Outside) {m : Master} (h : Inv m)
    (hstate : m.failover_state = .update_config) :
    Keeps m (sentinelFailoverSwitchToPromotedSlave o m) := by
  obtain ⟨promoted, -, hname, hpromoted⟩ := promotedSlave_ok h (by rw [hstate]; decide)
  unfold sentinelFailoverSwitchToPromotedSlave
  rw [hname, hpromoted]
  exact ⟨_, rfl, changed_keeps o _ _ h⟩

theorem setDown_inv {m : Master} (h : Inv m) (now : Int) (s_down o_down : Bool) :
    Inv (setDown now s_down o_down m) :=
  h.slaves rfl rfl rfl (like_refl _ _)

theorem selects_start {o : Outside} {current_epoch : Nat} {m : Master} {selected : Option Addr}
    (h : Selects o.now m selected) :
    Selects o.now (sentinelStartFailoverIfNeeded o current_epoch m).2 selected := by
  unfold sentinelStartFailoverIfNeeded
  split
  · exact h
  · split
    · exact h
    · split
      · exact h
      · cases selected with
        | none => exact h
        | some name => exact h

theorem handleMaster_keeps (o : Outside) (s_down o_down : Bool) (s : SentinelState) {m : Master} (h : Inv m)
    (hselect : Selects o.now (setDown o.now s_down o_down m) o.selected) :
    Keeps m ((handleMaster o s_down o_down s m).map Prod.snd) := by
  unfold handleMaster
  split
  · exact .same h
  · obtain ⟨hinv, hquiet⟩ := startIfNeeded_keeps o s.current_epoch (setDown_inv h o.now s_down o_down)
    obtain ⟨m', hm', hinv', hquiet'⟩ := stateMachine_keeps o s.runid _ hinv (selects_start hselect)
    refine ⟨m', hm', hinv', ⟨hquiet'.epoch.trans hquiet.epoch, fun hwait => hquiet'.state ?_⟩⟩
    have hflag := h.in_progress.mpr (by rw [hwait]; exact fun h => (by cases h))
    rw [startIfNeeded_running o s.current_epoch (m := setDown o.now s_down o_down m) hflag]
    exact hwait

end RedisCluster.Sentinel
