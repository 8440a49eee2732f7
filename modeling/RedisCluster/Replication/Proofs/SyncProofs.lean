import RedisCluster.Replication.Sync

/-!
# No slave is left waiting

Every step keeps `NobodyLeft`, but for the end of a BGSAVE after which the next one cannot be started: the
slaves that waited for its start are in the other waiting state by then, so they are not freed.
-/

namespace RedisCluster.Replication

open RedisCluster.Lib

variable {s : Master}

theorem nobodyLeft_initial : NobodyLeft initial := fun _ h => absurd h List.not_mem_nil

theorem Waits.congr {t : Master} {slave : Slave} (h : Waits s slave) (hchild : t.rdb_child = s.rdb_child) :
    Waits t slave := by
  unfold Waits at h ⊢
  rw [hchild]
  exact h

theorem NobodyLeft.add (h : NobodyLeft s) {slave : Slave} (hslave : Waits s slave) :
    NobodyLeft (addSlave s slave) := by
  intro x hx
  rcases List.mem_append.mp hx with hx | hx
  · exact (h x hx).congr rfl
  · rw [List.mem_singleton.mp hx]
    exact hslave.congr rfl

theorem NobodyLeft.idle (h : NobodyLeft s) (hchild : s.rdb_child = none) {slave : Slave}
    (hslave : slave ∈ s.slaves) :
    slave.replstate ≠ .waitBgsaveStart ∧ slave.replstate ≠ .waitBgsaveEnd := by
  have hw := h slave hslave
  unfold Waits at hw
  constructor
  · intro hstate
    rw [hstate, hchild] at hw
    cases hw
  · intro hstate
    rw [hstate] at hw
    obtain ⟨child, from_, hsome, -⟩ := hw
    rw [hchild] at hsome
    cases hsome

theorem waits_of_state {slave : Slave} (hstart : slave.replstate ≠ .waitBgsaveStart)
    (hend : slave.replstate ≠ .waitBgsaveEnd) (t : Master) : Waits t slave := by
  unfold Waits
  cases hstate : slave.replstate with
  | waitBgsaveStart => exact absurd hstate hstart
  | waitBgsaveEnd => exact absurd hstate hend
  | sendBulk => trivial
  | online => trivial

theorem rdbSaveBackground_keeps (h : NobodyLeft s) (ok : Bool) :
    NobodyLeft (rdbSaveBackground s ok).1 := by
  unfold rdbSaveBackground
  cases hchild : s.rdb_child with
  | some child => exact h
  | none =>
    rw [if_neg (by decide)]
    cases ok with
    | false => exact h
    | true =>
      intro slave hslave
      obtain ⟨hstart, hend⟩ := h.idle hchild hslave
      exact waits_of_state hstart hend _

theorem syncCommand_keeps (h : NobodyLeft s) (id : Nat) (ok : Bool) :
    NobodyLeft (syncCommand s id ok) := by
  unfold syncCommand
  split
  · exact h
  · cases hchild : s.rdb_child with
    | some child =>
      rw [if_pos (by rfl)]
      cases hfind : s.slaves.find? fun slave => slave.replstate == .waitBgsaveEnd with
      | some slave =>
        have hstate : slave.replstate = .waitBgsaveEnd := by
          simpa using List.find?_some hfind
        have hw := h slave (List.mem_of_find?_eq_some hfind)
        unfold Waits at hw
        rw [hstate] at hw
        exact h.add hw
      | none =>
        refine h.add ?_
        show s.rdb_child.isSome = true
        rw [hchild]
        rfl
    | none =>
      rw [if_neg (by decide)]
      cases ok with
      | false =>
        have hr : (rdbSaveBackground s false).2 = false := by
          unfold rdbSaveBackground
          rw [hchild]
          rfl
        dsimp only
        rw [hr]
        exact h
      | true =>
        have hr : rdbSaveBackground s true =
            ({ s with rdb_child := some { snapshot := s.version } }, true) := by
          unfold rdbSaveBackground
          rw [hchild]
          rfl
        have hkeeps := rdbSaveBackground_keeps h true
        rw [hr] at hkeeps ⊢
        exact hkeeps.add ⟨_, _, rfl, rfl, Nat.le_refl _⟩

theorem updateSlave_cases (s : Master) (bgsaveerr : Bool) (fails : Nat → Bool) {slave slave' : Slave}
    (h : updateSlave s bgsaveerr fails slave = some slave') :
    (slave.replstate = .waitBgsaveStart ∧ slave'.replstate = .waitBgsaveEnd ∧
        slave'.fedFrom = some s.version) ∨
      (slave.replstate ≠ .waitBgsaveStart ∧ slave'.replstate ≠ .waitBgsaveStart ∧
        slave'.replstate ≠ .waitBgsaveEnd) := by
  unfold updateSlave at h
  cases hstate : slave.replstate with
  | waitBgsaveStart =>
    rw [hstate] at h
    cases h
    exact Or.inl ⟨rfl, rfl, rfl⟩
  | waitBgsaveEnd =>
    rw [hstate] at h
    dsimp only at h
    split at h
    · cases h
    · split at h
      · cases h
      · cases h
        exact Or.inr ⟨by decide, (fun hc => by cases hc), (fun hc => by cases hc)⟩
  | sendBulk =>
    rw [hstate] at h
    cases h
    exact Or.inr ⟨by decide, by rw [hstate]; decide, by rw [hstate]; decide⟩
  | online =>
    rw [hstate] at h
    cases h
    exact Or.inr ⟨by decide, by rw [hstate]; decide, by rw [hstate]; decide⟩

theorem bgsaveDone_keeps_iff (h : NobodyLeft s) (bgsaveerr : Bool) (fails : Nat → Bool) (ok : Bool) :
    NobodyLeft (backgroundSaveDoneHandler s bgsaveerr fails ok) ↔
      (s.rdb_child.isSome = true →
        (s.slaves.any fun slave => slave.replstate == .waitBgsaveStart) = true → ok = true) := by
  unfold backgroundSaveDoneHandler
  cases hchild : s.rdb_child with
  | none =>
    rw [if_neg (by decide)]
    exact ⟨fun _ hc => (by cases hc), fun _ => h⟩
  | some child =>
    rw [if_pos (by rfl)]
    unfold updateSlavesWaitingBgsave
    dsimp only
    cases hany : s.slaves.any fun slave => slave.replstate == .waitBgsaveStart with
    | false =>
      rw [if_neg (by decide)]
      refine ⟨fun _ _ hc => (by cases hc), fun _ slave hslave => ?_⟩
      obtain ⟨old, hold, hupdate⟩ := List.mem_filterMap.mp hslave
      rcases updateSlave_cases _ bgsaveerr fails hupdate with ⟨hstart, -⟩ | ⟨-, hnot⟩
      · have htrue : (s.slaves.any fun slave => slave.replstate == .waitBgsaveStart) = true :=
          List.any_eq_true.mpr ⟨old, hold, by rw [hstart]; rfl⟩
        rw [hany] at htrue
        cases htrue
      · exact waits_of_state hnot.1 hnot.2 _
    | true =>
      rw [if_pos rfl]
      cases ok with
      | true =>
        refine ⟨fun _ _ _ => rfl, fun _ slave hslave => ?_⟩
        obtain ⟨old, hold, hupdate⟩ := List.mem_filterMap.mp hslave
        rcases updateSlave_cases _ bgsaveerr fails hupdate with ⟨-, hend, hfed⟩ | ⟨-, hnot⟩
        · unfold Waits
          rw [hend]
          exact ⟨_, _, rfl, hfed, Nat.le_refl _⟩
        · exact waits_of_state hnot.1 hnot.2 _
      | false =>
        refine ⟨fun hnobody => ?_, fun himp => (by cases himp rfl rfl)⟩
        obtain ⟨old, hold, hstart⟩ := List.any_eq_true.mp hany
        have hstart' : old.replstate = .waitBgsaveStart := by simpa using hstart
        -- the slave is past the state in which it would be freed
        have hupdate : updateSlave { s with rdb_child := none } bgsaveerr fails old =
            some { old with replstate := .waitBgsaveEnd, fedFrom := some s.version } := by
          unfold updateSlave
          rw [hstart']
        have hmem : ({ old with replstate := .waitBgsaveEnd, fedFrom := some s.version } : Slave) ∈
            (s.slaves.filterMap (updateSlave { s with rdb_child := none } bgsaveerr fails)).filter
              fun slave => slave.replstate != .waitBgsaveStart :=
          List.mem_filter.mpr ⟨List.mem_filterMap.mpr ⟨old, hold, hupdate⟩, rfl⟩
        obtain ⟨child', from_, hsome, -⟩ := hnobody _ hmem
        cases hsome

theorem step_keeps_iff (h : NobodyLeft s) (a : Action) : NobodyLeft (step s a) ↔ NextStarts s a := by
  cases a with
  | write => exact ⟨fun _ => trivial, fun _ slave hslave => (h slave hslave).congr rfl⟩
  | sync id ok => exact ⟨fun _ => trivial, fun _ => syncCommand_keeps h id ok⟩
  | «continue» id =>
    refine ⟨fun _ => trivial, fun _ => ?_⟩
    show NobodyLeft (continueCommand s id)
    unfold continueCommand
    split
    · exact h
    · exact h.add trivial
  | bgsave ok => exact ⟨fun _ => trivial, fun _ => rdbSaveBackground_keeps h ok⟩
  | bgsaveDone bgsaveerr fails ok => exact bgsaveDone_keeps_iff h bgsaveerr fails ok
  | bulkSent id =>
    refine ⟨fun _ => trivial, fun _ slave hslave => ?_⟩
    obtain ⟨old, hold, rfl⟩ := List.mem_map.mp hslave
    by_cases hsent : old.id = id ∧ old.replstate = .sendBulk
    · rw [if_pos hsent]
      trivial
    · rw [if_neg hsent]
      exact (h old hold).congr rfl
  | freeClient id =>
    exact ⟨fun _ => trivial, fun _ slave hslave => (h slave (List.mem_filter.mp hslave).1).congr rfl⟩

theorem nobodyLeftAlong_iff (as : List Action) (s : Master) (h : NobodyLeft s) :
    NobodyLeftAlong s as ↔ RunMeets step NextStarts s as := by
  induction as generalizing s with
  | nil => exact ⟨fun _ => trivial, fun _ => h⟩
  | cons a as ih =>
    have hstep := step_keeps_iff h a
    constructor
    · rintro ⟨-, hrest⟩
      have hnext : NobodyLeft (step s a) := by
        cases as with
        | nil => exact hrest
        | cons b bs => exact hrest.1
      exact ⟨hstep.mp hnext, (ih _ hnext).mp hrest⟩
    · rintro ⟨hok, hrest⟩
      have hnext := hstep.mpr hok
      exact ⟨h, (ih _ hnext).mpr hrest⟩

/-- **No slave is left waiting** in exactly the runs in which each BGSAVE that slaves wait for to start
can be started. -/
theorem no_slave_left_iff (as : List Action) :
    NobodyLeftAlong initial as ↔ RunMeets step NextStarts initial as :=
  nobodyLeftAlong_iff as initial nobodyLeft_initial

/-- A slave comes during a BGSAVE that is not for it, and the next one cannot be started. -/
theorem slave_left_waiting : ¬ NobodyLeftAlong initial
    [.bgsave true, .sync 1 true, .bgsaveDone false (fun _ => false) false] := by
  rintro ⟨-, -, -, hleft⟩
  have hmem : ({ id := 1, replstate := .waitBgsaveEnd, fedFrom := some 0 } : Slave) ∈
      (step (step (step initial (.bgsave true)) (.sync 1 true))
        (.bgsaveDone false (fun _ => false) false)).slaves := List.mem_singleton_self _
  obtain ⟨child, from_, hsome, -⟩ := hleft _ hmem
  cases hsome

end RedisCluster.Replication
