import RedisCluster.Replication.Proofs.OffsetProofs

/-!
# Runs with slaves that attach with PSYNC

Every step keeps the invariant but for a snapshot that does not fit the offset a slave was answered with:
a copy of an output buffer that is not empty, or commands between the answer and the BGSAVE.
-/

namespace RedisCluster.Replication.Offsets

open RedisCluster.Lib
open RedisCluster.Util

variable {s : Master}

theorem createReplicationBacklog_inv (h : Inv s) (hempty : s.slaves = []) :
    Inv (createReplicationBacklog s) := by
  refine ⟨fun _ hnone => (by cases hnone), fun b hb => ?_, fun slave hslave => ?_, fun r hr => ?_⟩
  · cases hb
    exact ⟨Nat.succ_pos _, rfl, List.nil_suffix⟩
  · change slave ∈ s.slaves at hslave
    rw [hempty] at hslave
    cases hslave
  · have hle := (h.parked r hr).1
    refine ⟨Nat.le_succ_of_le hle, fun b hb hreach => ?_⟩
    cases hb
    simp only at hreach
    omega

theorem attach_eq (h : Inv s) (slave : Slave) :
    ∃ t, Inv t ∧ t.repl_backlog ≠ none ∧ t.history = s.history ∧ t.rdb_child = s.rdb_child ∧
      t.master_repl_offset = fullResyncOffset s ∧
      attach s slave = { t with slaves := s.slaves ++ [slave], slaveseldb := -1 } ∧
      t.slaves = s.slaves := by
  unfold attach fullResyncOffset
  cases hb : s.repl_backlog with
  | none =>
    have hempty : s.slaves = [] := by
      by_contra hne
      exact h.hasBacklog hne hb
    refine ⟨createReplicationBacklog s, createReplicationBacklog_inv h hempty, nofun, rfl, rfl, rfl, ?_,
      rfl⟩
    rw [hempty]
    rfl
  | some b =>
    refine ⟨s, h, (by rw [hb]; nofun), rfl, rfl, rfl, ?_, rfl⟩
    rw [if_neg (by rintro ⟨-, hnone⟩; cases hnone), hb]

theorem attach_inv (h : Inv s) {slave : Slave}
    (hslave : ∀ t : Master, t.history = s.history → t.rdb_child = s.rdb_child →
      t.master_repl_offset = fullResyncOffset s → SlaveOk t slave) : Inv (attach s slave) := by
  obtain ⟨t, hinv, hsome, hhistory, hchild, hoffset, heq, hslaves⟩ := attach_eq h slave
  rw [heq]
  refine ⟨fun _ => hsome, hinv.backlog, fun x hx => ?_, hinv.parked⟩
  rcases List.mem_append.mp hx with hx | hx
  · exact (hinv.slaves x (hslaves ▸ hx)).congr rfl rfl rfl
  · rw [List.mem_singleton.mp hx]
    exact hslave _ hhistory hchild hoffset

/-- Only a slave that waits for a background save, or whose save is running, depends on more than the
history and the offset. -/
theorem SlaveOk.carry {t : Master} {slave : Slave} (h : SlaveOk s slave)
    (hstart : slave.replstate = .waitBgsaveStart → slave.peer = .waiting → Waiting s slave → Waiting t slave)
    (hend : slave.replstate = .waitBgsaveEnd → slave.peer = .waiting → Waiting s slave → Waiting t slave)
    (hhistory : t.history = s.history) (hoffset : t.master_repl_offset = s.master_repl_offset) :
    SlaveOk t slave := by
  unfold SlaveOk at h ⊢
  cases hpeer : slave.peer with
  | gone => trivial
  | waiting =>
    rw [hpeer] at h
    cases hstate : slave.replstate with
    | waitBgsaveStart => exact hstart hstate hpeer h
    | waitBgsaveEnd => exact hend hstate hpeer h
    | sendBulk =>
      simp only [Waiting, hstate] at h ⊢
      obtain ⟨file, hfile, hgets⟩ := h
      exact ⟨file, hfile, InStep.congr hgets hhistory hoffset⟩
    | online =>
      simp only [Waiting, hstate] at h ⊢
      obtain ⟨file, hfile, hgets⟩ := h
      exact ⟨file, hfile, InStep.congr hgets hhistory hoffset⟩
  | loaded r =>
    rw [hpeer] at h
    exact ⟨h.1, h.2.congr hhistory hoffset⟩

theorem SlaveOk.start {t : Master} {slave : Slave} (h : SlaveOk s slave) (hchild : s.rdb_child = none)
    (hfits : slave.replstate = .waitBgsaveEnd → slave.peer ≠ .gone →
      slave.psync_initial_offset = s.master_repl_offset)
    (hhistory : t.history = s.history) (hoffset : t.master_repl_offset = s.master_repl_offset)
    (hnew : t.rdb_child = some s.history) : SlaveOk t slave := by
  refine h.carry (fun hstate _ hwait => ?_) (fun hstate hpeer hwait => ?_) hhistory hoffset
  · unfold Waiting at hwait ⊢
    rw [hstate] at hwait ⊢
    unfold Early at hwait ⊢
    rw [hoffset]
    exact hwait
  · unfold Waiting at hwait ⊢
    rw [hstate, hchild] at hwait
    have hoff := hfits hstate (by rw [hpeer]; nofun)
    have hnil : slave.reply = [] := by
      unfold Early at hwait
      simp only at hwait
      exact List.length_eq_zero_iff.mp (by omega)
    rw [hstate, hnew]
    exact ⟨by rw [hnil, List.append_nil, hhistory], by rw [hnil, hoff, hoffset]; rfl⟩

theorem rdbSaveBackground_inv (h : Inv s) (ok : Bool)
    (hfits : s.rdb_child = none → ok = true → NothingFedSince s .waitBgsaveEnd) :
    Inv (rdbSaveBackground s ok).1 := by
  unfold rdbSaveBackground
  cases hchild : s.rdb_child with
  | some file => exact h
  | none =>
    rw [if_neg (by decide)]
    cases ok with
    | false => exact h
    | true =>
      exact h.with_slaves rfl rfl rfl id
        (fun slave hslave => (h.slaves slave hslave).start hchild (hfits hchild rfl slave hslave)
          rfl rfl rfl) h.parked

theorem rdbSaveBackground_true (hchild : s.rdb_child = none) :
    rdbSaveBackground s true = ({ s with rdb_child := some s.history }, true) := by
  unfold rdbSaveBackground
  rw [hchild]
  rfl

theorem rdbSaveBackground_false (s : Master) : rdbSaveBackground s false = (s, false) := by
  unfold rdbSaveBackground
  split
  · rfl
  · rfl

theorem fullResync_inv (h : Inv s) (client : Nat) (ok : Bool) (hstands : FullResyncStands s ok) :
    Inv (fullResync s client ok) := by
  unfold fullResync
  unfold FullResyncStands at hstands
  cases hchild : s.rdb_child with
  | some file =>
    rw [hchild] at hstands
    rw [if_pos (by rfl)] at hstands ⊢
    cases hfind : waitingForEnd s with
    | some slave =>
      obtain ⟨hnil, hfile⟩ := hstands slave hfind
      refine attach_inv h fun t hhistory hchild' hoffset => SlaveOk.of_waiting ?_ rfl
      unfold Waiting newSlave
      rw [hchild', hchild, hfile, hnil]
      exact ⟨by rw [hhistory, List.append_nil], hoffset.symm⟩
    | none =>
      refine attach_inv h fun t hhistory hchild' hoffset => SlaveOk.of_waiting ?_ rfl
      show fullResyncOffset s + 0 ≤ t.master_repl_offset
      exact Nat.le_of_eq hoffset.symm
  | none =>
    rw [hchild] at hstands
    rw [if_neg (by decide)] at hstands ⊢
    cases ok with
    | false =>
      rw [rdbSaveBackground_false]
      exact h
    | true =>
      have hinv := rdbSaveBackground_inv h true fun _ => hstands
      rw [rdbSaveBackground_true hchild] at hinv ⊢
      refine attach_inv hinv fun t hhistory hchild' hoffset => SlaveOk.of_waiting ?_ rfl
      unfold Waiting newSlave
      rw [hchild']
      exact ⟨by rw [hhistory, List.append_nil], hoffset.symm⟩

theorem continueResync_inv (h : Inv s) {r : Replica} (client : Nat) (hr : ParkedOk s r)
    (hcan : canContinue s (r.reploff + 1) = true) : Inv (continueResync s client r) := by
  cases hb : s.repl_backlog with
  | none =>
    unfold canContinue at hcan
    rw [hb] at hcan
    cases hcan
  | some b =>
    obtain ⟨-, hoff, hsuffix⟩ := h.backlog b hb
    have hreach : b.repl_backlog_off ≤ r.reploff + 1 := by
      unfold canContinue at hcan
      rw [hb] at hcan
      simp only [Bool.not_eq_true', Bool.or_eq_false_iff, decide_eq_false_iff_not] at hcan
      omega
    obtain ⟨hle, hparked⟩ := hr
    obtain ⟨rest, hrest⟩ := hparked b hb hreach
    have hsent : addReplyReplicationBacklog s (r.reploff + 1) = rest := by
      unfold addReplyReplicationBacklog
      rw [hb]
      have hsuffix' : b.bytes.drop (r.reploff + 1 - b.repl_backlog_off) <:+ s.history :=
        (List.drop_suffix _ _).trans hsuffix
      refine List.IsSuffix.eq_of_length (List.suffix_of_suffix_length_le hsuffix' ⟨_, hrest.1⟩ ?_) ?_
      · rw [List.length_drop]
        have := hrest.2
        omega
      · rw [List.length_drop]
        have := hrest.2
        omega
    refine ⟨fun _ => (by rw [show (continueResync s client r).repl_backlog = some b from hb]; nofun), h.backlog,
      fun x hx => ?_, h.parked⟩
    rcases List.mem_append.mp hx with hx | hx
    · exact (h.slaves x hx).congr rfl rfl rfl
    · rw [List.mem_singleton.mp hx]
      refine ⟨rfl, ?_⟩
      show InStep s r.reflected r.reploff (addReplyReplicationBacklog s (r.reploff + 1))
      rw [hsent]
      exact hrest

theorem syncCommand_inv (h : Inv s) (client : Nat) (k : Option Nat) (ok : Bool)
    (hfits : SnapshotFits s (.psync client k ok)) : Inv (syncCommand s client k ok) := by
  unfold syncCommand
  cases hany : s.slaves.any fun slave => slave.client == client with
  | true => exact h
  | false =>
    have hfits' := hfits hany
    rw [if_neg (by decide)]
    cases k with
    | none => exact fullResync_inv h client ok hfits'
    | some i =>
      dsimp only
      cases hr : s.parked[i]? with
      | none => exact h
      | some r =>
        have hinv : Inv { s with parked := s.parked.eraseIdx i } :=
          h.with_slaves rfl rfl rfl id (fun slave hslave => (h.slaves slave hslave).congr rfl rfl rfl)
            fun x hx => h.parked x (List.mem_of_mem_eraseIdx hx)
        dsimp only
        cases hcan : canContinue { s with parked := s.parked.eraseIdx i } (r.reploff + 1) with
        | true =>
          rw [if_pos rfl]
          have hok : ParkedOk { s with parked := s.parked.eraseIdx i } r :=
            (h.parked r (List.mem_of_getElem? hr)).congr rfl rfl rfl
          exact continueResync_inv hinv client hok hcan
        | false =>
          rw [if_neg (by decide)]
          exact fullResync_inv hinv client ok (hfits' r hr hcan)

theorem SlaveOk.served {t : Master} {slave : Slave} (h : SlaveOk s slave)
    (hstart : slave.replstate ≠ .waitBgsaveStart) (hend : slave.replstate ≠ .waitBgsaveEnd)
    (hhistory : t.history = s.history) (hoffset : t.master_repl_offset = s.master_repl_offset) :
    SlaveOk t slave :=
  h.carry (fun hstate => absurd hstate hstart) (fun hstate => absurd hstate hend) hhistory hoffset

theorem updateSlave_ok {t : Master} {file : Bytes} {bgsaveerr : Bool} {fails : Nat → Bool}
    {slave slave' : Slave} (h : SlaveOk s slave) (hchild : s.rdb_child = some file)
    (hhistory : t.history = s.history) (hoffset : t.master_repl_offset = s.master_repl_offset)
    (hnone : t.rdb_child = none) (hupdate : updateSlave file bgsaveerr fails slave = some slave') :
    SlaveOk t slave' ∧ (slave'.replstate = .waitBgsaveEnd → slave.replstate = .waitBgsaveStart ∧
      slave'.peer = slave.peer ∧ slave'.psync_initial_offset = slave.psync_initial_offset) := by
  unfold updateSlave at hupdate
  cases hstate : slave.replstate with
  | waitBgsaveStart =>
    rw [hstate] at hupdate
    cases hupdate
    refine ⟨?_, fun _ => ⟨rfl, rfl, rfl⟩⟩
    unfold SlaveOk at h ⊢
    cases hpeer : slave.peer with
    | gone => trivial
    | waiting =>
      rw [hpeer] at h
      unfold Waiting Early at h ⊢
      rw [hstate] at h
      simp only [hnone, hoffset]
      exact h
    | loaded r =>
      rw [hpeer, hstate] at h
      cases h.1
  | waitBgsaveEnd =>
    rw [hstate] at hupdate
    dsimp only at hupdate
    split at hupdate
    · cases hupdate
    · split at hupdate
      · cases hupdate
      · cases hupdate
        refine ⟨?_, nofun⟩
        unfold SlaveOk at h ⊢
        cases hpeer : slave.peer with
        | gone => trivial
        | waiting =>
          rw [hpeer] at h
          unfold Waiting at h ⊢
          rw [hstate, hchild] at h
          exact ⟨file, rfl, InStep.congr h hhistory hoffset⟩
        | loaded r =>
          rw [hpeer, hstate] at h
          cases h.1
  | sendBulk =>
    rw [hstate] at hupdate
    cases hupdate
    exact ⟨h.served (by rw [hstate]; decide) (by rw [hstate]; decide) hhistory hoffset,
      fun hend => by rw [hstate] at hend; cases hend⟩
  | online =>
    rw [hstate] at hupdate
    cases hupdate
    exact ⟨h.served (by rw [hstate]; decide) (by rw [hstate]; decide) hhistory hoffset,
      fun hend => by rw [hstate] at hend; cases hend⟩

theorem backgroundSaveDoneHandler_inv (h : Inv s) (bgsaveerr : Bool) (fails : Nat → Bool) (ok : Bool)
    (hfits : SnapshotFits s (.bgsaveDone bgsaveerr fails ok)) :
    Inv (backgroundSaveDoneHandler s bgsaveerr fails ok) := by
  unfold backgroundSaveDoneHandler
  cases hchild : s.rdb_child with
  | none => exact h
  | some file =>
    have hfed : ok = true → NothingFedSince s .waitBgsaveStart := hfits (by rw [hchild]; rfl)
    unfold updateSlavesWaitingBgsave
    dsimp only
    have hinv : Inv { s with
        rdb_child := none
        slaves := s.slaves.filterMap (updateSlave file bgsaveerr fails) } := by
      refine h.with_slaves rfl rfl rfl (fun hne hnil => ?_) (fun slave' hslave' => ?_) h.parked
      · apply hne
        show s.slaves.filterMap _ = []
        rw [hnil]
        rfl
      · obtain ⟨slave, hslave, hupdate⟩ := List.mem_filterMap.mp hslave'
        exact And.left (updateSlave_ok (h.slaves slave hslave) hchild rfl rfl rfl hupdate)
    split
    · cases ok with
      | false =>
        rw [rdbSaveBackground_false]
        refine hinv.with_slaves rfl rfl rfl (fun hne hnil => hne ?_) (fun slave hslave => ?_) hinv.parked
        · have hnil' : s.slaves.filterMap (updateSlave file bgsaveerr fails) = [] := hnil
          show List.filter _ (s.slaves.filterMap (updateSlave file bgsaveerr fails)) = []
          rw [hnil']
          rfl
        · exact (hinv.slaves slave (List.mem_filter.mp hslave).1).congr rfl rfl rfl
      | true =>
        have hstarted := rdbSaveBackground_inv hinv true fun _ _ => by
          intro slave' hslave' hend hpeer
          obtain ⟨slave, hslave, hupdate⟩ := List.mem_filterMap.mp hslave'
          obtain ⟨hstart, hpeer', hoff⟩ :=
            (updateSlave_ok (t := { s with rdb_child := none }) (h.slaves slave hslave) hchild rfl rfl rfl
              hupdate).2 hend
          rw [hoff]
          exact hfed rfl slave hslave hstart (hpeer' ▸ hpeer)
        rw [rdbSaveBackground_true rfl] at hstarted ⊢
        exact hstarted
    · exact hinv

theorem updateClient_inv (h : Inv s) (client : Nat) {f : Slave → Slave}
    (hf : ∀ slave, SlaveOk s slave → SlaveOk s (f slave)) : Inv (updateClient s client f) := by
  refine h.with_slaves rfl rfl rfl (fun hne hnil => hne ?_) (fun slave hslave => ?_) h.parked
  · show List.map _ _ = []
    rw [hnil]
    rfl
  · obtain ⟨old, hold, rfl⟩ := List.mem_map.mp hslave
    by_cases hclient : old.client = client
    · rw [if_pos hclient]
      exact (hf old (h.slaves old hold)).congr rfl rfl rfl
    · rw [if_neg hclient]
      exact (h.slaves old hold).congr rfl rfl rfl

theorem bulkSent_ok {slave : Slave} (h : SlaveOk s slave) : SlaveOk s (bulkSent slave) := by
  unfold bulkSent
  by_cases hstate : slave.replstate = .sendBulk
  · rw [if_pos hstate]
    unfold SlaveOk at h ⊢
    cases hpeer : slave.peer with
    | gone => trivial
    | waiting =>
      rw [hpeer] at h
      unfold Waiting at h ⊢
      rw [hstate] at h
      exact h
    | loaded r =>
      rw [hpeer, hstate] at h
      cases h.1
  · rw [if_neg hstate]
    exact h

theorem loadFile_ok {slave : Slave} (h : SlaveOk s slave) : SlaveOk s (loadFile slave) := by
  unfold loadFile
  split
  next file hstate hpeer hfile =>
    unfold SlaveOk at h
    rw [hpeer] at h
    unfold Waiting at h
    rw [hstate] at h
    obtain ⟨file', hfile', hgets⟩ := h
    rw [hfile] at hfile'
    cases hfile'
    exact ⟨hstate, hgets⟩
  next => exact h

theorem receive_ok (n : Nat) {slave : Slave} (h : SlaveOk s slave) : SlaveOk s (receive n slave) := by
  unfold receive
  split
  next r hstate hpeer =>
    unfold SlaveOk at h
    rw [hpeer] at h
    obtain ⟨-, hdata, hoff⟩ := h
    refine ⟨hstate, ?_, ?_⟩
    · rw [List.append_assoc, List.take_append_drop]
      exact hdata
    · show r.reploff + (slave.reply.take n).length + (slave.reply.drop n).length = s.master_repl_offset
      rw [Nat.add_assoc, ← List.length_append, List.take_append_drop]
      exact hoff
  next => exact h

theorem cachedMaster_ok (h : Inv s) {slave : Slave} (hslave : slave ∈ s.slaves) {r : Replica}
    (hr : cachedMaster slave = some r) : ParkedOk s r := by
  unfold cachedMaster at hr
  split at hr
  next r' hpeer =>
    cases hr
    have hok := h.agree slave hslave r hpeer
    exact ⟨by have := hok.2; omega, fun b hb hreach => ⟨slave.reply, hok⟩⟩
  next => cases hr

theorem lost_ok (h : Inv s) (client : Nat) :
    ∀ r ∈ s.parked ++ (s.slaves.filter fun slave => slave.client == client).filterMap cachedMaster,
      ParkedOk s r := by
  intro r hr
  rcases List.mem_append.mp hr with hr | hr
  · exact h.parked r hr
  · obtain ⟨slave, hslave, hcached⟩ := List.mem_filterMap.mp hr
    exact cachedMaster_ok h (List.mem_filter.mp hslave).1 hcached

theorem linkLost_inv (h : Inv s) (client : Nat) : Inv (linkLost s client) := by
  have hinv : Inv { s with
      parked := s.parked ++
        (s.slaves.filter fun slave => slave.client == client).filterMap cachedMaster } :=
    h.with_slaves rfl rfl rfl id (fun slave hslave => (h.slaves slave hslave).congr rfl rfl rfl)
      (lost_ok h client)
  exact updateClient_inv hinv client fun _ _ => trivial

theorem freeClient_inv (h : Inv s) (client : Nat) : Inv (freeClient s client) := by
  refine h.with_slaves rfl rfl rfl (fun hne hnil => hne ?_) (fun slave hslave => ?_) (lost_ok h client)
  · show List.filter _ _ = []
    rw [hnil]
    rfl
  · exact (h.slaves slave (List.mem_filter.mp hslave).1).congr rfl rfl rfl

theorem backlogTimeout_inv (h : Inv s) (hempty : s.slaves.length = 0) :
    Inv { s with repl_backlog := none } where
  hasBacklog hne := absurd (List.length_eq_zero_iff.mp hempty) hne
  backlog b hb := by cases hb
  slaves slave hslave := (h.slaves slave hslave).congr rfl rfl rfl
  parked r hr := ⟨(h.parked r hr).1, fun b hb => by cases hb⟩

theorem resize_inv (h : Inv s) (newsize : Nat) : Inv (resizeReplicationBacklog s newsize) := by
  unfold resizeReplicationBacklog
  dsimp only
  split
  · exact h
  · cases hb : s.repl_backlog with
    | none =>
      refine ⟨fun hne => absurd hb (h.hasBacklog hne), fun b hb' => (by cases hb'),
        fun slave hslave => (h.slaves slave hslave).congr rfl rfl rfl, fun r hr => ?_⟩
      exact ⟨(h.parked r hr).1, fun b hb' => by cases hb'⟩
    | some b =>
      refine ⟨nofun, fun b' hb' => ?_, fun slave hslave => (h.slaves slave hslave).congr rfl rfl rfl,
        fun r hr => ⟨(h.parked r hr).1, fun b' hb' hreach => ?_⟩⟩
      · cases hb'
        exact ⟨Nat.succ_pos _, rfl, List.nil_suffix⟩
      · cases hb'
        have hoff := (h.backlog b hb).2.1
        simp only at hreach
        exact (h.parked r hr).2 b hb (by omega)

theorem step_inv (h : Inv s) (a : Action) (hfits : SnapshotFits s a) : Inv (step s a) := by
  cases a with
  | propagate dictid argv => exact replicationFeedSlaves_inv h dictid argv
  | psync client k ok => exact syncCommand_inv h client k ok hfits
  | bgsave ok => exact rdbSaveBackground_inv h ok hfits
  | bgsaveDone bgsaveerr fails ok => exact backgroundSaveDoneHandler_inv h bgsaveerr fails ok hfits
  | bulkSent client => exact updateClient_inv h client fun _ => bulkSent_ok
  | loadFile client => exact updateClient_inv h client fun _ => loadFile_ok
  | receive client n => exact updateClient_inv h client fun _ => receive_ok n
  | linkLost client => exact linkLost_inv h client
  | freeClient client => exact freeClient_inv h client
  | backlogTimeout =>
    show Inv (if s.slaves.length = 0 then { s with repl_backlog := none } else s)
    split
    next hempty => exact backlogTimeout_inv h hempty
    next => exact h
  | resize newsize => exact resize_inv h newsize

/-- **The offsets agree** in every state of a run in which nothing is ever fed between the answer to a
slave and the snapshot it gets, in either order. -/
theorem offsets_agree (as : List Action) (h : RunMeets step SnapshotFits initial as) :
    ∀ bs, bs <+: as → OffsetsAgree (run step initial bs) := fun _ hbs =>
  (run_inv (P := Inv) (fun _ a hinv hfits => step_inv hinv a hfits) inv_initial (h.initial hbs)).agree

/-- A slave that loses its link and goes on with another. -/
theorem offsets_agree_continue : OffsetsAgree (run step initial
    [.psync 1 none true, .bgsaveDone false (fun _ => false) true, .bulkSent 1, .loadFile 1, .linkLost 1,
      .psync 2 (some 0) true]) := by
  refine offsets_agree [.psync 1 none true, .bgsaveDone false (fun _ => false) true, .bulkSent 1,
    .loadFile 1, .linkLost 1, .psync 2 (some 0) true] ⟨fun _ _ slave h => absurd h List.not_mem_nil,
    fun _ _ slave h hstart => ?_, trivial, trivial, trivial, fun _ r hr hcan => ?_, trivial⟩ _
    (List.prefix_refl _)
  · rw [List.mem_singleton.mp h] at hstart
    cases hstart
  · cases hr
    cases hcan

/-- The slave gets a copy of what another one is fed, with an offset that has it all. -/
theorem copy_disagrees : ¬ OffsetsAgree (run step initial
    [.psync 1 none true, .propagate 0 [ascii "PING"], .psync 2 none true,
      .bgsaveDone false (fun _ => false) true, .bulkSent 2, .loadFile 2]) := by
  intro h
  have hmem := List.getElem_mem (l := (run step initial
    [.psync 1 none true, .propagate 0 [ascii "PING"], .psync 2 none true,
      .bgsaveDone false (fun _ => false) true, .bulkSent 2, .loadFile 2]).slaves) (n := 1) (by decide)
  exact absurd (h _ hmem _ rfl).2 (by decide)

end RedisCluster.Replication.Offsets
