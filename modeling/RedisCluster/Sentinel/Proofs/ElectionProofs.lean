import RedisCluster.Sentinel.Election

/-!
# The votes that a Sentinel counts and grants

A leader that is returned has as many votes as the other Sentinels reported for it and the Sentinel itself gave
it. A vote is granted only for an epoch that is greater than the one before.
-/

namespace RedisCluster.Sentinel

open RedisCluster.Util
open RedisCluster.Multi (sameCaseless)

/-- Every counter has the count, and who has no counter has no vote. -/
structure Counts (counters : List (Bytes × Nat)) (count : Bytes → Nat) : Prop where
  counted : ∀ e ∈ counters, e.2 = count e.1
  missing : ∀ runid, (∀ e ∈ counters, e.1 ≠ runid) → count runid = 0

theorem leaderIncr_counts {counters : List (Bytes × Nat)} {count : Bytes → Nat} (h : Counts counters count)
    (runid : Bytes) :
    Counts (sentinelLeaderIncr counters runid).1 (fun x => count x + if runid = x then 1 else 0) ∧
      (sentinelLeaderIncr counters runid).2 = count runid + 1 := by
  unfold sentinelLeaderIncr
  cases hlookup : counters.lookup runid with
  | none =>
    have hnew : ∀ e ∈ counters, e.1 ≠ runid := fun e he heq => by
      have hne := List.lookup_eq_none_iff.mp hlookup e he
      rw [heq] at hne
      exact absurd hne (by simp)
    have hzero : count runid = 0 := h.missing runid hnew
    refine ⟨⟨fun e he => ?_, fun x hx => ?_⟩, by rw [hzero]⟩
    · rcases List.mem_append.mp he with he | he
      · rw [h.counted e he, if_neg fun heq => hnew e he heq.symm, Nat.add_zero]
      · rw [List.mem_singleton.mp he, hzero, if_pos rfl]
    · have hne : runid ≠ x := hx _ (List.mem_append_right _ (List.mem_singleton.mpr rfl))
      rw [if_neg hne, h.missing x fun e he => hx e (List.mem_append_left _ he)]
  | some votes =>
    obtain ⟨before, after, hsplit, -⟩ := List.lookup_eq_some_iff.mp hlookup
    have hmem : (runid, votes) ∈ counters := by
      rw [hsplit]
      exact List.mem_append_right _ List.mem_cons_self
    have hvotes : votes = count runid := h.counted _ hmem
    refine ⟨⟨fun e he => ?_, fun x hx => ?_⟩, by rw [hvotes]⟩
    · obtain ⟨e', he', rfl⟩ := List.mem_map.mp he
      by_cases hsame : e'.1 = runid
      · rw [if_pos hsame, if_pos rfl, hvotes]
      · rw [if_neg hsame, h.counted e' he', if_neg fun heq => hsame heq.symm, Nat.add_zero]
    · have hne : runid ≠ x := fun heq => by
        refine hx (runid, votes + 1) (List.mem_map.mpr ⟨_, hmem, ?_⟩) heq
        rw [if_pos rfl]
      rw [if_neg hne, Nat.add_zero]
      refine h.missing x fun e he heq => ?_
      have hother : e.1 ≠ runid := fun h' => hne (h'.symm.trans heq)
      refine hx e (List.mem_map.mpr ⟨e, he, ?_⟩) heq
      rw [if_neg hother]

def votesFor (epoch : Nat) (sentinels : List OtherSentinel) (runid : Bytes) : Nat :=
  sentinels.countP fun ri => ri.leader = some runid ∧ ri.leader_epoch = epoch

theorem votesFor_cons (epoch : Nat) (ri : OtherSentinel) (sentinels : List OtherSentinel) (runid : Bytes) :
    votesFor epoch (ri :: sentinels) runid = votesFor epoch sentinels runid +
      if ri.leader = some runid ∧ ri.leader_epoch = epoch then 1 else 0 := by
  unfold votesFor
  rw [List.countP_cons]
  simp only [decide_eq_true_eq]

theorem countVotes_counts (epoch : Nat) (sentinels : List OtherSentinel) :
    Counts (countVotes epoch sentinels) (votesFor epoch sentinels) := by
  -- the loop goes on from any counters
  have hloop : ∀ turn : List (Bytes × Nat) → OtherSentinel → List (Bytes × Nat),
      (∀ counters ri, ri.leader = none → turn counters ri = counters) →
      (∀ counters ri leader, ri.leader = some leader → turn counters ri =
        if ri.leader_epoch = epoch then (sentinelLeaderIncr counters leader).1 else counters) →
      ∀ (l : List OtherSentinel) counters count, Counts counters count →
        Counts (l.foldl turn counters) (fun x => count x + votesFor epoch l x) := by
    intro turn hnone hsome l
    induction l with
    | nil => exact fun counters count h => h
    | cons ri l ih =>
      intro counters count h
      rw [List.foldl_cons]
      have hcount : (fun x => count x + votesFor epoch (ri :: l) x) =
          fun x => (count x + if ri.leader = some x ∧ ri.leader_epoch = epoch then 1 else 0) +
            votesFor epoch l x := by
        funext x
        rw [votesFor_cons]
        omega
      rw [hcount]
      refine ih _ _ ?_
      cases hleader : ri.leader with
      | none =>
        rw [hnone counters ri hleader]
        simpa using h
      | some leader =>
        rw [hsome counters ri leader hleader]
        by_cases hepoch : ri.leader_epoch = epoch
        · simpa [hepoch] using (leaderIncr_counts h leader).1
        · simpa [hepoch] using h
  have hzero : (fun x => 0 + votesFor epoch sentinels x) = votesFor epoch sentinels :=
    funext fun x => Nat.zero_add _
  unfold countVotes
  rw [← hzero]
  refine hloop _ (fun counters ri h => ?_) (fun counters ri leader h => ?_) sentinels [] (fun _ => 0)
    ⟨fun e he => absurd he List.not_mem_nil, fun _ _ => rfl⟩
  · rw [h]
  · rw [h]

theorem mostVotes_mem (counters : List (Bytes × Nat)) :
    mostVotes counters = (none, 0) ∨ ∃ e ∈ counters, mostVotes counters = (some e.1, e.2) := by
  have hloop : ∀ (l : List (Bytes × Nat)) (best : Option Bytes × Nat),
      l.foldl (fun best e => if best.2 < e.2 then (some e.1, e.2) else best) best = best ∨
        ∃ e ∈ l, l.foldl (fun best e => if best.2 < e.2 then (some e.1, e.2) else best) best =
          (some e.1, e.2) := by
    intro l
    induction l with
    | nil => exact fun best => .inl rfl
    | cons e l ih =>
      intro best
      rw [List.foldl_cons]
      rcases ih (if best.2 < e.2 then (some e.1, e.2) else best) with h | ⟨e', he', h⟩
      · rw [h]
        split
        · exact .inr ⟨e, List.mem_cons_self, rfl⟩
        · exact .inl rfl
      · exact .inr ⟨e', List.mem_cons_of_mem _ he', h⟩
  exact hloop counters (none, 0)

/-- The votes that a Sentinel has for a run id: those reported for the current epoch, and its own for the
epoch of the failover. -/
def voteCount (current_epoch epoch : Nat) (sentinels : List OtherSentinel) (voted : Master) (runid : Bytes) :
    Nat :=
  votesFor current_epoch sentinels runid +
    if voted.leader = some runid ∧ voted.leader_epoch = epoch then 1 else 0

theorem getLeader_votes {o : Outside} {runid : Bytes} {current_epoch : Nat} {m : Master} {epoch : Nat}
    {leader : Bytes} {r : Nat × Master} (horder : ∀ l, (o.order l).Perm l)
    (h : sentinelGetLeader o runid current_epoch m epoch = .ok (some leader, r)) :
    (m.sentinels.length + 1) / 2 + 1 ≤ voteCount current_epoch epoch m.sentinels r.2 leader ∧
      m.quorum ≤ voteCount current_epoch epoch m.sentinels r.2 leader := by
  unfold sentinelGetLeader at h
  split at h
  · cases h
  · extract_lets counters best voted best' voters at h
    obtain ⟨hleader, rfl⟩ := Prod.mk.inj (Except.ok.inj h)
    split at hleader
    · cases hleader
    · rename_i henough
      obtain ⟨hmajority, hquorum⟩ := not_or.mp henough
      have hcounts : Counts counters (votesFor current_epoch m.sentinels) := countVotes_counts _ _
      have hbest : ∀ x, best.1 = some x → best.2 = votesFor current_epoch m.sentinels x := fun x hx => by
        rcases mostVotes_mem (o.order counters) with hnone | ⟨e, he, hsome⟩
        · have : best.1 = none := congrArg Prod.fst hnone
          rw [this] at hx
          cases hx
        · have hfst : best.1 = some e.1 := congrArg Prod.fst hsome
          have hsnd : best.2 = e.2 := congrArg Prod.snd hsome
          rw [hfst, Option.some.injEq] at hx
          rw [hsnd, hcounts.counted e ((horder counters).subset he), hx]
      have hle : best'.2 ≤ voteCount current_epoch epoch m.sentinels voted.2 leader := by
        have hkept : best' = best → best'.2 ≤ voteCount current_epoch epoch m.sentinels voted.2 leader :=
          fun heq => by
            rw [heq] at hleader ⊢
            rw [hbest leader hleader]
            exact Nat.le_add_right _ _
        -- the own vote has been added or not
        cases hmine : voted.2.leader with
        | none => exact hkept (by simp only [best', hmine])
        | some myvote =>
          by_cases hepoch : voted.2.leader_epoch = epoch
          · by_cases hmore : best.2 < (sentinelLeaderIncr counters myvote).2
            · have heq : best' = (some myvote, (sentinelLeaderIncr counters myvote).2) := by
                simp only [best', hmine, hepoch, if_true, if_pos hmore]
              rw [heq] at hleader ⊢
              rw [Option.some.injEq] at hleader
              subst hleader
              rw [(leaderIncr_counts hcounts myvote).2]
              unfold voteCount
              rw [if_pos ⟨hmine, hepoch⟩]
            · exact hkept (by simp only [best', hmine, hepoch, if_true, if_neg hmore])
          · exact hkept (by simp only [best', hmine, if_neg hepoch])
      exact ⟨Nat.le_trans (Nat.not_lt.mp hmajority) hle, Nat.le_trans (Nat.not_lt.mp hquorum) hle⟩

theorem bind_ok {α β : Type} {x : Except Fault α} {f : α → Except Fault β} {b : β} (h : x >>= f = .ok b) :
    ∃ a, x = .ok a ∧ f a = .ok b := by
  cases x with
  | error fault => cases h
  | ok a => exact ⟨a, rfl, h⟩

theorem map_ok {α β : Type} {x : Except Fault α} {f : α → β} {b : β} (h : x.map f = .ok b) :
    ∃ a, x = .ok a ∧ f a = b := by
  cases x with
  | error fault => cases h
  | ok a => exact ⟨a, rfl, Except.ok.inj h⟩

/-- Neither the votes nor the Sentinels that they are from have changed. -/
structure SameVotes (m m' : Master) : Prop where
  sentinels : m'.sentinels = m.sentinels
  leader_epoch : m'.leader_epoch = m.leader_epoch
  leader : m'.leader = m.leader ∨ m'.leader = none

theorem SameVotes.refl (m : Master) : SameVotes m m := ⟨rfl, rfl, .inl rfl⟩

theorem SameVotes.trans {m₁ m₂ m₃ : Master} (h : SameVotes m₁ m₂) (h' : SameVotes m₂ m₃) :
    SameVotes m₁ m₃ where
  sentinels := h'.sentinels.trans h.sentinels
  leader_epoch := h'.leader_epoch.trans h.leader_epoch
  leader := by
    rcases h'.leader with heq | hnone
    · rw [heq]
      exact h.leader
    · exact .inr hnone

def Revotes (m m' : Master) : Prop :=
  (m'.leader_epoch = m.leader_epoch ∧ (m'.leader = m.leader ∨ m'.leader = none)) ∨
    (m.leader_epoch < m'.leader_epoch ∧ m'.leader.isSome = true)

structure Votes (m m' : Master) : Prop where
  sentinels : m'.sentinels = m.sentinels
  vote : Revotes m m'

theorem SameVotes.votes {m m' : Master} (h : SameVotes m m') : Votes m m' :=
  ⟨h.sentinels, .inl ⟨h.leader_epoch, h.leader⟩⟩

theorem Votes.of_same {m₁ m₂ m₃ : Master} (h : SameVotes m₁ m₂) (h' : Votes m₂ m₃) : Votes m₁ m₃ where
  sentinels := h'.sentinels.trans h.sentinels
  vote := by
    rcases h'.vote with ⟨hepoch, hleader⟩ | ⟨hepoch, hleader⟩
    · exact .inl ⟨hepoch.trans h.leader_epoch, (SameVotes.trans h ⟨h'.sentinels, hepoch, hleader⟩).leader⟩
    · rw [h.leader_epoch] at hepoch
      exact .inr ⟨hepoch, hleader⟩

theorem vote_votes (o : Outside) (runid : Bytes) (current_epoch : Nat) (m : Master) (req_epoch : Nat)
    (req_runid : Bytes) : Votes m (sentinelVoteLeader o runid current_epoch m req_epoch req_runid).2 := by
  unfold sentinelVoteLeader
  extract_lets epoch
  split
  · rename_i hgreater
    have hle : req_epoch ≤ epoch := by
      simp only [epoch]
      split
      · exact Nat.le_refl _
      · omega
    exact ⟨rfl, .inr ⟨Nat.lt_of_lt_of_le hgreater.1 hle, rfl⟩⟩
  · exact (SameVotes.refl m).votes

theorem addSlave_sameVotes (o : Outside) (m : Master) (name : Addr) : SameVotes m (addSlave o m name) := by
  unfold addSlave createSlave
  split
  · exact .refl m
  · split
    · exact .refl m
    · exact ⟨rfl, rfl, .inl rfl⟩

theorem foldl_addSlave_sameVotes (o : Outside) (names : List Addr) (m : Master) :
    SameVotes m (names.foldl (addSlave o) m) := by
  induction names generalizing m with
  | nil => exact .refl m
  | cons name names ih => exact (addSlave_sameVotes o m name).trans (ih _)

theorem changeAddress_sameVotes (o : Outside) (ip : Bytes) (port : Int) (m : Master) :
    SameVotes m ((sentinelResetMasterAndChangeAddress o ip port m).getD m) := by
  cases hr : sentinelResetMasterAndChangeAddress o ip port m with
  | none => exact .refl m
  | some m' =>
    obtain ⟨newaddr, -, rfl⟩ := Option.map_eq_some_iff.mp hr
    have hreset : SameVotes m { sentinelResetMaster o.now true m with addr := newaddr, s_down_since_time := 0 } :=
      ⟨rfl, rfl, .inr rfl⟩
    exact hreset.trans (foldl_addSlave_sameVotes o _ _)

theorem switch_sameVotes {o : Outside} {m m' : Master}
    (h : sentinelFailoverSwitchToPromotedSlave o m = .ok m') : SameVotes m m' := by
  unfold sentinelFailoverSwitchToPromotedSlave at h
  split at h
  · rw [← Except.ok.inj h]
    exact changeAddress_sameVotes o _ _ m
  · obtain ⟨ref, -, h⟩ := bind_ok h
    rw [← Except.ok.inj h]
    exact changeAddress_sameVotes o _ _ m

theorem abort_sameVotes {o : Outside} {m m' : Master} (h : sentinelAbortFailover o m = .ok m') :
    SameVotes m m' ∧ m'.leader = m.leader := by
  unfold sentinelAbortFailover at h
  split at h
  · cases h
  · split at h
    · cases h
    · rw [← Except.ok.inj h]
      exact ⟨⟨rfl, rfl, .inl rfl⟩, rfl⟩

theorem selectSlave_sameVotes {o : Outside} {m m' : Master} (h : sentinelFailoverSelectSlave o m = .ok m') :
    SameVotes m m' := by
  unfold sentinelFailoverSelectSlave at h
  split at h
  · exact (abort_sameVotes h).1
  · rw [← Except.ok.inj h]
    exact ⟨rfl, rfl, .inl rfl⟩

theorem sendSlaveOfNoOne_sameVotes {o : Outside} {m m' : Master}
    (h : sentinelFailoverSendSlaveOfNoOne o m = .ok m') : SameVotes m m' := by
  unfold sentinelFailoverSendSlaveOfNoOne at h
  obtain ⟨promoted, -, h⟩ := bind_ok h
  split at h
  · split at h
    · exact (abort_sameVotes h).1
    · rw [← Except.ok.inj h]
      exact .refl m
  · split at h
    · rw [← Except.ok.inj h]
      exact ⟨rfl, rfl, .inl rfl⟩
    · rw [← Except.ok.inj h]
      exact .refl m

theorem waitPromotion_sameVotes {o : Outside} {m m' : Master} (h : sentinelFailoverWaitPromotion o m = .ok m') :
    SameVotes m m' := by
  unfold sentinelFailoverWaitPromotion at h
  split at h
  · exact (abort_sameVotes h).1
  · rw [← Except.ok.inj h]
    exact .refl m

theorem reconfEnd_sameVotes (o : Outside) (m : Master) : SameVotes m (reconfEnd o m) := by
  unfold reconfEnd
  extract_lets
  split
  · exact ⟨rfl, rfl, .inl rfl⟩
  · exact .refl m

theorem detectEnd_sameVotes {o : Outside} {m m' : Master} (h : sentinelFailoverDetectEnd o m = .ok m') :
    SameVotes m m' := by
  have hend := reconfEnd_sameVotes o m
  unfold sentinelFailoverDetectEnd at h
  split at h
  · rw [← Except.ok.inj h]
    exact .refl m
  · obtain ⟨promoted, -, h⟩ := bind_ok h
    split at h
    · rw [← Except.ok.inj h]
      exact .refl m
    · split at h
      · rw [← Except.ok.inj h]
        exact ⟨hend.sentinels, hend.leader_epoch, hend.leader⟩
      · rw [← Except.ok.inj h]
        exact hend

theorem reconfNextSlave_sameVotes {o : Outside} {m m' : Master}
    (h : sentinelFailoverReconfNextSlave o m = .ok m') : SameVotes m m' := by
  unfold sentinelFailoverReconfNextSlave at h
  obtain ⟨slaves, -, h⟩ := bind_ok h
  have hslaves : SameVotes m { m with slaves := slaves } := ⟨rfl, rfl, .inl rfl⟩
  exact hslaves.trans (detectEnd_sameVotes h)

theorem waitStart_votes {o : Outside} {runid : Bytes} {current_epoch : Nat} {m : Master} {r : Nat × Master}
    (h : sentinelFailoverWaitStart o runid current_epoch m = .ok r) :
    ∃ leader r', sentinelGetLeader o runid current_epoch m m.failover_epoch = .ok (leader, r') ∧
      Votes m r'.2 ∧ SameVotes r'.2 r.2 ∧ r.2.leader = r'.2.leader := by
  unfold sentinelFailoverWaitStart at h
  obtain ⟨⟨leader, epoch, voted⟩, hleader, h⟩ := bind_ok h
  have hvotes : Votes m voted := by
    unfold sentinelGetLeader at hleader
    split at hleader
    · cases hleader
    · have heq : _ = voted := congrArg Prod.snd (Prod.mk.inj (Except.ok.inj hleader)).2
      rw [← heq]
      exact vote_votes o runid current_epoch m _ _
  refine ⟨leader, (epoch, voted), hleader, hvotes, ?_⟩
  dsimp only at h
  split at h
  · split at h
    · obtain ⟨m', habort, h⟩ := bind_ok h
      rw [← Except.ok.inj h]
      exact abort_sameVotes habort
    · rw [← Except.ok.inj h]
      exact ⟨.refl voted, rfl⟩
  · rw [← Except.ok.inj h]
    exact ⟨⟨rfl, rfl, .inl rfl⟩, rfl⟩

theorem stateMachine_votes {o : Outside} {runid : Bytes} {current_epoch : Nat} {m : Master} {r : Nat × Master}
    (h : sentinelFailoverStateMachine o runid current_epoch m = .ok r) : Votes m r.2 := by
  unfold sentinelFailoverStateMachine at h
  split at h
  · rw [← Except.ok.inj h]
    exact (SameVotes.refl m).votes
  · split at h
    · obtain ⟨_, voted, -, hvotes, hsame, hleader⟩ := waitStart_votes h
      refine ⟨hsame.sentinels.trans hvotes.sentinels, ?_⟩
      unfold Revotes
      rw [hsame.leader_epoch, hleader]
      exact hvotes.vote
    · obtain ⟨m', hm', rfl⟩ := map_ok h
      exact (selectSlave_sameVotes hm').votes
    · obtain ⟨m', hm', rfl⟩ := map_ok h
      exact (sendSlaveOfNoOne_sameVotes hm').votes
    · obtain ⟨m', hm', rfl⟩ := map_ok h
      exact (waitPromotion_sameVotes hm').votes
    · obtain ⟨m', hm', rfl⟩ := map_ok h
      exact (reconfNextSlave_sameVotes hm').votes
    · rw [← Except.ok.inj h]
      exact (SameVotes.refl m).votes

theorem atStateMachine_sameVotes (o : Outside) (s_down o_down : Bool) (s : SentinelState) (m : Master) :
    SameVotes m (atStateMachine o s_down o_down s m).2 := by
  unfold atStateMachine sentinelStartFailoverIfNeeded
  split
  · exact ⟨rfl, rfl, .inl rfl⟩
  · split
    · exact ⟨rfl, rfl, .inl rfl⟩
    · split
      · exact ⟨rfl, rfl, .inl rfl⟩
      · exact ⟨rfl, rfl, .inl rfl⟩

theorem handleMaster_votes {o : Outside} {s_down o_down : Bool} {s : SentinelState} {m : Master}
    {r : Nat × Master} (h : handleMaster o s_down o_down s m = .ok r) : Votes m r.2 := by
  unfold handleMaster at h
  split at h
  · rw [← Except.ok.inj h]
    exact (SameVotes.refl m).votes
  · exact .of_same (atStateMachine_sameVotes o s_down o_down s m) (stateMachine_votes h)

theorem refreshMaster_sameVotes (o : Outside) (lines : List InfoLine) (m : Master) :
    SameVotes m (refreshMaster o lines m) := by
  unfold refreshMaster
  extract_lets r slaves
  have hslaves := foldl_addSlave_sameVotes o slaves m
  exact ⟨hslaves.sentinels, hslaves.leader_epoch, hslaves.leader⟩

theorem actOnRole_sameVotes {o : Outside} {tilt : Bool} {role : Option Role} {slave : Slave} {m m' : Master}
    (h : actOnRole o tilt role slave m = .ok m') : SameVotes m m' := by
  unfold actOnRole at h
  split at h
  · rw [← Except.ok.inj h]
    exact .refl m
  · split at h
    · rw [← Except.ok.inj h]
      exact .refl m
    · split at h
      · rw [← Except.ok.inj h]
        exact ⟨rfl, rfl, .inl rfl⟩
      · rw [← Except.ok.inj h]
        exact .refl m
    · split at h
      · cases h
      · split at h
        · obtain ⟨slave', -, rfl⟩ := map_ok h
          exact ⟨rfl, rfl, .inl rfl⟩
        · rw [← Except.ok.inj h]
          exact .refl m

theorem refreshSlave_sameVotes {o : Outside} {tilt : Bool} {lines : List InfoLine} {name : Addr} {m m' : Master}
    (h : refreshSlave o tilt lines name m = .ok m') : SameVotes m m' := by
  unfold refreshSlave at h
  split at h
  · rw [← Except.ok.inj h]
    exact .refl m
  · have hslave := actOnRole_sameVotes h
    exact ⟨hslave.sentinels, hslave.leader_epoch, hslave.leader⟩

theorem failoverCommand_sameVotes (o : Outside) (current_epoch : Nat) (m : Master) :
    SameVotes m (failoverCommand o current_epoch m).2 := by
  unfold failoverCommand
  split
  · exact .refl m
  · split
    · exact .refl m
    · exact ⟨rfl, rfl, .inl rfl⟩

/-- A step that has to do with one master only, and keeps its votes or has a new one. -/
structure VotesAt (name : Bytes) (s s' : SentinelState) : Prop where
  runid : s'.runid = s.runid
  others : ∀ other, other ≠ name → s'.masters other = s.masters other
  master : ∀ m', s'.masters name = some m' → ∃ m, s.masters name = some m ∧ Votes m m'

theorem VotesAt.same (name : Bytes) {s s' : SentinelState} (hrunid : s'.runid = s.runid)
    (hmasters : s'.masters = s.masters) : VotesAt name s s' := by
  refine ⟨hrunid, fun other _ => congrFun hmasters other, fun m' hm' => ?_⟩
  rw [hmasters] at hm'
  exact ⟨m', hm', (SameVotes.refl m').votes⟩

theorem onMaster_cases {s s' : SentinelState} {name : Bytes} {f : Master → Except Fault (Nat × Master)}
    (h : onMaster s name f = .ok s') :
    (s.masters name = none ∧ s' = s) ∨
      ∃ m r, s.masters name = some m ∧ f m = .ok r ∧ s' = setMaster { s with current_epoch := r.1 } name r.2 := by
  unfold onMaster at h
  cases hm : s.masters name with
  | none =>
    rw [hm] at h
    exact .inl ⟨rfl, (Except.ok.inj h).symm⟩
  | some m =>
    rw [hm] at h
    obtain ⟨r, hr, rfl⟩ := map_ok h
    exact .inr ⟨m, r, rfl, hr, rfl⟩

theorem onMaster_votesAt {s s' : SentinelState} {name : Bytes} {f : Master → Except Fault (Nat × Master)}
    (hf : ∀ m r, f m = .ok r → Votes m r.2) (h : onMaster s name f = .ok s') : VotesAt name s s' := by
  rcases onMaster_cases h with ⟨-, rfl⟩ | ⟨m, r, hm, hr, rfl⟩
  · exact .same name rfl rfl
  · refine ⟨rfl, fun other hne => setMaster_of_ne _ hne _, fun m' hm' => ⟨m, hm, ?_⟩⟩
    rw [setMaster_self, Option.some.injEq] at hm'
    rw [← hm']
    exact hf m r hr

theorem own_votesAt {o : Outside} {s s' : SentinelState} {e : Event} (hown : e.isOwn = true)
    (h : step o s e = .ok s') : VotesAt e.master s s' := by
  cases e with
  | failover name =>
    refine onMaster_votesAt (fun m r hr => ?_) h
    rw [← Except.ok.inj hr]
    exact (failoverCommand_sameVotes o _ m).votes
  | set name quorum down_after_period failover_timeout parallel_syncs =>
    refine onMaster_votesAt (fun m r hr => ?_) h
    rw [← Except.ok.inj hr]
    exact SameVotes.votes ⟨rfl, rfl, .inl rfl⟩
  | timer name s_down o_down => exact onMaster_votesAt (fun m r hr => handleMaster_votes hr) h
  | switch name =>
    refine onMaster_votesAt (fun m r hr => ?_) h
    split at hr
    · obtain ⟨m', hm', rfl⟩ := map_ok hr
      exact (switch_sameVotes hm').votes
    · rw [← Except.ok.inj hr]
      exact (SameVotes.refl m).votes
  | tilt on =>
    rw [← Except.ok.inj h]
    exact .same _ rfl rfl
  | masterInfo name lines =>
    refine onMaster_votesAt (fun m r hr => ?_) h
    rw [← Except.ok.inj hr]
    exact (refreshMaster_sameVotes o lines m).votes
  | slaveInfo name slave lines =>
    refine onMaster_votesAt (fun m r hr => ?_) h
    obtain ⟨m', hm', rfl⟩ := map_ok hr
    exact (refreshSlave_sameVotes hm').votes
  | slaveLink name slave link =>
    refine onMaster_votesAt (fun m r hr => ?_) h
    rw [← Except.ok.inj hr]
    exact SameVotes.votes ⟨rfl, rfl, .inl rfl⟩
  | rehash name slaves =>
    refine onMaster_votesAt (fun m r hr => ?_) h
    rw [← Except.ok.inj hr]
    exact SameVotes.votes ⟨rfl, rfl, .inl rfl⟩
  | monitor name ip port quorum => cases hown
  | remove name => cases hown
  | reset name => cases hown
  | hello h => cases hown
  | isMasterDown name req_epoch req_runid => cases hown
  | vote name sentinel leader leader_epoch => cases hown

theorem elected_votes {v : Addr} {o : Outside} {s s' : SentinelState} {e : Event} {x : Elected}
    (horder : ∀ l, (o.order l).Perm l) (h : step o s e = .ok s') (hx : x ∈ electedOf v o s e) :
    ∃ s_down o_down m m' r, e = .timer x.master s_down o_down ∧ s.masters x.master = some m ∧
      s'.masters x.master = some m' ∧ r = atStateMachine o s_down o_down s m ∧ LooksUpLeader s r.2 ∧
      x.sentinel = v ∧ x.epoch = r.2.failover_epoch ∧ m'.sentinels = m.sentinels ∧
      (m.sentinels.length + 1) / 2 + 1 ≤ voteCount r.1 x.epoch m.sentinels m' x.runid ∧
      x.quorum ≤ voteCount r.1 x.epoch m.sentinels m' x.runid := by
  unfold electedOf at hx
  split at hx
  · rename_i name s_down o_down
    split at hx
    · exact absurd hx List.not_mem_nil
    · rename_i m hm
      extract_lets r at hx
      split at hx
      · rename_i hlooks
        split at hx
        · rename_i leader r' hleader
          rw [List.mem_singleton] at hx
          subst hx
          rcases onMaster_cases h with ⟨hnone, -⟩ | ⟨m₁, r₁, hm₁, hr₁, rfl⟩
          · rw [hm] at hnone
            cases hnone
          · rw [hm, Option.some.injEq] at hm₁
            subst hm₁
            -- the state machine has looked up the same leader
            unfold handleMaster at hr₁
            have htilt : ¬ s.tilt = true := by
              rw [hlooks.1]
              exact fun h => (by cases h)
            rw [if_neg htilt] at hr₁
            have hon : ¬ r.2.failover_in_progress = false := by
              rw [hlooks.2.1]
              exact fun h => (by cases h)
            have hwait : sentinelFailoverWaitStart o s.runid r.1 r.2 = .ok r₁ := by
              have hr₁' : sentinelFailoverStateMachine o s.runid r.1 r.2 = .ok r₁ := hr₁
              unfold sentinelFailoverStateMachine at hr₁'
              rw [if_neg hon, hlooks.2.2] at hr₁'
              exact hr₁'
            obtain ⟨leader', voted, hleader', hvotes, hsame, hmine⟩ := waitStart_votes hwait
            rw [hleader] at hleader'
            obtain ⟨-, rfl⟩ := Prod.mk.inj (Except.ok.inj hleader')
            have hfrom := atStateMachine_sameVotes o s_down o_down s m
            have hsentinels : r.2.sentinels = m.sentinels := hfrom.sentinels
            have hcount := getLeader_votes horder hleader
            have hvoted : voteCount r.1 r.2.failover_epoch r.2.sentinels r'.2 leader =
                voteCount r.1 r.2.failover_epoch m.sentinels r₁.2 leader := by
              unfold voteCount
              rw [hsentinels, hmine, hsame.leader_epoch]
            rw [hvoted, hsentinels] at hcount
            exact ⟨s_down, o_down, m, r₁.2, r, rfl, hm, setMaster_self _ _ _, rfl, hlooks, rfl, rfl,
              hsame.sentinels.trans (hvotes.sentinels.trans hsentinels), hcount.1, hcount.2⟩
        · exact absurd hx List.not_mem_nil
      · exact absurd hx List.not_mem_nil
  · exact absurd hx List.not_mem_nil

end RedisCluster.Sentinel
