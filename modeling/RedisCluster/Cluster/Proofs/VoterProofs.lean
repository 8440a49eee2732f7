import RedisCluster.Cluster.Election
import RedisCluster.Cluster.Proofs.FailoverProofs

/-!
# A voter votes once in an epoch

Votes are granted for growing epochs. A crash keeps this only if the last vote had been written to
`nodes.conf`, and a vote does not ask for that.
-/

namespace RedisCluster

open RedisCluster.Lib

section

variable {ν : Type}

/-- No vote is newer than `lastVoteEpoch`, and no two votes have the same epoch. -/
structure VoterInv (s : VoterState ν) : Prop where
  last_le : s.cluster.lastVoteEpoch ≤ s.cluster.currentEpoch
  conf_le : s.conf.lastVoteEpoch ≤ s.conf.currentEpoch
  votes_le : ∀ v ∈ s.votes, v.2 ≤ s.cluster.lastVoteEpoch
  votes_unique : s.votes.Pairwise fun v w => v.2 ≠ w.2

theorem clusterInit_ballot (t : NodeTable ν) (vars : ConfVars) :
    (clusterInit t vars).lastVoteEpoch = vars.lastVoteEpoch ∧
      vars.currentEpoch ≤ (clusterInit t vars).currentEpoch :=
  ⟨rfl, le_max_right ..⟩

theorem voterBoot_inv (t : NodeTable ν) : VoterInv (voterBoot t) where
  last_le := Nat.zero_le _
  conf_le := le_rfl
  votes_le := by simp [voterBoot]
  votes_unique := List.Pairwise.nil

end

section

variable {ν : Type} [DecidableEq ν]

theorem clusterBeforeSleep_spec {cfg : ClusterConfig} {env : FailoverEnv} {c : ClusterState ν}
    (hwrap : failoverBranch cfg env c = .askForVotes → c.currentEpoch + 1 < 2 ^ 64) :
    c.currentEpoch ≤ (clusterBeforeSleep cfg env c).1.currentEpoch ∧
      (clusterBeforeSleep cfg env c).1.lastVoteEpoch = c.lastVoteEpoch ∧
      ∀ vars, (clusterBeforeSleep cfg env c).2 = some vars →
        vars = clusterSaveConfig (clusterBeforeSleep cfg env c).1 := by
  set r := if c.todo_before_sleep.handleFailover then clusterHandleSlaveFailover cfg env c
    else (c, [], false) with hr
  have hrun : clusterBeforeSleep cfg env c =
      ({ r.1 with todo_before_sleep := ⟨false, false, false, false⟩ },
        if r.2.2 || r.1.todo_before_sleep.saveConfig then some (clusterSaveConfig r.1)
        else none) := rfl
  have hepochs : c.currentEpoch ≤ r.1.currentEpoch ∧ r.1.lastVoteEpoch = c.lastVoteEpoch := by
    rw [hr]
    split
    swap
    · exact ⟨le_rfl, rfl⟩
    obtain ⟨heffect, -⟩ := clusterHandleSlaveFailover_spec cfg env c
    generalize clusterHandleSlaveFailover cfg env c = r' at heffect
    obtain ⟨c', out, promoted⟩ := r'
    simp only at heffect ⊢
    cases heffect with
    | quiet hballot =>
      exact ⟨(congrArg Ballot.epoch hballot).ge, congrArg Ballot.lastVote hballot⟩
    | scheduled hballot =>
      exact ⟨(congrArg Ballot.epoch hballot).ge, congrArg Ballot.lastVote hballot⟩
    | asked hbranch hballot =>
      have hcur := congrArg Ballot.epoch hballot
      simp only [ClusterState.ballot] at hcur
      rw [Nat.mod_eq_of_lt (hwrap hbranch)] at hcur
      exact ⟨by omega, congrArg Ballot.lastVote hballot⟩
    | won hcount hballot =>
      exact ⟨(congrArg Ballot.epoch hballot).ge, congrArg Ballot.lastVote hballot⟩
  rw [hrun]
  refine ⟨hepochs.1, hepochs.2, fun vars hvars => ?_⟩
  simp only at hvars
  split at hvars
  · cases hvars
    rfl
  · cases hvars

theorem voterStep_inv {cfg : ClusterConfig} {s : VoterState ν} {a : VoterAct ν} (h : VoterInv s)
    (ha : VoteSaved cfg s a) : VoterInv (voterStep cfg s a) := by
  cases a with
  | packet mstime hdr =>
    obtain ⟨heffect, -⟩ := clusterProcessPacket_spec cfg mstime hdr s.cluster
    simp only [voterStep]
    generalize clusterProcessPacket cfg mstime hdr s.cluster = r at heffect
    obtain ⟨c', out, granted⟩ := r
    simp only at heffect ⊢
    have hlast := h.last_le
    cases heffect with
    | quiet e he hballot =>
      have h1 : c'.currentEpoch = e := congrArg Ballot.epoch hballot
      have h2 : c'.lastVoteEpoch = s.cluster.lastVoteEpoch := congrArg Ballot.lastVote hballot
      refine ⟨by simp only; omega, h.conf_le, fun v hv => ?_, h.votes_unique⟩
      have := h.votes_le v hv
      simp only
      omega
    | counted e he htype hmaster hslots hepoch hballot =>
      have h1 : c'.currentEpoch = e := congrArg Ballot.epoch hballot
      have h2 : c'.lastVoteEpoch = s.cluster.lastVoteEpoch := congrArg Ballot.lastVote hballot
      refine ⟨by simp only; omega, h.conf_le, fun v hv => ?_, h.votes_unique⟩
      have := h.votes_le v hv
      simp only
      omega
    | granted e he htype hreq hfresh hballot =>
      have h1 : c'.currentEpoch = e := congrArg Ballot.epoch hballot
      have h2 : c'.lastVoteEpoch = e := congrArg Ballot.lastVote hballot
      -- the epoch of the new vote is above `lastVoteEpoch`, so above those of all other votes
      have hnew : ∀ v ∈ s.votes, v.2 < e := by
        intro v hv
        have := h.votes_le v hv
        omega
      refine ⟨by simp only; omega, h.conf_le, fun v hv => ?_, ?_⟩
      · simp only [if_true] at hv ⊢
        rcases List.mem_append.mp hv with hv | hv
        · have := hnew v hv
          omega
        · rw [List.mem_singleton.mp hv]
      · simp only [if_true, h2]
        rw [List.pairwise_append]
        refine ⟨h.votes_unique, List.pairwise_singleton .., fun v hv w hw => ?_⟩
        rw [List.mem_singleton.mp hw]
        exact ne_of_lt (hnew v hv)
  | beforeSleep env =>
    obtain ⟨hcur, hlast, hsaved⟩ := clusterBeforeSleep_spec ha
    have hle := h.last_le
    refine ⟨?_, ?_, fun v hv => ?_, h.votes_unique⟩
    · simp only [voterStep, hlast]
      omega
    · simp only [voterStep]
      cases hvars : (clusterBeforeSleep cfg env s.cluster).2 with
      | none => exact h.conf_le
      | some vars =>
        rw [Option.getD_some, hsaved vars hvars, clusterSaveConfig]
        simp only [hlast]
        omega
    · simp only [voterStep, hlast]
      exact h.votes_le v hv
  | other ch => exact ⟨le_trans h.last_le (le_max_left ..), h.conf_le, h.votes_le, h.votes_unique⟩
  | crash t =>
    obtain ⟨hlast, hcur⟩ := clusterInit_ballot t s.conf
    have hsaved : s.conf.lastVoteEpoch = s.cluster.lastVoteEpoch := ha
    refine ⟨?_, h.conf_le, fun v hv => ?_, h.votes_unique⟩
    · show (clusterInit t s.conf).lastVoteEpoch ≤ (clusterInit t s.conf).currentEpoch
      rw [hlast]
      exact le_trans h.conf_le hcur
    · show v.2 ≤ (clusterInit t s.conf).lastVoteEpoch
      rw [hlast, hsaved]
      exact h.votes_le v hv

def VotesOncePerEpoch (s : VoterState ν) : Prop :=
  ∀ v ∈ s.votes, ∀ w ∈ s.votes, v.2 = w.2 → v.1 = w.1

/-- A voter that has saved its last vote whenever it crashes votes once in an epoch. -/
theorem vote_durable (cfg : ClusterConfig) (t : NodeTable ν) (acts : List (VoterAct ν))
    (hsaved : RunMeets (voterStep cfg) (VoteSaved cfg) (voterBoot t) acts) :
    VotesOncePerEpoch (run (voterStep cfg) (voterBoot t) acts) := by
  have hinv : VoterInv (run (voterStep cfg) (voterBoot t) acts) :=
    run_inv (fun s a h ha => voterStep_inv h ha) (voterBoot_inv t) hsaved
  intro v hv w hw hepoch
  by_contra hne
  have hvw : v ≠ w := fun hc => hne (by rw [hc])
  have hsymm : Std.Symm fun v w : ν × Nat => v.2 ≠ w.2 := ⟨fun _ _ h => h.symm⟩
  exact hinv.votes_unique.forall hv hw hvw hepoch

end

def voterTable : NodeTable Nat :=
  { myself := 0
    nodes := [0, 1, 2, 3]
    node := fun n =>
      { flags := ⟨n ≤ 1, 2 ≤ n, n = 1, n = 0, false⟩
        slaveof := if 2 ≤ n then some 1 else none
        slots := if n = 0 then {0} else if n = 1 then {1} else ∅
        numslots := if n ≤ 1 then 1 else 0
        configEpoch := 0, voted_time := 0, link := decide (n ≠ 0) }
    slots := fun j => if j = 0 then some 0 else if j = 1 then some 1 else none
    failover_auth_sent := false }

def voteRequest (slave : Nat) : ClusterMsg Nat :=
  { type := .failoverAuthRequest, sender := slave, currentEpoch := 1, configEpoch := 0
    myslots := {1}, forceack := false }

def quietEnv (mstime : Int) : FailoverEnv :=
  { mstime := mstime, random := 0, rank := 0, connected := false, unixtime := 0
    lastinteraction := 0, repl_down_since := 0 }

def voterConfig : ClusterConfig := { cluster_node_timeout := 15000, repl_ping_slave_period := 10 }

def crashRun : List (VoterAct Nat) :=
  [.packet 100000 (voteRequest 2), .beforeSleep (quietEnv 100001), .crash voterTable,
    .packet 200000 (voteRequest 3)]

/-- Both slaves get a vote for epoch 1. -/
theorem vote_lost_in_crash :
    ¬ VotesOncePerEpoch (run (voterStep voterConfig) (voterBoot voterTable) crashRun) := by
  intro h
  have hsame : (2 : Nat) = 3 := h (2, 1) (by decide) (3, 1) (by decide) rfl
  exact absurd hsame (by decide)

def savedRun : List (VoterAct Nat) :=
  [.packet 100000 (voteRequest 2),
    .packet 100001 { voteRequest 3 with configEpoch := 1 }, .beforeSleep (quietEnv 100002),
    .crash voterTable, .packet 200000 { voteRequest 3 with currentEpoch := 2 }]

theorem vote_durable_saved :
    RunMeets (voterStep voterConfig) (VoteSaved voterConfig) (voterBoot voterTable) savedRun ∧
      VotesOncePerEpoch (run (voterStep voterConfig) (voterBoot voterTable) savedRun) := by
  have hmeets : RunMeets (voterStep voterConfig) (VoteSaved voterConfig) (voterBoot voterTable)
      savedRun := by decide
  exact ⟨hmeets, vote_durable voterConfig voterTable savedRun hmeets⟩

end RedisCluster
