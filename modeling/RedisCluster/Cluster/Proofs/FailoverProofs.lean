import RedisCluster.Cluster.Failover
import RedisCluster.Lib.EpochVote

/-!
# What a vote, a packet and an election step change

Safety depends on four numbers of a node, its `ballot`, and on what it knows of the masters. One
lemma for each function says what it does to them and which messages it sends.
-/

namespace RedisCluster

open RedisCluster.Lib

section

variable {ν : Type}

def ClusterState.ballot (c : ClusterState ν) : Ballot :=
  ⟨c.currentEpoch, c.lastVoteEpoch, c.failover_auth_epoch, c.failover_auth_count⟩

/-- What `c'` knows of the other nodes is what `c` knows, but for slots that others lost. -/
structure SameView (c c' : ClusterState ν) : Prop where
  myself : c'.myself = c.myself
  size : c'.size = c.size
  link : (c'.node c.myself).link = (c.node c.myself).link
  master : ∀ x, x ≠ c.myself → c'.nodeIsMaster x = c.nodeIsMaster x
  numslots : ∀ x, x ≠ c.myself → (c'.node x).numslots ≤ (c.node x).numslots

theorem SameView.refl (c : ClusterState ν) : SameView c c :=
  ⟨rfl, rfl, rfl, fun _ _ => rfl, fun _ _ => le_rfl⟩

theorem SameView.trans {c c' c'' : ClusterState ν} (h : SameView c c') (h' : SameView c' c'') :
    SameView c c'' := by
  refine ⟨h'.myself.trans h.myself, h'.size.trans h.size, ?_, fun x hx => ?_, fun x hx => ?_⟩
  · have hlink := h'.link
    rw [h.myself] at hlink
    exact hlink.trans h.link
  · have hx' : x ≠ c'.myself := by rwa [h.myself]
    exact (h'.master x hx').trans (h.master x hx)
  · have hx' : x ≠ c'.myself := by rwa [h.myself]
    exact le_trans (h'.numslots x hx') (h.numslots x hx)

/-- Nothing that counts for the election changes. -/
structure SameBallot (c c' : ClusterState ν) : Prop where
  ballot : c'.ballot = c.ballot
  view : SameView c c'

theorem SameBallot.trans {c c' c'' : ClusterState ν} (h : SameBallot c c')
    (h' : SameBallot c' c'') : SameBallot c c'' :=
  ⟨h'.ballot.trans h.ballot, h.view.trans h'.view⟩

theorem SameBallot.auth_epoch {c c' : ClusterState ν} (h : SameBallot c c') :
    c'.failover_auth_epoch = c.failover_auth_epoch := congrArg Ballot.asked h.ballot

theorem resetManualFailover_sameBallot (c : ClusterState ν) :
    SameBallot c (resetManualFailover c) :=
  ⟨rfl, rfl, rfl, rfl, fun _ _ => rfl, fun _ _ => le_rfl⟩

theorem resetManualFailover_node (c : ClusterState ν) : (resetManualFailover c).node = c.node := rfl

theorem foldl_sameBallot {f : ClusterState ν → Nat → ClusterState ν}
    (hf : ∀ c j, SameBallot c (f c j)) (l : List Nat) :
    ∀ c, SameBallot c (l.foldl f c) := by
  induction l with
  | nil => exact fun c => ⟨rfl, SameView.refl c⟩
  | cons j l ih => exact fun c => (hf c j).trans (ih (f c j))

theorem updateFailoverRank_sameBallot (env : FailoverEnv) (c : ClusterState ν) :
    SameBallot c (updateFailoverRank env c) := by
  unfold updateFailoverRank
  split
  · exact ⟨rfl, rfl, rfl, rfl, fun _ _ => rfl, fun _ _ => le_rfl⟩
  · exact ⟨rfl, SameView.refl c⟩

def SentBy (c : ClusterState ν) (type : ClusterMsgType) (out : List (ν × ClusterMsg ν)) : Prop :=
  ∀ p ∈ out, (c.node p.1).link = true ∧ p.2.sender = c.myself ∧ p.2.type = type ∧
    p.2.currentEpoch = c.currentEpoch

theorem clusterRequestFailoverAuth_sentBy (c : ClusterState ν) :
    SentBy c .failoverAuthRequest (clusterRequestFailoverAuth c) := by
  intro p hp
  obtain ⟨n, hn, rfl⟩ := List.mem_map.mp hp
  have hlink := (List.mem_filter.mp hn).2
  rw [Bool.and_eq_true] at hlink
  exact ⟨hlink.1, rfl, rfl, rfl⟩

theorem failoverBranch_win {cfg : ClusterConfig} {env : FailoverEnv} {c : ClusterState ν}
    (h : failoverBranch cfg env c = .win) :
    (∃ m, (c.node c.myself).slaveof = some m) ∧ c.size / 2 + 1 ≤ c.failover_auth_count := by
  unfold failoverBranch at h
  cases hslave : (c.node c.myself).slaveof with
  | none => simp [hslave] at h
  | some m =>
    refine ⟨⟨m, rfl⟩, ?_⟩
    by_contra hcount
    simp only [hslave, ge_iff_le, hcount, if_false] at h
    repeat' split at h
    all_goals cases h

theorem failoverBranch_todo (cfg : ClusterConfig) (env : FailoverEnv) (c : ClusterState ν)
    (t : TodoFlags) :
    failoverBranch cfg env { c with todo_before_sleep := t } = failoverBranch cfg env c := by
  have htime : (updateFailoverRank env { c with todo_before_sleep := t }).failover_auth_time =
      (updateFailoverRank env c).failover_auth_time := by
    simp only [updateFailoverRank]
    split <;> rfl
  simp only [failoverBranch, htime]
  rfl

end

variable {ν : Type} [DecidableEq ν]

theorem setNode_sameView {c : ClusterState ν} {n : ν} {x : ClusterNode ν}
    (hflags : x.flags = (c.node n).flags) (hlink : x.link = (c.node n).link)
    (hslots : x.numslots = (c.node n).numslots) : SameView c (c.setNode n x) := by
  refine ⟨rfl, rfl, ?_, fun y _ => ?_, fun y _ => ?_⟩
  · by_cases hy : c.myself = n
    · subst hy
      simp [ClusterState.setNode, hlink]
    · simp [ClusterState.setNode, hy]
  · by_cases hy : y = n
    · subst hy
      simp [ClusterState.setNode, ClusterState.nodeIsMaster, hflags]
    · simp [ClusterState.setNode, ClusterState.nodeIsMaster, hy]
  · by_cases hy : y = n
    · subst hy
      simp [ClusterState.setNode, hslots]
    · simp [ClusterState.setNode, hy]

theorem auth_granted {cfg : ClusterConfig} {mstime : Int} {n : ν} {request : ClusterMsg ν}
    {c c' : ClusterState ν} {out : List (ν × ClusterMsg ν)}
    (h : clusterSendFailoverAuthIfNeeded cfg mstime n request c = some (c', out)) :
    c.currentEpoch ≤ request.currentEpoch ∧ c.lastVoteEpoch ≠ c.currentEpoch ∧
      c'.ballot = { c.ballot with lastVote := c.currentEpoch } ∧ SameView c c' ∧
      out = clusterSendMessage c n (clusterBuildMessageHdr c .failoverAuthAck) := by
  unfold clusterSendFailoverAuthIfNeeded at h
  split at h
  · cases h
  split at h
  · cases h
  rename_i hepoch
  split at h
  · cases h
  rename_i hvote
  split at h
  · cases h
  split at h
  · cases h
  split at h
  · cases h
  split at h
  · simp only [Option.some.injEq, Prod.mk.injEq] at h
    obtain ⟨rfl, rfl⟩ := h
    rename_i master _ _ _ _
    have hview : SameView c (c.setNode master { c.node master with voted_time := mstime }) :=
      setNode_sameView rfl rfl rfl
    exact ⟨by omega, hvote, rfl, ⟨rfl, rfl, hview.link, hview.master, hview.numslots⟩, rfl⟩
  · cases h

theorem updateEpochs_spec (sender : ν) (hdr : ClusterMsg ν) (c : ClusterState ν) :
    (updateEpochs sender hdr c).ballot =
        { c.ballot with epoch := max c.currentEpoch hdr.currentEpoch } ∧
      SameView c (updateEpochs sender hdr c) := by
  set c1 : ClusterState ν := if hdr.currentEpoch > c.currentEpoch then
    { c with currentEpoch := hdr.currentEpoch } else c with hc1
  have hballot : c1.ballot = { c.ballot with epoch := max c.currentEpoch hdr.currentEpoch } := by
    rw [hc1]
    split
    · rw [max_eq_right (by omega)]
      rfl
    · rw [max_eq_left (by omega)]
      rfl
  have hview : SameView c c1 := by
    rw [hc1]
    split
    · exact ⟨rfl, rfl, rfl, fun _ _ => rfl, fun _ _ => le_rfl⟩
    · exact SameView.refl c
  have hunfold : updateEpochs sender hdr c =
      if hdr.configEpoch > (c1.node sender).configEpoch then
        { c1.setNode sender { c1.node sender with configEpoch := hdr.configEpoch } with
          todo_before_sleep := c1.todo_before_sleep.save }
      else c1 := rfl
  rw [hunfold]
  split
  · have hset : SameView c1 (c1.setNode sender { c1.node sender with configEpoch := hdr.configEpoch }) :=
      setNode_sameView rfl rfl rfl
    exact ⟨hballot, hview.trans ⟨rfl, rfl, hset.link, hset.master, hset.numslots⟩⟩
  · exact ⟨hballot, hview⟩

/-- What a packet can do: raise `currentEpoch`, and then grant a vote or count one. -/
inductive PacketEffect (hdr : ClusterMsg ν) (c c' : ClusterState ν) :
    List (ν × ClusterMsg ν) → Bool → Prop where
  | quiet (e : Nat) (he : c.currentEpoch ≤ e)
      (hballot : c'.ballot = { c.ballot with epoch := e }) : PacketEffect hdr c c' [] false
  | granted (e : Nat) (he : c.currentEpoch ≤ e) (htype : hdr.type = .failoverAuthRequest)
      (hreq : e ≤ hdr.currentEpoch) (hfresh : c.lastVoteEpoch ≠ e)
      (hballot : c'.ballot = { c.ballot with epoch := e, lastVote := e })
      (out : List (ν × ClusterMsg ν))
      (hout : out = [] ∨ ∃ ack, out = [(hdr.sender, ack)] ∧ ack.type = .failoverAuthAck ∧
        ack.sender = c.myself ∧ ack.currentEpoch = e) : PacketEffect hdr c c' out true
  | counted (e : Nat) (he : c.currentEpoch ≤ e) (htype : hdr.type = .failoverAuthAck)
      (hmaster : c'.nodeIsMaster hdr.sender = true) (hslots : 0 < (c'.node hdr.sender).numslots)
      (hepoch : c.failover_auth_epoch ≤ hdr.currentEpoch)
      (hballot : c'.ballot = { c.ballot with
        epoch := e, count := c.failover_auth_count + 1 }) :
      PacketEffect hdr c c' [] false

theorem clusterProcessPacket_spec (cfg : ClusterConfig) (mstime : Int) (hdr : ClusterMsg ν)
    (c : ClusterState ν) :
    PacketEffect hdr c (clusterProcessPacket cfg mstime hdr c).1
        (clusterProcessPacket cfg mstime hdr c).2.1 (clusterProcessPacket cfg mstime hdr c).2.2 ∧
      SameView c (clusterProcessPacket cfg mstime hdr c).1 := by
  unfold clusterProcessPacket
  by_cases hmem : hdr.sender ∈ c.nodes
  swap
  · simp only [clusterLookupNode, if_neg hmem]
    exact ⟨.quiet c.currentEpoch le_rfl rfl, SameView.refl c⟩
  simp only [clusterLookupNode, if_pos hmem]
  generalize hc1 : (if (!c.nodeInHandshake hdr.sender) = true then updateEpochs hdr.sender hdr c
    else c) = c1
  -- the state after the header
  obtain ⟨⟨e, he, hb1⟩, hview1⟩ : (∃ e, c.currentEpoch ≤ e ∧
      c1.ballot = { c.ballot with epoch := e }) ∧ SameView c c1 := by
    rw [← hc1]
    split
    · obtain ⟨hb, hv⟩ := updateEpochs_spec hdr.sender hdr c
      exact ⟨⟨_, le_max_left .., hb⟩, hv⟩
    · exact ⟨⟨c.currentEpoch, le_rfl, rfl⟩, SameView.refl c⟩
  obtain ⟨hcur, hlast, hepoch, hcount⟩ : c1.currentEpoch = e ∧ c1.lastVoteEpoch = c.lastVoteEpoch ∧
      c1.failover_auth_epoch = c.failover_auth_epoch ∧
      c1.failover_auth_count = c.failover_auth_count := by
    simpa only [ClusterState.ballot, Ballot.mk.injEq] using hb1
  cases htype : hdr.type with
  | ping => exact ⟨.quiet e he hb1, hview1⟩
  | pong => exact ⟨.quiet e he hb1, hview1⟩
  | failoverAuthRequest =>
    simp only
    cases hauth : clusterSendFailoverAuthIfNeeded cfg mstime hdr.sender hdr c1 with
    | none => exact ⟨.quiet e he hb1, hview1⟩
    | some r =>
      obtain ⟨c2, out⟩ := r
      obtain ⟨hreq, hfresh, hb2, hview2, hout⟩ := auth_granted hauth
      refine ⟨.granted e he htype (by rwa [hcur] at hreq) (by rwa [hlast, hcur] at hfresh) ?_ out ?_,
        hview1.trans hview2⟩
      · rw [hb2, hb1, hcur]
      · rw [hout, clusterSendMessage]
        split
        · exact Or.inr ⟨_, rfl, rfl, hview1.myself, hcur⟩
        · exact Or.inl rfl
  | failoverAuthAck =>
    simp only
    generalize hsent : (if (!c.nodeInHandshake hdr.sender) = true then hdr.currentEpoch else 0) = sent
    have hsent' : sent ≤ hdr.currentEpoch := by
      rw [← hsent]
      split <;> omega
    unfold countVote
    by_cases hvote : c1.nodeIsMaster hdr.sender = true ∧ (c1.node hdr.sender).numslots > 0 ∧
        sent ≥ c1.failover_auth_epoch
    · rw [if_pos hvote]
      obtain ⟨hm, hs, hle⟩ := hvote
      refine ⟨.counted e he htype hm hs (by rw [← hepoch]; omega) ?_, ?_⟩
      · show Ballot.mk c1.currentEpoch c1.lastVoteEpoch c1.failover_auth_epoch
          (c1.failover_auth_count + 1) = _
        rw [hcur, hlast, hepoch, hcount]
        rfl
      · exact hview1.trans ⟨rfl, rfl, rfl, fun _ _ => rfl, fun _ _ => le_rfl⟩
    · rw [if_neg hvote]
      exact ⟨.quiet e he hb1, hview1⟩

theorem clusterDelSlot_sameBallot (c : ClusterState ν) (j : Nat) :
    SameBallot c (clusterDelSlot j c) := by
  unfold clusterDelSlot
  cases c.slots j with
  | none => exact ⟨rfl, SameView.refl c⟩
  | some n =>
    refine ⟨rfl, rfl, rfl, ?_, fun x _ => ?_, fun x _ => ?_⟩
    · by_cases hx : c.myself = n
      · subst hx
        simp [ClusterState.setNode]
      · simp [ClusterState.setNode, hx]
    · by_cases hx : x = n
      · subst hx
        simp [ClusterState.setNode, ClusterState.nodeIsMaster]
      · simp [ClusterState.setNode, ClusterState.nodeIsMaster, hx]
    · by_cases hx : x = n
      · subst hx
        simp only [ClusterState.setNode, Function.update_self]
        split <;> omega
      · simp [ClusterState.setNode, hx]

theorem clusterAddSlot_sameBallot (c : ClusterState ν) (j : Nat) :
    SameBallot c (clusterAddSlot c.myself j c) := by
  unfold clusterAddSlot
  split
  · exact ⟨rfl, SameView.refl c⟩
  · refine ⟨rfl, rfl, rfl, ?_, fun x hx => ?_, fun x hx => ?_⟩
    · simp [ClusterState.setNode]
    · simp [ClusterState.setNode, ClusterState.nodeIsMaster, hx]
    · simp [ClusterState.setNode, hx]

theorem clusterSetNodeAsMaster_sameBallot (c : ClusterState ν) :
    SameBallot c (clusterSetNodeAsMaster c.myself c) := by
  unfold clusterSetNodeAsMaster
  split
  · exact ⟨rfl, SameView.refl c⟩
  · refine ⟨rfl, rfl, rfl, ?_, fun x hx => ?_, fun x hx => ?_⟩
    · simp [ClusterState.setNode]
    · simp [ClusterState.setNode, ClusterState.nodeIsMaster, hx]
    · simp [ClusterState.setNode, hx]

theorem takeSlots_sameBallot (m : ν) (c : ClusterState ν) : SameBallot c (takeSlots m c) := by
  refine foldl_sameBallot (fun c j => ?_) _ c
  split
  · have hdel := clusterDelSlot_sameBallot c j
    have hadd := clusterAddSlot_sameBallot (clusterDelSlot j c) j
    rw [hdel.view.myself] at hadd
    exact hdel.trans hadd
  · exact ⟨rfl, SameView.refl c⟩

theorem claimEpoch_spec (c : ClusterState ν) : SameBallot c (claimEpoch c) ∧
    ((claimEpoch c).node c.myself).configEpoch = c.failover_auth_epoch := by
  have hset : SameView c
      (c.setNode c.myself { c.node c.myself with configEpoch := c.failover_auth_epoch }) :=
    setNode_sameView rfl rfl rfl
  exact ⟨⟨rfl, rfl, rfl, hset.link, hset.master, hset.numslots⟩,
    by simp [claimEpoch, ClusterState.setNode]⟩

theorem winFailover_spec {c : ClusterState ν} {m : ν}
    (hslave : (c.node c.myself).slaveof = some m) :
    SameBallot c (winFailover c) ∧
      ((winFailover c).node c.myself).configEpoch = c.failover_auth_epoch := by
  have htake : SameBallot c (takeSlots m (clusterSetNodeAsMaster c.myself c)) :=
    (clusterSetNodeAsMaster_sameBallot c).trans (takeSlots_sameBallot m _)
  obtain ⟨hclaim, hconfig⟩ := claimEpoch_spec (takeSlots m (clusterSetNodeAsMaster c.myself c))
  have hwin : winFailover c = claimEpoch (takeSlots m (clusterSetNodeAsMaster c.myself c)) := by
    simp only [winFailover, hslave]
  rw [hwin]
  refine ⟨htake.trans hclaim, ?_⟩
  rw [htake.view.myself] at hconfig
  exact hconfig.trans htake.auth_epoch

theorem clusterBroadcastPong_sentBy (c : ClusterState ν) (localSlaves : Bool) :
    SentBy c .pong (clusterBroadcastPong c localSlaves) := by
  intro p hp
  obtain ⟨n, hn, rfl⟩ := List.mem_map.mp hp
  have hlink := (List.mem_filter.mp hn).2
  simp only [Bool.and_eq_true] at hlink
  exact ⟨hlink.1.1, rfl, rfl, rfl⟩

/-- What `clusterHandleSlaveFailover` can do. -/
inductive FailoverEffect (cfg : ClusterConfig) (env : FailoverEnv) (c c' : ClusterState ν) :
    List (ν × ClusterMsg ν) → Bool → Prop where
  | quiet (hballot : c'.ballot = c.ballot) : FailoverEffect cfg env c c' [] false
  | scheduled (hballot : c'.ballot = { c.ballot with count := 0 })
      (out : List (ν × ClusterMsg ν)) (hout : SentBy c' .pong out) :
      FailoverEffect cfg env c c' out false
  | asked (hbranch : failoverBranch cfg env c = .askForVotes)
      (hballot : c'.ballot = { c.ballot with
        epoch := (c.currentEpoch + 1) % 2 ^ 64
        asked := (c.currentEpoch + 1) % 2 ^ 64 })
      (out : List (ν × ClusterMsg ν)) (hout : SentBy c' .failoverAuthRequest out) :
      FailoverEffect cfg env c c' out false
  | won (hcount : c.size / 2 + 1 ≤ c.failover_auth_count) (hballot : c'.ballot = c.ballot)
      (hconfig : (c'.node c.myself).configEpoch = c.failover_auth_epoch)
      (out : List (ν × ClusterMsg ν)) (hout : SentBy c' .pong out) :
      FailoverEffect cfg env c c' out true

theorem clusterHandleSlaveFailover_spec (cfg : ClusterConfig) (env : FailoverEnv)
    (c : ClusterState ν) :
    FailoverEffect cfg env c (clusterHandleSlaveFailover cfg env c).1
        (clusterHandleSlaveFailover cfg env c).2.1 (clusterHandleSlaveFailover cfg env c).2.2 ∧
      SameView c (clusterHandleSlaveFailover cfg env c).1 := by
  set c1 : ClusterState ν :=
    { c with todo_before_sleep := { c.todo_before_sleep with handleFailover := false } } with hc1
  have h1 : SameBallot c c1 := ⟨rfl, rfl, rfl, rfl, fun _ _ => rfl, fun _ _ => le_rfl⟩
  have hrank : SameBallot c (updateFailoverRank env c1) :=
    h1.trans (updateFailoverRank_sameBallot env c1)
  have hbranch : failoverBranch cfg env c1 = failoverBranch cfg env c :=
    failoverBranch_todo cfg env c _
  unfold clusterHandleSlaveFailover
  simp only [← hc1]
  cases hb : failoverBranch cfg env c1 with
  | notNeeded => exact ⟨.quiet h1.ballot, h1.view⟩
  | dataAge => exact ⟨.quiet h1.ballot, h1.view⟩
  | schedule =>
    have hsched : (scheduleFailover env c1).ballot = { c.ballot with count := 0 } ∧
        SameView c (scheduleFailover env c1) := by
      unfold scheduleFailover
      simp only
      split <;> exact ⟨rfl, rfl, rfl, rfl, fun _ _ => rfl, fun _ _ => le_rfl⟩
    simp only
    exact ⟨.scheduled hsched.1 _ (clusterBroadcastPong_sentBy _ true), hsched.2⟩
  | waitingDelay => exact ⟨.quiet hrank.ballot, hrank.view⟩
  | expired => exact ⟨.quiet hrank.ballot, hrank.view⟩
  | waitingVotes => exact ⟨.quiet hrank.ballot, hrank.view⟩
  | askForVotes =>
    obtain ⟨hcur, hlast, -, hcount⟩ : (updateFailoverRank env c1).currentEpoch = c.currentEpoch ∧
        (updateFailoverRank env c1).lastVoteEpoch = c.lastVoteEpoch ∧
        (updateFailoverRank env c1).failover_auth_epoch = c.failover_auth_epoch ∧
        (updateFailoverRank env c1).failover_auth_count = c.failover_auth_count := by
      simpa only [ClusterState.ballot, Ballot.mk.injEq] using hrank.ballot
    refine ⟨.asked (by rw [← hbranch, hb]) ?_ _ (clusterRequestFailoverAuth_sentBy _),
      hrank.view.trans ⟨rfl, rfl, rfl, fun _ _ => rfl, fun _ _ => le_rfl⟩⟩
    show Ballot.mk (((updateFailoverRank env c1).currentEpoch + 1) % 2 ^ 64)
      (updateFailoverRank env c1).lastVoteEpoch
      (((updateFailoverRank env c1).currentEpoch + 1) % 2 ^ 64)
      (updateFailoverRank env c1).failover_auth_count = _
    rw [hcur, hlast, hcount]
    rfl
  | win =>
    obtain ⟨⟨m, hslave⟩, hcount⟩ := failoverBranch_win (hbranch ▸ hb)
    have hnode : (updateFailoverRank env c1).node = c.node := by
      unfold updateFailoverRank
      split <;> rfl
    have hmyself : (updateFailoverRank env c1).myself = c.myself := hrank.view.myself
    obtain ⟨hwin, hconfig⟩ := winFailover_spec (c := updateFailoverRank env c1) (m := m)
      (by rw [hnode, hmyself, hslave])
    rw [hmyself] at hconfig
    have hall := (hrank.trans hwin).trans (resetManualFailover_sameBallot _)
    simp only
    refine ⟨.won hcount hall.ballot ?_ _ ?_, hall.view⟩
    · rw [resetManualFailover_node, hconfig, hrank.auth_epoch]
    · have hsent := clusterBroadcastPong_sentBy (winFailover (updateFailoverRank env c1)) false
      exact hsent

end RedisCluster
