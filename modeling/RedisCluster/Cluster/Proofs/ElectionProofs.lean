import RedisCluster.Cluster.Election
import RedisCluster.Cluster.Proofs.FailoverProofs

/-!
# At most one slave is promoted in an epoch

A run of the cluster simulates an election by epochs: the ballots are those of the nodes, and the
packets on the links are requests that were made and votes that were granted and not received yet.
-/

namespace RedisCluster

open RedisCluster.Lib

theorem KnowsMasters.same {ν : Type} {M : Finset ν} {c c' : ClusterState ν} (h : KnowsMasters M c)
    (hview : SameView c c') : KnowsMasters M c' := by
  refine ⟨fun x hx hmaster hslots => ?_, by rw [hview.size]; exact h.size, ?_⟩
  · rw [hview.myself] at hx
    rw [hview.master x hx] at hmaster
    exact h.masters x hx hmaster (lt_of_lt_of_le hslots (hview.numslots x hx))
  · rw [hview.myself, hview.link]
    exact h.link

variable {ν : Type} [DecidableEq ν]

def NodesOk (M : Finset ν) (cluster : ν → ClusterState ν) : Prop :=
  ∀ n, (cluster n).myself = n ∧ KnowsMasters M (cluster n)

theorem NodesOk.update {M : Finset ν} {cluster : ν → ClusterState ν} (h : NodesOk M cluster) (n : ν)
    {c : ClusterState ν} (hmyself : c.myself = (cluster n).myself) (hknows : KnowsMasters M c) :
    NodesOk M (Function.update cluster n c) := by
  intro m
  by_cases hm : m = n
  · subst hm
    rw [Function.update_self]
    exact ⟨hmyself.trans (h m).1, hknows⟩
  · rw [Function.update_of_ne hm]
    exact h m

def isAck (e : Nat) (m : ClusterMsg ν) : Bool :=
  decide (m.type = .failoverAuthAck ∧ m.currentEpoch = e)

/-- The packets on the links come from the node at their end. Requests were made, and an ACK is a
vote granted and not received yet. -/
structure NetOk (links : Links ν (ClusterMsg ν)) (asks : List (ν × Nat))
    (votes acks : List (Vote ν)) : Prop where
  noSelf : ∀ a, links a a = []
  senders : ∀ a b, ∀ m ∈ links a b, m.sender = a
  asked : ∀ a b, ∀ m ∈ links a b, m.type = .failoverAuthRequest → (a, m.currentEpoch) ∈ asks
  acked : ∀ v c e, (links v c).countP (isAck e) + acks.count ⟨v, c, e⟩ ≤ votes.count ⟨v, c, e⟩

section

variable {links : Links ν (ClusterMsg ν)} {asks : List (ν × Nat)} {votes acks : List (Vote ν)}

theorem NetOk.send (h : NetOk links asks votes acks) {n : ν} {out : List (ν × ClusterMsg ν)}
    (hout : ∀ q ∈ out, q.1 ≠ n ∧ q.2.sender = n ∧ q.2.type ≠ .failoverAuthAck ∧
      (q.2.type = .failoverAuthRequest → (n, q.2.currentEpoch) ∈ asks)) :
    NetOk (links.send n out) asks votes acks := by
  refine ⟨fun a => ?_, fun a b m hm => ?_, fun a b m hm htype => ?_, fun v c e => ?_⟩
  · rw [List.eq_nil_iff_forall_not_mem]
    intro m hm
    rcases Links.mem_send.mp hm with hold | ⟨rfl, hnew⟩
    · rw [h.noSelf a] at hold
      exact absurd hold (List.not_mem_nil)
    · exact (hout _ hnew).1 rfl
  · rcases Links.mem_send.mp hm with hold | ⟨rfl, hnew⟩
    · exact h.senders a b m hold
    · exact (hout _ hnew).2.1
  · rcases Links.mem_send.mp hm with hold | ⟨rfl, hnew⟩
    · exact h.asked a b m hold htype
    · exact (hout _ hnew).2.2.2 htype
  · rw [Links.countP_send fun q hq => by simp [isAck, (hout q hq).2.2.1]]
    exact h.acked v c e

theorem NetOk.noSelf_set (h : NetOk links asks votes acks) {src dst : ν} {rest : List (ClusterMsg ν)}
    (hsub : ∀ m ∈ rest, m ∈ links src dst) (a : ν) : links.set src dst rest a a = [] := by
  rw [List.eq_nil_iff_forall_not_mem]
  intro m hm
  have hmem := Links.mem_set hsub hm
  rw [h.noSelf a] at hmem
  exact absurd hmem (List.not_mem_nil)

theorem NetOk.pop (h : NetOk links asks votes acks) {src dst : ν} {hdr : ClusterMsg ν}
    {rest : List (ClusterMsg ν)} (hlink : links src dst = hdr :: rest) :
    NetOk (links.set src dst rest) asks votes
      (if hdr.type = .failoverAuthAck then acks ++ [⟨hdr.sender, dst, hdr.currentEpoch⟩]
        else acks) := by
  have hsub : ∀ m ∈ rest, m ∈ links src dst := fun m hm => by
    rw [hlink]
    exact List.mem_cons_of_mem _ hm
  have hsender : hdr.sender = src := h.senders src dst hdr (by rw [hlink]; exact List.mem_cons_self ..)
  refine ⟨h.noSelf_set hsub, fun a b m hm => h.senders a b m (Links.mem_set hsub hm),
    fun a b m hm => h.asked a b m (Links.mem_set hsub hm), fun v c e => ?_⟩
  · have hle := h.acked v c e
    by_cases hvc : v = src ∧ c = dst
    · obtain ⟨rfl, rfl⟩ := hvc
      rw [hlink, List.countP_cons] at hle
      rw [Links.set_self, hsender]
      by_cases hack : hdr.type = .failoverAuthAck
      · rw [if_pos hack, List.count_append, List.count_singleton]
        by_cases he : hdr.currentEpoch = e
        · rw [if_pos (by simp [isAck, hack, he])] at hle
          rw [if_pos (by simp [he])]
          omega
        · rw [if_neg (by simp [isAck, he])] at hle
          rw [if_neg (by simp [he])]
          omega
      · rw [if_neg hack]
        omega
    · rw [Links.set_of_ne hvc]
      have hne : (⟨hdr.sender, dst, hdr.currentEpoch⟩ : Vote ν) ≠ ⟨v, c, e⟩ := by
        intro heq
        simp only [Vote.mk.injEq] at heq
        exact hvc ⟨heq.1.symm.trans hsender, heq.2.1.symm⟩
      split
      · rw [List.count_append, List.count_singleton, if_neg (by simpa using hne)]
        exact hle
      · exact hle

theorem NetOk.reset (h : NetOk links asks votes acks) (src dst : ν) :
    NetOk (links.set src dst []) asks votes acks := by
  have hsub : ∀ m ∈ ([] : List (ClusterMsg ν)), m ∈ links src dst := fun m hm =>
    absurd hm (List.not_mem_nil)
  refine ⟨h.noSelf_set hsub, fun a b m hm => h.senders a b m (Links.mem_set hsub hm),
    fun a b m hm => h.asked a b m (Links.mem_set hsub hm), fun v c e => ?_⟩
  · have hle := h.acked v c e
    by_cases hvc : v = src ∧ c = dst
    · obtain ⟨rfl, rfl⟩ := hvc
      rw [Links.set_self, List.countP_nil]
      omega
    · rw [Links.set_of_ne hvc]
      exact hle

theorem NetOk.grant (h : NetOk links asks votes acks) {v c : ν} {e : Nat}
    {out : List (ν × ClusterMsg ν)} (hvc : c ≠ v)
    (hout : out = [] ∨ ∃ ack, out = [(c, ack)] ∧ ack.type = .failoverAuthAck ∧ ack.sender = v ∧
      ack.currentEpoch = e) :
    NetOk (links.send v out) asks (votes ++ [⟨v, c, e⟩]) acks := by
  have hmore : NetOk links asks (votes ++ [⟨v, c, e⟩]) acks := by
    refine { h with acked := fun v' c' e' => ?_ }
    rw [List.count_append]
    exact le_trans (h.acked v' c' e') (Nat.le_add_right ..)
  rcases hout with rfl | ⟨ack, rfl, htype, hsender, hepoch⟩
  · rw [Links.send_nil]
    exact hmore
  · refine ⟨fun a => ?_, fun a b m hm => ?_, fun a b m hm htype' => ?_, fun v' c' e' => ?_⟩
    · rw [List.eq_nil_iff_forall_not_mem]
      intro m hm
      rcases Links.mem_send.mp hm with hold | ⟨rfl, hnew⟩
      · rw [h.noSelf a] at hold
        exact absurd hold (List.not_mem_nil)
      · rw [List.mem_singleton, Prod.mk.injEq] at hnew
        exact hvc hnew.1.symm
    · rcases Links.mem_send.mp hm with hold | ⟨rfl, hnew⟩
      · exact h.senders a b m hold
      · rw [List.mem_singleton, Prod.mk.injEq] at hnew
        rw [hnew.2, hsender]
    · rcases Links.mem_send.mp hm with hold | ⟨rfl, hnew⟩
      · exact h.asked a b m hold htype'
      · rw [List.mem_singleton, Prod.mk.injEq] at hnew
        rw [hnew.2, htype] at htype'
        cases htype'
    · have hle := h.acked v' c' e'
      rw [Links.countP_send_singleton, List.count_append, List.count_singleton]
      by_cases hsame : v' = v ∧ c' = c ∧ isAck e' ack = true
      · obtain ⟨rfl, rfl, hack⟩ := hsame
        have he : e = e' := by
          rw [isAck, decide_eq_true_eq] at hack
          exact hepoch.symm.trans hack.2
        rw [if_pos ⟨rfl, rfl, hack⟩, if_pos (by simp [he])]
        omega
      · rw [if_neg hsame]
        omega

end

/-- The election that the state of the cluster stands for. -/
structure Couples (M : Finset ν) (w : ElectionState ν) (s : Lib.Election ν) : Prop where
  ballot : s.ballot = fun n => (w.cluster n).ballot
  votes : s.votes = w.votes
  received : s.received = w.acks
  winners : s.winners = w.promotions
  nodes : NodesOk M w.cluster
  net : NetOk w.links s.asks w.votes w.acks

theorem ballot_update (cluster : ν → ClusterState ν) (n : ν) (c : ClusterState ν) :
    (fun m => (Function.update cluster n c m).ballot) =
      Function.update (fun m => (cluster m).ballot) n c.ballot := by
  funext m
  by_cases hm : m = n
  · subst hm
    rw [Function.update_self, Function.update_self]
  · rw [Function.update_of_ne hm, Function.update_of_ne hm]

theorem deliverPacket_couples {M : Finset ν} (cfg : ClusterConfig) (mstime : Int) {src dst : ν}
    {hdr : ClusterMsg ν} {rest : List (ClusterMsg ν)} {w : ElectionState ν} {s : Lib.Election ν}
    (h : Couples M w s) (hinv : EpochInv M s) (hlink : w.links src dst = hdr :: rest) :
    ∃ s', Election.Step M s s' ∧ Couples M (deliverPacket cfg mstime src dst hdr rest w) s' := by
  obtain ⟨hballot, hvotes, hreceived, hwinners, hnodes, hnet⟩ := h
  have hmem : hdr ∈ w.links src dst := by
    rw [hlink]
    exact List.mem_cons_self ..
  have hsender : hdr.sender = src := hnet.senders src dst hdr hmem
  have hne : src ≠ dst := by
    rintro rfl
    rw [hnet.noSelf src] at hmem
    exact absurd hmem (List.not_mem_nil)
  have hpop := hnet.pop hlink
  obtain ⟨heffect, hview⟩ := clusterProcessPacket_spec cfg mstime hdr (w.cluster dst)
  unfold deliverPacket
  generalize clusterProcessPacket cfg mstime hdr (w.cluster dst) = r at heffect hview
  obtain ⟨c', out, granted⟩ := r
  simp only at heffect hview ⊢
  have hnodes' : NodesOk M (Function.update w.cluster dst c') :=
    hnodes.update dst hview.myself ((hnodes dst).2.same hview)
  have hb : ∀ n, s.ballot n = (w.cluster n).ballot := fun n => by rw [hballot]
  -- an ACK on the link is a vote that has not been received yet
  have hack : hdr.type = .failoverAuthAck → (⟨src, dst, hdr.currentEpoch⟩ : Vote ν) ∈ s.votes ∧
      (⟨src, dst, hdr.currentEpoch⟩ : Vote ν) ∉ s.received := by
    intro htype
    have hle := hnet.acked src dst hdr.currentEpoch
    have hpos : 0 < (w.links src dst).countP (isAck hdr.currentEpoch) :=
      List.countP_pos_iff.mpr ⟨hdr, hmem, by simp [isAck, htype]⟩
    have hone := hinv.count_le_one ⟨src, dst, hdr.currentEpoch⟩
    rw [hvotes] at hone
    rw [hvotes, hreceived, ← List.count_pos_iff, ← List.count_eq_zero]
    omega
  cases heffect with
  | quiet e he hballot' =>
    rw [Links.send_nil]
    by_cases htype : hdr.type = .failoverAuthAck
    · obtain ⟨hvote, -⟩ := hack htype
      refine ⟨_, .ignore s ⟨src, dst, hdr.currentEpoch⟩ e (by rw [hb]; exact he) hvote,
        ⟨?_, hvotes, ?_, hwinners, hnodes', hpop⟩⟩
      · simp only
        rw [ballot_update, hballot, hballot']
      · rw [if_pos htype, hreceived, hsender]
    · refine ⟨_, .raise s dst e (by rw [hb]; exact he),
        ⟨?_, hvotes, ?_, hwinners, hnodes', hpop⟩⟩
      · simp only
        rw [ballot_update, hballot, hballot']
      · rw [if_neg htype, hreceived]
  | granted e he htype hreq hfresh hballot' out hout =>
    have hnotack : hdr.type ≠ .failoverAuthAck := by
      rw [htype]
      decide
    have hask : (src, hdr.currentEpoch) ∈ s.asks := hnet.asked src dst hdr hmem htype
    have hlast : c'.lastVoteEpoch = e := congrArg Ballot.lastVote hballot'
    refine ⟨_, .grant s dst src e hdr.currentEpoch (by rw [hb]; exact he)
      (by rw [hb]; exact hfresh) hask hreq, ⟨?_, ?_, ?_, hwinners, hnodes', ?_⟩⟩
    · simp only
      rw [ballot_update, hballot, hballot']
    · simp only [if_true]
      rw [hvotes, hsender, hlast]
    · rw [if_neg hnotack, hreceived]
    · rw [if_neg hnotack] at hpop ⊢
      simp only [if_true]
      rw [hsender, hlast]
      rw [hsender, (hnodes dst).1] at hout
      exact hpop.grant hne hout
  | counted e he htype hmaster hslots hepoch hballot' =>
    rw [Links.send_nil]
    obtain ⟨hvote, hnew⟩ := hack htype
    have hknows := (hnodes' dst).2
    rw [Function.update_self] at hknows
    rw [hsender] at hmaster hslots
    have hsrc : src ∈ M := hknows.masters src (by
      rw [hview.myself, (hnodes dst).1]
      exact hne) hmaster hslots
    refine ⟨_, .count s ⟨src, dst, hdr.currentEpoch⟩ e (by rw [hb]; exact he) hvote hnew hsrc
      (by rw [hb]; exact hepoch), ⟨?_, hvotes, ?_, hwinners, hnodes', hpop⟩⟩
    · simp only
      rw [ballot_update, hballot, hballot']
      rfl
    · rw [if_pos htype, hreceived, hsender]

theorem Couples.send {M : Finset ν} {w : ElectionState ν} {s : Lib.Election ν} (h : Couples M w s)
    {n : ν} {c : ClusterState ν} (hview : SameView (w.cluster n) c) {T : ClusterMsgType}
    {out : List (ν × ClusterMsg ν)} (hout : SentBy c T out) (htype : T ≠ .failoverAuthAck)
    {A : List (ν × Nat)} (hasks : ∀ a ∈ s.asks, a ∈ A)
    (hreq : T = .failoverAuthRequest → (n, c.currentEpoch) ∈ A) :
    NodesOk M (Function.update w.cluster n c) ∧
      NetOk (w.links.send n out) A w.votes w.acks := by
  have hmyself : c.myself = n := hview.myself.trans (h.nodes n).1
  have hknows := (h.nodes n).2.same hview
  have hnet : NetOk w.links A w.votes w.acks :=
    { h.net with asked := fun a b m hm ht => hasks _ (h.net.asked a b m hm ht) }
  refine ⟨h.nodes.update n hview.myself hknows, hnet.send fun q hq => ?_⟩
  obtain ⟨hlink, hsender, hqtype, hepoch⟩ := hout q hq
  refine ⟨?_, hsender.trans hmyself, by rw [hqtype]; exact htype, fun ht => ?_⟩
  · intro hself
    rw [hself, ← hmyself, hknows.link] at hlink
    cases hlink
  · rw [hepoch]
    exact hreq (hqtype.symm.trans ht)

theorem handleFailover_couples {M : Finset ν} {cfg : ClusterConfig} {n : ν} {env : FailoverEnv}
    {w : ElectionState ν} {s : Lib.Election ν} (h : Couples M w s)
    (hfresh : CountFresh cfg w (.handleFailover n env)) :
    ∃ s', (s' = s ∨ Election.Step M s s') ∧
      Couples M (handleFailoverAt cfg n env w) s' := by
  have hb : ∀ m, s.ballot m = (w.cluster m).ballot := fun m => by rw [h.ballot]
  obtain ⟨heffect, hview⟩ := clusterHandleSlaveFailover_spec cfg env (w.cluster n)
  unfold handleFailoverAt
  generalize clusterHandleSlaveFailover cfg env (w.cluster n) = r at heffect hview
  obtain ⟨c', out, promoted⟩ := r
  simp only at heffect hview ⊢
  have hmyself := (h.nodes n).1
  have hsame : (w.cluster n).ballot = c'.ballot →
      (fun m => (Function.update w.cluster n c' m).ballot) = fun m => (w.cluster m).ballot := by
    intro heq
    rw [ballot_update, ← heq]
    exact Function.update_eq_self n fun m => (w.cluster m).ballot
  cases heffect with
  | quiet hballot =>
    obtain ⟨hnodes, hnet⟩ := h.send hview (T := .pong) (fun q hq => absurd hq List.not_mem_nil)
      (by decide) (fun a ha => ha) (fun ht => by cases ht)
    exact ⟨s, Or.inl rfl, ⟨by rw [h.ballot]; exact (hsame hballot.symm).symm, h.votes, h.received,
      h.winners, hnodes, hnet⟩⟩
  | scheduled hballot out hout =>
    obtain ⟨hnodes, hnet⟩ := h.send hview hout (by decide) (fun a ha => ha) (fun ht => by cases ht)
    refine ⟨_, Or.inr (.reset s n), ⟨?_, h.votes, h.received, h.winners, hnodes, hnet⟩⟩
    simp only
    rw [ballot_update, h.ballot, hballot]
  | asked hbranch hballot out hout =>
    obtain ⟨hcount, hwrap⟩ := hfresh hbranch
    rw [Nat.mod_eq_of_lt hwrap] at hballot
    have hepoch : c'.currentEpoch = (w.cluster n).currentEpoch + 1 := congrArg Ballot.epoch hballot
    obtain ⟨hnodes, hnet⟩ := h.send hview hout (by decide)
      (A := s.asks ++ [(n, (w.cluster n).currentEpoch + 1)])
      (fun a ha => List.mem_append_left _ ha)
      (fun _ => by rw [hepoch]; exact List.mem_append_right _ (List.mem_singleton_self _))
    refine ⟨_, Or.inr (.ask s n ((w.cluster n).currentEpoch + 1) ?_ ?_),
      ⟨?_, h.votes, h.received, h.winners, hnodes, hnet⟩⟩
    · rw [hb]
      exact Nat.lt_succ_self _
    · rw [hb]
      exact hcount
    · simp only
      rw [ballot_update, h.ballot, hballot]
  | won hcount hballot hconfig out hout =>
    obtain ⟨hnodes, hnet⟩ := h.send hview hout (by decide) (fun a ha => ha) (fun ht => by cases ht)
    have hsize := (h.nodes n).2.size
    refine ⟨_, Or.inr (.win s n ?_), ⟨?_, h.votes, h.received, ?_, hnodes, hnet⟩⟩
    · rw [hb]
      have hle : M.card / 2 ≤ (w.cluster n).size / 2 := Nat.div_le_div_right hsize
      exact le_trans (by omega) hcount
    · rw [h.ballot]
      exact (hsame hballot.symm).symm
    · rw [hmyself] at hconfig
      simp only [if_true]
      rw [h.winners, hb, hconfig]
      rfl

theorem electionStep_couples {M : Finset ν} {cfg : ClusterConfig} {w : ElectionState ν}
    {s : Lib.Election ν} {a : ElectionAct ν} (h : Couples M w s) (hinv : EpochInv M s)
    (hfixed : MastersFixed M w a) (hfresh : CountFresh cfg w a) :
    ∃ s', (s' = s ∨ Election.Step M s s') ∧ Couples M (electionStep cfg w a) s' := by
  cases a with
  | deliver src dst mstime =>
    cases hlink : w.links src dst with
    | nil =>
      have hstep : electionStep cfg w (.deliver src dst mstime) = w := by
        simp only [electionStep, hlink]
      rw [hstep]
      exact ⟨s, Or.inl rfl, h⟩
    | cons hdr rest =>
      have hstep : electionStep cfg w (.deliver src dst mstime) =
          deliverPacket cfg mstime src dst hdr rest w := by
        simp only [electionStep, hlink]
      rw [hstep]
      obtain ⟨s', hs', hcouples⟩ := deliverPacket_couples cfg mstime h hinv hlink
      exact ⟨s', Or.inr hs', hcouples⟩
  | handleFailover n env => exact handleFailover_couples h hfresh
  | ping src dst =>
    refine ⟨s, Or.inl rfl, { h with net := h.net.send fun q hq => ?_ }⟩
    have hmyself := (h.nodes src).1
    unfold clusterSendMessage at hq
    split at hq
    · rename_i hlink
      rw [List.mem_singleton] at hq
      rw [hq]
      refine ⟨?_, hmyself, by simp [clusterBuildMessageHdr], fun ht => by cases ht⟩
      intro hsrc
      have hdst : dst = src := hsrc
      have hself := (h.nodes src).2.link
      rw [hmyself, ← hdst, hdst, ← hdst] at hself
      rw [hdst] at hlink hself
      rw [hlink] at hself
      cases hself
    · exact absurd hq List.not_mem_nil
  | resetLink src dst => exact ⟨s, Or.inl rfl, { h with net := h.net.reset src dst }⟩
  | other n ch =>
    refine ⟨_, Or.inr (.raise s n (max (w.cluster n).currentEpoch ch.epoch) ?_),
      { h with ballot := ?_, nodes := h.nodes.update n rfl hfixed }⟩
    · rw [h.ballot]
      exact le_max_left ..
    · simp only [electionStep]
      rw [ballot_update, h.ballot]
      rfl

def electionOf (w : ElectionState ν) : Lib.Election ν :=
  { ballot := fun n => (w.cluster n).ballot, asks := [], votes := [], received := [], winners := [] }

theorem ElectionStart.couples {M : Finset ν} {w : ElectionState ν} (h : ElectionStart M w) :
    Couples M w (electionOf w) ∧ EpochInv M (electionOf w) := by
  constructor
  · refine ⟨rfl, h.votes.symm, h.acks.symm, h.promotions.symm, fun n => ⟨h.myself n, h.knows n⟩, ?_⟩
    refine ⟨fun a => h.links a a, fun a b m hm => ?_, fun a b m hm => ?_, fun v c e => ?_⟩
    · rw [h.links] at hm
      exact absurd hm List.not_mem_nil
    · rw [h.links] at hm
      exact absurd hm List.not_mem_nil
    · rw [h.links, h.acks]
      simp
  · refine { last_le := h.lastVote, asked_le := fun n => ?_, asks_le := by simp [electionOf],
             votes_le := by simp [electionOf], unique := List.Pairwise.nil,
             received_votes := by simp [electionOf], counts := fun n => ?_, won := by simp [electionOf] }
    · show (w.cluster n).failover_auth_epoch ≤ (w.cluster n).currentEpoch
      rw [h.auth_epoch]
      exact Nat.zero_le _
    · show (w.cluster n).failover_auth_count ≤ _
      rw [h.auth_count]
      exact Nat.zero_le _

/-- Runs in which no slave asks for votes with a counter left over are safe. -/
theorem election_safety (M : Finset ν) (cfg : ClusterConfig) (w : ElectionState ν)
    (hstart : ElectionStart M w) (acts : List (ElectionAct ν))
    (hfixed : RunMeets (electionStep cfg) (MastersFixed M) w acts)
    (hfresh : RunMeets (electionStep cfg) (CountFresh cfg) w acts) :
    ElectionSafe M (run (electionStep cfg) w acts) := by
  have hinv : ∃ s, Couples M (run (electionStep cfg) w acts) s ∧ EpochInv M s := by
    refine run_inv (P := fun w => ∃ s, Couples M w s ∧ EpochInv M s) ?_ ⟨_, hstart.couples⟩
      (hfixed.and hfresh)
    rintro w a ⟨s, hcouples, hs⟩ ⟨ha, hb⟩
    obtain ⟨s', rfl | hstep, hcouples'⟩ := electionStep_couples hcouples hs ha hb
    · exact ⟨s', hcouples', hs⟩
    · exact ⟨s', hcouples', hs.step hstep⟩
  obtain ⟨s, hcouples, hs⟩ := hinv
  refine ⟨fun c c' e hc hc' => ?_, fun c e hc => ?_⟩
  · rw [← hcouples.winners] at hc hc'
    exact hs.winner_unique hc hc'
  · rw [← hcouples.winners] at hc
    obtain ⟨V, hV, hcard, hvotes⟩ := hs.won _ hc
    refine ⟨V, hV, hcard, fun v hv => ?_⟩
    rw [← hcouples.votes, ← hcouples.received]
    exact ⟨hs.received_votes _ (hvotes v hv), hvotes v hv⟩

theorem handleFailoverAt_win {cfg : ClusterConfig} {n : ν} {env : FailoverEnv}
    {w : ElectionState ν} (hmyself : (w.cluster n).myself = n)
    (hwin : failoverBranch cfg env (w.cluster n) = .win) :
    (handleFailoverAt cfg n env w).promotions =
      w.promotions ++ [(n, (w.cluster n).failover_auth_epoch)] := by
  obtain ⟨heffect, -⟩ := clusterHandleSlaveFailover_spec cfg env (w.cluster n)
  have hpromoted : (clusterHandleSlaveFailover cfg env (w.cluster n)).2.2 = true := by
    simp only [clusterHandleSlaveFailover, failoverBranch_todo, hwin]
  unfold handleFailoverAt
  generalize clusterHandleSlaveFailover cfg env (w.cluster n) = r at heffect hpromoted
  obtain ⟨c', out, promoted⟩ := r
  simp only at heffect hpromoted ⊢
  subst hpromoted
  cases heffect with
  | won hcount hballot hconfig =>
    rw [hmyself] at hconfig
    rw [if_pos rfl, hconfig]

def threeMasters (me : Nat) : ClusterState Nat :=
  { myself := me, currentEpoch := 0, size := 3, nodes := [0, 1, 2, 3, 4]
    node := fun n =>
      { flags := ⟨n ≤ 2, 3 ≤ n, n = 0, n = me, false⟩
        slaveof := if 3 ≤ n then some 0 else none
        slots := if n ≤ 2 then {n} else ∅
        numslots := if n ≤ 2 then 1 else 0
        configEpoch := 0, voted_time := 0, link := decide (n ≠ me) }
    slots := fun j => if j ≤ 2 then some j else none
    failover_auth_time := 0, failover_auth_count := 0, failover_auth_sent := false
    failover_auth_rank := 0, failover_auth_epoch := 0, mf_end := 0, mf_can_start := false
    lastVoteEpoch := 0, todo_before_sleep := ⟨false, false, false, false⟩ }

def threeMastersStart : ElectionState Nat :=
  { cluster := threeMasters, links := fun _ _ => [], votes := [], acks := [], promotions := [] }

theorem threeMasters_start : ElectionStart {0, 1, 2} threeMastersStart where
  myself := fun _ => rfl
  knows := fun n => by
    refine ⟨fun x _ hmaster _ => ?_, by simp [threeMastersStart, threeMasters], ?_⟩
    · have hx : x ≤ 2 := by
        simpa [threeMastersStart, threeMasters, ClusterState.nodeIsMaster] using hmaster
      simp only [Finset.mem_insert, Finset.mem_singleton]
      omega
    · simp [threeMastersStart, threeMasters]
  lastVote := fun _ => le_rfl
  auth_epoch := fun _ => rfl
  auth_count := fun _ => rfl
  links := fun _ _ => rfl
  votes := rfl
  acks := rfl
  promotions := rfl

def electionConfig : ClusterConfig := { cluster_node_timeout := 15000, repl_ping_slave_period := 10 }

def electionEnv (mstime : Int) : FailoverEnv :=
  { mstime := mstime, random := 0, rank := 0, connected := false, unixtime := 0
    lastinteraction := 0, repl_down_since := 0 }

/-- Slave 3 asks for votes in epoch 1 and gets them, but the ACKs arrive when it has scheduled a new
election and not asked again. Then 3 and 4 ask in epoch 2, and 4 gets the votes. -/
def lateVotesRun : List (ElectionAct Nat) :=
  [.handleFailover 3 (electionEnv 1000000), .handleFailover 3 (electionEnv 1000600),
    .deliver 3 1 1000700, .deliver 3 2 1000700, .deliver 3 4 1000700, .deliver 3 4 1000700,
    .handleFailover 3 (electionEnv 1061000), .handleFailover 4 (electionEnv 1061000),
    .deliver 1 3 1061100, .deliver 2 3 1061100,
    .handleFailover 3 (electionEnv 1061600), .handleFailover 4 (electionEnv 1061600),
    .deliver 4 1 1061700, .deliver 4 2 1061700, .deliver 1 4 1061800, .deliver 2 4 1061800]

/-- Slaves 3 and 4 are both promoted with `configEpoch` 2. -/
theorem late_votes_promote_two :
    ElectionStart {0, 1, 2} threeMastersStart ∧
      RunMeets (electionStep electionConfig) (MastersFixed {0, 1, 2}) threeMastersStart
        (lateVotesRun ++ [.handleFailover 3 (electionEnv 1061900),
          .handleFailover 4 (electionEnv 1061900)]) ∧
      ¬ ElectionSafe {0, 1, 2} (run (electionStep electionConfig) threeMastersStart
        (lateVotesRun ++ [.handleFailover 3 (electionEnv 1061900),
          .handleFailover 4 (electionEnv 1061900)])) := by
  refine ⟨threeMasters_start, ?_, ?_⟩
  · simp only [lateVotesRun, List.cons_append, List.nil_append, runMeets_cons, runMeets_nil,
      MastersFixed, and_self]
  rw [run_append]
  have hprefix : (run (electionStep electionConfig) threeMastersStart lateVotesRun).promotions = [] ∧
      ∀ n ∈ [3, 4],
        ((run (electionStep electionConfig) threeMastersStart lateVotesRun).cluster n).myself = n ∧
        failoverBranch electionConfig (electionEnv 1061900)
          ((run (electionStep electionConfig) threeMastersStart lateVotesRun).cluster n) = .win ∧
        ((run (electionStep electionConfig) threeMastersStart lateVotesRun).cluster
          n).failover_auth_epoch = 2 := by
    decide
  generalize run (electionStep electionConfig) threeMastersStart lateVotesRun = w at hprefix
  obtain ⟨hnone, hready⟩ := hprefix
  obtain ⟨hme3, hwin3, hepoch3⟩ := hready 3 (by decide)
  obtain ⟨hme4, hwin4, hepoch4⟩ := hready 4 (by decide)
  set w' := handleFailoverAt electionConfig 3 (electionEnv 1061900) w with hw'
  have hfirst : w'.promotions = [(3, 2)] := by
    rw [hw', handleFailoverAt_win hme3 hwin3, hnone, hepoch3]
    rfl
  have hsame : w'.cluster 4 = w.cluster 4 := by
    rw [hw', handleFailoverAt]
    have hne : (4 : Nat) ≠ 3 := by decide
    simp only [Function.update_of_ne hne]
  have hboth : (handleFailoverAt electionConfig 4 (electionEnv 1061900) w').promotions =
      [(3, 2), (4, 2)] := by
    rw [handleFailoverAt_win (by rw [hsame, hme4]) (by rw [hsame, hwin4]), hfirst, hsame, hepoch4]
    rfl
  rintro ⟨hunique, -⟩
  have heq : 3 = 4 := by
    apply hunique 3 4 2
    · show (3, 2) ∈ (handleFailoverAt electionConfig 4 (electionEnv 1061900) w').promotions
      rw [hboth]
      exact List.mem_cons_self ..
    · show (4, 2) ∈ (handleFailoverAt electionConfig 4 (electionEnv 1061900) w').promotions
      rw [hboth]
      exact List.mem_cons_of_mem _ (List.mem_cons_self ..)
  exact absurd heq (by decide)

def timelyVotesRun : List (ElectionAct Nat) :=
  [.handleFailover 3 (electionEnv 1000000), .handleFailover 3 (electionEnv 1000600),
    .deliver 3 1 1000700, .deliver 3 2 1000700, .deliver 1 3 1000800, .deliver 2 3 1000800,
    .handleFailover 3 (electionEnv 1000900)]

theorem election_safety_timely :
    ElectionSafe {0, 1, 2} (run (electionStep electionConfig) threeMastersStart timelyVotesRun) :=
  election_safety {0, 1, 2} electionConfig threeMastersStart threeMasters_start timelyVotesRun
    (by simp only [timelyVotesRun, runMeets_cons, runMeets_nil, MastersFixed, and_self]) (by decide)

end RedisCluster
