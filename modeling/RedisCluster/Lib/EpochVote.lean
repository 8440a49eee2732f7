import Mathlib.Data.Finset.Card
import Mathlib.Data.List.Pairwise

/-!
# Elections by epochs

Every node knows an epoch. A candidate raises its own epoch and asks for votes for it; a voter gives
at most one vote in an epoch, to a candidate that asked for it; a candidate counts the votes it
receives and wins with a majority of a fixed set `M` of voters. Votes may arrive late, so a counter
says nothing by itself. `EpochInv` ties it to the votes received for the epoch the candidate asked
for, provided that the counter is 0 when it asks.
-/

namespace RedisCluster.Lib

variable {ν : Type*}

/-- What a node knows: the newest epoch, the epoch of its last vote, the epoch it last asked for
votes in, and the votes it has counted. -/
@[ext] structure Ballot where
  epoch : Nat
  lastVote : Nat
  asked : Nat
  count : Nat

@[ext] structure Vote (ν : Type*) where
  voter : ν
  candidate : ν
  epoch : Nat
  deriving DecidableEq

/-- The ballots of all nodes and the history: the requests, the votes given, the votes received, and
the elections won. -/
structure Election (ν : Type*) where
  ballot : ν → Ballot
  asks : List (ν × Nat)
  votes : List (Vote ν)
  received : List (Vote ν)
  winners : List (ν × Nat)

variable [DecidableEq ν]

/-- What can happen in an election with the voters `M`. -/
inductive Election.Step (M : Finset ν) : Election ν → Election ν → Prop where
  | raise (s : Election ν) (n : ν) (e : Nat) (he : (s.ballot n).epoch ≤ e) :
      Step M s { s with ballot := Function.update s.ballot n { s.ballot n with epoch := e } }
  | grant (s : Election ν) (v c : ν) (e r : Nat) (he : (s.ballot v).epoch ≤ e)
      (hfresh : (s.ballot v).lastVote ≠ e) (hask : (c, r) ∈ s.asks) (hr : e ≤ r) :
      Step M s { s with
        ballot := Function.update s.ballot v { s.ballot v with epoch := e, lastVote := e }
        votes := s.votes ++ [⟨v, c, e⟩] }
  | ignore (s : Election ν) (x : Vote ν) (e : Nat) (he : (s.ballot x.candidate).epoch ≤ e)
      (hvote : x ∈ s.votes) :
      Step M s { s with
        ballot := Function.update s.ballot x.candidate { s.ballot x.candidate with epoch := e }
        received := s.received ++ [x] }
  | count (s : Election ν) (x : Vote ν) (e : Nat) (he : (s.ballot x.candidate).epoch ≤ e)
      (hvote : x ∈ s.votes) (hnew : x ∉ s.received) (hvoter : x.voter ∈ M)
      (hepoch : (s.ballot x.candidate).asked ≤ x.epoch) :
      Step M s { s with
        ballot := Function.update s.ballot x.candidate { s.ballot x.candidate with
          epoch := e, count := (s.ballot x.candidate).count + 1 }
        received := s.received ++ [x] }
  | reset (s : Election ν) (c : ν) :
      Step M s { s with ballot := Function.update s.ballot c { s.ballot c with count := 0 } }
  | ask (s : Election ν) (c : ν) (e : Nat) (he : (s.ballot c).epoch < e)
      (hcount : (s.ballot c).count = 0) :
      Step M s { s with
        ballot := Function.update s.ballot c { s.ballot c with epoch := e, asked := e }
        asks := s.asks ++ [(c, e)] }
  | win (s : Election ν) (c : ν) (hcount : M.card / 2 + 1 ≤ (s.ballot c).count) :
      Step M s { s with winners := s.winners ++ [(c, (s.ballot c).asked)] }

def Vote.Clash (x y : Vote ν) : Prop := x.voter = y.voter ∧ x.epoch = y.epoch

structure EpochInv (M : Finset ν) (s : Election ν) : Prop where
  last_le : ∀ n, (s.ballot n).lastVote ≤ (s.ballot n).epoch
  asked_le : ∀ n, (s.ballot n).asked ≤ (s.ballot n).epoch
  asks_le : ∀ a ∈ s.asks, a.2 ≤ (s.ballot a.1).asked
  votes_le : ∀ x ∈ s.votes, x.epoch ≤ (s.ballot x.voter).lastVote ∧
    x.epoch ≤ (s.ballot x.candidate).asked
  unique : s.votes.Pairwise fun x y => ¬ x.Clash y
  received_votes : ∀ x ∈ s.received, x ∈ s.votes
  counts : ∀ c, (s.ballot c).count ≤
    (M.filter fun v => (⟨v, c, (s.ballot c).asked⟩ : Vote ν) ∈ s.received).card
  won : ∀ w ∈ s.winners, ∃ V ⊆ M, M.card / 2 + 1 ≤ V.card ∧
    ∀ v ∈ V, (⟨v, w.1, w.2⟩ : Vote ν) ∈ s.received

/-- The invariant of a state that differs in the ballot of one node: its numbers are bounded, none
of them went down but the count, and the others are as they were. -/
theorem EpochInv.update {M : Finset ν} {s : Election ν} (h : EpochInv M s) (n : ν) (b : Ballot)
    (hlast : b.lastVote ≤ b.epoch) (hasked : b.asked ≤ b.epoch)
    (hvote : (s.ballot n).lastVote ≤ b.lastVote) (hask : (s.ballot n).asked ≤ b.asked)
    (hcount : b.count ≤
      (M.filter fun v => (⟨v, n, b.asked⟩ : Vote ν) ∈ s.received).card) :
    EpochInv M { s with ballot := Function.update s.ballot n b } := by
  have hother : ∀ m, m ≠ n → Function.update s.ballot n b m = s.ballot m := fun m hm =>
    Function.update_of_ne hm ..
  have hself : Function.update s.ballot n b n = b := Function.update_self ..
  refine { last_le := fun m => ?_, asked_le := fun m => ?_, asks_le := fun a ha => ?_,
           votes_le := fun x hx => ⟨?_, ?_⟩, unique := h.unique,
           received_votes := h.received_votes, counts := fun m => ?_, won := h.won }
  · simp only
    by_cases hm : m = n
    · rw [hm, hself]
      exact hlast
    · rw [hother m hm]
      exact h.last_le m
  · simp only
    by_cases hm : m = n
    · rw [hm, hself]
      exact hasked
    · rw [hother m hm]
      exact h.asked_le m
  · have hle := h.asks_le a ha
    simp only
    by_cases hm : a.1 = n
    · rw [hm] at hle ⊢
      rw [hself]
      exact le_trans hle hask
    · rw [hother _ hm]
      exact hle
  · have hle := (h.votes_le x hx).1
    simp only
    by_cases hm : x.voter = n
    · rw [hm] at hle ⊢
      rw [hself]
      exact le_trans hle hvote
    · rw [hother _ hm]
      exact hle
  · have hle := (h.votes_le x hx).2
    simp only
    by_cases hm : x.candidate = n
    · rw [hm] at hle ⊢
      rw [hself]
      exact le_trans hle hask
    · rw [hother _ hm]
      exact hle
  · simp only
    by_cases hm : m = n
    · rw [hm, hself]
      exact hcount
    · rw [hother m hm]
      exact h.counts m

theorem EpochInv.receive {M : Finset ν} {s : Election ν} (h : EpochInv M s) {x : Vote ν}
    (hx : x ∈ s.votes) : EpochInv M { s with received := s.received ++ [x] } := by
  have hsub : ∀ y ∈ s.received, y ∈ s.received ++ [x] := fun y hy => List.mem_append_left _ hy
  refine { h with received_votes := fun y hy => ?_, counts := fun c => ?_, won := fun w hw => ?_ }
  · rcases List.mem_append.mp hy with hy | hy
    · exact h.received_votes y hy
    · rw [List.mem_singleton.mp hy]
      exact hx
  · refine le_trans (h.counts c) (Finset.card_le_card fun v hv => ?_)
    rw [Finset.mem_filter] at hv ⊢
    exact ⟨hv.1, hsub _ hv.2⟩
  · obtain ⟨V, hV, hcard, hvotes⟩ := h.won w hw
    exact ⟨V, hV, hcard, fun v hv => hsub _ (hvotes v hv)⟩

/-- Counting a vote for the first time: it is for the epoch the candidate asked for, and its voter
is none of those counted before. -/
theorem EpochInv.count {M : Finset ν} {s : Election ν} (h : EpochInv M s) {x : Vote ν}
    (hvote : x ∈ s.votes) (hnew : x ∉ s.received) (hvoter : x.voter ∈ M)
    (hepoch : (s.ballot x.candidate).asked ≤ x.epoch) :
    (s.ballot x.candidate).count + 1 ≤ (M.filter fun v =>
      (⟨v, x.candidate, (s.ballot x.candidate).asked⟩ : Vote ν) ∈ s.received ++ [x]).card := by
  have heq : (s.ballot x.candidate).asked = x.epoch :=
    le_antisymm hepoch (h.votes_le x hvote).2
  have hold := h.counts x.candidate
  rw [heq] at hold ⊢
  set old := M.filter fun v => (⟨v, x.candidate, x.epoch⟩ : Vote ν) ∈ s.received with hdef
  have hnot : x.voter ∉ old := fun hc => hnew (Finset.mem_filter.mp hc).2
  have hsub : insert x.voter old ⊆
      M.filter fun v => (⟨v, x.candidate, x.epoch⟩ : Vote ν) ∈ s.received ++ [x] := by
    intro v hv
    rw [Finset.mem_filter]
    rcases Finset.mem_insert.mp hv with rfl | hv
    · exact ⟨hvoter, List.mem_append_right _ (List.mem_singleton_self x)⟩
    · exact ⟨(Finset.mem_filter.mp hv).1, List.mem_append_left _ (Finset.mem_filter.mp hv).2⟩
  have hcard := Finset.card_le_card hsub
  rw [Finset.card_insert_of_notMem hnot] at hcard
  omega

theorem EpochInv.vote {M : Finset ν} {s : Election ν} (h : EpochInv M s) {v c : ν} {e : Nat}
    (hnew : (s.ballot v).lastVote < e) (hask : e ≤ (s.ballot c).asked) (b : Ballot)
    (hb : b = { s.ballot v with epoch := b.epoch, lastVote := e }) (he : e ≤ b.epoch)
    (hepoch : (s.ballot v).epoch ≤ b.epoch) :
    EpochInv M { s with
      ballot := Function.update s.ballot v b
      votes := s.votes ++ [⟨v, c, e⟩] } := by
  have hlast : b.lastVote = e := by rw [hb]
  have hasked : b.asked = (s.ballot v).asked := by rw [hb]
  have hcount : b.count = (s.ballot v).count := by rw [hb]
  have hbase := h.update v b (by omega) (by have := h.asked_le v; omega) (by omega) (by omega)
    (by rw [hcount, hasked]; exact h.counts v)
  refine { hbase with votes_le := fun x hx => ?_, unique := ?_, received_votes := fun x hx => ?_ }
  · rcases List.mem_append.mp hx with hx | hx
    · exact hbase.votes_le x hx
    · rw [List.mem_singleton.mp hx]
      simp only [Function.update_self]
      refine ⟨by omega, ?_⟩
      by_cases hc : c = v
      · subst hc
        rw [Function.update_self]
        omega
      · rw [Function.update_of_ne hc]
        exact hask
  · rw [List.pairwise_append]
    refine ⟨h.unique, List.pairwise_singleton .., fun x hx y hy hclash => ?_⟩
    rw [List.mem_singleton.mp hy] at hclash
    obtain ⟨hv, hxe⟩ := hclash
    have hle := (h.votes_le x hx).1
    simp only at hv hxe
    rw [hv] at hle
    omega
  · exact List.mem_append_left _ (h.received_votes x hx)

theorem EpochInv.step {M : Finset ν} {s s' : Election ν} (h : EpochInv M s)
    (hstep : Election.Step M s s') : EpochInv M s' := by
  cases hstep with
  | raise n e he =>
    exact h.update n _ (le_trans (h.last_le n) he) (le_trans (h.asked_le n) he) le_rfl le_rfl
      (h.counts n)
  | grant v c e r he hfresh hask hr =>
    have hle := h.last_le v
    exact h.vote (by omega) (le_trans hr (h.asks_le _ hask)) _ rfl le_rfl he
  | ignore x e he hvote =>
    have hrec := h.receive hvote
    exact hrec.update x.candidate _ (le_trans (h.last_le _) he) (le_trans (h.asked_le _) he) le_rfl
      le_rfl (hrec.counts _)
  | count x e he hvote hnew hvoter hepoch =>
    exact (h.receive hvote).update x.candidate _ (le_trans (h.last_le _) he)
      (le_trans (h.asked_le _) he) le_rfl le_rfl (h.count hvote hnew hvoter hepoch)
  | reset c =>
    exact h.update c _ (h.last_le c) (h.asked_le c) le_rfl le_rfl (Nat.zero_le _)
  | ask c e he hcount =>
    have hle := h.last_le c
    have hle' := h.asked_le c
    have hbase := h.update c { s.ballot c with epoch := e, asked := e } (by simp only; omega) le_rfl
      le_rfl (by simp only; omega) (by simp only [hcount]; exact Nat.zero_le _)
    refine { hbase with asks_le := fun a ha => ?_ }
    rcases List.mem_append.mp ha with ha | ha
    · exact hbase.asks_le a ha
    · rw [List.mem_singleton.mp ha]
      simp
  | win c hcount =>
    refine { h with won := fun w hw => ?_ }
    rcases List.mem_append.mp hw with hw | hw
    · exact h.won w hw
    · rw [List.mem_singleton.mp hw]
      exact ⟨_, Finset.filter_subset .., le_trans hcount (h.counts c),
        fun v hv => (Finset.mem_filter.mp hv).2⟩

theorem EpochInv.winner_unique {M : Finset ν} {s : Election ν} (h : EpochInv M s) {c c' : ν}
    {e : Nat} (hc : (c, e) ∈ s.winners) (hc' : (c', e) ∈ s.winners) : c = c' := by
  obtain ⟨V, hV, hcard, hvotes⟩ := h.won _ hc
  obtain ⟨V', hV', hcard', hvotes'⟩ := h.won _ hc'
  obtain ⟨v, hv⟩ := Finset.inter_nonempty_of_card_lt_card_add_card hV hV' (by omega)
  rw [Finset.mem_inter] at hv
  have hx := h.received_votes _ (hvotes v hv.1)
  have hy := h.received_votes _ (hvotes' v hv.2)
  by_contra hne
  have hxy : (⟨v, c, e⟩ : Vote ν) ≠ ⟨v, c', e⟩ := fun heq => hne (by injection heq)
  have hsymm : Std.Symm fun x y : Vote ν => ¬ x.Clash y := ⟨fun _ _ h hc => h ⟨hc.1.symm, hc.2.symm⟩⟩
  exact h.unique.forall hx hy hxy ⟨rfl, rfl⟩

theorem EpochInv.count_le_one {M : Finset ν} {s : Election ν} (h : EpochInv M s) (x : Vote ν) :
    s.votes.count x ≤ 1 := by
  have hnodup : s.votes.Nodup := h.unique.imp fun hclash heq => hclash (by rw [heq]; exact ⟨rfl, rfl⟩)
  exact List.nodup_iff_count_le_one.mp hnodup x

end RedisCluster.Lib
