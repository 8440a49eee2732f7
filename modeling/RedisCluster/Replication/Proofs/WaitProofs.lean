import RedisCluster.Replication.Wait

/-!
# Proofs: the clients that `processClientsWaitingReplicas` unblocks

The count of a smaller offset is at least that of a larger one, so a client that takes the shortcut is
one that a recount unblocks too.
-/

namespace RedisCluster.Replication.Wait

theorem countAcks_foldl (offset n : Int) (slaves : List Slave) :
    slaves.foldl (fun count slave =>
        if slave.replstate ≠ .online then count
        else if slave.repl_ack_off ≥ offset then count + 1 else count) n =
      n + (acknowledging slaves offset).length := by
  induction slaves generalizing n with
  | nil => simp [acknowledging]
  | cons slave slaves ih =>
    rw [List.foldl_cons, ih]
    by_cases hacked : Acknowledged offset slave
    · have hfilter : acknowledging (slave :: slaves) offset = slave :: acknowledging slaves offset :=
        List.filter_cons_of_pos (by simpa using hacked)
      rw [if_neg (by simp [hacked.1]), if_pos hacked.2, hfilter, List.length_cons]
      omega
    · have hfilter : acknowledging (slave :: slaves) offset = acknowledging slaves offset :=
        List.filter_cons_of_neg (by simpa using hacked)
      rw [hfilter]
      by_cases honline : slave.replstate = .online
      · have hbehind : ¬ slave.repl_ack_off ≥ offset := fun h => hacked ⟨honline, h⟩
        rw [if_neg (not_not.mpr honline), if_neg hbehind]
      · rw [if_pos honline]

theorem countAcks_eq (s : Server) (offset : Int) :
    replicationCountAcksByOffset s offset = (acknowledging s.slaves offset).length := by
  rw [replicationCountAcksByOffset, countAcks_foldl, Int.zero_add]

theorem acknowledging_antitone (slaves : List Slave) {offset offset' : Int} (h : offset ≤ offset') :
    (acknowledging slaves offset').length ≤ (acknowledging slaves offset).length := by
  apply List.Sublist.length_le
  apply List.monotone_filter_right
  intro slave hslave
  rw [decide_eq_true_eq] at hslave ⊢
  exact ⟨hslave.1, Int.le_trans h hslave.2⟩

def Remembers (slaves : List Slave) (l : Loop) : Prop :=
  l.server.slaves = slaves ∧
    (l.last_offset ≠ 0 → l.last_numreplicas = (acknowledging slaves l.last_offset).length)

def answer (s : Server) (c : Client) (n : Int) : Server := addReplyLongLong (unblockClient s c) c n

def Honest (slaves : List Slave) (c : Client) (n : Int) : Prop :=
  c.numreplicas ≤ n ∧ n ≤ (acknowledging slaves c.reploffset).length

theorem Honest.satisfied {slaves : List Slave} {c : Client} {n : Int} (h : Honest slaves c n) :
    Satisfied slaves c := Int.le_trans h.1 h.2

theorem waitingRound_cases {slaves : List Slave} {l : Loop} (hl : Remembers slaves l) (c : Client) :
    (¬ Satisfied slaves c ∧ waitingRound l c = l) ∨
      ∃ n, Honest slaves c n ∧ (waitingRound l c).server = answer l.server c n ∧
        Remembers slaves (waitingRound l c) := by
  obtain ⟨hslaves, hlast⟩ := hl
  have hcount : replicationCountAcksByOffset l.server c.reploffset = (acknowledging slaves c.reploffset).length := by
    rw [countAcks_eq, hslaves]
  unfold waitingRound
  by_cases hshort : l.last_offset ≠ 0 ∧ l.last_offset > c.reploffset ∧ l.last_numreplicas > c.numreplicas
  · obtain ⟨hset, hoffset, hnum⟩ := hshort
    have hmono : (acknowledging slaves l.last_offset).length ≤ (acknowledging slaves c.reploffset).length :=
      acknowledging_antitone slaves (Int.le_of_lt hoffset)
    have hremembered := hlast hset
    have hhonest : Honest slaves c l.last_numreplicas := ⟨by omega, by omega⟩
    rw [if_pos ⟨hset, hoffset, hnum⟩]
    exact Or.inr ⟨l.last_numreplicas, hhonest, rfl, hslaves, hlast⟩
  · rw [if_neg hshort]
    by_cases henough : replicationCountAcksByOffset l.server c.reploffset ≥ c.numreplicas
    · have hhonest : Honest slaves c (replicationCountAcksByOffset l.server c.reploffset) :=
        ⟨henough, Int.le_of_eq hcount⟩
      simp only [if_pos henough]
      exact Or.inr ⟨_, hhonest, rfl, hslaves, fun _ => hcount⟩
    · refine Or.inl ⟨?_, if_neg henough⟩
      intro hsatisfied
      rw [Satisfied, ← hcount] at hsatisfied
      exact henough hsatisfied

/-- The clients that are answered, with the numbers, on the way from one server to the other. -/
structure Answered (slaves : List Slave) (s s' : Server) (answers : List (Client × Int)) : Prop where
  slaves_eq : s'.slaves = s.slaves
  waiting : s'.clients_waiting_acks = s.clients_waiting_acks.diff (answers.map Prod.fst)
  unblocked : s'.unblocked_clients = s.unblocked_clients ++ answers.map Prod.fst
  replies : s'.replies = s.replies ++ answers
  honest : ∀ a ∈ answers, Honest slaves a.1 a.2

theorem Answered.nil {slaves : List Slave} (s : Server) : Answered slaves s s [] where
  slaves_eq := rfl
  waiting := rfl
  unblocked := (List.append_nil _).symm
  replies := (List.append_nil _).symm
  honest := by simp

theorem Answered.cons {slaves : List Slave} {s s' : Server} {answers : List (Client × Int)} {c : Client} {n : Int}
    (hn : Honest slaves c n) (h : Answered slaves (answer s c n) s' answers) :
    Answered slaves s s' ((c, n) :: answers) where
  slaves_eq := h.slaves_eq
  waiting := h.waiting.trans (List.diff_cons _ _ _).symm
  unblocked := h.unblocked.trans (List.append_assoc _ _ _)
  replies := h.replies.trans (List.append_assoc _ _ _)
  honest := by
    intro a ha
    rcases List.mem_cons.mp ha with rfl | ha
    · exact hn
    · exact h.honest a ha

theorem waitingRounds_answer {slaves : List Slave} (cs : List Client) {l : Loop} (hl : Remembers slaves l) :
    ∃ answers, Answered slaves l.server (cs.foldl waitingRound l).server answers ∧
      answers.map Prod.fst = cs.filter fun c => Satisfied slaves c := by
  induction cs generalizing l with
  | nil => exact ⟨[], Answered.nil l.server, rfl⟩
  | cons c cs ih =>
    rw [List.foldl_cons]
    rcases waitingRound_cases hl c with ⟨hno, hsame⟩ | ⟨n, hn, hserver, hnext⟩
    · obtain ⟨answers, hanswers, hwho⟩ := ih hl
      rw [hsame, List.filter_cons_of_neg (by simpa using hno)]
      exact ⟨answers, hanswers, hwho⟩
    · obtain ⟨answers, hanswers, hwho⟩ := ih hnext
      rw [hserver] at hanswers
      refine ⟨(c, n) :: answers, Answered.cons hn hanswers, ?_⟩
      rw [List.filter_cons_of_pos (by simpa using hn.satisfied), List.map_cons, hwho]

/-- The clients that `processClientsWaitingReplicas` unblocks are those that enough slaves have
acknowledged the offset of, in the order of the list; each one gets an honest number. -/
theorem processClientsWaitingReplicas_answers (s : Server) :
    ∃ answers : List (Client × Int),
      answers.map Prod.fst = s.clients_waiting_acks.filter (fun c => Satisfied s.slaves c) ∧
      (processClientsWaitingReplicas s).replies = s.replies ++ answers ∧
      (processClientsWaitingReplicas s).unblocked_clients = s.unblocked_clients ++ answers.map Prod.fst ∧
      (processClientsWaitingReplicas s).clients_waiting_acks =
        s.clients_waiting_acks.filter (fun c => ¬ Satisfied s.slaves c) ∧
      (processClientsWaitingReplicas s).slaves = s.slaves ∧
      ∀ a ∈ answers, a.1.numreplicas ≤ a.2 ∧ a.2 ≤ replicationCountAcksByOffset s a.1.reploffset := by
  have hstart : Remembers s.slaves { server := s, last_offset := 0, last_numreplicas := 0 } :=
    ⟨rfl, fun h => absurd rfl h⟩
  obtain ⟨answers, hanswers, hwho⟩ := waitingRounds_answer s.clients_waiting_acks hstart
  refine ⟨answers, hwho, hanswers.replies, hanswers.unblocked, ?_, hanswers.slaves_eq, ?_⟩
  · have hwaiting := hanswers.waiting
    rw [hwho, s.waiting_nodup.of_map.sdiff_eq_filter] at hwaiting
    refine hwaiting.trans (List.filter_congr ?_)
    intro c hc
    simp [hc]
  · intro a ha
    have hhonest := hanswers.honest a ha
    rw [countAcks_eq]
    exact hhonest

end RedisCluster.Replication.Wait
