import RedisCluster.Replication.Offsets

/-!
# The offsets of slaves that attach with PSYNC

What a slave has got and what is queued for it together are the history of the master, from the moment
its snapshot is taken on; that the offsets fit as well needs that nothing was fed between the answer to
it and that moment.
-/

namespace RedisCluster.Replication.Offsets

open RedisCluster.Lib
open RedisCluster.Util
open RedisCluster.Aof

variable {s : Master}

def InStep (s : Master) (dataset : Bytes) (offset : Nat) (rest : Bytes) : Prop :=
  dataset ++ rest = s.history ∧ offset + rest.length = s.master_repl_offset

def Early (s : Master) (slave : Slave) : Prop :=
  slave.psync_initial_offset + slave.reply.length ≤ s.master_repl_offset

def Gets (s : Master) (file : Bytes) (slave : Slave) : Prop :=
  InStep s file slave.psync_initial_offset slave.reply

def Waiting (s : Master) (slave : Slave) : Prop :=
  match slave.replstate with
  | .waitBgsaveStart => Early s slave
  | .waitBgsaveEnd =>
    match s.rdb_child with
    | none => Early s slave
    | some file => Gets s file slave
  | _ => ∃ file, slave.file = some file ∧ Gets s file slave

def SlaveOk (s : Master) (slave : Slave) : Prop :=
  match slave.peer with
  | .gone => True
  | .waiting => Waiting s slave
  | .loaded r => slave.replstate = .online ∧ InStep s r.reflected r.reploff slave.reply

/-- A slave server without a link: if the backlog reaches back to its offset, its dataset is the history
up to there. -/
def ParkedOk (s : Master) (r : Replica) : Prop :=
  r.reploff ≤ s.master_repl_offset ∧
    ∀ b, s.repl_backlog = some b → b.repl_backlog_off ≤ r.reploff + 1 →
      ∃ rest, InStep s r.reflected r.reploff rest

def BacklogOk (s : Master) (b : Backlog) : Prop :=
  0 < b.repl_backlog_off ∧ b.repl_backlog_off + b.bytes.length = s.master_repl_offset + 1 ∧
    b.bytes <:+ s.history

structure Inv (s : Master) : Prop where
  hasBacklog : s.slaves ≠ [] → s.repl_backlog ≠ none
  backlog : ∀ b, s.repl_backlog = some b → BacklogOk s b
  slaves : ∀ slave ∈ s.slaves, SlaveOk s slave
  parked : ∀ r ∈ s.parked, ParkedOk s r

theorem inv_initial : Inv initial where
  hasBacklog h := absurd rfl h
  backlog b h := by cases h
  slaves slave h := absurd h List.not_mem_nil
  parked r h := absurd h List.not_mem_nil

theorem Inv.agree (h : Inv s) : OffsetsAgree s := by
  intro slave hslave r hr
  have hok := h.slaves slave hslave
  unfold SlaveOk at hok
  rw [hr] at hok
  exact hok.2

theorem SlaveOk.of_waiting {slave : Slave} (h : Waiting s slave) (hpeer : slave.peer = .waiting) :
    SlaveOk s slave := by
  unfold SlaveOk
  rw [hpeer]
  exact h

theorem InStep.congr {t : Master} {dataset rest : Bytes} {offset : Nat}
    (h : InStep s dataset offset rest) (hhistory : t.history = s.history)
    (hoffset : t.master_repl_offset = s.master_repl_offset) : InStep t dataset offset rest := by
  unfold InStep
  rw [hhistory, hoffset]
  exact h

theorem Waiting.congr {t : Master} {slave : Slave} (h : Waiting s slave)
    (hhistory : t.history = s.history) (hoffset : t.master_repl_offset = s.master_repl_offset)
    (hchild : t.rdb_child = s.rdb_child) : Waiting t slave := by
  unfold Waiting Early Gets InStep at h ⊢
  rw [hhistory, hoffset, hchild]
  exact h

theorem SlaveOk.congr {t : Master} {slave : Slave} (h : SlaveOk s slave)
    (hhistory : t.history = s.history) (hoffset : t.master_repl_offset = s.master_repl_offset)
    (hchild : t.rdb_child = s.rdb_child) : SlaveOk t slave := by
  unfold SlaveOk at h ⊢
  cases hpeer : slave.peer with
  | gone => trivial
  | waiting =>
    rw [hpeer] at h
    exact Waiting.congr h hhistory hoffset hchild
  | loaded r =>
    rw [hpeer] at h
    exact ⟨h.1, h.2.congr hhistory hoffset⟩

theorem ParkedOk.congr {t : Master} {r : Replica} (h : ParkedOk s r)
    (hhistory : t.history = s.history) (hoffset : t.master_repl_offset = s.master_repl_offset)
    (hbacklog : t.repl_backlog = s.repl_backlog) : ParkedOk t r := by
  unfold ParkedOk InStep at h ⊢
  rw [hhistory, hoffset, hbacklog]
  exact h

theorem Inv.with_slaves {t : Master} (h : Inv s) (hhistory : t.history = s.history)
    (hoffset : t.master_repl_offset = s.master_repl_offset)
    (hbacklog : t.repl_backlog = s.repl_backlog) (hempty : t.slaves ≠ [] → s.slaves ≠ [])
    (hslaves : ∀ slave ∈ t.slaves, SlaveOk t slave) (hparked : ∀ r ∈ t.parked, ParkedOk s r) :
    Inv t where
  hasBacklog hne := hbacklog ▸ h.hasBacklog (hempty hne)
  backlog b hb := by
    have hok := h.backlog b (hbacklog ▸ hb)
    unfold BacklogOk at hok ⊢
    rw [hhistory, hoffset]
    exact hok
  slaves := hslaves
  parked r hr := (hparked r hr).congr hhistory hoffset hbacklog

theorem InStep.feed {t : Master} {dataset rest p : Bytes} {offset : Nat}
    (h : InStep s dataset offset rest) (hhistory : t.history = s.history ++ p)
    (hoffset : t.master_repl_offset = s.master_repl_offset + p.length) :
    InStep t dataset offset (rest ++ p) := by
  unfold InStep at h ⊢
  rw [hhistory, hoffset, ← List.append_assoc, h.1, List.length_append, ← h.2]
  exact ⟨rfl, by omega⟩

theorem Early.feed {t : Master} {slave : Slave} {p : Bytes} (h : Early s slave)
    (hoffset : t.master_repl_offset = s.master_repl_offset + p.length) :
    Early t (addReply slave p) := by
  unfold Early addReply at *
  simp only [List.length_append]
  omega

theorem SlaveOk.feed {t : Master} {slave : Slave} {p : Bytes} (h : SlaveOk s slave)
    (hhistory : t.history = s.history ++ p)
    (hoffset : t.master_repl_offset = s.master_repl_offset + p.length)
    (hchild : t.rdb_child = s.rdb_child) : SlaveOk t (addReply slave p) := by
  unfold SlaveOk at h ⊢
  cases hpeer : slave.peer with
  | gone =>
    show match slave.peer with
      | .gone => True
      | .waiting => Waiting t (addReply slave p)
      | .loaded r => _
    rw [hpeer]
    trivial
  | waiting =>
    rw [hpeer] at h
    have hwait : Waiting t (addReply slave p) := by
      unfold Waiting at h ⊢
      cases hstate : slave.replstate with
      | waitBgsaveStart =>
        rw [hstate] at h
        simp only [addReply, hstate]
        exact Early.feed h hoffset
      | waitBgsaveEnd =>
        rw [hstate] at h
        simp only [addReply, hstate, hchild]
        cases hc : s.rdb_child with
        | none =>
          rw [hc] at h
          exact Early.feed h hoffset
        | some file =>
          rw [hc] at h
          exact InStep.feed h hhistory hoffset
      | sendBulk =>
        rw [hstate] at h
        obtain ⟨file, hfile, hgets⟩ := h
        simp only [addReply, hstate]
        exact ⟨file, hfile, InStep.feed hgets hhistory hoffset⟩
      | online =>
        rw [hstate] at h
        obtain ⟨file, hfile, hgets⟩ := h
        simp only [addReply, hstate]
        exact ⟨file, hfile, InStep.feed hgets hhistory hoffset⟩
    simp only [addReply, hpeer] at hwait ⊢
    exact hwait
  | loaded r =>
    rw [hpeer] at h
    simp only [addReply, hpeer]
    exact ⟨h.1, h.2.feed hhistory hoffset⟩

theorem SlaveOk.skip {t : Master} {slave : Slave} {p : Bytes} (h : SlaveOk s slave)
    (hstate : slave.replstate = .waitBgsaveStart)
    (hoffset : t.master_repl_offset = s.master_repl_offset + p.length) : SlaveOk t slave := by
  unfold SlaveOk at h ⊢
  cases hpeer : slave.peer with
  | gone => trivial
  | waiting =>
    rw [hpeer] at h
    unfold Waiting Early at h ⊢
    rw [hstate] at h ⊢
    simp only at h ⊢
    omega
  | loaded r =>
    rw [hpeer, hstate] at h
    cases h.1

theorem feedReplicationBacklog_eq {b : Backlog} (hb : s.repl_backlog = some b) (p : Bytes) :
    ∃ b', feedReplicationBacklog s p =
        { s with history := s.history ++ p, master_repl_offset := s.master_repl_offset + p.length,
                 repl_backlog := some b' } ∧
      (BacklogOk s b → BacklogOk (feedReplicationBacklog s p) b' ∧
        b.repl_backlog_off ≤ b'.repl_backlog_off) := by
  unfold feedReplicationBacklog
  rw [hb]
  refine ⟨_, rfl, fun hok => ?_⟩
  obtain ⟨hpos, hoff, hsuffix⟩ := hok
  refine ⟨⟨Nat.succ_pos _, ?_, ?_⟩, ?_⟩
  · simp only [List.length_drop, List.length_append]
    omega
  · obtain ⟨pre, hpre⟩ := hsuffix
    exact (List.drop_suffix _ _).trans ⟨pre, by rw [← hpre, List.append_assoc]⟩
  · simp only
    omega

theorem ParkedOk.feed {r : Replica} {b : Backlog} {p : Bytes} {t : Master} (h : ParkedOk s r)
    (hb : s.repl_backlog = some b) (hhistory : t.history = s.history ++ p)
    (hoffset : t.master_repl_offset = s.master_repl_offset + p.length)
    (hmono : ∀ b', t.repl_backlog = some b' → b.repl_backlog_off ≤ b'.repl_backlog_off) :
    ParkedOk t r := by
  refine ⟨by rw [hoffset]; exact Nat.le_add_right_of_le h.1, fun b' hb' hreach => ?_⟩
  obtain ⟨rest, hrest⟩ := h.2 b hb (Nat.le_trans (hmono b' hb') hreach)
  exact ⟨rest ++ p, hrest.feed hhistory hoffset⟩

theorem feed_inv (h : Inv s) {b : Backlog} (hb : s.repl_backlog = some b) (p : Bytes)
    (skips : Slave → Bool)
    (hskips : ∀ slave, skips slave = true → slave.replstate = .waitBgsaveStart) :
    Inv (feed s p skips) ∧ (feed s p skips).repl_backlog ≠ none := by
  obtain ⟨b', heq, hb'⟩ := feedReplicationBacklog_eq hb p
  obtain ⟨hok, hmono⟩ := hb' (h.backlog b hb)
  unfold feed
  rw [heq] at hok ⊢
  refine ⟨⟨fun _ hnone => (by cases hnone), ?_, ?_, ?_⟩, fun hnone => (by cases hnone)⟩
  · intro b'' hb''
    cases hb''
    exact hok
  · intro slave hslave
    obtain ⟨old, hold, rfl⟩ := List.mem_map.mp hslave
    have hslaveOk := h.slaves old hold
    cases hskip : skips old with
    | true =>
      rw [if_pos rfl]
      exact hslaveOk.skip (hskips old hskip) rfl
    | false =>
      rw [if_neg (by decide)]
      exact hslaveOk.feed rfl rfl rfl
  · intro r hr
    refine (h.parked r hr).feed hb rfl rfl fun b'' hb'' => ?_
    cases hb''
    exact hmono

theorem Inv.slaveseldb (h : Inv s) (dictid : Int) : Inv { s with slaveseldb := dictid } :=
  h.with_slaves rfl rfl rfl id (fun slave hslave => (h.slaves slave hslave).congr rfl rfl rfl) h.parked

theorem replicationFeedSlaves_inv (h : Inv s) (dictid : Int) (argv : List Bytes) :
    Inv (replicationFeedSlaves s dictid argv) := by
  unfold replicationFeedSlaves
  cases hb : s.repl_backlog with
  | none =>
    have hempty : s.slaves = [] := by
      by_contra hne
      exact h.hasBacklog hne hb
    rw [if_pos ⟨rfl, by rw [hempty]; rfl⟩]
    refine ⟨fun hne => absurd hempty hne, fun b' hb' => ?_, fun slave hslave => ?_, fun r hr => ?_⟩
    · cases hb'
    · rw [hempty] at hslave
      cases hslave
    · exact ⟨(h.parked r hr).1, fun b' hb' => (by cases hb')⟩
  | some b =>
    rw [if_neg (by rintro ⟨hnone, -⟩; cases hnone)]
    have hstart : ∀ slave : Slave, (slave.replstate == .waitBgsaveStart) = true →
        slave.replstate = .waitBgsaveStart := fun slave hslave => by simpa using hslave
    by_cases hdb : s.slaveseldb ≠ dictid
    · simp only [if_pos hdb]
      obtain ⟨hinv, hsome⟩ := feed_inv h hb (selectcmd dictid) (fun _ => false) nofun
      obtain ⟨b', hb'⟩ := Option.ne_none_iff_exists'.mp hsome
      exact (feed_inv (hinv.slaveseldb dictid) hb' _ _ hstart).1
    · simp only [if_neg hdb]
      exact (feed_inv (h.slaveseldb dictid) hb _ _ hstart).1

end RedisCluster.Replication.Offsets
