import RedisCluster.Lib.Run
import RedisCluster.Replication.Backlog

/-!
# Proofs: the backlog holds the end of the stream

The block, rotated to the write index, is a shift register of everything that was fed since the backlog was
created. From this follow what it holds, what its offset is, and what a slave that goes on from an offset is
sent.
-/

namespace RedisCluster.Replication.Backlog

open RedisCluster.Lib
open RedisCluster.Util

theorem numbered_append (offset : Int) (p q : Bytes) :
    numbered offset (p ++ q) = numbered offset p ++ numbered (offset + p.length) q := by
  induction p generalizing offset with
  | nil => simp [numbered]
  | cons b p ih =>
    rw [List.cons_append, numbered, numbered, ih, List.cons_append, List.length_cons]
    congr 3
    omega

theorem offset_of_mem_numbered {offset : Int} {p : Bytes} {b : Int × UInt8} (h : b ∈ numbered offset p) :
    offset ≤ b.1 ∧ b.1 < offset + p.length := by
  induction p generalizing offset with
  | nil => cases h
  | cons c p ih =>
    rw [List.length_cons]
    rcases List.mem_cons.mp h with rfl | h
    · exact ⟨Int.le_refl _, by omega⟩
    · have hb := ih h
      omega

theorem since_numbered (first offset : Int) (p : Bytes) :
    ((numbered first p).filter fun b => offset ≤ b.1).map Prod.snd = p.drop (offset - first).toNat := by
  induction p generalizing first with
  | nil => simp [numbered]
  | cons c p ih =>
    by_cases hc : offset ≤ first
    · have hrest := ih (first + 1)
      have hzero : (offset - first).toNat = 0 := by omega
      have hzero' : (offset - (first + 1)).toNat = 0 := by omega
      rw [hzero', List.drop_zero] at hrest
      rw [numbered, List.filter_cons_of_pos (by simpa using hc), List.map_cons, hrest, hzero, List.drop_zero]
    · have hsucc : (offset - first).toNat = (offset - (first + 1)).toNat + 1 := by omega
      rw [numbered, List.filter_cons_of_neg (by simpa using hc), ih, hsucc, List.drop_succ_cons]

/-- The block is a shift register of what was fed, after whatever stood in it. -/
structure Holds (size idx : Nat) (backlog life : Bytes) : Prop where
  length_eq : backlog.length = size
  idx_lt : idx < size
  rolled : ∃ memory : Bytes, memory.length = size ∧ backlog.rotate idx = (memory ++ life).rtake size

theorem length_zmalloc (memory : Nat → UInt8) (size : Nat) : (zmalloc memory size).length = size := by
  rw [zmalloc, List.length_map, List.length_range]

theorem holds_zmalloc (memory : Nat → UInt8) {size : Nat} (h : 0 < size) :
    Holds size 0 (zmalloc memory size) [] := by
  refine ⟨length_zmalloc memory size, h, zmalloc memory size, length_zmalloc memory size, ?_⟩
  rw [List.rotate_zero, List.append_nil, rtake_of_length_le (Nat.le_of_eq (length_zmalloc memory size))]

theorem Holds.overwriteAt {size idx : Nat} {backlog life p : Bytes} (h : Holds size idx backlog life)
    (hp : idx + p.length ≤ size) :
    Holds size (if idx + p.length = size then 0 else idx + p.length) (overwriteAt backlog idx p) (life ++ p) := by
  obtain ⟨hlength, hidx, memory, hmemory, hrolled⟩ := h
  have hfits : idx + p.length ≤ backlog.length := by omega
  refine ⟨by rw [length_overwriteAt hfits, hlength], by split <;> omega, memory, hmemory, ?_⟩
  have hmoved : (Lib.overwriteAt backlog idx p).rotate (if idx + p.length = size then 0 else idx + p.length) =
      (Lib.overwriteAt backlog idx p).rotate (idx + p.length) := by
    by_cases hend : idx + p.length = size
    · rw [if_pos hend]
      exact (rotate_wrap (by rw [length_overwriteAt hfits, hlength, hend])).symm
    · rw [if_neg hend]
  rw [hmoved, rotate_overwriteAt hfits, hrolled, hlength, rtake_rtake_append, List.append_assoc]

theorem Holds.last {size idx n : Nat} {backlog life : Bytes} (h : Holds size idx backlog life)
    (hn : n ≤ min life.length size) : (backlog.rotate idx).rtake n = life.rtake n := by
  obtain ⟨-, -, memory, -, hrolled⟩ := h
  rw [hrolled, rtake_rtake (by omega), rtake_append_of_le memory (by omega)]

theorem feedLoop_spec {s : Server} {backlog life p : Bytes} (hbacklog : s.repl_backlog = some backlog)
    (h : Holds s.repl_backlog_size s.repl_backlog_idx backlog life) :
    ∃ backlog' idx', feedLoop s p = some { s with
        repl_backlog := some backlog'
        repl_backlog_idx := idx'
        repl_backlog_histlen := s.repl_backlog_histlen + p.length } ∧
      Holds s.repl_backlog_size idx' backlog' (life ++ p) := by
  induction hn : p.length using Nat.strong_induction_on generalizing s backlog life p with
  | _ n ih =>
    by_cases hp : p = []
    · subst hp
      refine ⟨backlog, s.repl_backlog_idx, ?_, by rwa [List.append_nil]⟩
      rw [feedLoop, if_pos rfl, ← hbacklog, ← hn]
      rfl
    · have hidx := h.idx_lt
      have hpos : 0 < p.length := List.length_pos_iff.mpr hp
      set thislen := min (s.repl_backlog_size - s.repl_backlog_idx) p.length with hthis
      have htake : (p.take thislen).length = thislen := by
        rw [List.length_take]
        omega
      have hnext := h.overwriteAt (p := p.take thislen) (by omega)
      rw [htake] at hnext
      obtain ⟨backlog', idx', heq, hholds⟩ := ih (p.drop thislen).length (by rw [List.length_drop]; omega)
        (s := copyIn s backlog p thislen) rfl hnext rfl
      refine ⟨backlog', idx', ?_, ?_⟩
      · rw [feedLoop, if_neg hp]
        simp only [hbacklog, ← hthis]
        rw [if_neg (by omega), heq]
        simp only [copyIn, List.length_drop, Option.some.injEq, Server.mk.injEq, true_and, and_true]
        omega
      · rw [List.append_assoc, List.take_append_drop] at hholds
        exact hholds

/-- A lifetime of the backlog that began at the offset `first`. -/
structure Alive (s : Server) (t : Stream) (backlog : Bytes) (first : Int) (past : List (Int × UInt8))
    (life : Bytes) : Prop where
  backlog_eq : s.repl_backlog = some backlog
  first_eq : t.first = some first
  fed_eq : t.fed = past ++ numbered first life
  past_lt : ∀ b ∈ past, b.1 < first
  end_eq : first + life.length = t.offset + 1
  holds : Holds s.repl_backlog_size s.repl_backlog_idx backlog life
  histlen_eq : s.repl_backlog_histlen = min life.length s.repl_backlog_size
  off_eq : s.repl_backlog_off = s.master_repl_offset - s.repl_backlog_histlen + 1

/-- The server and the stream that it was fed. -/
structure Tracks (s : Server) (t : Stream) : Prop where
  size_pos : 0 < s.repl_backlog_size
  size_eq : t.size = s.repl_backlog_size
  offset_eq : t.offset = s.master_repl_offset
  fed_le : ∀ b ∈ t.fed, b.1 ≤ t.offset
  lifetime : (s.repl_backlog = none ∧ t.first = none) ∨ ∃ backlog first past life, Alive s t backlog first past life

variable {s : Server} {t : Stream}

theorem tracks_init (runid : Bytes) : Tracks (initServerConfig runid) Stream.init where
  size_pos := by simp [initServerConfig, REDIS_DEFAULT_REPL_BACKLOG_SIZE]
  size_eq := rfl
  offset_eq := rfl
  fed_le := by
    intro b hb
    cases hb
  lifetime := Or.inl ⟨rfl, rfl⟩

theorem tracks_fresh (s : Server) (memory : Nat → UInt8) {size : Nat} {offset : Int} (hsize : 0 < size)
    (hfed : ∀ b ∈ t.fed, b.1 < offset + 1) :
    Tracks
      { s with
        repl_backlog := some (zmalloc memory size)
        repl_backlog_size := size
        repl_backlog_histlen := 0
        repl_backlog_idx := 0
        master_repl_offset := offset
        repl_backlog_off := offset + 1 }
      { t with size := size, offset := offset, first := some (offset + 1) } where
  size_pos := hsize
  size_eq := rfl
  offset_eq := rfl
  fed_le := fun b hb => Int.le_of_lt_add_one (hfed b hb)
  lifetime := Or.inr ⟨zmalloc memory size, offset + 1, t.fed, [], {
    backlog_eq := rfl
    first_eq := rfl
    fed_eq := (List.append_nil _).symm
    past_lt := hfed
    end_eq := Int.add_zero _
    holds := holds_zmalloc memory hsize
    histlen_eq := (Nat.zero_min _).symm
    off_eq := by simp }⟩

theorem createReplicationBacklog_tracks (h : Tracks s t) (hnone : s.repl_backlog = none) (memory : Nat → UInt8) :
    ∃ s', createReplicationBacklog s memory = some s' ∧ Tracks s' (t.step (.create memory)) := by
  refine ⟨_, if_neg (by simp [hnone]), ?_⟩
  have hfed : ∀ b ∈ t.fed, b.1 < s.master_repl_offset + 1 + 1 := by
    intro b hb
    have hle := h.fed_le b hb
    rw [h.offset_eq] at hle
    omega
  have hfresh := tracks_fresh s memory h.size_pos hfed
  rw [← h.offset_eq, ← h.size_eq] at hfresh ⊢
  exact hfresh

theorem resizeReplicationBacklog_tracks (h : Tracks s t) (newsize : Int) (memory : Nat → UInt8) :
    Tracks (resizeReplicationBacklog s newsize memory) (t.step (.resize newsize memory)) := by
  have hmax : (if newsize < REDIS_REPL_BACKLOG_MIN_SIZE then REDIS_REPL_BACKLOG_MIN_SIZE else newsize) =
      max newsize REDIS_REPL_BACKLOG_MIN_SIZE := by
    split <;> omega
  have hpos : 0 < (max newsize REDIS_REPL_BACKLOG_MIN_SIZE).toNat := by
    rw [REDIS_REPL_BACKLOG_MIN_SIZE]
    omega
  simp only [resizeReplicationBacklog, Stream.step, hmax, h.size_eq]
  by_cases hsame : s.repl_backlog_size = (max newsize REDIS_REPL_BACKLOG_MIN_SIZE).toNat
  · rw [if_pos hsame, if_pos hsame]
    exact h
  · rw [if_neg hsame, if_neg hsame]
    rcases h.lifetime with ⟨hnone, hfirst⟩ | ⟨backlog, first, past, life, halive⟩
    · rw [if_neg (by simp [hnone])]
      exact ⟨hpos, rfl, h.offset_eq, h.fed_le, Or.inl ⟨hnone, by rw [hfirst]; rfl⟩⟩
    · rw [if_pos (by simp [halive.backlog_eq]), halive.first_eq, Option.map_some]
      have hfresh := tracks_fresh s memory hpos fun b hb => Int.lt_add_one_of_le (h.fed_le b hb)
      rw [h.offset_eq] at hfresh ⊢
      exact hfresh

theorem freeReplicationBacklog_tracks (h : Tracks s t) (hslaves : s.slaves = 0) :
    ∃ s', freeReplicationBacklog s = some s' ∧ Tracks s' (t.step .free) := by
  refine ⟨_, if_neg (not_not.mpr hslaves), h.size_pos, h.size_eq, h.offset_eq, h.fed_le, Or.inl ⟨rfl, rfl⟩⟩

theorem feedReplicationBacklog_tracks (h : Tracks s t) (p : Bytes) (hsome : p = [] ∨ s.repl_backlog ≠ none) :
    ∃ s', feedReplicationBacklog s p = some s' ∧ Tracks s' (t.step (.feed p)) := by
  have hfed : ∀ b ∈ t.fed ++ numbered (t.offset + 1) p, b.1 ≤ t.offset + p.length := by
    intro b hb
    rcases List.mem_append.mp hb with hb | hb
    · have hle := h.fed_le b hb
      omega
    · have hlt := (offset_of_mem_numbered hb).2
      omega
  have hoffset : t.offset + p.length = s.master_repl_offset + p.length := by rw [h.offset_eq]
  rcases h.lifetime with ⟨hnone, hfirst⟩ | ⟨backlog, first, past, life, halive⟩
  · have hp : p = [] := hsome.resolve_right (not_not.mpr hnone)
    refine ⟨_, by rw [feedReplicationBacklog, feedLoop, if_pos hp]; rfl, ?_⟩
    exact ⟨h.size_pos, h.size_eq, hoffset, hfed, Or.inl ⟨hnone, hfirst⟩⟩
  · obtain ⟨backlog', idx', heq, hholds⟩ :=
      feedLoop_spec (s := { s with master_repl_offset := s.master_repl_offset + p.length }) (p := p)
        halive.backlog_eq halive.holds
    refine ⟨_, by rw [feedReplicationBacklog, heq]; rfl, ?_⟩
    refine ⟨h.size_pos, h.size_eq, hoffset, hfed, Or.inr ⟨backlog', first, past, life ++ p, ?_⟩⟩
    refine ⟨rfl, halive.first_eq, ?_, halive.past_lt, ?_, hholds, ?_, rfl⟩
    · have hend : t.offset + 1 = first + life.length := halive.end_eq.symm
      simp only [Stream.step]
      rw [hend, halive.fed_eq, List.append_assoc, ← numbered_append]
    · have hend := halive.end_eq
      simp only [Stream.step, List.length_append]
      omega
    · have hhistlen := halive.histlen_eq
      simp only [List.length_append, hhistlen]
      omega

theorem perform_tracks (h : Tracks s t) (call : Call) (hcall : Permitted s call) :
    ∃ s', perform s call = some s' ∧ Tracks s' (t.step call) := by
  cases call with
  | create memory => exact createReplicationBacklog_tracks h hcall memory
  | resize newsize memory => exact ⟨_, rfl, resizeReplicationBacklog_tracks h newsize memory⟩
  | free => exact freeReplicationBacklog_tracks h hcall
  | feed p => exact feedReplicationBacklog_tracks h p hcall
  | slaves n =>
    refine ⟨_, rfl, h.size_pos, h.size_eq, h.offset_eq, h.fed_le, ?_⟩
    rcases h.lifetime with hnone | ⟨backlog, first, past, life, halive⟩
    · exact Or.inl hnone
    · exact Or.inr ⟨backlog, first, past, life, { halive with }⟩

theorem replyLoop_zero {backlog : Bytes} {n : Nat} (hn : n ≤ backlog.length) :
    replyLoop backlog backlog.length 0 n = some (backlog.take n) := by
  rw [replyLoop]
  by_cases hzero : n = 0
  · rw [if_pos (by omega), hzero, List.take_zero]
  · have hpart : min ((backlog.length : Int) - 0) n = n := by omega
    rw [if_neg (by omega), hpart, if_pos (by omega), Int.sub_self, replyLoop, if_pos rfl]
    simp

theorem replyLoop_eq {backlog : Bytes} {j n : Nat} (hj : j < backlog.length) (hn : n ≤ backlog.length) :
    replyLoop backlog backlog.length j n = some ((backlog.rotate j).take n) := by
  rw [replyLoop]
  by_cases hzero : n = 0
  · rw [if_pos (by omega), hzero, List.take_zero]
  · have hpart : min ((backlog.length : Int) - j) n = (min (backlog.length - j) n : Nat) := by omega
    have hrest : (n : Int) - (min (backlog.length - j) n : Nat) = (n - min (backlog.length - j) n : Nat) := by omega
    rw [if_neg (by omega), hpart, if_pos (by omega), hrest, replyLoop_zero (by omega), take_rotate hj hn]
    rw [Option.map_some, Int.toNat_natCast, Int.toNat_natCast]

theorem Alive.since_eq {backlog life : Bytes} {first offset : Int} {past : List (Int × UInt8)}
    (h : Alive s t backlog first past life) (hoffset : first ≤ offset) :
    t.since offset = life.drop (offset - first).toNat := by
  have hpast : (past.filter fun b => offset ≤ b.1) = [] := by
    rw [List.filter_eq_nil_iff]
    intro b hb
    have hlt := h.past_lt b hb
    simp only [decide_eq_true_eq]
    omega
  rw [Stream.since, h.fed_eq, List.filter_append, hpast, List.nil_append, since_numbered]

theorem addReplyReplicationBacklog_eq {backlog life : Bytes} {first offset : Int} {past : List (Int × UInt8)}
    (h : Tracks s t) (halive : Alive s t backlog first past life) (hfrom : s.repl_backlog_off ≤ offset)
    (hto : offset ≤ s.repl_backlog_off + s.repl_backlog_histlen) :
    first ≤ offset ∧
      addReplyReplicationBacklog s offset = some (t.since offset, ((t.since offset).length : Int)) := by
  have hoff := halive.off_eq
  have hhistlen := halive.histlen_eq
  have hend := halive.end_eq
  have hoffset := h.offset_eq
  have hsize := halive.holds.length_eq
  have hfirst : first ≤ offset := by omega
  refine ⟨hfirst, ?_⟩
  obtain ⟨k, hk⟩ := Int.eq_ofNat_of_zero_le (Int.sub_nonneg.mpr hfrom)
  have hsince : t.since offset = life.rtake (s.repl_backlog_histlen - k) := by
    rw [halive.since_eq hfirst, rtake_eq_drop]
    congr 1
    omega
  have hlength : (t.since offset).length = s.repl_backlog_histlen - k := by
    rw [hsince, length_rtake]
    omega
  by_cases hzero : s.repl_backlog_histlen = 0
  · have hnil : t.since offset = [] := List.length_eq_zero_iff.mp (by omega)
    rw [addReplyReplicationBacklog, if_pos hzero, hnil]
    rfl
  · set gap := s.repl_backlog_size - s.repl_backlog_histlen with hgap
    have hstart : (s.repl_backlog_idx + (s.repl_backlog_size - s.repl_backlog_histlen : Int)) =
        (s.repl_backlog_idx + gap : Nat) := by omega
    have hskip : (((s.repl_backlog_idx + gap) % s.repl_backlog_size : Nat) : Int) + k =
        ((s.repl_backlog_idx + gap) % s.repl_backlog_size + k : Nat) := (Int.natCast_add ..).symm
    have hindex : ((s.repl_backlog_idx + gap) % s.repl_backlog_size + k) % s.repl_backlog_size =
        (s.repl_backlog_idx + (s.repl_backlog_size - (s.repl_backlog_histlen - k))) % s.repl_backlog_size := by
      rw [Nat.mod_add_mod]
      congr 1
      omega
    have hlen : (s.repl_backlog_histlen : Int) - k = (s.repl_backlog_histlen - k : Nat) := by omega
    rw [addReplyReplicationBacklog, if_neg hzero]
    simp only [hk, halive.backlog_eq, Option.bind_some]
    rw [hstart, ← Int.ofNat_tmod, hskip, ← Int.ofNat_tmod, hindex, hlen, ← hsize]
    rw [replyLoop_eq (Nat.mod_lt _ (by omega)) (by omega), ← rtake_rotate (by omega)]
    rw [halive.holds.last (by omega), ← hsince, hlength]
    rfl

theorem served_eq_true {offset : Int} : served s offset = true ↔
    s.repl_backlog.isSome ∧ s.repl_backlog_off ≤ offset ∧
      offset ≤ s.repl_backlog_off + s.repl_backlog_histlen := by
  rw [served, decide_eq_true_eq]

theorem served_none {offset : Int} (h : s.repl_backlog = none) : ¬ served s offset = true := by
  intro hserved
  have hsome := (served_eq_true.mp hserved).1
  rw [h] at hsome
  cases hsome

theorem masterTryPartialResynchronization_spec (master_runid offset : Bytes) (writes : Bool)
    (hreply : ∀ o, served s o = true → ∃ reply len, addReplyReplicationBacklog s o = some (reply, len)) :
    ∃ r, masterTryPartialResynchronization s master_runid offset writes = some r ∧
      ∀ s' reply psync_len, r = .continued s' reply psync_len →
        ∃ o, Aof.getLongLongFromObject offset = some o ∧ served s o = true ∧
          addReplyReplicationBacklog s o = some (reply, psync_len) := by
  have hfull : ∀ added s' reply psync_len, needFullResync s added writes ≠ .continued s' reply psync_len := by
    intro added s' reply psync_len
    rw [needFullResync]
    by_cases hwrites : writes = true
    · rw [if_pos hwrites]
      exact Psync.noConfusion
    · rw [if_neg hwrites]
      exact Psync.noConfusion
  rw [masterTryPartialResynchronization]
  by_cases hrunid : Multi.sameCaseless master_runid s.runid = true
  · rw [if_pos hrunid]
    cases hoffset : Aof.getLongLongFromObject offset with
    | none => exact ⟨_, rfl, fun s' reply psync_len h => absurd h (hfull _ s' reply psync_len)⟩
    | some o =>
      by_cases hserved : served s o = true
      · simp only [if_pos hserved]
        by_cases hwrites : writes = true
        · obtain ⟨reply, len, heq⟩ := hreply o hserved
          refine ⟨_, by rw [if_pos hwrites, heq, Option.map_some], ?_⟩
          intro s' reply' psync_len h
          cases h
          exact ⟨o, rfl, hserved, heq⟩
        · exact ⟨.freed, if_neg hwrites, fun _ _ _ h => Psync.noConfusion h⟩
      · simp only [if_neg hserved]
        exact ⟨_, rfl, fun s' reply psync_len h => absurd h (hfull _ s' reply psync_len)⟩
  · rw [if_neg hrunid]
    exact ⟨_, rfl, fun s' reply psync_len h => absurd h (hfull _ s' reply psync_len)⟩

theorem Tracks.faithful_none (h : Tracks s t) (hnone : s.repl_backlog = none) (hfirst : t.first = none) :
    Faithful s t where
  exists_iff := by simp [hnone, hfirst]
  size_eq := h.size_eq.symm
  contents_eq := by
    intro first hmem
    rw [hfirst] at hmem
    cases hmem
  off_eq := by
    intro first hmem
    rw [hfirst] at hmem
    cases hmem
  served_iff := by
    intro offset
    refine iff_of_false (served_none hnone) ?_
    rintro ⟨first, hmem, -⟩
    rw [hfirst] at hmem
    cases hmem
  continues := by
    intro master_runid offset writes
    obtain ⟨r, heq, hr⟩ := masterTryPartialResynchronization_spec master_runid offset writes
      fun o hserved => absurd hserved (served_none hnone)
    refine ⟨r, heq, fun s' reply psync_len h => ?_⟩
    obtain ⟨o, -, hserved, -⟩ := hr s' reply psync_len h
    exact absurd hserved (served_none hnone)

theorem Tracks.faithful_some {backlog life : Bytes} {first : Int} {past : List (Int × UInt8)}
    (h : Tracks s t) (halive : Alive s t backlog first past life) : Faithful s t := by
  have hfirst : ∀ f ∈ t.first, f = first := by
    intro f hf
    rw [halive.first_eq] at hf
    exact (Option.some.inj hf).symm
  have hlife : t.since first = life := by
    rw [halive.since_eq (Int.le_refl _), Int.sub_self]
    rfl
  have hoff := halive.off_eq
  have hhistlen := halive.histlen_eq
  have hend := halive.end_eq
  have hoffset := h.offset_eq
  have hcontents : contents s = life.rtake s.repl_backlog_histlen := by
    rw [contents, halive.backlog_eq, Option.getD_some, halive.holds.last (Nat.le_of_eq hhistlen)]
  have hserved : ∀ offset, served s offset = true ↔ s.repl_backlog_off ≤ offset ∧
      offset ≤ s.repl_backlog_off + s.repl_backlog_histlen := by
    intro offset
    rw [served_eq_true, halive.backlog_eq]
    exact and_iff_right rfl
  refine ⟨?_, h.size_eq.symm, ?_, ?_, ?_, ?_⟩
  · rw [halive.backlog_eq, halive.first_eq]
    exact iff_of_true rfl rfl
  · intro f hf
    rw [hfirst f hf, hlife]
    exact ⟨hhistlen, hcontents⟩
  · intro f hf
    rw [hfirst f hf]
    refine ⟨by omega, ?_, by omega, hoffset.symm⟩
    rw [hcontents, halive.since_eq (by omega), rtake_eq_drop]
    congr 1
    omega
  · intro offset
    rw [hserved, halive.first_eq, h.size_eq]
    constructor
    · rintro ⟨hfrom, hto⟩
      exact ⟨first, rfl, by omega, by omega, by omega⟩
    · rintro ⟨f, hf, hge, hnew, hle⟩
      cases hf
      constructor <;> omega
  · intro master_runid offset writes
    have hreply : ∀ o, served s o = true → first ≤ o ∧
        addReplyReplicationBacklog s o = some (t.since o, ((t.since o).length : Int)) := by
      intro o ho
      exact addReplyReplicationBacklog_eq h halive ((hserved o).mp ho).1 ((hserved o).mp ho).2
    obtain ⟨r, heq, hr⟩ := masterTryPartialResynchronization_spec master_runid offset writes
      fun o ho => ⟨_, _, (hreply o ho).2⟩
    refine ⟨r, heq, fun s' reply psync_len hcontinued => ?_⟩
    obtain ⟨o, hparsed, ho, hsent⟩ := hr s' reply psync_len hcontinued
    rw [(hreply o ho).2] at hsent
    cases hsent
    exact ⟨first, halive.first_eq, o, hparsed, ho, (hreply o ho).1, rfl, rfl⟩

theorem Tracks.faithful (h : Tracks s t) : Faithful s t := by
  rcases h.lifetime with ⟨hnone, hfirst⟩ | ⟨backlog, first, past, life, halive⟩
  · exact h.faithful_none hnone hfirst
  · exact h.faithful_some halive

theorem performs_tracks (h : Tracks s t) (calls : List Call) :
    (∃ s', performs s calls = some s' ∧ Tracks s' (run Stream.step t calls)) ∨
      ∃ before call after s', calls = before ++ call :: after ∧ performs s before = some s' ∧
        ¬ Permitted s' call := by
  induction calls generalizing s t with
  | nil => exact Or.inl ⟨s, rfl, h⟩
  | cons call calls ih =>
    by_cases hcall : Permitted s call
    · obtain ⟨s', heq, hs'⟩ := perform_tracks h call hcall
      have hcons : ∀ cs, performs s (call :: cs) = performs s' cs := by
        intro cs
        rw [performs, List.foldlM_cons, heq]
        rfl
      rcases ih hs' with ⟨s'', hrest, hs''⟩ | ⟨before, call', after, s'', hsplit, hrest, hdenied⟩
      · exact Or.inl ⟨s'', by rw [hcons, hrest], hs''⟩
      · exact Or.inr ⟨call :: before, call', after, s'', by rw [hsplit]; rfl, by rw [hcons, hrest], hdenied⟩
    · exact Or.inr ⟨[], call, calls, s, rfl, rfl, hcall⟩

/-- After any sequence of permitted calls the backlog is the end of the stream, and what a slave is sent that
goes on from an offset is the stream from there. -/
theorem backlog_faithful (runid : Bytes) (calls : List Call) :
    (∃ s, performs (initServerConfig runid) calls = some s ∧ Faithful s (run Stream.step Stream.init calls)) ∨
      ∃ before call after s, calls = before ++ call :: after ∧
        performs (initServerConfig runid) before = some s ∧ ¬ Permitted s call := by
  rcases performs_tracks (tracks_init runid) calls with ⟨s, heq, hs⟩ | hdenied
  · exact Or.inl ⟨s, heq, hs.faithful⟩
  · exact Or.inr hdenied

end RedisCluster.Replication.Backlog
