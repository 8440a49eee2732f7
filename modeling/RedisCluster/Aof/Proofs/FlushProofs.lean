import RedisCluster.Aof.Flush

/-!
# Proofs: the accounts of `flushAppendOnlyFile`

The cases are those of the source: an error, a short write that is undone or kept, and a complete one.
The length is compared as an `int`, so each case is decided for short and for long buffers.
-/

namespace RedisCluster.Aof.Flush

open RedisCluster.Lib RedisCluster.Util

/-- What holds of a server between two calls. -/
structure Sound (s : Server) : Prop where
  policy : s.aof_fsync ≠ .always
  running : s.exited = false
  size : s.aof_current_size = s.file.length
  buf : s.aof_buf.length < 2 ^ 32
  status : s.aof_last_write_status = true ↔ LastComplete s

theorem Started.sound {s : Server} (h : Started s) : Sound s where
  policy := h.policy
  running := h.running
  size := h.size
  buf := h.buf
  status := iff_of_true h.status (by simp [LastComplete, h.lastWrite])

theorem nwritten_bounds (call : Call) (buf : Bytes) :
    -1 ≤ call.nwritten buf ∧ call.nwritten buf ≤ buf.length := by
  unfold Call.nwritten
  cases call.room with
  | none => exact ⟨Int.le_refl _, show (-1 : Int) ≤ _ by omega⟩
  | some n => exact ⟨show (-1 : Int) ≤ (min n buf.length : Nat) by omega,
      show ((min n buf.length : Nat) : Int) ≤ _ by omega⟩

theorem compared_short {s : Server} (h : s.aof_buf.length < 2 ^ 31) (n : Int) :
    n = narrowInt s.aof_buf.length ↔ n = s.aof_buf.length := by rw [narrowInt_of_lt h]

theorem compared_long {s : Server} (h : 2 ^ 31 ≤ s.aof_buf.length) (hlt : s.aof_buf.length < 2 ^ 32)
    (call : Call) :
    call.nwritten s.aof_buf = narrowInt s.aof_buf.length ↔
      call.nwritten s.aof_buf = -1 ∧ s.aof_buf.length = 2 ^ 32 - 1 := by
  have hbounds := nwritten_bounds call s.aof_buf
  rw [narrowInt_of_ge h hlt]
  omega

def written (s : Server) (call : Call) : Server :=
  { s with
    aof_flush_postponed_start := 0
    file := s.file ++ s.aof_buf.take (call.nwritten s.aof_buf).toNat
    lastWrite := some (call.nwritten s.aof_buf, s.aof_buf.length) }

theorem writeBuffer_eq (s : Server) (call : Call) :
    writeBuffer s call =
      if call.nwritten s.aof_buf ≠ narrowInt s.aof_buf.length then
        writeFailed (written s call) call (call.nwritten s.aof_buf)
      else writeDone (written s call) call (call.nwritten s.aof_buf) := rfl

theorem writeDone_fields (s : Server) (call : Call) (n : Int) :
    (writeDone s call n).file = s.file ∧ (writeDone s call n).aof_buf = [] ∧
      (writeDone s call n).aof_current_size = s.aof_current_size + n ∧
      (writeDone s call n).aof_last_write_status = true ∧ (writeDone s call n).lastWrite = s.lastWrite ∧
      (writeDone s call n).aof_fsync = s.aof_fsync ∧ (writeDone s call n).exited = s.exited := by
  unfold writeDone
  dsimp only
  split
  · simp
  · split <;> simp

theorem writeFailed_undone {s : Server} {call : Call} {n : Int} (hpolicy : s.aof_fsync ≠ .always)
    (h : n = -1 ∨ call.truncates = true) :
    writeFailed s call n =
      { s with
        aof_last_write_status := false
        file := if n = -1 then s.file else s.file.take s.aof_current_size.toNat } := by
  unfold writeFailed
  by_cases herror : n = -1
  · subst herror
    simp [hpolicy]
  · have htruncates := h.resolve_left herror
    simp [herror, htruncates, hpolicy]

theorem writeFailed_kept {s : Server} {call : Call} {n : Int} (hpolicy : s.aof_fsync ≠ .always)
    (herror : n ≠ -1) (h : call.truncates = false) :
    writeFailed s call n =
      if n > 0 then
        { s with
          aof_last_write_status := false
          aof_current_size := s.aof_current_size + n
          aof_buf := sdsrange s.aof_buf (narrowInt n) (-1) }
      else { s with aof_last_write_status := false } := by
  unfold writeFailed
  simp [herror, h, hpolicy]

theorem accounted_done {s : Server} {call : Call} (hn : call.nwritten s.aof_buf = s.aof_buf.length) :
    Accounted s (writeDone (written s call) call (call.nwritten s.aof_buf)) := by
  obtain ⟨hfile, hbuf, hsize, hstatus, hlast, -⟩ :=
    writeDone_fields (written s call) call (call.nwritten s.aof_buf)
  have hwhole : (written s call).file = s.file ++ s.aof_buf := by
    rw [written, hn, Int.toNat_natCast, List.take_length]
  constructor
  · rw [hfile, hbuf, hwhole, List.append_nil]
  · rw [hfile, hsize, hwhole, List.length_append, hn]
    show s.aof_current_size + _ - s.aof_current_size = _
    omega
  · refine iff_of_true hstatus ?_
    unfold LastComplete
    rw [hlast]
    intro w hw
    cases hw
    exact hn

theorem accounted_undone_iff {s : Server} {call : Call} (hs : Sound s)
    (h : call.nwritten s.aof_buf = -1 ∨ call.truncates = true) :
    Accounted s (writeFailed (written s call) call (call.nwritten s.aof_buf)) ↔
      call.nwritten s.aof_buf ≠ s.aof_buf.length := by
  have hfile : (if call.nwritten s.aof_buf = -1 then (written s call).file
      else (written s call).file.take (written s call).aof_current_size.toNat) = s.file := by
    by_cases herror : call.nwritten s.aof_buf = -1
    · rw [if_pos herror, written, herror]
      exact List.append_nil _
    · rw [if_neg herror]
      show (s.file ++ _).take s.aof_current_size.toNat = s.file
      rw [hs.size, Int.toNat_natCast, List.take_left]
  rw [writeFailed_undone (s := written s call) hs.policy h, hfile]
  constructor
  · intro hacc hcomplete
    have hstatus : (false = true) ↔ _ := hacc.status
    refine absurd (hstatus.mpr ?_) Bool.false_ne_true
    intro w hw
    cases hw
    exact hcomplete
  · intro hshort
    refine ⟨rfl, ?_, iff_of_false Bool.false_ne_true ?_⟩
    · show s.aof_current_size - s.aof_current_size = (s.file.length : Int) - s.file.length
      omega
    · intro hlast
      exact hshort (hlast _ rfl)

theorem accounted_kept_iff {s : Server} {call : Call} (hs : Sound s) (hne : s.aof_buf.length ≠ 0)
    (herror : call.nwritten s.aof_buf ≠ -1) (hkept : call.truncates = false)
    (hshort : call.nwritten s.aof_buf ≠ narrowInt s.aof_buf.length) :
    Accounted s (writeFailed (written s call) call (call.nwritten s.aof_buf)) ↔
      s.aof_buf.length < 2 ^ 31 ∨ call.nwritten s.aof_buf = 0 := by
  obtain ⟨hlow, hhigh⟩ := nwritten_bounds call s.aof_buf
  rw [writeFailed_kept (s := written s call) hs.policy herror hkept]
  by_cases hpos : call.nwritten s.aof_buf > 0
  · rw [if_pos hpos]
    obtain ⟨n, hn⟩ : ∃ n : Nat, call.nwritten s.aof_buf = n := ⟨(call.nwritten s.aof_buf).toNat, by omega⟩
    by_cases hlen : s.aof_buf.length < 2 ^ 31
    · refine iff_of_true ?_ (Or.inl hlen)
      have hnot : call.nwritten s.aof_buf ≠ s.aof_buf.length := fun h => hshort ((compared_short hlen _).mpr h)
      have hint : narrowInt (call.nwritten s.aof_buf) = n := by
        rw [hn]
        exact narrowInt_of_lt (by omega)
      have hrest : sdsrange s.aof_buf (narrowInt (call.nwritten s.aof_buf)) (-1) = s.aof_buf.drop n := by
        rw [hint]
        exact sdsrange_tail hlen
      refine ⟨?_, ?_, iff_of_false Bool.false_ne_true fun hlast => hnot (hlast _ rfl)⟩
      · show (s.file ++ s.aof_buf.take (call.nwritten s.aof_buf).toNat) ++ sdsrange s.aof_buf _ (-1) = _
        rw [hrest, hn, Int.toNat_natCast, List.append_assoc, List.take_append_drop]
      · show s.aof_current_size + call.nwritten s.aof_buf - s.aof_current_size =
          ((s.file ++ s.aof_buf.take (call.nwritten s.aof_buf).toNat).length : Int) - _
        rw [List.length_append, List.length_take, hn, Int.toNat_natCast]
        omega
    · refine iff_of_false ?_ (by omega)
      intro hacc
      have hstream : (s.file ++ s.aof_buf.take (call.nwritten s.aof_buf).toNat) ++
          sdsrange s.aof_buf (narrowInt (call.nwritten s.aof_buf)) (-1) = s.file ++ s.aof_buf := hacc.stream
      have hstatus : (false = true) ↔ _ := hacc.status
      -- Nothing is left of the buffer, so that all of it must have been written.
      rw [sdsrange_tail_long (by omega) hs.buf, List.append_nil] at hstream
      have htake := List.append_cancel_left hstream
      have hall : call.nwritten s.aof_buf = s.aof_buf.length := by
        have hlength := congrArg List.length htake
        rw [List.length_take, hn, Int.toNat_natCast] at hlength
        omega
      refine absurd (hstatus.mpr ?_) Bool.false_ne_true
      intro w hw
      cases hw
      exact hall
  · rw [if_neg hpos]
    have hzero : call.nwritten s.aof_buf = 0 := by omega
    refine iff_of_true ⟨?_, ?_, iff_of_false Bool.false_ne_true ?_⟩ (Or.inr hzero)
    · show (s.file ++ s.aof_buf.take (call.nwritten s.aof_buf).toNat) ++ s.aof_buf = _
      rw [hzero]
      exact congrArg (· ++ s.aof_buf) (List.append_nil _)
    · show s.aof_current_size - s.aof_current_size =
        ((s.file ++ s.aof_buf.take (call.nwritten s.aof_buf).toNat).length : Int) - _
      rw [hzero, Int.toNat_zero, List.take_zero, List.append_nil]
      omega
    · intro hlast
      have hcomplete : call.nwritten s.aof_buf = s.aof_buf.length := hlast _ rfl
      omega

theorem accounted_writeBuffer_iff {s : Server} {call : Call} (hs : Sound s) (hne : s.aof_buf.length ≠ 0) :
    Accounted s (writeBuffer s call) ↔ s.aof_buf.length < 2 ^ 31 ∨ Harmless s call := by
  obtain ⟨hlow, hhigh⟩ := nwritten_bounds call s.aof_buf
  rw [writeBuffer_eq]
  by_cases hlen : s.aof_buf.length < 2 ^ 31
  · refine iff_of_true ?_ (Or.inl hlen)
    by_cases hdone : call.nwritten s.aof_buf = narrowInt s.aof_buf.length
    · rw [if_neg (not_not.mpr hdone)]
      exact accounted_done ((compared_short hlen _).mp hdone)
    · rw [if_pos hdone]
      by_cases hundone : call.nwritten s.aof_buf = -1 ∨ call.truncates = true
      · refine (accounted_undone_iff hs hundone).mpr ?_
        exact fun h => hdone ((compared_short hlen _).mpr h)
      · obtain ⟨herror, hkept⟩ := not_or.mp hundone
        exact (accounted_kept_iff hs hne herror (by simpa using hkept) hdone).mpr (Or.inl hlen)
  · have hcompared := compared_long (Nat.le_of_not_lt hlen) hs.buf call
    unfold Harmless
    by_cases hdone : call.nwritten s.aof_buf = narrowInt s.aof_buf.length
    · rw [if_neg (not_not.mpr hdone)]
      obtain ⟨herror, hmax⟩ := hcompared.mp hdone
      refine iff_of_false ?_ (by omega)
      intro hacc
      obtain ⟨hfile, hbuf, -⟩ := writeDone_fields (written s call) call (call.nwritten s.aof_buf)
      have hstream := hacc.stream
      rw [hfile, hbuf, written, herror] at hstream
      have hlost : [] = s.aof_buf := by simpa using hstream
      exact hne (by rw [← hlost, List.length_nil])
    · rw [if_pos hdone]
      have hnot := mt hcompared.mpr hdone
      by_cases hundone : call.nwritten s.aof_buf = -1 ∨ call.truncates = true
      · rw [accounted_undone_iff hs hundone]
        rcases hundone with herror | htruncates
        · exact iff_of_true (by omega) (by omega)
        · rw [htruncates]
          by_cases hcomplete : call.nwritten s.aof_buf = s.aof_buf.length
          · exact iff_of_false (not_not.mpr hcomplete) (by omega)
          · refine iff_of_true hcomplete ?_
            simp only [and_true]
            omega
      · obtain ⟨herror, hkept⟩ := not_or.mp hundone
        rw [accounted_kept_iff hs hne herror (by simpa using hkept) hdone]
        constructor
        · rintro (h | h)
          · exact absurd h hlen
          · exact Or.inr (Or.inl h)
        · rintro (h | h | h | h)
          · exact absurd h hlen
          · exact Or.inr h
          · exact absurd h.1 herror
          · exact absurd h.2.2 hkept

theorem postpone_fields (s : Server) (call : Call) :
    (postpone s call).2.file = s.file ∧ (postpone s call).2.aof_buf = s.aof_buf ∧
      (postpone s call).2.aof_current_size = s.aof_current_size ∧
      (postpone s call).2.aof_last_write_status = s.aof_last_write_status ∧
      (postpone s call).2.lastWrite = s.lastWrite ∧ (postpone s call).2.aof_fsync = s.aof_fsync ∧
      (postpone s call).2.exited = s.exited := by
  unfold postpone
  split
  · split
    · simp
    · split <;> simp
  · simp

theorem Accounted.refl {s : Server} (hs : Sound s) : Accounted s s := ⟨rfl, by omega, hs.status⟩

theorem Sound.postponed {s : Server} (hs : Sound s) (call : Call) : Sound (postpone s call).2 := by
  obtain ⟨hfile, hbuf, hsize, hstatus, hlast, hpolicy, hexited⟩ := postpone_fields s call
  constructor
  · rw [hpolicy]
    exact hs.policy
  · rw [hexited]
    exact hs.running
  · rw [hsize, hfile]
    exact hs.size
  · rw [hbuf]
    exact hs.buf
  · unfold LastComplete
    rw [hstatus, hlast]
    exact hs.status

theorem accounted_postponed_iff {s s' : Server} (call : Call) :
    Accounted (postpone s call).2 s' ↔ Accounted s s' := by
  obtain ⟨hfile, hbuf, hsize, -⟩ := postpone_fields s call
  constructor
  · rintro ⟨h1, h2, h3⟩
    rw [hfile, hbuf] at h1
    rw [hfile, hsize] at h2
    exact ⟨h1, h2, h3⟩
  · rintro ⟨h1, h2, h3⟩
    refine ⟨?_, ?_, h3⟩
    · rw [hfile, hbuf]
      exact h1
    · rw [hfile, hsize]
      exact h2

theorem accounted_flush_iff {s : Server} (hs : Sound s) (call : Call) :
    Accounted s (flushAppendOnlyFile s call) ↔
      s.aof_buf.length < 2 ^ 31 ∨ (postpone s call).1 = true ∨ Harmless s call := by
  obtain ⟨-, hbuf, -⟩ := postpone_fields s call
  unfold flushAppendOnlyFile
  by_cases hempty : s.aof_buf.length = 0
  · rw [if_pos hempty]
    exact iff_of_true (Accounted.refl hs) (by omega)
  · rw [if_neg hempty]
    by_cases hlater : (postpone s call).1 = true
    · rw [if_pos hlater]
      have hsame := (accounted_postponed_iff call).mp (Accounted.refl (hs.postponed call))
      exact iff_of_true hsame (Or.inr (Or.inl hlater))
    · rw [if_neg hlater, ← accounted_postponed_iff call,
        accounted_writeBuffer_iff (hs.postponed call) (by rw [hbuf]; exact hempty)]
      unfold Harmless
      rw [hbuf]
      tauto

theorem writeBuffer_keeps {s : Server} (hs : Sound s) (call : Call) :
    (writeBuffer s call).aof_fsync ≠ .always ∧ (writeBuffer s call).exited = false ∧
      (writeBuffer s call).aof_buf.length < 2 ^ 32 := by
  have hbuf := hs.buf
  rw [writeBuffer_eq]
  split
  · by_cases hundone : call.nwritten s.aof_buf = -1 ∨ call.truncates = true
    · rw [writeFailed_undone (s := written s call) hs.policy hundone]
      exact ⟨hs.policy, hs.running, hs.buf⟩
    · obtain ⟨herror, hkept⟩ := not_or.mp hundone
      rw [writeFailed_kept (s := written s call) hs.policy herror (by simpa using hkept)]
      split
      · refine ⟨hs.policy, hs.running, lt_of_le_of_lt (length_sdsrange_le _ _ _) hs.buf⟩
      · exact ⟨hs.policy, hs.running, hs.buf⟩
  · obtain ⟨-, hnil, -, -, -, hpolicy, hexited⟩ := writeDone_fields (written s call) call (call.nwritten s.aof_buf)
    rw [hpolicy, hexited, hnil]
    exact ⟨hs.policy, hs.running, by decide⟩

theorem Sound.flush {s : Server} {call : Call} (hs : Sound s) (h : Accounted s (flushAppendOnlyFile s call)) :
    Sound (flushAppendOnlyFile s call) := by
  have hkeeps : (flushAppendOnlyFile s call).aof_fsync ≠ .always ∧ (flushAppendOnlyFile s call).exited = false ∧
      (flushAppendOnlyFile s call).aof_buf.length < 2 ^ 32 := by
    have hlater := hs.postponed call
    unfold flushAppendOnlyFile
    split
    · exact ⟨hs.policy, hs.running, hs.buf⟩
    · split
      · exact ⟨hlater.policy, hlater.running, hlater.buf⟩
      · exact writeBuffer_keeps hlater call
  obtain ⟨hpolicy, hrunning, hbuf⟩ := hkeeps
  have hsize := h.size
  have hbefore := hs.size
  exact ⟨hpolicy, hrunning, by omega, hbuf, h.status⟩

theorem Sound.feed {s : Server} (hs : Sound s) (buf : Bytes) : Sound (feedAppendOnlyFile s buf) :=
  ⟨hs.policy, hs.running, hs.size, length_sdscatlen _ _, hs.status⟩

theorem accountedEvent_iff {s : Server} (hs : Sound s) (e : Event) : AccountedEvent s e ↔ FlushFits s e := by
  unfold AccountedEvent FlushFits
  refine forall_congr' fun call => forall_congr' fun he => ?_
  subst he
  rw [step, if_neg (by rw [hs.running]; decide)]
  exact accounted_flush_iff hs call

theorem Sound.step {s : Server} (hs : Sound s) {e : Event} (h : AccountedEvent s e) : Sound (step s e) := by
  have hrun : ¬ s.exited = true := by rw [hs.running]; decide
  cases e with
  | feed buf =>
    rw [Flush.step, if_neg hrun]
    exact hs.feed buf
  | flush call =>
    have hacc := h call rfl
    rw [Flush.step, if_neg hrun] at hacc ⊢
    exact hs.flush hacc

theorem accountedRun_iff {s : Server} (hs : Sound s) (es : List Event) :
    RunMeets step AccountedEvent s es ↔ RunMeets step FlushFits s es := by
  induction es generalizing s with
  | nil => exact Iff.rfl
  | cons e es ih =>
    rw [runMeets_cons, runMeets_cons, accountedEvent_iff hs e]
    refine and_congr_right fun hfits => ?_
    exact ih (hs.step ((accountedEvent_iff hs e).mpr hfits))

def fresh : Server where
  file := []
  aof_current_size := 0
  aof_buf := []
  aof_last_write_status := true
  aof_fsync := .everysec
  aof_no_fsync_on_rewrite := false
  aof_flush_postponed_start := 0
  aof_delayed_fsync := 0
  aof_last_fsync := 0
  exited := false
  lastWrite := none

theorem fresh_started : Started fresh := ⟨by decide, rfl, rfl, by decide, rfl, rfl⟩

def takes (n : Nat) (truncates : Bool) : Call :=
  { force := true, pending := false, unixtime := 1, child := false, room := some n, truncates := truncates }

/-- 2^31 bytes that `write` takes whole: the length as an `int` is negative, so the write counts as
short, is undone, and the status is an error. -/
theorem undone_unaccounted {buf : Bytes} (hlen : buf.length = 2 ^ 31) :
    ¬ RunMeets step AccountedEvent fresh [.feed buf, .flush (takes (2 ^ 31) true)] := by
  intro hall
  obtain ⟨-, hfits, -⟩ := (accountedRun_iff fresh_started.sound _).mp hall
  have hbuf : (step fresh (.feed buf)).aof_buf.length = 2 ^ 31 := by
    show (([] ++ buf).take ((0 + buf.length) % 2 ^ 32)).length = 2 ^ 31
    rw [List.nil_append, List.length_take, hlen]
    decide
  have hnow : (postpone (step fresh (.feed buf)) (takes (2 ^ 31) true)).1 = false := by
    unfold postpone
    exact congrArg Prod.fst (if_neg fun h => absurd h.2.1 (by decide))
  have hwhole : (takes (2 ^ 31) true).nwritten (step fresh (.feed buf)).aof_buf = 2 ^ 31 := by
    show ((min (2 ^ 31) (step fresh (.feed buf)).aof_buf.length : Nat) : Int) = 2 ^ 31
    rw [hbuf]
    decide
  rcases hfits _ rfl with hshort | hlater | hharmless
  · omega
  · rw [hnow] at hlater
    cases hlater
  · unfold Harmless at hharmless
    rw [hwhole, hbuf] at hharmless
    omega

end RedisCluster.Aof.Flush
