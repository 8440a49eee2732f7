import Mathlib.Data.List.Nodup
import Mathlib.Data.List.Count
import RedisCluster.Ae.TimeEvents

/-!
# Proofs: a pass over the time events

`Edits` says what the calls of a callback do to the list, and `PassInv` is the invariant of the loop.
Each iteration either calls an event that was not called before or moves on in the list, so the pass
ends.
-/

namespace RedisCluster.Ae

theorem Clock.le_trans {a b c : Clock} (hab : a ≤ b) (hbc : b ≤ c) : a ≤ c := by
  have hab' : a.sec < b.sec ∨ (a.sec = b.sec ∧ a.ms ≤ b.ms) := hab
  have hbc' : b.sec < c.sec ∨ (b.sec = c.sec ∧ b.ms ≤ c.ms) := hbc
  show a.sec < c.sec ∨ (a.sec = c.sec ∧ a.ms ≤ c.ms)
  omega

theorem Clock.le_refl (a : Clock) : a ≤ a := .inr ⟨rfl, Int.le_refl _⟩

theorem TimeEvent.due_iff (now : Clock) (te : TimeEvent) :
    te.due now = true ↔ (⟨te.when_sec, te.when_ms⟩ : Clock) ≤ now := by
  show _ ↔ te.when_sec < now.sec ∨ (te.when_sec = now.sec ∧ te.when_ms ≤ now.ms)
  simp only [TimeEvent.due, Bool.or_eq_true, Bool.and_eq_true, decide_eq_true_eq]
  omega

theorem TimeEvent.due_mono {a b : Clock} (hab : a ≤ b) {te : TimeEvent} (h : te.due a = true) :
    te.due b = true :=
  (te.due_iff b).mpr (Clock.le_trans ((te.due_iff a).mp h) hab)

theorem le_lastReading {now : Clock} {calls : List LoopCall} (h : ReadingsOk now calls) :
    now ≤ lastReading now calls := by
  induction calls generalizing now with
  | nil => exact now.le_refl
  | cons call calls ih =>
    cases call with
    | create cur _ => exact Clock.le_trans h.1 (ih h.2)
    | delete _ => exact ih h

/-- From `el` to `el'` events were created, and those with an id in `gone` may have been deleted. -/
structure Edits (el el' : EventLoop) (gone : List Int) : Prop where
  ok : LoopOk el'
  next : el.timeEventNextId ≤ el'.timeEventNextId
  old : ∀ te ∈ el'.timeEvents, te.id < el.timeEventNextId → te ∈ el.timeEvents
  keeps : ∀ te ∈ el.timeEvents, te.id ∉ gone → te ∈ el'.timeEvents

namespace Edits

theorem refl {el : EventLoop} (h : LoopOk el) : Edits el el [] :=
  ⟨h, Int.le_refl _, fun _ hte _ => hte, fun _ hte _ => hte⟩

theorem trans {el el' el'' : EventLoop} {ids ids' : List Int} (h : Edits el el' ids)
    (h' : Edits el' el'' ids') : Edits el el'' (ids ++ ids') where
  ok := h'.ok
  next := Int.le_trans h.next h'.next
  old te hte hlt := h.old te (h'.old te hte (Int.lt_of_lt_of_le hlt h.next)) hlt
  keeps te hte hnot := by
    simp only [List.mem_append, not_or] at hnot
    exact h'.keeps te (h.keeps te hte hnot.1) hnot.2

theorem create {el : EventLoop} (h : LoopOk el) (cur : Clock) (milliseconds : Int) :
    Edits el (aeCreateTimeEvent cur milliseconds el) [] where
  ok := by
    refine ⟨List.nodup_cons.mpr ⟨fun hmem => ?_, h.nodup⟩, fun te hte => ?_⟩
    · obtain ⟨te, hte, hid⟩ := List.mem_map.mp hmem
      have hlt := h.lt te hte
      rw [hid] at hlt
      exact Int.lt_irrefl _ hlt
    · show te.id < el.timeEventNextId + 1
      rcases List.mem_cons.mp hte with rfl | hte
      · exact Int.lt_succ _
      · have hlt := h.lt te hte
        omega
  next := Int.le_of_lt (Int.lt_succ _)
  old te hte hlt := by
    rcases List.mem_cons.mp hte with rfl | hte
    · exact absurd hlt (Int.lt_irrefl _)
    · exact hte
  keeps te hte _ := List.mem_cons_of_mem _ hte

theorem delete {el : EventLoop} (h : LoopOk el) (id : Int) :
    Edits el (aeDeleteTimeEvent id el) [id] where
  ok := ⟨h.nodup.sublist (List.eraseP_sublist.map _), fun te hte => h.lt te (List.mem_of_mem_eraseP hte)⟩
  next := Int.le_refl _
  old _ hte _ := List.mem_of_mem_eraseP hte
  keeps te hte hnot := by
    have hne : te.id ≠ id := by simpa using hnot
    exact (List.mem_eraseP_of_neg (by simpa using hne)).mpr hte

theorem calls {el : EventLoop} (h : LoopOk el) (cb : Callback) :
    Edits el (cb.calls.foldl LoopCall.perform el) cb.deletes := by
  obtain ⟨calls, _, _⟩ := cb
  unfold Callback.deletes
  dsimp only
  induction calls generalizing el with
  | nil => exact refl h
  | cons call calls ih =>
    cases call with
    | create cur milliseconds =>
      have hone := create h cur milliseconds
      exact hone.trans (ih hone.ok)
    | delete id =>
      have hone := delete h id
      exact hone.trans (ih hone.ok)

end Edits

theorem EventLoop.live_iff (el : EventLoop) (id : Int) :
    el.live id = true ↔ id ∈ el.timeEvents.map TimeEvent.id := by
  simp [EventLoop.live]

theorem map_id_setWhen (id : Int) (when : Clock) (el : EventLoop) :
    (setWhen id when el).timeEvents.map TimeEvent.id = el.timeEvents.map TimeEvent.id := by
  simp only [setWhen, List.map_map]
  refine List.map_congr_left fun te _ => ?_
  simp only [Function.comp_apply]
  split <;> rfl

theorem LoopOk.setWhen {el : EventLoop} (h : LoopOk el) (id : Int) (when : Clock) :
    LoopOk (setWhen id when el) := by
  refine ⟨by rw [map_id_setWhen]; exact h.nodup, fun te hte => ?_⟩
  have hid : te.id ∈ el.timeEvents.map TimeEvent.id := by
    rw [← map_id_setWhen id when]
    exact List.mem_map_of_mem hte
  obtain ⟨te', hte', hid'⟩ := List.mem_map.mp hid
  rw [← hid']
  exact h.lt te' hte'

structure PassInv (now : Clock) (el : EventLoop) (s : Pass) : Prop where
  ok : LoopOk s.el
  suffix : s.te <:+ s.el.timeEvents
  le_maxId : ∀ id ∈ el.timeEvents.map TimeEvent.id, id ≤ s.maxId
  next : s.maxId < s.el.timeEventNextId
  clock : now ≤ s.clock
  /-- An event with an id up to `maxId` was there when the pass began. -/
  old : ∀ te ∈ s.el.timeEvents, te.id ≤ s.maxId → te.id ∈ el.timeEvents.map TimeEvent.id
  called : ∀ id ∈ s.called, id ∈ el.timeEvents.map TimeEvent.id
  nodup : s.called.Nodup
  /-- An event that was due has had its turn or is still ahead. -/
  turn : ∀ te ∈ (processStart now el).te, te.due now = true →
    te.id ∈ s.called ∨ te.id ∈ s.deleted ∨ te ∈ s.te
  safe : s.safe = true

theorem map_id_processStart (now : Clock) (el : EventLoop) :
    (processStart now el).el.timeEvents.map TimeEvent.id = el.timeEvents.map TimeEvent.id := by
  unfold processStart forceAll
  dsimp only
  split
  · rw [List.map_map]
    rfl
  · rfl

theorem passInv_start {el : EventLoop} (h : LoopOk el) (now : Clock) :
    PassInv now el (processStart now el) where
  ok := by
    refine ⟨by rw [map_id_processStart]; exact h.nodup, fun te hte => ?_⟩
    have hid := List.mem_map_of_mem (f := TimeEvent.id) hte
    rw [map_id_processStart] at hid
    obtain ⟨te', hte', hid'⟩ := List.mem_map.mp hid
    rw [← hid']
    exact h.lt te' hte'
  suffix := List.suffix_rfl
  le_maxId id hid := by
    obtain ⟨te, hte, rfl⟩ := List.mem_map.mp hid
    exact Int.le_sub_one_of_lt (h.lt te hte)
  next := Int.sub_lt_self _ Int.one_pos
  clock := now.le_refl
  old te hte _ := by
    rw [← map_id_processStart now]
    exact List.mem_map_of_mem hte
  called _ hid := absurd hid List.not_mem_nil
  nodup := List.nodup_nil
  turn _ hte _ := .inr (.inr hte)
  safe := rfl

section
variable {now : Clock} {el : EventLoop} {s : Pass} {a : Clock × Callback} {te : TimeEvent}
  {rest : List TimeEvent}

theorem PassInv.live (h : PassInv now el s) (hte : s.te = te :: rest) :
    te ∈ s.el.timeEvents ∧ s.el.live te.id = true := by
  have hmem : te ∈ s.el.timeEvents := h.suffix.subset (hte ▸ List.mem_cons_self)
  exact ⟨hmem, (s.el.live_iff _).mpr (List.mem_map_of_mem hmem)⟩

theorem PassInv.skip (h : PassInv now el s) (hte : s.te = te :: rest) {c : Clock} (hc : now ≤ c)
    (hskip : te.id > s.maxId ∨ ¬ te.due now = true) :
    PassInv now el { s with safe := s.safe && s.el.live te.id, te := rest, clock := c } where
  ok := h.ok
  suffix := (hte ▸ List.suffix_cons te rest : rest <:+ s.te).trans h.suffix
  le_maxId := h.le_maxId
  next := h.next
  clock := hc
  old := h.old
  called := h.called
  nodup := h.nodup
  turn te' hte' hdue := by
    refine (h.turn te' hte' hdue).imp_right fun hturn => hturn.imp_right fun hmem => ?_
    rw [hte] at hmem
    refine (List.mem_cons.mp hmem).resolve_left ?_
    rintro rfl
    have hle : te'.id ≤ s.maxId := by
      refine h.le_maxId _ ?_
      rw [← map_id_processStart now]
      exact List.mem_map_of_mem hte'
    exact hskip.elim (fun hgt => absurd hgt (Int.not_lt.mpr hle)) fun hnot => hnot hdue
  safe := by simp [h.safe, (h.live hte).2]

/-- Both ways of going on keep the ids, and the events but `te`. -/
theorem callEvent_el (te : TimeEvent) (cb : Callback) {s : Pass} {el1 : EventLoop}
    (hel1 : cb.calls.foldl LoopCall.perform s.el = el1) (h : LoopOk el1) :
    LoopOk (callEvent te cb s).el ∧ (callEvent te cb s).el.timeEventNextId = el1.timeEventNextId ∧
      (∀ te' ∈ (callEvent te cb s).el.timeEvents, te'.id ∈ el1.timeEvents.map TimeEvent.id) ∧
      ∀ te' ∈ el1.timeEvents, te'.id ≠ te.id → te' ∈ (callEvent te cb s).el.timeEvents := by
  by_cases hagain : cb.retval = AE_NOMORE
  · have hdel := Edits.delete h te.id
    simp only [callEvent, hagain, hel1, ne_eq, not_true_eq_false, if_false]
    exact ⟨hdel.ok, rfl, fun te' hte' => List.mem_map_of_mem (List.mem_of_mem_eraseP hte'),
      fun te' hte' hne => hdel.keeps te' hte' (by simpa using hne)⟩
  · simp only [callEvent, hagain, hel1, ne_eq, not_false_eq_true, if_true]
    refine ⟨h.setWhen _ _, rfl, fun te' hte' => ?_, fun te' hte' hne => ?_⟩
    · rw [← map_id_setWhen te.id (aeAddMillisecondsToNow cb.after cb.retval)]
      exact List.mem_map_of_mem hte'
    · exact List.mem_map.mpr ⟨te', hte', if_neg hne⟩

theorem PassInv.call (h : PassInv now el s) (hte : s.te = te :: rest) (hle : te.id ≤ s.maxId)
    (hnew : te.id ∉ s.called) {cb : Callback} (hcb : cb.retval = AE_NOMORE ∨ te.id ∉ cb.deletes)
    {c : Clock} (hc : now ≤ c) (hafter : cb.retval = AE_NOMORE ∨ now ≤ cb.after) :
    PassInv now el (callEvent te cb { s with safe := s.safe && s.el.live te.id, clock := c }) := by
  have hcalls := Edits.calls h.ok cb
  obtain ⟨hmem, hlive⟩ := h.live hte
  set el1 := cb.calls.foldl LoopCall.perform s.el with hel1
  obtain ⟨hok, hnext, hids, hkeep⟩ := callEvent_el te cb
    (s := { s with safe := s.safe && s.el.live te.id, clock := c }) hel1.symm hcalls.ok
  have hsafe : (decide (cb.retval = AE_NOMORE) || el1.live te.id) = true := by
    rcases hcb with hno | hnot
    · simp [hno]
    · have hkept := hcalls.keeps te hmem hnot
      rw [(el1.live_iff _).mpr (List.mem_map_of_mem hkept), Bool.or_true]
  have hold : te.id ∈ el.timeEvents.map TimeEvent.id := h.old te hmem hle
  refine ⟨hok, List.suffix_rfl, h.le_maxId, ?_, ?_, ?_, ?_, ?_, ?_, ?_⟩
  · rw [hnext]
    exact Int.lt_of_lt_of_le h.next hcalls.next
  · show now ≤ if cb.retval ≠ AE_NOMORE then cb.after else c
    split
    · exact hafter.resolve_left ‹_›
    · exact hc
  · intro te' hte' hle'
    obtain ⟨te1, hte1, hid⟩ := List.mem_map.mp (hids te' hte')
    have hmem1 := hcalls.old te1 hte1 (hid ▸ Int.lt_of_le_of_lt hle' h.next)
    rw [← hid] at hle' ⊢
    exact h.old te1 hmem1 hle'
  · intro id hid
    rcases List.mem_append.mp hid with hid | hid
    · exact h.called id hid
    · rwa [List.mem_singleton.mp hid]
  · exact List.nodup_append.mpr ⟨h.nodup, List.nodup_singleton _, fun id hid id' hid' heq =>
      hnew (by rwa [← List.mem_singleton.mp hid', ← heq])⟩
  · intro te' hte' hdue
    show te'.id ∈ s.called ++ [te.id] ∨ te'.id ∈ s.deleted ++ cb.deletes ∨
      te' ∈ (callEvent te cb { s with safe := s.safe && s.el.live te.id, clock := c }).el.timeEvents
    rw [List.mem_append, List.mem_append, List.mem_singleton]
    by_cases hid : te'.id = te.id
    · exact .inl (.inr hid)
    rcases h.turn te' hte' hdue with hcalled | hdel | hahead
    · exact .inl (.inl hcalled)
    · exact .inr (.inl (.inl hdel))
    · by_cases hgone : te'.id ∈ cb.deletes
      · exact .inr (.inl (.inr hgone))
      · exact .inr (.inr (hkeep te' (hcalls.keeps te' (h.suffix.subset hahead) hgone) hid))
  · show (s.safe && s.el.live te.id && (decide (cb.retval = AE_NOMORE) || el1.live te.id)) = true
    rw [h.safe, hlive, hsafe]
    rfl

end

theorem passInv_step {now : Clock} {el : EventLoop} {s : Pass} {a : Clock × Callback}
    (h : PassInv now el s) (hallowed : Allowed s a) (hharmless : Harmless s a) :
    PassInv now el (passStep s a) ∧
      (s.te ≠ [] → (passStep s a).called.length = s.called.length + 1 ∨
        ((passStep s a).called = s.called ∧ (passStep s a).te.length < s.te.length)) := by
  cases hte : s.te with
  | nil =>
    have hsame : passStep s a = s := by simp only [passStep, hte]
    rw [hsame]
    exact ⟨h, fun hne => absurd rfl hne⟩
  | cons te rest =>
    have hhead : te ∈ s.te.head? := by simp [hte]
    simp only [passStep, hte]
    by_cases hgt : te.id > s.maxId
    · rw [if_pos hgt]
      exact ⟨h.skip hte h.clock (.inl hgt), fun _ => .inr ⟨rfl, by simp⟩⟩
    have hle : te.id ≤ s.maxId := Int.not_lt.mp hgt
    obtain ⟨hclock, hcall⟩ := hallowed te hhead hle
    have hnow : now ≤ a.1 := Clock.le_trans h.clock hclock
    rw [if_neg hgt]
    by_cases hdue : te.due a.1 = true
    · obtain ⟨hnew, hcb⟩ := hharmless te hhead hle hdue
      obtain ⟨hreadings, hret⟩ := hcall hdue
      have hlast : now ≤ lastReading a.1 a.2.calls := Clock.le_trans hnow (le_lastReading hreadings)
      rw [if_pos hdue]
      refine ⟨h.call hte hle hnew hcb hlast (hret.imp_right fun hpos => Clock.le_trans hlast hpos.2),
        fun _ => .inl ?_⟩
      simp [callEvent]
    · rw [if_neg hdue]
      exact ⟨h.skip hte hnow (.inr fun hd => hdue (TimeEvent.due_mono hnow hd)),
        fun _ => .inr ⟨rfl, by simp⟩⟩

section
variable {now : Clock} {el : EventLoop} {inputs : Nat → Clock × Callback}

theorem passInv_passAt (h : LoopOk el) (hallowed : ∀ n, Allowed (passAt now el inputs n) (inputs n))
    (hharmless : ∀ n, Harmless (passAt now el inputs n) (inputs n)) (n : Nat) :
    PassInv now el (passAt now el inputs n) := by
  induction n with
  | zero => exact passInv_start h now
  | succ n ih => exact (passInv_step ih (hallowed n) (hharmless n)).1

theorem PassInv.called_le {s : Pass} (h : PassInv now el s) :
    s.called.length ≤ el.timeEvents.length := by
  have hsub := (List.subperm_of_subset h.nodup h.called).length_le
  rwa [List.length_map] at hsub

theorem pass_ends (h : LoopOk el) (hallowed : ∀ n, Allowed (passAt now el inputs n) (inputs n))
    (hharmless : ∀ n, Harmless (passAt now el inputs n) (inputs n)) :
    ∃ n, (passAt now el inputs n).te = [] := by
  have hinv := passInv_passAt h hallowed hharmless
  suffices hsuff : ∀ k l n, el.timeEvents.length - (passAt now el inputs n).called.length = k →
      (passAt now el inputs n).te.length = l → ∃ m, (passAt now el inputs m).te = [] from
    hsuff _ _ 0 rfl rfl
  intro k
  induction k using Nat.strongRecOn with
  | _ k ihk =>
    intro l
    induction l using Nat.strongRecOn with
    | _ l ihl =>
      intro n hk hl
      by_cases hend : (passAt now el inputs n).te = []
      · exact ⟨n, hend⟩
      have hnext := (hinv (n + 1)).called_le
      rcases (passInv_step (hinv n) (hallowed n) (hharmless n)).2 hend with hcalled | ⟨hsame, hless⟩
      · change (passAt now el inputs (n + 1)).called.length = _ at hcalled
        exact ihk _ (by omega) _ (n + 1) rfl rfl
      · change (passAt now el inputs (n + 1)).called = _ at hsame
        exact ihl _ (hl ▸ hless) (n + 1) (by rw [hsame, hk]) rfl

end

theorem passAt_ended {now : Clock} {el : EventLoop} {inputs : Nat → Clock × Callback} {n : Nat}
    (h : (passAt now el inputs n).te = []) (k : Nat) :
    passAt now el inputs (n + k) = passAt now el inputs n := by
  induction k with
  | zero => rfl
  | succ k ih => rw [← Nat.add_assoc, passAt, ih, passStep, h]

def oneEvent : EventLoop := ⟨[⟨0, 0, 0⟩], 1, 0⟩

def everySecond (_ : Nat) : Clock × Callback := (⟨1, 0⟩, ⟨[.create ⟨1, 0⟩ 5], 1000, ⟨1, 0⟩⟩)

def selfDelete (_ : Nat) : Clock × Callback := (⟨1, 0⟩, ⟨[.delete 0], 1, ⟨1, 0⟩⟩)

def shortPeriod (n : Nat) : Clock × Callback := (⟨n + 1, 0⟩, ⟨[], 1, ⟨n + 1, 0⟩⟩)

theorem passAt_shortPeriod (n : Nat) :
    passAt ⟨1, 0⟩ oneEvent shortPeriod (n + 1) =
      { el := ⟨[⟨0, n + 1, 1⟩], 1, 1⟩, te := [⟨0, n + 1, 1⟩], maxId := 0, clock := ⟨n + 1, 0⟩
        called := List.replicate (n + 1) 0, deleted := [], safe := true } := by
  induction n with
  | zero => decide
  | succ n ih =>
    have hdue : TimeEvent.due ⟨(n : Int) + 1 + 1, 0⟩ ⟨0, n + 1, 1⟩ = true :=
      (TimeEvent.due_iff _ _).mpr (.inl (Int.lt_succ _))
    rw [passAt, ih]
    simp [passStep, shortPeriod, hdue, callEvent, EventLoop.live, setWhen, aeAddMillisecondsToNow,
      Callback.deletes, AE_NOMORE, List.replicate_succ' (n := n + 1)]

end RedisCluster.Ae
