import Mathlib.Data.List.Basic

/-!
# `ae.c`: time events

A pass of `processTimeEvents` goes over the list of time events and calls those that are due. What a
callback does to the list is an input of the pass, and so is every reading of the clock. The
finalizer of an event is left out: every call of `aeCreateTimeEvent` in the source gives none.
-/

namespace RedisCluster.Ae

def AE_NOMORE : Int := -1

/-- What `aeGetTime` reads. -/
structure Clock where
  sec : Int
  ms : Int
  deriving DecidableEq, Repr

instance : LE Clock := ⟨fun a b => a.sec < b.sec ∨ (a.sec = b.sec ∧ a.ms ≤ b.ms)⟩

instance (a b : Clock) : Decidable (a ≤ b) :=
  inferInstanceAs (Decidable (a.sec < b.sec ∨ (a.sec = b.sec ∧ a.ms ≤ b.ms)))

structure TimeEvent where
  id : Int
  when_sec : Int
  when_ms : Int
  deriving DecidableEq, Repr

structure EventLoop where
  /-- The list at `timeEventHead`. -/
  timeEvents : List TimeEvent
  timeEventNextId : Int
  lastTime : Int
  deriving DecidableEq, Repr

def aeAddMillisecondsToNow (cur : Clock) (milliseconds : Int) : Clock :=
  let when_sec := cur.sec + milliseconds.tdiv 1000
  let when_ms := cur.ms + milliseconds.tmod 1000
  if when_ms ≥ 1000 then ⟨when_sec + 1, when_ms - 1000⟩ else ⟨when_sec, when_ms⟩

def aeCreateTimeEvent (cur : Clock) (milliseconds : Int) (el : EventLoop) : EventLoop :=
  let when := aeAddMillisecondsToNow cur milliseconds
  { el with
    timeEvents := ⟨el.timeEventNextId, when.sec, when.ms⟩ :: el.timeEvents
    timeEventNextId := el.timeEventNextId + 1 }

def aeDeleteTimeEvent (id : Int) (el : EventLoop) : EventLoop :=
  { el with timeEvents := el.timeEvents.eraseP fun te => te.id = id }

/-! ## Callbacks -/

/-- A call that a callback makes, with the clock it reads. -/
inductive LoopCall where
  | create (cur : Clock) (milliseconds : Int)
  | delete (id : Int)
  deriving DecidableEq, Repr

def LoopCall.perform (el : EventLoop) : LoopCall → EventLoop
  | .create cur milliseconds => aeCreateTimeEvent cur milliseconds el
  | .delete id => aeDeleteTimeEvent id el

/-- One run of `timeProc`; `after` is the clock that its event's next time is counted from. -/
structure Callback where
  calls : List LoopCall
  retval : Int
  after : Clock
  deriving DecidableEq, Repr

def Callback.deletes (cb : Callback) : List Int :=
  cb.calls.filterMap fun
    | .delete id => some id
    | .create _ _ => none

/-! ## The pass -/

structure Pass where
  el : EventLoop
  /-- `te` and the events behind it. -/
  te : List TimeEvent
  maxId : Int
  /-- The last reading of the clock. -/
  clock : Clock
  /-- The events whose callbacks ran, in this order. -/
  called : List Int
  /-- The ids that callbacks passed to `aeDeleteTimeEvent`. -/
  deleted : List Int
  /-- No event was read or written after it was deleted. -/
  safe : Bool
  deriving DecidableEq, Repr

def EventLoop.live (el : EventLoop) (id : Int) : Bool := el.timeEvents.any fun te => te.id = id

/-- `now_sec > te->when_sec || (now_sec == te->when_sec && now_ms >= te->when_ms)`. -/
def TimeEvent.due (now : Clock) (te : TimeEvent) : Bool :=
  decide (now.sec > te.when_sec) || (decide (now.sec = te.when_sec) && decide (now.ms ≥ te.when_ms))

/-- The events when the system clock was set back. -/
def forceAll (events : List TimeEvent) : List TimeEvent :=
  events.map fun te => { te with when_sec := 0 }

/-- `processTimeEvents` up to its loop; `time(NULL)` is the second of the clock. -/
def processStart (now : Clock) (el : EventLoop) : Pass :=
  let events := if now.sec < el.lastTime then forceAll el.timeEvents else el.timeEvents
  { el := { el with timeEvents := events, lastTime := now.sec }
    te := events, maxId := el.timeEventNextId - 1, clock := now
    called := [], deleted := [], safe := true }

def setWhen (id : Int) (when : Clock) (el : EventLoop) : EventLoop :=
  { el with
    timeEvents := el.timeEvents.map fun te =>
      if te.id = id then { te with when_sec := when.sec, when_ms := when.ms } else te }

/-- What the loop does with an event that is due. -/
def callEvent (te : TimeEvent) (cb : Callback) (s : Pass) : Pass :=
  let el := cb.calls.foldl LoopCall.perform s.el
  let again := cb.retval ≠ AE_NOMORE
  let el' :=
    if again then setWhen te.id (aeAddMillisecondsToNow cb.after cb.retval) el
    else aeDeleteTimeEvent te.id el
  { s with
    el := el'
    te := el'.timeEvents
    clock := if again then cb.after else s.clock
    called := s.called ++ [te.id]
    deleted := s.deleted ++ cb.deletes
    -- `te->when_sec` and `te->when_ms` are written after the callback has run
    safe := s.safe && (decide (cb.retval = AE_NOMORE) || el.live te.id) }

def lastReading : Clock → List LoopCall → Clock
  | now, [] => now
  | _, .create cur _ :: calls => lastReading cur calls
  | now, .delete _ :: calls => lastReading now calls

/-- One iteration of `while(te)`: the clock it reads, and the callback in case that `te` is due. -/
def passStep (s : Pass) (a : Clock × Callback) : Pass :=
  match s.te with
  | [] => s
  | te :: rest =>
    let s := { s with safe := s.safe && s.el.live te.id }
    if te.id > s.maxId then { s with te := rest }
    else if te.due a.1 then callEvent te a.2 { s with clock := lastReading a.1 a.2.calls }
    else { s with te := rest, clock := a.1 }

def passAt (now : Clock) (el : EventLoop) (inputs : Nat → Clock × Callback) : Nat → Pass
  | 0 => processStart now el
  | n + 1 => passStep (passAt now el inputs n) (inputs n)

/-! ## What the clock and the callbacks may do -/

/-- The readings of a callback do not decrease. -/
def ReadingsOk : Clock → List LoopCall → Prop
  | _, [] => True
  | now, .create cur _ :: calls => now ≤ cur ∧ ReadingsOk cur calls
  | now, .delete _ :: calls => ReadingsOk now calls

instance decidableReadingsOk : ∀ now calls, Decidable (ReadingsOk now calls)
  | _, [] => inferInstanceAs (Decidable True)
  | now, .create cur _ :: calls =>
    have := decidableReadingsOk cur calls
    inferInstanceAs (Decidable (now ≤ cur ∧ ReadingsOk cur calls))
  | now, .delete _ :: calls => decidableReadingsOk now calls

/-- The clock does not go back, and a callback returns `AE_NOMORE` or a positive number. -/
def Allowed (s : Pass) (a : Clock × Callback) : Prop :=
  ∀ te ∈ s.te.head?, te.id ≤ s.maxId → s.clock ≤ a.1 ∧
    (te.due a.1 = true → ReadingsOk a.1 a.2.calls ∧ (a.2.retval = AE_NOMORE ∨
      0 < a.2.retval ∧ lastReading a.1 a.2.calls ≤ a.2.after))

instance (s : Pass) (a : Clock × Callback) : Decidable (Allowed s a) :=
  inferInstanceAs (Decidable (∀ te ∈ s.te.head?, _))

/-- The event that is called has not been called in this pass: the time that its callback asked for
is not reached at a later reading. And a callback that asks for a time has not deleted its event. -/
def Harmless (s : Pass) (a : Clock × Callback) : Prop :=
  ∀ te ∈ s.te.head?, te.id ≤ s.maxId → te.due a.1 = true →
    te.id ∉ s.called ∧ (a.2.retval = AE_NOMORE ∨ te.id ∉ a.2.deletes)

instance (s : Pass) (a : Clock × Callback) : Decidable (Harmless s a) :=
  inferInstanceAs (Decidable (∀ te ∈ s.te.head?, _))

/-- The ids are distinct and below the next one. -/
structure LoopOk (el : EventLoop) : Prop where
  nodup : (el.timeEvents.map TimeEvent.id).Nodup
  lt : ∀ te ∈ el.timeEvents, te.id < el.timeEventNextId

/-- What a pass is for: the events that were due when it began have been called once, unless a
callback deleted them before, no other event than those of the beginning was called, and no deleted
event was touched. -/
structure PassMeets (now : Clock) (el : EventLoop) (s : Pass) : Prop where
  ended : s.te = []
  once : ∀ te ∈ (processStart now el).te, te.due now = true →
    s.called.count te.id = 1 ∨ (te.id ∉ s.called ∧ te.id ∈ s.deleted)
  old : ∀ id ∈ s.called, id ∈ el.timeEvents.map TimeEvent.id
  safe : s.safe = true

end RedisCluster.Ae
