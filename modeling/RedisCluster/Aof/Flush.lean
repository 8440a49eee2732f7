import RedisCluster.Lib.Run
import RedisCluster.Util.Sds

/-!
# `aof.c`: writing `aof_buf` to the file

`flushAppendOnlyFile` with every result of `write` and `ftruncate`. A `long long` or an `off_t` is an
integer. `lastWrite` is history: what the last `write` returned and how many bytes it was given.
-/

namespace RedisCluster.Aof.Flush

open RedisCluster.Lib RedisCluster.Util

/-- `AOF_FSYNC_*`. -/
inductive AofFsync where
  | no
  | always
  | everysec
  deriving DecidableEq, Repr

structure Server where
  /-- What `aof_fd` is open on. -/
  file : Bytes
  aof_current_size : Int
  aof_buf : Bytes
  /-- True for `REDIS_OK`. -/
  aof_last_write_status : Bool
  aof_fsync : AofFsync
  aof_no_fsync_on_rewrite : Bool
  aof_flush_postponed_start : Int
  aof_delayed_fsync : Nat
  aof_last_fsync : Int
  /-- The server has called `exit`. -/
  exited : Bool
  lastWrite : Option (Int × Nat)
  deriving DecidableEq, Repr

/-- A call of `flushAppendOnlyFile`, with what the system answers in it. -/
structure Call where
  force : Bool
  /-- `bioPendingJobsOfType(REDIS_BIO_AOF_FSYNC) != 0`. -/
  pending : Bool
  unixtime : Int
  /-- A child saves the dataset or rewrites the file. -/
  child : Bool
  /-- The most bytes that `write` takes; `none` for an error. -/
  room : Option Nat
  /-- `ftruncate` succeeds. -/
  truncates : Bool
  deriving DecidableEq, Repr

def Call.nwritten (call : Call) (buf : Bytes) : Int := call.room.elim (-1) fun n => (min n buf.length : Nat)

/-- `feedAppendOnlyFile`, with the text of the command. -/
def feedAppendOnlyFile (s : Server) (buf : Bytes) : Server := { s with aof_buf := sdscatlen s.aof_buf buf }

/-- The part before the `write`; true to return at once. -/
def postpone (s : Server) (call : Call) : Bool × Server :=
  if s.aof_fsync = .everysec ∧ call.force = false ∧ call.pending = true then
    if s.aof_flush_postponed_start = 0 then (true, { s with aof_flush_postponed_start := call.unixtime })
    else if call.unixtime - s.aof_flush_postponed_start < 2 then (true, s)
    else (false, { s with aof_delayed_fsync := s.aof_delayed_fsync + 1 })
  else (false, s)

/-- The arm of a `write` that did not return the length. -/
def writeFailed (s : Server) (call : Call) (nwritten : Int) : Server :=
  let r : Int × Server :=
    if nwritten = -1 then (nwritten, s)
    else if call.truncates then (-1, { s with file := s.file.take s.aof_current_size.toNat })
    else (nwritten, s)
  let nwritten := r.1
  let s := r.2
  if s.aof_fsync = .always then { s with exited := true }
  else
    let s := { s with aof_last_write_status := false }
    if nwritten > 0 then
      { s with
        aof_current_size := s.aof_current_size + nwritten
        aof_buf := sdsrange s.aof_buf (narrowInt nwritten) (-1) }
    else s

def writeDone (s : Server) (call : Call) (nwritten : Int) : Server :=
  let s := { s with
    aof_last_write_status := true
    aof_current_size := s.aof_current_size + nwritten
    aof_buf := [] }
  if s.aof_no_fsync_on_rewrite ∧ call.child then s
  else if s.aof_fsync = .always ∨ s.aof_fsync = .everysec ∧ call.unixtime > s.aof_last_fsync then
    { s with aof_last_fsync := call.unixtime }
  else s

def writeBuffer (s : Server) (call : Call) : Server :=
  let nwritten := call.nwritten s.aof_buf
  let s := { s with
    aof_flush_postponed_start := 0
    file := s.file ++ s.aof_buf.take nwritten.toNat
    lastWrite := some (nwritten, s.aof_buf.length) }
  if nwritten ≠ narrowInt s.aof_buf.length then writeFailed s call nwritten else writeDone s call nwritten

def flushAppendOnlyFile (s : Server) (call : Call) : Server :=
  if s.aof_buf.length = 0 then s
  else if (postpone s call).1 then (postpone s call).2
  else writeBuffer (postpone s call).2 call

inductive Event where
  | feed (buf : Bytes)
  | flush (call : Call)
  deriving DecidableEq, Repr

def step (s : Server) (e : Event) : Server :=
  if s.exited then s
  else
    match e with
    | .feed buf => feedAppendOnlyFile s buf
    | .flush call => flushAppendOnlyFile s call

/-! ## Accounts -/

/-- A server that has not written yet, with a policy that survives errors. -/
structure Started (s : Server) : Prop where
  policy : s.aof_fsync ≠ .always
  running : s.exited = false
  size : s.aof_current_size = s.file.length
  buf : s.aof_buf.length < 2 ^ 32
  status : s.aof_last_write_status = true
  lastWrite : s.lastWrite = none

/-- The last `write`, if there was one, took all that it was given. -/
def LastComplete (s : Server) : Prop := ∀ w ∈ s.lastWrite, w.1 = w.2

/-- What a flush owes: no byte is lost or doubled, the size follows the file, and the status tells of
the last `write`. -/
structure Accounted (s s' : Server) : Prop where
  stream : s'.file ++ s'.aof_buf = s.file ++ s.aof_buf
  size : s'.aof_current_size - s.aof_current_size = (s'.file.length : Int) - s.file.length
  status : s'.aof_last_write_status = true ↔ LastComplete s'

/-- The event, if it is a flush, is accounted for. -/
def AccountedEvent (s : Server) (e : Event) : Prop := ∀ call, e = .flush call → Accounted s (step s e)

/-- The flush goes right although the buffer may be longer than an `int` says: nothing was written, or
the part that was is cut off again. -/
def Harmless (s : Server) (call : Call) : Prop :=
  call.nwritten s.aof_buf = 0 ∨
    call.nwritten s.aof_buf = -1 ∧ s.aof_buf.length ≠ 2 ^ 32 - 1 ∨
    call.nwritten s.aof_buf < s.aof_buf.length ∧ 0 < call.nwritten s.aof_buf ∧ call.truncates = true

/-- The buffer is shorter than 2^31 bytes, the flush is postponed, or it is harmless. -/
def FlushFits (s : Server) (e : Event) : Prop :=
  ∀ call, e = .flush call → s.aof_buf.length < 2 ^ 31 ∨ (postpone s call).1 = true ∨ Harmless s call

end RedisCluster.Aof.Flush
