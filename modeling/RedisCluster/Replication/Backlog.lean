import RedisCluster.Aof.Format
import RedisCluster.Lib.Ring
import RedisCluster.Multi.Command

/-!
# `replication.c`: the replication backlog

The ring of the last bytes of the replication stream, as `server.repl_backlog` and its index, length and
offset, with the calls that create, resize, free and feed it, and the reply to a slave that goes on from an
offset. `Stream` is the replication stream itself: the bytes that were ever fed, with their offsets.
-/

namespace RedisCluster.Replication.Backlog

open RedisCluster.Lib
open RedisCluster.Util

structure Server where
  /-- The block, or NULL. -/
  repl_backlog : Option Bytes
  repl_backlog_size : Nat
  repl_backlog_histlen : Nat
  repl_backlog_idx : Nat
  repl_backlog_off : Int
  master_repl_offset : Int
  runid : Bytes
  /-- `listLength(server.slaves)`. -/
  slaves : Nat
  deriving DecidableEq, Repr

def REDIS_DEFAULT_REPL_BACKLOG_SIZE : Nat := 1024 * 1024
def REDIS_REPL_BACKLOG_MIN_SIZE : Int := 1024 * 16

/-- The replication part of `initServerConfig`. -/
def initServerConfig (runid : Bytes) : Server :=
  { repl_backlog := none
    repl_backlog_size := REDIS_DEFAULT_REPL_BACKLOG_SIZE
    repl_backlog_histlen := 0
    repl_backlog_idx := 0
    repl_backlog_off := 0
    master_repl_offset := 0
    runid := runid
    slaves := 0 }

/-- A block of memory, with what happens to stand in it. -/
def zmalloc (memory : Nat → UInt8) (size : Nat) : Bytes := (List.range size).map memory

def createReplicationBacklog (s : Server) (memory : Nat → UInt8) : Option Server :=
  -- redisAssert(server.repl_backlog == NULL)
  if s.repl_backlog.isSome then none
  else some { s with
    repl_backlog := some (zmalloc memory s.repl_backlog_size)
    repl_backlog_histlen := 0
    repl_backlog_idx := 0
    master_repl_offset := s.master_repl_offset + 1
    repl_backlog_off := s.master_repl_offset + 1 + 1 }

def resizeReplicationBacklog (s : Server) (newsize : Int) (memory : Nat → UInt8) : Server :=
  let newsize := (if newsize < REDIS_REPL_BACKLOG_MIN_SIZE then REDIS_REPL_BACKLOG_MIN_SIZE else newsize).toNat
  if s.repl_backlog_size = newsize then s
  else if s.repl_backlog.isSome then
    { s with
      repl_backlog_size := newsize
      repl_backlog := some (zmalloc memory newsize)
      repl_backlog_histlen := 0
      repl_backlog_idx := 0
      repl_backlog_off := s.master_repl_offset + 1 }
  else { s with repl_backlog_size := newsize }

def freeReplicationBacklog (s : Server) : Option Server :=
  -- redisAssert(listLength(server.slaves) == 0)
  if s.slaves ≠ 0 then none else some { s with repl_backlog := none }

/-- One turn of the loop, with the first `thislen` bytes. -/
def copyIn (s : Server) (backlog p : Bytes) (thislen : Nat) : Server :=
  { s with
    repl_backlog := some (overwriteAt backlog s.repl_backlog_idx (p.take thislen))
    repl_backlog_idx :=
      if s.repl_backlog_idx + thislen = s.repl_backlog_size then 0 else s.repl_backlog_idx + thislen
    repl_backlog_histlen := s.repl_backlog_histlen + thislen }

/-- The loop; `none` if it writes to NULL or never ends. -/
def feedLoop (s : Server) (p : Bytes) : Option Server :=
  if p = [] then some s
  else
    match s.repl_backlog with
    | none => none
    | some backlog =>
      let thislen := min (s.repl_backlog_size - s.repl_backlog_idx) p.length
      if thislen = 0 then none else feedLoop (copyIn s backlog p thislen) (p.drop thislen)
termination_by p.length
decreasing_by
  rw [List.length_drop]
  omega

def feedReplicationBacklog (s : Server) (p : Bytes) : Option Server :=
  (feedLoop { s with master_repl_offset := s.master_repl_offset + p.length } p).map fun s =>
    let histlen := min s.repl_backlog_histlen s.repl_backlog_size
    { s with
      repl_backlog_histlen := histlen
      repl_backlog_off := s.master_repl_offset - histlen + 1 }

/-! ## The reply to a slave -/

/-- The loop of `addReplyReplicationBacklog`, with what it adds to the output buffer; `none` if it reads
outside of the block or never ends. -/
def replyLoop (backlog : Bytes) (size : Nat) (j len : Int) : Option Bytes :=
  if len = 0 then some []
  else
    let thislen := min (size - j) len
    if 0 ≤ j ∧ 0 < thislen ∧ j + thislen ≤ backlog.length then
      (replyLoop backlog size 0 (len - thislen)).map ((backlog.drop j.toNat).take thislen.toNat ++ ·)
    else none
termination_by len.toNat
decreasing_by omega

/-- The bytes that are added, and the result. -/
def addReplyReplicationBacklog (s : Server) (offset : Int) : Option (Bytes × Int) :=
  if s.repl_backlog_histlen = 0 then some ([], 0)
  else
    let skip := offset - s.repl_backlog_off
    let j := (s.repl_backlog_idx + (s.repl_backlog_size - s.repl_backlog_histlen : Int)).tmod s.repl_backlog_size
    let j := (j + skip).tmod s.repl_backlog_size
    let len := s.repl_backlog_histlen - skip
    s.repl_backlog.bind fun backlog =>
      (replyLoop backlog s.repl_backlog_size j len).map fun reply => (reply, len)

/-- What became of a PSYNC. -/
inductive Psync where
  /-- A full resynchronization; the text written to the slave. -/
  | fullResync (reply : Bytes)
  /-- The text could not be written, and the client will be freed. -/
  | freed
  /-- The slave goes on from its offset. -/
  | continued (s : Server) (reply : Bytes) (psync_len : Int)
  deriving DecidableEq, Repr

/-- The condition under which the backlog serves an offset. -/
def served (s : Server) (psync_offset : Int) : Bool :=
  s.repl_backlog.isSome ∧ s.repl_backlog_off ≤ psync_offset ∧
    psync_offset ≤ s.repl_backlog_off + s.repl_backlog_histlen

/-- The label `need_full_resync`, after a reply that was added before. -/
def needFullResync (s : Server) (added : Bytes) (writes : Bool) : Psync :=
  let psync_offset := if s.repl_backlog.isNone then s.master_repl_offset + 1 else s.master_repl_offset
  if writes then
    .fullResync (added ++ ascii "+FULLRESYNC " ++ s.runid ++ ascii " " ++ ll2string psync_offset ++ ascii "\r\n")
  else .freed

/-- `writes` is whether the text for the socket could be written. `none` stands for a reply loop that leaves
the block. -/
def masterTryPartialResynchronization (s : Server) (master_runid offset : Bytes) (writes : Bool) : Option Psync :=
  if Multi.sameCaseless master_runid s.runid then
    match Aof.getLongLongFromObject offset with
    | none => some (needFullResync s (ascii "-ERR value is not an integer or out of range\r\n") writes)
    | some psync_offset =>
      if served s psync_offset then
        if writes then
          (addReplyReplicationBacklog s psync_offset).map fun r =>
            .continued { s with slaves := s.slaves + 1 } r.1 r.2
        else some .freed
      else some (needFullResync s [] writes)
  else some (needFullResync s [] writes)

/-! ## Sequences of calls -/

inductive Call where
  | create (memory : Nat → UInt8)
  | resize (newsize : Int) (memory : Nat → UInt8)
  | free
  | feed (p : Bytes)
  /-- Slaves come and go. -/
  | slaves (n : Nat)

def perform (s : Server) : Call → Option Server
  | .create memory => createReplicationBacklog s memory
  | .resize newsize memory => some (resizeReplicationBacklog s newsize memory)
  | .free => freeReplicationBacklog s
  | .feed p => feedReplicationBacklog s p
  | .slaves n => some { s with slaves := n }

/-- The assertions of the calls, and that nothing is fed to no backlog. -/
def Permitted (s : Server) : Call → Prop
  | .create _ => s.repl_backlog = none
  | .free => s.slaves = 0
  | .feed p => p = [] ∨ s.repl_backlog ≠ none
  | _ => True

def performs (s : Server) (calls : List Call) : Option Server := calls.foldlM perform s

/-! ## The stream -/

/-- The bytes that were ever fed, with their offsets. -/
structure Stream where
  fed : List (Int × UInt8)
  /-- The offset of the last byte. A new backlog skips one. -/
  offset : Int
  size : Nat
  /-- The offset from which on the present backlog was fed; `none` if there is none. -/
  first : Option Int

/-- Bytes with the offsets from `offset` on. -/
def numbered (offset : Int) : Bytes → List (Int × UInt8)
  | [] => []
  | b :: bs => (offset, b) :: numbered (offset + 1) bs

namespace Stream

def init : Stream := { fed := [], offset := 0, size := REDIS_DEFAULT_REPL_BACKLOG_SIZE, first := none }

/-- The bytes of the stream from an offset to the end. -/
def since (t : Stream) (offset : Int) : Bytes := (t.fed.filter fun b => offset ≤ b.1).map Prod.snd

def step (t : Stream) : Call → Stream
  | .create _ => { t with offset := t.offset + 1, first := some (t.offset + 1 + 1) }
  | .resize newsize _ =>
    let size := (max newsize REDIS_REPL_BACKLOG_MIN_SIZE).toNat
    if t.size = size then t else { t with size := size, first := t.first.map fun _ => t.offset + 1 }
  | .free => { t with first := none }
  | .feed p => { t with fed := t.fed ++ numbered (t.offset + 1) p, offset := t.offset + p.length }
  | .slaves _ => t

end Stream

/-! ## What the backlog is for -/

/-- The bytes that the backlog holds: the last `repl_backlog_histlen` cells before the write index. -/
def contents (s : Server) : Bytes :=
  ((s.repl_backlog.getD []).rotate s.repl_backlog_idx).rtake s.repl_backlog_histlen

/-- The server keeps the end of the stream, and a slave that goes on from an offset gets the stream from there. -/
structure Faithful (s : Server) (t : Stream) : Prop where
  exists_iff : s.repl_backlog.isSome ↔ t.first.isSome
  size_eq : s.repl_backlog_size = t.size
  /-- It holds the last bytes that were fed in its lifetime. -/
  contents_eq : ∀ first ∈ t.first, s.repl_backlog_histlen = min (t.since first).length s.repl_backlog_size ∧
    contents s = (t.since first).rtake s.repl_backlog_histlen
  /-- `repl_backlog_off` is the offset of the first of them. -/
  off_eq : ∀ first ∈ t.first, first ≤ s.repl_backlog_off ∧ contents s = t.since s.repl_backlog_off ∧
    s.repl_backlog_off + s.repl_backlog_histlen = s.master_repl_offset + 1 ∧ s.master_repl_offset = t.offset
  /-- It serves the offsets of its lifetime that are not too old. -/
  served_iff : ∀ offset, served s offset = true ↔
    ∃ first ∈ t.first, first ≤ offset ∧ t.offset + 1 - t.size ≤ offset ∧ offset ≤ t.offset + 1
  /-- PSYNC returns, and a slave that goes on is sent the stream from its offset, all of this lifetime. -/
  continues : ∀ master_runid offset writes, ∃ r,
    masterTryPartialResynchronization s master_runid offset writes = some r ∧
    ∀ s' reply psync_len, r = .continued s' reply psync_len →
      ∃ first ∈ t.first, ∃ psync_offset, Aof.getLongLongFromObject offset = some psync_offset ∧
        served s psync_offset = true ∧ first ≤ psync_offset ∧ reply = t.since psync_offset ∧
        psync_len = (reply.length : Int)

end RedisCluster.Replication.Backlog
