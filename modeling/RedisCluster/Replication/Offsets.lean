import RedisCluster.Aof.Format
import RedisCluster.Replication.Sync

/-!
# `replication.c`: the offsets of slaves that attach with PSYNC

A master with its replication stream and the slaves at the other ends of its links. `history` is what
the dataset was made of, as the bytes it is fed as; a snapshot and the dataset of a slave are such bytes
too. Of the ring of `repl_backlog` only the bytes that it holds are kept, oldest first.
-/

namespace RedisCluster.Replication.Offsets

open RedisCluster.Lib
open RedisCluster.Util
open RedisCluster.Aof

/-- A slave server: the offset of its master link, and what its dataset was made of. -/
structure Replica where
  reploff : Nat
  reflected : Bytes
  deriving DecidableEq, Repr

/-- The other end of a link. -/
inductive Peer where
  /-- The slave has closed the link, and the master does not know. -/
  | gone
  /-- It waits for the RDB file. -/
  | waiting
  | loaded (r : Replica)
  deriving DecidableEq, Repr

structure Slave where
  client : Nat
  replstate : ReplState
  /-- The offset of the `+FULLRESYNC` line. -/
  psync_initial_offset : Nat
  /-- What `repldbfd` is open on. -/
  file : Option Bytes
  /-- The output buffer. -/
  reply : Bytes
  peer : Peer
  deriving DecidableEq, Repr

structure Backlog where
  repl_backlog_off : Nat
  /-- The last `repl_backlog_histlen` bytes of the stream. -/
  bytes : Bytes
  deriving DecidableEq, Repr

structure Master where
  history : Bytes
  master_repl_offset : Nat
  repl_backlog : Option Backlog
  repl_backlog_size : Nat
  slaveseldb : Int
  /-- The dataset that the child saves. -/
  rdb_child : Option Bytes
  slaves : List Slave
  /-- Slave servers without a link, with their cached masters. -/
  parked : List Replica
  deriving DecidableEq, Repr

/-! ## The stream -/

def createReplicationBacklog (s : Master) : Master :=
  { s with
    master_repl_offset := s.master_repl_offset + 1
    repl_backlog := some { repl_backlog_off := s.master_repl_offset + 1 + 1, bytes := [] } }

def REDIS_REPL_BACKLOG_MIN_SIZE : Nat := 1024 * 16

def resizeReplicationBacklog (s : Master) (newsize : Nat) : Master :=
  let newsize := max newsize REDIS_REPL_BACKLOG_MIN_SIZE
  if s.repl_backlog_size = newsize then s
  else
    { s with
      repl_backlog_size := newsize
      repl_backlog := s.repl_backlog.map fun _ =>
        { repl_backlog_off := s.master_repl_offset + 1, bytes := [] } }

/-- Of more bytes than the backlog has room for, the last ones are kept. -/
def feedReplicationBacklog (s : Master) (p : Bytes) : Master :=
  match s.repl_backlog with
  | none => s
  | some b =>
    let offset := s.master_repl_offset + p.length
    let histlen := min (b.bytes.length + p.length) s.repl_backlog_size
    { s with
      history := s.history ++ p
      master_repl_offset := offset
      repl_backlog := some {
        repl_backlog_off := offset - histlen + 1
        bytes := (b.bytes ++ p).drop (b.bytes.length + p.length - histlen) } }

def addReply (slave : Slave) (p : Bytes) : Slave := { slave with reply := slave.reply ++ p }

/-- Text for the backlog and for every slave that is not skipped. -/
def feed (s : Master) (p : Bytes) (skips : Slave → Bool) : Master :=
  let s := feedReplicationBacklog s p
  { s with slaves := s.slaves.map fun slave => if skips slave then slave else addReply slave p }

def selectcmd (dictid : Int) : Bytes := commandText [ascii "SELECT", ll2string dictid]

/-- The SELECT goes to all slaves, the command not to those that wait for a BGSAVE to start. With no
backlog and no slave nothing is fed. -/
def replicationFeedSlaves (s : Master) (dictid : Int) (argv : List Bytes) : Master :=
  if s.repl_backlog.isNone ∧ s.slaves.length = 0 then
    { s with history := s.history ++ commandText argv }
  else
    let s := if s.slaveseldb ≠ dictid then feed s (selectcmd dictid) fun _ => false else s
    feed { s with slaveseldb := dictid } (commandText argv) fun slave =>
      slave.replstate == .waitBgsaveStart

/-! ## PSYNC -/

/-- Whether `masterTryPartialResynchronization` goes on from this offset. -/
def canContinue (s : Master) (psync_offset : Nat) : Bool :=
  match s.repl_backlog with
  | none => false
  | some b => !(decide (psync_offset < b.repl_backlog_off) ||
      decide (psync_offset > b.repl_backlog_off + b.bytes.length))

def addReplyReplicationBacklog (s : Master) (offset : Nat) : Bytes :=
  match s.repl_backlog with
  | none => []
  | some b => b.bytes.drop (offset - b.repl_backlog_off)

/-- The offset of `+FULLRESYNC`: creating the backlog will add one. -/
def fullResyncOffset (s : Master) : Nat :=
  if s.repl_backlog.isNone then s.master_repl_offset + 1 else s.master_repl_offset

def rdbSaveBackground (s : Master) (ok : Bool) : Master × Bool :=
  if s.rdb_child.isSome then (s, false)
  else if ok then ({ s with rdb_child := some s.history }, true)
  else (s, false)

def attach (s : Master) (slave : Slave) : Master :=
  let s := { s with slaves := s.slaves ++ [slave], slaveseldb := -1 }
  if s.slaves.length = 1 ∧ s.repl_backlog.isNone then createReplicationBacklog s else s

/-- The slave in state `WAIT_BGSAVE_END` whose output buffer another one gets a copy of. -/
def waitingForEnd (s : Master) : Option Slave :=
  s.slaves.find? fun slave => slave.replstate == .waitBgsaveEnd

/-- A slave that was answered `+FULLRESYNC`. -/
def newSlave (s : Master) (client : Nat) (replstate : ReplState) (reply : Bytes) : Slave :=
  { client := client, replstate := replstate, psync_initial_offset := fullResyncOffset s, file := none,
    reply := reply, peer := .waiting }

/-- `syncCommand` from the `+FULLRESYNC` line on. `ok` is whether a BGSAVE could be started. -/
def fullResync (s : Master) (client : Nat) (ok : Bool) : Master :=
  if s.rdb_child.isSome then
    match waitingForEnd s with
    | some slave => attach s (newSlave s client .waitBgsaveEnd slave.reply)
    | none => attach s (newSlave s client .waitBgsaveStart [])
  else
    let r := rdbSaveBackground s ok
    if !r.2 then s
    else attach r.1 (newSlave s client .waitBgsaveEnd [])

def continueResync (s : Master) (client : Nat) (r : Replica) : Master :=
  { s with slaves := s.slaves ++ [{
      client := client, replstate := .online, psync_initial_offset := 0, file := none,
      reply := addReplyReplicationBacklog s (r.reploff + 1), peer := .loaded r }] }

/-- The slave server asks for what follows its cached master, if it has one; `k` is which of the parked
ones it is. -/
def syncCommand (s : Master) (client : Nat) (k : Option Nat) (ok : Bool) : Master :=
  if s.slaves.any fun slave => slave.client == client then s
  else
    match k with
    | none => fullResync s client ok
    | some i =>
      match s.parked[i]? with
      | none => s
      | some r =>
        let s := { s with parked := s.parked.eraseIdx i }
        if canContinue s (r.reploff + 1) then continueResync s client r else fullResync s client ok

/-! ## The end of a BGSAVE -/

/-- One turn of the loop of `updateSlavesWaitingBgsave`; `none` is a slave that is freed. -/
def updateSlave (file : Bytes) (bgsaveerr : Bool) (fails : Nat → Bool) (slave : Slave) :
    Option Slave :=
  match slave.replstate with
  | .waitBgsaveStart => some { slave with replstate := .waitBgsaveEnd }
  | .waitBgsaveEnd =>
    if bgsaveerr then none
    else if fails slave.client then none
    else some { slave with replstate := .sendBulk, file := some file }
  | .sendBulk => some slave
  | .online => some slave

def updateSlavesWaitingBgsave (s : Master) (file : Bytes) (bgsaveerr : Bool) (fails : Nat → Bool)
    (ok : Bool) : Master :=
  let startbgsave := s.slaves.any fun slave => slave.replstate == .waitBgsaveStart
  let s := { s with slaves := s.slaves.filterMap (updateSlave file bgsaveerr fails) }
  if startbgsave then
    let r := rdbSaveBackground s ok
    if !r.2 then
      { s with slaves := s.slaves.filter fun slave => slave.replstate != .waitBgsaveStart }
    else r.1
  else s

def backgroundSaveDoneHandler (s : Master) (bgsaveerr : Bool) (fails : Nat → Bool) (ok : Bool) :
    Master :=
  match s.rdb_child with
  | some file =>
    updateSlavesWaitingBgsave { s with rdb_child := none } file bgsaveerr fails ok
  | none => s

/-! ## The links -/

def updateClient (s : Master) (client : Nat) (f : Slave → Slave) : Master :=
  { s with slaves := s.slaves.map fun slave => if slave.client = client then f slave else slave }

/-- `sendBulkToSlave` has sent the whole file. -/
def bulkSent (slave : Slave) : Slave :=
  if slave.replstate = .sendBulk then { slave with replstate := .online } else slave

/-- The slave has loaded the file (`readSyncBulkPayload`). -/
def loadFile (slave : Slave) : Slave :=
  match slave.replstate, slave.peer, slave.file with
  | .online, .waiting, some file =>
    { slave with peer := .loaded { reploff := slave.psync_initial_offset, reflected := file } }
  | _, _, _ => slave

/-- The slave receives some bytes of what is queued for it. -/
def receive (n : Nat) (slave : Slave) : Slave :=
  match slave.replstate, slave.peer with
  | .online, .loaded r =>
    { slave with
      reply := slave.reply.drop n
      peer := .loaded {
        reploff := r.reploff + (slave.reply.take n).length
        reflected := r.reflected ++ slave.reply.take n } }
  | _, _ => slave

/-- What a slave server keeps when its link is closed. -/
def cachedMaster (slave : Slave) : Option Replica :=
  match slave.peer with
  | .loaded r => some r
  | _ => none

/-- The slave closes the link of this client. -/
def linkLost (s : Master) (client : Nat) : Master :=
  let lost := s.slaves.filter fun slave => slave.client == client
  updateClient { s with parked := s.parked ++ lost.filterMap cachedMaster } client
    fun slave => { slave with peer := .gone }

def freeClient (s : Master) (client : Nat) : Master :=
  let lost := s.slaves.filter fun slave => slave.client == client
  { s with
    parked := s.parked ++ lost.filterMap cachedMaster
    slaves := s.slaves.filter fun slave => slave.client != client }

/-! ## Runs -/

inductive Action where
  /-- A command is propagated, or a PING. -/
  | propagate (dictid : Int) (argv : List Bytes)
  | psync (client : Nat) (k : Option Nat) (ok : Bool)
  /-- BGSAVE, or a save point of `serverCron`. -/
  | bgsave (ok : Bool)
  | bgsaveDone (bgsaveerr : Bool) (fails : Nat → Bool) (ok : Bool)
  | bulkSent (client : Nat)
  | loadFile (client : Nat)
  | receive (client : Nat) (n : Nat)
  | linkLost (client : Nat)
  | freeClient (client : Nat)
  /-- `replicationCron` frees the backlog of a master without slaves. -/
  | backlogTimeout
  | resize (newsize : Nat)

def step (s : Master) : Action → Master
  | .propagate dictid argv => replicationFeedSlaves s dictid argv
  | .psync client k ok => syncCommand s client k ok
  | .bgsave ok => (rdbSaveBackground s ok).1
  | .bgsaveDone bgsaveerr fails ok => backgroundSaveDoneHandler s bgsaveerr fails ok
  | .bulkSent client => updateClient s client bulkSent
  | .loadFile client => updateClient s client loadFile
  | .receive client n => updateClient s client (receive n)
  | .linkLost client => linkLost s client
  | .freeClient client => freeClient s client
  | .backlogTimeout => if s.slaves.length = 0 then { s with repl_backlog := none } else s
  | .resize newsize => resizeReplicationBacklog s newsize

def initial : Master :=
  { history := [], master_repl_offset := 0, repl_backlog := none, repl_backlog_size := 1024 * 1024,
    slaveseldb := -1, rdb_child := none, slaves := [], parked := [] }

/-! ## What must hold -/

/-- The dataset of an attached slave is the history up to the offset of its link, and what is queued for
it is the rest of the history. -/
def OffsetsAgree (s : Master) : Prop :=
  ∀ slave ∈ s.slaves, ∀ r, slave.peer = .loaded r →
    r.reflected ++ slave.reply = s.history ∧ r.reploff + slave.reply.length = s.master_repl_offset

/-- Nothing was fed since these slaves were answered. -/
def NothingFedSince (s : Master) (replstate : ReplState) : Prop :=
  ∀ slave ∈ s.slaves, slave.replstate = replstate → slave.peer ≠ .gone →
    slave.psync_initial_offset = s.master_repl_offset

/-- Of a full resync: nothing was fed since the start of the BGSAVE whose file the slave will get. -/
def FullResyncStands (s : Master) (ok : Bool) : Prop :=
  if s.rdb_child.isSome then
    ∀ slave, waitingForEnd s = some slave → slave.reply = [] ∧ s.rdb_child = some s.history
  else ok = true → NothingFedSince s .waitBgsaveEnd

/-- Between the answer to a slave and the start of the BGSAVE whose file it gets, nothing is fed, in
either order. -/
def SnapshotFits (s : Master) : Action → Prop
  | .psync client k ok =>
    (s.slaves.any fun slave => slave.client == client) = false →
      match k with
      | none => FullResyncStands s ok
      | some i => ∀ r, s.parked[i]? = some r → canContinue s (r.reploff + 1) = false →
          FullResyncStands s ok
  | .bgsave ok => s.rdb_child = none → ok = true → NothingFedSince s .waitBgsaveEnd
  | .bgsaveDone _ _ ok => s.rdb_child.isSome = true → ok = true → NothingFedSince s .waitBgsaveStart
  | _ => True

end RedisCluster.Replication.Offsets
