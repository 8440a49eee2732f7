import RedisCluster.Lib.Run

/-!
# `replication.c`: slaves that wait for a BGSAVE

The states of the slaves of a master from SYNC or PSYNC to the end of the transfer, and the child that
saves the dataset. `version` counts the commands that changed the dataset. `snapshot` and `fedFrom` are
history: the version the child saves, and the one from which on commands are fed to a slave.
-/

namespace RedisCluster.Replication

open RedisCluster.Lib

/-- `REDIS_REPL_*`. -/
inductive ReplState where
  | waitBgsaveStart
  | waitBgsaveEnd
  | sendBulk
  | online
  deriving DecidableEq, Repr

structure Slave where
  /-- The client. -/
  id : Nat
  replstate : ReplState
  fedFrom : Option Nat
  deriving DecidableEq, Repr

structure Child where
  snapshot : Nat
  deriving DecidableEq, Repr

structure Master where
  version : Nat
  /-- `rdb_child_pid != -1`. -/
  rdb_child : Option Child
  slaves : List Slave
  deriving DecidableEq, Repr

def rdbSaveBackground (s : Master) (ok : Bool) : Master × Bool :=
  if s.rdb_child.isSome then (s, false)
  else if ok then ({ s with rdb_child := some { snapshot := s.version } }, true)
  else (s, false)

def addSlave (s : Master) (slave : Slave) : Master := { s with slaves := s.slaves ++ [slave] }

/-- `syncCommand` for a full resync. A slave that comes while a BGSAVE for another one runs gets a copy
of its output buffer. `ok` is whether a BGSAVE could be started. -/
def syncCommand (s : Master) (id : Nat) (ok : Bool) : Master :=
  if s.slaves.any fun slave => slave.id == id then s
  else if s.rdb_child.isSome then
    match s.slaves.find? fun slave => slave.replstate == .waitBgsaveEnd with
    | some slave => addSlave s { id := id, replstate := .waitBgsaveEnd, fedFrom := slave.fedFrom }
    | none => addSlave s { id := id, replstate := .waitBgsaveStart, fedFrom := none }
  else
    let r := rdbSaveBackground s ok
    if !r.2 then s
    else addSlave r.1 { id := id, replstate := .waitBgsaveEnd, fedFrom := some s.version }

/-- `masterTryPartialResynchronization` that accepts. -/
def continueCommand (s : Master) (id : Nat) : Master :=
  if s.slaves.any fun slave => slave.id == id then s
  else addSlave s { id := id, replstate := .online, fedFrom := some s.version }

/-- One turn of the loop of `updateSlavesWaitingBgsave`; `none` is a slave that is freed. `fails` is
whether the file or the event for it could not be opened. -/
def updateSlave (s : Master) (bgsaveerr : Bool) (fails : Nat → Bool) (slave : Slave) : Option Slave :=
  match slave.replstate with
  | .waitBgsaveStart =>
    some { slave with replstate := .waitBgsaveEnd, fedFrom := some s.version }
  | .waitBgsaveEnd =>
    if bgsaveerr then none
    else if fails slave.id then none
    else some { slave with replstate := .sendBulk }
  | .sendBulk => some slave
  | .online => some slave

/-- After the loop, slaves that wait for the start of a BGSAVE are freed if it cannot be started. -/
def updateSlavesWaitingBgsave (s : Master) (bgsaveerr : Bool) (fails : Nat → Bool) (ok : Bool) :
    Master :=
  let startbgsave := s.slaves.any fun slave => slave.replstate == .waitBgsaveStart
  let s := { s with slaves := s.slaves.filterMap (updateSlave s bgsaveerr fails) }
  if startbgsave then
    let r := rdbSaveBackground s ok
    if !r.2 then
      { s with slaves := s.slaves.filter fun slave => slave.replstate != .waitBgsaveStart }
    else r.1
  else s

def backgroundSaveDoneHandler (s : Master) (bgsaveerr : Bool) (fails : Nat → Bool) (ok : Bool) :
    Master :=
  if s.rdb_child.isSome then
    updateSlavesWaitingBgsave { s with rdb_child := none } bgsaveerr fails ok
  else s

inductive Action where
  /-- A command changes the dataset. -/
  | write
  | sync (id : Nat) (ok : Bool)
  | continue (id : Nat)
  /-- BGSAVE, or a save point of `serverCron`. -/
  | bgsave (ok : Bool)
  | bgsaveDone (bgsaveerr : Bool) (fails : Nat → Bool) (ok : Bool)
  /-- `sendBulkToSlave` has sent the whole file. -/
  | bulkSent (id : Nat)
  | freeClient (id : Nat)

def step (s : Master) : Action → Master
  | .write => { s with version := s.version + 1 }
  | .sync id ok => syncCommand s id ok
  | .continue id => continueCommand s id
  | .bgsave ok => (rdbSaveBackground s ok).1
  | .bgsaveDone bgsaveerr fails ok => backgroundSaveDoneHandler s bgsaveerr fails ok
  | .bulkSent id =>
    { s with slaves := s.slaves.map fun slave =>
        if slave.id = id ∧ slave.replstate = .sendBulk then { slave with replstate := .online }
        else slave }
  | .freeClient id => { s with slaves := s.slaves.filter fun slave => slave.id != id }

def initial : Master := { version := 0, rdb_child := none, slaves := [] }

/-! ## What must hold -/

/-- A slave that waits has a child running; if it waits for its end, the child saves a version not before
the one from which the slave is fed. -/
def Waits (s : Master) (slave : Slave) : Prop :=
  match slave.replstate with
  | .waitBgsaveStart => s.rdb_child.isSome = true
  | .waitBgsaveEnd => ∃ child from_, s.rdb_child = some child ∧ slave.fedFrom = some from_ ∧
      from_ ≤ child.snapshot
  | _ => True

def NobodyLeft (s : Master) : Prop := ∀ slave ∈ s.slaves, Waits s slave

def NobodyLeftAlong : Master → List Action → Prop
  | s, [] => NobodyLeft s
  | s, a :: as => NobodyLeft s ∧ NobodyLeftAlong (step s a) as

/-- When a BGSAVE ends and slaves wait for the next one, that one can be started. -/
def NextStarts (s : Master) : Action → Prop
  | .bgsaveDone _ _ ok => s.rdb_child.isSome = true →
      (s.slaves.any fun slave => slave.replstate == .waitBgsaveStart) = true → ok = true
  | _ => True

end RedisCluster.Replication
