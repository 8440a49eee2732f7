import RedisCluster.Lib.Run

/-!
# Blocked clients

The life of a client from `createClient` to `freeClient` as far as blocking goes: BLPOP, BRPOPLPUSH and
WAIT, the ways a client is unblocked, `CLIENT PAUSE`, and the queue of clients whose buffered input is
looked at before the next loop. A client is known by its address; the memory of a freed client keeps
its last contents until the address is allocated again. Keys have type `κ`.
-/

namespace RedisCluster.Clients

open RedisCluster.Lib

abbrev ClientId := Nat

/-- `REDIS_BLOCKED_NONE`, `REDIS_BLOCKED_LIST` and `REDIS_BLOCKED_WAIT`. -/
inductive BlockType where
  | none
  | list
  | wait
  deriving DecidableEq, Repr

/-- The fields of `redisClient` that blocking and freeing read. `keys` are those of `bpop.keys`, and
`hasFd` says that `fd` is not -1. -/
structure Client (κ : Type) where
  blocked : Bool
  unblocked : Bool
  slave : Bool
  master : Bool
  multi : Bool
  close_after_reply : Bool
  close_asap : Bool
  btype : BlockType
  db : Nat
  keys : List κ
  timeout : Int
  reploffset : Int
  numreplicas : Int
  hasFd : Bool
  lastinteraction : Int

/-- Where the process stops: the two panics, the assertions, and a list node that is not there. -/
inductive Panic where
  | unblockClient
  | replyToBlockedClientTimedOut
  | unblockClientWaitingData
  | unblockClientWaitingReplicas
  | handleClientsBlockedOnLists
  | freeClient
  | replicationCacheMaster
  deriving DecidableEq, Repr

structure Server (κ : Type) where
  client : ClientId → Client κ
  clients : List ClientId
  clients_to_close : List ClientId
  master : Option ClientId
  cached_master : Option ClientId
  unblocked_clients : List ClientId
  /-- `blocking_keys` of each database; a key without clients is not in the dict. -/
  blocking_keys : Nat → κ → List ClientId
  clients_waiting_acks : List ClientId
  bpop_blocked_clients : Int
  clients_paused : Bool
  clients_pause_end_time : Int
  /-- The cached time. -/
  mstime : Int
  /-- The first panic: the process is gone. -/
  panicked : Option Panic

variable {κ : Type}

namespace Server

def setClient (s : Server κ) (c : ClientId) (x : Client κ) : Server κ :=
  { s with client := Function.update s.client c x }

/-- A client that is allocated: the cached master is not in `clients`. -/
def Live (s : Server κ) (c : ClientId) : Prop := c ∈ s.clients ∨ s.cached_master = some c

instance (s : Server κ) (c : ClientId) : Decidable (s.Live c) :=
  inferInstanceAs (Decidable (c ∈ s.clients ∨ s.cached_master = some c))

def live (s : Server κ) : List ClientId := s.cached_master.toList ++ s.clients

end Server

/-- The process ends at a failed assertion. -/
def assertion (cond : Bool) (what : Panic) (s : Server κ) : Server κ :=
  if cond then s else { s with panicked := s.panicked <|> some what }

/-! ## Blocking -/

def blockClient (c : ClientId) (btype : BlockType) (s : Server κ) : Server κ :=
  { s.setClient c { s.client c with blocked := true, btype := btype } with
    bpop_blocked_clients := s.bpop_blocked_clients + 1 }

section Keys

variable [DecidableEq κ]

/-- One round of the loop of `blockForKeys`. -/
def blockForKey (c : ClientId) (s : Server κ) (key : κ) : Server κ :=
  let x := s.client c
  if key ∈ x.keys then s
  else
    { s.setClient c { x with keys := x.keys ++ [key] } with
      blocking_keys := Function.update s.blocking_keys x.db
        (Function.update (s.blocking_keys x.db) key (s.blocking_keys x.db key ++ [c])) }

def blockForKeys (c : ClientId) (keys : List κ) (timeout : Int) (s : Server κ) : Server κ :=
  let s := s.setClient c { s.client c with timeout := timeout }
  blockClient c .list (keys.foldl (blockForKey c) s)

/-- One round of the loop of `unblockClientWaitingData`. -/
def leaveKey (c : ClientId) (db : Nat) (s : Server κ) (key : κ) : Server κ :=
  let s := assertion (decide (c ∈ s.blocking_keys db key)) .unblockClientWaitingData s
  { s with
    blocking_keys := Function.update s.blocking_keys db
      (Function.update (s.blocking_keys db) key ((s.blocking_keys db key).erase c)) }

def unblockClientWaitingData (c : ClientId) (s : Server κ) : Server κ :=
  let x := s.client c
  let s := assertion (!x.keys.isEmpty) .unblockClientWaitingData s
  let s := x.keys.foldl (leaveKey c x.db) s
  s.setClient c { s.client c with keys := [] }

def unblockClientWaitingReplicas (c : ClientId) (s : Server κ) : Server κ :=
  let s := assertion (decide (c ∈ s.clients_waiting_acks)) .unblockClientWaitingReplicas s
  { s with clients_waiting_acks := s.clients_waiting_acks.erase c }

def unblockClient (c : ClientId) (s : Server κ) : Server κ :=
  let s := match (s.client c).btype with
    | .list => unblockClientWaitingData c s
    | .wait => unblockClientWaitingReplicas c s
    | .none => assertion false .unblockClient s
  { s.setClient c { s.client c with blocked := false, unblocked := true, btype := .none } with
    bpop_blocked_clients := s.bpop_blocked_clients - 1
    unblocked_clients := s.unblocked_clients ++ [c] }

end Keys

def replyToBlockedClientTimedOut (c : ClientId) (s : Server κ) : Server κ :=
  assertion (decide ((s.client c).btype ≠ .none)) .replyToBlockedClientTimedOut s

/-- A round of the loop of `processUnblockedClients` up to `processInputBuffer`. -/
def processUnblockedClient (s : Server κ) : Server κ :=
  match s.unblocked_clients with
  | [] => s
  | c :: rest =>
    { s.setClient c { s.client c with unblocked := false, btype := .none } with
      unblocked_clients := rest }

/-! ## Commands that block -/

/-- What `lookupKeyWrite` finds. -/
inductive KeyState where
  | missing
  | list (length : Nat)
  | other
  deriving DecidableEq, Repr

/-- The key ends the command: it has an element, or another type. -/
def KeyState.answers : KeyState → Bool
  | .missing => false
  | .list length => decide (length ≠ 0)
  | .other => true

section Commands

variable [DecidableEq κ]

def blockingPopGenericCommand (c : ClientId) (keys : List κ) (timeout : Int) (lookup : κ → KeyState)
    (s : Server κ) : Server κ :=
  if keys.any (fun k => (lookup k).answers) then s
  else if (s.client c).multi then s
  else blockForKeys c keys timeout s

def brpoplpushCommand (c : ClientId) (key : κ) (timeout : Int) (found : KeyState) (s : Server κ) :
    Server κ :=
  if found = .missing then
    if (s.client c).multi then s else blockForKeys c [key] timeout s
  else s

end Commands

/-- `acks` is `replicationCountAcksByOffset`, `woff` the offset of the last write of the client. -/
def waitCommand (c : ClientId) (numreplicas timeout woff : Int) (acks : Int → Int) (s : Server κ) :
    Server κ :=
  if acks woff ≥ numreplicas ∨ (s.client c).multi then s
  else
    let s := s.setClient c { s.client c with
      timeout := timeout, reploffset := woff, numreplicas := numreplicas }
    blockClient c .wait { s with clients_waiting_acks := s.clients_waiting_acks ++ [c] }

/-! ## `CLIENT PAUSE` -/

def pauseClients (endTime : Int) (s : Server κ) : Server κ :=
  { s with
    clients_pause_end_time := if !s.clients_paused || endTime > s.clients_pause_end_time then endTime
      else s.clients_pause_end_time
    clients_paused := true }

/-- The pause is over, but `clients_paused` is still set. -/
def pauseExpired (s : Server κ) : Bool :=
  s.clients_paused && decide (s.clients_pause_end_time < s.mstime)

/-- `clientsArePaused`, for its side effect. -/
def checkPause (s : Server κ) : Server κ :=
  if pauseExpired s then
    { s with
      clients_paused := false
      unblocked_clients :=
        s.unblocked_clients ++ s.clients.filter fun c => !(s.client c).slave }
  else s

/-- `resetManualFailover`, where a manual failover is in progress. -/
def endPause (s : Server κ) : Server κ :=
  let s := checkPause s
  if s.clients_paused then checkPause { s with clients_pause_end_time := 0 } else s

/-! ## Clients that come and go -/

def createClient (a : ClientId) (now : Int) (s : Server κ) : Server κ :=
  { s.setClient a
      { blocked := false, unblocked := false, slave := false, master := false, multi := false
        close_after_reply := false, close_asap := false, btype := .none, db := 0, keys := []
        timeout := 0, reploffset := 0, numreplicas := 0, hasFd := true, lastinteraction := now } with
    clients := s.clients ++ [a] }

def replicationCacheMaster (c : ClientId) (s : Server κ) : Server κ :=
  let s := assertion (s.cached_master.isNone && decide (c ∈ s.clients)) .replicationCacheMaster s
  { s.setClient c { s.client c with hasFd := false } with
    clients := s.clients.erase c
    cached_master := s.master
    master := none }

def leaveClients (c : ClientId) (s : Server κ) : Server κ :=
  { assertion (decide (c ∈ s.clients)) .freeClient s with clients := s.clients.erase c }

def leaveQueue (c : ClientId) (s : Server κ) : Server κ :=
  { assertion (decide (c ∈ s.unblocked_clients)) .freeClient s with
    unblocked_clients := s.unblocked_clients.erase c }

def leaveCloseList (c : ClientId) (s : Server κ) : Server κ :=
  { assertion (decide (c ∈ s.clients_to_close)) .freeClient s with
    clients_to_close := s.clients_to_close.erase c }

/-- The end of `freeClient`, where the client leaves the lists it is in. -/
def unlinkClient (c : ClientId) (s : Server κ) : Server κ :=
  let x := s.client c
  let s := if x.hasFd then leaveClients c s else s
  let s := if x.unblocked then leaveQueue c s else s
  let s := if x.master then { s with master := none } else s
  if x.close_asap then leaveCloseList c s else s

section Free

variable [DecidableEq κ]

def freeClient (c : ClientId) (s : Server κ) : Server κ :=
  let x := s.client c
  if s.master.isSome && x.master &&
      !(x.close_after_reply || x.close_asap || x.blocked || x.unblocked) then
    replicationCacheMaster c s
  else unlinkClient c (if x.blocked then unblockClient c s else s)

def freeClientAsync (c : ClientId) (s : Server κ) : Server κ :=
  if (s.client c).close_asap then s
  else
    { s.setClient c { s.client c with close_asap := true } with
      clients_to_close := s.clients_to_close ++ [c] }

/-- A round of the loop of `freeClientsInAsyncFreeQueue`. The node of the list goes before the client
and not after it: without the flag `freeClient` does not look at the list. -/
def freeClientInAsyncFreeQueue (s : Server κ) : Server κ :=
  match s.clients_to_close with
  | [] => s
  | c :: rest =>
    freeClient c { s.setClient c { s.client c with close_asap := false } with
      clients_to_close := rest }

def replicationDiscardCachedMaster (s : Server κ) : Server κ :=
  match s.cached_master with
  | none => s
  | some m =>
    { freeClient m (s.setClient m { s.client m with master := false }) with cached_master := none }

end Free

def replicationResurrectCachedMaster (s : Server κ) : Server κ :=
  match s.cached_master with
  | none => s
  | some m =>
    { s.setClient m { s.client m with
        hasFd := true, close_after_reply := false, close_asap := false } with
      master := some m
      cached_master := none
      clients := s.clients ++ [m] }

/-! ## Serving -/

section Serve

variable [DecidableEq κ]

/-- The loop of `handleClientsBlockedOnLists` over the clients of a ready key, for `rounds` elements
that can be popped. -/
def serveKey (db : Nat) (key : κ) : Nat → Server κ → Server κ
  | 0, s => s
  | rounds + 1, s =>
    match s.blocking_keys db key with
    | [] => assertion false .handleClientsBlockedOnLists s
    | receiver :: _ => serveKey db key rounds (unblockClient receiver s)

def handleClientsBlockedOnKey (db : Nat) (key : κ) (length : Nat) (s : Server κ) : Server κ :=
  serveKey db key (min length (s.blocking_keys db key).length) s

/-- The loop of `processClientsWaitingReplicas`: the state with `last_offset` and
`last_numreplicas`. -/
def ackClient (acks : Int → Int) (r : Server κ × Int × Int) (c : ClientId) : Server κ × Int × Int :=
  let x := r.1.client c
  if r.2.1 ≠ 0 ∧ r.2.1 > x.reploffset ∧ r.2.2 > x.numreplicas then (unblockClient c r.1, r.2)
  else if acks x.reploffset ≥ x.numreplicas then
    (unblockClient c r.1, x.reploffset, acks x.reploffset)
  else r

def processClientsWaitingReplicas (acks : Int → Int) (s : Server κ) : Server κ :=
  (s.clients_waiting_acks.foldl (ackClient acks) (s, 0, 0)).1

/-- What `clientsCronHandleTimeout` reads from outside. -/
structure CronEnv where
  unixtime : Int
  maxidletime : Int
  /-- The client listens to channels or patterns. -/
  pubsub : Bool
  now_ms : Int

def clientsCronHandleTimeout (env : CronEnv) (c : ClientId) (s : Server κ) : Server κ :=
  let x := s.client c
  if env.maxidletime ≠ 0 ∧ !x.slave ∧ !x.master ∧ !x.blocked ∧ !env.pubsub ∧
      env.unixtime - x.lastinteraction > env.maxidletime then freeClient c s
  else if x.blocked then
    if x.timeout ≠ 0 ∧ x.timeout < env.now_ms then
      unblockClient c (replyToBlockedClientTimedOut c s)
    else s
  else s

end Serve

/-! ## Runs -/

/-- A command that a client runs, with what it finds in the keyspace. -/
inductive ClientCommand (κ : Type) where
  | blpop (key : κ) (keys : List κ) (timeout : Int) (lookup : κ → KeyState)
  | brpoplpush (key : κ) (timeout : Int) (found : KeyState)
  | wait (numreplicas timeout woff : Int) (acks : Int → Int)
  | clientPause (endTime : Int)
  | clientKill (target : ClientId)
  | select (db : Nat)
  | multi (inside : Bool)
  /-- SYNC, PSYNC and MONITOR. -/
  | sync
  | quit
  | other

inductive Event (κ : Type) where
  | connect (a : ClientId) (now : Int)
  | connectMaster (a : ClientId) (now : Int)
  /-- A round of the loop of `processInputBuffer`. -/
  | input (c : ClientId) (cmd : ClientCommand κ)
  | serve (db : Nat) (key : κ) (length : Nat)
  | acknowledge (acks : Int → Int)
  | unblock
  | clientsCron (env : CronEnv) (c : ClientId)
  | free (c : ClientId)
  | freeAsync (c : ClientId)
  | freeQueue
  /-- The new cached time, and the check of the pause. -/
  | serverCron (mstime : Int)
  /-- `CLUSTERMSG_TYPE_MFSTART`, and the end of the manual failover. -/
  | mfstart (endTime : Int)
  | mfend
  | discardMaster
  | resurrectMaster

section Run

variable [DecidableEq κ]

def runCommand (c : ClientId) (cmd : ClientCommand κ) (s : Server κ) : Server κ :=
  match cmd with
  | .blpop key keys timeout lookup => blockingPopGenericCommand c (key :: keys) timeout lookup s
  | .brpoplpush key timeout found => brpoplpushCommand c key timeout found s
  | .wait numreplicas timeout woff acks => waitCommand c numreplicas timeout woff acks s
  | .clientPause endTime => pauseClients endTime s
  | .clientKill target =>
    if target ∈ s.clients then
      if target = c then s.setClient c { s.client c with close_after_reply := true }
      else freeClient target s
    else s
  | .select db => s.setClient c { s.client c with db := db }
  | .multi inside => s.setClient c { s.client c with multi := inside }
  | .sync => s.setClient c { s.client c with slave := true }
  | .quit => s.setClient c { s.client c with close_after_reply := true }
  | .other => s

/-- The client does not get to run a command. -/
def inputStops (c : ClientId) (s : Server κ) : Bool :=
  (!(s.client c).slave && s.clients_paused) || (s.client c).blocked || (s.client c).close_after_reply

def inputRound (c : ClientId) (cmd : ClientCommand κ) (s : Server κ) : Server κ :=
  let s := if (s.client c).slave then s else checkPause s
  if inputStops c s then s else runCommand c cmd s

def step (s : Server κ) (e : Event κ) : Server κ :=
  if s.panicked.isSome then s
  else match e with
    | .connect a now => if s.Live a then s else createClient a now s
    | .connectMaster a now =>
      if s.Live a ∨ s.master.isSome ∨ s.cached_master.isSome then s
      else
        let s := createClient a now s
        { s.setClient a { s.client a with master := true } with master := some a }
    | .input c cmd => if c ∈ s.clients then inputRound c cmd s else s
    | .serve db key length => handleClientsBlockedOnKey db key length s
    | .acknowledge acks => processClientsWaitingReplicas acks s
    | .unblock => processUnblockedClient s
    | .clientsCron env c => if c ∈ s.clients then clientsCronHandleTimeout env c s else s
    | .free c => if c ∈ s.clients then freeClient c s else s
    | .freeAsync c => if c ∈ s.clients then freeClientAsync c s else s
    | .freeQueue => freeClientInAsyncFreeQueue s
    | .serverCron mstime => checkPause { s with mstime := mstime }
    | .mfstart endTime => pauseClients endTime s
    | .mfend => endPause s
    | .discardMaster => replicationDiscardCachedMaster s
    | .resurrectMaster => replicationResurrectCachedMaster s

end Run

/-- The server before the first client connects. -/
def initServer (mstime : Int) (client : ClientId → Client κ) : Server κ :=
  { client := client, clients := [], clients_to_close := [], master := none, cached_master := none
    unblocked_clients := [], blocking_keys := fun _ _ => [], clients_waiting_acks := []
    bpop_blocked_clients := 0, clients_paused := false, clients_pause_end_time := 0, mstime := mstime
    panicked := none }

/-! ## What must hold -/

/-- Flags, types, the queue and the counter agree, and the process has not panicked. -/
structure BlockedOk (s : Server κ) : Prop where
  btype : ∀ c, s.Live c → (s.client c).blocked →
    (s.client c).btype = .list ∨ (s.client c).btype = .wait
  queue_nodup : s.unblocked_clients.Nodup
  queue_mem : ∀ c, c ∈ s.unblocked_clients ↔ s.Live c ∧ (s.client c).unblocked
  count : s.bpop_blocked_clients = s.live.countP fun c => (s.client c).blocked
  alive : s.panicked = none

/-- No pause ends with a client that is no slave. -/
def pauseHarmless (s : Server κ) : Bool :=
  !pauseExpired s || s.clients.all fun c => (s.client c).slave

def ClientCommand.blocks : ClientCommand κ → Bool
  | .blpop key keys _ lookup => !((key :: keys).any fun k => (lookup k).answers)
  | .brpoplpush _ _ found => decide (found = .missing)
  | .wait numreplicas _ woff acks => decide (acks woff < numreplicas)
  | _ => false

/-- No pause ends in the step while a client is connected that is no slave, and no client blocks that
still is in the queue of unblocked clients. -/
def stepHarmless (s : Server κ) : Event κ → Bool
  | .input c cmd =>
    ((s.client c).slave || pauseHarmless s) &&
      !(cmd.blocks && !(s.client c).multi && (s.client c).unblocked)
  | .serverCron mstime => pauseHarmless { s with mstime := mstime }
  | .mfend => pauseHarmless s && pauseHarmless { s with clients_pause_end_time := 0 }
  | _ => true

end RedisCluster.Clients
