import Mathlib.Data.List.Basic
import Mathlib.Data.List.Lex
import Mathlib.Data.Prod.Lex
import Mathlib.Order.WithBot
import RedisCluster.Lib.Comparison
import RedisCluster.Multi.Command
import RedisCluster.Util.Strings

/-!
# `sentinel.c`: the instances of one Sentinel and what it does to them

The flags of an instance are fields. An entry of a dict is found by its name, the pair of address and port
that the name spells; a pointer to a slave is that name. What the outside decides in a step (the clock, random
numbers, the order of a dict, which of the best slaves `qsort` puts first, whether a command can be sent) is in
`Outside`.
-/

namespace RedisCluster.Sentinel

open RedisCluster.Util
open RedisCluster.Multi (cstr tolower sameCaseless)
open RedisCluster.Lib (QsortResult)

/-! ## Instances -/

structure Addr where
  ip : Bytes
  port : Int
  deriving DecidableEq

/-- `SENTINEL_FAILOVER_STATE_*`. -/
inductive FailoverState where
  | none
  | wait_start
  | select_slave
  | send_slaveof_noone
  | wait_promotion
  | reconf_slaves
  | update_config
  deriving DecidableEq, Repr

def FailoverState.code : FailoverState → Nat
  | .none => 0
  | .wait_start => 1
  | .select_slave => 2
  | .send_slaveof_noone => 3
  | .wait_promotion => 4
  | .reconf_slaves => 5
  | .update_config => 6

inductive Role where
  | master
  | slave
  deriving DecidableEq, Repr

/-- What the replies to INFO have told. -/
structure Info where
  runid : Option Bytes
  info_refresh : Int
  master_link_down_time : Int
  role_reported : Option Role
  role_reported_time : Int
  slave_master_host : Option Bytes
  slave_master_port : Int
  slave_master_link_up : Bool
  slave_priority : Int
  slave_repl_offset : Nat
  slave_conf_change_time : Int

structure Slave where
  name : Addr
  addr : Addr
  s_down : Bool
  o_down : Bool
  disconnected : Bool
  promoted : Bool
  reconf_sent : Bool
  reconf_inprog : Bool
  reconf_done : Bool
  last_avail_time : Int
  slave_reconf_sent_time : Int
  info : Info

/-- An entry of `master->sentinels`, with the last vote it reported. -/
structure OtherSentinel where
  name : Addr
  addr : Addr
  runid : Option Bytes
  leader : Option Bytes
  leader_epoch : Nat
  last_master_down_reply_time : Int

structure Master where
  addr : Addr
  quorum : Nat
  s_down : Bool
  o_down : Bool
  failover_in_progress : Bool
  force_failover : Bool
  s_down_since_time : Int
  down_after_period : Int
  parallel_syncs : Int
  slaves : List Slave
  sentinels : List OtherSentinel
  leader : Option Bytes
  leader_epoch : Nat
  config_epoch : Nat
  failover_epoch : Nat
  failover_state : FailoverState
  failover_state_change_time : Int
  failover_start_time : Int
  failover_timeout : Int
  promoted_slave : Option Addr
  info : Info

structure SentinelState where
  runid : Bytes
  current_epoch : Nat
  tilt : Bool
  masters : Bytes → Option Master

def setMaster (s : SentinelState) (name : Bytes) (m : Master) : SentinelState :=
  { s with masters := Function.update s.masters name (some m) }

theorem setMaster_self (s : SentinelState) (name : Bytes) (m : Master) :
    (setMaster s name m).masters name = some m := by
  show Function.update s.masters name (some m) name = some m
  rw [Function.update_self]

theorem setMaster_of_ne (s : SentinelState) {n name : Bytes} (hn : n ≠ name) (m : Master) :
    (setMaster s name m).masters n = s.masters n := by
  show Function.update s.masters name (some m) n = s.masters n
  rw [Function.update_of_ne hn]

/-- A failed assertion, or an access through a pointer to nothing: `promoted_slave` and
`slave_master_host`, or the sender of a hello message. -/
inductive Fault where
  | assertion
  | nullPointer
  | nullSender
  deriving DecidableEq, Repr

structure Outside where
  now : Int
  /-- `rand()%SENTINEL_MAX_DESYNC`. -/
  desync : Int
  order : List (Bytes × Nat) → List (Bytes × Nat)
  selected : Option Addr
  /-- Whether a command to this slave is sent. -/
  sends : Addr → Bool
  /-- `anetResolve`. -/
  resolve : Bytes → Option Bytes

/-! ## Slaves -/

def createSentinelAddr (o : Outside) (hostname : Bytes) (port : Int) : Option Addr :=
  if port ≤ 0 ∨ 65535 < port then none else (o.resolve hostname).map fun ip => { ip := ip, port := port }

def newInfo (now : Int) (role : Role) : Info :=
  { runid := none
    info_refresh := 0
    master_link_down_time := 0
    role_reported := some role
    role_reported_time := now
    slave_master_host := none
    slave_master_port := 0
    slave_master_link_up := false
    slave_priority := 100
    slave_repl_offset := 0
    slave_conf_change_time := now }

def sentinelRedisInstanceLookupSlave (m : Master) (name : Addr) : Option Slave :=
  m.slaves.find? fun slave => slave.name = name

/-- `createSentinelRedisInstance` for a slave, `none` for NULL. -/
def createSlave (o : Outside) (ip : Bytes) (port : Int) (m : Master) : Option Master :=
  match createSentinelAddr o ip port with
  | none => none
  | some addr =>
    if (sentinelRedisInstanceLookupSlave m { ip := ip, port := port }).isSome then none
    else
      some { m with slaves := m.slaves ++ [
        { name := { ip := ip, port := port }
          addr := addr
          s_down := false
          o_down := false
          disconnected := true
          promoted := false
          reconf_sent := false
          reconf_inprog := false
          reconf_done := false
          last_avail_time := o.now
          slave_reconf_sent_time := 0
          info := newInfo o.now .slave }] }

/-- A slave that cannot be made is left out. -/
def addSlave (o : Outside) (m : Master) (name : Addr) : Master :=
  (createSlave o name.ip name.port m).getD m

def updateSlave (name : Addr) (f : Slave → Slave) (slaves : List Slave) : List Slave :=
  slaves.map fun slave => if slave.name = name then f slave else slave

/-! ## Reset -/

def sentinelResetMaster (now : Int) (noSentinels : Bool) (m : Master) : Master :=
  { m with
    slaves := []
    sentinels := if noSentinels then m.sentinels else []
    s_down := false
    o_down := false
    failover_in_progress := false
    force_failover := false
    leader := none
    failover_state := .none
    failover_state_change_time := 0
    failover_start_time := 0
    promoted_slave := none
    info := { m.info with
      runid := none
      slave_master_host := none
      role_reported := some .master
      role_reported_time := now } }

def sentinelAddrIsEqual (a b : Addr) : Bool := a.port = b.port ∧ sameCaseless a.ip b.ip

/-- The slaves are kept, but for the one at the new address; the old address becomes one. -/
def sentinelResetMasterAndChangeAddress (o : Outside) (ip : Bytes) (port : Int) (m : Master) :
    Option Master :=
  (createSentinelAddr o ip port).map fun newaddr =>
    let slaves := (m.slaves.map Slave.addr).filter fun addr => ¬sentinelAddrIsEqual addr newaddr
    let slaves := if sentinelAddrIsEqual newaddr m.addr then slaves else slaves ++ [m.addr]
    slaves.foldl (addSlave o)
      { sentinelResetMaster o.now true m with addr := newaddr, s_down_since_time := 0 }

/-! ## Votes -/

/-- The epoch and the master afterwards; the answer is the master's `leader` and `leader_epoch`. -/
def sentinelVoteLeader (o : Outside) (runid : Bytes) (current_epoch : Nat) (m : Master)
    (req_epoch : Nat) (req_runid : Bytes) : Nat × Master :=
  let current_epoch := if current_epoch < req_epoch then req_epoch else current_epoch
  if m.leader_epoch < req_epoch ∧ current_epoch ≤ req_epoch then
    (current_epoch, { m with
      leader := some req_runid
      leader_epoch := current_epoch
      failover_start_time :=
        if sameCaseless req_runid runid then m.failover_start_time else o.now + o.desync })
  else (current_epoch, m)

def sentinelLeaderIncr (counters : List (Bytes × Nat)) (runid : Bytes) : List (Bytes × Nat) × Nat :=
  match counters.lookup runid with
  | none => (counters ++ [(runid, 1)], 1)
  | some votes =>
    (counters.map fun e => if e.1 = runid then (runid, votes + 1) else e, votes + 1)

/-- The votes that the other Sentinels reported for the current epoch. -/
def countVotes (current_epoch : Nat) (sentinels : List OtherSentinel) : List (Bytes × Nat) :=
  sentinels.foldl (fun counters ri =>
    match ri.leader with
    | none => counters
    | some leader =>
      if ri.leader_epoch = current_epoch then (sentinelLeaderIncr counters leader).1 else counters) []

def mostVotes (counters : List (Bytes × Nat)) : Option Bytes × Nat :=
  counters.foldl (fun best e => if best.2 < e.2 then (some e.1, e.2) else best) (none, 0)

/-- The leader with the epoch and the master afterwards. -/
def sentinelGetLeader (o : Outside) (runid : Bytes) (current_epoch : Nat) (m : Master) (epoch : Nat) :
    Except Fault (Option Bytes × Nat × Master) :=
  if m.o_down = false ∧ m.failover_in_progress = false then .error .assertion
  else
    let counters := countVotes current_epoch m.sentinels
    let best := mostVotes (o.order counters)
    let voted := sentinelVoteLeader o runid current_epoch m epoch (best.1.getD runid)
    let best :=
      match voted.2.leader with
      | none => best
      | some myvote =>
        if voted.2.leader_epoch = epoch then
          let votes := (sentinelLeaderIncr counters myvote).2
          if best.2 < votes then (some myvote, votes) else best
        else best
    let voters := m.sentinels.length + 1
    .ok (if best.2 < voters / 2 + 1 ∨ best.2 < m.quorum then none else best.1, voted)

/-! ## The failover -/

def sentinelStartFailover (o : Outside) (current_epoch : Nat) (m : Master) : Nat × Master :=
  let current_epoch := (current_epoch + 1) % 2 ^ 64
  (current_epoch, { m with
    failover_state := .wait_start
    failover_in_progress := true
    failover_epoch := current_epoch
    failover_start_time := o.now + o.desync
    failover_state_change_time := o.now })

def sentinelStartFailoverIfNeeded (o : Outside) (current_epoch : Nat) (m : Master) : Nat × Master :=
  if m.o_down = false then (current_epoch, m)
  else if m.failover_in_progress then (current_epoch, m)
  else if o.now - m.failover_start_time < m.failover_timeout * 2 then (current_epoch, m)
  else sentinelStartFailover o current_epoch m

def sentinelAbortFailover (o : Outside) (m : Master) : Except Fault Master :=
  if m.failover_in_progress = false then .error .assertion
  else if FailoverState.wait_promotion.code < m.failover_state.code then .error .assertion
  else
    .ok { m with
      failover_in_progress := false
      force_failover := false
      failover_state := .none
      failover_state_change_time := o.now
      slaves :=
        match m.promoted_slave with
        | none => m.slaves
        | some name => updateSlave name (fun slave => { slave with promoted := false }) m.slaves
      promoted_slave := none }

def strcasecmp : Bytes → Bytes → Int
  | [], [] => 0
  | [], b :: _ => -((tolower b).toNat : Int)
  | a :: _, [] => (tolower a).toNat
  | a :: as, b :: bs =>
    if tolower a = tolower b then strcasecmp as bs else ((tolower a).toNat : Int) - (tolower b).toNat

/-- The difference of the priorities is that of two `int`. -/
def compareSlavesForPromotion (sa sb : Slave) : Int :=
  if sa.info.slave_priority ≠ sb.info.slave_priority then
    (sa.info.slave_priority - sb.info.slave_priority).bmod (2 ^ 32)
  else if sb.info.slave_repl_offset < sa.info.slave_repl_offset then -1
  else if sa.info.slave_repl_offset < sb.info.slave_repl_offset then 1
  else
    match sa.info.runid, sb.info.runid with
    | none, none => 0
    | none, some _ => 1
    | some _, none => -1
    | some ra, some rb => strcasecmp (cstr ra) (cstr rb)

def goodSlaves (now : Int) (m : Master) : List Slave :=
  let max_master_down_time :=
    (if m.s_down then now - m.s_down_since_time else 0) + m.down_after_period * 10
  let info_validity_time := if m.s_down then 1000 * 5 else 10000 * 3
  m.slaves.filter fun slave =>
    ¬(slave.s_down ∨ slave.o_down ∨ slave.disconnected) ∧ now - slave.last_avail_time ≤ 1000 * 5 ∧
      slave.info.slave_priority ≠ 0 ∧ now - slave.info.info_refresh ≤ info_validity_time ∧
      slave.info.master_link_down_time ≤ max_master_down_time

/-- What `sentinelSelectSlave` may return: the first of the instances, as `qsort` leaves them. -/
def sentinelSelectSlave (now : Int) (m : Master) (selected : Option Slave) : Prop :=
  ∃ instances, QsortResult compareSlavesForPromotion (goodSlaves now m) instances ∧
    selected = instances.head?

def Selects (now : Int) (m : Master) (selected : Option Addr) : Prop :=
  ∃ slave, sentinelSelectSlave now m slave ∧ selected = slave.map Slave.name

theorem selects_none {now : Int} {m : Master} (h : goodSlaves now m = []) : Selects now m none :=
  ⟨none, ⟨[], ⟨by rw [h], fun _ => .nil⟩, rfl⟩, rfl⟩

theorem selects_some {now : Int} {m : Master} {name : Addr} (h : Selects now m (some name)) :
    ∃ slave ∈ goodSlaves now m, slave.name = name := by
  obtain ⟨selected, ⟨p, hp, rfl⟩, hname⟩ := h
  obtain ⟨slave, hhead, rfl⟩ := Option.map_eq_some_iff.mp hname.symm
  exact ⟨slave, hp.head_mem hhead, rfl⟩

def sentinelFailoverWaitStart (o : Outside) (runid : Bytes) (current_epoch : Nat) (m : Master) :
    Except Fault (Nat × Master) := do
  let (leader, current_epoch, m) ← sentinelGetLeader o runid current_epoch m m.failover_epoch
  let isleader := leader.any fun leader => sameCaseless leader runid
  if isleader = false ∧ m.force_failover = false then
    let election_timeout := min 10000 m.failover_timeout
    if o.now - m.failover_start_time > election_timeout then
      return (current_epoch, ← sentinelAbortFailover o m)
    else return (current_epoch, m)
  else
    return (current_epoch, { m with
      failover_state := .select_slave
      failover_state_change_time := o.now })

def sentinelFailoverSelectSlave (o : Outside) (m : Master) : Except Fault Master :=
  match o.selected with
  | none => sentinelAbortFailover o m
  | some name =>
    .ok { m with
      slaves := updateSlave name (fun slave => { slave with promoted := true }) m.slaves
      promoted_slave := some name
      failover_state := .send_slaveof_noone
      failover_state_change_time := o.now }

def promotedSlave (m : Master) : Except Fault Slave :=
  match m.promoted_slave.bind (sentinelRedisInstanceLookupSlave m) with
  | none => .error .nullPointer
  | some slave => .ok slave

def sentinelFailoverSendSlaveOfNoOne (o : Outside) (m : Master) : Except Fault Master := do
  let promoted ← promotedSlave m
  if promoted.disconnected then
    if o.now - m.failover_state_change_time > m.failover_timeout then sentinelAbortFailover o m
    else return m
  else if o.sends promoted.name then
    return { m with failover_state := .wait_promotion, failover_state_change_time := o.now }
  else return m

def sentinelFailoverWaitPromotion (o : Outside) (m : Master) : Except Fault Master :=
  if o.now - m.failover_state_change_time > m.failover_timeout then sentinelAbortFailover o m else .ok m

/-- A slave to which the master was sent too long ago counts as done. -/
def reconfTimeout (now : Int) (slave : Slave) : Slave :=
  if slave.reconf_sent ∧ now - slave.slave_reconf_sent_time > 10000 then
    { slave with reconf_sent := false, reconf_done := true }
  else slave

/-- The second loop of `sentinelFailoverReconfNextSlave`. -/
def reconfLoop (o : Outside) (m : Master) : Nat → List Slave → Except Fault (List Slave)
  | _, [] => .ok []
  | in_progress, slave :: rest => do
    if m.parallel_syncs ≤ (in_progress : Int) then return slave :: rest
    if slave.promoted ∨ slave.reconf_done then return slave :: (← reconfLoop o m in_progress rest)
    let slave := reconfTimeout o.now slave
    if slave.disconnected ∨ slave.reconf_sent ∨ slave.reconf_inprog then
      return slave :: (← reconfLoop o m in_progress rest)
    let _ ← promotedSlave m
    if o.sends slave.name then
      return { slave with reconf_sent := true, slave_reconf_sent_time := o.now } ::
        (← reconfLoop o m (in_progress + 1) rest)
    return slave :: (← reconfLoop o m in_progress rest)

/-- The last state, when no slave is left or the time is over. -/
def reconfEnd (o : Outside) (m : Master) : Master :=
  let not_reconfigured :=
    m.slaves.countP fun slave => ¬(slave.promoted ∨ slave.reconf_done) ∧ slave.s_down = false
  if not_reconfigured = 0 ∨ o.now - m.failover_state_change_time > m.failover_timeout then
    { m with failover_state := .update_config, failover_state_change_time := o.now }
  else m

def sentinelFailoverDetectEnd (o : Outside) (m : Master) : Except Fault Master :=
  if m.promoted_slave = none then .ok m
  else do
    let promoted ← promotedSlave m
    if promoted.s_down then return m
    if o.now - m.failover_state_change_time > m.failover_timeout then
      return { reconfEnd o m with slaves := m.slaves.map fun slave =>
        if ¬(slave.reconf_done ∨ slave.reconf_sent ∨ slave.disconnected) ∧ o.sends slave.name then
          { slave with reconf_sent := true } else slave }
    return reconfEnd o m

def sentinelFailoverReconfNextSlave (o : Outside) (m : Master) : Except Fault Master := do
  let in_progress := m.slaves.countP fun slave => slave.reconf_sent ∨ slave.reconf_inprog
  let slaves ← reconfLoop o m in_progress m.slaves
  sentinelFailoverDetectEnd o { m with slaves := slaves }

def sentinelFailoverStateMachine (o : Outside) (runid : Bytes) (current_epoch : Nat) (m : Master) :
    Except Fault (Nat × Master) :=
  if m.failover_in_progress = false then .ok (current_epoch, m)
  else
    match m.failover_state with
    | .wait_start => sentinelFailoverWaitStart o runid current_epoch m
    | .select_slave => (sentinelFailoverSelectSlave o m).map fun m => (current_epoch, m)
    | .send_slaveof_noone => (sentinelFailoverSendSlaveOfNoOne o m).map fun m => (current_epoch, m)
    | .wait_promotion => (sentinelFailoverWaitPromotion o m).map fun m => (current_epoch, m)
    | .reconf_slaves => (sentinelFailoverReconfNextSlave o m).map fun m => (current_epoch, m)
    | _ => .ok (current_epoch, m)

/-- A promoted slave that is gone would be an access through a pointer to nothing. -/
def sentinelFailoverSwitchToPromotedSlave (o : Outside) (m : Master) : Except Fault Master :=
  match m.promoted_slave with
  | none => .ok ((sentinelResetMasterAndChangeAddress o m.addr.ip m.addr.port m).getD m)
  | some _ => do
    let ref ← promotedSlave m
    return (sentinelResetMasterAndChangeAddress o ref.addr.ip ref.addr.port m).getD m

end RedisCluster.Sentinel

/-!
## The best slave

The order in which slaves are to be promoted, and what `sentinelSelectSlave` must do whatever the order of
`master->slaves` and however `qsort` arranges equal elements.
-/

namespace RedisCluster.Sentinel

open RedisCluster.Util
open RedisCluster.Multi (cstr tolower)
open RedisCluster.Lib

def caselessKey (s : Bytes) : List ℕ := (cstr s).map fun c => (tolower c).toNat

/-- The smaller run id; a missing one is the greatest. -/
def SmallerRunid : Option Bytes → Option Bytes → Prop
  | some a, some b => caselessKey a < caselessKey b
  | some _, none => True
  | none, _ => False

/-- The smaller priority, then the greater offset, then the smaller run id. -/
def Better (a b : Slave) : Prop :=
  a.info.slave_priority < b.info.slave_priority ∨
    a.info.slave_priority = b.info.slave_priority ∧
      (b.info.slave_repl_offset < a.info.slave_repl_offset ∨
        a.info.slave_repl_offset = b.info.slave_repl_offset ∧ SmallerRunid a.info.runid b.info.runid)

def runidKey : Option Bytes → WithTop (List ℕ)
  | some runid => caselessKey runid
  | none => ⊤

/-- The smaller the key, the better the slave. -/
def promotionKey (slave : Slave) : ℤ ×ₗ ℤ ×ₗ WithTop (List ℕ) :=
  toLex (slave.info.slave_priority, toLex (-(slave.info.slave_repl_offset : ℤ), runidKey slave.info.runid))

def DistinctRunids (now : Int) (m : Master) : Prop :=
  (goodSlaves now m).Pairwise fun a b => a.info.runid ≠ b.info.runid

structure SelectsBest (now : Int) (m : Master) : Prop where
  preorder : ComparesOn compareSlavesForPromotion (goodSlaves now m)
  null : ∀ selected, sentinelSelectSlave now m selected → (selected = none ↔ goodSlaves now m = [])
  best : ∀ slave, sentinelSelectSlave now m (some slave) →
    slave ∈ goodSlaves now m ∧ ∀ other ∈ goodSlaves now m, ¬ Better other slave
  determined : DistinctRunids now m → ∀ slaves, slaves.Perm m.slaves → ∀ selected selected',
    sentinelSelectSlave now m selected → sentinelSelectSlave now { m with slaves := slaves } selected' →
      selected = selected'

/-- The difference of two priorities is an `int`. -/
def PrioritiesClose (now : Int) (m : Master) : Prop :=
  ∀ a ∈ goodSlaves now m, ∀ b ∈ goodSlaves now m, a.info.slave_priority - b.info.slave_priority < 2 ^ 31

/-- Two of the best slaves have run ids that differ in the case of letters only, or behind a NUL. -/
def CaseTie (now : Int) (m : Master) : Prop :=
  ∃ a ∈ goodSlaves now m, ∃ b ∈ goodSlaves now m, a.info.runid ≠ b.info.runid ∧
    a.info.slave_priority = b.info.slave_priority ∧
    a.info.slave_repl_offset = b.info.slave_repl_offset ∧
    a.info.runid.map caselessKey = b.info.runid.map caselessKey ∧
    ∀ other ∈ goodSlaves now m, ¬ Better other a

def IntPriorities (m : Master) : Prop :=
  ∀ slave ∈ m.slaves, -2 ^ 31 ≤ slave.info.slave_priority ∧ slave.info.slave_priority < 2 ^ 31

end RedisCluster.Sentinel
