import RedisCluster.Sentinel.Instance

/-!
# `sentinel.c`: what happens to one Sentinel

The replies to INFO, the hello messages, the commands and the timer, and a run of them. A reply to INFO is the
list of its lines; a SLAVEOF that is sent leaves no trace in the state.
-/

namespace RedisCluster.Sentinel

open RedisCluster.Util
open RedisCluster.Multi (tolower sameCaseless)

/-! ## INFO -/

inductive InfoLine where
  | run_id (runid : Bytes)
  | slave (ip : Bytes) (port : Int)
  | master_link_down_since_seconds (seconds : Int)
  | role (role : Role)
  | master_host (host : Bytes)
  | master_port (port : Int)
  | master_link_status (up : Bool)
  | slave_priority (priority : Int)
  | slave_repl_offset (offset : Nat)

/-- One line; `role` is what the lines before it said. The lines from `master_host` on count for a slave
only. -/
def infoLine (now : Int) (role : Option Role) (i : Info) : InfoLine → Info
  | .run_id runid => { i with runid := some runid }
  | .slave _ _ => i
  | .master_link_down_since_seconds seconds => { i with master_link_down_time := seconds * 1000 }
  | .role _ => i
  | .master_host host =>
    if role ≠ some .slave then i
    else if i.slave_master_host.any fun old => sameCaseless host old then i
    else { i with slave_master_host := some host, slave_conf_change_time := now }
  | .master_port port =>
    if role ≠ some .slave then i
    else if i.slave_master_port = port then i
    else { i with slave_master_port := port, slave_conf_change_time := now }
  | .master_link_status up => if role ≠ some .slave then i else { i with slave_master_link_up := up }
  | .slave_priority priority => if role ≠ some .slave then i else { i with slave_priority := priority }
  | .slave_repl_offset offset => if role ≠ some .slave then i else { i with slave_repl_offset := offset }

def roleLine (role : Option Role) : InfoLine → Option Role
  | .role r => some r
  | _ => role

def infoLines (now : Int) : Option Role → Info → List InfoLine → Option Role × Info
  | role, i, [] => (role, i)
  | role, i, line :: lines => infoLines now (roleLine role line) (infoLine now role i line) lines

/-- The role is remembered with the time at which it changed. -/
def reportRole (now : Int) (role : Option Role) (i : Info) : Info :=
  let i := { i with info_refresh := now }
  if role = i.role_reported then i
  else
    { i with
      role_reported_time := now
      role_reported := role
      slave_conf_change_time := if role = some .slave then now else i.slave_conf_change_time }

/-- `sentinelRefreshInstanceInfo` for a master: the slaves that are new are added. -/
def refreshMaster (o : Outside) (lines : List InfoLine) (m : Master) : Master :=
  let r := infoLines o.now none m.info lines
  let slaves := lines.filterMap fun
    | .slave ip port => some { ip := ip, port := port : Addr }
    | _ => none
  { slaves.foldl (addSlave o) m with info := reportRole o.now r.1 r.2 }

/-- A slave that was told its new master has turned to it. `promoted_slave` is read when the host is known. -/
def reconfInprog (m : Master) (slave : Slave) : Except Fault Slave :=
  if slave.reconf_sent = false then .ok slave
  else
    match slave.info.slave_master_host with
    | none => .ok slave
    | some host =>
      (promotedSlave m).map fun promoted =>
        if host = promoted.addr.ip ∧ slave.info.slave_master_port = promoted.addr.port then
          { slave with reconf_sent := false, reconf_inprog := true }
        else slave

def reconfDone (slave : Slave) : Slave :=
  if slave.reconf_inprog ∧ slave.info.slave_master_link_up then
    { slave with reconf_inprog := false, reconf_done := true }
  else slave

/-- What `sentinelRefreshInstanceInfo` does about the role that a slave reported. -/
def actOnRole (o : Outside) (tilt : Bool) (role : Option Role) (slave : Slave) (m : Master) :
    Except Fault Master :=
  if tilt then .ok m
  else
    match role with
    | none => .ok m
    | some .master =>
      if m.failover_in_progress ∧ m.failover_state = .wait_promotion then
        .ok { m with
          config_epoch := m.failover_epoch
          failover_state := .reconf_slaves
          failover_state_change_time := o.now }
      else .ok m
    | some .slave =>
      -- the host is compared when the ports are the same
      if slave.info.slave_master_port = m.addr.port ∧ slave.info.slave_master_host = none then
        .error .nullPointer
      else if slave.reconf_sent ∨ slave.reconf_inprog then
        (reconfInprog m slave).map fun slave' =>
          { m with slaves := updateSlave slave.name (fun _ => reconfDone slave') m.slaves }
      else .ok m

/-- `sentinelRefreshInstanceInfo` for a slave of this name. -/
def refreshSlave (o : Outside) (tilt : Bool) (lines : List InfoLine) (name : Addr) (m : Master) :
    Except Fault Master :=
  match sentinelRedisInstanceLookupSlave m name with
  | none => .ok m
  | some ri =>
    let r := infoLines o.now none ri.info lines
    let slave := { ri with info := reportRole o.now r.1 r.2 }
    actOnRole o tilt r.1 slave { m with slaves := updateSlave name (fun _ => slave) m.slaves }

/-! ## Hello messages -/

structure Hello where
  ip : Bytes
  port : Int
  runid : Bytes
  current_epoch : Nat
  master_name : Bytes
  master_ip : Bytes
  master_port : Int
  master_config_epoch : Nat

/-- The sender is found or made; `false` when it cannot be made. -/
def helloSender (o : Outside) (h : Hello) (m : Master) : Bool × Master :=
  let addr : Addr := { ip := h.ip, port := h.port }
  if m.sentinels.any fun ri => ri.runid = some h.runid ∧ ri.addr = addr then (true, m)
  else
    let sentinels := m.sentinels.filter fun ri => ¬(ri.runid = some h.runid ∨ ri.addr = addr)
    match createSentinelAddr o h.ip h.port with
    | none => (false, { m with sentinels := sentinels })
    | some resolved =>
      if sentinels.any fun ri => ri.name = addr then (false, { m with sentinels := sentinels })
      else
        (true, { m with sentinels := sentinels ++ [
          { name := addr
            addr := resolved
            runid := some h.runid
            leader := none
            leader_epoch := 0
            last_master_down_reply_time := o.now }] })

/-- The newer configuration is taken; the event about a new address names the sender. -/
def helloConfig (o : Outside) (h : Hello) (sender : Bool) (m : Master) : Except Fault Master :=
  if m.config_epoch < h.master_config_epoch then
    let m := { m with config_epoch := h.master_config_epoch }
    if h.master_port = m.addr.port ∧ m.addr.ip = h.master_ip then .ok m
    else if sender = false then .error .nullSender
    else .ok ((sentinelResetMasterAndChangeAddress o h.master_ip h.master_port m).getD m)
  else .ok m

def sentinelProcessHelloMessage (o : Outside) (h : Hello) (s : SentinelState) :
    Except Fault SentinelState :=
  match s.masters h.master_name with
  | none => .ok s
  | some m => do
    let sender := helloSender o h m
    let m ← helloConfig o h sender.1 sender.2
    return setMaster { s with current_epoch := max s.current_epoch h.current_epoch } h.master_name m

/-! ## Commands and the timer -/

/-- `createSentinelRedisInstance` for a master. -/
def createMaster (o : Outside) (ip : Bytes) (port : Int) (quorum : Nat) : Option Master :=
  (createSentinelAddr o ip port).map fun addr =>
    { addr := addr
      quorum := quorum
      s_down := false
      o_down := false
      failover_in_progress := false
      force_failover := false
      s_down_since_time := 0
      down_after_period := 30000
      parallel_syncs := 1
      slaves := []
      sentinels := []
      leader := none
      leader_epoch := 0
      config_epoch := 0
      failover_epoch := 0
      failover_state := .none
      failover_state_change_time := 0
      failover_start_time := 0
      failover_timeout := 180000
      promoted_slave := none
      info := newInfo o.now .master }

def failoverCommand (o : Outside) (current_epoch : Nat) (m : Master) : Nat × Master :=
  if m.failover_in_progress then (current_epoch, m)
  else if o.selected = none then (current_epoch, m)
  else
    let r := sentinelStartFailover o current_epoch m
    (r.1, { r.2 with force_failover := true })

/-- What the checks for subjectively and objectively down found. -/
def setDown (now : Int) (s_down o_down : Bool) (m : Master) : Master :=
  { m with
    s_down := s_down
    o_down := o_down
    s_down_since_time := if s_down ∧ m.s_down = false then now else m.s_down_since_time }

/-- `sentinelHandleRedisInstance` for a master. -/
def handleMaster (o : Outside) (s_down o_down : Bool) (s : SentinelState) (m : Master) :
    Except Fault (Nat × Master) :=
  if s.tilt then .ok (s.current_epoch, m)
  else
    let r := sentinelStartFailoverIfNeeded o s.current_epoch (setDown o.now s_down o_down m)
    sentinelFailoverStateMachine o s.runid r.1 r.2

/-- What the link to a slave and the checks on it set. -/
structure SlaveLink where
  s_down : Bool
  o_down : Bool
  disconnected : Bool
  last_avail_time : Int

inductive Event where
  | monitor (name ip : Bytes) (port : Int) (quorum : Nat)
  | remove (name : Bytes)
  | reset (name : Bytes)
  | failover (name : Bytes)
  | set (name : Bytes) (quorum : Nat) (down_after_period failover_timeout parallel_syncs : Int)
  | timer (name : Bytes) (s_down o_down : Bool)
  /-- The end of the timer, for a master in the last state. -/
  | switch (name : Bytes)
  | tilt (on : Bool)
  | masterInfo (name : Bytes) (lines : List InfoLine)
  | slaveInfo (name : Bytes) (slave : Addr) (lines : List InfoLine)
  | slaveLink (name : Bytes) (slave : Addr) (link : SlaveLink)
  | hello (h : Hello)
  /-- A request for a vote. -/
  | isMasterDown (name : Bytes) (req_epoch : Nat) (req_runid : Bytes)
  /-- A reply with a vote, or the vote of a reply that is too old taken back. -/
  | vote (name : Bytes) (sentinel : Addr) (leader : Option Bytes) (leader_epoch : Nat)
  /-- The dict of the slaves has another order. -/
  | rehash (name : Bytes) (slaves : List Slave)

def onMaster (s : SentinelState) (name : Bytes) (f : Master → Except Fault (Nat × Master)) :
    Except Fault SentinelState :=
  match s.masters name with
  | none => .ok s
  | some m => (f m).map fun r => setMaster { s with current_epoch := r.1 } name r.2

def step (o : Outside) (s : SentinelState) : Event → Except Fault SentinelState
  | .monitor name ip port quorum =>
    match s.masters name, createMaster o ip port quorum with
    | none, some m => .ok (setMaster s name m)
    | _, _ => .ok s
  | .remove name => .ok { s with masters := Function.update s.masters name none }
  | .reset name => onMaster s name fun m => .ok (s.current_epoch, sentinelResetMaster o.now false m)
  | .failover name => onMaster s name fun m => .ok (failoverCommand o s.current_epoch m)
  | .set name quorum down_after_period failover_timeout parallel_syncs =>
    onMaster s name fun m => .ok (s.current_epoch, { m with
      quorum := quorum
      down_after_period := down_after_period
      failover_timeout := failover_timeout
      parallel_syncs := parallel_syncs })
  | .timer name s_down o_down => onMaster s name (handleMaster o s_down o_down s)
  | .switch name =>
    onMaster s name fun m =>
      if m.failover_state = .update_config then
        (sentinelFailoverSwitchToPromotedSlave o m).map fun m => (s.current_epoch, m)
      else .ok (s.current_epoch, m)
  | .tilt on => .ok { s with tilt := on }
  | .masterInfo name lines => onMaster s name fun m => .ok (s.current_epoch, refreshMaster o lines m)
  | .slaveInfo name slave lines =>
    onMaster s name fun m => (refreshSlave o s.tilt lines slave m).map fun m => (s.current_epoch, m)
  | .slaveLink name slave link =>
    onMaster s name fun m => .ok (s.current_epoch, { m with
      slaves := updateSlave slave (fun slave => { slave with
        s_down := link.s_down
        o_down := link.o_down
        disconnected := link.disconnected
        last_avail_time := link.last_avail_time }) m.slaves })
  | .hello h => sentinelProcessHelloMessage o h s
  | .isMasterDown name req_epoch req_runid =>
    onMaster s name fun m => .ok (sentinelVoteLeader o s.runid s.current_epoch m req_epoch req_runid)
  | .vote name sentinel leader leader_epoch =>
    onMaster s name fun m => .ok (s.current_epoch, { m with
      sentinels := m.sentinels.map fun ri =>
        if ri.name = sentinel then
          { ri with leader := leader, leader_epoch := leader_epoch, last_master_down_reply_time := o.now }
        else ri })
  | .rehash name slaves => onMaster s name fun m => .ok (s.current_epoch, { m with slaves := slaves })

def Possible (o : Outside) (s : SentinelState) : Event → Prop
  | .timer name s_down o_down =>
    ∀ m, s.masters name = some m → Selects o.now (setDown o.now s_down o_down m) o.selected
  | .failover name => ∀ m, s.masters name = some m → Selects o.now m o.selected
  | .rehash name slaves => ∀ m, s.masters name = some m → slaves.Perm m.slaves
  | _ => True

def start (runid : Bytes) : SentinelState :=
  { runid := runid, current_epoch := 0, tilt := false, masters := fun _ => none }

def run : SentinelState → List (Outside × Event) → Except Fault SentinelState
  | s, [] => .ok s
  | s, (o, e) :: es => (step o s e).bind fun s => run s es

/-! ## What must hold -/

/-- The promoted slave is in the table with its flag, from the time it is told until the switch; no other
slave has the flag; the flag of the master tells whether there is a state. -/
structure FailoverState.Consistent (m : Master) : Prop where
  promoted : FailoverState.send_slaveof_noone.code ≤ m.failover_state.code →
    ∃ slave ∈ m.slaves, m.promoted_slave = some slave.name ∧ slave.promoted = true
  others : ∀ slave ∈ m.slaves, slave.promoted = true → m.promoted_slave = some slave.name
  in_progress : m.failover_in_progress = true ↔ m.failover_state ≠ .none

/-- The reply to INFO with the role master that the promoted slave itself sent. -/
def ReportsPromotion (m : Master) (name : Bytes) (e : Event) : Prop :=
  ∃ slave lines, e = .slaveInfo name slave lines ∧ lines.foldl roleLine none = some .master ∧
    m.promoted_slave = some slave

/-- `config_epoch` is set to `failover_epoch`, with the state that goes with it, or changed in another way
than by a hello message. -/
def SetsConfigEpoch (m m' : Master) (e : Event) : Prop :=
  (m.failover_state = .wait_promotion ∧ m'.failover_state = .reconf_slaves) ∨
    (m'.config_epoch ≠ m.config_epoch ∧ ∀ h, e ≠ .hello h)

/-- What the events did was right up to here. -/
structure Safe (s : SentinelState) (es : List (Outside × Event)) : Prop where
  consistent : ∀ s', run s es = .ok s' → ∀ name m, s'.masters name = some m →
    FailoverState.Consistent m
  no_fault : run s es ≠ .error .assertion ∧ run s es ≠ .error .nullPointer
  config_epoch : ∀ before o e after s₁ s₂ name m m', es = before ++ (o, e) :: after →
    run s before = .ok s₁ → step o s₁ e = .ok s₂ → s₁.masters name = some m →
    s₂.masters name = some m' → SetsConfigEpoch m m' e → ReportsPromotion m name e

/-! ## When it does -/

/-- A reply to INFO from another slave does not say master while the promotion is waited for, and one that says
slave has told its master's host if it has told the port that the master has. -/
def Event.Fine (o : Outside) (s : SentinelState) : Event → Prop
  | .slaveInfo name slave lines =>
    ∀ m ri, s.tilt = false → s.masters name = some m →
      sentinelRedisInstanceLookupSlave m slave = some ri →
      (lines.foldl roleLine none = some .master → m.failover_state = .wait_promotion →
        m.promoted_slave = some slave) ∧
      (lines.foldl roleLine none = some .slave →
        (infoLines o.now none ri.info lines).2.slave_master_port = m.addr.port →
        (infoLines o.now none ri.info lines).2.slave_master_host ≠ none)
  | _ => True

def PossibleRun : SentinelState → List (Outside × Event) → Prop
  | _, [] => True
  | s, (o, e) :: es => Possible o s e ∧ ∀ s', step o s e = .ok s' → PossibleRun s' es

/-- A run whose replies to INFO are all fine. -/
def FineRun : SentinelState → List (Outside × Event) → Prop
  | _, [] => True
  | s, (o, e) :: es => e.Fine o s ∧ ∀ s', step o s e = .ok s' → FineRun s' es

end RedisCluster.Sentinel
