import RedisCluster.Sentinel.Failover

/-!
# `sentinel.c`: Sentinels that elect a leader

A Sentinel is known by its address; its run id is new after every restart. The requests and replies for votes
and the hello messages are in flight until they are delivered. The history has the votes that were granted and
what `sentinelGetLeader` returned.
-/

namespace RedisCluster.Sentinel

open RedisCluster.Util

/-! ## Messages -/

/-- SENTINEL is-master-down-by-addr. -/
structure Request where
  sender : Addr
  receiver : Addr
  /-- The master of the sender whose link carries the request. -/
  master : Bytes
  addr : Addr
  req_epoch : Nat
  /-- `none` for `*`. -/
  req_runid : Option Bytes
  deriving DecidableEq

structure Reply where
  sender : Addr
  receiver : Addr
  master : Bytes
  /-- `none` for `*`. -/
  leader : Option Bytes
  leader_epoch : Nat
  deriving DecidableEq

structure Grant where
  voter : Addr
  master : Bytes
  epoch : Nat
  runid : Bytes
  deriving DecidableEq

/-- What `sentinelGetLeader` returned to a Sentinel, and the quorum of the master then. -/
structure Elected where
  sentinel : Addr
  master : Bytes
  epoch : Nat
  runid : Bytes
  quorum : Nat
  deriving DecidableEq

structure World where
  sentinel : Addr → SentinelState
  requests : List Request
  replies : List Reply
  hellos : List Hello
  grants : List Grant
  elected : List Elected

/-! ## Sending -/

/-- One turn of the loop of `sentinelAskMasterStateToOtherSentinels`. -/
def askRequest (v : Addr) (s : SentinelState) (name : Bytes) (m : Master) (receiver : Addr) : Request :=
  { sender := v
    receiver := receiver
    master := name
    addr := m.addr
    req_epoch := s.current_epoch
    req_runid := if m.failover_state ≠ .none then some s.runid else none }

/-- The promoted slave's from the time its promotion was seen. -/
def sentinelGetCurrentMasterAddress (m : Master) : Addr :=
  match m.promoted_slave.bind (sentinelRedisInstanceLookupSlave m) with
  | some promoted =>
    if m.failover_in_progress ∧ FailoverState.reconf_slaves.code ≤ m.failover_state.code then promoted.addr
    else m.addr
  | none => m.addr

def helloOf (v : Addr) (s : SentinelState) (name : Bytes) (m : Master) : Hello :=
  { ip := v.ip
    port := v.port
    runid := s.runid
    current_epoch := s.current_epoch
    master_name := name
    master_ip := (sentinelGetCurrentMasterAddress m).ip
    master_port := (sentinelGetCurrentMasterAddress m).port
    master_config_epoch := m.config_epoch }

/-! ## The history -/

/-- The vote for a master that a step granted: only a vote moves `leader_epoch`. -/
def grantsOf (v : Addr) (name : Bytes) (s s' : SentinelState) : List Grant :=
  match s.masters name, s'.masters name with
  | some m, some m' =>
    if m'.leader_epoch = m.leader_epoch then []
    else
      match m'.leader with
      | some leader => [{ voter := v, master := name, epoch := m'.leader_epoch, runid := leader }]
      | none => []
  | _, _ => []

/-- The epoch and the master as the timer hands them to the failover. -/
def atStateMachine (o : Outside) (s_down o_down : Bool) (s : SentinelState) (m : Master) : Nat × Master :=
  sentinelStartFailoverIfNeeded o s.current_epoch (setDown o.now s_down o_down m)

def LooksUpLeader (s : SentinelState) (m : Master) : Prop :=
  s.tilt = false ∧ m.failover_in_progress = true ∧ m.failover_state = .wait_start

instance (s : SentinelState) (m : Master) : Decidable (LooksUpLeader s m) :=
  inferInstanceAs (Decidable (_ ∧ _))

def electedOf (v : Addr) (o : Outside) (s : SentinelState) : Event → List Elected
  | .timer name s_down o_down =>
    match s.masters name with
    | none => []
    | some m =>
      let r := atStateMachine o s_down o_down s m
      if LooksUpLeader s r.2 then
        match sentinelGetLeader o s.runid r.1 r.2 r.2.failover_epoch with
        | .ok (some leader, _) =>
          [{ sentinel := v
             master := name
             epoch := r.2.failover_epoch
             runid := leader
             quorum := r.2.quorum }]
        | _ => []
      else []
  | _ => []

/-! ## Steps -/

def Event.master : Event → Bytes
  | .monitor name _ _ _ => name
  | .remove name => name
  | .reset name => name
  | .failover name => name
  | .set name _ _ _ _ => name
  | .timer name _ _ => name
  | .switch name => name
  | .tilt _ => []
  | .masterInfo name _ => name
  | .slaveInfo name _ _ => name
  | .slaveLink name _ _ => name
  | .hello h => h.master_name
  | .isMasterDown name _ _ => name
  | .vote name _ _ _ => name
  | .rehash name _ => name

/-- What happens to a Sentinel alone, with the same masters and the same Sentinels around it. -/
def Event.isOwn : Event → Bool
  | .failover _ => true
  | .set _ _ _ _ _ => true
  | .timer _ _ _ => true
  | .switch _ => true
  | .tilt _ => true
  | .masterInfo _ _ => true
  | .slaveInfo _ _ _ => true
  | .slaveLink _ _ _ => true
  | .rehash _ _ => true
  | _ => false

inductive Act where
  | own (v : Addr) (e : Event)
  | ask (v : Addr) (name : Bytes) (receiver : Addr)
  /-- `found` is the master of the receiver with the address of the request. -/
  | request (r : Request) (found : Option Bytes)
  | reply (r : Reply)
  /-- A reply that is too old is forgotten. -/
  | forget (v : Addr) (name : Bytes) (sender : Addr)
  | publish (v : Addr) (name : Bytes)
  | hear (v : Addr) (h : Hello)
  /-- A restart from the configuration file. -/
  | restart (v : Addr) (s : SentinelState)

/-- A step of one Sentinel, with the vote it grants. -/
def World.at (w : World) (v : Addr) (name : Bytes) (r : Except Fault SentinelState) : Except Fault World :=
  r.map fun s => { w with
    sentinel := Function.update w.sentinel v s
    grants := w.grants ++ grantsOf v name (w.sentinel v) s }

/-- The answer to a request: a vote when the master is known and a run id is given. Epochs from 2^63 on get an
error. -/
def answer (w : World) (o : Outside) (r : Request) (found : Option Bytes) : Except Fault World :=
  let w := { w with requests := w.requests.erase r }
  if 2 ^ 63 ≤ r.req_epoch then .ok w
  else
    match found, r.req_runid with
    | some name, some req_runid => do
      let w ← w.at r.receiver name (step o (w.sentinel r.receiver) (.isMasterDown name r.req_epoch req_runid))
      let m := (w.sentinel r.receiver).masters name
      return { w with replies := w.replies ++ [
        { sender := r.receiver
          receiver := r.sender
          master := r.master
          leader := m.bind Master.leader
          leader_epoch := (m.map Master.leader_epoch).getD 0 }] }
    | _, _ =>
      .ok { w with replies := w.replies ++ [
        { sender := r.receiver, receiver := r.sender, master := r.master, leader := none, leader_epoch := 0 }] }

def receiveReply (w : World) (o : Outside) (r : Reply) : Except Fault World :=
  let w := { w with replies := w.replies.erase r }
  match r.leader with
  | none => .ok w
  | some leader =>
    w.at r.receiver r.master
      (step o (w.sentinel r.receiver) (.vote r.master r.sender (some leader) r.leader_epoch))

def forgetVote (s : SentinelState) (name : Bytes) (sender : Addr) : Except Fault SentinelState :=
  onMaster s name fun m => .ok (s.current_epoch, { m with
    sentinels := m.sentinels.map fun ri => if ri.name = sender then { ri with leader := none } else ri })

def act (w : World) (o : Outside) : Act → Except Fault World
  | .own v e =>
    (w.at v e.master (step o (w.sentinel v) e)).map fun w' =>
      { w' with elected := w'.elected ++ electedOf v o (w.sentinel v) e }
  | .ask v name receiver =>
    match (w.sentinel v).masters name with
    | none => .ok w
    | some m =>
      if m.s_down = false then .ok w
      else .ok { w with requests := w.requests ++ [askRequest v (w.sentinel v) name m receiver] }
  | .request r found => answer w o r found
  | .reply r => receiveReply w o r
  | .forget v name sender => w.at v name (forgetVote (w.sentinel v) name sender)
  | .publish v name =>
    match (w.sentinel v).masters name with
    | none => .ok w
    | some m => .ok { w with hellos := w.hellos ++ [helloOf v (w.sentinel v) name m] }
  | .hear v h => w.at v h.master_name (step o (w.sentinel v) (.hello h))
  | .restart v s =>
    .ok { w with
      sentinel := Function.update w.sentinel v s
      requests := w.requests.filter fun r => r.receiver ≠ v
      replies := w.replies.filter fun r => r.receiver ≠ v }

def actRun (w : World) : List (Outside × Act) → Except Fault World
  | [] => .ok w
  | (o, a) :: as => (act w o a).bind fun w => actRun w as

/-! ## What the Sentinels and the outside are -/

/-- The Sentinels, and whose a run id is: no two Sentinels ever have the same. -/
structure Group where
  members : List Addr
  owner : Bytes → Addr
  nodup : members.Nodup
  ports : ∀ v ∈ members, 0 < v.port ∧ v.port ≤ 65535

/-- The Sentinels that a Sentinel has for a master are all others. -/
structure Knows (g : Group) (v : Addr) (m : Master) : Prop where
  others : (m.sentinels.map OtherSentinel.addr).Perm (g.members.erase v)
  names : ∀ ri ∈ m.sentinels, ri.name = ri.addr
  runids : ∀ ri ∈ m.sentinels, ∀ runid, ri.runid = some runid → g.owner runid = ri.addr

/-- The state that the rewritten file gives. The file is rewritten with every vote, so `leader_epoch` is the
one before; nothing is known of the votes of others. -/
structure Restored (g : Group) (v : Addr) (s s' : SentinelState) : Prop where
  runid : g.owner s'.runid = v
  masters : ∀ name, (s'.masters name).isSome = (s.masters name).isSome
  epoch : ∀ name m m', s.masters name = some m → s'.masters name = some m' →
    m'.leader_epoch = m.leader_epoch ∧ m'.leader = none
  knows : ∀ name m', s'.masters name = some m' → Knows g v m' ∧ ∀ ri ∈ m'.sentinels, ri.leader = none

/-- The addresses of the Sentinels are numeric, and the order of a dict is an order of its entries. -/
def SoundOutside (g : Group) (o : Outside) : Prop :=
  (∀ v ∈ g.members, o.resolve v.ip = some v.ip) ∧ ∀ l, (o.order l).Perm l

def PossibleAct (g : Group) (w : World) (o : Outside) : Act → Prop
  | .own v e => v ∈ g.members ∧ e.isOwn = true ∧ Possible o (w.sentinel v) e
  | .ask v _ receiver => v ∈ g.members ∧ receiver ∈ g.members ∧ receiver ≠ v
  | .request r found =>
    r ∈ w.requests ∧
      match found with
      | none => ∀ name m, (w.sentinel r.receiver).masters name = some m → m.addr ≠ r.addr
      | some name => ∃ m, (w.sentinel r.receiver).masters name = some m ∧ m.addr = r.addr
  | .reply r => r ∈ w.replies
  | .forget v _ _ => v ∈ g.members
  | .publish v _ => v ∈ g.members
  | .hear v h => v ∈ g.members ∧ h ∈ w.hellos ∧ (⟨h.ip, h.port⟩ : Addr) ≠ v
  | .restart v s => v ∈ g.members ∧ Restored g v (w.sentinel v) s

def PossibleActs (g : Group) : World → List (Outside × Act) → Prop
  | _, [] => True
  | w, (o, a) :: as =>
    SoundOutside g o ∧ PossibleAct g w o a ∧ ∀ w', act w o a = .ok w' → PossibleActs g w' as

/-- Before any message and any vote. -/
structure Begins (g : Group) (w : World) : Prop where
  requests : w.requests = []
  replies : w.replies = []
  hellos : w.hellos = []
  grants : w.grants = []
  elected : w.elected = []
  runid : ∀ v ∈ g.members, g.owner (w.sentinel v).runid = v
  knows : ∀ v ∈ g.members, ∀ name m, (w.sentinel v).masters name = some m →
    Knows g v m ∧ m.leader = none ∧ ∀ ri ∈ m.sentinels, ri.leader = none

/-! ## What must hold -/

/-- The Sentinels that granted a run id their vote. -/
def votersFor (g : Group) (w : World) (name : Bytes) (epoch : Nat) (runid : Bytes) : List Addr :=
  g.members.filter fun v => { voter := v, master := name, epoch := epoch, runid := runid : Grant } ∈ w.grants

structure ElectionSafe (g : Group) (w : World) : Prop where
  /-- A leader has the votes of a majority, and of the quorum. -/
  majority : ∀ x ∈ w.elected,
    g.members.length / 2 + 1 ≤ (votersFor g w x.master x.epoch x.runid).length ∧
      x.quorum ≤ (votersFor g w x.master x.epoch x.runid).length
  one_vote : ∀ a ∈ w.grants, ∀ b ∈ w.grants, a.voter = b.voter → a.master = b.master →
    a.epoch = b.epoch → a.runid = b.runid
  one_leader : ∀ x ∈ w.elected, ∀ y ∈ w.elected, x.master = y.master → x.epoch = y.epoch →
    x.runid = y.runid

/-! ## When it does -/

/-- The leader is looked up only while the epoch is still the one of the failover, and a request is answered
for the master it is about. -/
def Act.Fine (w : World) (o : Outside) : Act → Prop
  | .own v (.timer name s_down o_down) =>
    ∀ m, (w.sentinel v).masters name = some m →
      LooksUpLeader (w.sentinel v) (atStateMachine o s_down o_down (w.sentinel v) m).2 →
      (atStateMachine o s_down o_down (w.sentinel v) m).1 =
        (atStateMachine o s_down o_down (w.sentinel v) m).2.failover_epoch
  | .request r found => ∀ name, found = some name → name = r.master
  | _ => True

def FineActs : World → List (Outside × Act) → Prop
  | _, [] => True
  | w, (o, a) :: as => a.Fine w o ∧ ∀ w', act w o a = .ok w' → FineActs w' as

end RedisCluster.Sentinel

/-!
## `sentinel.c`: the configuration that Sentinels agree on

A configuration is an address of a master under the epoch of the failover that chose it. A Sentinel advertises
one for each of its masters in its hello messages.
-/

namespace RedisCluster.Sentinel

open RedisCluster.Util

/-! ## Configurations -/

structure Config where
  master : Bytes
  config_epoch : Nat
  addr : Addr
  deriving DecidableEq

def Hello.config (h : Hello) : Config :=
  { master := h.master_name
    config_epoch := h.master_config_epoch
    addr := { ip := h.master_ip, port := h.master_port } }

/-- What a Sentinel advertises for a master. -/
def advertises (name : Bytes) (m : Master) : Config :=
  { master := name
    config_epoch := m.config_epoch
    addr := sentinelGetCurrentMasterAddress m }

/-- What was advertised in a hello message at any time, or is at this one. -/
def Advertised (g : Group) (w : World) (c : Config) : Prop :=
  (∃ h ∈ w.hellos, h.config = c) ∨
    ∃ v ∈ g.members, ∃ m, (w.sentinel v).masters c.master = some m ∧ advertises c.master m = c

/-! ## Leaders -/

/-- A Sentinel that went from the election to the failover, elected or forced. -/
structure Leader where
  sentinel : Addr
  master : Bytes
  epoch : Nat
  deriving DecidableEq

def leadersAt (v : Addr) (name : Bytes) (s s' : SentinelState) : List Leader :=
  match s.masters name, s'.masters name with
  | some m, some m' =>
    if m.failover_state ≠ .select_slave ∧ m'.failover_state = .select_slave then
      [{ sentinel := v, master := name, epoch := m'.failover_epoch }]
    else []
  | _, _ => []

def Act.leaders (w w' : World) : Act → List Leader
  | .own v e => leadersAt v e.master (w.sentinel v) (w'.sentinel v)
  | _ => []

def leadersOf : World → List (Outside × Act) → List Leader
  | _, [] => []
  | w, (o, a) :: as =>
    match act w o a with
    | .ok w' => a.leaders w w' ++ leadersOf w' as
    | .error _ => []

def OneLeader (leaders : List Leader) : Prop :=
  ∀ x ∈ leaders, ∀ y ∈ leaders, x.master = y.master → x.epoch = y.epoch → x.sentinel = y.sentinel

/-! ## The outside -/

/-- Names resolve to numeric addresses, and these to themselves. -/
def SoundResolve (numeric : Bytes → Prop) (o : Outside) : Prop :=
  (∀ hostname ip, o.resolve hostname = some ip → numeric ip) ∧
    ∀ ip, numeric ip → o.resolve ip = some ip

def Addr.Valid (numeric : Bytes → Prop) (a : Addr) : Prop :=
  numeric a.ip ∧ 0 < a.port ∧ a.port ≤ 65535

/-- No restarts: failovers and messages only. -/
def PossibleConfigActs (g : Group) (numeric : Bytes → Prop) : World → List (Outside × Act) → Prop
  | _, [] => True
  | w, (o, a) :: as =>
    SoundResolve numeric o ∧ (∀ v s, a ≠ .restart v s) ∧ PossibleAct g w o a ∧
      ∀ w', act w o a = .ok w' → PossibleConfigActs g numeric w' as

/-- The Sentinels were told the same address of each master and nothing else has happened. -/
structure BeginsAgreed (g : Group) (numeric : Bytes → Prop) (w : World) : Prop where
  requests : w.requests = []
  replies : w.replies = []
  hellos : w.hellos = []
  fresh : ∀ v ∈ g.members, ∀ name m, (w.sentinel v).masters name = some m →
    m.config_epoch = 0 ∧ m.slaves = [] ∧ m.failover_in_progress = false ∧ m.failover_state = .none ∧
      m.promoted_slave = none ∧ m.addr.Valid numeric
  same : ∀ u ∈ g.members, ∀ v ∈ g.members, ∀ name m m', (w.sentinel u).masters name = some m →
    (w.sentinel v).masters name = some m' → m.addr = m'.addr

/-! ## What must hold -/

/-- A Sentinel that hears the messages one after the other. -/
def hearAll (s : SentinelState) (hs : List (Outside × Hello)) : Except Fault SentinelState :=
  run s (hs.map fun x => (x.1, .hello x.2))

structure Agreement (g : Group) (numeric : Bytes → Prop) (w : World) (acts : List (Outside × Act)) :
    Prop where
  same_address : ∀ w', actRun w acts = .ok w' → ∀ c d, Advertised g w' c → Advertised g w' d →
    c.master = d.master → c.config_epoch = d.config_epoch → c.addr = d.addr
  never_decreases : ∀ before after w₁ w₂, acts = before ++ after → actRun w before = .ok w₁ →
    actRun w₁ after = .ok w₂ → ∀ v ∈ g.members, ∀ name m₁ m₂, (w₁.sentinel v).masters name = some m₁ →
    (w₂.sentinel v).masters name = some m₂ → m₁.config_epoch ≤ m₂.config_epoch
  any_order : ∀ w', actRun w acts = .ok w' → ∀ v ∈ g.members, ∀ name m,
    (w'.sentinel v).masters name = some m → m.failover_in_progress = false →
    ∀ hs hs', (∀ x ∈ hs ++ hs', SoundResolve numeric x.1 ∧ x.2 ∈ w'.hellos) →
    (∀ h, h ∈ hs.map Prod.snd ↔ h ∈ hs'.map Prod.snd) →
    ∀ s s', hearAll (w'.sentinel v) hs = .ok s → hearAll (w'.sentinel v) hs' = .ok s' →
    (s.masters name).map (advertises name) = (s'.masters name).map (advertises name)

/-! ## When it does -/

/-- A Sentinel in a failover of a master does not hear of a configuration newer than the failover that has the
address the master still has, and no failover starts after the last epoch. -/
def Act.FineConfig (w : World) (o : Outside) : Act → Prop
  | .own v (.timer name s_down o_down) =>
    ∀ m, (w.sentinel v).masters name = some m → (w.sentinel v).tilt = false →
      (atStateMachine o s_down o_down (w.sentinel v) m).2.failover_in_progress = true →
      m.failover_in_progress = true ∨ (w.sentinel v).current_epoch + 1 < 2 ^ 64
  | .own v (.failover name) =>
    ∀ m, (w.sentinel v).masters name = some m → m.failover_in_progress = false → o.selected ≠ none →
      (w.sentinel v).current_epoch + 1 < 2 ^ 64
  | .hear v h =>
    ∀ m, (w.sentinel v).masters h.master_name = some m → m.failover_in_progress = true →
      m.addr = { ip := h.master_ip, port := h.master_port } → h.master_config_epoch ≤ m.failover_epoch
  | _ => True

def FineConfigActs : World → List (Outside × Act) → Prop
  | _, [] => True
  | w, (o, a) :: as => a.FineConfig w o ∧ ∀ w', act w o a = .ok w' → FineConfigActs w' as

end RedisCluster.Sentinel
