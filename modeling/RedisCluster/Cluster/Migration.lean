import RedisCluster.Multi.Processing

/-!
# A slot that moves from one node to another

Two nodes with their cluster states and the keys they hold. A client sends its commands to the source and
repeats one at the target, after ASKING, when the source replied ASK. MIGRATE is one step: the target
executes RESTORE-ASKING and the node that sent it deletes the key. Of a command only its keys matter, and
which keys are there after it.
-/

namespace RedisCluster.Migration

open RedisCluster.Bus RedisCluster.Multi

variable {ν : Type}

structure Node (ν : Type) where
  cluster : BusState ν
  /-- The keys of database 0 that are there and not expired. -/
  keys : Finset Bytes

/-! ## Redirection -/

/-- One round of the loop of `getNodeByQuery`. -/
def scanKey (node : Node ν) (r : Option KeyScan) (key : Bytes) : Except Route KeyScan :=
  match r.elim (firstKey node.cluster key) (fun r => nextKey r key) with
  | .error e => .error e
  | .ok r =>
    .ok (if (r.migrating_slot || r.importing_slot) && decide (key ∉ node.keys) then
      { r with missing_keys := r.missing_keys + 1 } else r)

def scanKeys (node : Node ν) : List Bytes → Option KeyScan → Except Route (Option KeyScan)
  | [], r => .ok r
  | key :: keys, r =>
    match scanKey node r key with
    | .error e => .error e
    | .ok r => scanKeys node keys (some r)

/-- `keys` are the keys of the command, or for EXEC those of the queued commands one after the other. -/
def getNodeByQuery (node : Node ν) (session : Session) (cmd : RedisCommand) (keys : List Bytes) :
    Route :=
  match scanKeys node keys none with
  | .error e => e
  | .ok r => routeQuery node.cluster session cmd r

/-- `processCommand` goes on to execute the command, for this result of `getNodeByQuery`. -/
def isMyself (node : Node ν) : Route → Bool
  | .node n _ _ => n == node.cluster.myself
  | _ => false

def isAsk (node : Node ν) : Route → Bool
  | .node n _ ask => n != node.cluster.myself && ask
  | _ => false

/-- The command is executed, or the reply is ASK, MOVED or TRYAGAIN. -/
def redirects : Route → Bool
  | .node _ _ _ => true
  | .unstable => true
  | _ => false

/-! ## The two nodes and their clients -/

/-- What a client sends. The command may create its keys, and remove any. -/
structure Request where
  cmd : RedisCommand
  session : Session
  keys : List Bytes
  effect : Finset Bytes → Finset Bytes
  effect_subset : ∀ present, effect present ⊆ present ∪ keys.toFinset

inductive Side where
  | source
  | target
  deriving DecidableEq, Repr

def Side.other : Side → Side
  | .source => .target
  | .target => .source

structure State (ν : Type) where
  node : Side → Node ν
  /-- The requests that the source answered with ASK. -/
  asked : List Request

def setKeys (s : State ν) (side : Side) (keys : Finset Bytes) : State ν :=
  { s with node := Function.update s.node side { s.node side with keys := keys } }

inductive Action where
  /-- A client sends a command to the source. -/
  | command (r : Request)
  /-- A client sends ASKING and a command that was answered with ASK to the target. -/
  | asking (i : Nat)
  /-- MIGRATE at `side`. `cmd` and `session` are those of RESTORE-ASKING at the other node, which can
  still fail there. -/
  | migrate (side : Side) (key : Bytes) (replace : Bool) (cmd : RedisCommand) (session : Session)
      (fails : Bool)
  /-- The time of a key comes, or it is evicted. -/
  | expire (side : Side) (key : Bytes)

/-- The session of a client that sent ASKING. -/
def askingSession (r : Request) : Session := { r.session with asking := true }

/-- The node that executes a command in this step, and the command. -/
def executes (s : State ν) : Action → Option (Side × Request)
  | .command r =>
    if isMyself (s.node .source) (getNodeByQuery (s.node .source) r.session r.cmd r.keys) then
      some (.source, r)
    else none
  | .asking i =>
    match s.asked[i]? with
    | none => none
    | some r =>
      if isMyself (s.node .target)
          (getNodeByQuery (s.node .target) (askingSession r) r.cmd r.keys) then
        some (.target, r)
      else none
  | _ => none

/-- RESTORE-ASKING at the node: whether it stored the key. -/
def restores (node : Node ν) (key : Bytes) (replace : Bool) (cmd : RedisCommand) (session : Session)
    (fails : Bool) : Bool :=
  isMyself node (getNodeByQuery node session cmd [key]) && (replace || decide (key ∉ node.keys)) &&
    !fails

def step (s : State ν) (a : Action) : State ν :=
  match executes s a with
  | some (side, r) => setKeys s side (r.effect (s.node side).keys)
  | none =>
    match a with
    | .command r =>
      if isAsk (s.node .source) (getNodeByQuery (s.node .source) r.session r.cmd r.keys) then
        { s with asked := s.asked ++ [r] }
      else s
    | .asking _ => s
    | .migrate side key replace cmd session fails =>
      if key ∈ (s.node side).keys ∧
          restores (s.node side.other) key replace cmd session fails = true then
        setKeys (setKeys s side.other (insert key (s.node side.other).keys)) side
          ((s.node side).keys.erase key)
      else s
    | .expire side key => setKeys s side ((s.node side).keys.erase key)

/-! ## What is promised -/

/-- The source owns the slot and moves it to another node; the target takes it from the owner. -/
structure Moving (slot : Nat) (s : State ν) : Prop where
  owner : (s.node .source).cluster.slots slot = some (s.node .source).cluster.myself
  migrating : ∃ n, (s.node .source).cluster.migrating_slots_to slot = some n ∧
    n ≠ (s.node .source).cluster.myself
  importer : ∃ n, (s.node .target).cluster.slots slot = some n ∧ n ≠ (s.node .target).cluster.myself
  importing : ((s.node .target).cluster.importing_slots_from slot).isSome

/-- Commands and MIGRATE are about keys of the slot; RESTORE-ASKING is flagged as such. -/
def ActionOf (slot : Nat) : Action → Prop
  | .command r => r.keys ≠ [] ∧ ∀ key ∈ r.keys, keyHashSlot key = slot
  | .migrate _ key _ cmd _ _ => keyHashSlot key = slot ∧ cmd.flags.asking = true
  | _ => True

def OnOneNode (s : State ν) : Prop := Disjoint (s.node .source).keys (s.node .target).keys

/-- The node that executes a command has all its keys that are anywhere. -/
def ExecutesWithKeys (s : State ν) (a : Action) : Prop :=
  ∀ side r, executes s a = some (side, r) →
    ∀ key ∈ r.keys, ∀ anywhere, key ∈ (s.node anywhere).keys → key ∈ (s.node side).keys

/-- A client whose command is not executed gets ASK, MOVED or TRYAGAIN. -/
def Answered (s : State ν) : Action → Prop
  | .command r => redirects (getNodeByQuery (s.node .source) r.session r.cmd r.keys) = true
  | .asking i => ∀ r, s.asked[i]? = some r →
      redirects (getNodeByQuery (s.node .target) (askingSession r) r.cmd r.keys) = true
  | _ => True

def MigrationSafe : State ν → List Action → Prop
  | s, [] => OnOneNode s
  | s, a :: as => OnOneNode s ∧ ExecutesWithKeys s a ∧ Answered s a ∧ MigrationSafe (step s a) as

end RedisCluster.Migration
