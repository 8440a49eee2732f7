import Mathlib.Logic.Function.Basic
import RedisCluster.Util.Glob

/-!
# `pubsub.c`: channels, patterns and their subscribers

A client is known by its address, which `freeClient` gives back. Channels and patterns come from
command arguments, which are plain strings, so an object is its bytes and `equalStringObjects`,
`getDecodedObject` and the key comparison of both dicts are equality. The keys of a client's dict are
a list; in which order an iterator meets them is up to the dict.
-/

namespace RedisCluster.Pubsub

open RedisCluster.Util RedisCluster.Util.Glob

abbrev ClientId := Nat

/-- What is added to a client's output buffers at once, the counts being those of its subscriptions.
Without a channel or pattern the reply is that of a client that had none. -/
inductive Push where
  | subscribe (channel : Bytes) (count : Nat)
  | unsubscribe (channel : Option Bytes) (count : Nat)
  | psubscribe (pattern : Bytes) (count : Nat)
  | punsubscribe (pattern : Option Bytes) (count : Nat)
  | message (channel message : Bytes)
  | pmessage (pattern channel message : Bytes)
  deriving DecidableEq, Repr

/-- The fields of `redisClient` that this file and `addReply` read; `master` is `REDIS_MASTER` without
`REDIS_MASTER_FORCE_REPLY`. -/
structure Client where
  pubsub_channels : List Bytes
  pubsub_patterns : List Bytes
  master : Bool
  close_after_reply : Bool
  fd : Int
  deriving DecidableEq, Repr

/-- `prepareClientToWrite`, and the test for `REDIS_CLOSE_AFTER_REPLY` of all that fill a buffer. -/
def Client.accepts (x : Client) : Bool := !x.master && 0 < x.fd && !x.close_after_reply

structure Server where
  client : ClientId → Option Client
  pubsub_channels : Bytes → Option (List ClientId)
  pubsub_patterns : List (ClientId × Bytes)
  /-- What was added to the output buffers of each client. -/
  output : ClientId → List Push

/-- The two assertions, the list node that is not looked at before it is deleted, an address that was
given back, and a `stringmatchlen` that does not stop inside its strings. -/
inductive Fault where
  | noChannel
  | notInChannel
  | noPatternNode
  | freedClient
  | overread
  deriving DecidableEq, Repr

namespace Server

def initial : Server where
  client _ := none
  pubsub_channels _ := none
  pubsub_patterns := []
  output _ := []

def channelsOf (s : Server) (c : ClientId) : List Bytes :=
  match s.client c with
  | none => []
  | some x => x.pubsub_channels

def patternsOf (s : Server) (c : ClientId) : List Bytes :=
  match s.client c with
  | none => []
  | some x => x.pubsub_patterns

/-- The clients of a channel, none where the dict has no entry. -/
def subscribers (s : Server) (channel : Bytes) : List ClientId :=
  (s.pubsub_channels channel).getD []

/-- `dictSize(c->pubsub_channels)+listLength(c->pubsub_patterns)`. -/
def subscriptions (s : Server) (c : ClientId) : Nat :=
  (s.channelsOf c).length + (s.patternsOf c).length

def setChannels (s : Server) (c : ClientId) (channels : List Bytes) : Server :=
  { s with
    client := Function.update s.client c
      ((s.client c).map fun x => { x with pubsub_channels := channels }) }

def setPatterns (s : Server) (c : ClientId) (patterns : List Bytes) : Server :=
  { s with
    client := Function.update s.client c
      ((s.client c).map fun x => { x with pubsub_patterns := patterns }) }

/-- The calls of `addReply` that make up one message. -/
def addReply (s : Server) (c : ClientId) (push : Push) : Server :=
  match s.client c with
  | none => s
  | some x =>
    if x.accepts then { s with output := Function.update s.output c (s.output c ++ [push]) } else s

end Server

open Server

def pubsubSubscribeChannel (s : Server) (c : ClientId) (channel : Bytes) : Server :=
  let s :=
    if channel ∈ s.channelsOf c then s
    else
      { s.setChannels c (s.channelsOf c ++ [channel]) with
        pubsub_channels :=
          Function.update s.pubsub_channels channel (some (s.subscribers channel ++ [c])) }
  s.addReply c (.subscribe channel (s.subscriptions c))

/-- Returns whether the client was subscribed. -/
def pubsubUnsubscribeChannel (s : Server) (c : ClientId) (channel : Bytes) (notify : Bool) :
    Except Fault (Server × Bool) := do
  let (s, retval) ←
    if channel ∈ s.channelsOf c then
      match s.pubsub_channels channel with
      | none => .error .noChannel
      | some clients =>
        if c ∈ clients then
          let rest := clients.erase c
          .ok ({ s.setChannels c ((s.channelsOf c).erase channel) with
            pubsub_channels :=
              Function.update s.pubsub_channels channel (if rest = [] then none else some rest) },
            true)
        else .error .notInChannel
    else .ok (s, false)
  .ok (if notify then s.addReply c (.unsubscribe channel (s.subscriptions c)) else s, retval)

def pubsubSubscribePattern (s : Server) (c : ClientId) (pattern : Bytes) : Server :=
  let s :=
    if pattern ∈ s.patternsOf c then s
    else
      { s.setPatterns c (s.patternsOf c ++ [pattern]) with
        pubsub_patterns := s.pubsub_patterns ++ [(c, pattern)] }
  s.addReply c (.psubscribe pattern (s.subscriptions c))

def pubsubUnsubscribePattern (s : Server) (c : ClientId) (pattern : Bytes) (notify : Bool) :
    Except Fault (Server × Bool) := do
  let (s, retval) ←
    if pattern ∈ s.patternsOf c then
      if (c, pattern) ∈ s.pubsub_patterns then
        .ok ({ s.setPatterns c ((s.patternsOf c).erase pattern) with
          pubsub_patterns := s.pubsub_patterns.erase (c, pattern) }, true)
      else .error .noPatternNode
    else .ok (s, false)
  .ok (if notify then s.addReply c (.punsubscribe pattern (s.subscriptions c)) else s, retval)

/-- One call for each name, and how many of them returned 1. -/
def unsubscribeEach (one : Server → Bytes → Except Fault (Server × Bool)) :
    Server → List Bytes → Except Fault (Server × Nat)
  | s, [] => .ok (s, 0)
  | s, name :: names => do
    let (s, retval) ← one s name
    let (s, count) ← unsubscribeEach one s names
    .ok (s, retval.toNat + count)

/-- An order in which a dict gives its keys to an iterator. -/
structure DictOrder where
  order : List Bytes → List Bytes
  perm : ∀ keys, (order keys).Perm keys

/-- The iterator is a safe one: it meets every key that was there when it started, once. -/
def pubsubUnsubscribeAllChannels (s : Server) (c : ClientId) (dict : DictOrder) (notify : Bool) :
    Except Fault (Server × Nat) := do
  let (s, count) ← unsubscribeEach (fun s channel => pubsubUnsubscribeChannel s c channel notify) s
    (dict.order (s.channelsOf c))
  .ok (if notify && count == 0 then s.addReply c (.unsubscribe none (s.subscriptions c)) else s,
    count)

/-- `listNext` has moved on before the node is deleted. -/
def pubsubUnsubscribeAllPatterns (s : Server) (c : ClientId) (notify : Bool) :
    Except Fault (Server × Nat) := do
  let (s, count) ← unsubscribeEach (fun s pattern => pubsubUnsubscribePattern s c pattern notify) s
    (s.patternsOf c)
  .ok (if notify && count == 0 then s.addReply c (.punsubscribe none (s.subscriptions c)) else s,
    count)

/-- The first loop of `pubsubPublishMessage`. -/
def publishToClients (channel message : Bytes) :
    Server → List ClientId → Nat → Except Fault (Server × Nat)
  | s, [], receivers => .ok (s, receivers)
  | s, c :: clients, receivers =>
    if s.client c = none then .error .freedClient
    else publishToClients channel message (s.addReply c (.message channel message)) clients
      (receivers + 1)

/-- The second loop of `pubsubPublishMessage`. -/
def publishToPatterns (channel message : Bytes) :
    Server → List (ClientId × Bytes) → Nat → Except Fault (Server × Nat)
  | s, [], receivers => .ok (s, receivers)
  | s, (c, pattern) :: entries, receivers =>
    match stringmatchlen false pattern (.within channel) with
    | none => .error .overread
    | some false => publishToPatterns channel message s entries receivers
    | some true =>
      if s.client c = none then .error .freedClient
      else publishToPatterns channel message (s.addReply c (.pmessage pattern channel message))
        entries (receivers + 1)

def pubsubPublishMessage (s : Server) (channel message : Bytes) : Except Fault (Server × Nat) := do
  let (s, receivers) ← publishToClients channel message s (s.subscribers channel) 0
  publishToPatterns channel message s s.pubsub_patterns receivers

/-- What happens to the clients: a connection is accepted at a free address, a command is called, its
flags change, or it is freed. `freeClient` keeps a lost master, for `cached_master`. -/
inductive Event where
  | createClient (c : ClientId) (fd : Int)
  | subscribe (c : ClientId) (channels : List Bytes)
  | unsubscribe (c : ClientId) (channels : List Bytes) (dict : DictOrder)
  | psubscribe (c : ClientId) (patterns : List Bytes)
  | punsubscribe (c : ClientId) (patterns : List Bytes)
  | setFlags (c : ClientId) (master close_after_reply : Bool)
  | freeClient (c : ClientId) (dict : DictOrder) (cached : Bool)

def unsubscribeCommand (s : Server) (c : ClientId) (dict : DictOrder) :
    List Bytes → Except Fault Server
  | [] => do
    let (s, _) ← pubsubUnsubscribeAllChannels s c dict true
    .ok s
  | channels => do
    let (s, _) ← unsubscribeEach (fun s channel => pubsubUnsubscribeChannel s c channel true) s
      channels
    .ok s

def punsubscribeCommand (s : Server) (c : ClientId) : List Bytes → Except Fault Server
  | [] => do
    let (s, _) ← pubsubUnsubscribeAllPatterns s c true
    .ok s
  | patterns => do
    let (s, _) ← unsubscribeEach (fun s pattern => pubsubUnsubscribePattern s c pattern true) s
      patterns
    .ok s

/-- The part of `freeClient` about subscriptions. -/
def freeClient (s : Server) (c : ClientId) (dict : DictOrder) : Except Fault Server := do
  let (s, _) ← pubsubUnsubscribeAllChannels s c dict false
  let (s, _) ← pubsubUnsubscribeAllPatterns s c false
  .ok { s with
    client := Function.update s.client c none
    output := Function.update s.output c [] }

/-- An event at an address without a client, and a connection at one with a client, do not occur. -/
def step (s : Server) : Event → Except Fault Server
  | .createClient c fd =>
    if s.client c = none then
      .ok { s with client := Function.update s.client c (some ⟨[], [], false, false, fd⟩) }
    else .ok s
  | .subscribe c channels =>
    if s.client c = none then .ok s
    else .ok (channels.foldl (fun s channel => pubsubSubscribeChannel s c channel) s)
  | .unsubscribe c channels dict =>
    if s.client c = none then .ok s else unsubscribeCommand s c dict channels
  | .psubscribe c patterns =>
    if s.client c = none then .ok s
    else .ok (patterns.foldl (fun s pattern => pubsubSubscribePattern s c pattern) s)
  | .punsubscribe c patterns =>
    if s.client c = none then .ok s else punsubscribeCommand s c patterns
  | .setFlags c master close_after_reply =>
    .ok { s with
      client := Function.update s.client c ((s.client c).map fun x =>
        { x with master := master, close_after_reply := close_after_reply }) }
  | .freeClient c dict cached =>
    if s.client c = none ∨ cached then .ok s else freeClient s c dict

/-- The events of a run, one after the other. -/
def run (s : Server) (events : List Event) : Except Fault Server := events.foldlM step s

/-! ## What a client is to get -/

def matchesChannel (channel pattern : Bytes) : Bool :=
  stringmatchlen false pattern (.within channel) = some true

def Server.expected (s : Server) (channel message : Bytes) (c : ClientId) : List Push :=
  (if channel ∈ s.channelsOf c then [.message channel message] else []) ++
    ((s.patternsOf c).filter (matchesChannel channel)).map (.pmessage · channel message)

end RedisCluster.Pubsub
