import RedisCluster.Util.Strings
import RedisCluster.Lib.Run

/-!
# Replies

The output of a client: the static buffer, the list of reply objects behind it, and the functions of
`networking.c` that append to them and write them out. Objects live in a store with reference counts,
as the reply list shares them with the keyspace and with `shared`.
-/

namespace RedisCluster.Replies

open RedisCluster.Util

def REDIS_REPLY_CHUNK_BYTES : Nat := 16 * 1024
def REDIS_SHARED_BULKHDR_LEN : Nat := 32
def REDIS_MAX_WRITE_PER_EVENT : Nat := 1024 * 64
def REDIS_ENCODING_EMBSTR_SIZE_LIMIT : Nat := 39
def SDS_MAX_PREALLOC : Nat := 1024 * 1024

/-! ## Strings and objects -/

structure Sds where
  buf : Bytes
  free : Nat
  deriving DecidableEq, Repr

def sdsnewlen (bytes : Bytes) : Sds := { buf := bytes, free := 0 }

def sdsMakeRoomFor (s : Sds) (addlen : Nat) : Sds :=
  if addlen ≤ s.free then s
  else
    let newlen := s.buf.length + addlen
    if newlen < SDS_MAX_PREALLOC then { s with free := newlen * 2 - s.buf.length }
    else { s with free := newlen + SDS_MAX_PREALLOC - s.buf.length }

def sdscatlen (s : Sds) (bytes : Bytes) : Sds :=
  let r := sdsMakeRoomFor s bytes.length
  { buf := r.buf ++ bytes, free := r.free - bytes.length }

/-- The encoding of a string object with its `ptr`; `raw none` is a null `ptr`. -/
inductive Content where
  | raw (ptr : Option Sds)
  | embstr (buf : Bytes)
  | int (n : Int)
  deriving DecidableEq, Repr

structure Robj where
  refcount : Nat
  content : Content
  deriving DecidableEq, Repr

def stringContent (bytes : Bytes) : Content :=
  if bytes.length ≤ REDIS_ENCODING_EMBSTR_SIZE_LIMIT then .embstr bytes
  else .raw (some (sdsnewlen bytes))

def dupContent : Content → Content
  | .raw (some s) => .raw (some (sdsnewlen s.buf))
  | .raw none => .raw none
  | .embstr buf => .embstr buf
  | .int n => .int n

/-- The bytes at `ptr` of an object with an sds encoding. -/
def sdsBytes : Content → Bytes
  | .raw (some s) => s.buf
  | .raw none => []
  | .embstr buf => buf
  | .int _ => []

/-- A node of the list `c->reply`; its `id` is its address, `value` that of the object. -/
structure ReplyNode where
  id : Nat
  value : Nat
  deriving DecidableEq, Repr

/-- The flags that decide whether a reply is taken. -/
structure ClientFlags where
  master : Bool
  master_force_reply : Bool
  lua : Bool
  close_after_reply : Bool
  deriving DecidableEq, Repr

/-- The store of objects and the client. `written` records what the socket has taken. -/
structure State where
  objs : Nat → Robj
  /-- The address of the next object. -/
  nextObj : Nat
  /-- The address of the next list node. -/
  nextNode : Nat
  flags : ClientFlags
  fd : Int
  /-- `replstate` is `REDIS_REPL_NONE` or `REDIS_REPL_ONLINE`. -/
  replica_ready : Bool
  buf : Bytes
  sentlen : Nat
  reply : List ReplyNode
  /-- An `unsigned long`; here a value below zero would show. -/
  reply_bytes : Int
  written : Bytes

/-- `zmalloc_size` as a function of the size asked for, and the success of `aeCreateFileEvent`. -/
structure World where
  zmalloc_size : Nat → Nat
  aeCreateFileEvent : Int → Bool

/-! ## The store -/

def content (s : State) (o : Nat) : Content := (s.objs o).content

def refcount (s : State) (o : Nat) : Nat := (s.objs o).refcount

def setContent (s : State) (o : Nat) (c : Content) : State :=
  { s with objs := Function.update s.objs o { s.objs o with content := c } }

def incrRefCount (s : State) (o : Nat) : State :=
  { s with objs := Function.update s.objs o { s.objs o with refcount := (s.objs o).refcount + 1 } }

/-- An object whose count reaches 0 is freed. -/
def decrRefCount (s : State) (o : Nat) : State :=
  { s with objs := Function.update s.objs o { s.objs o with refcount := (s.objs o).refcount - 1 } }

/-- `createObject`; the new object is `s.nextObj`. -/
def createObject (s : State) (c : Content) : State :=
  { s with
    objs := Function.update s.objs s.nextObj { refcount := 1, content := c }
    nextObj := s.nextObj + 1 }

/-- `zmalloc_size_sds`, with the header of 8 bytes and the NUL. -/
def zmalloc_size_sds (w : World) (s : Sds) : Nat := w.zmalloc_size (8 + s.buf.length + s.free + 1)

/-- `getStringObjectSdsUsedMemory`; nothing is attributed to a null `ptr`. -/
def getStringObjectSdsUsedMemory (w : World) : Content → Int
  | .raw (some s) => zmalloc_size_sds w s
  | .raw none => 0
  | .embstr buf => buf.length
  | .int _ => 0

/-! ## Shared objects -/

/-- The addresses of the objects of `createSharedObjects` that are used here. -/
def sharedCrlf : Nat := 0
def sharedCzero : Nat := 1
def sharedCone : Nat := 2
def sharedBulkhdr (j : Nat) : Nat := 3 + j
def sharedMbulkhdr (j : Nat) : Nat := 35 + j
def sharedEnd : Nat := 67

def crlf : Bytes := [CR, LF]

def sharedBytes (o : Nat) : Bytes :=
  if o = sharedCrlf then crlf
  else if o = sharedCzero then ascii ":0\r\n"
  else if o = sharedCone then ascii ":1\r\n"
  else if o < 35 then 36 :: ll2string (o - 3) ++ crlf
  else 42 :: ll2string (o - 35) ++ crlf

def createSharedObjects (o : Nat) : Robj :=
  if o < sharedEnd then { refcount := 1, content := .raw (some (sdsnewlen (sharedBytes o))) }
  else { refcount := 0, content := .raw none }

/-! ## Appending -/

/-- `prepareClientToWrite`; true for `REDIS_OK`. -/
def prepareClientToWrite (w : World) (s : State) : Bool :=
  if s.flags.lua then true
  else if s.flags.master && !s.flags.master_force_reply then false
  else if s.fd ≤ 0 then false
  else if s.buf.isEmpty && s.reply.isEmpty && s.replica_ready && !w.aeCreateFileEvent s.fd then false
  else true

/-- `_addReplyToBuffer`; true for `REDIS_OK`. -/
def _addReplyToBuffer (s : State) (bytes : Bytes) : Bool × State :=
  if s.flags.close_after_reply then (true, s)
  else if s.reply ≠ [] then (false, s)
  else if REDIS_REPLY_CHUNK_BYTES - s.buf.length < bytes.length then (false, s)
  else (true, { s with buf := s.buf ++ bytes })

/-- `listAddNodeTail` of an object, with the memory attributed to it. -/
def listAddNodeTail (w : World) (s : State) (o : Nat) : State :=
  { s with
    reply := s.reply ++ [{ id := s.nextNode, value := o }]
    nextNode := s.nextNode + 1
    reply_bytes := s.reply_bytes + getStringObjectSdsUsedMemory w (content s o) }

/-- `dupLastObjectIfNeeded`: a shared object is copied before it is changed. -/
def dupLastObjectIfNeeded (s : State) (init : List ReplyNode) (tail : ReplyNode) : State × Nat :=
  if 1 < refcount s tail.value then
    let s' := decrRefCount (createObject s (dupContent (content s tail.value))) tail.value
    ({ s' with reply := init ++ [{ tail with value := s.nextObj }] }, s.nextObj)
  else (s, tail.value)

/-- The bytes go to the end of the last node. -/
def glueToTail (w : World) (s : State) (init : List ReplyNode) (tail : ReplyNode) (ptr : Sds)
    (bytes : Bytes) : State :=
  let s1 := { s with reply_bytes := s.reply_bytes - zmalloc_size_sds w ptr }
  let (s2, o) := dupLastObjectIfNeeded s1 init tail
  let ptr' := match content s2 o with
    | .raw (some p) => sdscatlen p bytes
    | _ => sdscatlen (sdsnewlen []) bytes
  let s3 := setContent s2 o (.raw (some ptr'))
  { s3 with reply_bytes := s3.reply_bytes + zmalloc_size_sds w ptr' }

/-- What the three functions `_addReply*ToList` share: the bytes are glued to the last node if it is a
raw string with room, else `append` adds a node. -/
def addReplyToList (w : World) (s : State) (bytes : Bytes) (append : State → State) : State :=
  if s.flags.close_after_reply then s
  else
    match s.reply.getLast? with
    | none => append s
    | some tail =>
      match content s tail.value with
      | .raw (some ptr) =>
        if ptr.buf.length + bytes.length ≤ REDIS_REPLY_CHUNK_BYTES then
          glueToTail w s s.reply.dropLast tail ptr bytes
        else append s
      | _ => append s

def _addReplyObjectToList (w : World) (s : State) (o : Nat) : State :=
  addReplyToList w s (sdsBytes (content s o)) fun s => listAddNodeTail w (incrRefCount s o) o

def _addReplySdsToList (w : World) (s : State) (str : Sds) : State :=
  addReplyToList w s str.buf fun s =>
    listAddNodeTail w (createObject s (.raw (some str))) s.nextObj

def _addReplyStringToList (w : World) (s : State) (bytes : Bytes) : State :=
  addReplyToList w s bytes fun s =>
    listAddNodeTail w (createObject s (stringContent bytes)) s.nextObj

/-- The part of `addReply` for an object with an sds encoding. -/
def addReplySdsEncoded (w : World) (s : State) (o : Nat) : State :=
  let r := _addReplyToBuffer s (sdsBytes (content s o))
  if r.1 then r.2 else _addReplyObjectToList w s o

/-- The part of `addReply` that decodes an integer into a string object of its own. -/
def addReplyDecoded (w : World) (s : State) (n : Int) : State :=
  decrRefCount (addReplySdsEncoded w (createObject s (stringContent (ll2string n))) s.nextObj) s.nextObj

def addReply (w : World) (s : State) (o : Nat) : State :=
  if prepareClientToWrite w s then
    match content s o with
    | .int n =>
      if s.reply = [] ∧ 32 ≤ REDIS_REPLY_CHUNK_BYTES - s.buf.length then
        let r := _addReplyToBuffer s (ll2string n)
        if r.1 then r.2 else addReplyDecoded w s n
      else addReplyDecoded w s n
    | _ => addReplySdsEncoded w s o
  else s

def addReplySds (w : World) (s : State) (str : Sds) : State :=
  if prepareClientToWrite w s then
    let r := _addReplyToBuffer s str.buf
    if r.1 then r.2 else _addReplySdsToList w s str
  else s

def addReplyString (w : World) (s : State) (bytes : Bytes) : State :=
  if prepareClientToWrite w s then
    let r := _addReplyToBuffer s bytes
    if r.1 then r.2 else _addReplyStringToList w s bytes
  else s

def addReplyLongLongWithPrefix (w : World) (s : State) (n : Int) (byte : UInt8) : State :=
  if byte = 42 ∧ n < REDIS_SHARED_BULKHDR_LEN then addReply w s (sharedMbulkhdr n.toNat)
  else if byte = 36 ∧ n < REDIS_SHARED_BULKHDR_LEN then addReply w s (sharedBulkhdr n.toNat)
  else addReplyString w s (byte :: ll2string n ++ crlf)

def addReplyLongLong (w : World) (s : State) (n : Int) : State :=
  if n = 0 then addReply w s sharedCzero
  else if n = 1 then addReply w s sharedCone
  else addReplyLongLongWithPrefix w s n 58

/-- The loop of `addReplyBulkLen` over the digits of an integer. -/
def digitCount (n : Nat) : Nat := if n / 10 = 0 then 1 else digitCount (n / 10) + 1

/-- The length that `addReplyBulkLen` finds for an object. -/
def bulkLength : Content → Nat
  | .int n => (if n < 0 then 1 else 0) + digitCount n.natAbs
  | c => (sdsBytes c).length

def addReplyBulkLen (w : World) (s : State) (o : Nat) : State :=
  let len := bulkLength (content s o)
  if len < REDIS_SHARED_BULKHDR_LEN then addReply w s (sharedBulkhdr len)
  else addReplyLongLongWithPrefix w s len 36

def addReplyBulk (w : World) (s : State) (o : Nat) : State :=
  addReply w (addReply w (addReplyBulkLen w s o) o) sharedCrlf

/-! ## Deferred lengths -/

/-- `addDeferredMultiBulkLength`: a node with a null `ptr`, or NULL. -/
def addDeferredMultiBulkLength (w : World) (s : State) : State × Option Nat :=
  if prepareClientToWrite w s then
    ({ createObject s (.raw none) with
      reply := s.reply ++ [{ id := s.nextNode, value := s.nextObj }]
      nextNode := s.nextNode + 1 }, some s.nextNode)
  else (s, none)

def multiBulkLength (length : Int) : Bytes := 42 :: ll2string length ++ crlf

/-- The part of `setDeferredMultiBulkLength` that glues the next node, if it is set. -/
def glueNext (w : World) (s : State) (before : List ReplyNode) (ln next : ReplyNode)
    (after : List ReplyNode) (len : Sds) : State :=
  if content s next.value = .raw none then s
  else
    let bytes := sdsBytes (content s next.value)
    let reply_bytes := s.reply_bytes - zmalloc_size_sds w len -
      getStringObjectSdsUsedMemory w (content s next.value)
    let len' := sdscatlen len bytes
    let s' := setContent s ln.value (.raw (some len'))
    decrRefCount { s' with
      reply_bytes := reply_bytes + zmalloc_size_sds w len'
      reply := before ++ ln :: after } next.value

def setDeferredMultiBulkLength (w : World) (s : State) (node : Option Nat) (length : Int) : State :=
  match node with
  | none => s
  | some id =>
    match s.reply.span (fun n => n.id ≠ id) with
    | (_, []) => s
    | (before, ln :: rest) =>
      let len := sdscatlen (sdsnewlen []) (multiBulkLength length)
      let s1 := setContent s ln.value (.raw (some len))
      let s2 := { s1 with reply_bytes := s1.reply_bytes + zmalloc_size_sds w len }
      match rest with
      | [] => s2
      | next :: after => glueNext w s2 before ln next after len

/-! ## Writing -/

def delFirst (w : World) (s : State) (ln : ReplyNode) (rest : List ReplyNode) : State :=
  decrRefCount { s with
    reply := rest
    reply_bytes := s.reply_bytes - getStringObjectSdsUsedMemory w (content s ln.value) } ln.value

/-- The turns of the loop of `sendReplyToClient` that remove empty nodes. -/
def dropEmpty (w : World) : List ReplyNode → State → State
  | [], s => s
  | ln :: rest, s =>
    if sdsBytes (content s ln.value) = [] then dropEmpty w rest (delFirst w s ln rest) else s

/-- One `write` of the buffer or of the first node, which takes at most `accepts` bytes; none if nothing
was written. -/
def writeOnce (w : World) (s : State) (accepts : Nat) : Option State :=
  if s.buf ≠ [] then
    let out := (s.buf.drop s.sentlen).take accepts
    if out = [] then none
    else if s.sentlen + out.length = s.buf.length then
      some { s with buf := [], sentlen := 0, written := s.written ++ out }
    else some { s with sentlen := s.sentlen + out.length, written := s.written ++ out }
  else
    match s.reply with
    | [] => none
    | ln :: rest =>
      let bytes := sdsBytes (content s ln.value)
      let out := (bytes.drop s.sentlen).take accepts
      if out = [] then none
      else if s.sentlen + out.length = bytes.length then
        some { delFirst w s ln rest with sentlen := 0, written := s.written ++ out }
      else some { s with sentlen := s.sentlen + out.length, written := s.written ++ out }

/-- The loop of `sendReplyToClient`. Each `write` comes with the bytes that it accepts and with whether
the memory limit lets the loop end after it; no further `write` stands for one that would block. -/
def writeLoop (w : World) : List (Nat × Bool) → Nat → State → State
  | [], _, s => if s.buf = [] then dropEmpty w s.reply s else s
  | (accepts, mayEnd) :: more, totwritten, s =>
    let s := if s.buf = [] then dropEmpty w s.reply s else s
    match writeOnce w s accepts with
    | none => s
    | some s' =>
      let totwritten := totwritten + (s'.written.length - s.written.length)
      if REDIS_MAX_WRITE_PER_EVENT < totwritten ∧ mayEnd = true then s'
      else writeLoop w more totwritten s'

/-- `sendReplyToClient` for a connection that stays up. -/
def sendReplyToClient (w : World) (s : State) (writes : List (Nat × Bool)) : State :=
  let s' := writeLoop w writes 0 s
  if s'.buf = [] ∧ s'.reply = [] then { s' with sentlen := 0 } else s'

end RedisCluster.Replies

/-!
## Runs of a client's output

Appends, deferred lengths, writes, and what other parts of the server do to the objects that the reply
list shares with them. Beside the state stands the stream that the peer should get: the replies in
call order, with a place for each length that is still to come.
-/

namespace RedisCluster.Replies

open RedisCluster.Util
open RedisCluster.Lib

/-- A byte of the stream, or the place of a deferred length, named by its node. -/
inductive Sym where
  | byte (b : UInt8)
  | hole (id : Nat)
  deriving DecidableEq, Repr

def syms (bytes : Bytes) : List Sym := bytes.map .byte

/-- The length `bytes` is put into its place. -/
def fill (id : Nat) (bytes : Bytes) (stream : List Sym) : List Sym :=
  stream.flatMap fun x => if x = .hole id then syms bytes else [x]

def nodeSyms (s : State) (n : ReplyNode) : List Sym :=
  match content s n.value with
  | .raw none => [.hole n.id]
  | c => syms (sdsBytes c)

def listSyms (s : State) (nodes : List ReplyNode) : List Sym := nodes.flatMap (nodeSyms s)

/-- What is buffered and not sent: the static buffer from `sentlen`, then the list. -/
def pending (s : State) : List Sym := (syms s.buf ++ listSyms s s.reply).drop s.sentlen

/-- The memory attributed to the nodes of the list. -/
def listMemory (w : World) (s : State) (nodes : List ReplyNode) : Int :=
  (nodes.map fun n => getStringObjectSdsUsedMemory w (content s n.value)).sum

/-- How many nodes of the list hold the object. -/
def held (s : State) (o : Nat) : Nat := (s.reply.map ReplyNode.value).count o

inductive Event where
  /-- Other parts of the server create, share, release or change an object. -/
  | createObject (c : Content)
  | incrRefCount (o : Nat)
  | decrRefCount (o : Nat)
  | setContent (o : Nat) (c : Content)
  | addReply (o : Nat)
  | addReplySds (str : Sds)
  | addReplyString (bytes : Bytes)
  | addReplyBulk (o : Nat)
  | addReplyLongLong (n : Int)
  | addDeferredMultiBulkLength
  | setDeferredMultiBulkLength (node : Option Nat) (length : Int)
  | sendReplyToClient (writes : List (Nat × Bool))
  deriving DecidableEq, Repr

def objectText : Content → Bytes
  | .int n => ll2string n
  | c => sdsBytes c

/-- The protocol text of an object as a bulk reply. -/
def bulkText (bytes : Bytes) : Bytes := 36 :: ll2string bytes.length ++ crlf ++ bytes ++ crlf

structure Output where
  state : State
  /-- The stream from the first reply on. -/
  expected : List Sym

/-- What the event does to the stream that the peer should get. -/
def expect (s : State) (stream : List Sym) : Event → List Sym
  | .addReply o => stream ++ syms (objectText (content s o))
  | .addReplySds str => stream ++ syms str.buf
  | .addReplyString bytes => stream ++ syms bytes
  | .addReplyBulk o => stream ++ syms (bulkText (objectText (content s o)))
  | .addReplyLongLong n => stream ++ syms (58 :: ll2string n ++ crlf)
  | .addDeferredMultiBulkLength => stream ++ [.hole s.nextNode]
  | .setDeferredMultiBulkLength (some id) length => fill id (multiBulkLength length) stream
  | _ => stream

def act (w : World) (s : State) : Event → State
  | .createObject c => createObject s c
  | .incrRefCount o => incrRefCount s o
  | .decrRefCount o => decrRefCount s o
  | .setContent o c => setContent s o c
  | .addReply o => addReply w s o
  | .addReplySds str => addReplySds w s str
  | .addReplyString bytes => addReplyString w s bytes
  | .addReplyBulk o => addReplyBulk w s o
  | .addReplyLongLong n => addReplyLongLong w s n
  | .addDeferredMultiBulkLength => (addDeferredMultiBulkLength w s).1
  | .setDeferredMultiBulkLength node length => setDeferredMultiBulkLength w s node length
  | .sendReplyToClient writes => sendReplyToClient w s writes

def step (w : World) (r : Output) (e : Event) : Output where
  state := act w r.state e
  expected := expect r.state r.expected e

/-- Someone else than the reply list holds the object; `shared` holds its own for good. -/
def HeldElsewhere (s : State) (o : Nat) : Prop := held s o < refcount s o

/-- The events as the server makes them. A caller holds the object that it passes, and no other part of
the server releases what it does not hold or changes an object that is shared. A deferred length is set
once, and before the next write event. -/
def Allowed (r : Output) : Event → Prop
  | .createObject c => c ≠ .raw none
  | .incrRefCount o => HeldElsewhere r.state o
  | .decrRefCount o => HeldElsewhere r.state o ∧
      (o < sharedEnd → held r.state o + 1 < refcount r.state o)
  | .setContent o c => sharedEnd ≤ o ∧ refcount r.state o = 1 ∧ held r.state o = 0 ∧ c ≠ .raw none
  | .addReply o => HeldElsewhere r.state o
  | .addReplyBulk o => HeldElsewhere r.state o
  | .setDeferredMultiBulkLength (some id) _ => .hole id ∈ r.expected
  | .sendReplyToClient _ => ∀ id, .hole id ∉ r.expected
  | _ => True

/-- A client with a connection that takes replies. -/
def connected (flags : ClientFlags) (fd : Int) (replica_ready : Bool) : Output where
  state := {
    objs := createSharedObjects
    nextObj := sharedEnd
    nextNode := 0
    flags := flags
    fd := fd
    replica_ready := replica_ready
    buf := []
    sentlen := 0
    reply := []
    reply_bytes := 0
    written := [] }
  expected := []

/-- The client is connected, no link to a master, and not to be closed. -/
def TakesReplies (w : World) (flags : ClientFlags) (fd : Int) : Prop :=
  flags.close_after_reply = false ∧ (flags.master = true → flags.master_force_reply = true) ∧
    0 < fd ∧ w.aeCreateFileEvent fd = true

end RedisCluster.Replies
