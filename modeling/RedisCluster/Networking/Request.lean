import RedisCluster.Util.Strings
import RedisCluster.Lib.Run

/-!
# Requests

The query buffer of a client and the two parsers of `networking.c` that cut it into argument vectors.
The multibulk parser is resumable: what it has of an unfinished command is in `multibulklen`,
`bulklen` and `argv`, and the bytes before `pos` are dropped when it returns.
-/

namespace RedisCluster.Networking

open RedisCluster.Util

def REDIS_INLINE_MAX_SIZE : Nat := 1024 * 64
def REDIS_MBULK_BIG_ARG : Nat := 1024 * 32
def REDIS_IOBUF_LEN : Nat := 1024 * 16

/-- `REDIS_REQ_INLINE` and `REDIS_REQ_MULTIBULK`. -/
inductive ReqType where
  | inline
  | multibulk
  deriving DecidableEq, Repr

/-- The bits of `c->flags` that are read here. -/
structure Flags where
  slave : Bool
  blocked : Bool
  close_after_reply : Bool
  deriving DecidableEq, Repr

structure Client where
  querybuf : Bytes
  reqtype : Option ReqType
  multibulklen : Nat
  /-- `none` is the -1 of the source. -/
  bulklen : Option Nat
  argv : List Bytes
  flags : Flags
  /-- The texts given to `addReplyError` by the parsers. -/
  errors : List Bytes
  deriving DecidableEq, Repr

def createClient : Client where
  querybuf := []
  reqtype := none
  multibulklen := 0
  bulklen := none
  argv := []
  flags := { slave := false, blocked := false, close_after_reply := false }
  errors := []

/-- `addReplyError`, `setProtocolError`: the client is closed after the reply. -/
def protocolError (c : Client) (text : Bytes) (pos : Nat) : Client :=
  { c with
    errors := c.errors ++ [text]
    flags := { c.flags with close_after_reply := true }
    querybuf := c.querybuf.drop pos }

def resetClient (c : Client) : Client :=
  { c with argv := [], reqtype := none, multibulklen := 0, bulklen := none }

/-! ## Inline requests -/

/-- `processInlineBuffer`; the result is true for `REDIS_OK`. -/
def processInlineBuffer (c : Client) : Bool × Client :=
  match strchr LF c.querybuf with
  | none =>
    if REDIS_INLINE_MAX_SIZE < c.querybuf.length then
      (false, protocolError c (ascii "Protocol error: too big inline request") 0)
    else (false, c)
  | some newline =>
    let querylen :=
      if newline ≠ 0 ∧ c.querybuf[newline - 1]? = some CR then newline - 1 else newline
    match sdssplitargs (c.querybuf.take querylen) with
    | none => (false, protocolError c (ascii "Protocol error: unbalanced quotes in request") 0)
    | some argv =>
      (true, { c with
        querybuf := c.querybuf.drop (querylen + 2)
        argv := argv.filter (· ≠ []) })

/-! ## Multibulk requests -/

/-- What the loop knows of the next argument: not enough bytes yet, refused, or its length, with the
position of its first byte. -/
inductive Bulk where
  | wait
  | refused (c : Client)
  | known (c : Client) (pos len : Nat)

/-- The part of the loop of `processMultibulkBuffer` that reads the length of an argument. -/
def readBulkLen (c : Client) (pos : Nat) : Bulk :=
  match c.bulklen with
  | some len => .known c pos len
  | none =>
    match strchr CR (c.querybuf.drop pos) with
    | none =>
      -- The size is that of the whole buffer, the arguments before `pos` included.
      if REDIS_INLINE_MAX_SIZE < c.querybuf.length then
        .refused (protocolError c (ascii "Protocol error: too big bulk count string") 0)
      else .wait
    | some newline =>
      if c.querybuf.length < pos + newline + 2 then .wait
      else
        match c.querybuf[pos]? with
        | none => .wait
        | some first =>
          if first ≠ 36 then
            .refused (protocolError c
              (ascii "Protocol error: expected '$', got '" ++ [first] ++ ascii "'") pos)
          else
            match string2ll (((c.querybuf.drop pos).take newline).drop 1) with
            | none => .refused (protocolError c (ascii "Protocol error: invalid bulk length") pos)
            | some ll =>
              if ll < 0 ∨ 512 * 1024 * 1024 < ll then
                .refused (protocolError c (ascii "Protocol error: invalid bulk length") pos)
              else if REDIS_MBULK_BIG_ARG ≤ ll.toNat then
                -- A big argument starts the buffer, so that it can become the argument itself.
                .known { c with
                  querybuf := c.querybuf.drop (pos + newline + 2), bulklen := some ll.toNat } 0
                  ll.toNat
              else .known { c with bulklen := some ll.toNat } (pos + newline + 2) ll.toNat

/-- Takes an argument of `len` bytes at `pos`: the client and the position after it. -/
def takeBulk (c : Client) (pos len : Nat) : Client × Nat :=
  if pos = 0 ∧ REDIS_MBULK_BIG_ARG ≤ len ∧ c.querybuf.length = len + 2 then
    ({ c with argv := c.argv ++ [c.querybuf.take len], querybuf := [], bulklen := none }, 0)
  else
    ({ c with argv := c.argv ++ [(c.querybuf.drop pos).take len], bulklen := none }, pos + len + 2)

/-- The loop of `processMultibulkBuffer`, with `multibulklen` arguments to go. -/
def multibulkLoop : Nat → Client → Nat → Bool × Client
  | 0, c, pos => (true, { c with multibulklen := 0, querybuf := c.querybuf.drop pos })
  | n + 1, c, pos =>
    match readBulkLen c pos with
    | .wait => (false, { c with multibulklen := n + 1, querybuf := c.querybuf.drop pos })
    | .refused c => (false, { c with multibulklen := n + 1 })
    | .known c pos len =>
      if c.querybuf.length - pos < len + 2 then
        (false, { c with multibulklen := n + 1, querybuf := c.querybuf.drop pos })
      else multibulkLoop n (takeBulk c pos len).1 (takeBulk c pos len).2

/-- `processMultibulkBuffer`; the result is true for `REDIS_OK`. -/
def processMultibulkBuffer (c : Client) : Bool × Client :=
  if c.multibulklen = 0 then
    match strchr CR c.querybuf with
    | none =>
      if REDIS_INLINE_MAX_SIZE < c.querybuf.length then
        (false, protocolError c (ascii "Protocol error: too big mbulk count string") 0)
      else (false, c)
    | some newline =>
      if c.querybuf.length < newline + 2 then (false, c)
      else
        match string2ll ((c.querybuf.take newline).drop 1) with
        | none => (false, protocolError c (ascii "Protocol error: invalid multibulk length") 0)
        | some ll =>
          if 1024 * 1024 < ll then
            (false, protocolError c (ascii "Protocol error: invalid multibulk length") 0)
          else if ll ≤ 0 then (true, { c with querybuf := c.querybuf.drop (newline + 2) })
          else multibulkLoop ll.toNat c (newline + 2)
  else multibulkLoop c.multibulklen c 0

end RedisCluster.Networking

/-!
## Runs of a connection

`readQueryFromClient` and `processInputBuffer` on one client, and what other parts of the server do to
it in between. `processCommand`, which sees an argument vector and may block or close the client or
pause all clients, is a parameter, and so is the state of the server that it works on.
-/

namespace RedisCluster.Networking

open RedisCluster.Util
open RedisCluster.Lib

variable {σ : Type}

/-- The rest of the server. -/
structure World (σ : Type) where
  clientsArePaused : σ → Bool
  client_max_querybuf_len : Nat
  /-- True for `REDIS_OK`, and the flags and the server afterwards. -/
  processCommand : σ → Flags → List Bytes → Bool × Flags × σ
  /-- `processCommand` returns `REDIS_ERR` for QUIT only. -/
  err_closes : ∀ s f argv, (processCommand s f argv).1 = false →
    (processCommand s f argv).2.1.close_after_reply = true

/-- A client with the bytes that its peer has still to send. The fields after `server` record the
run: the bytes read, the vectors that `processCommand` got, the client at each call of
`processMultibulkBuffer`, and whether the last event ran `processInputBuffer`. -/
structure Conn (σ : Type) where
  client : Client
  inbox : Bytes
  freed : Bool
  server : σ
  delivered : Bytes
  handed : List (List Bytes)
  parses : List Client
  processed : Bool

/-- A connection whose peer will send `stream`. -/
def connect (server : σ) (stream : Bytes) : Conn σ where
  client := createClient
  inbox := stream
  freed := false
  server := server
  delivered := []
  handed := []
  parses := []
  processed := false

def parseRequest (t : ReqType) (c : Client) : Bool × Client :=
  match t with
  | .inline => processInlineBuffer c
  | .multibulk => processMultibulkBuffer c

/-- The type of the request at the front of the buffer. -/
def requestType (c : Client) : ReqType :=
  match c.reqtype with
  | some t => t
  | none => if c.querybuf.head? = some 42 then .multibulk else .inline

/-- A parsed request: it goes to `processCommand` unless it is empty. -/
def dispatch (w : World σ) (s : Conn σ) : Conn σ :=
  if s.client.argv = [] then { s with client := resetClient s.client }
  else
    let result := w.processCommand s.server s.client.flags s.client.argv
    let c := { s.client with flags := result.2.1 }
    { s with
      client := if result.1 then resetClient c else c
      server := result.2.2
      handed := s.handed ++ [s.client.argv] }

/-- The client is not served now: all clients are paused, it is blocked, or it is to be closed. -/
def Held (w : World σ) (s : Conn σ) : Prop :=
  (s.client.flags.slave = false ∧ w.clientsArePaused s.server = true) ∨
    s.client.flags.blocked = true ∨ s.client.flags.close_after_reply = true

instance (w : World σ) (s : Conn σ) : Decidable (Held w s) := inferInstanceAs (Decidable (_ ∨ _))

/-- One turn of the loop of `processInputBuffer`, up to the parser. -/
def parseNext (s : Conn σ) : Bool × Conn σ :=
  let t := requestType s.client
  let c := { s.client with reqtype := some t }
  let result := parseRequest t c
  (result.1, { s with
    client := result.2
    parses := s.parses ++ (if t = .multibulk then [c] else []) })

/-- The loop of `processInputBuffer`; every turn that goes on takes at least one byte. -/
def processLoop (w : World σ) : Nat → Conn σ → Conn σ
  | 0, s => s
  | fuel + 1, s =>
    if s.client.querybuf = [] then s
    else if Held w s then s
    else if (parseNext s).1 then processLoop w fuel (dispatch w (parseNext s).2)
    else (parseNext s).2

def processInputBuffer (w : World σ) (s : Conn σ) : Conn σ :=
  { processLoop w s.client.querybuf.length s with processed := true }

/-- How many bytes `readQueryFromClient` asks for: not more than what is missing of a big argument. -/
def readlen (c : Client) : Nat :=
  match c.bulklen with
  | none => REDIS_IOBUF_LEN
  | some len =>
    if c.reqtype = some .multibulk ∧ c.multibulklen ≠ 0 ∧ REDIS_MBULK_BIG_ARG ≤ len then
      min (len + 2 - c.querybuf.length) REDIS_IOBUF_LEN
    else REDIS_IOBUF_LEN

/-- What happens to the connection. -/
inductive Event (σ : Type) where
  /-- The socket is readable, with `n` bytes in it. -/
  | readQueryFromClient (n : Nat)
  /-- The client is taken from `server.unblocked_clients`. -/
  | processUnblockedClients
  /-- Other parts of the server work, and block or unblock the client. -/
  | elsewhere (server : σ) (blocked : Bool)

/-- The chunk that `read` returns when `n` bytes have arrived. -/
def chunk (s : Conn σ) (n : Nat) : Bytes := (s.inbox.take n).take (readlen s.client)

/-- `readQueryFromClient`. A `read` of length 0 returns 0, as at the end of the stream. -/
def readQueryFromClient (w : World σ) (s : Conn σ) (n : Nat) : Conn σ :=
  if s.inbox.take n = [] then { s with processed := false }
  else if readlen s.client = 0 then { s with freed := true, processed := false }
  else
    let s' := { s with
      client := { s.client with querybuf := s.client.querybuf ++ chunk s n }
      inbox := s.inbox.drop (chunk s n).length
      delivered := s.delivered ++ chunk s n }
    if w.client_max_querybuf_len < s'.client.querybuf.length then
      { s' with freed := true, processed := false }
    else processInputBuffer w s'

def step (w : World σ) (s : Conn σ) (e : Event σ) : Conn σ :=
  if s.freed then s
  else
    match e with
    | .readQueryFromClient n => readQueryFromClient w s n
    | .processUnblockedClients =>
      if s.client.querybuf = [] then { s with processed := false } else processInputBuffer w s
    | .elsewhere server blocked => { s with
        server := server
        client := { s.client with flags := { s.client.flags with blocked := blocked } }
        processed := false }

/-! ## Encodings -/

def crlf : Bytes := [CR, LF]

def countLine (n : Nat) : Bytes := 42 :: decimal n ++ crlf

def bulkLine (n : Nat) : Bytes := 36 :: decimal n ++ crlf

def encodeArg (arg : Bytes) : Bytes := bulkLine arg.length ++ arg ++ crlf

def encodeArgs (args : List Bytes) : Bytes := args.flatMap encodeArg

def encode (argv : List Bytes) : Bytes := countLine argv.length ++ encodeArgs argv

def encodeAll (cmds : List (List Bytes)) : Bytes := cmds.flatMap encode

/-- A command with at least one argument, within the limits of the parser. -/
def WithinLimits (argv : List Bytes) : Prop :=
  argv ≠ [] ∧ argv.length ≤ 1024 * 1024 ∧ ∀ arg ∈ argv, arg.length ≤ 512 * 1024 * 1024

/-- The bytes of the command at hand that are parsed and no longer in the buffer. -/
def parsedPart (c : Client) : Bytes :=
  if c.multibulklen = 0 then []
  else countLine (c.argv.length + c.multibulklen) ++ encodeArgs c.argv ++
    (c.bulklen.map bulkLine).getD []

/-! ## The size check -/

/-- The position after the argument `arg` at `start`, with `rest` behind it: a big argument that fills
the buffer takes it whole. -/
def posTaken (start : Nat) (arg rest : Bytes) : Nat :=
  if start = 0 ∧ REDIS_MBULK_BIG_ARG ≤ arg.length ∧ rest = [] then 0 else start + arg.length + 2

/-- Where an argument of `len` bytes starts, whose length line is at `pos`: a big one starts the
buffer anew. -/
def posStart (pos len : Nat) : Nat :=
  if REDIS_MBULK_BIG_ARG ≤ len then 0 else pos + (bulkLine len).length

/-- The position after complete arguments that `tail` follows. -/
def posAfterAll (pos : Nat) : List Bytes → Bytes → Nat
  | [], _ => pos
  | arg :: args, tail =>
    posAfterAll (posTaken (posStart pos arg.length) arg (encodeArgs args ++ tail)) args tail

/-- After the arguments `args` of which `n` would come, the buffer ends before the CR of the next
length line, and from its start it is longer than a line may be. -/
def TailTooLong (n pos : Nat) (args : List Bytes) (tail : Bytes) : Prop :=
  args.length < n ∧ CR ∉ tail ∧ REDIS_INLINE_MAX_SIZE < posAfterAll pos args tail + tail.length

/-- The buffer at the start of a parse is too long although no line in it is. -/
def Overlong (c : Client) : Prop :=
  ∃ args tail,
    (∃ n, c.multibulklen = 0 ∧ c.querybuf = countLine n ++ encodeArgs args ++ tail ∧
      TailTooLong n (countLine n).length args tail) ∨
    (c.bulklen = none ∧ c.querybuf = encodeArgs args ++ tail ∧
      TailTooLong c.multibulklen 0 args tail) ∨
    (∃ arg, c.bulklen = some arg.length ∧ c.querybuf = arg ++ crlf ++ encodeArgs args ++ tail ∧
      TailTooLong (c.multibulklen - 1) (posTaken 0 arg (encodeArgs args ++ tail)) args tail)

/-- The whole payload of a big argument is in the buffer, so that nothing of it is left to read. -/
def BigArgComplete (c : Client) : Prop :=
  ∃ len, c.bulklen = some len ∧ REDIS_MBULK_BIG_ARG ≤ len ∧ len + 2 ≤ c.querybuf.length

/-- Nothing is read past a big argument that waits in the buffer, the buffer stays within
`client-query-buffer-limit`, and no parse meets a buffer that is overlong. -/
def Fits (w : World σ) (s : Conn σ) (e : Event σ) : Prop :=
  (∀ n, e = .readQueryFromClient n → s.inbox.take n ≠ [] → ¬ BigArgComplete s.client ∧
    (s.client.querybuf ++ chunk s n).length ≤ w.client_max_querybuf_len) ∧
  ∀ c ∈ (step w s e).parses, ¬ Overlong c

/-! ## What is decoded -/

/-- `processCommand` got the first commands of the list, exactly these and without a protocol error,
and the rest of what was read is the parsed part of the next one and the buffer. -/
structure DecodedTo (cmds : List (List Bytes)) (n : Nat) (s : Conn σ) : Prop where
  stream : s.delivered ++ s.inbox = encodeAll cmds
  errors : s.client.errors = []
  freed : s.freed = false
  handed : s.handed = cmds.take n
  delivered : s.delivered =
    encodeAll (cmds.take n) ++ parsedPart s.client ++ s.client.querybuf

def Unfinished (cmds : List (List Bytes)) (n : Nat) (s : Conn σ) : Prop :=
  match cmds[n]? with
  | none => s.client.querybuf = []
  | some cmd => (parsedPart s.client ++ s.client.querybuf).length < (encode cmd).length

end RedisCluster.Networking

/-!
## Inline requests in one buffer

Lines one behind the other in the query buffer, and the turns of the loop of `processInputBuffer` over
them.
-/

namespace RedisCluster.Networking

open RedisCluster.Util

variable {σ : Type}

/-- An inline request: the text, and whether CR LF or LF alone ends it. A request that starts with `*` is
no inline one. -/
structure Line where
  text : Bytes
  crlf : Bool
  no_nul : 0 ∉ text
  no_lf : LF ∉ text
  no_star : text.head? ≠ some 42
  no_cr : crlf = false → text.getLast? ≠ some CR

def Line.terminator (line : Line) : Bytes := if line.crlf then [CR, LF] else [LF]

def Line.bytes (line : Line) : Bytes := line.text ++ line.terminator

def Line.Balanced (line : Line) : Prop := (sdssplitargs line.text).isSome = true

instance decidableBalanced (line : Line) : Decidable line.Balanced := inferInstanceAs (Decidable (_ = _))

/-- The arguments of the line, without the empty ones. -/
def Line.args (line : Line) : List Bytes := ((sdssplitargs line.text).getD []).filter (· ≠ [])

def linesBytes (lines : List Line) : Bytes := lines.flatMap Line.bytes

/-- What `processCommand` gets of the lines. -/
def linesHanded (lines : List Line) : List (List Bytes) :=
  lines.filterMap fun line => if line.args = [] then none else some line.args

/-- The connection after `n` turns of the loop of `processInputBuffer`, if there are so many. -/
def afterTurns (w : World σ) : Nat → Conn σ → Option (Conn σ)
  | 0, s => some s
  | n + 1, s =>
    if s.client.querybuf = [] then none
    else if Held w s then none
    else if (parseNext s).1 then afterTurns w n (dispatch w (parseNext s).2)
    else none

/-- The parser takes the line and its terminator, and leaves `rest`; a line with unbalanced quotes is
refused, and nothing is taken. -/
def TakesLine (line : Line) (rest : Bytes) (s : Conn σ) : Prop :=
  if line.Balanced then
    (parseNext s).1 = true ∧ (parseNext s).2.client.argv = line.args ∧ (parseNext s).2.client.querybuf = rest
  else
    (parseNext s).1 = false ∧ (parseNext s).2.client.querybuf = s.client.querybuf ∧
      (parseNext s).2.client.errors =
        s.client.errors ++ [ascii "Protocol error: unbalanced quotes in request"] ∧
      (parseNext s).2.client.flags.close_after_reply = true

/-- Before turn number `n` the buffer starts at line number `n`, the lines before it are handed over, the
rest of `processInputBuffer` is still to come, and the turn, if there is one, takes that line. -/
structure TurnExact (w : World σ) (lines : List Line) (tail : Bytes) (s : Conn σ) (n : Nat) (t : Conn σ) : Prop where
  buffer : t.client.querybuf = linesBytes (lines.drop n) ++ tail
  handed : t.handed = s.handed ++ linesHanded (lines.take n)
  remaining : processInputBuffer w s = { processLoop w (s.client.querybuf.length - n) t with processed := true }
  takes : ∀ line, lines[n]? = some line → ¬ Held w t →
    TakesLine line (linesBytes (lines.drop (n + 1)) ++ tail) t

def LinesExact (w : World σ) (lines : List Line) (tail : Bytes) (s : Conn σ) : Prop :=
  ∀ n t, n ≤ lines.length → afterTurns w n s = some t → TurnExact w lines tail s n t

/-- A line that LF alone ends is the last thing in the buffer, unless quoting stops the parser before. -/
def LoneLfLast (lines : List Line) (tail : Bytes) : Prop :=
  ∀ n line, lines[n]? = some line → (∀ x ∈ lines.take (n + 1), x.Balanced) → line.crlf = false →
    linesBytes (lines.drop (n + 1)) ++ tail = []

end RedisCluster.Networking
