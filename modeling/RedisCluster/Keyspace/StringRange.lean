import RedisCluster.Aof.Format
import RedisCluster.Keyspace.Db
import RedisCluster.Util.Sds

/-!
# `t_string.c`: GETRANGE, SETRANGE and APPEND

The commands on one database, once the key is looked up. A `long` is an integer of 64 bits and a `size_t`
counts modulo 2^64. A command has no result where the source reads outside of a string or asks for more
memory than there can be.
-/

namespace RedisCluster.Keyspace.StringRange

open RedisCluster.Util

/-- An object: a string as an sds or as a `long`, or a value of another type. -/
inductive Robj where
  | sds (s : Bytes)
  | int (n : Int)
  | other
  deriving DecidableEq, Repr

/-- The string that a string object stands for: `getDecodedObject`. -/
def Robj.string? : Robj → Option Bytes
  | .sds s => some s
  | .int n => some (ll2string n)
  | .other => none

inductive Reply where
  | error (text : Bytes)
  | bulk (s : Bytes)
  | integer (n : Nat)
  deriving DecidableEq, Repr

def wrongtypeerr : Reply := .error (ascii "-WRONGTYPE Operation against a key holding the wrong kind of value")
def notInteger : Reply := .error (ascii "-ERR value is not an integer or out of range")
def tooLong : Reply := .error (ascii "-ERR string exceeds maximum allowed size (512MB)")
def offsetOutOfRange : Reply := .error (ascii "-ERR offset is out of range")

def maxStringLength : Nat := 512 * 1024 * 1024

/-- What a command leaves: the database, the reply and the change of `server.dirty`. -/
structure Outcome where
  db : Db Robj
  reply : Reply
  dirty : Nat

def answer (db : Db Robj) (reply : Reply) : Outcome := { db := db, reply := reply, dirty := 0 }

/-- The `size_t` is converted to `long long`; true for `REDIS_OK`. -/
def checkStringLength (size : Nat) : Bool := ¬ Aof.toLongLong size > maxStringLength

/-- The object as an sds of its own; an expire time stays. -/
def dbUnshareStringValue (db : Db Robj) (key s : Bytes) : Db Robj := dbOverwrite db key (.sds s)

/-! ## GETRANGE -/

/-- The reply with the bytes of `str` from `start` on. -/
def addReplyBulkCBuffer (str : Bytes) (start len : Nat) : Option Reply :=
  if start + len ≤ str.length then some (.bulk ((str.drop start).take len)) else none

/-- `getrangeCommand` on a string; `end` is `stop` here. -/
def getrangeString (str : Bytes) (start stop : Int) : Option Reply :=
  let strlen : Int := str.length
  let start := if start < 0 then strlen + start else start
  let stop := if stop < 0 then strlen + stop else stop
  let start := if start < 0 then 0 else start
  let stop := if stop < 0 then 0 else stop
  -- the cast is to 32 bits
  let stop := if stop % 2 ^ 32 ≥ strlen then strlen - 1 else stop
  if start > stop then some (.bulk []) else addReplyBulkCBuffer str start.toNat (stop - start + 1).toNat

def getrangeCommand (db : Db Robj) (argv : List Bytes) : Option Outcome :=
  match Aof.getLongLongFromObject (argv.getD 2 []), Aof.getLongLongFromObject (argv.getD 3 []) with
  | some start, some stop =>
    match lookupKey db (argv.getD 1 []) with
    | none => some (answer db (.bulk []))
    | some o =>
      match o.string? with
      | none => some (answer db wrongtypeerr)
      | some str => (getrangeString str start stop).map (answer db)
  | _, _ => some (answer db notInteger)

/-! ## SETRANGE -/

def sdsgrowzero (s : Bytes) (len : Nat) : Option Bytes :=
  if len ≤ s.length then some s
  else if len < 2 ^ 63 then some (s ++ List.replicate (len - s.length) 0)
  else none

/-- `memcpy((char*)s+offset,value,sdslen(value))`. -/
def memcpyAt (s : Bytes) (offset : Nat) (value : Bytes) : Bytes :=
  s.take offset ++ value ++ s.drop (offset + value.length)

/-- The end of `setrangeCommand`, for a value that is not empty: `db` holds the string `s` at the key. -/
def storeRange (db : Db Robj) (key s : Bytes) (offset : Nat) (value : Bytes) : Option Outcome :=
  (sdsgrowzero s (offset + value.length)).map fun grown =>
    let result := memcpyAt grown offset value
    { db := dbOverwrite db key (.sds result), reply := .integer result.length, dirty := 1 }

def setrangeCommand (db : Db Robj) (argv : List Bytes) : Option Outcome :=
  let key := argv.getD 1 []
  let value := argv.getD 3 []
  match Aof.getLongLongFromObject (argv.getD 2 []) with
  | none => some (answer db notInteger)
  | some offset =>
    if offset < 0 then some (answer db offsetOutOfRange)
    else
      match lookupKey db key with
      | none =>
        if value.length = 0 then some (answer db (.integer 0))
        else if checkStringLength (offset.toNat + value.length) = false then some (answer db tooLong)
        else storeRange (dbAdd db key (.sds [])) key [] offset.toNat value
      | some o =>
        match o.string? with
        | none => some (answer db wrongtypeerr)
        | some s =>
          if value.length = 0 then some (answer db (.integer s.length))
          else if checkStringLength (offset.toNat + value.length) = false then some (answer db tooLong)
          else storeRange (dbUnshareStringValue db key s) key s offset.toNat value

/-! ## APPEND -/

/-- The encoding of a short integer; the others keep their bytes. -/
def tryObjectEncoding (s : Bytes) : Robj :=
  if s.length ≤ 21 then (string2ll s).elim (.sds s) .int else .sds s

def appendCommand (db : Db Robj) (argv : List Bytes) : Outcome :=
  let key := argv.getD 1 []
  let append := argv.getD 2 []
  match lookupKey db key with
  | none => { db := dbAdd db key (tryObjectEncoding append), reply := .integer append.length, dirty := 1 }
  | some o =>
    match o.string? with
    | none => answer db wrongtypeerr
    | some s =>
      if checkStringLength (s.length + append.length) = false then answer db tooLong
      else
        let db := dbUnshareStringValue db key s
        let result := sdscatlen s append
        { db := dbOverwrite db key (.sds result), reply := .integer result.length, dirty := 1 }

/-! ## What the commands are for -/

/-- An index counted from the end if it is negative, and not before the first byte. -/
def fromStart (n : Nat) (i : Int) : Nat := (if i < 0 then n + i else i).toNat

/-- The bytes at the positions from `start` to `stop`. -/
def slice (s : Bytes) (start stop : Int) : Bytes :=
  (s.take (fromStart s.length stop + 1)).drop (fromStart s.length start)

/-- The string padded with zeros to the offset, with the value there. -/
def overwritten (s : Bytes) (offset : Nat) (value : Bytes) : Bytes :=
  (s ++ List.replicate (offset - s.length) 0).take offset ++ value ++ s.drop (offset + value.length)

/-- The string at the key; a missing key counts as the empty one. -/
def contents (db : Db Robj) (key : Bytes) : Bytes := ((lookupKey db key).bind Robj.string?).getD []

def Bounded (db : Db Robj) : Prop := ∀ key, (contents db key).length ≤ maxStringLength

def Reply.IsError (r : Reply) : Prop := ∃ text, r = .error text

/-- An error that changes nothing, or the string is stored and its length is the reply. -/
def RefusesOrStores (db : Db Robj) (key result : Bytes) (out : Outcome) : Prop :=
  (out.reply.IsError ∧ out.db = db) ∨
    (out.reply = .integer result.length ∧ result.length ≤ maxStringLength ∧
      (lookupKey out.db key).bind Robj.string? = some result ∧
      ∀ key', key' ≠ key → out.db.dict key' = db.dict key')

/-- The end is behind the string, and its low 32 bits are not: it is not clipped. -/
def LowBitsInside (s : Bytes) (start stop : Int) : Prop :=
  s.length ≤ fromStart s.length stop ∧ fromStart s.length stop % 2 ^ 32 < s.length ∧
    fromStart s.length start ≤ fromStart s.length stop

def GetrangeRight (db : Db Robj) (argv : List Bytes) : Prop :=
  ∀ start stop, Aof.getLongLongFromObject (argv.getD 2 []) = some start →
    Aof.getLongLongFromObject (argv.getD 3 []) = some stop → lookupKey db (argv.getD 1 []) ≠ some .other →
      LowBitsInside (contents db (argv.getD 1 [])) start stop ∨
        getrangeCommand db argv = some (answer db (.bulk (slice (contents db (argv.getD 1 [])) start stop)))

def SetrangeRight (db : Db Robj) (argv : List Bytes) : Prop :=
  ∀ offset, Aof.getLongLongFromObject (argv.getD 2 []) = some offset →
    2 ^ 63 ≤ offset + (argv.getD 3 []).length ∨
      ∃ out, setrangeCommand db argv = some out ∧
        if argv.getD 3 [] = [] then
          out.db = db ∧ (out.reply.IsError ∨ out.reply = .integer (contents db (argv.getD 1 [])).length)
        else
          RefusesOrStores db (argv.getD 1 [])
            (overwritten (contents db (argv.getD 1 [])) offset.toNat (argv.getD 3 [])) out

def AppendRight (db : Db Robj) (argv : List Bytes) : Prop :=
  RefusesOrStores db (argv.getD 1 []) (contents db (argv.getD 1 []) ++ argv.getD 2 []) (appendCommand db argv)

end RedisCluster.Keyspace.StringRange
