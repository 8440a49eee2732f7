import RedisCluster.Aof.Format
import RedisCluster.Keyspace.Db

/-!
# `t_string.c` and `t_hash.c`: INCR, DECR, INCRBY, DECRBY and HINCRBY

The commands on one database, once the key is looked up. A string object is an sds or a `long`; the value of
a hash field comes out of a ziplist or a dict as one of these. Arithmetic in `long long` wraps around.
-/

namespace RedisCluster.Keyspace.Counters

open RedisCluster.Util

abbrev LongLong := { n : Int // Numbers.IsLongLong n }

theorem longLong_toLongLong (n : Int) : Numbers.IsLongLong (Aof.toLongLong n) := by
  have hmin := Int.le_bmod (x := n) (m := 2 ^ 64) (by decide)
  have hmax := Int.bmod_lt (x := n) (m := 2 ^ 64) (by decide)
  unfold Numbers.IsLongLong Aof.toLongLong
  omega

def wrap (n : Int) : LongLong := ⟨Aof.toLongLong n, longLong_toLongLong n⟩

inductive StringObject where
  | sds (s : Bytes)
  | int (n : LongLong)
  deriving DecidableEq

def StringObject.bytes : StringObject → Bytes
  | .sds s => s
  | .int n => ll2string n

inductive Value where
  | string (o : StringObject)
  | hash (h : Bytes → Option StringObject)
  | other

inductive Reply where
  | error (text : Bytes)
  | integer (n : Int)
  deriving DecidableEq

def wrongtypeerr : Reply := .error (ascii "-WRONGTYPE Operation against a key holding the wrong kind of value")
def notInteger : Reply := .error (ascii "-ERR value is not an integer or out of range")
def hashNotInteger : Reply := .error (ascii "-ERR hash value is not an integer")
def overflow : Reply := .error (ascii "-ERR increment or decrement would overflow")

/-- What a command leaves: the database, the reply and the change of `server.dirty`. -/
structure Outcome where
  db : Db Value
  reply : Reply
  dirty : Nat

def answer (db : Db Value) (reply : Reply) : Outcome := { db := db, reply := reply, dirty := 0 }

/-- `getLongLongFromObject`; an object that is not there counts as 0. -/
def getLongLongFromObject : Option StringObject → Option Int
  | none => some 0
  | some (.sds s) => Aof.getLongLongFromObject s
  | some (.int n) => some n

def wouldOverflow (oldvalue incr : Int) : Bool :=
  (incr < 0 ∧ oldvalue < 0 ∧ incr < -(2 ^ 63) - oldvalue) ∨ (incr > 0 ∧ oldvalue > 0 ∧ incr > 2 ^ 63 - 1 - oldvalue)

def createStringObjectFromLongLong (value : LongLong) : StringObject := .int value

/-- The end of `incrDecrCommand`, with the old value read. -/
def storeCounter (db : Db Value) (key : Bytes) (present : Bool) (value incr : Int) : Outcome :=
  if wouldOverflow value incr then answer db overflow
  else
    let value := wrap (value + incr)
    let new := Value.string (createStringObjectFromLongLong value)
    { db := if present then dbOverwrite db key new else dbAdd db key new, reply := .integer value, dirty := 1 }

def incrDecrCommand (db : Db Value) (key : Bytes) (incr : Int) : Outcome :=
  match lookupKey db key with
  | some (.hash _) => answer db wrongtypeerr
  | some .other => answer db wrongtypeerr
  | some (.string o) =>
    match getLongLongFromObject (some o) with
    | none => answer db notInteger
    | some value => storeCounter db key true value incr
  | none => storeCounter db key false 0 incr

def incrCommand (db : Db Value) (key : Bytes) : Outcome := incrDecrCommand db key 1

def decrCommand (db : Db Value) (key : Bytes) : Outcome := incrDecrCommand db key (-1)

def incrbyCommand (db : Db Value) (key arg : Bytes) : Outcome :=
  match Aof.getLongLongFromObject arg with
  | none => answer db notInteger
  | some incr => incrDecrCommand db key incr

/-- The argument is negated in `long long`. -/
def decrbyCommand (db : Db Value) (key arg : Bytes) : Outcome :=
  match Aof.getLongLongFromObject arg with
  | none => answer db notInteger
  | some incr => incrDecrCommand db key (wrap (-incr))

/-- The end of `hincrbyCommand` on the hash `h` at the key of `db`; `orig` is the database before a hash was
created. -/
def storeField (db : Db Value) (key : Bytes) (h : Bytes → Option StringObject) (field : Bytes) (incr : Int) :
    Outcome :=
  match getLongLongFromObject (h field) with
  | none => answer db hashNotInteger
  | some value =>
    if wouldOverflow value incr then answer db overflow
    else
      let value := wrap (value + incr)
      { db := dbOverwrite db key (.hash (Function.update h field (some (createStringObjectFromLongLong value))))
        reply := .integer value, dirty := 1 }

/-- A key that is not there is created with an empty hash. -/
def hincrbyCommand (db : Db Value) (key field arg : Bytes) : Outcome :=
  match Aof.getLongLongFromObject arg with
  | none => answer db notInteger
  | some incr =>
    match lookupKey db key with
    | some (.hash h) => storeField db key h field incr
    | some _ => answer db wrongtypeerr
    | none => storeField (dbAdd db key (.hash fun _ => none)) key (fun _ => none) field incr

/-! ## What the commands should do -/

/-- The string is a decimal integer as a whole, with or without a sign, in the signed 64-bit range. -/
def Decimal (s : Bytes) (n : Int) : Prop :=
  Numbers.IsLongLong n ∧ ∃ sign ds, s = sign ++ ds ∧ ds ≠ [] ∧ (∀ d ∈ ds, isDigit d = true) ∧
    (sign = [45] ∧ n = -(Aof.digitsValue ds : Int) ∨ (sign = [] ∨ sign = [43]) ∧ n = Aof.digitsValue ds)

/-- What a counter holds; one that is not there counts as 0. -/
def Counts (current : Option StringObject) (n : Int) : Prop :=
  match current with
  | none => n = 0
  | some o => Decimal o.bytes n

/-- A value of any type is put at a key; an expire time stays. -/
def putValue (db : Db Value) (key : Bytes) (val : Value) : Db Value :=
  { dict := Function.update db.dict key (some { val := val, expire := (db.dict key).bind Keyed.expire }) }

def Refused (db : Db Value) (out : Outcome) : Prop := ∃ text, out = answer db (.error text)

/-- An error that changes nothing, or the sum of the counter and the amount, stored and replied. `Amount` says
which numbers the amount is, and `stored` is the database with a new value. -/
def CounterExact (db : Db Value) (current : Option StringObject) (Amount : Int → Prop) (minus : Bool)
    (stored : LongLong → Db Value) (out : Outcome) : Prop :=
  Refused db out ∨
    ∃ old incr, ∃ new : LongLong, Counts current old ∧ Amount incr ∧
      new.val = (if minus then old - incr else old + incr) ∧
      out = { db := stored new, reply := .integer new, dirty := 1 }

def Whole (s : Bytes) : Prop := s ≠ [] ∧ 0 ∉ s

/-- What is added to the counter: the amount, or its negation in `long long`. -/
def addend (minus : Bool) (incr : Int) : Int := if minus then wrap (-incr) else incr

/-- If both numbers are read and the sum passes the check, then both were whole strings, and the amount has an
opposite. -/
def CounterFits (current : Option StringObject) (amount : Option Int) (WholeAmount : Prop) (minus : Bool) : Prop :=
  ∀ old incr, getLongLongFromObject current = some old → amount = some incr →
    wouldOverflow old (addend minus incr) = false →
      (∀ s, current = some (.sds s) → Whole s) ∧ WholeAmount ∧ ¬ (minus = true ∧ incr = -(2 ^ 63))

inductive Command where
  | incr (key : Bytes)
  | decr (key : Bytes)
  | incrby (key arg : Bytes)
  | decrby (key arg : Bytes)
  | hincrby (key field arg : Bytes)

def Command.run (db : Db Value) : Command → Outcome
  | incr key => incrCommand db key
  | decr key => decrCommand db key
  | incrby key arg => incrbyCommand db key arg
  | decrby key arg => decrbyCommand db key arg
  | hincrby key field arg => hincrbyCommand db key field arg

/-- The counter of a key; `none` if the key holds no string. -/
def stringAt (db : Db Value) (key : Bytes) : Option (Option StringObject) :=
  match lookupKey db key with
  | none => some none
  | some (.string o) => some (some o)
  | some _ => none

/-- The hash at a key, empty if the key is not there. -/
def hashAt (db : Db Value) (key : Bytes) : Option (Bytes → Option StringObject) :=
  match lookupKey db key with
  | none => some fun _ => none
  | some (.hash h) => some h
  | some _ => none

/-- What the command works on: the counter, and the database with a new value in its place. -/
def Command.target (db : Db Value) : Command → Option (Option StringObject × (LongLong → Db Value))
  | incr key | decr key | incrby key _ | decrby key _ =>
    (stringAt db key).map fun o => (o, fun new => putValue db key (.string (.int new)))
  | hincrby key field _ =>
    (hashAt db key).map fun h =>
      (h field, fun new => putValue db key (.hash (Function.update h field (some (.int new)))))

/-- The argument with the amount; INCR and DECR have none. -/
def Command.amount : Command → Option Bytes
  | incr _ | decr _ => none
  | incrby _ arg | decrby _ arg | hincrby _ _ arg => some arg

def Command.minus : Command → Bool
  | decr _ | decrby _ _ => true
  | _ => false

/-- An error that changes nothing, or the exact sum or difference of two decimal integers. -/
def Command.Exact (db : Db Value) (c : Command) : Prop :=
  match c.target db with
  | none => Refused db (c.run db)
  | some (current, stored) =>
    CounterExact db current (fun n => match c.amount with | none => n = 1 | some arg => Decimal arg n) c.minus stored
      (c.run db)

/-- If the command stores a sum, both strings were whole, and DECRBY was not called with the number that has no
opposite. -/
def Command.Fits (db : Db Value) (c : Command) : Prop :=
  ∀ current stored, c.target db = some (current, stored) →
    CounterFits current (match c.amount with | none => some 1 | some arg => Aof.getLongLongFromObject arg)
      (∀ arg, c.amount = some arg → Whole arg) c.minus

end RedisCluster.Keyspace.Counters
