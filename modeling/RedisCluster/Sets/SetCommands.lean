import RedisCluster.Keyspace.Db
import RedisCluster.Sets.SetType

/-!
# `t_set.c`: the commands on one set, and SMOVE

Keys hold sets or objects of other types, `ω`. None of the keys has an expire time, which the commands
here never set, so that a lookup changes nothing. An argument comes with its reference count.
-/

namespace RedisCluster.Sets

open RedisCluster.Util RedisCluster.Lib RedisCluster.Keyspace

inductive Obj (ω : Type) where
  | set (o : SetObject)
  | other (x : ω)

abbrev SetDb (ω : Type) := Db (Obj ω)

structure Arg where
  obj : StringObject
  refcount : Nat

def Arg.encoded (a : Arg) : StringObject := tryObjectEncoding a.refcount a.obj

inductive Reply where
  | longlong (n : Nat)
  | bulk (b : Option Bytes)
  | wrongtypeerr
  deriving DecidableEq

def czero : Reply := .longlong 0
def cone : Reply := .longlong 1
def nullbulk : Reply := .bulk none

variable {ω : Type}

/-- The loop of `saddCommand`; `added` counts. -/
def saddLoop (max : Nat) : List Arg → SetObject → Nat → Option (SetObject × Nat)
  | [], set, added => some (set, added)
  | a :: args, set, added => do
    let (set, new) ← setTypeAdd max set a.encoded
    saddLoop max args set (if new then added + 1 else added)

/-- The arity makes sure that there is an argument. -/
def saddCommand (max : Nat) (db : SetDb ω) (key : Bytes) (arg : Arg) (args : List Arg) :
    Option (SetDb ω × Reply) :=
  match lookupKey db key with
  | some (.other _) => some (db, .wrongtypeerr)
  | none => do
    let db := dbAdd db key (.set (setTypeCreate arg.obj))
    let (set, added) ← saddLoop max (arg :: args) (setTypeCreate arg.obj) 0
    return (dbOverwrite db key (.set set), .longlong added)
  | some (.set set) => do
    let (set, added) ← saddLoop max (arg :: args) set 0
    return (dbOverwrite db key (.set set), .longlong added)

/-- The loop of `sremCommand`, which ends when the set is empty; then the last result says that the
key is removed. -/
def sremLoop : List Arg → SetObject → Nat → Option (SetObject × Nat × Bool)
  | [], set, deleted => some (set, deleted, false)
  | a :: args, set, deleted => do
    let (set, gone) ← setTypeRemove set a.obj
    if gone then
      if setTypeSize set = 0 then return (set, deleted + 1, true)
      else sremLoop args set (deleted + 1)
    else sremLoop args set deleted

def sremCommand (db : SetDb ω) (key : Bytes) (args : List Arg) : Option (SetDb ω × Reply) :=
  match lookupKey db key with
  | none => some (db, czero)
  | some (.other _) => some (db, .wrongtypeerr)
  | some (.set set) => do
    let (set, deleted, keyremoved) ← sremLoop args set 0
    let db := dbOverwrite db key (.set set)
    return (if keyremoved then (dbDelete db key).1 else db, .longlong deleted)

/-- Two keys hold the same object only if they are equal. -/
def smoveCommand (max : Nat) (db : SetDb ω) (src dst : Bytes) (arg : Arg) :
    Option (SetDb ω × Reply) :=
  let ele := arg.encoded
  match lookupKey db src with
  | none => some (db, czero)
  | some (.other _) => some (db, .wrongtypeerr)
  | some (.set srcset) =>
    match lookupKey db dst with
    | some (.other _) => some (db, .wrongtypeerr)
    | dstobj =>
      if src = dst then some (db, cone)
      else do
        let (srcset, gone) ← setTypeRemove srcset ele
        if gone then do
          let db := dbOverwrite db src (.set srcset)
          let db := if setTypeSize srcset = 0 then (dbDelete db src).1 else db
          match dstobj with
          | some (.set dstset) => do
            let (dstset, _) ← setTypeAdd max dstset ele
            return (dbOverwrite db dst (.set dstset), cone)
          | _ => do
            let db := dbAdd db dst (.set (setTypeCreate ele))
            let (dstset, _) ← setTypeAdd max (setTypeCreate ele) ele
            return (dbOverwrite db dst (.set dstset), cone)
        else return (dbOverwrite db src (.set srcset), czero)

def sismemberCommand (db : SetDb ω) (key : Bytes) (arg : Arg) : Option (SetDb ω × Reply) :=
  match lookupKey db key with
  | none => some (db, czero)
  | some (.other _) => some (db, .wrongtypeerr)
  | some (.set set) => do
    let found ← setTypeIsMember set arg.encoded
    return (db, if found then cone else czero)

def scardCommand (db : SetDb ω) (key : Bytes) : Option (SetDb ω × Reply) :=
  match lookupKey db key with
  | none => some (db, czero)
  | some (.other _) => some (db, .wrongtypeerr)
  | some (.set set) => some (db, .longlong (setTypeSize set))

/-- The element of an intset is removed by `intsetRemove` with its value. -/
def spopCommand (db : SetDb ω) (key : Bytes) (r : Nat) : Option (SetDb ω × Reply) :=
  match lookupKey db key with
  | none => some (db, nullbulk)
  | some (.other _) => some (db, .wrongtypeerr)
  | some (.set set) => do
    let ele ← setTypeRandomElement set r
    let (set, _) ← setTypeRemove set ele
    let db := dbOverwrite db key (.set set)
    return (if setTypeSize set = 0 then (dbDelete db key).1 else db, .bulk (some (getDecodedObject ele)))

/-! ## Runs -/

inductive SetOp where
  | sadd (key : Bytes) (arg : Arg) (args : List Arg)
  | srem (key : Bytes) (args : List Arg)
  | smove (src dst : Bytes) (arg : Arg)
  | spop (key : Bytes) (r : Nat)
  | sismember (key : Bytes) (arg : Arg)
  | scard (key : Bytes)

def setOpStep (max : Nat) (db : SetDb ω) : SetOp → Option (SetDb ω × Reply)
  | .sadd key arg args => saddCommand max db key arg args
  | .srem key args => sremCommand db key args
  | .smove src dst arg => smoveCommand max db src dst arg
  | .spop key r => spopCommand db key r
  | .sismember key arg => sismemberCommand db key arg
  | .scard key => scardCommand db key

/-! ## What they mean -/

/-- A keyspace of finite sets of byte strings and of other objects. -/
abbrev SetSpace (ω : Type) := Bytes → Option (Finset Bytes ⊕ ω)

/-- The members of the set at a key; a missing key is the empty set. -/
def members (m : SetSpace ω) (key : Bytes) : Finset Bytes :=
  match m key with
  | some (.inl s) => s
  | _ => ∅

/-- The key holds an object of another type. -/
def isOther (m : SetSpace ω) (key : Bytes) : Bool :=
  match m key with
  | some (.inr _) => true
  | _ => false

def store (m : SetSpace ω) (key : Bytes) (s : Finset Bytes) : SetSpace ω :=
  Function.update m key (if s = ∅ then none else some (.inl s))

def strings (args : List Arg) : Finset Bytes := (args.map fun a => getDecodedObject a.obj).toFinset

/-- The reply and the new keyspace of an operation on sets. -/
def Specified (m : SetSpace ω) (reply : Reply) (m' : SetSpace ω) : SetOp → Prop
  | .sadd key arg args =>
    if isOther m key then reply = .wrongtypeerr ∧ m' = m
    else
      reply = .longlong (strings (arg :: args) \ members m key).card ∧
        m' = store m key (members m key ∪ strings (arg :: args))
  | .srem key args =>
    if isOther m key then reply = .wrongtypeerr ∧ m' = m
    else
      reply = .longlong (members m key ∩ strings args).card ∧
        m' = store m key (members m key \ strings args)
  | .smove src dst arg =>
    let ele := getDecodedObject arg.obj
    if isOther m src || ((m src).isSome && isOther m dst) then reply = .wrongtypeerr ∧ m' = m
    else if ele ∈ members m src then
      reply = cone ∧ m' =
        let m₁ := store m src ((members m src).erase ele)
        store m₁ dst (insert ele (members m₁ dst))
    else reply = czero ∧ m' = m
  | .spop key _ =>
    if isOther m key then reply = .wrongtypeerr ∧ m' = m
    else if members m key = ∅ then reply = nullbulk ∧ m' = m
    else
      ∃ ele ∈ members m key, reply = .bulk (some ele) ∧
        m' = store m key ((members m key).erase ele)
  | .sismember key arg =>
    m' = m ∧
      (if isOther m key then reply = .wrongtypeerr
      else reply = if getDecodedObject arg.obj ∈ members m key then cone else czero)
  | .scard key =>
    m' = m ∧
      (if isOther m key then reply = .wrongtypeerr
      else reply = .longlong (members m key).card)

end RedisCluster.Sets
