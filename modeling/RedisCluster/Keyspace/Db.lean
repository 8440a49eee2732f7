import RedisCluster.Util.Strings

/-!
# `db.c`: one database

The source keeps the values in the dict `dict` and the expire times in the dict `expires`, and asserts
that a key with an expire time has a value. Here an entry of the one map holds both.
-/

namespace RedisCluster.Keyspace

open RedisCluster.Util

variable {V : Type}

/-- What a key maps to: its value, and its Unix time of expiry in milliseconds. -/
structure Keyed (V : Type) where
  val : V
  expire : Option Int
  deriving DecidableEq, Repr

/-- `redisDb`. -/
structure Db (V : Type) where
  dict : Bytes → Option (Keyed V)

def emptyDb : Db V := { dict := fun _ => none }

def lookupKey (db : Db V) (key : Bytes) : Option V := (db.dict key).map Keyed.val

def dbExists (db : Db V) (key : Bytes) : Bool := (db.dict key).isSome

def dbAdd (db : Db V) (key : Bytes) (val : V) : Db V :=
  { dict := Function.update db.dict key (some { val := val, expire := none }) }

/-- The key is there; its expire time stays. -/
def dbOverwrite (db : Db V) (key : Bytes) (val : V) : Db V :=
  { dict := Function.update db.dict key ((db.dict key).map fun e => { e with val := val }) }

def dbDelete (db : Db V) (key : Bytes) : Db V × Bool :=
  ({ dict := Function.update db.dict key none }, dbExists db key)

def removeExpire (db : Db V) (key : Bytes) : Db V :=
  { dict := Function.update db.dict key ((db.dict key).map fun e => { e with expire := none }) }

def setExpire (db : Db V) (key : Bytes) (when : Int) : Db V :=
  { dict := Function.update db.dict key ((db.dict key).map fun e => { e with expire := some when }) }

def getExpire (db : Db V) (key : Bytes) : Int := ((db.dict key).bind Keyed.expire).getD (-1)

end RedisCluster.Keyspace
