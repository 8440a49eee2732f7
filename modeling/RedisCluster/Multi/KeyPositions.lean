import RedisCluster.Aof.Format
import RedisCluster.Multi.MultiRun

/-!
# The positions of the keys of a command

`getKeysFromCommand` with the array it allocates and fills, the columns of `redisCommandTable` it reads,
and beside each row what the procedure of the command takes for keys.
-/

namespace RedisCluster.Multi.KeyPositions

/-! ## The extraction -/

/-- The positions, or how the process ends: a failed assertion, an allocation that cannot be met, or a
write outside of the array. -/
inductive Extraction where
  | keys (positions : List Nat)
  | assertion
  | outOfMemory
  | outside
  deriving DecidableEq, Repr

/-- `zmalloc(sizeof(int)*len)`: a negative number of elements is a size of almost 2^64 bytes. -/
def zmalloc (len : Int) (fill : Extraction) : Extraction := if len < 0 then .outOfMemory else fill

/-- The loop of `getKeysUsingCommandTable`; the first argument bounds its rounds. -/
def tableLoop (argc keystep : Nat) (last len : Int) : Nat → Nat → List Nat → Extraction
  | 0, _, keys => .keys keys
  | rounds + 1, j, keys =>
    if (j : Int) ≤ last then
      if argc ≤ j then .assertion
      else if len ≤ keys.length then .outside
      else tableLoop argc keystep last len rounds (j + keystep) (keys ++ [j])
    else .keys keys

def getKeysUsingCommandTable (firstkey : Nat) (lastkey : Int) (keystep argc : Nat) : Extraction :=
  if firstkey = 0 then .keys []
  else
    let last := if lastkey < 0 then argc + lastkey else lastkey
    let len := last - firstkey + 1
    zmalloc len (tableLoop argc keystep last len (argc + 1) firstkey [])

def counted (num : Int) : List Nat := (List.range num.toNat).map (3 + ·)

def zunionInterGetKeys (argv : List Bytes) : Extraction :=
  let num := Aof.atoi (argv.getD 2 [])
  if num > (argv.length : Int) - 3 then .keys []
  -- the destination is stored behind the sources
  else zmalloc (num + 1) (if num < 0 then .outside else .keys (counted num ++ [1]))

def evalGetKeys (argv : List Bytes) : Extraction :=
  let num := Aof.atoi (argv.getD 2 [])
  if num > (argv.length : Int) - 3 then .keys [] else zmalloc num (.keys (counted num))

def isWord (a : Bytes) (s : String) : Bool := sameCaseless a (asciiBytes s)

/-- The loop of `sortGetKeys` from the argument `i` on; the last argument is `keys[1]`. -/
def sortScan : List Bytes → Nat → Option Nat → Option Nat
  | [], _, stored => stored
  | a :: rest, i, stored =>
    if isWord a "limit" then
      match rest with
      | _ :: _ :: rest => sortScan rest (i + 3) stored
      | _ => stored
    else if isWord a "store" && rest ≠ [] then sortScan rest (i + 1) (some (i + 1))
    else if isWord a "get" || isWord a "by" then
      match rest with
      | _ :: rest => sortScan rest (i + 2) stored
      | [] => stored
    else sortScan rest (i + 1) stored

/-- Storing to `keys[1]` does not count it. -/
def sortGetKeys (argv : List Bytes) : Extraction :=
  let num := 1
  .keys ((1 :: (sortScan (argv.drop 2) 2 none).toList).take num)

/-- The `getkeys_proc` of a row; `table` is NULL. -/
inductive GetKeys where
  | table
  | zunionInter
  | eval
  | sort
  deriving DecidableEq, Repr

/-! ## What the commands take for keys -/

/-- The arguments that the procedure of a command uses as keys. -/
inductive KeyUse where
  | none
  /-- From 1 to `n`. -/
  | upTo (n : Nat)
  /-- From `first` on, less the last `back`. -/
  | rest (first back : Nat)
  | pairs
  | zunionInter
  | eval
  | sort
  | object
  | migrate
  | debug
  | pfdebug
  deriving DecidableEq, Repr

def number (argv : List Bytes) (i : Nat) : Option Int := Aof.getLongLongFromObject (argv.getD i [])

/-- The options of SORT from the argument `j` on; the result is the position of `storekey`. -/
def sortOptions (cluster : Bool) : List Bytes → Nat → Option Nat → Option (Option Nat)
  | [], _, storekey => some storekey
  | a :: rest, j, storekey =>
    if isWord a "asc" || isWord a "desc" || isWord a "alpha" then sortOptions cluster rest (j + 1) storekey
    else if isWord a "limit" && 2 ≤ rest.length then
      match rest with
      | b :: c :: rest =>
        if (Aof.getLongLongFromObject b).isNone || (Aof.getLongLongFromObject c).isNone then none
        else sortOptions cluster rest (j + 3) storekey
      | _ => none
    else
      match rest with
      | [] => none
      | b :: rest =>
        if isWord a "store" then sortOptions cluster rest (j + 2) (some (j + 1))
        else if isWord a "by" then
          if cluster && (cstr b).contains 42 then none else sortOptions cluster rest (j + 2) storekey
        else if isWord a "get" then
          if cluster then none else sortOptions cluster rest (j + 2) storekey
        else none

/-- The position after STORE, if the options are accepted. -/
def storeKey (cluster : Bool) (argv : List Bytes) : Option (Option Nat) :=
  sortOptions cluster (argv.drop 2) 2 none

/-- The subcommand of a command with one more argument. -/
def hasSubcommand (argv : List Bytes) (names : List String) : Bool :=
  argv.length = 3 && names.any (isWord (argv.getD 1 []))

def migrateAccepts (argv : List Bytes) : Bool :=
  ((argv.drop 6).all fun a => isWord a "copy" || isWord a "replace") &&
    (number argv 5).isSome && (number argv 4).isSome

/-- A key that the row of the command does not mention. -/
def unlistedKey (argv : List Bytes) : KeyUse → Option Nat
  | .migrate => if migrateAccepts argv then some 3 else none
  | .debug => if hasSubcommand argv ["object", "sdslen"] then some 2 else none
  | .pfdebug => if hasSubcommand argv ["getreg", "decode", "encoding", "todense"] then some 2 else none
  | _ => none

/-- The checks of the arguments that the keys depend on. -/
def accepts (cluster : Bool) (argv : List Bytes) : KeyUse → Bool
  | .pairs => argv.length % 2 = 1
  | .zunionInter => (number argv 2).any fun n => 1 ≤ n ∧ n ≤ (argv.length : Int) - 3
  | .eval => (number argv 2).any fun n => n ≤ (argv.length : Int) - 3
  | .sort => (storeKey cluster argv).isSome
  | .object => hasSubcommand argv ["refcount", "encoding", "idletime"]
  | _ => true

/-- The command uses the argument `i` as a key. -/
def UsesKey (cluster : Bool) (argv : List Bytes) (i : Nat) : KeyUse → Prop
  | .none => False
  | .upTo n => 1 ≤ i ∧ i ≤ n
  | .rest first back => first ≤ i ∧ i + back < argv.length
  | .pairs => i % 2 = 1 ∧ i + 1 < argv.length
  | .zunionInter => i = 1 ∨ ∃ n, number argv 2 = some n ∧ 3 ≤ i ∧ (i : Int) < 3 + n
  -- `luaSetGlobalArray` takes the number as an `int`
  | .eval => ∃ n, number argv 2 = some n ∧ 3 ≤ i ∧ (i : Int) < 3 + Int.bmod n (2 ^ 32)
  | .sort => i = 1 ∨ storeKey cluster argv = some (some i)
  | .object => i = 2
  | use => unlistedKey argv use = some i

/-! ## The table -/

/-- A row of `redisCommandTable`, and the keys of the command. -/
structure KeyRow where
  name : String
  arity : Int
  getkeys : GetKeys
  firstkey : Nat
  lastkey : Int
  keystep : Nat
  uses : KeyUse
  deriving DecidableEq, Repr

def row (name : String) (arity : Int) (getkeys : GetKeys) (firstkey : Nat) (lastkey : Int)
    (keystep : Nat) (uses : KeyUse) : KeyRow :=
  ⟨name, arity, getkeys, firstkey, lastkey, keystep, uses⟩

def redisCommandTable : List KeyRow :=
  [row "get" 2 .table 1 1 1 (.upTo 1), row "set" (-3) .table 1 1 1 (.upTo 1),
    row "setnx" 3 .table 1 1 1 (.upTo 1), row "setex" 4 .table 1 1 1 (.upTo 1),
    row "psetex" 4 .table 1 1 1 (.upTo 1), row "append" 3 .table 1 1 1 (.upTo 1),
    row "strlen" 2 .table 1 1 1 (.upTo 1), row "del" (-2) .table 1 (-1) 1 (.rest 1 0),
    row "exists" 2 .table 1 1 1 (.upTo 1), row "setbit" 4 .table 1 1 1 (.upTo 1),
    row "getbit" 3 .table 1 1 1 (.upTo 1), row "setrange" 4 .table 1 1 1 (.upTo 1),
    row "getrange" 4 .table 1 1 1 (.upTo 1), row "substr" 4 .table 1 1 1 (.upTo 1),
    row "incr" 2 .table 1 1 1 (.upTo 1), row "decr" 2 .table 1 1 1 (.upTo 1),
    row "mget" (-2) .table 1 (-1) 1 (.rest 1 0), row "rpush" (-3) .table 1 1 1 (.upTo 1),
    row "lpush" (-3) .table 1 1 1 (.upTo 1), row "rpushx" 3 .table 1 1 1 (.upTo 1),
    row "lpushx" 3 .table 1 1 1 (.upTo 1), row "linsert" 5 .table 1 1 1 (.upTo 1),
    row "rpop" 2 .table 1 1 1 (.upTo 1), row "lpop" 2 .table 1 1 1 (.upTo 1),
    row "brpop" (-3) .table 1 1 1 (.rest 1 1), row "brpoplpush" 4 .table 1 2 1 (.upTo 2),
    row "blpop" (-3) .table 1 (-2) 1 (.rest 1 1), row "llen" 2 .table 1 1 1 (.upTo 1),
    row "lindex" 3 .table 1 1 1 (.upTo 1), row "lset" 4 .table 1 1 1 (.upTo 1),
    row "lrange" 4 .table 1 1 1 (.upTo 1), row "ltrim" 4 .table 1 1 1 (.upTo 1),
    row "lrem" 4 .table 1 1 1 (.upTo 1), row "rpoplpush" 3 .table 1 2 1 (.upTo 2),
    row "sadd" (-3) .table 1 1 1 (.upTo 1), row "srem" (-3) .table 1 1 1 (.upTo 1),
    row "smove" 4 .table 1 2 1 (.upTo 2), row "sismember" 3 .table 1 1 1 (.upTo 1),
    row "scard" 2 .table 1 1 1 (.upTo 1), row "spop" 2 .table 1 1 1 (.upTo 1),
    row "srandmember" (-2) .table 1 1 1 (.upTo 1), row "sinter" (-2) .table 1 (-1) 1 (.rest 1 0),
    row "sinterstore" (-3) .table 1 (-1) 1 (.rest 1 0),
    row "sunion" (-2) .table 1 (-1) 1 (.rest 1 0),
    row "sunionstore" (-3) .table 1 (-1) 1 (.rest 1 0),
    row "sdiff" (-2) .table 1 (-1) 1 (.rest 1 0), row "sdiffstore" (-3) .table 1 (-1) 1 (.rest 1 0),
    row "smembers" 2 .table 1 1 1 (.upTo 1), row "sscan" (-3) .table 1 1 1 (.upTo 1),
    row "zadd" (-4) .table 1 1 1 (.upTo 1), row "zincrby" 4 .table 1 1 1 (.upTo 1),
    row "zrem" (-3) .table 1 1 1 (.upTo 1), row "zremrangebyscore" 4 .table 1 1 1 (.upTo 1),
    row "zremrangebyrank" 4 .table 1 1 1 (.upTo 1), row "zremrangebylex" 4 .table 1 1 1 (.upTo 1),
    row "zunionstore" (-4) .zunionInter 0 0 0 .zunionInter,
    row "zinterstore" (-4) .zunionInter 0 0 0 .zunionInter,
    row "zrange" (-4) .table 1 1 1 (.upTo 1), row "zrangebyscore" (-4) .table 1 1 1 (.upTo 1),
    row "zrevrangebyscore" (-4) .table 1 1 1 (.upTo 1),
    row "zrangebylex" (-4) .table 1 1 1 (.upTo 1), row "zrevrangebylex" (-4) .table 1 1 1 (.upTo 1),
    row "zcount" 4 .table 1 1 1 (.upTo 1), row "zlexcount" 4 .table 1 1 1 (.upTo 1),
    row "zrevrange" (-4) .table 1 1 1 (.upTo 1), row "zcard" 2 .table 1 1 1 (.upTo 1),
    row "zscore" 3 .table 1 1 1 (.upTo 1), row "zrank" 3 .table 1 1 1 (.upTo 1),
    row "zrevrank" 3 .table 1 1 1 (.upTo 1), row "zscan" (-3) .table 1 1 1 (.upTo 1),
    row "hset" 4 .table 1 1 1 (.upTo 1), row "hsetnx" 4 .table 1 1 1 (.upTo 1),
    row "hget" 3 .table 1 1 1 (.upTo 1), row "hmset" (-4) .table 1 1 1 (.upTo 1),
    row "hmget" (-3) .table 1 1 1 (.upTo 1), row "hincrby" 4 .table 1 1 1 (.upTo 1),
    row "hincrbyfloat" 4 .table 1 1 1 (.upTo 1), row "hdel" (-3) .table 1 1 1 (.upTo 1),
    row "hlen" 2 .table 1 1 1 (.upTo 1), row "hkeys" 2 .table 1 1 1 (.upTo 1),
    row "hvals" 2 .table 1 1 1 (.upTo 1), row "hgetall" 2 .table 1 1 1 (.upTo 1),
    row "hexists" 3 .table 1 1 1 (.upTo 1), row "hscan" (-3) .table 1 1 1 (.upTo 1),
    row "incrby" 3 .table 1 1 1 (.upTo 1), row "decrby" 3 .table 1 1 1 (.upTo 1),
    row "incrbyfloat" 3 .table 1 1 1 (.upTo 1), row "getset" 3 .table 1 1 1 (.upTo 1),
    row "mset" (-3) .table 1 (-1) 2 .pairs, row "msetnx" (-3) .table 1 (-1) 2 .pairs,
    row "randomkey" 1 .table 0 0 0 .none, row "select" 2 .table 0 0 0 .none,
    row "move" 3 .table 1 1 1 (.upTo 1), row "rename" 3 .table 1 2 1 (.upTo 2),
    row "renamenx" 3 .table 1 2 1 (.upTo 2), row "expire" 3 .table 1 1 1 (.upTo 1),
    row "expireat" 3 .table 1 1 1 (.upTo 1), row "pexpire" 3 .table 1 1 1 (.upTo 1),
    row "pexpireat" 3 .table 1 1 1 (.upTo 1), row "keys" 2 .table 0 0 0 .none,
    row "scan" (-2) .table 0 0 0 .none, row "dbsize" 1 .table 0 0 0 .none,
    row "auth" 2 .table 0 0 0 .none, row "ping" 1 .table 0 0 0 .none,
    row "echo" 2 .table 0 0 0 .none, row "save" 1 .table 0 0 0 .none,
    row "bgsave" 1 .table 0 0 0 .none, row "bgrewriteaof" 1 .table 0 0 0 .none,
    row "shutdown" (-1) .table 0 0 0 .none, row "lastsave" 1 .table 0 0 0 .none,
    row "type" 2 .table 1 1 1 (.upTo 1), row "multi" 1 .table 0 0 0 .none,
    row "exec" 1 .table 0 0 0 .none, row "discard" 1 .table 0 0 0 .none,
    row "sync" 1 .table 0 0 0 .none, row "psync" 3 .table 0 0 0 .none,
    row "replconf" (-1) .table 0 0 0 .none, row "flushdb" 1 .table 0 0 0 .none,
    row "flushall" 1 .table 0 0 0 .none, row "sort" (-2) .sort 1 1 1 .sort,
    row "info" (-1) .table 0 0 0 .none, row "monitor" 1 .table 0 0 0 .none,
    row "ttl" 2 .table 1 1 1 (.upTo 1), row "pttl" 2 .table 1 1 1 (.upTo 1),
    row "persist" 2 .table 1 1 1 (.upTo 1), row "slaveof" 3 .table 0 0 0 .none,
    row "debug" (-2) .table 0 0 0 .debug, row "config" (-2) .table 0 0 0 .none,
    row "subscribe" (-2) .table 0 0 0 .none, row "unsubscribe" (-1) .table 0 0 0 .none,
    row "psubscribe" (-2) .table 0 0 0 .none, row "punsubscribe" (-1) .table 0 0 0 .none,
    row "publish" 3 .table 0 0 0 .none, row "pubsub" (-2) .table 0 0 0 .none,
    row "watch" (-2) .table 1 (-1) 1 (.rest 1 0), row "unwatch" 1 .table 0 0 0 .none,
    row "cluster" (-2) .table 0 0 0 .none, row "restore" (-4) .table 1 1 1 (.upTo 1),
    row "restore-asking" (-4) .table 1 1 1 (.upTo 1), row "migrate" (-6) .table 0 0 0 .migrate,
    row "asking" 1 .table 0 0 0 .none, row "readonly" 1 .table 0 0 0 .none,
    row "readwrite" 1 .table 0 0 0 .none, row "dump" 2 .table 1 1 1 (.upTo 1),
    row "object" (-2) .table 2 2 2 .object, row "client" (-2) .table 0 0 0 .none,
    row "eval" (-3) .eval 0 0 0 .eval, row "evalsha" (-3) .eval 0 0 0 .eval,
    row "slowlog" (-2) .table 0 0 0 .none, row "script" (-2) .table 0 0 0 .none,
    row "time" 1 .table 0 0 0 .none, row "bitop" (-4) .table 2 (-1) 1 (.rest 2 0),
    row "bitcount" (-2) .table 1 1 1 (.upTo 1), row "bitpos" (-3) .table 1 1 1 (.upTo 1),
    row "wait" 3 .table 0 0 0 .none, row "pfselftest" 1 .table 0 0 0 .none,
    row "pfadd" (-2) .table 1 1 1 (.upTo 1), row "pfcount" (-2) .table 1 1 1 (.rest 1 0),
    row "pfmerge" (-2) .table 1 (-1) 1 (.rest 1 0), row "pfdebug" (-3) .table 0 0 0 .pfdebug]

def KeyRow.passesArity (r : KeyRow) (argc : Nat) : Bool :=
  !(0 < r.arity && r.arity ≠ argc || (argc : Int) < -r.arity)

def getKeysFromCommand (r : KeyRow) (argv : List Bytes) : Extraction :=
  match r.getkeys with
  | .table => getKeysUsingCommandTable r.firstkey r.lastkey r.keystep argv.length
  | .zunionInter => zunionInterGetKeys argv
  | .eval => evalGetKeys argv
  | .sort => sortGetKeys argv

end RedisCluster.Multi.KeyPositions
