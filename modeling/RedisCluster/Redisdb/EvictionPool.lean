import RedisCluster.Util.Strings

/-!
# `redis.c`: the eviction pool

A key string of the pool has an address; `Heap` holds the addresses that `sdsdup` gave out and that were not
freed. An access outside the pool and a second `sdsfree` have no result.
-/

namespace RedisCluster.Redisdb.Eviction

open RedisCluster.Util

def REDIS_EVICTION_POOL_SIZE : Nat := 16

structure Sds where
  addr : Nat
  text : Bytes
  deriving DecidableEq

/-- `evictionPoolEntry`. -/
structure Entry where
  idle : Nat
  key : Option Sds
  deriving DecidableEq

abbrev Pool := Nat → Entry

abbrev Heap := Finset Nat

structure State where
  heap : Heap
  pool : Pool

/-- An allocator gives out an address that is not in use. -/
structure Allocator where
  next : Heap → Nat
  fresh : ∀ heap, next heap ∉ heap

/-- A sampled entry of the dict: its key and its idle time. -/
structure Sample where
  key : Bytes
  idle : Nat

def Entry.empty : Entry := { idle := 0, key := none }

def evictionPoolAlloc : State := { heap := ∅, pool := fun _ => Entry.empty }

def memmove (pool : Pool) (dst src n : Nat) : Option Pool :=
  if dst + n ≤ REDIS_EVICTION_POOL_SIZE ∧ src + n ≤ REDIS_EVICTION_POOL_SIZE then
    some fun j => if dst ≤ j ∧ j < dst + n then pool (src + (j - dst)) else pool j
  else none

def set (pool : Pool) (k : Nat) (e : Entry) : Option Pool :=
  if k < REDIS_EVICTION_POOL_SIZE then some fun j => if j = k then e else pool j else none

def sdsfree (heap : Heap) : Option Sds → Option Heap
  | none => some heap
  | some s => if s.addr ∈ heap then some (heap.erase s.addr) else none

/-- The loop that finds the place `k`, from `k` on. -/
def findPlace (pool : Pool) (idle : Nat) : Nat → Nat → Nat
  | 0, k => k
  | fuel + 1, k => if (pool k).key.isSome ∧ (pool k).idle < idle then findPlace pool idle fuel (k + 1) else k

/-- The last two lines of the loop of `evictionPoolPopulate`. -/
def store (alloc : Allocator) (heap : Heap) (pool : Pool) (k : Nat) (s : Sample) : Option State := do
  let addr := alloc.next heap
  let pool ← set pool k { idle := s.idle, key := some { addr := addr, text := s.key } }
  return { heap := insert addr heap, pool := pool }

/-- One turn of the loop of `evictionPoolPopulate`. -/
def insertSample (alloc : Allocator) (st : State) (s : Sample) : Option State :=
  let k := findPlace st.pool s.idle REDIS_EVICTION_POOL_SIZE 0
  let last := (st.pool (REDIS_EVICTION_POOL_SIZE - 1)).key
  if k = 0 ∧ last.isSome then some st
  else if k < REDIS_EVICTION_POOL_SIZE ∧ (st.pool k).key.isNone then store alloc st.heap st.pool k s
  else if last.isNone then do
    let pool ← memmove st.pool (k + 1) k (REDIS_EVICTION_POOL_SIZE - k - 1)
    store alloc st.heap pool k s
  else do
    let k := k - 1
    let heap ← sdsfree st.heap (st.pool 0).key
    let pool ← memmove st.pool 0 1 k
    store alloc heap pool k s

/-- `samples` is what `dictGetRandomKeys` gives. -/
def evictionPoolPopulate (alloc : Allocator) (st : State) (samples : List Sample) : Option State :=
  samples.foldlM (insertSample alloc) st

/-- The entry `k` is removed from the pool, and its key freed. -/
def removeEntry (st : State) (k : Nat) : Option State := do
  let heap ← sdsfree st.heap (st.pool k).key
  let pool ← memmove st.pool k (k + 1) (REDIS_EVICTION_POOL_SIZE - k - 1)
  let pool ← set pool (REDIS_EVICTION_POOL_SIZE - 1) Entry.empty
  return { heap := heap, pool := pool }

/-- The loop over the entries below `n` in `freeMemoryIfNeeded`, from the last one on; `dict` tells the keys
that are there. `bestkey` is the second result. -/
def scan (dict : Bytes → Bool) : Nat → State → Option (State × Option Bytes)
  | 0, st => some (st, none)
  | k + 1, st =>
    match (st.pool k).key with
    | none => scan dict k st
    | some key => do
      let st ← removeEntry st k
      if dict key.text then return (st, some key.text) else scan dict k st

def scanPool (dict : Bytes → Bool) (st : State) : Option (State × Option Bytes) :=
  scan dict REDIS_EVICTION_POOL_SIZE st

/-- `while(bestkey == NULL)`, with the samples of each round; no key if it does not end within `fuel` rounds. -/
def pickLoop (alloc : Allocator) (dict : Bytes → Bool) (samples : Nat → List Sample) :
    Nat → Nat → State → Option (State × Option Bytes)
  | 0, _, st => some (st, none)
  | fuel + 1, i, st => do
    let st ← evictionPoolPopulate alloc st (samples i)
    match ← scanPool dict st with
    | (st, some key) => return (st, some key)
    | (st, none) => pickLoop alloc dict samples fuel (i + 1) st

/-! ## Runs -/

inductive Action where
  | populate (samples : List Sample)
  | remove (dict : Bytes → Bool)

def step (alloc : Allocator) (st : State) : Action → Option State
  | .populate samples => evictionPoolPopulate alloc st samples
  | .remove dict => (scanPool dict st).map Prod.fst

/-- What `dictGetRandomKeys` gives in the rounds of one loop: entries of a dict that is not empty, and at least one
of them as `maxmemory_samples` is positive. -/
structure Draws (dict : Bytes → Bool) where
  samples : Nat → List Sample
  nonempty : ∀ i, samples i ≠ []
  inDict : ∀ i, ∀ s ∈ samples i, dict s.key = true

/-! ## What the pool should be -/

/-- The used entries are the first `n` ones, in the order of their idle times. -/
structure Ordered (pool : Pool) (n : Nat) : Prop where
  size : n ≤ REDIS_EVICTION_POOL_SIZE
  used : ∀ j < n, (pool j).key.isSome
  unused : ∀ j, n ≤ j → j < REDIS_EVICTION_POOL_SIZE → (pool j).key = none
  sorted : ∀ i j, i ≤ j → j < n → (pool i).idle ≤ (pool j).idle

def Owns (pool : Pool) (j a : Nat) : Prop :=
  j < REDIS_EVICTION_POOL_SIZE ∧ ∃ s, (pool j).key = some s ∧ s.addr = a

/-- Every key string is owned by exactly one entry, and no entry holds a freed one. -/
structure Owned (st : State) : Prop where
  owner : ∀ a ∈ st.heap, ∃! j, Owns st.pool j a
  live : ∀ j a, Owns st.pool j a → a ∈ st.heap

structure PoolOk (st : State) : Prop where
  ordered : ∃ n, Ordered st.pool n
  owned : Owned st

end RedisCluster.Redisdb.Eviction
