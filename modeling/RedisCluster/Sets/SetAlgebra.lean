import RedisCluster.Sets.SetCommands

/-!
# `t_set.c`: SINTER, SUNION, SDIFF and their STORE forms, and SRANDMEMBER

The sets of the arguments come with their keys: two pointers are equal exactly if the keys are. What
`qsort` does to them is the parameter `order`. `cardinality` is an `int` in `sunionDiffGenericCommand`.
-/

namespace RedisCluster.Sets

open RedisCluster.Util RedisCluster.Lib RedisCluster.Keyspace

variable {ω : Type}

structure Source where
  key : Bytes
  set : SetObject

inductive AlgebraReply where
  | multibulk (announced : Int) (elements : List Bytes)
  | longlong (n : Nat)
  | wrongtypeerr
  deriving DecidableEq

def toInt (n : Int) : Int := (n + 2 ^ 31) % 2 ^ 32 - 2 ^ 31

/-- The end of the STORE forms: the destination is replaced, or removed. -/
def storeResult (db : SetDb ω) (dstkey : Bytes) (dstset : SetObject) : SetDb ω × AlgebraReply :=
  let db := (dbDelete db dstkey).1
  if setTypeSize dstset > 0 then (dbAdd db dstkey (.set dstset), .longlong (setTypeSize dstset))
  else (db, .longlong 0)

/-! ## SINTER -/

inductive Sources where
  | found (sets : List Source)
  | missing
  | wrongtype

/-- The first loop of `sinterGenericCommand`. -/
def sinterSources (db : SetDb ω) : List Bytes → Sources
  | [] => .found []
  | key :: keys =>
    match lookupKey db key with
    | none => .missing
    | some (.other _) => .wrongtype
    | some (.set o) =>
      match sinterSources db keys with
      | .found sets => .found ({ key := key, set := o } :: sets)
      | r => r

/-- What `setTypeNext` returns: a value of an intset or a key of a dict. -/
inductive Element where
  | intobj (v : Int)
  | eleobj (o : StringObject)

def setTypeElements : SetObject → Option (List Element)
  | .intset is => (intsetValues is).map (List.map .intobj)
  | .ht d => some (d.map .eleobj)

/-- One turn of the inner loop, with its fast paths for the pairs of encodings. -/
def interFinds (e : Element) (set : SetObject) : Option Bool :=
  match e, set with
  | .intobj v, .intset is => intsetFind is v
  | .intobj v, .ht d => setTypeIsMember (.ht d) (createStringObjectFromLongLong v)
  | .eleobj (.int n), .intset is => do
    if !(← intsetFind is n.val) then return false
    else setTypeIsMember (.intset is) (.int n)
  | .eleobj o, set => setTypeIsMember set o

/-- The inner loop: whether it reaches `setnum`. The set itself is skipped. -/
def interAll (first : Bytes) (e : Element) : List Source → Option Bool
  | [] => some true
  | s :: rest =>
    if s.key = first then interAll first e rest
    else do
      if ← interFinds e s.set then interAll first e rest else return false

/-- What is sent, or added, for an element. -/
def Element.object : Element → StringObject
  | .intobj v => createStringObjectFromLongLong v
  | .eleobj o => o

def Element.bulk : Element → Bytes
  | .intobj v => ll2string v
  | .eleobj o => getDecodedObject o

/-- The loop without a destination: the replies and `cardinality`. -/
def interReplyLoop (first : Bytes) (rest : List Source) :
    List Element → List Bytes → Nat → Option (List Bytes × Nat)
  | [], replies, cardinality => some (replies, cardinality)
  | e :: es, replies, cardinality => do
    if ← interAll first e rest then
      interReplyLoop first rest es (replies ++ [e.bulk]) (cardinality + 1)
    else interReplyLoop first rest es replies cardinality

def interStoreLoop (limit : Nat) (first : Bytes) (rest : List Source) :
    List Element → SetObject → Option SetObject
  | [], dstset => some dstset
  | e :: es, dstset => do
    if ← interAll first e rest then do
      let (dstset, _) ← setTypeAdd limit dstset e.object
      interStoreLoop limit first rest es dstset
    else interStoreLoop limit first rest es dstset

def sinterGenericCommand (limit : Nat) (order : List Source → List Source) (db : SetDb ω)
    (setkeys : List Bytes) (dstkey : Option Bytes) : Option (SetDb ω × AlgebraReply) :=
  match sinterSources db setkeys with
  | .missing =>
    match dstkey with
    | some dst => some ((dbDelete db dst).1, .longlong 0)
    | none => some (db, .multibulk 0 [])
  | .wrongtype => some (db, .wrongtypeerr)
  | .found sets =>
    match order sets with
    -- `setnum` is not 0
    | [] => none
    | s :: rest => do
      let es ← setTypeElements s.set
      match dstkey with
      | none =>
        let (replies, cardinality) ← interReplyLoop s.key rest es [] 0
        return (db, .multibulk cardinality replies)
      | some dst =>
        let dstset ← interStoreLoop limit s.key rest es createIntsetObject
        return storeResult db dst dstset

/-! ## SUNION and SDIFF -/

inductive SetOperator where
  | union
  | diff
  deriving DecidableEq

/-- The first loop of `sunionDiffGenericCommand`; `none` for a key of another type. -/
def sunionDiffSources (db : SetDb ω) : List Bytes → Option (List (Option Source))
  | [] => some []
  | key :: keys =>
    match lookupKey db key with
    | some (.other _) => none
    | some (.set o) => (sunionDiffSources db keys).map (some { key := key, set := o } :: ·)
    | none => (sunionDiffSources db keys).map (none :: ·)

def addLoop (limit : Nat) : List StringObject → SetObject → Int → Option (SetObject × Int)
  | [], dstset, cardinality => some (dstset, cardinality)
  | ele :: es, dstset, cardinality => do
    let (dstset, new) ← setTypeAdd limit dstset ele
    addLoop limit es dstset (if new then toInt (cardinality + 1) else cardinality)

def unionLoop (limit : Nat) : List (Option Source) → SetObject → Int → Option (SetObject × Int)
  | [], dstset, cardinality => some (dstset, cardinality)
  | none :: sets, dstset, cardinality => unionLoop limit sets dstset cardinality
  | some s :: sets, dstset, cardinality => do
    let es ← setTypeObjects s.set
    let (dstset, cardinality) ← addLoop limit es dstset cardinality
    unionLoop limit sets dstset cardinality

/-- `SDIFF` algorithm 1, the inner loop: whether it reaches `setnum`. -/
def diffKeeps (first : Bytes) (ele : StringObject) : List (Option Source) → Option Bool
  | [] => some true
  | none :: sets => diffKeeps first ele sets
  | some s :: sets =>
    if s.key = first then some false
    else do
      if ← setTypeIsMember s.set ele then return false else diffKeeps first ele sets

def diffOneLoop (limit : Nat) (first : Bytes) (sets : List (Option Source)) :
    List StringObject → SetObject → Int → Option (SetObject × Int)
  | [], dstset, cardinality => some (dstset, cardinality)
  | ele :: es, dstset, cardinality => do
    if ← diffKeeps first ele sets then do
      let (dstset, _) ← setTypeAdd limit dstset ele
      diffOneLoop limit first sets es dstset (toInt (cardinality + 1))
    else diffOneLoop limit first sets es dstset cardinality

/-- Algorithm 2, all elements of one set are removed. -/
def removeLoop : List StringObject → SetObject → Int → Option (SetObject × Int)
  | [], dstset, cardinality => some (dstset, cardinality)
  | ele :: es, dstset, cardinality => do
    let (dstset, gone) ← setTypeRemove dstset ele
    removeLoop es dstset (if gone then toInt (cardinality - 1) else cardinality)

/-- The sets after the first one. A missing set skips the test of `cardinality`. -/
def diffTwoLoop : List (Option Source) → SetObject → Int → Option (SetObject × Int)
  | [], dstset, cardinality => some (dstset, cardinality)
  | none :: sets, dstset, cardinality => diffTwoLoop sets dstset cardinality
  | some s :: sets, dstset, cardinality => do
    let es ← setTypeObjects s.set
    let (dstset, cardinality) ← removeLoop es dstset cardinality
    if cardinality = 0 then return (dstset, cardinality) else diffTwoLoop sets dstset cardinality

def diffTwo (limit : Nat) (s : Source) (sets : List (Option Source)) :
    Option (SetObject × Int) := do
  let es ← setTypeObjects s.set
  let (dstset, cardinality) ← addLoop limit es createIntsetObject 0
  if cardinality = 0 then return (dstset, cardinality) else diffTwoLoop sets dstset cardinality

/-- Algorithm 1, with half of its work counted, is taken unless algorithm 2 has less to do. -/
def diffAlgoOne (s : Source) (sets : List (Option Source)) : Bool :=
  let found := (some s :: sets).filterMap id
  let algo_one_work := found.length * setTypeSize s.set
  let algo_two_work := (found.map fun t => setTypeSize t.set).sum
  algo_one_work / 2 ≤ algo_two_work

/-- The result set and `cardinality`; `algoOne` chooses the algorithm for SDIFF. -/
def sunionDiff (limit : Nat) (order : List (Option Source) → List (Option Source))
    (algoOne : Source → List (Option Source) → Bool) (op : SetOperator)
    (sets : List (Option Source)) : Option (SetObject × Int) :=
  match op, sets with
  | .union, sets => unionLoop limit sets createIntsetObject 0
  | .diff, some s :: rest =>
    if algoOne s rest then do
      let es ← setTypeObjects s.set
      diffOneLoop limit s.key (order rest) es createIntsetObject 0
    else diffTwo limit s rest
  | .diff, _ => some (createIntsetObject, 0)

/-- The source has `diffAlgoOne` for `algoOne`. -/
def sunionDiffGenericCommand (limit : Nat) (order : List (Option Source) → List (Option Source))
    (algoOne : Source → List (Option Source) → Bool) (db : SetDb ω) (setkeys : List Bytes)
    (dstkey : Option Bytes) (op : SetOperator) : Option (SetDb ω × AlgebraReply) :=
  match sunionDiffSources db setkeys with
  | none => some (db, .wrongtypeerr)
  | some sets => do
    let (dstset, cardinality) ← sunionDiff limit order algoOne op sets
    match dstkey with
    | none =>
      let es ← setTypeObjects dstset
      return (db, .multibulk cardinality (es.map getDecodedObject))
    | some dst => return storeResult db dst dstset

/-! ## The commands -/

/-- The choices that the result must not depend on: the order of the sets, and the algorithm. -/
structure Choices where
  orderInter : List Source → List Source
  orderDiff : List (Option Source) → List (Option Source)
  algoOne : Source → List (Option Source) → Bool
  permInter : ∀ l, (orderInter l).Perm l
  permDiff : ∀ l, (orderDiff l).Perm l

inductive AlgebraOp where
  | inter
  | unionDiff (op : SetOperator)

/-- SINTER, SUNION and SDIFF without a destination, SINTERSTORE, SUNIONSTORE and SDIFFSTORE with one. -/
def algebraCommand (limit : Nat) (ch : Choices) (db : SetDb ω) (setkeys : List Bytes)
    (dstkey : Option Bytes) : AlgebraOp → Option (SetDb ω × AlgebraReply)
  | .inter => sinterGenericCommand limit ch.orderInter db setkeys dstkey
  | .unionDiff op => sunionDiffGenericCommand limit ch.orderDiff ch.algoOne db setkeys dstkey op

/-! ## SRANDMEMBER with a count

`rand` is what the calls of `rand` give, one after the other. -/

def SRANDMEMBER_SUB_STRATEGY_MUL : Nat := 3

/-- The conversions to `unsigned` and to `unsigned long`; the opposite of the smallest `long` is itself. -/
def srandCount (l : Int) : Nat := if l ≥ 0 then l.toNat % 2 ^ 32 else l.natAbs

/-- The argument of `addReplyMultiBulkLen` is a `long`. -/
def announce (count : Nat) : Int := Int.bmod count (2 ^ 64)

def randomLoop (set : SetObject) : Nat → (Nat → Nat) → Option (List Bytes)
  | 0, _ => some []
  | count + 1, rand => do
    let ele ← setTypeRandomElement set (rand 0)
    (randomLoop set count fun i => rand (i + 1)).map (getDecodedObject ele :: ·)

/-- The third case: all elements are copied, each of them new, and then some are removed again. -/
def copyLoop : List StringObject → SetDict → Option SetDict
  | [], d => some d
  | ele :: es, d => (dictAdd d ele).bind (copyLoop es)

def dropLoop : Nat → SetDict → (Nat → Nat) → Option SetDict
  | 0, d, _ => some d
  | n + 1, d, rand => do
    let key ← setTypeRandomElement (.ht d) (rand 0)
    dropLoop n ((dictDelete d key).getD d) fun i => rand (i + 1)

/-- The loop of the fourth case, `none` if it does not end within `fuel` rounds. -/
def collectLoop (set : SetObject) (count : Nat) : Nat → Nat → SetDict → (Nat → Nat) → Option SetDict
  | 0, added, d, _ => if added < count then none else some d
  | fuel + 1, added, d, rand =>
    if added < count then do
      let ele ← setTypeRandomElement set (rand 0)
      match dictAdd d ele with
      | some d => collectLoop set count fuel (added + 1) d fun i => rand (i + 1)
      | none => collectLoop set count fuel added d fun i => rand (i + 1)
    else some d

/-- The end of the third and of the fourth case. -/
def replyDict (count : Nat) (d : SetDict) : AlgebraReply := .multibulk (announce count) (d.map getDecodedObject)

def srandmemberWithCountCommand (limit : Nat) (order : List (Option Source) → List (Option Source))
    (algoOne : Source → List (Option Source) → Bool) (db : SetDb ω) (key : Bytes) (l : Int) (fuel : Nat)
    (rand : Nat → Nat) : Option AlgebraReply :=
  let count := srandCount l
  match lookupKey db key with
  | none => some (.multibulk 0 [])
  | some (.other _) => some .wrongtypeerr
  | some (.set set) =>
    let size := setTypeSize set
    if count = 0 then some (.multibulk 0 [])
    else if l < 0 then (randomLoop set count rand).map (.multibulk (announce count))
    else if count ≥ size then (sunionDiffGenericCommand limit order algoOne db [key] none .union).map Prod.snd
    else if count * SRANDMEMBER_SUB_STRATEGY_MUL > size then do
      let es ← setTypeObjects set
      let d ← copyLoop es []
      if d.length = size then (dropLoop (size - count) d rand).map (replyDict count) else none
    else (collectLoop set count fuel 0 [] rand).map (replyDict count)

/-! ## What they mean -/

def interOf (m : SetSpace ω) : List Bytes → Finset Bytes
  | [] => ∅
  | key :: keys => (members m key).filter fun b => ∀ k ∈ keys, b ∈ members m k

def unionOf (m : SetSpace ω) (keys : List Bytes) : Finset Bytes := keys.toFinset.biUnion (members m)

def diffOf (m : SetSpace ω) : List Bytes → Finset Bytes
  | [] => ∅
  | key :: keys => (members m key).filter fun b => ∀ k ∈ keys, b ∉ members m k

/-- The mathematical result of an operation. -/
def resultOf (m : SetSpace ω) (setkeys : List Bytes) : AlgebraOp → Finset Bytes
  | .inter => interOf m setkeys
  | .unionDiff .union => unionOf m setkeys
  | .unionDiff .diff => diffOf m setkeys

end RedisCluster.Sets
