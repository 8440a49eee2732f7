import RedisCluster.Aof.Format
import RedisCluster.Lib.Ties
import RedisCluster.Multi.Command
import RedisCluster.Sets.SetType

/-!
# `sort.c`: SORT with STORE

The elements of a set, and those of a sorted set that is to be sorted, come in the order in which an
iterator gives them, which no keyspace determines. `strtod` and the conversion of `long` to `double` are
parameters; scores are of type `S`. What `qsort` and `pqsort` make of elements that compare equal is any
of the possible results.
-/

namespace RedisCluster.Sort

open RedisCluster.Util RedisCluster.Sets RedisCluster.Lib

/-! ## The keyspace -/

/-- A sorted set in skip list encoding: the members by rank, and as the dict gives them. -/
structure ZsetValue where
  zsl : List StringObject
  dict : List StringObject
  same : (dict.map getDecodedObject).Perm (zsl.map getDecodedObject)

inductive Value where
  | string (o : StringObject)
  | list (l : List StringObject)
  /-- As `setTypeNextObject` gives the elements. -/
  | set (elements : List StringObject)
  | zset (z : ZsetValue)
  | hash (get : Bytes → Option StringObject)

structure Server where
  db : Bytes → Option Value
  /-- `errno` is still `ERANGE` from some earlier call when the command begins. -/
  erange : Bool

/-! ## Numbers -/

/-- What `strtod` gives: the value, whether `eptr` is at the end of the string, whether it set `errno`,
and whether the value is not a number. -/
structure Strtod (S : Type) where
  value : S
  whole : Bool
  erange : Bool
  nan : Bool

structure CLib (S : Type) where
  strtod : Bytes → Strtod S
  ofLong : Int → S
  zero : S

variable {S : Type} [LinearOrder S]

def Strtod.fails (r : Strtod S) : Bool := !r.whole || r.erange || r.nan

/-! ## Patterns -/

def strstrArrow : Bytes → Option Nat
  | [] => none
  | c :: cs => if c = 45 ∧ cs.head? = some 62 then some 0 else (strstrArrow cs).map (· + 1)

/-- The field of the pattern after its `*`, as the distance to the arrow. -/
def fieldArrow (rest : Bytes) : Option Nat :=
  match strstrArrow (Multi.cstr rest) with
  | some d => if (Multi.cstr rest).length = d + 2 then none else some d
  | none => none

def lookupKeyByPattern (db : Bytes → Option Value) (pattern : Bytes) (subst : StringObject) :
    Option StringObject :=
  if Multi.cstr pattern = [35] then some subst
  else
    match strchr 42 pattern with
    | none => none
    | some prefixlen =>
      let rest := pattern.drop (prefixlen + 1)
      let front := pattern.take prefixlen ++ getDecodedObject subst
      match fieldArrow rest with
      | some d =>
        match db (front ++ rest.take d) with
        | some (.hash get) => get (rest.drop (d + 2))
        | _ => none
      | none =>
        match db (front ++ rest) with
        | some (.string o) => some o
        | _ => none

/-! ## The comparison -/

def memcmp : Bytes → Bytes → Ordering
  | a :: as, b :: bs => if a.toNat < b.toNat then .lt else if b.toNat < a.toNat then .gt else memcmp as bs
  | _, _ => .eq

/-- `compareStringObjects` of the decoded strings. -/
def compareStringObjects (a b : Bytes) : Ordering :=
  let minlen := min a.length b.length
  match memcmp (a.take minlen) (b.take minlen) with
  | .eq => if a.length < b.length then .lt else if b.length < a.length then .gt else .eq
  | c => c

/-- `redisSortObject`. -/
structure SortObject (S : Type) where
  obj : StringObject
  score : S
  cmpobj : Option Bytes

def sortCompare (desc alpha bypattern : Bool) (so1 so2 : SortObject S) : Ordering :=
  let c :=
    if !alpha then
      if so1.score > so2.score then .gt
      else if so1.score < so2.score then .lt
      else compareStringObjects (getDecodedObject so1.obj) (getDecodedObject so2.obj)
    else if bypattern then
      match so1.cmpobj, so2.cmpobj with
      | none, none => .eq
      | none, some _ => .lt
      | some _, none => .gt
      | some a, some b => compareStringObjects a b
    else compareStringObjects (getDecodedObject so1.obj) (getDecodedObject so2.obj)
  if desc then c.swap else c

def QsortResult (compar : SortObject S → SortObject S → Ordering) (v p : List (SortObject S)) : Prop :=
  p.Perm v ∧ p.Pairwise fun x y => compar x y ≠ .gt

/-- What `pqsort` may leave: from `lrange` to `rrange` it is as if all was sorted. -/
def PqsortResult (compar : SortObject S → SortObject S → Ordering) (lrange rrange : Int)
    (v p : List (SortObject S)) : Prop :=
  p.Perm v ∧ ∃ q, QsortResult compar v q ∧ ∀ i : Nat, lrange ≤ i → i ≤ rrange → p[i]? = q[i]?

/-! ## The options -/

structure SortOptions where
  desc : Bool
  alpha : Bool
  limit_start : Int
  limit_count : Int
  storekey : Option Bytes
  sortby : Option Bytes
  dontsort : Bool
  /-- The patterns of GET. -/
  operations : List Bytes

inductive SortError where
  | wrongtype
  | syntaxerr
  | notInteger
  | byInCluster
  | getInCluster
  | notDouble
  deriving DecidableEq, Repr

def SortError.text : SortError → String
  | wrongtype => "-WRONGTYPE Operation against a key holding the wrong kind of value\r\n"
  | syntaxerr => "-ERR syntax error\r\n"
  | notInteger => "-ERR value is not an integer or out of range\r\n"
  | byInCluster => "-ERR BY option of SORT denied in Cluster mode.\r\n"
  | getInCluster => "-ERR GET option of SORT denied in Cluster mode.\r\n"
  | notDouble => "-ERR One or more scores can't be converted into double\r\n"

/-- An option with this name, with at least so many arguments left. -/
def isOption (name : String) (opt : Bytes) : Bool := Multi.sameCaseless opt (ascii name)

def parseOptions (cluster_enabled : Bool) : List Bytes → SortOptions → Except SortError SortOptions
  | [], a => .ok a
  | opt :: rest, a =>
    if isOption "asc" opt then parseOptions cluster_enabled rest { a with desc := false }
    else if isOption "desc" opt then parseOptions cluster_enabled rest { a with desc := true }
    else if isOption "alpha" opt then parseOptions cluster_enabled rest { a with alpha := true }
    else
      match rest with
      | [] => .error .syntaxerr
      | x :: rest' =>
        if isOption "limit" opt && decide (1 ≤ rest'.length) then
          match rest' with
          | [] => .error .syntaxerr
          | y :: rest'' =>
            match Aof.getLongLongFromObject x, Aof.getLongLongFromObject y with
            | some limit_start, some limit_count =>
              parseOptions cluster_enabled rest''
                { a with limit_start := limit_start, limit_count := limit_count }
            | _, _ => .error .notInteger
        else if isOption "store" opt then
          parseOptions cluster_enabled rest' { a with storekey := some x }
        else if isOption "by" opt then
          if (strchr 42 x).isNone then
            parseOptions cluster_enabled rest' { a with sortby := some x, dontsort := true }
          else if cluster_enabled then .error .byInCluster
          else parseOptions cluster_enabled rest' { a with sortby := some x }
        else if isOption "get" opt then
          if cluster_enabled then .error .getInCluster
          else parseOptions cluster_enabled rest' { a with operations := a.operations ++ [x] }
        else .error .syntaxerr

def defaultOptions : SortOptions :=
  { desc := false, alpha := false, limit_start := 0, limit_count := -1, storekey := none
    sortby := none, dontsort := false, operations := [] }

/-! ## The command -/

def limits (a : SortOptions) (vectorlen : Int) : Int × Int :=
  let start := if a.limit_start < 0 then 0 else a.limit_start
  let stop := if a.limit_count < 0 then vectorlen - 1 else Aof.toLongLong (start + a.limit_count - 1)
  if start ≥ vectorlen then (vectorlen - 1, vectorlen - 2)
  else if stop ≥ vectorlen then (start, vectorlen - 1)
  else (start, stop)

/-- The vector before it is sorted, and what is to be done with it. -/
structure SortTask (S : Type) where
  vector : List (SortObject S)
  start : Int
  stop : Int
  desc : Bool
  alpha : Bool
  bypattern : Bool
  dontsort : Bool
  int_convertion_error : Bool

inductive SortOutcome where
  | error (e : SortError)
  /-- Without STORE: the elements are sent. -/
  | replied
  | stored (storekey : Bytes) (l : List Bytes)
  | deleted (storekey : Bytes)
  /-- `zmalloc` of a negative size. -/
  | crashed
  deriving DecidableEq

/-- The elements, before those of a sorted set that is not sorted are limited. -/
def Value.elements (dontsort : Bool) : Value → List StringObject
  | .list l => l
  | .set elements => elements
  | .zset z => if dontsort then z.zsl else z.dict
  | _ => []

def Value.isZset : Value → Bool
  | .zset _ => true
  | _ => false

def byValue (db : Bytes → Option Value) (sortby : Option Bytes) (obj : StringObject) :
    Option StringObject :=
  match sortby with
  | some pattern => lookupKeyByPattern db pattern obj
  | none => some obj

def loadScore (clib : CLib S) : Option StringObject → S
  | none => clib.zero
  | some (.sds s) => (clib.strtod s).value
  | some (.int n) => clib.ofLong n.val

/-- `int_convertion_error`: `errno` is never reset. -/
def conversionError (clib : CLib S) : Bool → List (Option StringObject) → Bool
  | _, [] => false
  | erange, some (.sds s) :: byvals =>
    let r := clib.strtod s
    (r.fails || erange) || conversionError clib (erange || r.erange) byvals
  | erange, _ :: byvals => conversionError clib erange byvals

/-- The loop that loads the vector with scores, or with the objects to compare. -/
def loadVector (clib : CLib S) (db : Bytes → Option Value) (alpha : Bool) (sortby : Option Bytes)
    (objs : List StringObject) : List (SortObject S) :=
  objs.map fun obj =>
    let byval := byValue db sortby obj
    { obj := obj
      score := if alpha then clib.zero else loadScore clib byval
      cmpobj := if alpha && sortby.isSome then byval.map getDecodedObject else none }

/-- With STORE, a list or a set that is not to be sorted is sorted all the same. -/
def forceSort (a : SortOptions) (v : Value) : SortOptions :=
  if a.dontsort && !v.isZset then { a with dontsort := false, alpha := true, sortby := none } else a

def sortTask (clib : CLib S) (s : Server) (a : SortOptions) (v : Value) : Option (SortTask S) :=
  let a := forceSort a v
  let objs := v.elements a.dontsort
  let vectorlen : Int := objs.length
  let (start, stop) := limits a vectorlen
  if a.dontsort then
    let whole := start = 0 ∧ stop = vectorlen - 1
    let ordered := if a.desc then objs.reverse else objs
    if ¬ whole ∧ stop - start + 1 < 0 then none
    else
      let objs := if whole then ordered else (ordered.drop start.toNat).take (stop - start + 1).toNat
      some
        { vector := objs.map fun obj => { obj := obj, score := clib.zero, cmpobj := none }
          start := 0, stop := stop - start, desc := a.desc, alpha := a.alpha
          bypattern := a.sortby.isSome, dontsort := true, int_convertion_error := false }
  else
    some
      { vector := loadVector clib s.db a.alpha a.sortby objs
        start := start, stop := stop, desc := a.desc, alpha := a.alpha, bypattern := a.sortby.isSome
        dontsort := false
        int_convertion_error :=
          !a.alpha && conversionError clib s.erange (objs.map (byValue s.db a.sortby)) }

def SortTask.compar (t : SortTask S) : SortObject S → SortObject S → Ordering :=
  sortCompare t.desc t.alpha t.bypattern

/-- What the vector may be after the sort. -/
def SortTask.Sorted (t : SortTask S) (p : List (SortObject S)) : Prop :=
  if t.dontsort then p = t.vector
  else if t.bypattern ∧ (t.start ≠ 0 ∨ t.stop ≠ (t.vector.length : Int) - 1) then
    PqsortResult t.compar t.start t.stop t.vector p
  else QsortResult t.compar t.vector p

/-- What an element gives: itself, or what GET finds, where nothing is the empty string. -/
def outputOf (db : Bytes → Option Value) (operations : List Bytes) (obj : StringObject) : List Bytes :=
  if operations = [] then [getDecodedObject obj]
  else operations.map fun pattern =>
    ((lookupKeyByPattern db pattern obj).map getDecodedObject).getD []

/-- What the command stores, with the vector sorted. `outputlen` is an `unsigned int`. -/
def storeSorted (s : Server) (a : SortOptions) (storekey : Bytes) (t : SortTask S)
    (p : List (SortObject S)) : SortOutcome :=
  if t.int_convertion_error then .error .notDouble
  else
    let getop := if a.operations = [] then 1 else a.operations.length
    let l := sliceOutput (fun so : SortObject S => outputOf s.db a.operations so.obj) t.start.toNat
      (t.stop - t.start + 1).toNat p
    if (getop * (t.stop - t.start + 1)) % 2 ^ 32 ≠ 0 then .stored storekey l else .deleted storekey

/-- What is sorted; a missing key is an empty list. -/
def sourceValue (s : Server) (key : Bytes) : Option Value :=
  match s.db key with
  | none => some (.list [])
  | some (.string _) => none
  | some (.hash _) => none
  | some v => some v

def SortGives (clib : CLib S) (cluster_enabled : Bool) (s : Server) (key : Bytes) (args : List Bytes)
    (out : SortOutcome) : Prop :=
  match sourceValue s key with
  | none => out = .error .wrongtype
  | some v =>
    match parseOptions cluster_enabled args defaultOptions with
    | .error e => out = .error e
    | .ok a =>
      match a.storekey with
      | none => out = .replied
      | some storekey =>
        match sortTask clib s a v with
        | none => out = .crashed
        | some t => ∃ p, t.Sorted p ∧ out = storeSorted s a storekey t p

/-! ## What must hold -/

/-- The same abstract value. Of the scores of a sorted set only the order that they give is needed. -/
def SameValue : Value → Value → Prop
  | .string o₁, .string o₂ => getDecodedObject o₁ = getDecodedObject o₂
  | .list l₁, .list l₂ => l₁.map getDecodedObject = l₂.map getDecodedObject
  | .set l₁, .set l₂ => (l₁.map getDecodedObject).Perm (l₂.map getDecodedObject)
  | .zset z₁, .zset z₂ => z₁.zsl.map getDecodedObject = z₂.zsl.map getDecodedObject
  | .hash get₁, .hash get₂ =>
    ∀ field, (get₁ field).map getDecodedObject = (get₂ field).map getDecodedObject
  | _, _ => False

def SameKeyspace (db₁ db₂ : Bytes → Option Value) : Prop :=
  ∀ key, Option.Rel SameValue (db₁ key) (db₂ key)

/-- The conversion of a `long` gives what `strtod` makes of its decimal spelling. -/
def LongsAgree (clib : CLib S) : Prop :=
  ∀ n : Int64Value, (clib.strtod (ll2string n.val)).value = clib.ofLong n.val ∧
    (clib.strtod (ll2string n.val)).fails = false

/-- Whatever the two servers may do, they do the same. -/
def Replicates (clib : CLib S) (cluster_enabled : Bool) (s₁ s₂ : Server) (key : Bytes)
    (args : List Bytes) : Prop :=
  ∀ out₁ out₂, SortGives clib cluster_enabled s₁ key args out₁ →
    SortGives clib cluster_enabled s₂ key args out₂ → out₁ = out₂

def BadScore (clib : CLib S) (db : Bytes → Option Value) (sortby : Option Bytes)
    (objs : List StringObject) : Prop :=
  ∃ o ∈ objs, ∃ b, byValue db sortby o = some b ∧ (clib.strtod (getDecodedObject b)).fails = true

/-- An earlier `ERANGE` counts against some score. -/
def StaleError (s : Server) (sortby : Option Bytes) (objs : List StringObject) : Prop :=
  s.erange = true ∧ ∃ o ∈ objs, ∃ b, byValue s.db sortby o = some (.sds b)

def natKey (b : Bytes) : List ℕ := b.map UInt8.toNat

def weightKey (weight : Option Bytes) : WithBot (List ℕ) := weight.map natKey

/-- Elements with the same weight, one of which may stand where elements are taken from, give the
same. -/
def WeightsDecide (s : Server) (a : SortOptions) (objs : List StringObject) : Prop :=
  let key (b : Bytes) : WithBot (List ℕ) :=
    weightKey ((byValue s.db a.sortby (.sds b)).map getDecodedObject)
  let output (b : Bytes) : List Bytes := outputOf s.db a.operations (.sds b)
  let strings := objs.map getDecodedObject
  let (start, stop) := limits a objs.length
  if a.desc then
    TiesAgree (fun b => OrderDual.toDual (key b)) output start.toNat (stop - start + 1).toNat strings
  else TiesAgree key output start.toNat (stop - start + 1).toNat strings

/-- The number of strings to be stored, as the code counts them. -/
def outputlen (a : SortOptions) (vectorlen : Int) : Int :=
  let (start, stop) := limits a vectorlen
  ((if a.operations = [] then 1 else a.operations.length) * (stop - start + 1)) % 2 ^ 32

/-- Where scores are compared, no stale error makes a difference; where weights are compared as strings,
they decide all that matters. -/
def SortDetermined (clib : CLib S) (cluster_enabled : Bool) (s₁ s₂ : Server) (key : Bytes)
    (args : List Bytes) : Prop :=
  ∀ v₁ v₂ options, sourceValue s₁ key = some v₁ → sourceValue s₂ key = some v₂ →
    parseOptions cluster_enabled args defaultOptions = .ok options → options.storekey ≠ none →
    let a := forceSort options v₁
    a.dontsort = false →
      (a.alpha = false → BadScore clib s₁.db a.sortby (v₁.elements false) ∨
        (StaleError s₁ a.sortby (v₁.elements false) ↔ StaleError s₂ a.sortby (v₂.elements false))) ∧
      (a.alpha = true → a.sortby ≠ none → outputlen a (v₁.elements false).length ≠ 0 →
        WeightsDecide s₁ a (v₁.elements false))

end RedisCluster.Sort
