import Mathlib.Data.Prod.Lex
import Mathlib.Data.UInt
import RedisCluster.Lib.Marks
import RedisCluster.Lib.Run

/-!
# The skip list of `t_zset.c`

Nodes live in a heap and are named by their address, a number; the header has address 0. The level
array of a node is a function from levels to links, and `height` is the length it was allocated
with. `span` and the ranks of `zslInsert` are `unsigned int`. Scores are any linear order (NaN is
excluded by the assertion in `zslInsert`), and members are compared by `compareStringObjects`, which
is a linear order too.
-/

namespace RedisCluster

def ZSKIPLIST_MAXLEVEL : Nat := 32

def uint (n : Nat) : Nat := n % 2 ^ 32

/-- One element of the level array. -/
structure ZskiplistLevel where
  forward : Option Nat
  span : Nat
  deriving DecidableEq, Repr

structure ZskiplistNode (S M : Type) where
  score : S
  /-- NULL in the header. -/
  obj : Option M
  backward : Option Nat
  level : Nat → ZskiplistLevel
  height : Nat

structure Zskiplist (S M : Type) where
  /-- The heap: the nodes by address. -/
  node : Nat → ZskiplistNode S M
  tail : Option Nat
  length : Nat
  level : Nat
  /-- The address of the next allocation. -/
  fresh : Nat

def zslHeader : Nat := 0

section

variable {S M : Type}

def zslCreateNode (level : Nat) (score : S) (obj : Option M) : ZskiplistNode S M :=
  { score := score, obj := obj, backward := none, height := level,
    level := fun _ => { forward := none, span := 0 } }

/-- The score 0 of the header is never compared. -/
def zslCreate [Zero S] : Zskiplist S M :=
  { node := fun _ => zslCreateNode ZSKIPLIST_MAXLEVEL 0 none
    tail := none, length := 0, level := 1, fresh := 1 }

namespace Zskiplist

def link (z : Zskiplist S M) (x i : Nat) : ZskiplistLevel := (z.node x).level i

def setNode (z : Zskiplist S M) (x : Nat) (n : ZskiplistNode S M) : Zskiplist S M :=
  { z with node := Function.update z.node x n }

def setLink (z : Zskiplist S M) (x i : Nat) (l : ZskiplistLevel) : Zskiplist S M :=
  z.setNode x { z.node x with level := Function.update (z.node x).level i l }

def setBackward (z : Zskiplist S M) (x : Nat) (b : Option Nat) : Zskiplist S M :=
  z.setNode x { z.node x with backward := b }

end Zskiplist

/-! ## Searching -/

/-- The inner loop of a search on level `i`: go on while there is a next node and `go` holds of it
and of the rank it would give. `acc` is the integer type of the rank. The list has `length` nodes,
so `length + 1` iterations are enough. -/
def zslWalk (z : Zskiplist S M) (acc : Nat → Nat) (go : Nat → Nat → Bool) (i : Nat) :
    Nat → Nat → Nat → Nat × Nat
  | 0, x, rank => (x, rank)
  | fuel + 1, x, rank =>
    match (z.link x i).forward with
    | none => (x, rank)
    | some f =>
      if go f (rank + (z.link x i).span) then
        zslWalk z acc go i fuel f (acc (rank + (z.link x i).span))
      else (x, rank)

/-- `for (i = zsl->level-1; i >= 0; i--)` around the inner loop, from level `n - 1` on down: the
arrays `update` and `rank`. -/
def zslDescend (z : Zskiplist S M) (acc : Nat → Nat) (go : Nat → Nat → Bool) :
    Nat → Nat → Nat → (Nat → Nat) × (Nat → Nat)
  | 0, _, _ => (fun _ => zslHeader, fun _ => 0)
  | i + 1, x, rank =>
    let r := zslWalk z acc go i (z.length + 1) x rank
    let rest := zslDescend z acc go i r.1 r.2
    (Function.update rest.1 i r.1, Function.update rest.2 i r.2)

def zslSearch (z : Zskiplist S M) (acc : Nat → Nat) (go : Nat → Nat → Bool) :
    (Nat → Nat) × (Nat → Nat) :=
  zslDescend z acc go z.level zslHeader 0

/-- `for (i = 0; i < n; i++)` over an update of the list. -/
def forLevels (f : Nat → Zskiplist S M → Zskiplist S M) : Nat → Zskiplist S M → Zskiplist S M
  | 0, z => z
  | n + 1, z => f n (forLevels f n z)

/-! ## Inserting -/

/-- The spans of the header on the levels from `zsl->level` up to `level`. -/
def raiseHeader (z : Zskiplist S M) (level : Nat) : Zskiplist S M :=
  forLevels (fun i z' => if i < z.level then z' else
    z'.setLink zslHeader i { z'.link zslHeader i with span := uint z.length }) level z

/-- The branch `level > zsl->level` of `zslInsert`, with `update` and `rank` on the new levels. -/
def raiseLevel (level : Nat) (z : Zskiplist S M) (update rank : Nat → Nat) :
    Zskiplist S M × (Nat → Nat) × (Nat → Nat) :=
  if level > z.level then
    ({ raiseHeader z level with level := level },
      fun i => if i < z.level then update i else zslHeader,
      fun i => if i < z.level then rank i else 0)
  else (z, update, rank)

/-- Link the new node `x` behind `update[i]` on level `i`. -/
def linkLevel (x : Nat) (update rank : Nat → Nat) (i : Nat) (z : Zskiplist S M) : Zskiplist S M :=
  let u := z.link (update i) i
  let skipped := uint (rank 0 + (2 ^ 32 - rank i))
  (z.setLink x i { forward := u.forward, span := uint (u.span + (2 ^ 32 - skipped)) }).setLink
    (update i) i { forward := some x, span := uint (skipped + 1) }

/-- The loop over the levels that the new node does not touch. -/
def bumpLevel (level : Nat) (update : Nat → Nat) (i : Nat) (z : Zskiplist S M) : Zskiplist S M :=
  if i < level then z
  else
    let u := z.link (update i) i
    z.setLink (update i) i { u with span := uint (u.span + 1) }

/-- The two loops of `zslInsert` over the levels of the new node and over the levels above. -/
def linkNode (z : Zskiplist S M) (x level : Nat) (update rank : Nat → Nat) : Zskiplist S M :=
  let z := forLevels (linkLevel x update rank) level z
  forLevels (bumpLevel level update) z.level z

/-- `x->backward`, the back pointer of the next node or `tail`, and `length`. -/
def linkBackward (z : Zskiplist S M) (x u : Nat) : Zskiplist S M :=
  let z := z.setBackward x (if u = zslHeader then none else some u)
  let z := match (z.link x 0).forward with
    | some f => z.setBackward f (some x)
    | none => { z with tail := some x }
  { z with length := z.length + 1 }

end

section

variable {S M : Type} [LinearOrder S] [LinearOrder M]

/-- The node comes before the pair in the order of the list: by score, then by member. -/
def nodeBefore (z : Zskiplist S M) (score : S) (obj : M) (f : Nat) : Bool :=
  decide ((z.node f).score < score) ||
    (decide ((z.node f).score = score) &&
      match (z.node f).obj with
      | some m => decide (m < obj)
      | none => false)

/-- `zslInsert`, with the level that `zslRandomLevel` chose: the list and the new node. -/
def zslInsert (z : Zskiplist S M) (score : S) (obj : M) (level : Nat) : Zskiplist S M × Nat :=
  let found := zslSearch z uint fun f _ => nodeBefore z score obj f
  let (z, update, rank) := raiseLevel level z found.1 found.2
  let x := z.fresh
  let z := { z.setNode x (zslCreateNode level score (some obj)) with fresh := x + 1 }
  (linkBackward (linkNode z x level update rank) x (update 0), x)

/-! ## Deleting -/

def unlinkLevel (x : Nat) (update : Nat → Nat) (i : Nat) (z : Zskiplist S M) : Zskiplist S M :=
  let u := z.link (update i) i
  if u.forward = some x then
    z.setLink (update i) i
      { forward := (z.link x i).forward, span := uint (u.span + (z.link x i).span + (2 ^ 32 - 1)) }
  else z.setLink (update i) i { u with span := uint (u.span + (2 ^ 32 - 1)) }

/-- `while(zsl->level > 1 && zsl->header->level[zsl->level-1].forward == NULL) zsl->level--`. -/
def lowerLevel (z : Zskiplist S M) : Nat → Nat
  | 0 => 0
  | n + 1 => if n + 1 > 1 ∧ (z.link zslHeader n).forward = none then lowerLevel z n else n + 1

/-- The back pointer of the next node, or `tail`. -/
def unlinkBackward (z : Zskiplist S M) (x : Nat) : Zskiplist S M :=
  match (z.link x 0).forward with
  | some f => z.setBackward f (z.node x).backward
  | none => { z with tail := (z.node x).backward }

def zslDeleteNode (z : Zskiplist S M) (x : Nat) (update : Nat → Nat) : Zskiplist S M :=
  let z := unlinkBackward (forLevels (unlinkLevel x update) z.level z) x
  { z with level := lowerLevel z z.level, length := z.length - 1 }

/-- The freed node stays in the heap of the model, but nothing points to it any more. -/
def zslDelete (z : Zskiplist S M) (score : S) (obj : M) : Zskiplist S M × Bool :=
  let update := (zslSearch z uint fun f _ => nodeBefore z score obj f).1
  match (z.link (update 0) 0).forward with
  | some x =>
    if score = (z.node x).score ∧ (z.node x).obj = some obj then (zslDeleteNode z x update, true)
    else (z, false)
  | none => (z, false)

/-- The loop that deletes nodes from `x` on while `cond` holds of the node and of the number of
nodes deleted so far: the list and the deleted members, which go to `dictDelete`. -/
def zslDeleteFrom (update : Nat → Nat) (cond : ZskiplistNode S M → Nat → Bool) :
    Nat → Zskiplist S M → Option Nat → Nat → Zskiplist S M × List M
  | 0, z, _, _ => (z, [])
  | _ + 1, z, none, _ => (z, [])
  | fuel + 1, z, some x, removed =>
    if cond (z.node x) removed then
      let next := (z.link x 0).forward
      let r := zslDeleteFrom update cond fuel (zslDeleteNode z x update) next (removed + 1)
      (r.1, (z.node x).obj.toList ++ r.2)
    else (z, [])

/-- A range deletion: search with `go`, then delete from the node behind `update[0]` on. The number
of removed nodes is the length of the list of members. -/
def zslDeleteRange (z : Zskiplist S M) (acc : Nat → Nat) (go : Nat → Nat → Bool)
    (cond : ZskiplistNode S M → Nat → Bool) : Zskiplist S M × List M :=
  let update := (zslSearch z acc go).1
  zslDeleteFrom update cond z.length z (z.link (update 0) 0).forward 0

/-- `zrangespec`. -/
structure Zrangespec (S : Type) where
  min : S
  max : S
  minex : Bool
  maxex : Bool

def zslValueGteMin (value : S) (spec : Zrangespec S) : Bool :=
  if spec.minex then decide (value > spec.min) else decide (value ≥ spec.min)

def zslValueLteMax (value : S) (spec : Zrangespec S) : Bool :=
  if spec.maxex then decide (value < spec.max) else decide (value ≤ spec.max)

def zslDeleteRangeByScore (z : Zskiplist S M) (range : Zrangespec S) : Zskiplist S M × List M :=
  zslDeleteRange z uint
    (fun f _ => if range.minex then decide ((z.node f).score ≤ range.min)
      else decide ((z.node f).score < range.min))
    fun n _ => if range.maxex then decide (n.score < range.max) else decide (n.score ≤ range.max)

/-- A bound of a lexicographical range: `shared.minstring`, `shared.maxstring` or a string. -/
inductive LexBound (M : Type) where
  | minstring
  | maxstring
  | value (m : M)
  deriving DecidableEq

/-- `zlexrangespec`. -/
structure Zlexrangespec (M : Type) where
  min : LexBound M
  max : LexBound M
  minex : Bool
  maxex : Bool

/-- `compareStringObjectsForLexRange` of a member with a bound. -/
def compareForLexRange (m : M) : LexBound M → Ordering
  | .minstring => .gt
  | .maxstring => .lt
  | .value b => compareOfLessAndEq m b

def zslLexValueGteMin (value : M) (spec : Zlexrangespec M) : Bool :=
  if spec.minex then compareForLexRange value spec.min == .gt
  else compareForLexRange value spec.min != .lt

def zslLexValueLteMax (value : M) (spec : Zlexrangespec M) : Bool :=
  if spec.maxex then compareForLexRange value spec.max == .lt
  else compareForLexRange value spec.max != .gt

def zslDeleteRangeByLex (z : Zskiplist S M) (range : Zlexrangespec M) : Zskiplist S M × List M :=
  zslDeleteRange z uint
    (fun f _ => match (z.node f).obj with
      | some m => !zslLexValueGteMin m range
      | none => false)
    fun n _ => match n.obj with
      | some m => zslLexValueLteMax m range
      | none => false

/-- `start` and `end` are 1-based; `traversed` is an `unsigned long`. -/
def zslDeleteRangeByRank (z : Zskiplist S M) (start stop : Nat) : Zskiplist S M × List M :=
  let r := zslSearch z id fun _ traversed => decide (traversed < start)
  zslDeleteFrom r.1 (fun _ removed => decide (r.2 0 + 1 + removed ≤ stop)) z.length z
    (z.link (r.1 0) 0).forward 0

end

end RedisCluster

/-!
## Runs of skip list operations and the representation invariant

`ZslOk` is the representation invariant of a skip list, read off from its links: `levelNodes z i`
follows the forward links of level `i`. `GapsFit` is a condition on the shape of the list only, the
order of its nodes and their heights: no link in use passes `2 ^ 32` steps of level 0 or more.
-/

namespace RedisCluster

open RedisCluster.Lib

variable {S M : Type}

def tall (z : Zskiplist S M) (i x : Nat) : Bool := decide (i < (z.node x).height)

/-- The pair of score and member that a node holds. -/
def nodeElem (z : Zskiplist S M) (x : Nat) : Option (S ×ₗ M) :=
  (z.node x).obj.map fun m => toLex ((z.node x).score, m)

/-- Each node points back to the one before it. -/
def Backs (back : Nat → Option Nat) (ns : List Nat) : Prop :=
  ∀ a x b, ns = a ++ x :: b → back x = a.getLast?

/-- The nodes behind `x` on level `i`, along at most `fuel` links. -/
def followLinks (z : Zskiplist S M) (i : Nat) : Nat → Nat → List Nat
  | 0, _ => []
  | fuel + 1, x =>
    match (z.link x i).forward with
    | some f => f :: followLinks z i fuel f
    | none => []

/-- The nodes of level `i`. A level with more links than the list has nodes would show one too many
here. -/
def levelNodes (z : Zskiplist S M) (i : Nat) : List Nat :=
  followLinks z i (z.length + 1) zslHeader

/-- The span of a link of a node with the nodes `post` behind it: the steps to the next node, or to
the end of the list. -/
def SpanCounts (l : ZskiplistLevel) (post : List Nat) : Prop :=
  match l.forward with
  | some f => ∃ a b, post = a ++ f :: b ∧ l.span = a.length + 1
  | none => l.span = post.length

/-- The representation invariant. -/
structure ZslOk [LinearOrder S] [LinearOrder M] (z : Zskiplist S M) : Prop where
  sorted : ∃ es : List (S ×ₗ M), (levelNodes z 0).map (nodeElem z) = es.map some ∧
    es.Pairwise (· < ·)
  sublist : ∀ i, (levelNodes z (i + 1)).Sublist (levelNodes z i)
  spans : ∀ i < z.level, ∀ before x post, zslHeader :: levelNodes z 0 = before ++ x :: post →
    x ∈ zslHeader :: levelNodes z i → SpanCounts (z.link x i) post
  backs : Backs (fun x => (z.node x).backward) (levelNodes z 0)
  tail_eq : z.tail = (levelNodes z 0).getLast?
  length_eq : z.length = (levelNodes z 0).length
  level_pos : 1 ≤ z.level
  level_top : z.level = 1 ∨ levelNodes z (z.level - 1) ≠ []
  level_above : ∀ i, z.level ≤ i → levelNodes z i = []

/-- No link in use passes `2 ^ 32` steps of level 0 or more. -/
def GapsFit (z : Zskiplist S M) : Prop :=
  ∀ i < z.level, ∀ before x post, zslHeader :: levelNodes z 0 = before ++ x :: post →
    tall z i x = true → stepsTo (tall z i) post < 2 ^ 32

inductive ZslOp (S M : Type) where
  | insert (score : S) (obj : M) (level : Nat)
  | delete (score : S) (obj : M)
  | deleteRangeByScore (range : Zrangespec S)
  | deleteRangeByLex (range : Zlexrangespec M)
  | deleteRangeByRank (start stop : Nat)

section

variable [LinearOrder S] [LinearOrder M]

def zslStep (z : Zskiplist S M) : ZslOp S M → Zskiplist S M
  | .insert score obj level => (zslInsert z score obj level).1
  | .delete score obj => (zslDelete z score obj).1
  | .deleteRangeByScore range => (zslDeleteRangeByScore z range).1
  | .deleteRangeByLex range => (zslDeleteRangeByLex z range).1
  | .deleteRangeByRank start stop => (zslDeleteRangeByRank z start stop).1

/-- `zslInsert` is called for a member that is not in the list, with a level that `zslRandomLevel`
can return. -/
def ZslOpOk (z : Zskiplist S M) : ZslOp S M → Prop
  | .insert _ obj level => (1 ≤ level ∧ level ≤ ZSKIPLIST_MAXLEVEL) ∧
      ∀ x ∈ levelNodes z 0, (z.node x).obj ≠ some obj
  | _ => True

end

end RedisCluster
