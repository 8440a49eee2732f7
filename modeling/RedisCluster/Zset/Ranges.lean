import RedisCluster.Util.Strings
import RedisCluster.Zset.Skiplist

/-!
# Ranges of a sorted set

The first and the last element of a range of scores or of members, in a skip list or in a ziplist, and the deletion
of a range of scores from the sorted set.
-/

namespace RedisCluster

open RedisCluster.Util

/-- Bytes are compared as unsigned numbers; strings of them as `memcmp` and then the lengths do. -/
instance linearOrderUInt8 : LinearOrder UInt8 where
  le_refl a := UInt8.le_refl a
  le_trans a b c := UInt8.le_trans
  le_antisymm a b := UInt8.le_antisymm
  le_total a b := UInt8.le_total a b
  lt_iff_le_not_ge a b := by
    rw [UInt8.lt_iff_toNat_lt, UInt8.le_iff_toNat_le, UInt8.le_iff_toNat_le]
    omega
  toDecidableLE := inferInstance

/-! ## The skip list -/

section

variable {S M : Type}

/-- The node at which the loops of a search end. -/
def zslStop (z : Zskiplist S M) (go : Nat → Bool) : Nat := (zslSearch z uint fun f _ => go f).1 0

/-- `zslIsInRange` and `zslIsInLexRange` behind the test `empty` of the bounds. -/
def zslIsIn (z : Zskiplist S M) (empty : Bool) (gteMin lteMax : Nat → Bool) : Bool :=
  if empty then false
  else
    match z.tail with
    | none => false
    | some x =>
      if !gteMin x then false
      else
        match (z.link zslHeader 0).forward with
        | none => false
        | some x => lteMax x

/-- `zslFirstInRange` and `zslFirstInLexRange`; an error is a failed assertion. -/
def zslFirstIn (z : Zskiplist S M) (empty : Bool) (gteMin lteMax : Nat → Bool) : Except String (Option Nat) :=
  if !zslIsIn z empty gteMin lteMax then .ok none
  else
    match (z.link (zslStop z fun x => !gteMin x) 0).forward with
    | none => .error "x != NULL"
    | some x => if !lteMax x then .ok none else .ok (some x)

/-- `zslLastInRange` and `zslLastInLexRange`. The loops go to a next node only where there is one, so `x` is always a
node. -/
def zslLastIn (z : Zskiplist S M) (empty : Bool) (gteMin lteMax : Nat → Bool) : Option Nat :=
  if !zslIsIn z empty gteMin lteMax then none
  else
    let x := zslStop z lteMax
    if !gteMin x then none else some x

end

/-! ## Scores -/

section

variable {S M : Type} [LinearOrder S]

/-- The test of the bounds in `zslIsInRange`. -/
def Zrangespec.isEmpty (range : Zrangespec S) : Bool :=
  decide (range.min > range.max ∨ (range.min = range.max ∧ (range.minex ∨ range.maxex)))

def zslFirstInRange (z : Zskiplist S M) (range : Zrangespec S) : Except String (Option Nat) :=
  zslFirstIn z range.isEmpty (fun x => zslValueGteMin (z.node x).score range)
    fun x => zslValueLteMax (z.node x).score range

def zslLastInRange (z : Zskiplist S M) (range : Zrangespec S) : Option Nat :=
  zslLastIn z range.isEmpty (fun x => zslValueGteMin (z.node x).score range)
    fun x => zslValueLteMax (z.node x).score range

def Zrangespec.Contains (range : Zrangespec S) (score : S) : Prop :=
  (range.min < score ∨ (range.min = score ∧ range.minex = false)) ∧
    (score < range.max ∨ (score = range.max ∧ range.maxex = false))

instance (range : Zrangespec S) (score : S) : Decidable (range.Contains score) :=
  inferInstanceAs (Decidable (_ ∧ _))

end

/-! ## The sorted set -/

section

variable {S M : Type} [LinearOrder S] [LinearOrder M]

/-- `zset`. -/
structure Zset (S M : Type) where
  zsl : Zskiplist S M
  dict : M → Option S

/-- `zslDeleteRangeByScore` with the dict, and the number it returns. -/
def Zset.deleteRangeByScore (s : Zset S M) (range : Zrangespec S) : Zset S M × Nat :=
  let r := zslDeleteRangeByScore s.zsl range
  ({ zsl := r.1, dict := r.2.foldl (fun dict obj => Function.update dict obj none) s.dict }, r.2.length)

end

/-! ## Members -/

/-- The text of the shared objects; the others are their own. -/
def LexBound.text : LexBound Bytes → Bytes
  | .minstring => ascii "minstring"
  | .maxstring => ascii "maxstring"
  | .value m => m

/-- `zslParseLexRangeItem`. An argument ends with a NUL byte. -/
def zslParseLexRangeItem (item : Bytes) : Option (LexBound Bytes × Bool) :=
  match item with
  | 43 :: c => if c.headD 0 ≠ 0 then none else some (.maxstring, false)
  | 45 :: c => if c.headD 0 ≠ 0 then none else some (.minstring, false)
  | 40 :: c => some (.value c, true)
  | 91 :: c => some (.value c, false)
  | _ => none

def zslParseLexRange (min max : Bytes) : Option (Zlexrangespec Bytes) := do
  let min ← zslParseLexRangeItem min
  let max ← zslParseLexRangeItem max
  return { min := min.1, max := max.1, minex := min.2, maxex := max.2 }

/-- `compareStringObjects` on strings: the sign is that of their order, the size is not said. -/
structure StringCompare where
  cmp : Bytes → Bytes → Int
  neg_iff : ∀ a b, cmp a b < 0 ↔ a < b
  zero_iff : ∀ a b, cmp a b = 0 ↔ a = b

/-- `compareStringObjectsForLexRange` on the two bounds. -/
def compareLexBounds (compare : StringCompare) (a b : LexBound Bytes) : Int :=
  if a = b then 0
  else if a = .minstring ∨ b = .maxstring then -1
  else if a = .maxstring ∨ b = .minstring then 1
  else compare.cmp a.text b.text

/-- The test of the bounds in `zslIsInLexRange`; the second comparison is `compareStringObjects`. -/
def lexRangeIsEmpty (compare : StringCompare) (range : Zlexrangespec Bytes) : Bool :=
  decide (compareLexBounds compare range.min range.max > 1 ∨
    (compare.cmp range.min.text range.max.text = 0 ∧ (range.minex ∨ range.maxex)))

section

variable {S : Type}

/-- The header has no member, and is not asked for. -/
def lexGteMin (z : Zskiplist S Bytes) (range : Zlexrangespec Bytes) (x : Nat) : Bool :=
  (z.node x).obj.any fun m => zslLexValueGteMin m range

def lexLteMax (z : Zskiplist S Bytes) (range : Zlexrangespec Bytes) (x : Nat) : Bool :=
  (z.node x).obj.any fun m => zslLexValueLteMax m range

def zslFirstInLexRange (compare : StringCompare) (z : Zskiplist S Bytes) (range : Zlexrangespec Bytes) :
    Except String (Option Nat) :=
  zslFirstIn z (lexRangeIsEmpty compare range) (lexGteMin z range) (lexLteMax z range)

def zslLastInLexRange (compare : StringCompare) (z : Zskiplist S Bytes) (range : Zlexrangespec Bytes) : Option Nat :=
  zslLastIn z (lexRangeIsEmpty compare range) (lexGteMin z range) (lexLteMax z range)

end

/-! ## The ziplist -/

/-- A ziplist as the texts of its entries; a pointer to an entry is its position. -/
abbrev ZzlEntries := List Bytes

def zlIndex (zl : ZzlEntries) (index : Int) : Option Nat :=
  if index < 0 then if -index ≤ zl.length then some (zl.length - (-index).toNat) else none
  else if index < zl.length then some index.toNat
  else none

def zlNext (zl : ZzlEntries) (p : Nat) : Option Nat := if p + 1 < zl.length then some (p + 1) else none

def zlPrev (p : Nat) : Option Nat := if p = 0 then none else some (p - 1)

/-- `zzlLexValueGteMin`, of the string object made of the entry. -/
def zzlLexValueGteMin (zl : ZzlEntries) (p : Nat) (range : Zlexrangespec Bytes) : Bool :=
  zslLexValueGteMin (zl.getD p []) range

def zzlLexValueLteMax (zl : ZzlEntries) (p : Nat) (range : Zlexrangespec Bytes) : Bool :=
  zslLexValueLteMax (zl.getD p []) range

def zzlIsInLexRange (compare : StringCompare) (zl : ZzlEntries) (range : Zlexrangespec Bytes) : Except String Bool :=
  if lexRangeIsEmpty compare range then .ok false
  else
    match zlIndex zl (-2) with
    | none => .ok false
    | some p =>
      if !zzlLexValueGteMin zl p range then .ok false
      else
        match zlIndex zl 0 with
        | none => .error "p != NULL"
        | some p => .ok (zzlLexValueLteMax zl p range)

/-- The loop of `zzlFirstInLexRange`; it passes each entry at most once. -/
def zzlFirstLoop (zl : ZzlEntries) (range : Zlexrangespec Bytes) : Nat → Option Nat → Except String (Option Nat)
  | 0, _ => .ok none
  | _, none => .ok none
  | fuel + 1, some eptr =>
    if zzlLexValueGteMin zl eptr range then
      .ok (if zzlLexValueLteMax zl eptr range then some eptr else none)
    else
      match zlNext zl eptr with
      | none => .error "sptr != NULL"
      | some sptr => zzlFirstLoop zl range fuel (zlNext zl sptr)

def zzlFirstInLexRange (compare : StringCompare) (zl : ZzlEntries) (range : Zlexrangespec Bytes) :
    Except String (Option Nat) := do
  if !(← zzlIsInLexRange compare zl range) then return none
  zzlFirstLoop zl range (zl.length + 1) (zlIndex zl 0)

def zzlLastLoop (zl : ZzlEntries) (range : Zlexrangespec Bytes) : Nat → Option Nat → Except String (Option Nat)
  | 0, _ => .ok none
  | _, none => .ok none
  | fuel + 1, some eptr =>
    if zzlLexValueLteMax zl eptr range then
      .ok (if zzlLexValueGteMin zl eptr range then some eptr else none)
    else
      match zlPrev eptr with
      | none => .ok none
      | some sptr =>
        match zlPrev sptr with
        | none => .error "(eptr = ziplistPrev(zl,sptr)) != NULL"
        | some eptr => zzlLastLoop zl range fuel (some eptr)

def zzlLastInLexRange (compare : StringCompare) (zl : ZzlEntries) (range : Zlexrangespec Bytes) :
    Except String (Option Nat) := do
  if !(← zzlIsInLexRange compare zl range) then return none
  zzlLastLoop zl range (zl.length + 1) (zlIndex zl (-2))

/-! ## The members of a range -/

/-- What an argument of `ZRANGEBYLEX` can say: `-`, `+`, `[s` or `(s`. -/
inductive LexItem where
  | lowest
  | highest
  | inclusive (s : Bytes)
  | exclusive (s : Bytes)

def LexItem.spell : LexItem → Bytes
  | .lowest => ascii "-"
  | .highest => ascii "+"
  | .inclusive s => ascii "[" ++ s
  | .exclusive s => ascii "(" ++ s

/-- As the lower bound of a range, it has the member not below it. -/
def LexItem.From (m : Bytes) : LexItem → Prop
  | .lowest => True
  | .highest => False
  | .inclusive s => s ≤ m
  | .exclusive s => s < m

def LexItem.To (m : Bytes) : LexItem → Prop
  | .lowest => False
  | .highest => True
  | .inclusive s => m ≤ s
  | .exclusive s => m < s

instance (m : Bytes) (a : LexItem) : Decidable (a.From m) :=
  match a with
  | .lowest => isTrue trivial
  | .highest => isFalse id
  | .inclusive s => inferInstanceAs (Decidable (s ≤ m))
  | .exclusive s => inferInstanceAs (Decidable (s < m))

instance (m : Bytes) (a : LexItem) : Decidable (a.To m) :=
  match a with
  | .lowest => isFalse id
  | .highest => isTrue trivial
  | .inclusive s => inferInstanceAs (Decidable (m ≤ s))
  | .exclusive s => inferInstanceAs (Decidable (m < s))

def LexWithin (a b : LexItem) (m : Bytes) : Prop := a.From m ∧ b.To m

instance (a b : LexItem) (m : Bytes) : Decidable (LexWithin a b m) := inferInstanceAs (Decidable (_ ∧ _))

def lexNodes {S : Type} (z : Zskiplist S Bytes) (ns : List Nat) (a b : LexItem) : List Nat :=
  ns.filter fun x => (z.node x).obj.any fun m => LexWithin a b m

/-- The positions of the members of the range in the ziplist, which has the text of the score behind each. -/
def lexPositions (ms : List Bytes) (a b : LexItem) : List Nat :=
  (ms.zipIdx.filter fun p => LexWithin a b p.1).map fun p => 2 * p.2

/-- No member is cut off by a bound that has the text of the shared object opposite to it. -/
def LexKept (ms : List Bytes) : LexItem → LexItem → Prop
  | .lowest, .exclusive s => s = ascii "minstring" → ∀ m ∈ ms, ¬ m < s
  | .exclusive s, .highest => s = ascii "maxstring" → ∀ m ∈ ms, ¬ s < m
  | _, _ => True

end RedisCluster

/-!
## Ranks in a skip list

A rank is a sum of spans, an `unsigned long`; it counts from 1, and the header has rank 0.
-/

namespace RedisCluster

variable {S M : Type}

/-- The loops of `zslGetRank` and `zslGetElementByRank`: after the inner loop of a level they return if `found` holds of
the node and the rank. -/
def zslDescendUntil (z : Zskiplist S M) (go : Nat → Nat → Bool) (found : Nat → Nat → Bool) :
    Nat → Nat → Nat → Option (Nat × Nat)
  | 0, _, _ => none
  | i + 1, x, rank =>
    let r := zslWalk z id go i (z.length + 1) x rank
    if found r.1 r.2 then some r else zslDescendUntil z go found i r.1 r.2

def zslGetElementByRank (z : Zskiplist S M) (rank : Nat) : Option Nat :=
  (zslDescendUntil z (fun _ traversed => decide (traversed ≤ rank)) (fun _ traversed => decide (traversed = rank))
    z.level zslHeader 0).map Prod.fst

section

variable [LinearOrder S] [LinearOrder M]

/-- The node does not come behind the pair. -/
def nodeNotBehind (z : Zskiplist S M) (score : S) (o : M) (f : Nat) : Bool :=
  decide ((z.node f).score < score) ||
    (decide ((z.node f).score = score) &&
      match (z.node f).obj with
      | some m => decide (m ≤ o)
      | none => false)

/-- `zslGetRank`; 0 where no element is found. -/
def zslGetRank (z : Zskiplist S M) (score : S) (o : M) : Nat :=
  ((zslDescendUntil z (fun f _ => nodeNotBehind z score o f) (fun x _ => decide ((z.node x).obj = some o))
    z.level zslHeader 0).map Prod.snd).getD 0

/-! ## What must hold -/

/-- The rank of a pair in the sorted pairs, or 0. -/
def rankOf (es : List (S ×ₗ M)) (e : S ×ₗ M) : Nat := if e ∈ es then es.idxOf e + 1 else 0

/-- The elements at the ranks from `start` to `stop`. -/
def atRanks {α : Type} (start stop : Nat) (l : List α) : List α := (l.take stop).drop (start - 1)

def notAtRanks {α : Type} (start stop : Nat) (l : List α) : List α :=
  l.take (start - 1) ++ l.drop (max stop (start - 1))

/-! ## When it does -/

/-- Where the list has the member with a lower score, a node between it and the pair has at least its height. -/
def StalePassed (z : Zskiplist S M) (ns : List Nat) (score : S) (o : M) : Prop :=
  ∀ before x behind, (ns.takeWhile (nodeNotBehind z score o)) = before ++ x :: behind → (z.node x).obj = some o →
    (z.node x).score ≠ score → ∃ y ∈ behind, (z.node x).height ≤ (z.node y).height

end

end RedisCluster
