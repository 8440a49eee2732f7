import RedisCluster.Lib.Comparison

/-!
# `pqsort.c`: sorting a range of an array

A quicksort that leaves out the parts of the array that do not meet the range. The array is a
function from indices to elements and the pointers are indices, except for the comparisons with the
first and the last byte of the range.
-/

namespace RedisCluster.Pqsort

variable {α : Type}

def swap (f : Nat → α) (i j : Nat) : Nat → α :=
  fun k => if k = i then f j else if k = j then f i else f k

/-- Exchange of the `n` elements at `i` with those at `j`. -/
def vecswap (f : Nat → α) (i j : Nat) : Nat → Nat → α
  | 0 => f
  | n + 1 => vecswap (swap f i j) (i + 1) (j + 1) n

variable (cmp : α → α → Int)

def med3 (f : Nat → α) (a b c : Nat) : Nat :=
  if cmp (f a) (f b) < 0 then
    if cmp (f b) (f c) < 0 then b else if cmp (f a) (f c) < 0 then c else a
  else if cmp (f b) (f c) > 0 then b else if cmp (f a) (f c) < 0 then a else c

/-! ## Fewer than 7 elements -/

def insertDown (a : Nat) : Nat → (Nat → α) → Nat → α
  | 0, f => f
  | k + 1, f =>
    if cmp (f (a + k)) (f (a + (k + 1))) > 0 then insertDown a k (swap f (a + (k + 1)) (a + k)) else f

def insertionSort (a : Nat) (f : Nat → α) : Nat → Nat → α
  | 0 => f
  | m + 1 => insertDown cmp a (m + 1) (insertionSort a f m)

/-! ## The partition -/

def choosePivot (f : Nat → α) (a n : Nat) : Nat :=
  let pm := a + n / 2
  if n > 7 then
    let pl := a
    let pn := a + (n - 1)
    if n > 40 then
      let d := n / 8
      med3 cmp f (med3 cmp f pl (pl + d) (pl + 2 * d)) (med3 cmp f (pm - d) pm (pm + d))
        (med3 cmp f (pn - 2 * d) (pn - d) pn)
    else med3 cmp f pl pm pn
  else pm

structure Partition (α : Type) where
  f : Nat → α
  pa : Nat
  pb : Nat
  pc : Nat
  pd : Nat

/-- The loop that moves `pb` up, for at most the elements between `pb` and `pc`. -/
def scanUp (a : Nat) : Nat → Partition α → Partition α
  | 0, s => s
  | k + 1, s =>
    if s.pb ≤ s.pc ∧ cmp (s.f s.pb) (s.f a) ≤ 0 then
      if cmp (s.f s.pb) (s.f a) = 0 then
        scanUp a k { s with f := swap s.f s.pa s.pb, pa := s.pa + 1, pb := s.pb + 1 }
      else scanUp a k { s with pb := s.pb + 1 }
    else s

def scanDown (a : Nat) : Nat → Partition α → Partition α
  | 0, s => s
  | k + 1, s =>
    if s.pb ≤ s.pc ∧ cmp (s.f s.pc) (s.f a) ≥ 0 then
      if cmp (s.f s.pc) (s.f a) = 0 then
        scanDown a k { s with f := swap s.f s.pc s.pd, pd := s.pd - 1, pc := s.pc - 1 }
      else scanDown a k { s with pc := s.pc - 1 }
    else s

/-- The loop `for (;;)`, for at most `k` turns. -/
def partitionLoop (a : Nat) : Nat → Partition α → Partition α
  | 0, s => s
  | k + 1, s =>
    let s := scanUp cmp a (s.pc + 1 - s.pb) s
    let s := scanDown cmp a (s.pc + 1 - s.pb) s
    if s.pb > s.pc then s
    else partitionLoop a k { s with f := swap s.f s.pb s.pc, pb := s.pb + 1, pc := s.pc - 1 }

def partition (f : Nat → α) (a n : Nat) : Partition α :=
  partitionLoop cmp a n
    { f := swap f a (choosePivot cmp f a n), pa := a + 1, pb := a + 1, pc := a + (n - 1)
      pd := a + (n - 1) }

/-- The elements that equal the pivot go from both ends to the middle. -/
def gatherEqual (s : Partition α) (a n : Nat) : Nat → α :=
  let r := min (s.pa - a) (s.pb - s.pa)
  let f := vecswap s.f a (s.pb - r) r
  let pn := a + n
  let r := min (s.pd - s.pc) (pn - s.pd - 1)
  vecswap f s.pb (pn - r) r

/-! ## The recursion -/

/-- The range from byte `lrange` to byte `rrange` does not meet the `n` elements from `a` on. -/
def outside (es lrange rrange a n : Nat) : Bool :=
  let l := a * es
  let r := a * es + n * es - 1
  (decide (lrange < l) && decide (rrange < l)) || (decide (lrange > r) && decide (rrange > r))

/-- `_pqsort` on the `n` elements from `a` on; `none` is a recursion deeper than `fuel`. -/
def pqsortRec (es lrange rrange : Nat) : Nat → (Nat → α) → Nat → Nat → Option (Nat → α)
  | 0, _, _, _ => none
  | fuel + 1, f, a, n =>
    if n < 7 then some (insertionSort cmp a f (n - 1))
    else
      let s := partition cmp f a n
      let f := gatherEqual s a n
      let r := s.pb - s.pa
      let left := if r > 1 ∧ outside es lrange rrange a r = false then pqsortRec es lrange rrange fuel f a r
        else some f
      let r := s.pd - s.pc
      left.bind fun f =>
        if r > 1 ∧ outside es lrange rrange (a + n - r) r = false then
          pqsortRec es lrange rrange fuel f (a + n - r) r
        else some f

def pqsort (f : Nat → α) (n es lrange rrange : Nat) : Option (Nat → α) :=
  pqsortRec cmp es (lrange * es) ((rrange + 1) * es - 1) (n + 1) f 0 n

end RedisCluster.Pqsort
