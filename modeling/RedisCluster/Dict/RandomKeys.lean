import RedisCluster.Dict.Dict

/-!
# `dictGetRandomKeys`

The results of `random()` are a sequence, two for each turn of the outer loop. `none` is a failed
assertion, an overflow of a signed counter, or a loop that has run out of fuel.
-/

namespace RedisCluster

variable {K V : Type}

/-- The loop over a chain, and whether it returned: `stored == count`. -/
def storeChain (count : Int) : List (DictEntry K V) → List (DictEntry K V) → List (DictEntry K V) × Bool
  | [], des => (des, false)
  | he :: chain, des =>
    if ((des ++ [he]).length : Int) = count then (des ++ [he], true)
    else storeChain count chain (des ++ [he])

/-- The loop `while(size--)` from bucket `i`, an `unsigned int`. -/
def scanBuckets (t : Dictht K V) (count : Int) : Nat → Nat → List (DictEntry K V) →
    List (DictEntry K V) × Bool
  | 0, _, des => (des, false)
  | size + 1, i, des =>
    let r := storeChain count (t.table i) des
    if r.2 then r else scanBuckets t count size ((i + 1) % 2 ^ 32 &&& t.sizemask) r.1

/-- One table from a random bucket. `int size = d->ht[j].size` is negative for `2 ^ 31` buckets only,
and then the first `size--` overflows. -/
def scanTable (t : Dictht K V) (random : Nat) (count : Int) (des : List (DictEntry K V)) :
    Option (List (DictEntry K V) × Bool) :=
  let size := toInt32 t.size
  if size < 0 then none
  else some (scanBuckets t count size.toNat ((random &&& t.sizemask) % 2 ^ 32) des)

/-- The loop `while(stored < count)`, with at most `fuel` turns. -/
def randomKeysLoop (d : Dict K V) (random : Nat → Nat) (count : Int) :
    Nat → Nat → List (DictEntry K V) → Option (List (DictEntry K V))
  | 0, _, _ => none
  | fuel + 1, turn, des => do
    if ¬ (des.length : Int) < count then return des
    let r ← scanTable d.ht0 (random (2 * turn)) count des
    if r.2 then return r.1
    if ¬ dictIsRehashing d then none
    let r ← scanTable d.ht1 (random (2 * turn + 1)) count r.1
    if r.2 then return r.1
    randomKeysLoop d random count fuel (turn + 1) r.1

/-- `if (dictSize(d) < count) count = dictSize(d)`, a comparison of unsigned numbers. -/
def randomKeysCount (d : Dict K V) (count : Int) : Int :=
  if (dictSize d : Int) < count % 2 ^ 64 then toInt32 (dictSize d) else count

def dictGetRandomKeys (d : Dict K V) (random : Nat → Nat) (count : Int) (fuel : Nat) :
    Option (List (DictEntry K V)) :=
  randomKeysLoop d random (randomKeysCount d count) fuel 0 []

end RedisCluster
