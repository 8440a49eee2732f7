import Mathlib.Data.Finmap
import RedisCluster.Lib.Run
import RedisCluster.Dict.Dict
import RedisCluster.Lib.RevCursor

/-!
# Runs of dict operations and the map they stand for

A run gives one dict a sequence of operations, each with the value that `dict_can_resize` has at
that moment. The purpose of the dict is a finite map: `mapStep` is what each operation means there.
-/

namespace RedisCluster

variable {K V : Type} [DecidableEq K]

inductive DictOp (K V : Type) where
  | add (k : K) (v : V)
  | replace (k : K) (v : V)
  | delete (k : K)
  | find (k : K)
  | rehash (n : Nat)
  | resize
  | expand (size : Nat)
  | getSafeIterator
  /-- `dictNext` on the `i`-th live iterator. -/
  | next (i : Nat)
  | releaseIterator (i : Nat)

/-- What an operation tells its caller about the map. -/
inductive DictReply (V : Type) where
  | status (ok : Bool)
  | found (v : Option V)
  | none
  deriving DecidableEq

/-- A dict and its live safe iterators. -/
structure DictRun (K V : Type) where
  dict : Dict K V
  iters : List (DictIterator K V)

def dictStart : DictRun K V := { dict := dictCreate, iters := [] }

/-- One operation, with the current value of `dict_can_resize`. -/
def dictStep (hash : K → UInt32) (s : DictRun K V) (a : Bool × DictOp K V) :
    DictRun K V × DictReply V :=
  match a.2 with
  | .add k v =>
    let r := dictAdd hash a.1 s.dict k v
    ({ s with dict := r.1 }, .status r.2)
  | .replace k v =>
    let r := dictReplace hash a.1 s.dict k v
    ({ s with dict := r.1 }, .status r.2)
  | .delete k =>
    let r := dictDelete hash s.dict k
    ({ s with dict := r.1 }, .status r.2)
  | .find k =>
    let r := dictFind hash s.dict k
    ({ s with dict := r.1 }, .found (r.2.map DictEntry.val))
  | .rehash n => ({ s with dict := (dictRehash hash s.dict n).1 }, .none)
  | .resize => ({ s with dict := (dictResize a.1 s.dict).1 }, .none)
  | .expand size => ({ s with dict := (dictExpand s.dict size).1 }, .none)
  | .getSafeIterator => ({ s with iters := s.iters ++ [dictGetSafeIterator] }, .none)
  | .next i =>
    match s.iters[i]? with
    | some it =>
      let r := dictNext s.dict it
      ({ dict := r.1, iters := s.iters.set i r.2 }, .none)
    | none => (s, .none)
  | .releaseIterator i =>
    match s.iters[i]? with
    | some it => ({ dict := dictReleaseIterator s.dict it, iters := s.iters.eraseIdx i }, .none)
    | none => (s, .none)

def mapStep (m : Finmap (fun _ : K => V)) (a : Bool × DictOp K V) :
    Finmap (fun _ : K => V) × DictReply V :=
  match a.2 with
  | .add k v => if k ∈ m then (m, .status false) else (m.insert k v, .status true)
  | .replace k v => (m.insert k v, .status (decide (k ∉ m)))
  | .delete k => (m.erase k, .status (decide (k ∈ m)))
  | .find k => (m, .found (m.lookup k))
  | _ => (m, .none)

end RedisCluster

/-!
## An iteration with a safe iterator

Between two calls of `dictNext` the caller may delete the entry just returned, and add, look up and replace keys.
-/

namespace RedisCluster

variable {K V : Type} [DecidableEq K]

inductive IterOp (K V : Type) where
  | next
  /-- Delete the entry just returned. -/
  | delete
  | add (k : K) (v : V)
  | find (k : K)
  | replace (k : K) (v : V)

structure Iteration (K V : Type) where
  dict : Dict K V
  it : DictIterator K V
  /-- The entry just returned, as long as it is not deleted. -/
  current : Option K
  /-- The entries that were in the dict at the first call and are still there. -/
  old : List K
  /-- The entries returned, and whether they were in the dict at the first call. -/
  returned : List (K × Bool)
  finished : Bool

def Dict.keys (d : Dict K V) : List K :=
  ((List.range d.ht0.size).flatMap d.ht0.table ++ (List.range d.ht1.size).flatMap d.ht1.table).map DictEntry.key

def iterationStart (d : Dict K V) : Iteration K V :=
  { dict := d, it := dictGetSafeIterator, current := none, old := d.keys, returned := [], finished := false }

/-- One call, with the current value of `dict_can_resize`. -/
def iterationStep (hash : K → UInt32) (s : Iteration K V) (a : Bool × IterOp K V) : Iteration K V :=
  match a.2 with
  | .next =>
    let r := dictNext s.dict s.it
    match r.2.entry with
    | some e =>
      { s with
        dict := r.1
        it := r.2
        current := some e.key
        returned := s.returned ++ [(e.key, decide (e.key ∈ s.old))] }
    | none => { s with dict := r.1, it := r.2, current := none, finished := true }
  | .delete =>
    match s.current with
    | some k =>
      { s with
        dict := (dictDelete hash s.dict k).1
        current := none
        old := s.old.filter fun k' => k' ≠ k }
    | none => s
  | .add k v => { s with dict := (dictAdd hash a.1 s.dict k v).1 }
  | .find k => { s with dict := (dictFind hash s.dict k).1 }
  | .replace k v => { s with dict := (dictReplace hash a.1 s.dict k v).1 }

/-- What the caller does: nothing before the first call and after the last one. -/
def IterationAllowed (s : Iteration K V) (a : Bool × IterOp K V) : Prop :=
  s.finished = false ∧
    match a.2 with
    | .next => True
    | .delete => s.current ≠ none
    | _ => s.it.entry ≠ none

instance (s : Iteration K V) (a : Bool × IterOp K V) : Decidable (IterationAllowed s a) :=
  match a with
  | (_, .next) => inferInstanceAs (Decidable (s.finished = false ∧ True))
  | (_, .delete) => inferInstanceAs (Decidable (s.finished = false ∧ s.current ≠ none))
  | (_, .add _ _) => inferInstanceAs (Decidable (s.finished = false ∧ s.it.entry ≠ none))
  | (_, .find _) => inferInstanceAs (Decidable (s.finished = false ∧ s.it.entry ≠ none))
  | (_, .replace _ _) => inferInstanceAs (Decidable (s.finished = false ∧ s.it.entry ≠ none))

/-- The entries of the first call that were returned. -/
def Iteration.oldReturned (s : Iteration K V) : List K := (s.returned.filter Prod.snd).map Prod.fst

end RedisCluster

/-!
## `dictScan`

The cursor is an `unsigned long`, a 64-bit word. The callback `fn` is modelled by the list of the
entries it is called with, in order. A scan is a run of `dictScan` calls, each fed the cursor that
the one before returned, with any dict operations in between.
-/

namespace RedisCluster

open RedisCluster.Lib

variable {K V : Type}

/-- One iteration of the loop in `rev`, at shift `s`, on `mask` and `v`. -/
def revStep (mask : BitVec 64 × BitVec 64) (s : Nat) : BitVec 64 × BitVec 64 :=
  let m := mask.1 ^^^ (mask.1 <<< s)
  (m, ((mask.2 >>> s) &&& m) ||| ((mask.2 <<< s) &&& ~~~m))

/-- `while ((s >>= 1) > 0)` starts with `s` = 64. -/
def rev (v : BitVec 64) : BitVec 64 :=
  ([32, 16, 8, 4, 2, 1].foldl revStep (BitVec.allOnes 64, v)).2

/-- The `do … while` over the expansions of the bucket in the larger table `t1`: the entries passed
to the callback and the cursor when `v & (m0 ^ m1)` is 0. -/
def scanExpansions (t1 : Dictht K V) (m0 m1 : BitVec 64) : Nat → BitVec 64 →
    List (DictEntry K V) × BitVec 64
  | 0, v => ([], v)
  | fuel + 1, v =>
    let passed := t1.table (v &&& m1).toNat
    let v := (((v ||| m0) + 1) &&& ~~~m0) ||| (v &&& m0)
    if v &&& (m0 ^^^ m1) = 0 then (passed, v)
    else
      let r := scanExpansions t1 m0 m1 fuel v
      (passed ++ r.1, r.2)

/-- The smaller table first: `t0` and `t1` while rehashing. -/
def scanTables (d : Dict K V) : Dictht K V × Dictht K V :=
  if d.ht0.size > d.ht1.size then (d.ht1, d.ht0) else (d.ht0, d.ht1)

/-- The mask of a table as an `unsigned long`. -/
def Dictht.mask64 (t : Dictht K V) : BitVec 64 := BitVec.ofNat 64 t.sizemask

/-- The increment of the reversed cursor that ends every call. -/
def nextCursor (m0 : BitVec 64) (v : BitVec 64) : BitVec 64 := rev (rev (v ||| ~~~m0) + 1)

def dictScan (d : Dict K V) (v : BitVec 64) : List (DictEntry K V) × BitVec 64 :=
  if dictSize d = 0 then ([], 0)
  else if !dictIsRehashing d then
    let m0 := d.ht0.mask64
    (d.ht0.table (v &&& m0).toNat, nextCursor m0 v)
  else
    let t0 := (scanTables d).1
    let t1 := (scanTables d).2
    let passed := t0.table (v &&& t0.mask64).toNat
    -- the loop counts the bits of `m0 ^ m1` up to 0, in fewer than `t1.size` iterations
    let r := scanExpansions t1 t0.mask64 t1.mask64 t1.size v
    (passed ++ r.1, nextCursor t0.mask64 r.2)

/-! ## Scans -/

/-- The state of a scan: the cursor for the next call, what the callback got so far, and whether a
call has returned 0. -/
structure ScanRun (K V : Type) where
  run : DictRun K V
  cursor : BitVec 64
  passed : List (DictEntry K V)
  done : Bool

inductive ScanAct (K V : Type) where
  | op (a : Bool × DictOp K V)
  | scan

def scanStart (s : DictRun K V) : ScanRun K V :=
  { run := s, cursor := 0, passed := [], done := false }

/-- A `dictScan` call with the current cursor, or an operation between two calls. Nothing more is
scanned after a call has returned 0. -/
def scanStep [DecidableEq K] (hash : K → UInt32) (s : ScanRun K V) : ScanAct K V → ScanRun K V
  | .op a => { s with run := (dictStep hash s.run a).1 }
  | .scan =>
    if s.done then s
    else
      let r := dictScan s.run.dict s.cursor
      { s with cursor := r.2, passed := s.passed ++ r.1, done := r.2 == 0 }

end RedisCluster
