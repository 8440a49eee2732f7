import Mathlib.Data.UInt

/-!
# A heap block of bytes

A block has a size and, at each place, a byte or nothing if nothing was written there yet. An access
outside the block, or a read of a byte that was never written, has no result (`none`): in C it is
undefined behaviour. The lemmas say which reads see which writes.
-/

namespace RedisCluster.Lib

structure Block where
  size : Nat
  byte : Nat → Option UInt8

namespace Block

def alloc (n : Nat) : Block := { size := n, byte := fun _ => none }

/-- The common part of the old and the new block keeps its bytes. -/
def realloc (b : Block) (n : Nat) : Block :=
  { size := n, byte := fun i => if i < b.size ∧ i < n then b.byte i else none }

/-- The byte at place `i`, if it can be read. -/
def get (b : Block) (i : Nat) : Option UInt8 := if i < b.size then b.byte i else none

def load (b : Block) (off : Nat) : Nat → Option (List UInt8)
  | 0 => some []
  | n + 1 => do
    let x ← b.get off
    let xs ← b.load (off + 1) n
    return x :: xs

def store (b : Block) (off : Nat) (bs : List UInt8) : Option Block :=
  if off + bs.length ≤ b.size then
    some { b with byte := fun i => if off ≤ i ∧ i < off + bs.length then bs[i - off]? else b.byte i }
  else none

/-- Copy `n` bytes from `src` to `dst`; the areas may overlap. -/
def memmove (b : Block) (dst src n : Nat) : Option Block :=
  if src + n ≤ b.size ∧ dst + n ≤ b.size then
    some { b with byte := fun i => if dst ≤ i ∧ i < dst + n then b.byte (src + (i - dst)) else b.byte i }
  else none

@[simp] theorem size_realloc (b : Block) (n : Nat) : (b.realloc n).size = n := rfl

theorem load_eq_some_iff {b : Block} {off n : Nat} {bs : List UInt8} :
    b.load off n = some bs ↔ bs.length = n ∧ ∀ i < n, b.get (off + i) = bs[i]? := by
  induction n generalizing off bs with
  | zero =>
    simp only [load, Option.some.injEq, List.length_eq_zero_iff]
    constructor
    · rintro rfl
      exact ⟨rfl, fun i hi => absurd hi (by omega)⟩
    · rintro ⟨h, -⟩
      exact h.symm
  | succ n ih =>
    simp only [load, Option.bind_eq_bind, Option.pure_def, Option.bind_eq_some_iff,
      Option.some.injEq]
    constructor
    · rintro ⟨x, hx, xs, hxs, rfl⟩
      obtain ⟨h1, h2⟩ := ih.mp hxs
      refine ⟨by rw [List.length_cons, h1], fun i hi => ?_⟩
      cases i with
      | zero => simpa using hx
      | succ i =>
        rw [List.getElem?_cons_succ, ← h2 i (by omega)]
        congr 1
        omega
    · rintro ⟨h1, h2⟩
      cases bs with
      | nil => simp at h1
      | cons x xs =>
        refine ⟨x, by simpa using h2 0 (by omega), xs, ih.mpr ⟨by simpa using h1, ?_⟩, rfl⟩
        intro i hi
        have h3 := h2 (i + 1) (by omega)
        rw [List.getElem?_cons_succ] at h3
        rw [← h3]
        congr 1
        omega

theorem load_congr {b b' : Block} {off off' n : Nat}
    (h : ∀ i < n, b'.get (off' + i) = b.get (off + i)) : b'.load off' n = b.load off n := by
  induction n generalizing off off' with
  | zero => rfl
  | succ n ih =>
    have h0 := h 0 (by omega)
    have h1 : b'.load (off' + 1) n = b.load (off + 1) n := by
      apply ih
      intro i hi
      have h2 := h (i + 1) (by omega)
      rwa [show off' + (i + 1) = off' + 1 + i by omega,
        show off + (i + 1) = off + 1 + i by omega] at h2
    simp only [Nat.add_zero] at h0
    simp only [load, h0, h1]

theorem store_isSome {b : Block} {off : Nat} {bs : List UInt8} (h : off + bs.length ≤ b.size) :
    ∃ b', b.store off bs = some b' := ⟨_, if_pos h⟩

theorem store_size {b b' : Block} {off : Nat} {bs : List UInt8} (h : b.store off bs = some b') :
    b'.size = b.size := by
  unfold store at h
  split at h
  · simp only [Option.some.injEq] at h
    rw [← h]
  · simp at h

theorem get_store {b b' : Block} {off : Nat} {bs : List UInt8} (h : b.store off bs = some b')
    (i : Nat) :
    b'.get i = if off ≤ i ∧ i < off + bs.length then bs[i - off]? else b.get i := by
  unfold store at h
  split at h
  · rename_i hle
    simp only [Option.some.injEq] at h
    subst h
    unfold get
    by_cases hin : off ≤ i ∧ i < off + bs.length
    · simp [hin, show i < b.size by omega]
    · simp [hin]
  · simp at h

theorem load_store {b b' : Block} {off : Nat} {bs : List UInt8} (h : b.store off bs = some b') :
    b'.load off bs.length = some bs := by
  rw [load_eq_some_iff]
  refine ⟨rfl, fun i hi => ?_⟩
  rw [get_store h, if_pos (by omega)]
  congr 1
  omega

theorem load_store_of_disjoint {b b' : Block} {off : Nat} {bs : List UInt8}
    (h : b.store off bs = some b') {off' n : Nat}
    (hd : off' + n ≤ off ∨ off + bs.length ≤ off') : b'.load off' n = b.load off' n := by
  apply load_congr
  intro i hi
  rw [get_store h, if_neg (by omega)]

theorem memmove_isSome {b : Block} {dst src n : Nat} (hs : src + n ≤ b.size)
    (hd : dst + n ≤ b.size) : ∃ b', b.memmove dst src n = some b' := ⟨_, if_pos ⟨hs, hd⟩⟩

theorem memmove_size {b b' : Block} {dst src n : Nat} (h : b.memmove dst src n = some b') :
    b'.size = b.size := by
  unfold memmove at h
  split at h
  · simp only [Option.some.injEq] at h
    rw [← h]
  · simp at h

theorem get_memmove {b b' : Block} {dst src n : Nat} (h : b.memmove dst src n = some b') (i : Nat) :
    b'.get i = if dst ≤ i ∧ i < dst + n then b.get (src + (i - dst)) else b.get i := by
  unfold memmove at h
  split at h
  · simp only [Option.some.injEq] at h
    subst h
    unfold get
    by_cases hin : dst ≤ i ∧ i < dst + n
    · simp [hin, show i < b.size by omega, show src + (i - dst) < b.size by omega]
    · simp [hin]
  · simp at h

theorem load_memmove {b b' : Block} {dst src n : Nat} (h : b.memmove dst src n = some b')
    {k m : Nat} (hk : k + m ≤ n) : b'.load (dst + k) m = b.load (src + k) m := by
  apply load_congr
  intro i hi
  rw [get_memmove h, if_pos (by omega)]
  congr 1
  omega

theorem load_memmove_of_disjoint {b b' : Block} {dst src n : Nat}
    (h : b.memmove dst src n = some b') {off m : Nat} (hd : off + m ≤ dst ∨ dst + n ≤ off) :
    b'.load off m = b.load off m := by
  apply load_congr
  intro i hi
  rw [get_memmove h, if_neg (by omega)]

theorem get_realloc {b : Block} {n i : Nat} (hi : i < n) : (b.realloc n).get i = b.get i := by
  unfold get realloc
  by_cases hb : i < b.size <;> simp [hi, hb]

theorem load_realloc {b : Block} {n off m : Nat} (h : off + m ≤ n) :
    (b.realloc n).load off m = b.load off m := by
  apply load_congr
  intro i hi
  exact get_realloc (by omega)

end Block

end RedisCluster.Lib
