import Mathlib.Data.Prod.Lex
import RedisCluster.Sort.Sort

/-!
# What decides the order of SORT

The comparison of `sortCompare` is that of keys: the score and then the string, the string, or the weight
alone. A result of `qsort` or `pqsort`, as byte strings, is the same as the elements sorted by their
keys.
-/

namespace RedisCluster.Sort

open RedisCluster.Util RedisCluster.Sets RedisCluster.Lib

variable {S : Type} [LinearOrder S]

theorem natKey_injective : Function.Injective natKey :=
  List.map_injective_iff.mpr fun _ _ h => UInt8.toNat_inj.mp h

theorem compareStringObjects_cons (a b : UInt8) (as bs : Bytes) :
    compareStringObjects (a :: as) (b :: bs) =
      if a.toNat < b.toNat then .lt else if b.toNat < a.toNat then .gt else compareStringObjects as bs := by
  unfold compareStringObjects
  simp only [List.length_cons, Nat.add_min_add_right, List.take_succ_cons, memcmp,
    Nat.add_lt_add_iff_right]
  by_cases hlt : a.toNat < b.toNat
  · rw [if_pos hlt, if_pos hlt]
  · rw [if_neg hlt, if_neg hlt]
    by_cases hgt : b.toNat < a.toNat
    · rw [if_pos hgt, if_pos hgt]
    · rw [if_neg hgt, if_neg hgt]

theorem compareStringObjects_iff (a b : Bytes) :
    (compareStringObjects a b = .lt ↔ natKey a < natKey b) ∧
      (compareStringObjects a b = .gt ↔ natKey b < natKey a) := by
  induction a generalizing b with
  | nil =>
    cases b with
    | nil => exact ⟨by decide, by decide⟩
    | cons b bs =>
      have hlt : compareStringObjects [] (b :: bs) = .lt := rfl
      rw [hlt]
      refine ⟨⟨fun _ => ?_, fun _ => rfl⟩, ⟨nofun, fun h => ?_⟩⟩
      · exact List.nil_lt_cons _ _
      · exact absurd h (List.not_lt_nil _)
  | cons a as ih =>
    cases b with
    | nil =>
      have hgt : compareStringObjects (a :: as) [] = .gt := rfl
      rw [hgt]
      refine ⟨⟨nofun, fun h => ?_⟩, ⟨fun _ => ?_, fun _ => rfl⟩⟩
      · exact absurd h (List.not_lt_nil _)
      · exact List.nil_lt_cons _ _
    | cons b bs =>
      obtain ⟨ihlt, ihgt⟩ := ih bs
      have hcons : ∀ (x y : UInt8) (xs ys : Bytes),
          natKey (x :: xs) < natKey (y :: ys) ↔
            x.toNat < y.toNat ∨ x.toNat = y.toNat ∧ natKey xs < natKey ys :=
        fun x y xs ys => List.cons_lt_cons_iff
      rw [compareStringObjects_cons, hcons, hcons]
      rcases lt_trichotomy a.toNat b.toNat with h | h | h
      · rw [if_pos h]
        exact ⟨⟨fun _ => Or.inl h, fun _ => rfl⟩,
          ⟨nofun, by rintro (h' | ⟨h', -⟩) <;> omega⟩⟩
      · rw [if_neg (by omega), if_neg (by omega), ihlt, ihgt]
        exact ⟨⟨fun h' => Or.inr ⟨h, h'⟩, by rintro (h' | ⟨-, h'⟩); exacts [by omega, h']⟩,
          ⟨fun h' => Or.inr ⟨h.symm, h'⟩, by rintro (h' | ⟨-, h'⟩); exacts [by omega, h']⟩⟩
      · rw [if_neg (by omega), if_pos h]
        exact ⟨⟨nofun, by rintro (h' | ⟨h', -⟩) <;> omega⟩, ⟨fun _ => Or.inl h, fun _ => rfl⟩⟩

section Keys

variable {κ : Type} [LinearOrder κ]

def ComparedBy (key : SortObject S → κ) (c : SortObject S → SortObject S → Ordering) : Prop :=
  ∀ x y, (c x y = .lt ↔ key x < key y) ∧ (c x y = .gt ↔ key y < key x)

omit [LinearOrder S] in
theorem ComparedBy.not_gt {key : SortObject S → κ} {c : SortObject S → SortObject S → Ordering}
    (h : ComparedBy key c) (x y : SortObject S) : c x y ≠ .gt ↔ key x ≤ key y := by
  rw [ne_eq, (h x y).2, not_lt]

omit [LinearOrder S] in
theorem ComparedBy.swap {key : SortObject S → κ} {c : SortObject S → SortObject S → Ordering}
    (h : ComparedBy key c) :
    ComparedBy (fun x => OrderDual.toDual (key x)) fun x y => (c x y).swap := by
  intro x y
  obtain ⟨hlt, hgt⟩ := h x y
  constructor
  · rw [OrderDual.toDual_lt_toDual, ← hgt]
    exact Ordering.swap_eq_lt
  · rw [OrderDual.toDual_lt_toDual, ← hlt]
    exact Ordering.swap_eq_gt

end Keys

theorem sortCompare_numeric (bypattern : Bool) :
    ComparedBy (fun so : SortObject S => toLex (so.score, natKey (getDecodedObject so.obj)))
      (sortCompare false false bypattern) := by
  intro x y
  obtain ⟨hlt, hgt⟩ := compareStringObjects_iff (getDecodedObject x.obj) (getDecodedObject y.obj)
  rw [Prod.Lex.toLex_lt_toLex, Prod.Lex.toLex_lt_toLex]
  unfold sortCompare
  simp only [Bool.not_false, if_true, Bool.false_eq_true, if_false, gt_iff_lt]
  rcases lt_trichotomy x.score y.score with h | h | h
  · rw [if_neg h.not_gt, if_pos h]
    exact ⟨⟨fun _ => Or.inl h, fun _ => rfl⟩,
      ⟨nofun, by rintro (h' | ⟨h', -⟩); exacts [absurd h' h.not_gt, absurd h'.symm h.ne]⟩⟩
  · rw [if_neg (by rw [h]; exact lt_irrefl _), if_neg (by rw [h]; exact lt_irrefl _), hlt, hgt]
    exact ⟨⟨fun h' => Or.inr ⟨h, h'⟩, by rintro (h' | ⟨-, h'⟩); exacts [absurd h h'.ne, h']⟩,
      ⟨fun h' => Or.inr ⟨h.symm, h'⟩, by rintro (h' | ⟨-, h'⟩); exacts [absurd h.symm h'.ne, h']⟩⟩
  · rw [if_pos h]
    exact ⟨⟨nofun, by rintro (h' | ⟨h', -⟩); exacts [absurd h' h.not_gt, absurd h'.symm h.ne]⟩,
      ⟨fun _ => Or.inl h, fun _ => rfl⟩⟩

theorem sortCompare_alpha :
    ComparedBy (fun so : SortObject S => natKey (getDecodedObject so.obj))
      (sortCompare false true false) := fun x y =>
  compareStringObjects_iff (getDecodedObject x.obj) (getDecodedObject y.obj)

theorem sortCompare_weight :
    ComparedBy (fun so : SortObject S => weightKey so.cmpobj) (sortCompare false true true) := by
  intro x y
  unfold sortCompare
  simp only [Bool.not_true, Bool.false_eq_true, if_false, if_true]
  cases x.cmpobj with
  | none =>
    cases y.cmpobj with
    | none => exact ⟨⟨nofun, fun h => absurd h (lt_irrefl _)⟩, ⟨nofun, fun h => absurd h (lt_irrefl _)⟩⟩
    | some b =>
      exact ⟨⟨fun _ => WithBot.bot_lt_coe _, fun _ => rfl⟩, ⟨nofun, fun h => absurd h not_lt_bot⟩⟩
  | some a =>
    cases y.cmpobj with
    | none =>
      exact ⟨⟨nofun, fun h => absurd h not_lt_bot⟩, ⟨fun _ => WithBot.bot_lt_coe _, fun _ => rfl⟩⟩
    | some b =>
      obtain ⟨hlt, hgt⟩ := compareStringObjects_iff a b
      exact ⟨hlt.trans WithBot.coe_lt_coe.symm, hgt.trans WithBot.coe_lt_coe.symm⟩

theorem exists_perm_of_map {α β : Type} {f : α → β} {v : List α} {q : List β} (h : q.Perm (v.map f)) :
    ∃ p : List α, p.Perm v ∧ p.map f = q := by
  have hcomp : Relation.Comp (fun x y => x = List.map f y) (fun x y => x.Perm y) q v := by
    rw [List.eq_map_comp_perm]
    exact h
  obtain ⟨p, hq, hp⟩ := hcomp
  exact ⟨p, hp, hq.symm⟩

def SortObject.text (so : SortObject S) : Bytes := getDecodedObject so.obj

theorem sliceOutput_map {α β γ : Type} (g : α → β) (f : β → List γ) (a n : Nat) (p : List α) :
    sliceOutput f a n (p.map g) = sliceOutput (fun x => f (g x)) a n p := by
  unfold sliceOutput
  rw [← List.map_drop, ← List.map_take, List.flatMap_map]

theorem limits_start (a : SortOptions) (vectorlen : Int) :
    0 ≤ (limits a vectorlen).1 ∨ (limits a vectorlen).2 - (limits a vectorlen).1 + 1 ≤ 0 := by
  have hstart : 0 ≤ if a.limit_start < 0 then 0 else a.limit_start := by
    split
    · exact le_refl 0
    · omega
  unfold limits
  generalize (if a.limit_start < 0 then 0 else a.limit_start) = start at hstart ⊢
  dsimp only
  generalize (if a.limit_count < 0 then vectorlen - 1 else Aof.toLongLong (start + a.limit_count - 1)) =
    stop
  by_cases hlen : start ≥ vectorlen
  · rw [if_pos hlen]
    right
    dsimp only
    omega
  · rw [if_neg hlen]
    left
    by_cases hstop : stop ≥ vectorlen
    · rw [if_pos hstop]
      exact hstart
    · rw [if_neg hstop]
      exact hstart

section Results

variable {κ : Type} [LinearOrder κ]

def SortTask.By (t : SortTask S) (key : Bytes → κ) : Prop :=
  ∀ x ∈ t.vector, ∀ y ∈ t.vector, t.compar x y ≠ .gt ↔ key x.text ≤ key y.text

theorem QsortResult.sortedBy {t : SortTask S} {key : Bytes → κ} (hkey : t.By key)
    {p : List (SortObject S)} (hp : QsortResult t.compar t.vector p) :
    SortedBy key (t.vector.map SortObject.text) (p.map SortObject.text) where
  perm := hp.1.map _
  sorted := by
    rw [List.pairwise_map]
    refine hp.2.imp_of_mem fun {x y} hx hy hxy => ?_
    exact (hkey x (hp.1.mem_iff.mp hx) y (hp.1.mem_iff.mp hy)).mp hxy

theorem qsortResult_of_sortedBy {t : SortTask S} {key : Bytes → κ} (hkey : t.By key) {q : List Bytes}
    (hq : SortedBy key (t.vector.map SortObject.text) q) :
    ∃ p, QsortResult t.compar t.vector p ∧ p.map SortObject.text = q := by
  obtain ⟨p, hperm, hmap⟩ := exists_perm_of_map hq.perm
  refine ⟨p, ⟨hperm, ?_⟩, hmap⟩
  have hsorted := hq.sorted
  rw [← hmap, List.pairwise_map] at hsorted
  refine hsorted.imp_of_mem fun {x y} hx hy hxy => ?_
  exact (hkey x (hperm.mem_iff.mp hx) y (hperm.mem_iff.mp hy)).mpr hxy

theorem SortTask.Sorted.slice {t : SortTask S} {key : Bytes → κ} (hkey : t.By key)
    (hsort : t.dontsort = false) (hstart : 0 ≤ t.start ∨ t.stop - t.start + 1 ≤ 0)
    (f : Bytes → List Bytes) {p : List (SortObject S)} (hp : t.Sorted p) :
    ∃ q, SortedBy key (t.vector.map SortObject.text) q ∧
      sliceOutput (fun so : SortObject S => f so.text) t.start.toNat (t.stop - t.start + 1).toNat p =
        sliceOutput f t.start.toNat (t.stop - t.start + 1).toNat q := by
  unfold SortTask.Sorted at hp
  rw [hsort, if_neg (by decide)] at hp
  split at hp
  · obtain ⟨hperm, q, hq, heq⟩ := hp
    refine ⟨q.map SortObject.text, hq.sortedBy hkey, ?_⟩
    rw [sliceOutput_map]
    unfold sliceOutput
    rw [List.flatMap_def, List.flatMap_def,
      slice_map_eq (hperm.length_eq.trans hq.1.length_eq.symm) fun i x y hlow hhigh hx hy => ?_]
    rw [heq i (by omega) (by omega), hy] at hx
    cases hx
    rfl
  · exact ⟨p.map SortObject.text, hp.sortedBy hkey, (sliceOutput_map _ _ _ _ _).symm⟩

theorem SortTask.exists_sorted {t : SortTask S} {key : Bytes → κ} (hkey : t.By key)
    (hsort : t.dontsort = false) {q : List Bytes}
    (hq : SortedBy key (t.vector.map SortObject.text) q) :
    ∃ p, t.Sorted p ∧ p.map SortObject.text = q := by
  obtain ⟨p, hp, hmap⟩ := qsortResult_of_sortedBy hkey hq
  refine ⟨p, ?_, hmap⟩
  unfold SortTask.Sorted
  rw [hsort, if_neg (by decide)]
  split
  · exact ⟨hp.1, p, hp, fun _ _ _ => rfl⟩
  · exact hp

end Results

end RedisCluster.Sort
