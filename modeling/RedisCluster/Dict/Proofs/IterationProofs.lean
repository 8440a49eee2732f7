import RedisCluster.Dict.DictRun
import RedisCluster.Dict.Proofs.OpsProofs

/-!
# An iteration with a safe iterator: proofs

The running iterator stops every rehash step, so no entry moves. New entries go in front of their chain, behind the
place of the iterator or in front of it, and a rehash that begins only brings an empty second table.
-/

open scoped List

namespace RedisCluster

open RedisCluster.Lib

/-! ## What is still to come -/

section

variable {K V : Type}

def Dictht.keysAt (t : Dictht K V) (i : Nat) : List K := (t.table i).map DictEntry.key

def Dictht.keysFrom (t : Dictht K V) (i : Nat) : List K := (List.range' i (t.size - i)).flatMap t.keysAt

theorem keysFrom_of_le {t : Dictht K V} {i : Nat} (h : t.size ≤ i) : t.keysFrom i = [] := by
  rw [Dictht.keysFrom, Nat.sub_eq_zero_of_le h]
  rfl

theorem keysFrom_of_lt {t : Dictht K V} {i : Nat} (h : i < t.size) :
    t.keysFrom i = t.keysAt i ++ t.keysFrom (i + 1) := by
  have hsub : t.size - i = (t.size - (i + 1)) + 1 := by omega
  rw [Dictht.keysFrom, hsub, List.range'_succ, List.flatMap_cons]
  rfl

theorem keysFrom_zero (t : Dictht K V) : t.keysFrom 0 = t.entries.map DictEntry.key := by
  rw [Dictht.keysFrom, Nat.sub_zero, ← List.range_eq_range', Dictht.entries, contents, List.map_flatMap]
  rfl

theorem Dict.keys_eq (d : Dict K V) : d.keys = d.entries.map DictEntry.key := rfl

def iterTable (d : Dict K V) (it : DictIterator K V) : Dictht K V := if it.table = 0 then d.ht0 else d.ht1

def bucketsAhead (d : Dict K V) (it : DictIterator K V) : List K :=
  (iterTable d it).keysFrom (it.index + 1).toNat ++
    if it.table = 0 ∧ dictIsRehashing d = true then d.ht1.keysFrom 0 else []

def ahead (d : Dict K V) (it : DictIterator K V) : List K := it.nextEntry.map DictEntry.key ++ bucketsAhead d it

def IterationFits (d : Dict K V) : Prop := d.ht0.size < 2 ^ 31 ∧ d.ht1.size < 2 ^ 31

instance (d : Dict K V) : Decidable (IterationFits d) := inferInstanceAs (Decidable (_ ∧ _))

variable {hash : K → UInt32} {d : Dict K V}

/-- The place of an iterator. -/
structure Placed (d : Dict K V) (it : DictIterator K V) : Prop where
  index : -1 ≤ it.index
  table : it.table = 0 ∨ (it.table = 1 ∧ dictIsRehashing d = true)

def bucketsLeft (d : Dict K V) (it : DictIterator K V) : Nat :=
  (iterTable d it).size - (it.index + 1).toNat + if it.table = 0 then d.ht1.size else 0

def NextFound (d : Dict K V) (it it' : DictIterator K V) : Prop :=
  (it'.entry = none ∧ it'.nextEntry = [] ∧ bucketsAhead d it = []) ∨
    ∃ e es, it'.entry = some e ∧ it'.nextEntry = es ∧ 0 ≤ it'.index ∧ Placed d it' ∧
      (iterTable d it').table it'.index.toNat = e :: es ∧ it'.index.toNat < (iterTable d it').size ∧
      bucketsAhead d it = e.key :: es.map DictEntry.key ++ bucketsAhead d it'

theorem bucketsAhead_over {it : DictIterator K V} (htable : it.table = 0) (hr : dictIsRehashing d = true)
    (hend : d.ht0.size ≤ (it.index + 1).toNat) : bucketsAhead d it = d.ht1.keysFrom 0 := by
  have hht : iterTable d it = d.ht0 := if_pos htable
  rw [bucketsAhead, hht, keysFrom_of_le hend, if_pos ⟨htable, hr⟩, List.nil_append]

theorem nextBucket_spec (hwf : DictWF hash d) (hfits : IterationFits d) (fuel : Nat) (it : DictIterator K V)
    (hplaced : Placed d it) (hfuel : bucketsLeft d it < fuel) : NextFound d it (nextBucket d fuel it) := by
  induction fuel generalizing it with
  | zero => exact absurd hfuel (Nat.not_lt_zero _)
  | succ fuel ih =>
    have hindex := hplaced.index
    have hsize : toInt32 (iterTable d it).size = (iterTable d it).size := by
      refine toInt32_of_lt ?_
      rw [iterTable]
      split
      · exact hfits.1
      · exact hfits.2
    rw [nextBucket, ← iterTable, hsize]
    by_cases hend : it.index + 1 ≥ ((iterTable d it).size : Int)
    · have hend' : (iterTable d it).size ≤ (it.index + 1).toNat := by omega
      rw [if_pos hend]
      by_cases hnext : it.table = 0 ∧ dictIsRehashing d = true
      · obtain ⟨htable, hr⟩ := hnext
        have hht : iterTable d it = d.ht0 := if_pos htable
        have hpos : 0 < d.ht1.size := (hwf.active ((dictIsRehashing_iff d).mp hr)).2.2.1
        have hahead := bucketsAhead_over htable hr (hht ▸ hend')
        rw [keysFrom_of_lt hpos] at hahead
        rw [if_pos (by simp [htable, hr])]
        cases hchain : d.ht1.table 0 with
        | nil =>
          have hplaced' : Placed d { it with index := 0, table := 1 } := ⟨show (-1 : Int) ≤ 0 by decide, .inr ⟨rfl, hr⟩⟩
          have hleft : bucketsLeft d { it with index := 0, table := 1 } < fuel := by
            rw [bucketsLeft, hht, htable, if_pos rfl] at hfuel
            show d.ht1.size - 1 + 0 < fuel
            omega
          have hsame : bucketsAhead d it = bucketsAhead d { it with index := 0, table := 1 } := by
            rw [hahead, Dictht.keysAt, hchain]
            exact (List.append_nil _).symm
          rw [NextFound, hsame]
          exact ih _ hplaced' hleft
        | cons e es =>
          refine .inr ⟨e, es, rfl, rfl, le_rfl, ⟨show (-1 : Int) ≤ 0 by decide, .inr ⟨rfl, hr⟩⟩, hchain, hpos, ?_⟩
          rw [hahead, Dictht.keysAt, hchain]
          show _ = _ ++ (d.ht1.keysFrom 1 ++ [])
          rw [List.append_nil]
          rfl
      · rw [if_neg (by simpa [and_comm] using hnext)]
        refine .inl ⟨rfl, rfl, ?_⟩
        rw [bucketsAhead, keysFrom_of_le hend', if_neg hnext, List.append_nil]
    · have hlt : (it.index + 1).toNat < (iterTable d it).size := by omega
      rw [if_neg hend]
      cases hchain : (iterTable d it).table (it.index + 1).toNat with
      | nil =>
        have hplaced' : Placed d { it with index := it.index + 1 } := ⟨by dsimp only; omega, hplaced.table⟩
        have hleft : bucketsLeft d { it with index := it.index + 1 } < fuel := by
          have hleft' : bucketsLeft d { it with index := it.index + 1 } =
              (iterTable d it).size - (it.index + 1 + 1).toNat + if it.table = 0 then d.ht1.size else 0 := rfl
          rw [bucketsLeft] at hfuel
          omega
        have hsame : bucketsAhead d it = bucketsAhead d { it with index := it.index + 1 } := by
          have hsucc : (it.index + 1 + 1).toNat = (it.index + 1).toNat + 1 := by omega
          rw [bucketsAhead, keysFrom_of_lt hlt, Dictht.keysAt, hchain, ← hsucc]
          rfl
        rw [NextFound, hsame]
        exact ih _ hplaced' hleft
      | cons e es =>
        have hsucc : (it.index + 1 + 1).toNat = (it.index + 1).toNat + 1 := by omega
        refine .inr ⟨e, es, rfl, rfl, by dsimp only; omega, ⟨by dsimp only; omega, hplaced.table⟩, hchain, hlt, ?_⟩
        rw [bucketsAhead, keysFrom_of_lt hlt, Dictht.keysAt, hchain, ← hsucc, List.map_cons, List.append_assoc]
        rfl

/-! ## What the caller does -/

section

variable {d d' d'' : Dict K V}

/-- `d'` is `d` with a second table, perhaps, and new keys in front of some chains. -/
structure Extended (new : K → Prop) (d d' : Dict K V) : Prop where
  size0 : d'.ht0.size = d.ht0.size
  active : dictIsRehashing d = true → dictIsRehashing d' = true ∧ d'.ht1.size = d.ht1.size
  chain0 : ∀ i, ∃ front, d'.ht0.keysAt i = front ++ d.ht0.keysAt i ∧ ∀ k ∈ front, new k
  chain1 : ∀ i, ∃ front, d'.ht1.keysAt i = front ++ d.ht1.keysAt i ∧ ∀ k ∈ front, new k
  iterators : d'.iterators = d.iterators

theorem Extended.refl (new : K → Prop) (d : Dict K V) : Extended new d d :=
  { size0 := rfl
    active := fun h => ⟨h, rfl⟩
    chain0 := fun _ => ⟨[], rfl, fun _ hk => absurd hk List.not_mem_nil⟩
    chain1 := fun _ => ⟨[], rfl, fun _ hk => absurd hk List.not_mem_nil⟩
    iterators := rfl }

theorem Extended.trans {new : K → Prop} (h : Extended new d d') (h' : Extended new d' d'') : Extended new d d'' := by
  have hchain : ∀ {t t' t'' : Dictht K V} {i : Nat},
      (∃ front, t'.keysAt i = front ++ t.keysAt i ∧ ∀ k ∈ front, new k) →
      (∃ front, t''.keysAt i = front ++ t'.keysAt i ∧ ∀ k ∈ front, new k) →
      ∃ front, t''.keysAt i = front ++ t.keysAt i ∧ ∀ k ∈ front, new k := by
    rintro t t' t'' i ⟨a, ha, hnew⟩ ⟨b, hb, hnew'⟩
    refine ⟨b ++ a, by rw [hb, ha, List.append_assoc], fun k hk => ?_⟩
    rcases List.mem_append.mp hk with hk | hk
    · exact hnew' k hk
    · exact hnew k hk
  exact
    { size0 := h'.size0.trans h.size0
      active := fun hr => by
        obtain ⟨hr', hsize⟩ := h.active hr
        obtain ⟨hr'', hsize'⟩ := h'.active hr'
        exact ⟨hr'', hsize'.trans hsize⟩
      chain0 := fun i => hchain (h.chain0 i) (h'.chain0 i)
      chain1 := fun i => hchain (h.chain1 i) (h'.chain1 i)
      iterators := h'.iterators.trans h.iterators }

theorem filter_keysFrom {new : K → Prop} {p : K → Bool} (hp : ∀ k, new k → p k = false) {t t' : Dictht K V}
    (hsize : t'.size = t.size) (hchain : ∀ i, ∃ front, t'.keysAt i = front ++ t.keysAt i ∧ ∀ k ∈ front, new k)
    (i : Nat) : (t'.keysFrom i).filter p = (t.keysFrom i).filter p := by
  rw [Dictht.keysFrom, Dictht.keysFrom, hsize, List.filter_flatMap, List.filter_flatMap]
  refine List.flatMap_congr fun j _ => ?_
  obtain ⟨front, hfront, hnew⟩ := hchain j
  have hnone : front.filter p = [] := List.filter_eq_nil_iff.mpr fun k hk => by
    rw [hp k (hnew k hk)]
    exact Bool.false_ne_true
  show (t'.keysAt j).filter p = (t.keysAt j).filter p
  rw [hfront, List.filter_append, hnone, List.nil_append]

theorem Extended.bucketsAhead {new : K → Prop} {p : K → Bool} (hp : ∀ k, new k → p k = false) (hwf : DictWF hash d)
    (h : Extended new d d') {it : DictIterator K V} (hplaced : Placed d it) :
    (bucketsAhead d' it).filter p = (bucketsAhead d it).filter p := by
  unfold RedisCluster.bucketsAhead
  rw [List.filter_append, List.filter_append]
  rcases hplaced.table with htable | ⟨htable, hr⟩
  · have hfirst : ∀ d : Dict K V, iterTable d it = d.ht0 := fun d => if_pos htable
    rw [hfirst, hfirst, filter_keysFrom hp h.size0 h.chain0]
    congr 1
    cases hr : dictIsRehashing d with
    | true =>
      obtain ⟨hr', hsize⟩ := h.active hr
      rw [if_pos ⟨htable, hr'⟩, if_pos ⟨htable, rfl⟩, filter_keysFrom hp hsize h.chain1]
    | false =>
      have hempty : ∀ i, d.ht1.keysAt i = [] := fun i => by
        rw [hwf.idle ((dictIsRehashing_false_iff d).mp hr)]
        rfl
      have hnone : (d'.ht1.keysFrom 0).filter p = [] := by
        rw [List.filter_eq_nil_iff]
        intro k hk
        obtain ⟨i, -, hi⟩ := List.mem_flatMap.mp hk
        obtain ⟨front, hfront, hnew⟩ := h.chain1 i
        rw [hfront, hempty, List.append_nil] at hi
        rw [hp k (hnew k hi)]
        exact Bool.false_ne_true
      rw [if_neg (show ¬ (it.table = 0 ∧ false = true) from fun hc => Bool.false_ne_true hc.2)]
      split
      · exact hnone
      · rfl
  · have hsecond : ∀ d : Dict K V, iterTable d it = d.ht1 := fun d => if_neg (by rw [htable]; decide)
    obtain ⟨-, hsize⟩ := h.active hr
    have hnot : ∀ d : Dict K V, ¬ (it.table = 0 ∧ dictIsRehashing d = true) := fun d hc => by
      rw [htable] at hc
      exact absurd hc.1 (by decide)
    rw [hsecond, hsecond, filter_keysFrom hp hsize h.chain1, if_neg (hnot d'), if_neg (hnot d)]

theorem Extended.placed {new : K → Prop} (h : Extended new d d') {it : DictIterator K V} (hplaced : Placed d it) :
    Placed d' it :=
  ⟨hplaced.index, hplaced.table.imp id fun hc => ⟨hc.1, (h.active hc.2).1⟩⟩

end

theorem Extended.chain {new : K → Prop} {d' : Dict K V} (h : Extended new d d') (it : DictIterator K V) (i : Nat) :
    ∃ front, (iterTable d' it).keysAt i = front ++ (iterTable d it).keysAt i ∧ ∀ k ∈ front, new k := by
  unfold iterTable
  split
  · exact h.chain0 i
  · exact h.chain1 i

theorem rehashStep_frozen (hash : K → UInt32) (h : 0 < d.iterators) : rehashStepIfNeeded hash d = d := by
  have hstep : _dictRehashStep hash d = d := if_neg (by omega)
  rw [rehashStepIfNeeded, hstep, ite_self]

theorem dictExpand_extended (new : K → Prop) (hwf : DictWF hash d) (hsize : d.ht0.size ≠ 0) (size : Nat) :
    Extended new d (dictExpand d size).1 := by
  unfold dictExpand
  dsimp only
  split_ifs with hbusy
  · exact Extended.refl new d
  · have hr : dictIsRehashing d = false := by
      simp only [Bool.or_eq_true, not_or] at hbusy
      simpa using hbusy.1
    refine
      { size0 := rfl
        active := fun hr' => absurd (hr.symm.trans hr') Bool.false_ne_true
        chain0 := fun i => ⟨[], rfl, fun _ hk => absurd hk List.not_mem_nil⟩
        chain1 := fun i => ⟨[], ?_, fun _ hk => absurd hk List.not_mem_nil⟩
        iterators := rfl }
    rw [hwf.idle ((dictIsRehashing_false_iff d).mp hr)]
    rfl

theorem expandIfNeeded_extended (new : K → Prop) (hwf : DictWF hash d) (hsize : d.ht0.size ≠ 0) (canResize : Bool) :
    Extended new d (_dictExpandIfNeeded canResize d).1 := by
  unfold _dictExpandIfNeeded
  split
  · exact Extended.refl new d
  · exact dictExpand_extended new hwf hsize _

theorem keysAt_push (t : Dictht K V) (h : Nat) (de : DictEntry K V) (i : Nat) :
    ∃ front, (t.push h de).keysAt i = front ++ t.keysAt i ∧ ∀ k ∈ front, k = de.key := by
  by_cases hi : i = h
  · subst hi
    refine ⟨[de.key], ?_, fun k hk => List.mem_singleton.mp hk⟩
    simp only [Dictht.keysAt, Dictht.push, Function.update_self]
    rfl
  · refine ⟨[], ?_, fun _ hk => absurd hk List.not_mem_nil⟩
    simp only [Dictht.keysAt, Dictht.push, Function.update_of_ne hi]
    rfl

variable [DecidableEq K] {canResize : Bool}

theorem keyIndex_dict (hash : K → UInt32) (canResize : Bool) (d : Dict K V) (k : K) :
    (_dictKeyIndex hash canResize d k).1 = (_dictExpandIfNeeded canResize d).1 := by
  unfold _dictKeyIndex
  dsimp only
  split_ifs <;> rfl

theorem keyIndex_absent {k : K} (h : (_dictKeyIndex hash canResize d k).2 ≠ -1) :
    keyPresent hash (_dictExpandIfNeeded canResize d).1 k = false := by
  unfold _dictKeyIndex at h
  dsimp only at h
  split_ifs at h with _ hpresent
  · exact absurd rfl h
  · exact absurd rfl h
  · simpa using hpresent

theorem dictAdd_extended (hwf : DictWF hash d) (hiter : 0 < d.iterators) (hsize : d.ht0.size ≠ 0) {k : K}
    (hfit : KeyIndexFits hash canResize d k) (v : V) :
    Extended (fun k' => k' = k ∧ k ∉ d.keys) d (dictAdd hash canResize d k v).1 := by
  have hexpand := expandIfNeeded_extended (fun k' => k' = k ∧ k ∉ d.keys) hwf hsize canResize
  have hexpanded := _dictExpandIfNeeded_spec hwf (by rw [← rehashStep_frozen hash hiter]; exact hfit.1)
  unfold dictAdd
  dsimp only
  rw [rehashStep_frozen hash hiter, keyIndex_dict]
  split
  · exact hexpand
  · rename_i hindex
    have habsent : k ∉ d.keys := by
      intro hk
      obtain ⟨e, he, hek⟩ := List.mem_map.mp (Dict.keys_eq d ▸ hk)
      have hpresent := (hexpanded.1.wf.keyPresent_iff k).mpr ⟨e, hexpanded.1.entries_perm.mem_iff.mpr he, hek⟩
      rw [keyIndex_absent hindex] at hpresent
      cases hpresent
    set d2 := (_dictExpandIfNeeded canResize d).1
    have hpush : ∀ (t : Dictht K V) (h i : Nat), ∃ front, (t.push h { key := k, val := v }).keysAt i =
        front ++ t.keysAt i ∧ ∀ k' ∈ front, k' = k ∧ k ∉ d.keys := fun t h i => by
      obtain ⟨front, hfront, hnew⟩ := keysAt_push t h { key := k, val := v } i
      exact ⟨front, hfront, fun k' hk' => ⟨hnew k' hk', habsent⟩⟩
    have hsame : ∀ (t : Dictht K V) (i : Nat), ∃ front, t.keysAt i = front ++ t.keysAt i ∧
        ∀ k' ∈ front, k' = k ∧ k ∉ d.keys := fun t i => ⟨[], rfl, fun _ hk => absurd hk List.not_mem_nil⟩
    refine hexpand.trans ?_
    split
    · exact
        { size0 := rfl
          active := fun h => ⟨h, rfl⟩
          chain0 := fun i => hsame _ i
          chain1 := fun i => hpush _ _ i
          iterators := rfl }
    · exact
        { size0 := rfl
          active := fun h => ⟨h, rfl⟩
          chain0 := fun i => hpush _ _ i
          chain1 := fun i => hsame _ i
          iterators := rfl }

theorem keysAt_setVal (t : Dictht K V) (k : K) (v : V) (i : Nat) : (t.setVal hash k v).keysAt i = t.keysAt i := by
  by_cases hi : i = t.bucketOf hash k
  · subst hi
    simp only [Dictht.keysAt, Dictht.setVal, Function.update_self, List.map_map]
    refine List.map_congr_left fun e _ => ?_
    rw [Function.comp_apply]
    split <;> rfl
  · simp only [Dictht.keysAt, Dictht.setVal, Function.update_of_ne hi]

theorem setFound_extended (new : K → Prop) (d : Dict K V) (k : K) (v : V) : Extended new d (setFound hash d k v) := by
  have hsame : ∀ (t : Dictht K V) (i : Nat), ∃ front, t.keysAt i = front ++ t.keysAt i ∧ ∀ k' ∈ front, new k' :=
    fun t i => ⟨[], rfl, fun _ hk => absurd hk List.not_mem_nil⟩
  have hset : ∀ (t : Dictht K V) (i : Nat), ∃ front, (t.setVal hash k v).keysAt i = front ++ t.keysAt i ∧
      ∀ k' ∈ front, new k' := fun t i => by
    rw [keysAt_setVal]
    exact hsame t i
  unfold setFound
  split
  · exact
      { size0 := rfl
        active := fun h => ⟨h, rfl⟩
        chain0 := hset d.ht0
        chain1 := hsame d.ht1
        iterators := rfl }
  · exact
      { size0 := rfl
        active := fun h => ⟨h, rfl⟩
        chain0 := hsame d.ht0
        chain1 := hset d.ht1
        iterators := rfl }

theorem dictFind_frozen (hash : K → UInt32) (hiter : 0 < d.iterators) (k : K) : (dictFind hash d k).1 = d := by
  unfold dictFind
  split
  · rfl
  · exact rehashStep_frozen hash hiter

theorem dictReplace_extended (hwf : DictWF hash d) (hiter : 0 < d.iterators) (hsize : d.ht0.size ≠ 0) {k : K}
    (hfit : KeyIndexFits hash canResize d k) (v : V) :
    Extended (fun k' => k' = k ∧ k ∉ d.keys) d (dictReplace hash canResize d k v).1 := by
  have hadd := dictAdd_extended hwf hiter hsize hfit v
  unfold dictReplace
  dsimp only
  split
  · exact hadd
  · rw [dictFind_frozen hash (by rw [hadd.iterators]; exact hiter)]
    exact hadd.trans (setFound_extended _ _ k v)

/-! ## Deleting the entry just returned -/

theorem keys_chainErase (k : K) (l : List (DictEntry K V)) :
    (chainErase k l).map DictEntry.key = (l.map DictEntry.key).erase k := by
  induction l with
  | nil => rfl
  | cons e l ih =>
    rw [chainErase, List.map_cons]
    by_cases he : e.key = k
    · rw [List.eraseP_cons_of_pos (by simpa using he), he, List.erase_cons_head]
    · rw [List.eraseP_cons_of_neg (by simpa using he), List.erase_cons_tail (by simpa using he), List.map_cons, ← ih]
      rfl

theorem keysAt_unlink (t : Dictht K V) (k : K) (i : Nat) :
    (t.unlink hash k).keysAt i = if i = t.bucketOf hash k then (t.keysAt i).erase k else t.keysAt i := by
  by_cases hi : i = t.bucketOf hash k
  · subst hi
    simp only [if_true, Dictht.keysAt, Dictht.unlink, Function.update_self]
    exact keys_chainErase k _
  · rw [if_neg hi]
    simp only [Dictht.keysAt, Dictht.unlink, Function.update_of_ne hi]

omit [DecidableEq K] in
theorem keysFrom_congr {t t' : Dictht K V} (hsize : t'.size = t.size) {i : Nat}
    (hkeys : ∀ j, i ≤ j → t'.keysAt j = t.keysAt j) : t'.keysFrom i = t.keysFrom i := by
  rw [Dictht.keysFrom, Dictht.keysFrom, hsize]
  refine List.flatMap_congr fun j hj => ?_
  obtain ⟨n, -, rfl⟩ := List.mem_range'.mp hj
  exact hkeys _ (by omega)

omit [DecidableEq K] in
theorem Dictht.WF.keysAt_bucket {t : Dictht K V} (h : t.WF hash) {k : K} {i : Nat} (hk : k ∈ t.keysAt i) :
    i = t.bucketOf hash k ∧ i < t.size ∧ ∃ e ∈ t.entries, e.key = k := by
  obtain ⟨e, he, rfl⟩ := List.mem_map.mp hk
  obtain ⟨hi, hlt⟩ := h.placed i e he
  exact ⟨hi, hlt, e, h.mem_bucket.mp (hi ▸ he), rfl⟩

theorem dictDelete_current (hwf : DictWF hash d) (hiter : 0 < d.iterators) {it : DictIterator K V}
    (hplaced : Placed d it) {k : K} {i : Nat} (hk : k ∈ (iterTable d it).keysAt i) :
    (dictDelete hash d k).1 =
      if it.table = 0 then { d with ht0 := d.ht0.unlink hash k } else { d with ht1 := d.ht1.unlink hash k } := by
  have hentries : d.entries ≠ [] → d.ht0.size ≠ 0 := fun hne hz => hne (hwf.entries_of_size_zero hz)
  unfold dictDelete
  dsimp only
  rw [rehashStep_frozen hash hiter]
  rcases hplaced.table with htable | ⟨htable, hr⟩
  · rw [iterTable, if_pos htable] at hk
    obtain ⟨-, -, e, he, hek⟩ := hwf.wf0.keysAt_bucket hk
    have hsize : d.ht0.size ≠ 0 := hentries (List.ne_nil_of_mem (List.mem_append_left _ he))
    rw [if_neg hsize, if_pos ((hwf.wf0.find_isSome k).mpr ⟨e, he, hek⟩), if_pos htable]
  · have hne : it.table ≠ 0 := by
      rw [htable]
      decide
    rw [iterTable, if_neg hne] at hk
    obtain ⟨-, -, e, he, hek⟩ := hwf.wf1.keysAt_bucket hk
    have hsize : d.ht0.size ≠ 0 := hentries (List.ne_nil_of_mem (List.mem_append_right _ he))
    have hnot : ¬ (chainFind k (d.ht0.table (d.ht0.bucketOf hash k))).isSome = true := by
      rw [hwf.wf0.find_isSome]
      rintro ⟨e', he', hek'⟩
      have hnodup := hwf.keys_nodup
      rw [Dict.entries, List.map_append, List.nodup_append] at hnodup
      exact hnodup.2.2 _ (List.mem_map_of_mem he') _ (List.mem_map_of_mem he) (hek'.trans hek.symm)
    rw [if_neg hsize, if_neg hnot, if_pos (by
      rw [hr, Bool.true_and]
      exact (hwf.wf1.find_isSome k).mpr ⟨e, he, hek⟩), if_neg hne]

theorem dictDelete_ahead (hwf : DictWF hash d) (hiter : 0 < d.iterators) {it : DictIterator K V}
    (hplaced : Placed d it) (hindex : 0 ≤ it.index) {k : K} (hk : k ∈ (iterTable d it).keysAt it.index.toNat) :
    (iterTable (dictDelete hash d k).1 it).keysAt it.index.toNat = ((iterTable d it).keysAt it.index.toNat).erase k ∧
      bucketsAhead (dictDelete hash d k).1 it = bucketsAhead d it ∧ Placed (dictDelete hash d k).1 it ∧
      (iterTable (dictDelete hash d k).1 it).size = (iterTable d it).size ∧
      (dictDelete hash d k).1.iterators = d.iterators ∧ (dictDelete hash d k).1.ht0.size = d.ht0.size := by
  have hahead : ∀ (t : Dictht K V), t.WF hash → k ∈ t.keysAt it.index.toNat →
      (t.unlink hash k).keysAt it.index.toNat = (t.keysAt it.index.toNat).erase k ∧
        (t.unlink hash k).keysFrom (it.index + 1).toNat = t.keysFrom (it.index + 1).toNat := by
    intro t ht hkt
    obtain ⟨hbucket, -, -⟩ := ht.keysAt_bucket hkt
    refine ⟨by rw [keysAt_unlink, if_pos hbucket],
      keysFrom_congr (show (t.unlink hash k).size = t.size from rfl) fun j hj => ?_⟩
    rw [keysAt_unlink, if_neg (by omega)]
  rw [dictDelete_current hwf hiter hplaced hk]
  rcases hplaced.table with htable | ⟨htable, hr⟩
  · have hfirst : ∀ d : Dict K V, iterTable d it = d.ht0 := fun d => if_pos htable
    rw [hfirst] at hk
    obtain ⟨hchain, hrest⟩ := hahead d.ht0 hwf.wf0 hk
    rw [if_pos htable, hfirst, hfirst]
    refine ⟨hchain, ?_, ⟨hplaced.index, .inl htable⟩, rfl, rfl, rfl⟩
    rw [bucketsAhead, bucketsAhead, hfirst, hfirst, ← hrest]
    rfl
  · have hsecond : ∀ d : Dict K V, iterTable d it = d.ht1 := fun d => if_neg (by rw [htable]; decide)
    rw [hsecond] at hk
    obtain ⟨hchain, hrest⟩ := hahead d.ht1 hwf.wf1 hk
    have hnot : ∀ p : Prop, ¬ (it.table = 0 ∧ p) := fun p hc => by
      rw [htable] at hc
      exact absurd hc.1 (by decide)
    rw [if_neg (by rw [htable]; decide), hsecond, hsecond]
    refine ⟨hchain, ?_, ⟨hplaced.index, .inr ⟨htable, hr⟩⟩, rfl, rfl, rfl⟩
    rw [bucketsAhead, bucketsAhead, hsecond, hsecond, if_neg (hnot _), if_neg (hnot _), ← hrest]

/-! ## The invariant -/

omit [DecidableEq K] in
theorem ahead_nodup (hwf : DictWF hash d) {it : DictIterator K V} (hplaced : Placed d it) (hindex : 0 ≤ it.index)
    (hlt : it.index.toNat < (iterTable d it).size) {l : List K} (hl : l <:+ (iterTable d it).keysAt it.index.toNat) :
    (l ++ bucketsAhead d it).Nodup := by
  have hsucc : (it.index + 1).toNat = it.index.toNat + 1 := by omega
  have hfrom : ∀ (t : Dictht K V) {i j : Nat}, i ≤ j → (t.keysFrom j).Sublist (t.keysFrom i) := fun t i j hij => by
    induction j, hij using Nat.le_induction with
    | base => exact List.Sublist.refl _
    | succ j _ ih =>
      refine List.Sublist.trans ?_ ih
      by_cases hj : j < t.size
      · rw [keysFrom_of_lt hj]
        exact List.sublist_append_right _ _
      · rw [keysFrom_of_le (by omega)]
        exact List.nil_sublist _
  have hchain : (l ++ (iterTable d it).keysFrom (it.index + 1).toNat).Sublist ((iterTable d it).keysFrom 0) := by
    refine List.Sublist.trans ?_ (hfrom (iterTable d it) (Nat.zero_le it.index.toNat))
    rw [keysFrom_of_lt hlt, hsucc]
    exact List.Sublist.append hl.sublist (List.Sublist.refl _)
  have hkeys := hwf.keys_nodup
  rw [Dict.entries, List.map_append, ← keysFrom_zero, ← keysFrom_zero] at hkeys
  rw [bucketsAhead, ← List.append_assoc]
  refine hkeys.sublist ?_
  rcases hplaced.table with htable | ⟨htable, -⟩
  · rw [iterTable, if_pos htable] at hchain ⊢
    refine List.Sublist.append hchain ?_
    split
    · exact List.Sublist.refl _
    · exact List.nil_sublist _
  · have hne : it.table ≠ 0 := by
      rw [htable]
      decide
    rw [iterTable, if_neg hne] at hchain ⊢
    rw [if_neg fun hc => hne hc.1, List.append_nil]
    exact hchain.trans (List.sublist_append_right _ _)

/-- The entries of the first call are those returned and those ahead of the iterator. -/
structure Iterating (hash : K → UInt32) (start : List K) (s : Iteration K V) : Prop where
  wf : DictWF hash s.dict
  placed : Placed s.dict s.it
  before : s.it.entry = none → s.it = dictGetSafeIterator ∧ 0 ≤ s.dict.iterators
  running : s.it.entry ≠ none → 0 < s.dict.iterators ∧ s.dict.ht0.size ≠ 0 ∧ 0 ≤ s.it.index ∧
    s.it.index.toNat < (iterTable s.dict s.it).size ∧
    s.it.nextEntry.map DictEntry.key <:+ (iterTable s.dict s.it).keysAt s.it.index.toNat
  current : ∀ k, s.current = some k → s.it.entry ≠ none ∧
    k :: s.it.nextEntry.map DictEntry.key <:+ (iterTable s.dict s.it).keysAt s.it.index.toNat
  old : ∀ k ∈ s.old, k ∈ s.dict.keys
  counted : s.oldReturned ++ (ahead s.dict s.it).filter (fun k => decide (k ∈ s.old)) ~ start

/-- What the operations need: a table that is searched for a bucket has a number of buckets that is an `int`, and the
bucket of a key that is added too. -/
def IterationStepFits (hash : K → UInt32) (s : Iteration K V) (a : Bool × IterOp K V) : Prop :=
  match a.2 with
  | .next => s.it.nextEntry = [] → IterationFits s.dict
  | .add k _ => KeyIndexFits hash a.1 s.dict k
  | .replace k _ => KeyIndexFits hash a.1 s.dict k
  | _ => True

instance (s : Iteration K V) (a : Bool × IterOp K V) : Decidable (IterationStepFits hash s a) :=
  match a with
  | (_, .next) => inferInstanceAs (Decidable (s.it.nextEntry = [] → IterationFits s.dict))
  | (_, .delete) => isTrue trivial
  | (canResize, .add k _) => inferInstanceAs (Decidable (KeyIndexFits hash canResize s.dict k))
  | (_, .find _) => isTrue trivial
  | (canResize, .replace k _) => inferInstanceAs (Decidable (KeyIndexFits hash canResize s.dict k))

def IterationOk (hash : K → UInt32) (start : List K) (s : Iteration K V) : Prop :=
  (s.finished = false → Iterating hash start s) ∧ (s.finished = true → s.oldReturned ~ start)

theorem iterationStart_ok (hwf : DictWF hash d) (hiter : 0 ≤ d.iterators) : IterationOk hash d.keys (iterationStart d) := by
  refine ⟨fun _ => ?_, fun h => absurd h Bool.false_ne_true⟩
  refine
    { wf := hwf
      placed := ⟨le_rfl, .inl rfl⟩
      before := fun _ => ⟨rfl, hiter⟩
      running := fun h => absurd rfl h
      current := fun k h => by cases h
      old := fun k hk => hk
      counted := ?_ }
  have hahead : ahead d dictGetSafeIterator = d.keys := by
    have hfirst : iterTable d dictGetSafeIterator = d.ht0 := rfl
    rw [ahead, bucketsAhead, hfirst, Dict.keys_eq, Dict.entries, List.map_append]
    show [] ++ (d.ht0.keysFrom 0 ++ _) = _
    rw [List.nil_append, keysFrom_zero, ← keysFrom_zero d.ht1]
    congr 1
    split
    · rfl
    · rename_i hr
      have hidle : dictIsRehashing d = false := by
        rw [← Bool.not_eq_true]
        exact fun h => hr ⟨rfl, h⟩
      rw [keysFrom_zero, hwf.entries1_of_idle hidle]
      rfl
  show [] ++ (ahead d dictGetSafeIterator).filter (fun k => decide (k ∈ d.keys)) ~ d.keys
  rw [hahead, List.nil_append, List.filter_eq_self.mpr fun k hk => decide_eq_true hk]

theorem Iterating.extended {start : List K} {s : Iteration K V} (h : Iterating hash start s) (hentry : s.it.entry ≠ none)
    {new : K → Prop} (hnew : ∀ k, new k → k ∉ s.old) {d' : Dict K V} (hwf : DictWF hash d')
    (hkeys : ∀ k ∈ s.dict.keys, k ∈ d'.keys) (hd : Extended new s.dict d') :
    Iterating hash start { s with dict := d' } := by
  obtain ⟨hiter, hsize, hindex, hlt, hnext⟩ := h.running hentry
  have hsize' : (iterTable d' s.it).size = (iterTable s.dict s.it).size := by
    unfold iterTable
    rcases h.placed.table with htable | ⟨htable, hr⟩
    · rw [if_pos htable, if_pos htable, hd.size0]
    · have hne : s.it.table ≠ 0 := by
        rw [htable]
        decide
      rw [if_neg hne, if_neg hne, (hd.active hr).2]
  obtain ⟨front, hfront, -⟩ := hd.chain s.it s.it.index.toNat
  have hsuffix : ∀ {l : List K}, l <:+ (iterTable s.dict s.it).keysAt s.it.index.toNat →
      l <:+ (iterTable d' s.it).keysAt s.it.index.toNat := fun hl => by
    rw [hfront]
    exact hl.trans (List.suffix_append _ _)
  refine
    { wf := hwf
      placed := hd.placed h.placed
      before := fun hnone => absurd hnone hentry
      running := fun _ => ⟨by rw [hd.iterators]; exact hiter, by rw [hd.size0]; exact hsize, hindex,
        by rw [hsize']; exact hlt, hsuffix hnext⟩
      current := fun k hk => ⟨hentry, hsuffix (h.current k hk).2⟩
      old := fun k hk => hkeys k (h.old k hk)
      counted := ?_ }
  have hsame := hd.bucketsAhead (p := fun k => decide (k ∈ s.old)) (fun k hk => decide_eq_false (hnew k hk)) h.wf h.placed
  have hcounted := h.counted
  rw [ahead, List.filter_append] at hcounted ⊢
  rw [hsame]
  exact hcounted

theorem Iterating.returns {start : List K} {s : Iteration K V} (h : Iterating hash start s) {d' : Dict K V}
    (hwf : DictWF hash d') (hkeys : d'.keys = s.dict.keys) {it : DictIterator K V} {e : DictEntry K V}
    (hentry : it.entry = some e) (hplaced : Placed d' it) (hiter : 0 < d'.iterators) (hsize : d'.ht0.size ≠ 0)
    (hindex : 0 ≤ it.index) (hlt : it.index.toNat < (iterTable d' it).size)
    (hchain : e.key :: it.nextEntry.map DictEntry.key <:+ (iterTable d' it).keysAt it.index.toNat)
    (hahead : ahead s.dict s.it = e.key :: ahead d' it) :
    Iterating hash start
      { s with
        dict := d'
        it := it
        current := some e.key
        returned := s.returned ++ [(e.key, decide (e.key ∈ s.old))] } := by
  refine
    { wf := hwf
      placed := hplaced
      before := fun hnone => absurd (hentry.symm.trans hnone) (by simp)
      running := fun _ => ⟨hiter, hsize, hindex, hlt, (List.suffix_cons _ _).trans hchain⟩
      current := fun k hk => ⟨by rw [hentry]; simp, by rw [← Option.some.inj hk]; exact hchain⟩
      old := fun k hk => hkeys ▸ h.old k hk
      counted := ?_ }
  have hcounted := h.counted
  rw [hahead] at hcounted
  refine List.Perm.trans ?_ hcounted
  rw [Iteration.oldReturned, Iteration.oldReturned, List.filter_append, List.map_append, List.append_assoc]
  refine List.Perm.append_left _ ?_
  by_cases hold : e.key ∈ s.old
  · simp [hold]
  · simp [hold]

omit [DecidableEq K] in
theorem DictWF.entry_iterated (hwf : DictWF hash d) {it : DictIterator K V} {i : Nat} {e : DictEntry K V}
    (he : e ∈ (iterTable d it).table i) : e ∈ d.entries := by
  have hentries : ∀ {t : Dictht K V}, t.WF hash → e ∈ t.table i → e ∈ t.entries := by
    intro t ht het
    exact ht.mem_bucket.mp ((ht.placed i e het).1 ▸ het)
  rw [Dict.entries, List.mem_append]
  rw [iterTable] at he
  split at he
  · exact .inl (hentries hwf.wf0 he)
  · exact .inr (hentries hwf.wf1 he)

omit [DecidableEq K] in
theorem size_ne_zero (hwf : DictWF hash d) {it : DictIterator K V} {i : Nat} {e : DictEntry K V}
    (he : e ∈ (iterTable d it).table i) : d.ht0.size ≠ 0 := by
  intro hz
  have hmem := hwf.entry_iterated he
  rw [hwf.entries_of_size_zero hz] at hmem
  exact List.not_mem_nil hmem

theorem iterationStep_next {start : List K} {s : Iteration K V} (h : Iterating hash start s) (hgoing : s.finished = false)
    (hfits : s.it.nextEntry = [] → IterationFits s.dict) (canResize : Bool) :
    IterationOk hash start (iterationStep hash s (canResize, .next)) := by
  have hsearch : s.it.nextEntry = [] → ∀ n, 0 < n →
      dictNext s.dict s.it =
        ({ s.dict with iterators := n }, nextBucket { s.dict with iterators := n }
          (s.dict.ht0.size + s.dict.ht1.size + 1) s.it) →
      IterationOk hash start (iterationStep hash s (canResize, .next)) := by
    intro hnil n hn hdict
    set d' : Dict K V := { s.dict with iterators := n } with hd'
    have hwf' : DictWF hash d' := h.wf.set_iterators n
    have hplaced' : Placed d' s.it := ⟨h.placed.index, h.placed.table⟩
    have hleft : bucketsLeft d' s.it < s.dict.ht0.size + s.dict.ht1.size + 1 := by
      rw [bucketsLeft, iterTable]
      split <;> simp only [hd'] <;> omega
    have hfound := nextBucket_spec hwf' (hfits hnil) _ s.it hplaced' hleft
    have hsame : bucketsAhead d' s.it = bucketsAhead s.dict s.it := rfl
    have hnow : ahead s.dict s.it = bucketsAhead s.dict s.it := by
      rw [ahead, hnil]
      rfl
    rw [NextFound, hsame] at hfound
    generalize nextBucket d' (s.dict.ht0.size + s.dict.ht1.size + 1) s.it = it' at hdict hfound
    unfold iterationStep
    dsimp only
    rw [hdict]
    dsimp only
    rcases hfound with ⟨hnone, -, hahead⟩ | ⟨e, es, hentry, hes, hindex, hplaced, hchain, hlt, hahead⟩
    · rw [hnone]
      refine ⟨fun hf => absurd hf (by simp), fun _ => ?_⟩
      have hcounted := h.counted
      rw [hnow, hahead, List.filter_nil, List.append_nil] at hcounted
      exact hcounted
    · rw [hentry]
      refine ⟨fun _ => ?_, fun hf => absurd (hgoing.symm.trans hf) (by decide)⟩
      have hsize : d'.ht0.size ≠ 0 := size_ne_zero hwf' (hchain ▸ List.mem_cons_self)
      refine h.returns hwf' rfl hentry hplaced hn hsize hindex hlt ?_ ?_
      · rw [hes, Dictht.keysAt, hchain]
        exact List.suffix_refl _
      · rw [hnow, hahead, ahead, hes]
        rfl
  by_cases hentry : s.it.entry = none
  · obtain ⟨hit, hiter⟩ := h.before hentry
    refine hsearch (by rw [hit]; rfl) (s.dict.iterators + 1) (by omega) ?_
    rw [hit]
    rfl
  · obtain ⟨hiter, hsize, hindex, hlt, hnext⟩ := h.running hentry
    obtain ⟨e₀, he₀⟩ := Option.ne_none_iff_exists'.mp hentry
    cases hes : s.it.nextEntry with
    | nil =>
      refine hsearch hes s.dict.iterators hiter ?_
      have hrunning : ¬ (s.it.index = -1 ∧ s.it.table = 0) := fun hc => by omega
      rw [dictNext, he₀, hes]
      dsimp only
      rw [if_neg hrunning]
    | cons e es =>
      have hdict : dictNext s.dict s.it = (s.dict, { s.it with entry := some e, nextEntry := es }) := by
        rw [dictNext, he₀, hes]
      unfold iterationStep
      dsimp only
      rw [hdict]
      dsimp only
      refine ⟨fun _ => ?_, fun hf => absurd (hgoing.symm.trans hf) (by decide)⟩
      rw [hes, List.map_cons] at hnext
      refine h.returns h.wf rfl rfl ⟨h.placed.index, h.placed.table⟩ hiter hsize hindex hlt hnext ?_
      rw [ahead, hes]
      rfl

theorem keys_of_perm {d' : Dict K V} {k : K} {v : V}
    (h : d'.entries ~ d.entries ∨ d'.entries ~ ⟨k, v⟩ :: d.entries ∨ d'.entries ~ d.entries.map (overwrite k v)) :
    ∀ k' ∈ d.keys, k' ∈ d'.keys := by
  intro k' hk'
  rw [Dict.keys_eq] at hk' ⊢
  rcases h with h | h | h
  · exact (h.map DictEntry.key).mem_iff.mpr hk'
  · exact (h.map DictEntry.key).mem_iff.mpr (List.mem_cons_of_mem _ hk')
  · have hsame : (d.entries.map (overwrite k v)).map DictEntry.key = d.entries.map DictEntry.key := by
      rw [List.map_map]
      exact List.map_congr_left fun e _ => overwrite_key k v e
    exact (h.map DictEntry.key).mem_iff.mpr (hsame ▸ hk')

theorem dictAdd_keeps (hwf : DictWF hash d) {k : K} (hfit : KeyIndexFits hash canResize d k) (v : V) :
    DictWF hash (dictAdd hash canResize d k v).1 ∧ ∀ k' ∈ d.keys, k' ∈ (dictAdd hash canResize d k v).1.keys := by
  by_cases hk : ∃ e ∈ d.entries, e.key = k
  · obtain ⟨-, hre⟩ := dictAdd_present hwf v hfit hk
    exact ⟨hre.wf, keys_of_perm (k := k) (v := v) (.inl hre.entries_perm)⟩
  · obtain ⟨-, hwf', hperm, -⟩ := dictAdd_absent hwf v hfit fun e he hek => hk ⟨e, he, hek⟩
    exact ⟨hwf', keys_of_perm (.inr (.inl hperm))⟩

theorem dictReplace_keeps (hwf : DictWF hash d) {k : K} (hfit : KeyIndexFits hash canResize d k) (v : V) :
    DictWF hash (dictReplace hash canResize d k v).1 ∧
      ∀ k' ∈ d.keys, k' ∈ (dictReplace hash canResize d k v).1.keys := by
  by_cases hk : ∃ e ∈ d.entries, e.key = k
  · obtain ⟨-, hwf', hperm⟩ := dictReplace_present hwf v hfit hk
    exact ⟨hwf', keys_of_perm (.inr (.inr hperm))⟩
  · obtain ⟨-, hwf', hperm⟩ := dictReplace_absent hwf v hfit fun e he hek => hk ⟨e, he, hek⟩
    exact ⟨hwf', keys_of_perm (.inr (.inl hperm))⟩

theorem iterationStep_delete {start : List K} {s : Iteration K V} (h : Iterating hash start s) (canResize : Bool) :
    Iterating hash start (iterationStep hash s (canResize, .delete)) := by
  unfold iterationStep
  dsimp only
  cases hcurrent : s.current with
  | none => exact h
  | some k =>
    obtain ⟨hentry, hsuffix⟩ := h.current k hcurrent
    obtain ⟨hiter, hsize, hindex, hlt, hnext⟩ := h.running hentry
    have hk : k ∈ (iterTable s.dict s.it).keysAt s.it.index.toNat := hsuffix.subset List.mem_cons_self
    obtain ⟨hchain, hahead, hplaced, hsizes, hiters, hsize0⟩ := dictDelete_ahead h.wf hiter h.placed hindex hk
    have hpresent : ∃ e ∈ s.dict.entries, e.key = k := by
      obtain ⟨e, he, hek⟩ := List.mem_map.mp hk
      exact ⟨e, h.wf.entry_iterated he, hek⟩
    obtain ⟨-, hwf, e, hek, hperm⟩ := dictDelete_present h.wf hpresent
    have hnodup := ahead_nodup h.wf h.placed hindex hlt hsuffix
    rw [List.cons_append, List.nodup_cons] at hnodup
    have hnext' : s.it.nextEntry.map DictEntry.key <:+
        (iterTable (dictDelete hash s.dict k).1 s.it).keysAt s.it.index.toNat := by
      obtain ⟨pre, hpre⟩ := hsuffix
      have hwhole := ahead_nodup h.wf h.placed hindex hlt (List.suffix_refl _)
      rw [← hpre, List.append_assoc] at hwhole
      have hnot : k ∉ pre := fun hmem => (List.nodup_append.mp hwhole).2.2 k hmem k (by simp) rfl
      rw [hchain, ← hpre, List.erase_append_right _ hnot, List.erase_cons_head]
      exact List.suffix_append _ _
    exact
      { wf := hwf
        placed := hplaced
        before := fun hnone => absurd hnone hentry
        running := fun _ => ⟨by rw [hiters]; exact hiter, by rw [hsize0]; exact hsize, hindex,
          by rw [hsizes]; exact hlt, hnext'⟩
        current := fun k' hk' => by cases hk'
        old := fun k' hk' => by
          obtain ⟨hold, hne⟩ := List.mem_filter.mp hk'
          have hkeys := h.old k' hold
          rw [Dict.keys_eq, (hperm.map DictEntry.key).mem_iff, List.map_cons, List.mem_cons, hek] at hkeys
          exact hkeys.resolve_left (of_decide_eq_true hne)
        counted := by
          have hcounted := h.counted
          have hfilter : (ahead s.dict s.it).filter (fun k' => decide (k' ∈ s.old.filter fun k' => k' ≠ k)) =
              (ahead s.dict s.it).filter fun k' => decide (k' ∈ s.old) := by
            refine List.filter_congr fun k' hk' => decide_eq_decide.mpr ?_
            have hne : k' ≠ k := fun heq => hnodup.1 (heq ▸ hk')
            rw [List.mem_filter]
            exact ⟨And.left, fun hold => ⟨hold, decide_eq_true hne⟩⟩
          rw [← hfilter] at hcounted
          rw [ahead] at hcounted ⊢
          rw [hahead]
          exact hcounted }

theorem iterationStep_ok {start : List K} {s : Iteration K V} {a : Bool × IterOp K V} (h : IterationOk hash start s)
    (hallowed : IterationAllowed s a) (hfits : IterationStepFits hash s a) :
    IterationOk hash start (iterationStep hash s a) := by
  obtain ⟨hgoing, hact⟩ := hallowed
  have hs := h.1 hgoing
  obtain ⟨canResize, op⟩ := a
  have hunfinished : ∀ {s' : Iteration K V}, s'.finished = false → Iterating hash start s' → IterationOk hash start s' :=
    fun hf hs' => ⟨fun _ => hs', fun hf' => absurd (hf.symm.trans hf') Bool.false_ne_true⟩
  cases op with
  | next => exact iterationStep_next hs hgoing hfits canResize
  | delete =>
    refine hunfinished ?_ (iterationStep_delete hs canResize)
    unfold iterationStep
    dsimp only
    split <;> exact hgoing
  | add k v =>
    obtain ⟨hiter, hsize, -⟩ := hs.running hact
    have hnew : ∀ k', k' = k ∧ k ∉ s.dict.keys → k' ∉ s.old := by
      rintro k' ⟨rfl, hnot⟩ hold
      exact hnot (hs.old k' hold)
    obtain ⟨hwf, hkeys⟩ := dictAdd_keeps hs.wf hfits v
    exact hunfinished hgoing (hs.extended hact hnew hwf hkeys (dictAdd_extended hs.wf hiter hsize hfits v))
  | find k =>
    obtain ⟨hiter, -⟩ := hs.running hact
    refine hunfinished hgoing ?_
    have hsame : iterationStep hash s (canResize, .find k) = s := by
      show { s with dict := (dictFind hash s.dict k).1 } = s
      rw [dictFind_frozen hash hiter]
    rw [hsame]
    exact hs
  | replace k v =>
    obtain ⟨hiter, hsize, -⟩ := hs.running hact
    have hnew : ∀ k', k' = k ∧ k ∉ s.dict.keys → k' ∉ s.old := by
      rintro k' ⟨rfl, hnot⟩ hold
      exact hnot (hs.old k' hold)
    obtain ⟨hwf, hkeys⟩ := dictReplace_keeps hs.wf hfits v
    exact hunfinished hgoing (hs.extended hact hnew hwf hkeys (dictReplace_extended hs.wf hiter hsize hfits v))

/-- Each entry of the first call is returned at most once, and when NULL is returned each was returned. -/
theorem safe_iteration (hash : K → UInt32) (d : Dict K V) (hwf : DictWF hash d) (hiter : 0 ≤ d.iterators)
    (ops : List (Bool × IterOp K V))
    (hops : RunMeets (iterationStep hash) (fun s a => IterationAllowed s a ∧ IterationStepFits hash s a)
      (iterationStart d) ops) :
    (run (iterationStep hash) (iterationStart d) ops).oldReturned.Nodup ∧
      (∀ k ∈ (run (iterationStep hash) (iterationStart d) ops).oldReturned, k ∈ d.keys) ∧
      ((run (iterationStep hash) (iterationStart d) ops).finished = true →
        (run (iterationStep hash) (iterationStart d) ops).oldReturned ~ d.keys) := by
  have hok : IterationOk hash d.keys (run (iterationStep hash) (iterationStart d) ops) :=
    run_inv (P := IterationOk hash d.keys) (fun _ _ hs ha => iterationStep_ok hs ha.1 ha.2)
      (iterationStart_ok hwf hiter) hops
  have hsub : ∃ rest, (run (iterationStep hash) (iterationStart d) ops).oldReturned ++ rest ~ d.keys := by
    cases hf : (run (iterationStep hash) (iterationStart d) ops).finished with
    | false => exact ⟨_, (hok.1 hf).counted⟩
    | true => exact ⟨[], by rw [List.append_nil]; exact hok.2 hf⟩
  obtain ⟨rest, hrest⟩ := hsub
  have hnodup : d.keys.Nodup := hwf.keys_nodup
  exact ⟨(List.nodup_append.mp (hrest.nodup_iff.mpr hnodup)).1,
    fun k hk => hrest.mem_iff.mp (List.mem_append_left _ hk), hok.2⟩

end

/-! ## Small and large tables -/

def twoKeys : Dict Nat Nat :=
  (dictAdd (fun k : Nat => UInt32.ofNat k) true
    (dictAdd (fun k : Nat => UInt32.ofNat k) true dictCreate 1 10).1 2 20).1

theorem twoKeys_wf : DictWF (fun k : Nat => UInt32.ofNat k) twoKeys :=
  (dictAdd_keeps (dictAdd_keeps (dictCreate_wf fun k : Nat => UInt32.ofNat k) (by decide) 10).1 (by decide) 20).1

def twoKeysOps : List (Bool × IterOp Nat Nat) :=
  [(true, .next), (true, .delete), (true, .add 3 30), (true, .add 4 40), (true, .add 5 50), (true, .add 6 60),
    (true, .replace 2 21), (true, .next), (true, .find 2), (true, .next), (true, .next), (true, .next)]

theorem safe_iteration_two :
    (run (iterationStep fun k : Nat => UInt32.ofNat k) (iterationStart twoKeys) twoKeysOps).finished = true ∧
      (run (iterationStep fun k : Nat => UInt32.ofNat k) (iterationStart twoKeys) twoKeysOps).oldReturned ~
        twoKeys.keys := by
  have hfinished : (run (iterationStep fun k : Nat => UInt32.ofNat k) (iterationStart twoKeys) twoKeysOps).finished =
      true := by decide +kernel
  exact ⟨hfinished, (safe_iteration (fun k : Nat => UInt32.ofNat k) twoKeys twoKeys_wf (by decide) twoKeysOps
    (by decide +kernel)).2.2 hfinished⟩

def largeTable : Dict Nat Nat :=
  (dictAdd (fun k : Nat => UInt32.ofNat k) true (dictExpand dictCreate (2 ^ 31)).1 1 10).1

/-- The number of buckets, as an `int`, is negative, and the first call returns NULL. -/
theorem large_table_skipped :
    DictWF (fun k : Nat => UInt32.ofNat k) largeTable ∧ 1 ∈ largeTable.keys ∧
      (iterationStep (fun k : Nat => UInt32.ofNat k) (iterationStart largeTable) (true, .next)).finished = true ∧
      (iterationStep (fun k : Nat => UInt32.ofNat k) (iterationStart largeTable) (true, .next)).oldReturned = [] := by
  have hwf : DictWF (fun k : Nat => UInt32.ofNat k) (dictExpand (dictCreate : Dict Nat Nat) (2 ^ 31)).1 :=
    (dictExpand_spec (dictCreate_wf _) (by decide)).wf
  have hentries : (dictExpand (dictCreate : Dict Nat Nat) (2 ^ 31)).1.entries = [] := by
    have hcreate : DictWF (fun k : Nat => UInt32.ofNat k) (dictCreate : Dict Nat Nat) := dictCreate_wf _
    exact List.Perm.eq_nil (dictExpand_spec hcreate (by decide : 2 ^ 31 ≤ 2 ^ 60)).entries_perm
  have hfit : KeyIndexFits (fun k : Nat => UInt32.ofNat k) true (dictExpand (dictCreate : Dict Nat Nat) (2 ^ 31)).1 1 := by
    decide +kernel
  obtain ⟨-, -, hperm, -⟩ := dictAdd_absent hwf 10 hfit fun e he => by
    rw [hentries] at he
    exact absurd he List.not_mem_nil
  refine ⟨(dictAdd_keeps hwf hfit 10).1, ?_, by decide +kernel, by decide +kernel⟩
  rw [Dict.keys_eq]
  exact (hperm.map DictEntry.key).mem_iff.mpr (by simp)

end RedisCluster
