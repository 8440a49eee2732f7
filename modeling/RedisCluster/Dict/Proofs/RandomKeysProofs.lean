import RedisCluster.Dict.RandomKeys
import RedisCluster.Dict.Proofs.IterationProofs

/-!
# Proofs: `dictGetRandomKeys`

A table that is scanned is visited bucket after bucket, each once, so what is stored is the beginning
of an arrangement of the entries of the two tables. A table of `2 ^ 32` buckets or more is not scanned.
-/

open scoped List

namespace RedisCluster

open RedisCluster.Lib

variable {K V : Type} {hash : K → UInt32} {d : Dict K V} {t : Dictht K V}

def Dictht.scanned (t : Dictht K V) : List (DictEntry K V) := if t.size < 2 ^ 31 then t.entries else []

/-- What `dictGetRandomKeys` is for: it ends, the assertion holds, and it stores as many different
entries of the dict as asked for, or all. -/
def RandomKeysRight (d : Dict K V) (count : Int) : Prop :=
  ∀ random, ∃ fuel des, dictGetRandomKeys d random count fuel = some des ∧
    (des.length : Int) = min count (dictSize d) ∧ des.Nodup ∧ ∀ de ∈ des, de ∈ d.entries

/-- Nothing is asked for or there is nothing, or the entries that are asked for are in tables whose
number of buckets fits an `int`. -/
def RandomKeysCondition (d : Dict K V) (count : Int) : Prop :=
  0 ≤ count ∧ (count = 0 ∨ dictSize d = 0 ∨
    d.ht0.size ≠ 2 ^ 31 ∧ (min count (dictSize d) ≤ d.ht0.scanned.length ∨
      d.ht1.size ≠ 2 ^ 31 ∧ min count (dictSize d) ≤ d.ht0.scanned.length + d.ht1.scanned.length))

def storedUpTo (n : Nat) (des new : List (DictEntry K V)) : List (DictEntry K V) × Bool :=
  if n ≤ des.length + new.length then ((des ++ new).take n, true) else (des ++ new, false)

theorem storeChain_eq {n : Nat} (chain : List (DictEntry K V)) {des : List (DictEntry K V)}
    (h : des.length < n) : storeChain (n : Int) chain des = storedUpTo n des chain := by
  induction chain generalizing des with
  | nil => simp [storeChain, storedUpTo, Nat.not_le.mpr h]
  | cons he chain ih =>
    have hlen : (des ++ [he]).length = des.length + 1 := List.length_append
    rw [storeChain]
    by_cases hn : (des ++ [he]).length = n
    · have htake : (des ++ he :: chain).take n = des ++ [he] := by
        rw [List.append_cons, ← hn, List.take_left]
      rw [if_pos (by exact_mod_cast hn), storedUpTo, if_pos (by simp; omega), htake]
    · rw [if_neg (by exact_mod_cast hn), ih (by omega), storedUpTo, storedUpTo, hlen,
        List.append_assoc, List.singleton_append, List.length_cons, Nat.add_right_comm des.length 1]
      rfl

def visited (t : Dictht K V) : Nat → Nat → List (DictEntry K V)
  | 0, _ => []
  | size + 1, i => t.table i ++ visited t size ((i + 1) % 2 ^ 32 &&& t.sizemask)

theorem scanBuckets_eq {n : Nat} (size i : Nat) {des : List (DictEntry K V)} (h : des.length < n) :
    scanBuckets t (n : Int) size i des = storedUpTo n des (visited t size i) := by
  induction size generalizing i des with
  | zero => simp [scanBuckets, visited, storedUpTo, Nat.not_le.mpr h]
  | succ size ih =>
    rw [scanBuckets, storeChain_eq _ h, visited]
    by_cases hn : n ≤ des.length + (t.table i).length
    · have hall : n ≤ des.length + (t.table i ++ visited t size ((i + 1) % 2 ^ 32 &&& t.sizemask)).length := by
        rw [List.length_append]
        omega
      have htake : (des ++ (t.table i ++ visited t size ((i + 1) % 2 ^ 32 &&& t.sizemask))).take n =
          (des ++ t.table i).take n := by
        rw [← List.append_assoc]
        exact List.take_append_of_le_length (by rw [List.length_append]; exact hn)
      rw [storedUpTo, if_pos hn, storedUpTo, if_pos hall, htake]
      rfl
    · have hmore : (des ++ t.table i).length < n := by
        rw [List.length_append]
        omega
      rw [storedUpTo, if_neg hn]
      simp only [Bool.false_eq_true, if_false]
      rw [ih _ hmore, storedUpTo, storedUpTo, List.append_assoc, List.length_append,
        List.length_append, Nat.add_assoc]

theorem visited_eq {m : Nat} (hm : m ≤ 31) (hmask : t.sizemask = 2 ^ m - 1) (size : Nat) {i : Nat}
    (hi : i < 2 ^ m) :
    visited t size i = ((List.range size).map fun s => (i + s) % 2 ^ m).flatMap t.table := by
  induction size generalizing i with
  | zero => rfl
  | succ size ih =>
    have hpow : 2 ^ m ≤ 2 ^ 31 := Nat.pow_le_pow_right (by decide) hm
    have hnext : (i + 1) % 2 ^ 32 &&& t.sizemask = (i + 1) % 2 ^ m := by
      rw [hmask, Nat.and_two_pow_sub_one_eq_mod, Nat.mod_eq_of_lt (a := i + 1) (by omega)]
    rw [visited, hnext, ih (Nat.mod_lt _ (Nat.two_pow_pos m)), List.range_succ_eq_map, List.map_cons,
      List.flatMap_cons, List.map_map, Nat.add_zero (n := i), Nat.mod_eq_of_lt hi]
    congr 2
    refine List.map_congr_left fun s _ => ?_
    simp only [Function.comp_apply, Nat.mod_add_mod, Nat.succ_eq_add_one]
    congr 1
    omega

/-- A full turn visits every bucket once. -/
theorem visited_perm {m : Nat} (hm : m ≤ 31) (hmask : t.sizemask = 2 ^ m - 1) {i : Nat}
    (hi : i < 2 ^ m) : visited t (2 ^ m) i ~ contents (2 ^ m) t.table := by
  have hrotate : ((List.range (2 ^ m)).map fun s => (i + s) % 2 ^ m) = (List.range (2 ^ m)).rotate i := by
    refine List.ext_getElem (by simp) fun s _ _ => ?_
    simp [List.getElem_rotate, Nat.add_comm]
  rw [visited_eq hm hmask _ hi, hrotate]
  exact (List.rotate_perm _ i).flatMap_right _

theorem scanTable_eq (h : t.WF hash) (hsize : t.size ≠ 2 ^ 31) (random : Nat) {n : Nat}
    {des : List (DictEntry K V)} (hdes : des.length < n) :
    ∃ new, new ~ t.scanned ∧ scanTable t random (n : Int) des = some (storedUpTo n des new) := by
  have hscan : 0 ≤ toInt32 t.size → scanTable t random (n : Int) des =
      some (storedUpTo n des (visited t (toInt32 t.size).toNat ((random &&& t.sizemask) % 2 ^ 32))) := by
    intro hpos
    rw [scanTable, if_neg (Int.not_lt.mpr hpos), scanBuckets_eq _ _ hdes]
  have hnone : toInt32 t.size = 0 → t.scanned = [] →
      ∃ new, new ~ t.scanned ∧ scanTable t random (n : Int) des = some (storedUpTo n des new) := by
    intro hzero hempty
    refine ⟨[], hempty ▸ List.Perm.refl _, ?_⟩
    rw [hscan (Int.le_of_eq hzero.symm), hzero]
    rfl
  rcases h.mask with ⟨hzero, -⟩ | ⟨m, -, hpow, hmask⟩
  · exact hnone (by rw [hzero]; rfl) (by simp [Dictht.scanned, h.entries_of_size_zero hzero])
  by_cases hm : m < 31
  · have hlt : t.size < 2 ^ 31 := hpow ▸ Nat.pow_lt_pow_right (by decide) hm
    have hstart : (random &&& t.sizemask) % 2 ^ 32 = random % 2 ^ m := by
      have hmod : random % 2 ^ m < 2 ^ m := Nat.mod_lt _ (Nat.two_pow_pos m)
      rw [hmask, Nat.and_two_pow_sub_one_eq_mod]
      exact Nat.mod_eq_of_lt (by omega)
    refine ⟨_, ?_, hscan (by rw [toInt32_of_lt hlt]; exact Int.natCast_nonneg _)⟩
    rw [toInt32_of_lt hlt, Int.toNat_natCast, hstart, Dictht.scanned, if_pos hlt, Dictht.entries, hpow]
    exact visited_perm (by omega) hmask (Nat.mod_lt _ (Nat.two_pow_pos m))
  · have hm' : 32 ≤ m := by
      have hne : m ≠ 31 := fun heq => hsize (by rw [hpow, heq])
      omega
    have hlarge : 2 ^ 31 ≤ t.size := hpow ▸ Nat.pow_le_pow_right (by decide) (by omega)
    have hlow : t.size % 2 ^ 32 = 0 := by
      rw [hpow]
      exact Nat.mod_eq_zero_of_dvd (pow_dvd_pow 2 hm')
    have hzero : toInt32 t.size = 0 := by
      unfold toInt32
      rw [hlow]
      rfl
    exact hnone hzero (if_neg (Nat.not_lt.mpr hlarge))

theorem scanTable_overflow (hsize : t.size = 2 ^ 31) (random : Nat) (count : Int)
    (des : List (DictEntry K V)) : scanTable t random count des = none := by
  have hneg : toInt32 t.size < 0 := by
    rw [hsize]
    decide
  exact if_pos hneg

theorem scanned_sublist (t : Dictht K V) : t.scanned <+ t.entries := by
  unfold Dictht.scanned
  split
  · exact List.Sublist.refl _
  · exact List.nil_sublist _

theorem randomKeysLoop_overflow (random : Nat → Nat) (hsize : d.ht0.size = 2 ^ 31) (fuel turn : Nat) {n : Nat}
    {des : List (DictEntry K V)} (hdes : des.length < n) :
    randomKeysLoop d random n (fuel + 1) turn des = none := by
  simp [randomKeysLoop, Nat.not_le.mpr hdes, scanTable_overflow hsize]

section
variable (hwf : DictWF hash d) (random : Nat → Nat) {n : Nat}
include hwf

/-- One turn of the loop, as far as it gets. -/
theorem randomKeysLoop_turn (hsize : d.ht0.size ≠ 2 ^ 31) (fuel turn : Nat) {des : List (DictEntry K V)}
    (hdes : des.length < n) :
    ∃ new0, new0 ~ d.ht0.scanned ∧
      (n ≤ des.length + new0.length →
        randomKeysLoop d random n (fuel + 1) turn des = some ((des ++ new0).take n)) ∧
      (¬ n ≤ des.length + new0.length →
        (dictIsRehashing d = false ∨ d.ht1.size = 2 ^ 31 →
          randomKeysLoop d random n (fuel + 1) turn des = none) ∧
        (dictIsRehashing d = true → d.ht1.size ≠ 2 ^ 31 → ∃ new1, new1 ~ d.ht1.scanned ∧
          randomKeysLoop d random n (fuel + 1) turn des =
            if n ≤ (des ++ new0).length + new1.length then some ((des ++ new0 ++ new1).take n)
            else randomKeysLoop d random n fuel (turn + 1) (des ++ new0 ++ new1))) := by
  obtain ⟨new0, hnew0, hscan0⟩ := scanTable_eq hwf.wf0 hsize (random (2 * turn)) hdes
  have hgo : ¬ n ≤ des.length := Nat.not_le.mpr hdes
  refine ⟨new0, hnew0, fun hall => ?_, fun hmore => ⟨fun hstop => ?_, fun hr hsize1 => ?_⟩⟩
  · simp [randomKeysLoop, hgo, hscan0, storedUpTo, hall]
  · rcases hstop with hr | hsize1
    · simp [randomKeysLoop, hgo, hscan0, storedUpTo, hmore, hr]
    · simp [randomKeysLoop, hgo, hscan0, storedUpTo, hmore, scanTable_overflow hsize1]
  · have hmore' : (des ++ new0).length < n := by
      rw [List.length_append]
      omega
    obtain ⟨new1, hnew1, hscan1⟩ := scanTable_eq hwf.wf1 hsize1 (random (2 * turn + 1)) hmore'
    refine ⟨new1, hnew1, ?_⟩
    have hturn : randomKeysLoop d random n (fuel + 1) turn des =
        if (storedUpTo n (des ++ new0) new1).2 then some (storedUpTo n (des ++ new0) new1).1
        else randomKeysLoop d random n fuel (turn + 1) (storedUpTo n (des ++ new0) new1).1 := by
      have hfirst : storedUpTo n des new0 = (des ++ new0, false) := if_neg hmore
      simp only [randomKeysLoop, Nat.cast_lt, hdes, hscan0, hfirst, hr, hscan1, not_true_eq_false,
        if_false, Option.bind_eq_bind, Option.bind_some, Bool.false_eq_true, Option.pure_def]
    rw [hturn, storedUpTo]
    split <;> rfl

/-- All that is ever stored comes from what can be scanned. -/
theorem randomKeysLoop_scanned (fuel : Nat) : ∀ (turn : Nat) {des l : List (DictEntry K V)},
    randomKeysLoop d random n fuel turn des = some l →
    (∀ de ∈ des, de ∈ d.ht0.scanned ++ d.ht1.scanned) →
    ∀ de ∈ l, de ∈ d.ht0.scanned ++ d.ht1.scanned := by
  induction fuel with
  | zero => intro _ _ _ h; exact absurd h (by simp [randomKeysLoop])
  | succ fuel ih =>
    intro turn des l h hdes
    by_cases hlt : des.length < n
    swap
    · have hl : des = l := by simpa [randomKeysLoop, hlt] using h
      exact hl ▸ hdes
    have hsize : d.ht0.size ≠ 2 ^ 31 := by
      intro hsize
      rw [randomKeysLoop_overflow random hsize fuel turn hlt] at h
      exact absurd h (by simp)
    obtain ⟨new0, hnew0, hall, hmore⟩ := randomKeysLoop_turn hwf random hsize fuel turn hlt
    have hmem0 : ∀ de ∈ des ++ new0, de ∈ d.ht0.scanned ++ d.ht1.scanned := by
      intro de hde
      refine (List.mem_append.mp hde).elim (hdes de) fun hde => ?_
      exact List.mem_append_left _ (hnew0.mem_iff.mp hde)
    by_cases hn : n ≤ des.length + new0.length
    · rw [hall hn, Option.some.injEq] at h
      exact fun de hde => hmem0 de (List.mem_of_mem_take (h ▸ hde))
    obtain ⟨hnone, hnext⟩ := hmore hn
    by_cases hstop : dictIsRehashing d = false ∨ d.ht1.size = 2 ^ 31
    · rw [hnone hstop] at h
      exact absurd h (by simp)
    simp only [not_or, Bool.not_eq_false] at hstop
    obtain ⟨new1, hnew1, hturn⟩ := hnext hstop.1 hstop.2
    have hmem1 : ∀ de ∈ des ++ new0 ++ new1, de ∈ d.ht0.scanned ++ d.ht1.scanned := by
      intro de hde
      refine (List.mem_append.mp hde).elim (hmem0 de) fun hde => ?_
      exact List.mem_append_right _ (hnew1.mem_iff.mp hde)
    rw [hturn] at h
    split at h
    · rw [Option.some.injEq] at h
      exact fun de hde => hmem1 de (List.mem_of_mem_take (h ▸ hde))
    · exact ih _ h hmem1

end

theorem randomKeysCount_eq {count : Int} (hpos : 0 ≤ count) (hint : count < 2 ^ 31) :
    randomKeysCount d count = min count (dictSize d) := by
  rw [randomKeysCount, Int.emod_eq_of_lt hpos (by omega)]
  split
  · rw [toInt32_of_lt (by omega)]
    omega
  · omega

theorem condition_of_randomKeysRight (hwf : DictWF hash d) {count : Int} (hint : count < 2 ^ 31)
    (h : RandomKeysRight d count) : RandomKeysCondition d count := by
  obtain ⟨fuel, des, hres, hlen, hnd, -⟩ := h fun _ => 0
  have hpos : 0 ≤ count := by omega
  refine ⟨hpos, or_iff_not_imp_left.mpr fun hcount => or_iff_not_imp_left.mpr fun hempty => ?_⟩
  rw [dictGetRandomKeys, randomKeysCount_eq hpos hint, ← hlen] at hres
  rw [← hlen]
  norm_cast
  have hsome : ([] : List (DictEntry K V)).length < des.length := by
    rw [List.length_nil]
    omega
  cases fuel with
  | zero => exact absurd hres (by simp [randomKeysLoop])
  | succ fuel =>
    have hsize : d.ht0.size ≠ 2 ^ 31 := by
      intro hsize
      rw [randomKeysLoop_overflow _ hsize fuel 0 hsome] at hres
      exact absurd hres (by simp)
    obtain ⟨new0, hnew0, -, hmore⟩ := randomKeysLoop_turn hwf (fun _ => 0) hsize fuel 0 hsome
    refine ⟨hsize, or_iff_not_imp_left.mpr fun hn => ?_⟩
    rw [← hnew0.length_eq, ← Nat.zero_add new0.length] at hn
    have hsize1 : d.ht1.size ≠ 2 ^ 31 := by
      intro hsize1
      rw [(hmore hn).1 (.inr hsize1)] at hres
      exact absurd hres (by simp)
    refine ⟨hsize1, ?_⟩
    have hsub := randomKeysLoop_scanned hwf _ _ 0 hres (fun de hde => absurd hde List.not_mem_nil)
    rw [← List.length_append]
    exact (List.subperm_of_subset hnd hsub).length_le

theorem randomKeysRight_of_condition (hwf : DictWF hash d) {count : Int} (hint : count < 2 ^ 31)
    (h : RandomKeysCondition d count) : RandomKeysRight d count := by
  obtain ⟨hpos, hcond⟩ := h
  intro random
  obtain ⟨n, hn⟩ : ∃ n : Nat, min count (dictSize d) = n := ⟨(min count (dictSize d)).toNat, by omega⟩
  -- what is stored is the beginning of an arrangement of the entries
  suffices hsuff : ∃ fuel stored, randomKeysLoop d random n fuel 0 [] = some (stored.take n) ∧
      n ≤ stored.length ∧ (stored ~ d.ht0.scanned ∨ stored ~ d.ht0.scanned ++ d.ht1.scanned) by
    obtain ⟨fuel, stored, hres, hlen, hperm⟩ := hsuff
    have hsub : ∃ part, stored ~ part ∧ part <+ d.entries := by
      have h0 := scanned_sublist d.ht0
      rcases hperm with hperm | hperm
      · exact ⟨_, hperm, h0.trans (List.sublist_append_left _ _)⟩
      · exact ⟨_, hperm, h0.append (scanned_sublist d.ht1)⟩
    obtain ⟨part, hpart, hentries⟩ := hsub
    have hnd : stored.Nodup := hpart.nodup_iff.mpr (hentries.nodup (List.Nodup.of_map _ hwf.keys_nodup))
    refine ⟨fuel, stored.take n, ?_, ?_, hnd.sublist (List.take_sublist _ _), fun de hde => ?_⟩
    · rw [dictGetRandomKeys, randomKeysCount_eq hpos hint, hn, hres]
    · rw [hn, List.length_take, min_eq_left hlen]
    · exact hentries.subset (hpart.mem_iff.mp (List.mem_of_mem_take hde))
  rw [hn] at hcond
  norm_cast at hcond
  rcases Nat.eq_zero_or_pos n with rfl | hpos'
  · exact ⟨1, d.ht0.scanned, by simp [randomKeysLoop], Nat.zero_le _, .inl (List.Perm.refl _)⟩
  obtain ⟨hsize, hcond⟩ := (hcond.resolve_left (by omega)).resolve_left (by omega)
  have hnone : ([] : List (DictEntry K V)).length < n := hpos'
  obtain ⟨new0, hnew0, hall, hmore⟩ := randomKeysLoop_turn hwf random hsize 0 0 hnone
  rw [List.length_nil, Nat.zero_add, List.nil_append] at hall hmore
  by_cases hfirst : n ≤ new0.length
  · exact ⟨1, new0, hall hfirst, hfirst, .inl hnew0⟩
  obtain ⟨hsize1, hboth⟩ := hcond.resolve_left (hnew0.length_eq ▸ hfirst)
  have hr : dictIsRehashing d = true := by
    by_contra hidle
    have hreset : d.ht1.scanned = [] := by
      rw [hwf.idle (by simpa [dictIsRehashing] using hidle)]
      rfl
    rw [hreset, ← hnew0.length_eq] at hboth
    exact hfirst hboth
  obtain ⟨new1, hnew1, hturn⟩ := (hmore hfirst).2 hr hsize1
  have hlen : n ≤ new0.length + new1.length := by rw [hnew0.length_eq, hnew1.length_eq]; exact hboth
  rw [if_pos hlen] at hturn
  exact ⟨1, new0 ++ new1, hturn, by rw [List.length_append]; exact hlen, .inr (hnew0.append hnew1)⟩

/-- For a count that is an `int`, the function is right for all random numbers exactly if the count is
not negative and the entries it asks for are in tables that are scanned. -/
theorem randomKeys_right_iff (hwf : DictWF hash d) {count : Int} (hint : count < 2 ^ 31) :
    RandomKeysRight d count ↔ RandomKeysCondition d count :=
  ⟨condition_of_randomKeysRight hwf hint, randomKeysRight_of_condition hwf hint⟩

/-- One entry of two. -/
theorem randomKeys_right_two : RandomKeysRight twoKeys 1 :=
  (randomKeys_right_iff twoKeys_wf (by decide)).mpr (by unfold RandomKeysCondition; decide +kernel)

def hugeTable : Dict Nat Nat :=
  (dictAdd (fun k : Nat => UInt32.ofNat k) true (dictExpand dictCreate (2 ^ 32)).1 1 10).1

/-- A table of `2 ^ 32` buckets is not scanned, and of a negative count all entries are returned. -/
theorem randomKeys_not_right :
    DictWF (fun k : Nat => UInt32.ofNat k) hugeTable ∧ ¬ RandomKeysRight hugeTable 5 ∧
      ¬ RandomKeysRight twoKeys (-1) := by
  have hcreate : DictWF (fun k : Nat => UInt32.ofNat k) (dictExpand (dictCreate : Dict Nat Nat) (2 ^ 32)).1 :=
    (dictExpand_spec (dictCreate_wf _) (by decide)).wf
  have hwf : DictWF (fun k : Nat => UInt32.ofNat k) hugeTable :=
    (dictAdd_keeps hcreate (by decide +kernel) 10).1
  refine ⟨hwf, fun h => ?_, fun h => ?_⟩
  · have hcond := condition_of_randomKeysRight hwf (by decide) h
    exact absurd hcond (by unfold RandomKeysCondition; decide +kernel)
  · exact absurd (condition_of_randomKeysRight twoKeys_wf (by decide) h).1 (by decide)

end RedisCluster
