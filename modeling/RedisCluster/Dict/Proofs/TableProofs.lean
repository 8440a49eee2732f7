import Mathlib.Data.Nat.Bitwise
import RedisCluster.Dict.Dict

/-!
# One table of a dict

The invariant of a single table and what linking, unlinking and overwriting an entry does to its
contents.
-/

open scoped List

namespace RedisCluster

open RedisCluster.Lib

variable {K V : Type}

def Dictht.entries (t : Dictht K V) : List (DictEntry K V) := contents t.size t.table

/-- The invariant of a table: the size is 0 or a power of two up to `2 ^ 60`, every entry is in the bucket of its
key, and `used` counts the entries. -/
structure Dictht.WF (hash : K → UInt32) (t : Dictht K V) : Prop where
  mask : (t.size = 0 ∧ t.sizemask = 0) ∨ ∃ n ≤ 60, t.size = 2 ^ n ∧ t.sizemask = 2 ^ n - 1
  placed : ∀ i, ∀ e ∈ t.table i, i = t.bucketOf hash e.key ∧ i < t.size
  used_eq : t.used = t.entries.length

theorem reset_wf (hash : K → UInt32) : (_dictReset : Dictht K V).WF hash :=
  { mask := Or.inl ⟨rfl, rfl⟩
    placed := fun _ _ he => absurd he (by simp [_dictReset])
    used_eq := rfl }

@[simp] theorem reset_entries : (_dictReset : Dictht K V).entries = [] := rfl

section Table

variable {hash : K → UInt32} {t : Dictht K V}

theorem Dictht.WF.bucket_lt (h : t.WF hash) (hs : 0 < t.size) (k : K) :
    t.bucketOf hash k < t.size := by
  rcases h.mask with ⟨h0, -⟩ | ⟨n, -, hn, hm⟩
  · omega
  · rw [Dictht.bucketOf, hm, hn, Nat.and_two_pow_sub_one_eq_mod]
    exact Nat.mod_lt _ (Nat.two_pow_pos n)

theorem Dictht.WF.mem_bucket (h : t.WF hash) {e : DictEntry K V} :
    e ∈ t.table (t.bucketOf hash e.key) ↔ e ∈ t.entries := by
  rw [Dictht.entries, mem_contents]
  constructor
  · intro he
    exact ⟨_, (h.placed _ e he).2, he⟩
  · rintro ⟨i, -, hi⟩
    obtain ⟨hb, -⟩ := h.placed i e hi
    rwa [← hb]

theorem Dictht.WF.entries_of_size_zero (_h : t.WF hash) (hs : t.size = 0) : t.entries = [] := by
  rw [Dictht.entries, hs, contents_zero]

@[simp] theorem push_used (t : Dictht K V) (i : Nat) (de : DictEntry K V) :
    (t.push i de).used = t.used + 1 := rfl

theorem push_entries (t : Dictht K V) {i : Nat} (de : DictEntry K V) (hi : i < t.size) :
    (t.push i de).entries ~ de :: t.entries :=
  contents_update_cons hi t.table de

theorem Dictht.WF.push (h : t.WF hash) (hs : 0 < t.size) (de : DictEntry K V) :
    (t.push (t.bucketOf hash de.key) de).WF hash where
  mask := h.mask
  placed := by
    intro i e he
    by_cases hi : i = t.bucketOf hash de.key
    · subst hi
      simp only [Dictht.push, Function.update_self, List.mem_cons] at he
      rcases he with rfl | he
      · exact ⟨rfl, h.bucket_lt hs _⟩
      · exact h.placed _ e he
    · simp only [Dictht.push, Function.update_of_ne hi] at he
      exact h.placed i e he
  used_eq := by
    rw [(push_entries t de (h.bucket_lt hs de.key)).length_eq, push_used, h.used_eq,
      List.length_cons]

variable [DecidableEq K]

theorem chainFind_some {k : K} {l : List (DictEntry K V)} {e : DictEntry K V}
    (h : chainFind k l = some e) : e ∈ l ∧ e.key = k := by
  refine ⟨List.mem_of_find?_eq_some h, ?_⟩
  simpa using List.find?_some h

theorem chainFind_isSome {k : K} {l : List (DictEntry K V)} :
    (chainFind k l).isSome = true ↔ ∃ e ∈ l, e.key = k := by
  simp [chainFind]

theorem Dictht.WF.find_isSome (h : t.WF hash) (k : K) :
    (chainFind k (t.table (t.bucketOf hash k))).isSome = true ↔ ∃ e ∈ t.entries, e.key = k := by
  rw [chainFind_isSome]
  constructor
  · rintro ⟨e, he, rfl⟩
    exact ⟨e, h.mem_bucket.mp he, rfl⟩
  · rintro ⟨e, he, rfl⟩
    exact ⟨e, h.mem_bucket.mpr he, rfl⟩

theorem Dictht.WF.find_some (h : t.WF hash) {k : K} {e : DictEntry K V}
    (hf : chainFind k (t.table (t.bucketOf hash k)) = some e) : e ∈ t.entries ∧ e.key = k := by
  obtain ⟨hmem, rfl⟩ := chainFind_some hf
  exact ⟨h.mem_bucket.mp hmem, rfl⟩

theorem Dictht.WF.unlink (h : t.WF hash) {k : K} (hk : ∃ e ∈ t.entries, e.key = k) :
    (t.unlink hash k).WF hash ∧
      ∃ e, e.key = k ∧ t.entries ~ e :: (t.unlink hash k).entries := by
  obtain ⟨e0, he0, hek⟩ := hk
  have hb0 : e0 ∈ t.table (t.bucketOf hash k) := by rw [← hek]; exact h.mem_bucket.mpr he0
  obtain ⟨e, he, hke, hperm⟩ : ∃ e ∈ t.table (t.bucketOf hash k), e.key = k ∧
      t.table (t.bucketOf hash k) ~ e :: chainErase k (t.table (t.bucketOf hash k)) := by
    obtain ⟨e, l1, l2, -, hpe, heq, her⟩ :=
      List.exists_of_eraseP (p := fun e : DictEntry K V => decide (e.key = k)) hb0 (by simpa using hek)
    refine ⟨e, by rw [heq]; simp, by simpa using hpe, ?_⟩
    rw [chainErase, her, heq]
    exact List.perm_middle
  have hlt : t.bucketOf hash k < t.size := (h.placed _ e0 hb0).2
  have hcont : t.entries ~ e :: (t.unlink hash k).entries := by
    have h1 := contents_update hlt t.table (chainErase k (t.table (t.bucketOf hash k)))
    have h2 : (t.unlink hash k).entries ++ e :: chainErase k (t.table (t.bucketOf hash k)) ~
        t.entries ++ chainErase k (t.table (t.bucketOf hash k)) :=
      (List.Perm.append_left _ hperm.symm).trans h1
    have h3 : (e :: (t.unlink hash k).entries) ++ chainErase k (t.table (t.bucketOf hash k)) ~
        t.entries ++ chainErase k (t.table (t.bucketOf hash k)) := List.perm_middle.symm.trans h2
    exact ((List.perm_append_right_iff _).mp h3).symm
  refine ⟨{ mask := h.mask, placed := ?_, used_eq := ?_ }, e, hke, hcont⟩
  · intro i x hx
    by_cases hi : i = t.bucketOf hash k
    · subst hi
      simp only [Dictht.unlink, Function.update_self] at hx
      exact h.placed _ x (List.mem_of_mem_eraseP hx)
    · simp only [Dictht.unlink, Function.update_of_ne hi] at hx
      exact h.placed i x hx
  · have hlen := hcont.length_eq
    rw [List.length_cons] at hlen
    show t.used - 1 = _
    rw [h.used_eq, hlen]
    rfl

def overwrite (k : K) (v : V) (e : DictEntry K V) : DictEntry K V :=
  if e.key = k then { e with val := v } else e

@[simp] theorem overwrite_key (k : K) (v : V) (e : DictEntry K V) : (overwrite k v e).key = e.key := by
  unfold overwrite
  split <;> rfl

theorem map_overwrite_of_not_mem {k : K} {l : List (DictEntry K V)} (v : V)
    (h : ∀ e ∈ l, e.key ≠ k) : l.map (overwrite k v) = l := by
  conv_rhs => rw [← List.map_id l]
  exact List.map_congr_left fun e he => if_neg (h e he)

theorem Dictht.WF.setVal_entries (h : t.WF hash) (k : K) (v : V) :
    (t.setVal hash k v).entries = t.entries.map (overwrite k v) := by
  simp only [Dictht.entries, contents, List.map_flatMap]
  refine List.flatMap_congr fun i _ => ?_
  by_cases hi : i = t.bucketOf hash k
  · subst hi
    simp [Dictht.setVal, overwrite]
  · have h1 : (t.setVal hash k v).table i = t.table i := by
      simp only [Dictht.setVal, Function.update_of_ne hi]
    rw [h1, map_overwrite_of_not_mem]
    rintro e he rfl
    exact hi (h.placed i e he).1

theorem Dictht.WF.setVal (h : t.WF hash) (k : K) (v : V) : (t.setVal hash k v).WF hash where
  mask := h.mask
  placed := by
    intro i e he
    by_cases hi : i = t.bucketOf hash k
    · subst hi
      simp only [Dictht.setVal, Function.update_self, List.mem_map] at he
      obtain ⟨x, hx, rfl⟩ := he
      obtain ⟨h1, h2⟩ := h.placed _ x hx
      refine ⟨?_, h2⟩
      split <;> exact h1
    · simp only [Dictht.setVal, Function.update_of_ne hi] at he
      exact h.placed i e he
  used_eq := by
    rw [h.setVal_entries, List.length_map, ← h.used_eq]
    rfl

end Table

end RedisCluster

/-!
## Incremental rehashing keeps the contents

`DictWF` is the invariant of a dict. A rehash step, the end of a rehash and `dictExpand` keep it,
and none of them changes the entries, up to their order.
-/

open scoped List

namespace RedisCluster

open RedisCluster.Lib

variable {K V : Type}

def Dict.entries (d : Dict K V) : List (DictEntry K V) := d.ht0.entries ++ d.ht1.entries

/-- The invariant of a dict. While `rehashidx` is -1 the second table is unused; while it is not,
both tables are allocated and the buckets of `ht[0]` below it are empty. -/
structure DictWF (hash : K → UInt32) (d : Dict K V) : Prop where
  wf0 : d.ht0.WF hash
  wf1 : d.ht1.WF hash
  keys_nodup : (d.entries.map DictEntry.key).Nodup
  idle : d.rehashidx = -1 → d.ht1 = _dictReset
  active : d.rehashidx ≠ -1 → 0 ≤ d.rehashidx ∧ 0 < d.ht0.size ∧ 0 < d.ht1.size ∧
    ∀ i < d.rehashidx.toNat, d.ht0.table i = []

/-- `d'` is `d` after some internal reorganization: the same entries and iterators. -/
structure Reorganized (hash : K → UInt32) (d d' : Dict K V) : Prop where
  wf : DictWF hash d'
  entries_perm : d'.entries ~ d.entries
  iterators_eq : d'.iterators = d.iterators

theorem dictIsRehashing_iff (d : Dict K V) : dictIsRehashing d = true ↔ d.rehashidx ≠ -1 := by
  simp [dictIsRehashing]

theorem dictIsRehashing_false_iff (d : Dict K V) : dictIsRehashing d = false ↔ d.rehashidx = -1 := by
  simp [dictIsRehashing]

theorem dictCreate_wf (hash : K → UInt32) : DictWF hash (dictCreate : Dict K V) :=
  { wf0 := reset_wf hash
    wf1 := reset_wf hash
    keys_nodup := List.nodup_nil
    idle := fun _ => rfl
    active := fun h => absurd rfl h }

section

variable {hash : K → UInt32} {d : Dict K V}

theorem DictWF.reorganized_refl (h : DictWF hash d) : Reorganized hash d d :=
  ⟨h, List.Perm.refl _, rfl⟩

theorem Reorganized.trans {d' d'' : Dict K V} (h1 : Reorganized hash d d')
    (h2 : Reorganized hash d' d'') : Reorganized hash d d'' :=
  ⟨h2.wf, h2.entries_perm.trans h1.entries_perm, h2.iterators_eq.trans h1.iterators_eq⟩

theorem DictWF.size_eq (h : DictWF hash d) : dictSize d = d.entries.length := by
  rw [dictSize, h.wf0.used_eq, h.wf1.used_eq, Dict.entries, List.length_append]

theorem DictWF.entries_of_size_zero (h : DictWF hash d) (hs : d.ht0.size = 0) : d.entries = [] := by
  have hidle : d.rehashidx = -1 := by
    by_contra hne
    have := (h.active hne).2.1
    omega
  rw [Dict.entries, h.wf0.entries_of_size_zero hs, h.idle hidle, reset_entries, List.nil_append]

theorem skipEmpty_spec (t : Dictht K V) {j : Nat} (hj : t.table j ≠ []) :
    ∀ fuel i, i ≤ j → j < i + fuel →
      i ≤ skipEmpty t fuel i ∧ skipEmpty t fuel i ≤ j ∧ t.table (skipEmpty t fuel i) ≠ [] ∧
        ∀ m, i ≤ m → m < skipEmpty t fuel i → t.table m = [] := by
  intro fuel
  induction fuel with
  | zero => intro i h1 h2; omega
  | succ fuel ih =>
    intro i hij hlt
    unfold skipEmpty
    by_cases he : (t.table i).isEmpty
    · have hnil : t.table i = [] := List.isEmpty_iff.mp he
      have hne : i ≠ j := fun hc => hj (hc ▸ hnil)
      obtain ⟨h1, h2, h3, h4⟩ := ih (i + 1) (by omega) (by omega)
      rw [if_pos he]
      refine ⟨by omega, h2, h3, fun m hm hlt => ?_⟩
      by_cases hmi : m = i
      · rw [hmi, hnil]
      · exact h4 m (by omega) hlt
    · rw [if_neg he]
      refine ⟨le_rfl, hij, fun hc => he (by simp [hc]), fun m h1 h2 => ?_⟩
      omega

/-- The chain moves entry by entry: `ht[1]` gains its entries and `used` of `ht[0]` counts them off,
while the buckets of `ht[0]` stay. -/
theorem moveChain_spec (des : List (DictEntry K V)) :
    ∀ d : Dict K V, d.ht1.WF hash → 0 < d.ht1.size →
      let d' := moveChain hash des d
      d'.ht1.WF hash ∧ d'.ht1.entries ~ d.ht1.entries ++ des ∧ d'.ht1.size = d.ht1.size ∧
        d'.ht0.table = d.ht0.table ∧ d'.ht0.size = d.ht0.size ∧
        d'.ht0.sizemask = d.ht0.sizemask ∧ d'.ht0.used = d.ht0.used - des.length ∧
        d'.rehashidx = d.rehashidx ∧ d'.iterators = d.iterators := by
  induction des with
  | nil => intro d h1 h2; simpa [moveChain] using h1
  | cons de des ih =>
    intro d h1 h2
    obtain ⟨a1, a2, a3, a4, a5, a6, a7, a8, a9⟩ := ih
      { d with
        ht0 := { d.ht0 with used := d.ht0.used - 1 }
        ht1 := d.ht1.push (d.ht1.bucketOf hash de.key) de } (h1.push h2 de) h2
    refine ⟨a1, ?_, a3, a4, a5, a6, ?_, a8, a9⟩
    · have hp : (d.ht1.push (d.ht1.bucketOf hash de.key) de).entries ++ des ~
          (de :: d.ht1.entries) ++ des :=
        (push_entries d.ht1 de (h1.bucket_lt h2 de.key)).append_right des
      exact (a2.trans hp).trans List.perm_middle.symm
    · simp only at a7
      show (moveChain hash des _).ht0.used = _
      rw [a7, List.length_cons]
      omega

theorem DictWF.rehashidx_lt (h : DictWF hash d) (hr : d.rehashidx ≠ -1) (hu : d.ht0.used ≠ 0) :
    ∃ j, d.rehashidx.toNat ≤ j ∧ j < d.ht0.size ∧ d.ht0.table j ≠ [] := by
  have hne : d.ht0.entries ≠ [] := by
    intro hc
    rw [h.wf0.used_eq, hc] at hu
    exact hu rfl
  obtain ⟨e, he⟩ := List.exists_mem_of_ne_nil _ hne
  obtain ⟨j, hj, hej⟩ := mem_contents.mp he
  have hnil : d.ht0.table j ≠ [] := List.ne_nil_of_mem hej
  refine ⟨j, ?_, hj, hnil⟩
  by_contra hlt
  exact hnil ((h.active hr).2.2.2 j (by omega))

theorem rehashBucket_spec (h : DictWF hash d) (hr : d.rehashidx ≠ -1) (hu : d.ht0.used ≠ 0) :
    Reorganized hash d (rehashBucket hash d) ∧ (rehashBucket hash d).rehashidx ≠ -1 := by
  obtain ⟨hidx, hs0, hs1, hbelow⟩ := h.active hr
  obtain ⟨j, hj1, hj2, hj3⟩ := h.rehashidx_lt hr hu
  obtain ⟨b1, b2, b3, b4⟩ := skipEmpty_spec d.ht0 hj3 (d.ht0.size - d.rehashidx.toNat)
    d.rehashidx.toNat hj1 (by omega)
  simp only [rehashBucket]
  set i := skipEmpty d.ht0 (d.ht0.size - d.rehashidx.toNat) d.rehashidx.toNat with hi
  obtain ⟨a1, a2, a3, a4, a5, a6, a7, a8, a9⟩ := moveChain_spec (d.ht0.table i) d h.wf1 hs1
  set d1 := moveChain hash (d.ht0.table i) d with hd1
  have hilt : i < d.ht0.size := by omega
  have hc0 : contents d.ht0.size (Function.update d.ht0.table i []) ++ d.ht0.table i ~
      d.ht0.entries := contents_update_nil hilt d.ht0.table
  have hent0 : (Dictht.entries
      { d1.ht0 with table := Function.update d1.ht0.table i [] }) =
      contents d.ht0.size (Function.update d.ht0.table i []) := by
    simp only [Dictht.entries, a4, a5]
  have hperm : Dict.entries { d1 with
      ht0 := { d1.ht0 with table := Function.update d1.ht0.table i [] }
      rehashidx := (i : Int) + 1 } ~ d.entries := by
    simp only [Dict.entries, hent0]
    calc contents d.ht0.size (Function.update d.ht0.table i []) ++ d1.ht1.entries
        _ ~ contents d.ht0.size (Function.update d.ht0.table i []) ++
            (d.ht1.entries ++ d.ht0.table i) := List.Perm.append_left _ a2
        _ ~ contents d.ht0.size (Function.update d.ht0.table i []) ++
            (d.ht0.table i ++ d.ht1.entries) := List.Perm.append_left _ List.perm_append_comm
        _ ~ d.ht0.entries ++ d.ht1.entries := by
            rw [← List.append_assoc]
            exact hc0.append_right _
  refine ⟨⟨{ wf0 := ?_, wf1 := a1, keys_nodup := ?_, idle := ?_, active := ?_ }, hperm, a9⟩, ?_⟩
  · refine { mask := ?_, placed := ?_, used_eq := ?_ }
    · simp only [a5, a6]; exact h.wf0.mask
    · intro m e he
      simp only [a4, Dictht.bucketOf, a5, a6] at he ⊢
      by_cases hm : m = i
      · subst hm; simp at he
      · rw [Function.update_of_ne hm] at he
        exact h.wf0.placed m e he
    · have hlen := hc0.length_eq
      rw [List.length_append] at hlen
      rw [hent0]
      show d1.ht0.used = _
      rw [a7, h.wf0.used_eq]
      omega
  · exact (hperm.map DictEntry.key).nodup_iff.mpr h.keys_nodup
  · intro hc
    simp only at hc
    omega
  · intro _
    simp only [a3, a4, a5]
    refine ⟨by omega, hs0, hs1, fun m hm => ?_⟩
    by_cases hmi : m = i
    · rw [hmi, Function.update_self]
    · rw [Function.update_of_ne hmi]
      by_cases hlt : m < d.rehashidx.toNat
      · exact hbelow m hlt
      · exact b4 m (by omega) (by omega)
  · show (i : Int) + 1 ≠ -1
    omega

theorem rehashDone_spec (h : DictWF hash d) (hu : d.ht0.used = 0) :
    Reorganized hash d (rehashDone d) := by
  have hnil : d.ht0.entries = [] := by
    have := h.wf0.used_eq
    rw [hu] at this
    exact List.length_eq_zero_iff.mp this.symm
  have hperm : (rehashDone d).entries = d.entries := by
    simp [rehashDone, Dict.entries, hnil]
  refine ⟨{ wf0 := h.wf1, wf1 := reset_wf hash, keys_nodup := ?_, idle := fun _ => rfl,
            active := fun hc => absurd rfl hc }, by rw [hperm], rfl⟩
  rw [hperm]
  exact h.keys_nodup

theorem rehashLoop_spec (n : Nat) : ∀ d : Dict K V, DictWF hash d → d.rehashidx ≠ -1 →
    Reorganized hash d (rehashLoop hash n d).1 := by
  induction n with
  | zero => intro d h _; exact h.reorganized_refl
  | succ n ih =>
    intro d h hr
    unfold rehashLoop
    by_cases hu : d.ht0.used = 0
    · rw [if_pos hu]
      exact rehashDone_spec h hu
    · rw [if_neg hu]
      obtain ⟨h1, h2⟩ := rehashBucket_spec h hr hu
      exact h1.trans (ih _ h1.wf h2)

theorem dictRehash_spec (h : DictWF hash d) (n : Nat) :
    Reorganized hash d (dictRehash hash d n).1 := by
  unfold dictRehash
  by_cases hr : dictIsRehashing d
  · simpa [hr] using rehashLoop_spec n d h ((dictIsRehashing_iff d).mp hr)
  · simpa [hr] using h.reorganized_refl

theorem rehashStepIfNeeded_spec (h : DictWF hash d) :
    Reorganized hash d (rehashStepIfNeeded hash d) := by
  unfold rehashStepIfNeeded _dictRehashStep
  split
  · split
    · exact dictRehash_spec h 1
    · exact h.reorganized_refl
  · exact h.reorganized_refl

theorem nextPowerFrom_pow {size : Nat} (hs : size ≤ 2 ^ 60) :
    ∀ fuel, ∀ m ≤ 60, ∃ n ≤ 60, nextPowerFrom size fuel (2 ^ m) = 2 ^ n := by
  intro fuel
  induction fuel with
  | zero => intro m hm; exact ⟨m, hm, rfl⟩
  | succ fuel ih =>
    intro m hm
    unfold nextPowerFrom
    split
    · exact ⟨m, hm, rfl⟩
    · rename_i hlt
      have hne : m ≠ 60 := by
        rintro rfl
        exact hlt hs
      rw [← pow_succ]
      exact ih (m + 1) (by omega)

theorem _dictNextPower_pow {size : Nat} (h : size ≤ 2 ^ 60) :
    ∃ n ≤ 60, _dictNextPower size = 2 ^ n := by
  have hlt : ¬ size ≥ LONG_MAX := by
    unfold LONG_MAX
    omega
  rw [_dictNextPower, if_neg hlt]
  exact nextPowerFrom_pow h 64 2 (by omega)

theorem nextPowerFrom_ge (size : Nat) :
    ∀ fuel i, size ≤ i * 2 ^ fuel → size ≤ nextPowerFrom size fuel i := by
  intro fuel
  induction fuel with
  | zero => intro i h; simpa [nextPowerFrom] using h
  | succ fuel ih =>
    intro i h
    unfold nextPowerFrom
    split
    · assumption
    · refine ih (i * 2) ?_
      rwa [pow_succ, Nat.mul_comm (2 ^ fuel), ← Nat.mul_assoc] at h

theorem _dictNextPower_ge {size : Nat} (h : size ≤ 2 ^ 60) : size ≤ _dictNextPower size := by
  have hlt : ¬ size ≥ LONG_MAX := by
    unfold LONG_MAX
    omega
  rw [_dictNextPower, if_neg hlt]
  refine nextPowerFrom_ge size 64 DICT_HT_INITIAL_SIZE ?_
  simp only [DICT_HT_INITIAL_SIZE]
  omega

@[simp] theorem newTable_entries (n : Nat) : (newTable n : Dictht K V).entries = [] :=
  contents_empty fun _ _ => rfl

theorem dictExpand_spec (h : DictWF hash d) {size : Nat} (hs : size ≤ 2 ^ 60) :
    Reorganized hash d (dictExpand d size).1 := by
  obtain ⟨n, hn60, hn⟩ := _dictNextPower_pow hs
  have hnew : (newTable (_dictNextPower size) : Dictht K V).WF hash :=
    { mask := Or.inr ⟨n, hn60, hn, by rw [newTable, hn]⟩
      placed := fun _ _ he => absurd he List.not_mem_nil
      used_eq := by rw [newTable_entries]; rfl }
  unfold dictExpand
  by_cases hc : (dictIsRehashing d || decide (d.ht0.used > size)) = true
  · simpa [hc] using h.reorganized_refl
  · have hidle : d.rehashidx = -1 := by
      rw [← dictIsRehashing_false_iff]
      simp only [Bool.or_eq_true, not_or, Bool.not_eq_true] at hc
      exact hc.1
    simp only [if_neg hc]
    by_cases hz : d.ht0.size = 0
    · have hperm : Dict.entries { d with ht0 := newTable (_dictNextPower size) } = d.entries := by
        rw [h.entries_of_size_zero hz, Dict.entries, newTable_entries, h.idle hidle, reset_entries,
          List.nil_append]
      simp only [if_pos hz]
      refine ⟨{ wf0 := hnew, wf1 := h.wf1, keys_nodup := by rw [hperm]; exact h.keys_nodup,
                idle := h.idle, active := fun hc => absurd hidle hc }, by rw [hperm], rfl⟩
    · have hperm : Dict.entries { d with
          ht1 := newTable (_dictNextPower size), rehashidx := 0 } = d.entries := by
        rw [Dict.entries, newTable_entries, Dict.entries, h.idle hidle, reset_entries]
      simp only [if_neg hz]
      refine ⟨{ wf0 := h.wf0, wf1 := hnew, keys_nodup := by rw [hperm]; exact h.keys_nodup,
                idle := fun hc => absurd hc (by simp), active := fun _ => ?_ }, by rw [hperm], rfl⟩
      refine ⟨le_rfl, by simp only; omega, ?_, fun i hi => absurd hi (by simp)⟩
      show 0 < _dictNextPower size
      rw [hn]
      exact Nat.two_pow_pos n

end

end RedisCluster
