import RedisCluster.Dict.Proofs.TableProofs

/-!
# Adding, finding, replacing and deleting

One specification per operation, in terms of the entries before and after.
-/

open scoped List

namespace RedisCluster

open RedisCluster.Lib

variable {K V : Type}

def ExpandFits (canResize : Bool) (d : Dict K V) : Prop :=
  ∀ size ∈ expandRequest canResize d, size ≤ 2 ^ 60

instance (canResize : Bool) (d : Dict K V) : Decidable (ExpandFits canResize d) := by
  unfold ExpandFits; infer_instance

section

variable [DecidableEq K]

/-- The key is there already, or the bucket number that `_dictKeyIndex` computes for it survives the
conversion to `int`. -/
def KeyIndexFits (hash : K → UInt32) (canResize : Bool) (d : Dict K V) (k : K) : Prop :=
  ExpandFits canResize (rehashStepIfNeeded hash d) ∧
    let d' := (_dictExpandIfNeeded canResize (rehashStepIfNeeded hash d)).1
    keyPresent hash d' k = true ∨ freeBucket hash d' k < 2 ^ 31

instance (hash : K → UInt32) (canResize : Bool) (d : Dict K V) (k : K) :
    Decidable (KeyIndexFits hash canResize d k) := by unfold KeyIndexFits; infer_instance

end

theorem toInt32_of_lt {n : Nat} (h : n < 2 ^ 31) : toInt32 n = n := by
  have hmod : n % 2 ^ 32 = n := Nat.mod_eq_of_lt (by omega)
  rw [toInt32, hmod, if_pos h]

section

variable {hash : K → UInt32} {d : Dict K V} {canResize : Bool}

theorem _dictExpandIfNeeded_spec (h : DictWF hash d) (hfit : ExpandFits canResize d) :
    Reorganized hash d (_dictExpandIfNeeded canResize d).1 ∧
      (_dictExpandIfNeeded canResize d).2 = true ∧
      0 < (_dictExpandIfNeeded canResize d).1.ht0.size := by
  unfold _dictExpandIfNeeded
  cases hreq : expandRequest canResize d with
  | none =>
    refine ⟨h.reorganized_refl, rfl, ?_⟩
    by_cases hr : d.rehashidx = -1
    · by_contra hz
      have hz' : d.ht0.size = 0 := by simpa using hz
      simp [expandRequest, (dictIsRehashing_false_iff d).mpr hr, hz'] at hreq
    · exact (h.active hr).2.1
  | some size =>
    have hlt : size ≤ 2 ^ 60 := hfit size hreq
    obtain ⟨hidle, hused, hpos⟩ : dictIsRehashing d = false ∧ d.ht0.used ≤ size ∧
        (d.ht0.size = 0 → 0 < size) := by
      unfold expandRequest at hreq
      split at hreq
      · simp at hreq
      · rename_i hr
        refine ⟨by simpa using hr, ?_⟩
        split at hreq
        · rename_i hz
          obtain rfl : DICT_HT_INITIAL_SIZE = size := by simpa using hreq
          have h0 : d.ht0.used = 0 := by
            rw [h.wf0.used_eq, h.wf0.entries_of_size_zero hz, List.length_nil]
          exact ⟨by omega, fun _ => by simp [DICT_HT_INITIAL_SIZE]⟩
        · rename_i hz
          split at hreq
          · obtain rfl : d.ht0.used * 2 = size := by simpa using hreq
            exact ⟨by omega, fun hc => absurd hc hz⟩
          · simp at hreq
    have hc : ¬(dictIsRehashing d || decide (d.ht0.used > size)) = true := by
      simp [hidle, hused]
    refine ⟨dictExpand_spec h hlt, ?_, ?_⟩
    · simp only [dictExpand, if_neg hc]
      split <;> rfl
    · simp only [dictExpand, if_neg hc]
      by_cases hz : d.ht0.size = 0
      · simp only [if_pos hz]
        show 0 < _dictNextPower size
        have := _dictNextPower_ge hlt
        have := hpos hz
        omega
      · simp only [if_neg hz]
        omega

theorem DictWF.set_iterators (h : DictWF hash d) (n : Int) :
    DictWF hash { d with iterators := n } :=
  { wf0 := h.wf0, wf1 := h.wf1, keys_nodup := h.keys_nodup, idle := h.idle, active := h.active }

theorem dictNext_eq (d : Dict K V) (it : DictIterator K V) :
    ∃ n, (dictNext d it).1 = { d with iterators := n } := by
  unfold dictNext
  split
  · exact ⟨d.iterators, rfl⟩
  · simp only
    split
    · exact ⟨d.iterators + 1, rfl⟩
    · exact ⟨d.iterators, rfl⟩

theorem dictReleaseIterator_eq (d : Dict K V) (it : DictIterator K V) :
    ∃ n, dictReleaseIterator d it = { d with iterators := n } := by
  unfold dictReleaseIterator
  split
  · exact ⟨d.iterators, rfl⟩
  · exact ⟨d.iterators - 1, rfl⟩

theorem resizeRequest_le (d : Dict K V) : resizeRequest d ≤ 2 ^ 60 := by
  have h : toInt32 d.ht0.used < 2 ^ 31 := by
    unfold toInt32
    split <;> omega
  simp only [resizeRequest]
  by_cases hlt : toInt32 d.ht0.used < (DICT_HT_INITIAL_SIZE : Int)
  · rw [if_pos hlt, DICT_HT_INITIAL_SIZE]
    omega
  · rw [if_neg hlt]
    omega

theorem dictResize_spec (h : DictWF hash d) (canResize : Bool) :
    Reorganized hash d (dictResize canResize d).1 := by
  unfold dictResize
  split
  · exact h.reorganized_refl
  · exact dictExpand_spec h (resizeRequest_le d)

theorem DictWF.entries1_of_idle (h : DictWF hash d) (hr : dictIsRehashing d = false) :
    d.ht1.entries = [] := by
  rw [h.idle ((dictIsRehashing_false_iff d).mp hr), reset_entries]

variable [DecidableEq K]

theorem DictWF.keyPresent_iff (h : DictWF hash d) (k : K) :
    keyPresent hash d k = true ↔ ∃ e ∈ d.entries, e.key = k := by
  unfold keyPresent
  rw [Bool.or_eq_true, Bool.and_eq_true, h.wf0.find_isSome, h.wf1.find_isSome]
  simp only [Dict.entries, List.mem_append]
  cases hr : dictIsRehashing d with
  | true => simp [or_and_right, exists_or]
  | false => simp [h.entries1_of_idle hr]

theorem DictWF.findEntry_some (h : DictWF hash d) {k : K} {e : DictEntry K V}
    (hf : findEntry hash d k = some e) : e ∈ d.entries ∧ e.key = k := by
  unfold findEntry at hf
  rw [Dict.entries, List.mem_append]
  split at hf
  · rename_i e' he'
    obtain rfl : e' = e := by simpa using hf
    obtain ⟨h1, h2⟩ := h.wf0.find_some he'
    exact ⟨Or.inl h1, h2⟩
  · split at hf
    · obtain ⟨h1, h2⟩ := h.wf1.find_some hf
      exact ⟨Or.inr h1, h2⟩
    · simp at hf

theorem DictWF.findEntry_none (h : DictWF hash d) {k : K} :
    findEntry hash d k = none ↔ ∀ e ∈ d.entries, e.key ≠ k := by
  have hp := h.keyPresent_iff k
  have hs : (findEntry hash d k).isSome = keyPresent hash d k := by
    unfold findEntry keyPresent
    cases chainFind k (d.ht0.table (d.ht0.bucketOf hash k)) with
    | some e => rfl
    | none =>
      cases hr : dictIsRehashing d <;> simp
  rw [← Option.not_isSome_iff_eq_none, hs, hp]
  simp

theorem dictAdd_present (h : DictWF hash d) {k : K} (v : V) (hfit : KeyIndexFits hash canResize d k)
    (hk : ∃ e ∈ d.entries, e.key = k) :
    (dictAdd hash canResize d k v).2 = false ∧
      Reorganized hash d (dictAdd hash canResize d k v).1 := by
  have h1 := rehashStepIfNeeded_spec h
  obtain ⟨h2, hok, -⟩ := _dictExpandIfNeeded_spec h1.wf hfit.1
  have h12 := h1.trans h2
  have hp : keyPresent hash (_dictExpandIfNeeded canResize (rehashStepIfNeeded hash d)).1 k = true := by
    rw [h12.wf.keyPresent_iff]
    obtain ⟨e, he, hek⟩ := hk
    exact ⟨e, h12.entries_perm.mem_iff.mpr he, hek⟩
  simp only [dictAdd, _dictKeyIndex, hok, hp, if_true, Bool.not_true, Bool.false_eq_true, if_false]
  exact ⟨trivial, h12⟩

theorem dictAdd_absent (h : DictWF hash d) {k : K} (v : V) (hfit : KeyIndexFits hash canResize d k)
    (hk : ∀ e ∈ d.entries, e.key ≠ k) :
    (dictAdd hash canResize d k v).2 = true ∧
      DictWF hash (dictAdd hash canResize d k v).1 ∧
      (dictAdd hash canResize d k v).1.entries ~ ⟨k, v⟩ :: d.entries ∧
      (dictIsRehashing (dictAdd hash canResize d k v).1 = true →
        ⟨k, v⟩ ∈ (dictAdd hash canResize d k v).1.ht1.entries) := by
  have h1 := rehashStepIfNeeded_spec h
  obtain ⟨h2, hok, hpos⟩ := _dictExpandIfNeeded_spec h1.wf hfit.1
  have h12 := h1.trans h2
  have hidx := hfit.2
  simp only at hidx
  set d2 := (_dictExpandIfNeeded canResize (rehashStepIfNeeded hash d)).1 with hd2
  have habs : ∀ e ∈ d2.entries, e.key ≠ k := fun e he => hk e (h12.entries_perm.mem_iff.mp he)
  have hp : keyPresent hash d2 k = false := by
    rw [← Bool.not_eq_true, h12.wf.keyPresent_iff]
    rintro ⟨e, he, hek⟩
    exact habs e he hek
  have hlt31 : freeBucket hash d2 k < 2 ^ 31 := hidx.resolve_left (by simp [hp])
  have hint : toInt32 (freeBucket hash d2 k) = (freeBucket hash d2 k : Int) :=
    toInt32_of_lt hlt31
  have hne : ¬ (freeBucket hash d2 k : Int) = -1 := by omega
  have hback : ((freeBucket hash d2 k : Int) % 2 ^ 61).toNat = freeBucket hash d2 k := by omega
  have hnodup : ∀ l : List (DictEntry K V), l ~ ⟨k, v⟩ :: d2.entries →
      (l.map DictEntry.key).Nodup := by
    intro l hl
    rw [(hl.map DictEntry.key).nodup_iff, List.map_cons, List.nodup_cons]
    refine ⟨?_, h12.wf.keys_nodup⟩
    rintro hmem
    obtain ⟨e, he, hek⟩ := List.mem_map.mp hmem
    exact habs e he hek
  simp only [dictAdd, _dictKeyIndex, hok, ← hd2, hp, Bool.not_true, Bool.false_eq_true, if_false,
    hint, hne, hback]
  cases hr : dictIsRehashing d2 with
  | true =>
    have hr' := (dictIsRehashing_iff d2).mp hr
    obtain ⟨i1, i2, i3, i4⟩ := h12.wf.active hr'
    have hb : freeBucket hash d2 k = d2.ht1.bucketOf hash k := by simp [freeBucket, hr]
    have hlt := h12.wf.wf1.bucket_lt i3 k
    have hperm : d2.ht0.entries ++ (d2.ht1.push (d2.ht1.bucketOf hash k) ⟨k, v⟩).entries ~
        ⟨k, v⟩ :: d2.entries :=
      (List.Perm.append_left _ (push_entries d2.ht1 ⟨k, v⟩ hlt)).trans List.perm_middle
    simp only [if_true, hb]
    refine ⟨trivial, { wf0 := h12.wf.wf0, wf1 := h12.wf.wf1.push i3 ⟨k, v⟩,
                        keys_nodup := hnodup _ hperm, idle := fun hc => absurd hc hr',
                        active := fun _ => ⟨i1, i2, i3, i4⟩ },
      hperm.trans (List.Perm.cons _ h12.entries_perm), fun _ => ?_⟩
    exact (push_entries d2.ht1 ⟨k, v⟩ hlt).mem_iff.mpr (List.mem_cons_self ..)
  | false =>
    have hr' := (dictIsRehashing_false_iff d2).mp hr
    have hb : freeBucket hash d2 k = d2.ht0.bucketOf hash k := by simp [freeBucket, hr]
    have hlt := h12.wf.wf0.bucket_lt hpos k
    have hperm : (d2.ht0.push (d2.ht0.bucketOf hash k) ⟨k, v⟩).entries ++ d2.ht1.entries ~
        ⟨k, v⟩ :: d2.entries :=
      (push_entries d2.ht0 ⟨k, v⟩ hlt).append_right _
    simp only [Bool.false_eq_true, if_false, hb]
    refine ⟨trivial, { wf0 := h12.wf.wf0.push hpos ⟨k, v⟩, wf1 := h12.wf.wf1,
                        keys_nodup := hnodup _ hperm, idle := h12.wf.idle,
                        active := fun hc => absurd hr' hc },
      hperm.trans (List.Perm.cons _ h12.entries_perm), fun hc => ?_⟩
    exact absurd hr' ((dictIsRehashing_iff _).mp hc)

theorem dictFind_reorganized (h : DictWF hash d) (k : K) :
    Reorganized hash d (dictFind hash d k).1 := by
  unfold dictFind
  split
  · exact h.reorganized_refl
  · exact rehashStepIfNeeded_spec h

theorem dictFind_some (h : DictWF hash d) {k : K} {e : DictEntry K V}
    (hf : (dictFind hash d k).2 = some e) : e ∈ d.entries ∧ e.key = k := by
  unfold dictFind at hf
  split at hf
  · simp at hf
  · have h1 := rehashStepIfNeeded_spec h
    obtain ⟨a, b⟩ := h1.wf.findEntry_some hf
    exact ⟨h1.entries_perm.mem_iff.mp a, b⟩

theorem dictFind_none (h : DictWF hash d) {k : K} :
    (dictFind hash d k).2 = none ↔ ∀ e ∈ d.entries, e.key ≠ k := by
  unfold dictFind
  split
  · rename_i hz
    simp [h.entries_of_size_zero hz]
  · have h1 := rehashStepIfNeeded_spec h
    rw [h1.wf.findEntry_none]
    exact forall_congr' fun e => by rw [h1.entries_perm.mem_iff]

theorem DictWF.setFound (h : DictWF hash d) (k : K) (v : V) :
    DictWF hash (setFound hash d k v) ∧
      (setFound hash d k v).entries = d.entries.map (overwrite k v) := by
  have hdisj : ∀ e0 ∈ d.ht0.entries, ∀ e1 ∈ d.ht1.entries, e0.key ≠ e1.key := by
    have hn := h.keys_nodup
    rw [Dict.entries, List.map_append, List.nodup_append] at hn
    intro e0 h0 e1 h1
    exact hn.2.2 _ (List.mem_map_of_mem h0) _ (List.mem_map_of_mem h1)
  have hkeys : ∀ l : List (DictEntry K V), (l.map (overwrite k v)).map DictEntry.key =
      l.map DictEntry.key := by
    intro l
    rw [List.map_map]
    exact List.map_congr_left fun e _ => overwrite_key k v e
  have hent : (RedisCluster.setFound hash d k v).entries = d.entries.map (overwrite k v) := by
    unfold RedisCluster.setFound
    split
    · rename_i hs
      obtain ⟨e0, h0, hk0⟩ := (h.wf0.find_isSome k).mp hs
      have hm : d.ht1.entries.map (overwrite k v) = d.ht1.entries :=
        map_overwrite_of_not_mem v fun e1 h1 hc => hdisj e0 h0 e1 h1 (hk0.trans hc.symm)
      rw [Dict.entries, Dict.entries, List.map_append, h.wf0.setVal_entries, hm]
    · rename_i hs
      have hm : d.ht0.entries.map (overwrite k v) = d.ht0.entries :=
        map_overwrite_of_not_mem v fun e0 h0 hc => hs ((h.wf0.find_isSome k).mpr ⟨e0, h0, hc⟩)
      rw [Dict.entries, Dict.entries, List.map_append, h.wf1.setVal_entries, hm]
  refine ⟨?_, hent⟩
  have hnd : (((RedisCluster.setFound hash d k v).entries).map DictEntry.key).Nodup := by
    rw [hent, hkeys]
    exact h.keys_nodup
  unfold RedisCluster.setFound at hnd ⊢
  split
  · rename_i hs
    rw [if_pos hs] at hnd
    refine { wf0 := h.wf0.setVal k v, wf1 := h.wf1, keys_nodup := hnd, idle := h.idle,
             active := fun hr => ?_ }
    obtain ⟨a, b, c, hbelow⟩ := h.active hr
    refine ⟨a, b, c, fun i hi => ?_⟩
    obtain ⟨e0, h0, rfl⟩ := (h.wf0.find_isSome k).mp hs
    have hb := h.wf0.mem_bucket.mpr h0
    have hne : i ≠ d.ht0.bucketOf hash e0.key := by
      rintro rfl
      rw [hbelow _ hi] at hb
      exact List.not_mem_nil hb
    simp only [Dictht.setVal, Function.update_of_ne hne]
    exact hbelow i hi
  · rename_i hs
    rw [if_neg hs] at hnd
    refine { wf0 := h.wf0, wf1 := h.wf1.setVal k v, keys_nodup := hnd, idle := fun hr => ?_,
             active := h.active }
    rw [h.idle hr]
    simp [Dictht.setVal, _dictReset]

theorem dictReplace_present (h : DictWF hash d) {k : K} (v : V)
    (hfit : KeyIndexFits hash canResize d k) (hk : ∃ e ∈ d.entries, e.key = k) :
    (dictReplace hash canResize d k v).2 = false ∧
      DictWF hash (dictReplace hash canResize d k v).1 ∧
      (dictReplace hash canResize d k v).1.entries ~ d.entries.map (overwrite k v) := by
  obtain ⟨h1, h2⟩ := dictAdd_present h v hfit hk
  have h3 := dictFind_reorganized h2.wf k
  obtain ⟨h4, h5⟩ := h3.wf.setFound k v
  simp only [dictReplace, h1, Bool.false_eq_true, if_false]
  refine ⟨trivial, h4, ?_⟩
  rw [h5]
  exact (h3.entries_perm.trans h2.entries_perm).map _

theorem dictReplace_absent (h : DictWF hash d) {k : K} (v : V)
    (hfit : KeyIndexFits hash canResize d k) (hk : ∀ e ∈ d.entries, e.key ≠ k) :
    (dictReplace hash canResize d k v).2 = true ∧
      DictWF hash (dictReplace hash canResize d k v).1 ∧
      (dictReplace hash canResize d k v).1.entries ~ ⟨k, v⟩ :: d.entries := by
  obtain ⟨h1, h2, h3, -⟩ := dictAdd_absent h v hfit hk
  simp only [dictReplace, h1, if_true]
  exact ⟨trivial, h2, h3⟩

theorem DictWF.unlink0 (h : DictWF hash d) {k : K} (hk : ∃ e ∈ d.ht0.entries, e.key = k) :
    DictWF hash { d with ht0 := d.ht0.unlink hash k } ∧
      ∃ e, e.key = k ∧ d.entries ~ e :: Dict.entries { d with ht0 := d.ht0.unlink hash k } := by
  obtain ⟨hwf, e, hek, hp⟩ := h.wf0.unlink hk
  have hperm : d.entries ~ e :: Dict.entries { d with ht0 := d.ht0.unlink hash k } :=
    hp.append_right _
  have hn := ((hperm.map DictEntry.key).nodup_iff.mp h.keys_nodup)
  rw [List.map_cons, List.nodup_cons] at hn
  refine ⟨{ wf0 := hwf, wf1 := h.wf1, keys_nodup := hn.2, idle := h.idle, active := ?_ },
    e, hek, hperm⟩
  intro hr
  obtain ⟨a, b, c, hbelow⟩ := h.active hr
  refine ⟨a, b, c, fun i hi => ?_⟩
  by_cases hb : i = d.ht0.bucketOf hash k
  · subst hb
    simp only [Dictht.unlink, Function.update_self, hbelow _ hi]
    rfl
  · simp only [Dictht.unlink, Function.update_of_ne hb]
    exact hbelow i hi

theorem DictWF.unlink1 (h : DictWF hash d) {k : K} (hk : ∃ e ∈ d.ht1.entries, e.key = k) :
    DictWF hash { d with ht1 := d.ht1.unlink hash k } ∧
      ∃ e, e.key = k ∧ d.entries ~ e :: Dict.entries { d with ht1 := d.ht1.unlink hash k } := by
  obtain ⟨hwf, e, hek, hp⟩ := h.wf1.unlink hk
  have hperm : d.entries ~ e :: Dict.entries { d with ht1 := d.ht1.unlink hash k } :=
    (List.Perm.append_left _ hp).trans List.perm_middle
  have hn := ((hperm.map DictEntry.key).nodup_iff.mp h.keys_nodup)
  rw [List.map_cons, List.nodup_cons] at hn
  refine ⟨{ wf0 := h.wf0, wf1 := hwf, keys_nodup := hn.2, idle := fun hr => ?_,
            active := h.active }, e, hek, hperm⟩
  obtain ⟨e', he', -⟩ := hk
  rw [h.idle hr, reset_entries] at he'
  exact absurd he' List.not_mem_nil

theorem dictDelete_present (h : DictWF hash d) {k : K} (hk : ∃ e ∈ d.entries, e.key = k) :
    (dictDelete hash d k).2 = true ∧ DictWF hash (dictDelete hash d k).1 ∧
      ∃ e, e.key = k ∧ d.entries ~ e :: (dictDelete hash d k).1.entries := by
  have hz : ¬ d.ht0.size = 0 := by
    intro hz
    obtain ⟨e, he, -⟩ := hk
    rw [h.entries_of_size_zero hz] at he
    exact List.not_mem_nil he
  have h1 := rehashStepIfNeeded_spec h
  simp only [dictDelete, if_neg hz]
  set d1 := rehashStepIfNeeded hash d
  have hk1 : ∃ e ∈ d1.entries, e.key = k := by
    obtain ⟨e, he, hek⟩ := hk
    exact ⟨e, h1.entries_perm.mem_iff.mpr he, hek⟩
  by_cases hs0 : (chainFind k (d1.ht0.table (d1.ht0.bucketOf hash k))).isSome = true
  · obtain ⟨hwf, e, hek, hp⟩ := h1.wf.unlink0 ((h1.wf.wf0.find_isSome k).mp hs0)
    rw [if_pos hs0]
    exact ⟨rfl, hwf, e, hek, h1.entries_perm.symm.trans hp⟩
  · have hp1 := (h1.wf.keyPresent_iff k).mpr hk1
    have hs1 : (dictIsRehashing d1 &&
        (chainFind k (d1.ht1.table (d1.ht1.bucketOf hash k))).isSome) = true := by
      simpa [keyPresent, hs0] using hp1
    have hs1' := hs1
    rw [Bool.and_eq_true] at hs1'
    obtain ⟨hwf, e, hek, hp⟩ := h1.wf.unlink1 ((h1.wf.wf1.find_isSome k).mp hs1'.2)
    rw [if_neg hs0, if_pos hs1]
    exact ⟨rfl, hwf, e, hek, h1.entries_perm.symm.trans hp⟩

theorem dictDelete_absent (h : DictWF hash d) {k : K} (hk : ∀ e ∈ d.entries, e.key ≠ k) :
    (dictDelete hash d k).2 = false ∧ Reorganized hash d (dictDelete hash d k).1 := by
  unfold dictDelete
  split
  · exact ⟨rfl, h.reorganized_refl⟩
  · have h1 := rehashStepIfNeeded_spec h
    have hp : keyPresent hash (rehashStepIfNeeded hash d) k = false := by
      rw [← Bool.not_eq_true, h1.wf.keyPresent_iff]
      rintro ⟨e, he, hek⟩
      exact hk e (h1.entries_perm.mem_iff.mp he) hek
    simp only [keyPresent, Bool.or_eq_false_iff] at hp
    simp only [hp.1, hp.2, Bool.false_eq_true, if_false]
    exact ⟨trivial, h1⟩

end

end RedisCluster
