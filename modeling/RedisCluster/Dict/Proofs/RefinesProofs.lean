import RedisCluster.Dict.DictRun
import RedisCluster.Dict.Proofs.OpsProofs

/-!
# A dict refines a finite map

Over every run in which no bucket number is cut off by the `int` that `_dictKeyIndex` returns, the
dict answers like a finite map and keeps its representation invariant.
-/

open scoped List

namespace RedisCluster

open RedisCluster.Lib

variable {K V : Type} [DecidableEq K]

/-- The dict holds exactly the pairs of `m`, and its tables are in order. -/
structure Refines (hash : K → UInt32) (d : Dict K V) (m : Finmap (fun _ : K => V)) : Prop where
  /-- The entries are the pairs of the map. -/
  mem_iff : ∀ k v, (⟨k, v⟩ : DictEntry K V) ∈ d.entries ↔ m.lookup k = some v
  /-- Each key is stored once over both tables. -/
  once : (d.entries.map DictEntry.key).Nodup
  /-- Every entry is in the bucket of its key. -/
  placed : ∀ t ∈ [d.ht0, d.ht1], ∀ i, ∀ e ∈ t.table i,
    i = (hash e.key).toNat &&& t.sizemask ∧ i < t.size
  /-- The two `used` counters add up to the number of keys. -/
  size_eq : d.ht0.used + d.ht1.used = m.keys.card
  /-- The buckets below `rehashidx` have been moved. -/
  moved : dictIsRehashing d = true → ∀ i < d.rehashidx.toNat, d.ht0.table i = []
  /-- While rehashing, a new key goes to the second table. -/
  added : ∀ canResize k v, KeyIndexFits hash canResize d k →
    (dictAdd hash canResize d k v).2 = true →
    dictIsRehashing (dictAdd hash canResize d k v).1 = true →
    ⟨k, v⟩ ∈ (dictAdd hash canResize d k v).1.ht1.entries

/-- The condition under which an operation works: the byte count of a requested table fits `size_t`
and the bucket number of an added key fits the `int` it is returned in. -/
def OpFits (hash : K → UInt32) (s : DictRun K V) (a : Bool × DictOp K V) : Prop :=
  match a.2 with
  | .add k _ => KeyIndexFits hash a.1 s.dict k
  | .replace k _ => KeyIndexFits hash a.1 s.dict k
  | .expand size => size ≤ 2 ^ 60
  | _ => True

def RunRefines (hash : K → UInt32) (ops : List (Bool × DictOp K V)) : Prop :=
  (runReplies (dictStep hash) dictStart ops).2 = (runReplies mapStep ∅ ops).2 ∧
    Refines hash (runReplies (dictStep hash) dictStart ops).1.dict (runReplies mapStep ∅ ops).1

section

variable {hash : K → UInt32} {d : Dict K V} {m : Finmap (fun _ : K => V)}

def SamePairs (d : Dict K V) (m : Finmap (fun _ : K => V)) : Prop :=
  ∀ k v, (⟨k, v⟩ : DictEntry K V) ∈ d.entries ↔ m.lookup k = some v

theorem SamePairs.mem_map_iff (h : SamePairs d m) (k : K) :
    k ∈ m ↔ ∃ e ∈ d.entries, e.key = k := by
  rw [Finmap.mem_iff]
  constructor
  · rintro ⟨v, hv⟩
    exact ⟨⟨k, v⟩, (h k v).mpr hv, rfl⟩
  · rintro ⟨⟨k', v⟩, he, rfl⟩
    exact ⟨v, (h _ v).mp he⟩

theorem SamePairs.not_mem_map_iff (h : SamePairs d m) (k : K) :
    k ∉ m ↔ ∀ e ∈ d.entries, e.key ≠ k := by
  rw [h.mem_map_iff]
  simp

theorem SamePairs.perm (h : SamePairs d m) {d' : Dict K V} (hp : d'.entries ~ d.entries) :
    SamePairs d' m := fun k v => by rw [hp.mem_iff]; exact h k v

theorem SamePairs.insert_absent (h : SamePairs d m) {d' : Dict K V} {k : K} {v : V}
    (hk : ∀ e ∈ d.entries, e.key ≠ k) (hp : d'.entries ~ ⟨k, v⟩ :: d.entries) :
    SamePairs d' (m.insert k v) := by
  intro k' v'
  rw [hp.mem_iff, List.mem_cons]
  by_cases hkk : k' = k
  · subst hkk
    rw [Finmap.lookup_insert]
    constructor
    · rintro (he | he)
      · rw [DictEntry.mk.injEq] at he
        rw [he.2]
      · exact absurd rfl (hk _ he)
    · intro he
      obtain rfl : v = v' := by simpa using he
      exact Or.inl rfl
  · rw [Finmap.lookup_insert_of_ne m hkk, ← h k' v']
    simp [hkk]

theorem SamePairs.insert_present (h : SamePairs d m) {d' : Dict K V} {k : K} {v : V}
    (hk : ∃ e ∈ d.entries, e.key = k) (hp : d'.entries ~ d.entries.map (overwrite k v)) :
    SamePairs d' (m.insert k v) := by
  intro k' v'
  rw [hp.mem_iff, List.mem_map]
  by_cases hkk : k' = k
  · subst hkk
    rw [Finmap.lookup_insert]
    constructor
    · rintro ⟨e, he, hov⟩
      have hek : e.key = k' := by
        have := congrArg DictEntry.key hov
        rwa [overwrite_key] at this
      rw [overwrite, if_pos hek] at hov
      exact congrArg some (congrArg DictEntry.val hov)
    · intro he
      obtain rfl : v = v' := by simpa using he
      obtain ⟨e, he, hek⟩ := hk
      exact ⟨e, he, by rw [overwrite, if_pos hek, ← hek]⟩
  · rw [Finmap.lookup_insert_of_ne m hkk, ← h k' v']
    constructor
    · rintro ⟨e, he, hov⟩
      have hek : e.key = k' := by
        have := congrArg DictEntry.key hov
        rwa [overwrite_key] at this
      rw [overwrite, if_neg (by rw [hek]; exact hkk)] at hov
      exact hov ▸ he
    · intro he
      exact ⟨_, he, if_neg hkk⟩

theorem SamePairs.erase (h : SamePairs d m) (hn : (d.entries.map DictEntry.key).Nodup)
    {d' : Dict K V} {k : K} {e : DictEntry K V} (hek : e.key = k)
    (hp : d.entries ~ e :: d'.entries) : SamePairs d' (m.erase k) := by
  have hnot : ∀ x ∈ d'.entries, x.key ≠ k := by
    have h1 := (hp.map DictEntry.key).nodup_iff.mp hn
    rw [List.map_cons, List.nodup_cons] at h1
    rintro x hx hxk
    exact h1.1 (by rw [hek, ← hxk]; exact List.mem_map_of_mem hx)
  intro k' v'
  by_cases hkk : k' = k
  · subst hkk
    rw [Finmap.lookup_erase]
    exact ⟨fun hx => absurd rfl (hnot _ hx), fun hx => by simp at hx⟩
  · rw [Finmap.lookup_erase_ne hkk, ← h k' v', hp.mem_iff, List.mem_cons]
    refine ⟨Or.inr, ?_⟩
    rintro (rfl | hx)
    · exact absurd hek hkk
    · exact hx

theorem SamePairs.find (h : SamePairs d m) (hwf : DictWF hash d) (k : K) :
    (dictFind hash d k).2.map DictEntry.val = m.lookup k := by
  cases hf : (dictFind hash d k).2 with
  | none =>
    have hno := (h.not_mem_map_iff k).mpr ((dictFind_none hwf).mp hf)
    rw [Finmap.lookup_eq_none.mpr hno]
    rfl
  | some e =>
    obtain ⟨he, rfl⟩ := dictFind_some hwf hf
    rw [(h e.key e.val).mp he]
    rfl

theorem dictStep_refines {s : DictRun K V} (hR : DictWF hash s.dict ∧ SamePairs s.dict m)
    {a : Bool × DictOp K V} (hfit : OpFits hash s a) :
    (DictWF hash (dictStep hash s a).1.dict ∧
        SamePairs (dictStep hash s a).1.dict (mapStep m a).1) ∧
      (dictStep hash s a).2 = (mapStep m a).2 := by
  obtain ⟨hwf, hp⟩ := hR
  obtain ⟨canResize, op⟩ := a
  have reorg : ∀ d' : Dict K V, Reorganized hash s.dict d' → DictWF hash d' ∧ SamePairs d' m :=
    fun d' hr => ⟨hr.wf, hp.perm hr.entries_perm⟩
  have iters : ∀ d' : Dict K V, (∃ n, d' = { s.dict with iterators := n }) →
      DictWF hash d' ∧ SamePairs d' m := by
    rintro d' ⟨n, rfl⟩
    exact ⟨hwf.set_iterators n, hp⟩
  cases op with
  | add k v =>
    by_cases hk : k ∈ m
    · obtain ⟨h1, h2⟩ := dictAdd_present hwf v hfit ((hp.mem_map_iff k).mp hk)
      simp only [dictStep, mapStep, if_pos hk, h1]
      exact ⟨reorg _ h2, trivial⟩
    · have hno := (hp.not_mem_map_iff k).mp hk
      obtain ⟨h1, h2, h3, -⟩ := dictAdd_absent hwf v hfit hno
      simp only [dictStep, mapStep, if_neg hk, h1]
      exact ⟨⟨h2, hp.insert_absent hno h3⟩, trivial⟩
  | replace k v =>
    by_cases hk : k ∈ m
    · have hyes := (hp.mem_map_iff k).mp hk
      obtain ⟨h1, h2, h3⟩ := dictReplace_present hwf v hfit hyes
      simp only [dictStep, mapStep, h1, hk, not_true_eq_false, decide_false]
      exact ⟨⟨h2, hp.insert_present hyes h3⟩, trivial⟩
    · have hno := (hp.not_mem_map_iff k).mp hk
      obtain ⟨h1, h2, h3⟩ := dictReplace_absent hwf v hfit hno
      simp only [dictStep, mapStep, h1, hk, not_false_eq_true, decide_true]
      exact ⟨⟨h2, hp.insert_absent hno h3⟩, trivial⟩
  | delete k =>
    by_cases hk : k ∈ m
    · obtain ⟨h1, h2, e, hek, h3⟩ := dictDelete_present hwf ((hp.mem_map_iff k).mp hk)
      simp only [dictStep, mapStep, h1, hk, decide_true]
      exact ⟨⟨h2, hp.erase hwf.keys_nodup hek h3⟩, trivial⟩
    · obtain ⟨h1, h2⟩ := dictDelete_absent hwf ((hp.not_mem_map_iff k).mp hk)
      have herase : m.erase k = m := by
        apply Finmap.ext_lookup
        intro x
        by_cases hx : x = k
        · rw [hx, Finmap.lookup_erase, Finmap.lookup_eq_none.mpr hk]
        · rw [Finmap.lookup_erase_ne hx]
      simp only [dictStep, mapStep, h1, hk, decide_false, herase]
      exact ⟨reorg _ h2, trivial⟩
  | find k =>
    simp only [dictStep, mapStep, hp.find hwf k]
    exact ⟨reorg _ (dictFind_reorganized hwf k), trivial⟩
  | rehash n => exact ⟨reorg _ (dictRehash_spec hwf n), rfl⟩
  | resize => exact ⟨reorg _ (dictResize_spec hwf canResize), rfl⟩
  | expand size => exact ⟨reorg _ (dictExpand_spec hwf hfit), rfl⟩
  | getSafeIterator => exact ⟨⟨hwf, hp⟩, rfl⟩
  | next i =>
    simp only [dictStep, mapStep]
    cases s.iters[i]? with
    | none => exact ⟨⟨hwf, hp⟩, rfl⟩
    | some it => exact ⟨iters _ (dictNext_eq s.dict it), rfl⟩
  | releaseIterator i =>
    simp only [dictStep, mapStep]
    cases s.iters[i]? with
    | none => exact ⟨⟨hwf, hp⟩, rfl⟩
    | some it => exact ⟨iters _ (dictReleaseIterator_eq s.dict it), rfl⟩

theorem SamePairs.card_eq (h : SamePairs d m) (hwf : DictWF hash d) :
    d.ht0.used + d.ht1.used = m.keys.card := by
  have hset : m.keys = (d.entries.map DictEntry.key).toFinset := by
    ext k
    rw [Finmap.mem_keys, h.mem_map_iff, List.mem_toFinset, List.mem_map]
  rw [hset, List.toFinset_card_of_nodup hwf.keys_nodup, List.length_map, ← hwf.size_eq]
  rfl

theorem DictWF.refines (hwf : DictWF hash d) (h : SamePairs d m) : Refines hash d m where
  mem_iff := h
  once := hwf.keys_nodup
  placed := by
    intro t ht i e he
    rcases List.mem_pair.mp ht with rfl | rfl
    · exact hwf.wf0.placed i e he
    · exact hwf.wf1.placed i e he
  size_eq := h.card_eq hwf
  moved := fun hr => (hwf.active ((dictIsRehashing_iff d).mp hr)).2.2.2
  added := by
    intro canResize k v hfit hok hr
    by_cases hk : ∃ e ∈ d.entries, e.key = k
    · rw [(dictAdd_present hwf v hfit hk).1] at hok
      exact absurd hok (by simp)
    · exact (dictAdd_absent hwf v hfit (by simpa using hk)).2.2.2 hr

theorem samePairs_create : SamePairs (dictCreate : Dict K V) ∅ := by
  intro k v
  rw [Finmap.lookup_empty]
  exact ⟨fun h => absurd h List.not_mem_nil, fun h => absurd h (by simp)⟩

theorem dictRun_wf {ops : List (Bool × DictOp K V)}
    (hfit : RunMeets (fun s a => (dictStep hash s a).1) (OpFits hash) dictStart ops) :
    (DictWF hash (runReplies (dictStep hash) dictStart ops).1.dict ∧
        SamePairs (runReplies (dictStep hash) dictStart ops).1.dict (runReplies mapStep ∅ ops).1) ∧
      (runReplies (dictStep hash) dictStart ops).2 = (runReplies mapStep ∅ ops).2 :=
  runReplies_refines (R := fun s m => DictWF hash s.dict ∧ SamePairs s.dict m)
    (fun _ _ _ hR ha => dictStep_refines hR ha) ⟨dictCreate_wf hash, samePairs_create⟩ hfit

end

end RedisCluster
