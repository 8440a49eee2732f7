import RedisCluster.Intset.Proofs.SetProofs
import RedisCluster.Sets.SetType
import RedisCluster.Util.Proofs.StringProofs

/-!
# One set in two encodings

Both encodings stand for a finite set of byte strings. An intset holds the spellings of its values; a
string is the spelling of a value exactly if `isObjectRepresentableAsLongLong` finds that value.
-/

namespace RedisCluster.Sets

open RedisCluster.Util RedisCluster.Lib

theorem fits_iff {n : Int} : FitsBytes 8 n ↔ -(2 ^ 63) ≤ n ∧ n < 2 ^ 63 := by
  unfold FitsBytes
  omega

theorem ll2string_inj {a b : Int} (ha : FitsBytes 8 a) (hb : FitsBytes 8 b)
    (h : ll2string a = ll2string b) : a = b := by
  rw [fits_iff] at ha hb
  have h1 := string2ll_ll2string ha.1 ha.2
  rw [h, string2ll_ll2string hb.1 hb.2] at h1
  injection h1 with h1
  exact h1.symm

theorem representable_iff (o : StringObject) (n : Int) :
    isObjectRepresentableAsLongLong o = some n ↔ FitsBytes 8 n ∧ getDecodedObject o = ll2string n := by
  cases o with
  | sds s =>
    constructor
    · intro h
      obtain ⟨hs, hmin, hmax⟩ := string2ll_inv h
      exact ⟨fits_iff.mpr ⟨hmin, hmax⟩, hs⟩
    · rintro ⟨hn, hs⟩
      have hs' : s = ll2string n := hs
      rw [fits_iff] at hn
      rw [hs']
      exact string2ll_ll2string hn.1 hn.2
  | int m =>
    constructor
    · intro h
      injection h with h
      subst h
      exact ⟨m.property, rfl⟩
    · rintro ⟨hn, hs⟩
      rw [← ll2string_inj m.property hn hs]
      rfl

theorem compare_iff (a b : StringObject) :
    dictEncObjKeyCompare a b = true ↔ getDecodedObject a = getDecodedObject b := by
  cases a with
  | sds s =>
    cases b <;> exact decide_eq_true_iff
  | int m =>
    cases b with
    | sds t => exact decide_eq_true_iff
    | int n =>
      refine decide_eq_true_iff.trans ⟨fun h => congrArg ll2string h, fun h => ?_⟩
      exact ll2string_inj m.property n.property h

theorem decoded_created (v : Int) :
    getDecodedObject (createStringObjectFromLongLong v) = ll2string v := by
  unfold createStringObjectFromLongLong
  split <;> rfl

theorem decoded_encoded (refcount : Nat) (o : StringObject) :
    getDecodedObject (tryObjectEncoding refcount o) = getDecodedObject o := by
  cases o with
  | int n => rfl
  | sds s =>
    show getDecodedObject (if refcount > 1 then _ else if s.length ≤ 21 then _ else _) = s
    by_cases hshared : refcount > 1
    · rw [if_pos hshared]
      rfl
    · rw [if_neg hshared]
      by_cases hlen : s.length ≤ 21
      · rw [if_pos hlen]
        cases hs : string2ll s with
        | none => rfl
        | some v =>
          have hv : FitsBytes 8 v := fits_iff.mpr (string2ll_inv hs).2
          simp only [dif_pos hv]
          exact (string2ll_inv hs).1.symm
      · rw [if_neg hlen]
        rfl

def decodedKeys (d : SetDict) : List Bytes := d.map getDecodedObject

theorem dictFind_iff (d : SetDict) (key : StringObject) :
    dictFind d key = true ↔ getDecodedObject key ∈ decodedKeys d := by
  rw [dictFind, List.any_eq_true, decodedKeys, List.mem_map]
  constructor
  · rintro ⟨o, ho, hc⟩
    exact ⟨o, ho, ((compare_iff key o).mp hc).symm⟩
  · rintro ⟨o, ho, hc⟩
    exact ⟨o, ho, (compare_iff key o).mpr hc.symm⟩

theorem decodedKeys_eraseP (d : SetDict) (key : StringObject) :
    decodedKeys (d.eraseP (dictEncObjKeyCompare key)) = (decodedKeys d).erase (getDecodedObject key) := by
  induction d with
  | nil => rfl
  | cons o d ih =>
    by_cases hc : dictEncObjKeyCompare key o = true
    · rw [List.eraseP_cons_of_pos hc]
      have heq := (compare_iff key o).mp hc
      show _ = (getDecodedObject o :: decodedKeys d).erase (getDecodedObject key)
      rw [heq, List.erase_cons_head]
    · rw [List.eraseP_cons_of_neg hc]
      have hne : getDecodedObject o ≠ getDecodedObject key := fun h =>
        hc ((compare_iff key o).mpr h.symm)
      show getDecodedObject o :: decodedKeys (d.eraseP _) =
        (getDecodedObject o :: decodedKeys d).erase (getDecodedObject key)
      rw [List.erase_cons_tail (by simpa using hne), ih]

def SetHolds (o : SetObject) (s : Finset Bytes) : Prop :=
  match o with
  | .intset is => ∃ t, Holds is t ∧ (∀ v ∈ t, FitsBytes 8 v) ∧ s = t.image ll2string
  | .ht d => (decodedKeys d).Nodup ∧ s = (decodedKeys d).toFinset

variable {s : Finset Bytes} {t : Finset Int} {is : Intset}

theorem mem_spellings (h64 : ∀ v ∈ t, FitsBytes 8 v) {n : Int} (hn : FitsBytes 8 n) :
    ll2string n ∈ t.image ll2string ↔ n ∈ t := by
  rw [Finset.mem_image]
  constructor
  · rintro ⟨v, hv, heq⟩
    rwa [← ll2string_inj (h64 v hv) hn heq]
  · exact fun h => ⟨n, h, rfl⟩

theorem notMem_spellings (h64 : ∀ v ∈ t, FitsBytes 8 v) {o : StringObject}
    (ho : isObjectRepresentableAsLongLong o = none) : getDecodedObject o ∉ t.image ll2string := by
  rw [Finset.mem_image]
  rintro ⟨v, hv, heq⟩
  have h := (representable_iff o v).mpr ⟨h64 v hv, heq.symm⟩
  rw [ho] at h
  cases h

theorem spellings_injOn (h64 : ∀ v ∈ t, FitsBytes 8 v) : Set.InjOn ll2string (t : Set Int) :=
  fun _ ha _ hb h => ll2string_inj (h64 _ ha) (h64 _ hb) h

theorem spellings_erase (h64 : ∀ v ∈ t, FitsBytes 8 v) {n : Int} (hn : FitsBytes 8 n) :
    (t.erase n).image ll2string = (t.image ll2string).erase (ll2string n) := by
  ext b
  rw [Finset.mem_erase, Finset.mem_image, Finset.mem_image]
  constructor
  · rintro ⟨v, hv, rfl⟩
    obtain ⟨hne, hv⟩ := Finset.mem_erase.mp hv
    exact ⟨fun h => hne (ll2string_inj (h64 v hv) hn h), v, hv, rfl⟩
  · rintro ⟨hne, v, hv, rfl⟩
    exact ⟨v, Finset.mem_erase.mpr ⟨fun h => hne (congrArg ll2string h), hv⟩, rfl⟩

theorem createIntsetObject_holds : SetHolds createIntsetObject ∅ :=
  ⟨∅, intsetNew_holds, fun v hv => absurd hv (Finset.notMem_empty v), rfl⟩

theorem setTypeCreate_holds (value : StringObject) : SetHolds (setTypeCreate value) ∅ := by
  unfold setTypeCreate
  split
  · exact createIntsetObject_holds
  · exact ⟨List.nodup_nil, rfl⟩

theorem setTypeSize_eq {o : SetObject} (h : SetHolds o s) : setTypeSize o = s.card := by
  cases o with
  | intset is =>
    obtain ⟨t, ht, h64, rfl⟩ := h
    rw [setTypeSize, intsetLen, ht.packed.length_eq, Finset.length_sort,
      Finset.card_image_of_injOn (spellings_injOn h64)]
  | ht d =>
    obtain ⟨hnodup, rfl⟩ := h
    rw [setTypeSize, List.toFinset_card_of_nodup hnodup, decodedKeys, List.length_map]

theorem intsetFrom_eq (h : Holds is t) (fuel ii : Nat) (hfuel : t.card < fuel + ii) :
    intsetFrom is fuel ii = some (t.sort.drop ii) := by
  induction fuel generalizing ii with
  | zero =>
    rw [intsetFrom, List.drop_eq_nil_of_le]
    rw [Finset.length_sort]
    omega
  | succ fuel ih =>
    rw [intsetFrom, h.get ii]
    by_cases hlt : ii < t.sort.length
    · rw [List.getElem?_eq_getElem hlt]
      show (intsetFrom is fuel (ii + 1)).map _ = _
      rw [ih (ii + 1) (by omega), Option.map_some, List.drop_eq_getElem_cons hlt]
    · rw [List.getElem?_eq_none (by omega), List.drop_eq_nil_of_le (by omega)]
      rfl

theorem intsetValues_eq (h : Holds is t) : intsetValues is = some t.sort := by
  have hlen : intsetLen is = t.card := by
    rw [intsetLen, h.packed.length_eq, Finset.length_sort]
  rw [intsetValues, intsetFrom_eq h _ 0 (by omega), List.drop_zero]

theorem decodedKeys_created (vs : List Int) :
    decodedKeys (vs.map createStringObjectFromLongLong) = vs.map ll2string := by
  rw [decodedKeys, List.map_map]
  exact List.map_congr_left fun v _ => decoded_created v

theorem spellings_nodup (h64 : ∀ v ∈ t, FitsBytes 8 v) : (t.sort.map ll2string).Nodup := by
  refine List.Nodup.map_on ?_ (Finset.sort_nodup t (· ≤ ·))
  intro a ha b hb hab
  exact ll2string_inj (h64 a ((Finset.mem_sort _).mp ha)) (h64 b ((Finset.mem_sort _).mp hb)) hab

theorem spellings_toFinset : (t.sort.map ll2string).toFinset = t.image ll2string := by
  ext b
  simp

theorem convertLoop_eq (vs : List Int) (d : SetDict)
    (hnodup : (decodedKeys d ++ vs.map ll2string).Nodup) :
    convertLoop vs d = some (d ++ vs.map createStringObjectFromLongLong) := by
  induction vs generalizing d with
  | nil => rw [convertLoop, List.map_nil, List.append_nil]
  | cons v vs ih =>
    have hnew : dictFind d (createStringObjectFromLongLong v) = false := by
      rw [Bool.eq_false_iff, Ne, dictFind_iff, decoded_created]
      intro hmem
      have h := List.disjoint_of_nodup_append hnodup
      exact h hmem (List.mem_map_of_mem List.mem_cons_self)
    have hkeys : decodedKeys (d ++ [createStringObjectFromLongLong v]) = decodedKeys d ++ [ll2string v] := by
      rw [decodedKeys, List.map_append, List.map_singleton, decoded_created]
      rfl
    rw [convertLoop, dictAdd, if_neg (by rw [hnew]; decide), Option.bind_some, ih]
    · rw [List.append_assoc]
      rfl
    · rw [hkeys, List.append_assoc]
      exact hnodup

theorem setTypeConvert_holds (h : Holds is t) (h64 : ∀ v ∈ t, FitsBytes 8 v) :
    ∃ d, setTypeConvert is = some (.ht d) ∧ decodedKeys d = t.sort.map ll2string := by
  refine ⟨t.sort.map createStringObjectFromLongLong, ?_, decodedKeys_created t.sort⟩
  unfold setTypeConvert
  rw [intsetValues_eq h]
  have hloop := convertLoop_eq t.sort [] (by simpa [decodedKeys] using spellings_nodup h64)
  simp only [Option.bind_eq_bind, Option.bind_some, hloop, List.nil_append]
  rfl

theorem setTypeObjects_eq {o : SetObject} (h : SetHolds o s) :
    ∃ os, setTypeObjects o = some os ∧ (decodedKeys os).Nodup ∧ (decodedKeys os).toFinset = s := by
  cases o with
  | intset is =>
    obtain ⟨t, ht, h64, rfl⟩ := h
    refine ⟨t.sort.map createStringObjectFromLongLong, ?_, ?_, ?_⟩
    · rw [setTypeObjects, intsetValues_eq ht]
      rfl
    · rw [decodedKeys_created]
      exact spellings_nodup h64
    · rw [decodedKeys_created]
      exact spellings_toFinset
  | ht d =>
    obtain ⟨hnodup, rfl⟩ := h
    exact ⟨d, rfl, hnodup, rfl⟩

def AddFits (o : SetObject) (value : StringObject) : Prop :=
  match o, isObjectRepresentableAsLongLong value with
  | .intset is, some n => (∃ i < is.length, intsetGet is i = some (some n)) ∨
      (is.length + 1) * max is.encoding (_intsetValueEncoding n) < 2 ^ 32
  | _, _ => True

instance (o : SetObject) (value : StringObject) : Decidable (AddFits o value) := by
  unfold AddFits
  cases o <;> cases isObjectRepresentableAsLongLong value <;> infer_instance

theorem toFinset_append_singleton (l : List Bytes) (b : Bytes) :
    (l ++ [b]).toFinset = insert b l.toFinset := by
  ext x
  simp only [List.mem_toFinset, List.mem_append, List.mem_singleton, Finset.mem_insert]
  tauto

theorem dictAdd_new {d : SetDict} (hnodup : (decodedKeys d).Nodup) (value : StringObject)
    (hnew : getDecodedObject value ∉ (decodedKeys d).toFinset) :
    dictAdd d value = some (d ++ [value]) ∧
      SetHolds (.ht (d ++ [value])) (insert (getDecodedObject value) (decodedKeys d).toFinset) := by
  have hfind : dictFind d value ≠ true := by
    rw [Ne, dictFind_iff]
    exact fun h => hnew (List.mem_toFinset.mpr h)
  have hkeys : decodedKeys (d ++ [value]) = decodedKeys d ++ [getDecodedObject value] := by
    rw [decodedKeys, List.map_append]
    rfl
  refine ⟨if_neg hfind, ?_, ?_⟩
  · rw [hkeys, List.nodup_append]
    refine ⟨hnodup, List.nodup_singleton _, ?_⟩
    intro a ha b hb hab
    rw [List.mem_singleton] at hb
    rw [hab, hb] at ha
    exact hnew (List.mem_toFinset.mpr ha)
  · rw [hkeys, toFinset_append_singleton]

theorem setTypeAdd_holds (limit : Nat) {o : SetObject} (h : SetHolds o s) {value : StringObject}
    (hfit : AddFits o value) :
    ∃ o', setTypeAdd limit o value = some (o', decide (getDecodedObject value ∉ s)) ∧
      SetHolds o' (insert (getDecodedObject value) s) := by
  cases o with
  | ht d =>
    obtain ⟨hnodup, rfl⟩ := h
    by_cases hmem : getDecodedObject value ∈ (decodedKeys d).toFinset
    · have hfind : dictFind d value = true := (dictFind_iff d value).mpr (List.mem_toFinset.mp hmem)
      refine ⟨.ht d, ?_, hnodup, Finset.insert_eq_of_mem hmem⟩
      rw [setTypeAdd, dictAdd, if_pos hfind, decide_eq_false (not_not_intro hmem)]
    · obtain ⟨hadd, hholds⟩ := dictAdd_new hnodup value hmem
      refine ⟨.ht (d ++ [value]), ?_, hholds⟩
      rw [setTypeAdd, hadd, decide_eq_true hmem]
  | intset is =>
    obtain ⟨t, ht, h64, rfl⟩ := h
    rw [setTypeAdd]
    cases hrep : isObjectRepresentableAsLongLong value with
    | none =>
      have hnot := notMem_spellings h64 hrep
      obtain ⟨d, hconv, hkeys⟩ := setTypeConvert_holds ht h64
      have hset : (decodedKeys d).toFinset = t.image ll2string := by rw [hkeys, spellings_toFinset]
      have hnodup : (decodedKeys d).Nodup := by
        rw [hkeys]
        exact spellings_nodup h64
      obtain ⟨hadd, hholds⟩ := dictAdd_new hnodup value (by rwa [hset])
      rw [hset] at hholds
      refine ⟨.ht (d ++ [value]), ?_, hholds⟩
      simp only [hconv, Option.bind_eq_bind, Option.bind_some, hadd, Option.map_some,
        decide_eq_true hnot]
    | some n =>
      obtain ⟨hn, hspell⟩ := (representable_iff value n).mp hrep
      have hfit' : n ∈ t ∨ (is.length + 1) * max is.encoding (_intsetValueEncoding n) < 2 ^ 32 := by
        simp only [AddFits, hrep] at hfit
        rcases hfit with ⟨i, -, hi⟩ | hlt
        · rw [ht.get i, Option.some.injEq] at hi
          exact Or.inl ((Finset.mem_sort _).mp (List.mem_of_getElem? hi))
        · exact Or.inr hlt
      obtain ⟨is', hadd, hholds⟩ := ht.add hn hfit'
      have h64' : ∀ v ∈ insert n t, FitsBytes 8 v := by
        intro v hv
        rcases Finset.mem_insert.mp hv with rfl | hv
        · exact hn
        · exact h64 v hv
      have hmem : getDecodedObject value ∉ t.image ll2string ↔ n ∉ t := by
        rw [hspell, mem_spellings h64 hn]
      have himage : insert (getDecodedObject value) (t.image ll2string) =
          (insert n t).image ll2string := by
        rw [Finset.image_insert, hspell]
      rw [himage]
      simp only [hadd, Option.bind_eq_bind, Option.bind_some, hmem]
      by_cases hnt : n ∈ t
      · refine ⟨.intset is', ?_, insert n t, hholds, h64', rfl⟩
        simp [hnt]
      · by_cases hbig : intsetLen is' > limit
        · obtain ⟨d, hconv, hkeys⟩ := setTypeConvert_holds hholds h64'
          refine ⟨.ht d, ?_, ?_, ?_⟩
          · simp [hnt, hbig, hconv]
          · rw [hkeys]
            exact spellings_nodup h64'
          · rw [hkeys, spellings_toFinset]
        · refine ⟨.intset is', ?_, insert n t, hholds, h64', rfl⟩
          simp [hnt, hbig]

theorem setTypeRemove_holds {o : SetObject} (h : SetHolds o s) (value : StringObject) :
    ∃ o', setTypeRemove o value = some (o', decide (getDecodedObject value ∈ s)) ∧
      SetHolds o' (s.erase (getDecodedObject value)) := by
  cases o with
  | ht d =>
    obtain ⟨hnodup, rfl⟩ := h
    by_cases hmem : getDecodedObject value ∈ (decodedKeys d).toFinset
    · have hfind : dictFind d value = true := (dictFind_iff d value).mpr (List.mem_toFinset.mp hmem)
      refine ⟨.ht (d.eraseP (dictEncObjKeyCompare value)), ?_, ?_, ?_⟩
      · rw [setTypeRemove, dictDelete, if_pos hfind, decide_eq_true hmem]
      · rw [decodedKeys_eraseP]
        exact hnodup.erase _
      · rw [decodedKeys_eraseP]
        ext b
        rw [Finset.mem_erase, List.mem_toFinset, List.mem_toFinset, hnodup.mem_erase_iff]
    · have hfind : dictFind d value ≠ true := by
        rw [Ne, dictFind_iff]
        exact fun h => hmem (List.mem_toFinset.mpr h)
      refine ⟨.ht d, ?_, hnodup, Finset.erase_eq_of_notMem hmem⟩
      rw [setTypeRemove, dictDelete, if_neg hfind, decide_eq_false hmem]
  | intset is =>
    obtain ⟨t, ht, h64, rfl⟩ := h
    rw [setTypeRemove]
    cases hrep : isObjectRepresentableAsLongLong value with
    | none =>
      have hnot := notMem_spellings h64 hrep
      refine ⟨.intset is, by rw [decide_eq_false hnot], t, ht, h64, ?_⟩
      rw [Finset.erase_eq_of_notMem hnot]
    | some n =>
      obtain ⟨hn, hspell⟩ := (representable_iff value n).mp hrep
      obtain ⟨is', hremove, hholds⟩ := ht.remove hn
      refine ⟨.intset is', ?_, t.erase n, hholds, fun v hv => h64 v (Finset.mem_of_mem_erase hv), ?_⟩
      · simp only [hremove, Option.map_some, hspell, mem_spellings h64 hn]
      · rw [hspell, spellings_erase h64 hn]

theorem setTypeIsMember_eq {o : SetObject} (h : SetHolds o s) (value : StringObject) :
    setTypeIsMember o value = some (decide (getDecodedObject value ∈ s)) := by
  cases o with
  | ht d =>
    obtain ⟨-, rfl⟩ := h
    rw [setTypeIsMember]
    congr 1
    rw [Bool.eq_iff_iff, dictFind_iff, decide_eq_true_iff, List.mem_toFinset]
  | intset is =>
    obtain ⟨t, ht, h64, rfl⟩ := h
    rw [setTypeIsMember]
    cases hrep : isObjectRepresentableAsLongLong value with
    | none => rw [decide_eq_false (notMem_spellings h64 hrep)]
    | some n =>
      obtain ⟨hn, hspell⟩ := (representable_iff value n).mp hrep
      simp only [ht.find hn, hspell, mem_spellings h64 hn]

theorem setTypeRandomElement_mem {o : SetObject} (h : SetHolds o s) (hne : s.Nonempty) (r : Nat) :
    ∃ ele, setTypeRandomElement o r = some ele ∧ getDecodedObject ele ∈ s := by
  have hpos : 0 < s.card := Finset.card_pos.mpr hne
  have hsize := setTypeSize_eq h
  cases o with
  | ht d =>
    obtain ⟨-, rfl⟩ := h
    rw [setTypeSize] at hsize
    have hlt : r % d.length < d.length := Nat.mod_lt _ (by omega)
    refine ⟨d[r % d.length], List.getElem?_eq_getElem hlt, ?_⟩
    rw [List.mem_toFinset]
    exact List.mem_map_of_mem (List.getElem_mem hlt)
  | intset is =>
    obtain ⟨t, ht, h64, rfl⟩ := h
    rw [setTypeSize] at hsize
    have hlen : t.sort.length = intsetLen is := by
      rw [intsetLen, ht.packed.length_eq]
    have hlt : r % intsetLen is < t.sort.length := by
      rw [hlen]
      exact Nat.mod_lt _ (by omega)
    refine ⟨createStringObjectFromLongLong t.sort[r % intsetLen is], ?_, ?_⟩
    · rw [setTypeRandomElement, ht.get, List.getElem?_eq_getElem hlt]
      rfl
    · rw [decoded_created]
      exact Finset.mem_image_of_mem _ ((Finset.mem_sort _).mp (List.getElem_mem hlt))

end RedisCluster.Sets
