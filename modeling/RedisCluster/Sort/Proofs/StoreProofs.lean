import RedisCluster.Sort.Proofs.ReplicateProofs

/-!
# When SORT with STORE replicates

Two tasks over the same strings, sorted by the same keys, store the same exactly if their scores fail
alike and the ties that matter agree. The scores break their ties by the strings; the weights do not.
-/

namespace RedisCluster.Sort

open RedisCluster.Util RedisCluster.Sets RedisCluster.Lib

variable {S : Type} {clib : CLib S} {s₁ s₂ : Server}

def SortTask.outputlen (t : SortTask S) (a : SortOptions) : Int :=
  ((if a.operations = [] then 1 else a.operations.length) * (t.stop - t.start + 1)) % 2 ^ 32

theorem outputOf_text (hdb : SameKeyspace s₁.db s₂.db) (operations : List Bytes) (so : SortObject S) :
    outputOf s₂.db operations so.obj = outputOf s₁.db operations (.sds so.text) :=
  outputOf_same hdb.symm operations rfl

theorem storeSorted_eq (s : Server) (a : SortOptions) (storekey : Bytes) (t : SortTask S)
    (p : List (SortObject S)) (f : Bytes → List Bytes)
    (hf : ∀ so : SortObject S, outputOf s.db a.operations so.obj = f so.text) :
    storeSorted s a storekey t p =
      if t.int_convertion_error then .error .notDouble
      else if t.outputlen a ≠ 0 then
        .stored storekey (sliceOutput (fun so : SortObject S => f so.text) t.start.toNat
          (t.stop - t.start + 1).toNat p)
      else .deleted storekey := by
  have hfun : (fun so : SortObject S => outputOf s.db a.operations so.obj) = fun so => f so.text :=
    funext hf
  unfold storeSorted SortTask.outputlen
  rw [hfun]

section Tasks

variable {κ : Type} [LinearOrder κ] [LinearOrder S] {t₁ t₂ : SortTask S}

/-- Two tasks over the same strings that are sorted by the same key. -/
structure Alike (key : Bytes → κ) (t₁ t₂ : SortTask S) : Prop where
  by₁ : t₁.By key
  by₂ : t₂.By key
  sort₁ : t₁.dontsort = false
  sort₂ : t₂.dontsort = false
  start : t₁.start = t₂.start
  stop : t₁.stop = t₂.stop
  inside : 0 ≤ t₁.start ∨ t₁.stop - t₁.start + 1 ≤ 0
  texts : (t₁.vector.map SortObject.text).Perm (t₂.vector.map SortObject.text)

theorem SortTask.exists_result {t : SortTask S} {key : Bytes → κ} (hkey : t.By key)
    (hsort : t.dontsort = false) : ∃ p, t.Sorted p := by
  obtain ⟨q, hq⟩ := exists_sortedBy key (t.vector.map SortObject.text)
  obtain ⟨p, hp, -⟩ := t.exists_sorted hkey hsort hq
  exact ⟨p, hp⟩

theorem stores_iff {key : Bytes → κ} (h : Alike key t₁ t₂) (a : SortOptions) (storekey : Bytes)
    {f : Bytes → List Bytes}
    (hf₁ : ∀ so : SortObject S, outputOf s₁.db a.operations so.obj = f so.text)
    (hf₂ : ∀ so : SortObject S, outputOf s₂.db a.operations so.obj = f so.text)
    {m : Nat} (hm : 0 < m) (hlen : ∀ x, (f x).length = m) :
    (∀ p₁ p₂, t₁.Sorted p₁ → t₂.Sorted p₂ →
        storeSorted s₁ a storekey t₁ p₁ = storeSorted s₂ a storekey t₂ p₂) ↔
      t₁.int_convertion_error = t₂.int_convertion_error ∧
        (t₁.int_convertion_error = false → t₁.outputlen a ≠ 0 →
          TiesAgree key f t₁.start.toNat (t₁.stop - t₁.start + 1).toNat
            (t₁.vector.map SortObject.text)) := by
  have houtputlen : t₂.outputlen a = t₁.outputlen a := by
    unfold SortTask.outputlen
    rw [h.start, h.stop]
  have hties := slices_agree_iff key f hm (v := t₁.vector.map SortObject.text)
    (fun x _ => hlen x) t₁.start.toNat (t₁.stop - t₁.start + 1).toNat
  constructor
  · intro hall
    obtain ⟨p₁, hp₁⟩ := t₁.exists_result h.by₁ h.sort₁
    obtain ⟨p₂, hp₂⟩ := t₂.exists_result h.by₂ h.sort₂
    have herr : t₁.int_convertion_error = t₂.int_convertion_error := by
      have heq := hall p₁ p₂ hp₁ hp₂
      rw [storeSorted_eq s₁ a storekey t₁ p₁ f hf₁, storeSorted_eq s₂ a storekey t₂ p₂ f hf₂] at heq
      cases h₁ : t₁.int_convertion_error with
      | true =>
        cases h₂ : t₂.int_convertion_error with
        | true => rfl
        | false =>
          rw [h₁, h₂, if_pos rfl, if_neg Bool.false_ne_true] at heq
          split at heq
          · cases heq
          · cases heq
      | false =>
        cases h₂ : t₂.int_convertion_error with
        | false => rfl
        | true =>
          rw [h₁, h₂, if_pos rfl, if_neg Bool.false_ne_true] at heq
          split at heq
          · cases heq
          · cases heq
    refine ⟨herr, fun hok hne => hties.mp fun q q' hq hq' => ?_⟩
    obtain ⟨p, hp, hmap⟩ := t₁.exists_sorted h.by₁ h.sort₁ hq
    obtain ⟨p', hp', hmap'⟩ := t₁.exists_sorted h.by₁ h.sort₁ hq'
    have heq := (hall p p₂ hp hp₂).trans (hall p' p₂ hp' hp₂).symm
    rw [storeSorted_eq s₁ a storekey t₁ p f hf₁, storeSorted_eq s₁ a storekey t₁ p' f hf₁, hok,
      if_neg Bool.false_ne_true, if_neg Bool.false_ne_true, if_pos hne, if_pos hne] at heq
    rw [← hmap, ← hmap', sliceOutput_map, sliceOutput_map]
    exact (SortOutcome.stored.inj heq).2
  · rintro ⟨herr, hagree⟩ p₁ p₂ hp₁ hp₂
    rw [storeSorted_eq s₁ a storekey t₁ p₁ f hf₁, storeSorted_eq s₂ a storekey t₂ p₂ f hf₂, ← herr,
      houtputlen]
    cases hok : t₁.int_convertion_error with
    | true => rfl
    | false =>
      rw [if_neg Bool.false_ne_true, if_neg Bool.false_ne_true]
      by_cases hne : t₁.outputlen a ≠ 0
      · rw [if_pos hne, if_pos hne]
        obtain ⟨q₁, hq₁, heq₁⟩ := hp₁.slice h.by₁ h.sort₁ h.inside f
        obtain ⟨q₂, hq₂, heq₂⟩ := hp₂.slice h.by₂ h.sort₂ (by rw [← h.start, ← h.stop]; exact h.inside) f
        rw [heq₁, heq₂, ← h.start, ← h.stop,
          hties.mpr (hagree hok hne) q₁ q₂ hq₁ ⟨hq₂.perm.trans h.texts.symm, hq₂.sorted⟩]
      · rw [if_neg hne, if_neg hne]

end Tasks

def numericKey (clib : CLib S) (db : Bytes → Option Value) (sortby : Option Bytes) (b : Bytes) :
    S ×ₗ List ℕ :=
  toLex (loadScore clib (byValue db sortby (.sds b)), natKey b)

theorem mem_loadVector {db : Bytes → Option Value} {alpha : Bool} {sortby : Option Bytes}
    {objs : List StringObject} {x : SortObject S}
    (hx : x ∈ loadVector clib db alpha sortby objs) :
    (x.score = if alpha then clib.zero else loadScore clib (byValue db sortby x.obj)) ∧
      x.cmpobj = if alpha && sortby.isSome then (byValue db sortby x.obj).map getDecodedObject
        else none := by
  obtain ⟨o, -, rfl⟩ := List.mem_map.mp hx
  exact ⟨rfl, rfl⟩

variable [LinearOrder S]

theorem by_of_compared {κ : Type} [LinearOrder κ] {t : SortTask S} {key : Bytes → κ}
    {objKey : SortObject S → κ} (hobj : ∀ x ∈ t.vector, objKey x = key x.text)
    (hc : ComparedBy objKey (sortCompare false t.alpha t.bypattern)) :
    (t.desc = false → t.By key) ∧ (t.desc = true → t.By fun b => OrderDual.toDual (key b)) := by
  constructor
  · intro hdesc x hx y hy
    unfold SortTask.compar
    rw [hdesc, hc.not_gt, hobj x hx, hobj y hy]
  · intro hdesc x hx y hy
    have hswap : t.compar = fun x y => (sortCompare false t.alpha t.bypattern x y).swap := by
      unfold SortTask.compar
      rw [hdesc]
      rfl
    rw [hswap, hc.swap.not_gt, hobj x hx, hobj y hy]

def DirectedTies {κ : Type} [LinearOrder κ] (desc : Bool) (key : Bytes → κ) (f : Bytes → List Bytes)
    (a n : Nat) (v : List Bytes) : Prop :=
  if desc then TiesAgree (fun b => OrderDual.toDual (key b)) f a n v else TiesAgree key f a n v

theorem directedTies_of_injective {κ : Type} [LinearOrder κ] {key : Bytes → κ}
    (hkey : Function.Injective key) (desc : Bool) (f : Bytes → List Bytes) (a n : Nat)
    (v : List Bytes) : DirectedTies desc key f a n v := by
  cases desc with
  | false => exact fun _ _ _ _ h _ _ _ _ => congrArg f (hkey h)
  | true => exact fun _ _ _ _ h _ _ _ _ => congrArg f (hkey (OrderDual.toDual.injective h))

def sortingTask (clib : CLib S) (s : Server) (a : SortOptions) (objs : List StringObject) : SortTask S :=
  { vector := loadVector clib s.db a.alpha a.sortby objs
    start := (limits a objs.length).1, stop := (limits a objs.length).2, desc := a.desc
    alpha := a.alpha, bypattern := a.sortby.isSome, dontsort := false
    int_convertion_error :=
      !a.alpha && conversionError clib s.erange (objs.map (byValue s.db a.sortby)) }

omit [LinearOrder S] in
theorem loadVector_text (db : Bytes → Option Value) (alpha : Bool) (sortby : Option Bytes)
    (objs : List StringObject) :
    (loadVector clib db alpha sortby objs).map SortObject.text = objs.map getDecodedObject := by
  unfold loadVector
  rw [List.map_map]
  rfl

theorem sortingTasks_iff {κ : Type} [LinearOrder κ] (key : Bytes → κ) {objKey : SortObject S → κ}
    (hdb : SameKeyspace s₁.db s₂.db) (a : SortOptions) (storekey : Bytes)
    {objs₁ objs₂ : List StringObject}
    (hobjs : (objs₁.map getDecodedObject).Perm (objs₂.map getDecodedObject))
    (hc : ComparedBy objKey (sortCompare false a.alpha a.sortby.isSome))
    (hkey₁ : ∀ x ∈ loadVector clib s₁.db a.alpha a.sortby objs₁, objKey x = key x.text)
    (hkey₂ : ∀ x ∈ loadVector clib s₂.db a.alpha a.sortby objs₂, objKey x = key x.text) :
    (∀ p₁ p₂, (sortingTask clib s₁ a objs₁).Sorted p₁ → (sortingTask clib s₂ a objs₂).Sorted p₂ →
        storeSorted s₁ a storekey (sortingTask clib s₁ a objs₁) p₁ =
          storeSorted s₂ a storekey (sortingTask clib s₂ a objs₂) p₂) ↔
      (sortingTask clib s₁ a objs₁).int_convertion_error =
          (sortingTask clib s₂ a objs₂).int_convertion_error ∧
        ((sortingTask clib s₁ a objs₁).int_convertion_error = false →
          outputlen a objs₁.length ≠ 0 →
          DirectedTies a.desc key (fun b => outputOf s₁.db a.operations (.sds b))
            (limits a objs₁.length).1.toNat
            ((limits a objs₁.length).2 - (limits a objs₁.length).1 + 1).toNat
            (objs₁.map getDecodedObject)) := by
  have hlength : objs₁.length = objs₂.length := by
    have h := hobjs.length_eq
    rw [List.length_map, List.length_map] at h
    exact h
  have hby₁ := by_of_compared (t := sortingTask clib s₁ a objs₁) hkey₁ hc
  have hby₂ := by_of_compared (t := sortingTask clib s₂ a objs₂) hkey₂ hc
  have htexts : ((sortingTask clib s₁ a objs₁).vector.map SortObject.text).Perm
      ((sortingTask clib s₂ a objs₂).vector.map SortObject.text) := by
    show ((loadVector _ _ _ _ _).map _).Perm ((loadVector _ _ _ _ _).map _)
    rw [loadVector_text, loadVector_text]
    exact hobjs
  have hstart : (sortingTask clib s₁ a objs₁).start = (sortingTask clib s₂ a objs₂).start := by
    show (limits a objs₁.length).1 = (limits a objs₂.length).1
    rw [hlength]
  have hstop : (sortingTask clib s₁ a objs₁).stop = (sortingTask clib s₂ a objs₂).stop := by
    show (limits a objs₁.length).2 = (limits a objs₂.length).2
    rw [hlength]
  have hf₁ := outputOf_text (S := S) (SameKeyspace.refl s₁.db) a.operations
  have hf₂ := outputOf_text (S := S) hdb a.operations
  have hpos : 0 < if a.operations = [] then 1 else a.operations.length := by
    split
    · exact Nat.one_pos
    · exact List.length_pos_iff.mpr ‹_›
  have hlen : ∀ b : Bytes, (outputOf s₁.db a.operations (.sds b)).length =
      if a.operations = [] then 1 else a.operations.length := fun b => outputOf_length _ _ _
  have houtputlen : (sortingTask clib s₁ a objs₁).outputlen a = outputlen a objs₁.length := rfl
  have hvector : (sortingTask clib s₁ a objs₁).vector.map SortObject.text =
      objs₁.map getDecodedObject := loadVector_text _ _ _ _
  cases hdesc : a.desc with
  | false =>
    have halike : Alike key (sortingTask clib s₁ a objs₁) (sortingTask clib s₂ a objs₂) :=
      ⟨hby₁.1 hdesc, hby₂.1 hdesc, rfl, rfl, hstart, hstop, limits_start a _, htexts⟩
    have h := stores_iff halike a storekey hf₁ hf₂ hpos hlen
    rw [hvector, houtputlen] at h
    exact h
  | true =>
    have halike : Alike (fun b => OrderDual.toDual (key b)) (sortingTask clib s₁ a objs₁)
        (sortingTask clib s₂ a objs₂) :=
      ⟨hby₁.2 hdesc, hby₂.2 hdesc, rfl, rfl, hstart, hstop, limits_start a _, htexts⟩
    have h := stores_iff halike a storekey hf₁ hf₂ hpos hlen
    rw [hvector, houtputlen] at h
    exact h

omit [LinearOrder S] in
theorem numericKey_injective (db : Bytes → Option Value) (sortby : Option Bytes) :
    Function.Injective (numericKey clib db sortby) := fun _ _ h =>
  natKey_injective (congrArg Prod.snd (toLex.injective h))

theorem numeric_iff (hlong : LongsAgree clib) (hdb : SameKeyspace s₁.db s₂.db) {a : SortOptions}
    (halpha : a.alpha = false) (storekey : Bytes) {objs₁ objs₂ : List StringObject}
    (hobjs : (objs₁.map getDecodedObject).Perm (objs₂.map getDecodedObject)) :
    (∀ p₁ p₂, (sortingTask clib s₁ a objs₁).Sorted p₁ → (sortingTask clib s₂ a objs₂).Sorted p₂ →
        storeSorted s₁ a storekey (sortingTask clib s₁ a objs₁) p₁ =
          storeSorted s₂ a storekey (sortingTask clib s₂ a objs₂) p₂) ↔
      BadScore clib s₁.db a.sortby objs₁ ∨
        (StaleError s₁ a.sortby objs₁ ↔ StaleError s₂ a.sortby objs₂) := by
  have hkey : ∀ {s : Server} {objs : List StringObject}, SameKeyspace s₁.db s.db →
      ∀ x ∈ loadVector clib s.db a.alpha a.sortby objs,
        toLex (x.score, natKey (getDecodedObject x.obj)) = numericKey clib s₁.db a.sortby x.text := by
    intro s objs hs x hx
    have hscore := (mem_loadVector hx).1
    rw [halpha, if_neg Bool.false_ne_true] at hscore
    have hsame : getDecodedObject (.sds (getDecodedObject x.obj)) = getDecodedObject x.obj := rfl
    unfold numericKey SortObject.text
    rw [hscore, loadScore_same hlong (byValue_same hs a.sortby hsame)]
  have hc : ComparedBy (fun so : SortObject S => toLex (so.score, natKey (getDecodedObject so.obj)))
      (sortCompare false a.alpha a.sortby.isSome) := by
    rw [halpha]
    exact sortCompare_numeric _
  rw [sortingTasks_iff (numericKey clib s₁.db a.sortby) hdb a storekey hobjs hc (hkey (SameKeyspace.refl _)) (hkey hdb)]
  have herr : ∀ (s : Server) (objs : List StringObject),
      (sortingTask clib s a objs).int_convertion_error = true ↔
        BadScore clib s.db a.sortby objs ∨ StaleError s a.sortby objs := by
    intro s objs
    rw [← conversionError_objs hlong]
    show (!a.alpha && _) = true ↔ _
    rw [halpha]
    rfl
  have hbad : BadScore clib s₁.db a.sortby objs₁ ↔ BadScore clib s₂.db a.sortby objs₂ :=
    ⟨badScore_mono hdb a.sortby hobjs, badScore_mono hdb.symm a.sortby hobjs.symm⟩
  rw [Bool.eq_iff_iff, herr, herr, ← hbad]
  constructor
  · rintro ⟨hsame, -⟩
    tauto
  · intro h
    refine ⟨by tauto, fun _ _ => ?_⟩
    exact directedTies_of_injective (numericKey_injective _ _) _ _ _ _ _

theorem alpha_replicates (hdb : SameKeyspace s₁.db s₂.db) {a : SortOptions} (halpha : a.alpha = true)
    (hby : a.sortby = none) (storekey : Bytes) {objs₁ objs₂ : List StringObject}
    (hobjs : (objs₁.map getDecodedObject).Perm (objs₂.map getDecodedObject)) :
    ∀ p₁ p₂, (sortingTask clib s₁ a objs₁).Sorted p₁ → (sortingTask clib s₂ a objs₂).Sorted p₂ →
      storeSorted s₁ a storekey (sortingTask clib s₁ a objs₁) p₁ =
        storeSorted s₂ a storekey (sortingTask clib s₂ a objs₂) p₂ := by
  have hc : ComparedBy (fun so : SortObject S => natKey (getDecodedObject so.obj))
      (sortCompare false a.alpha a.sortby.isSome) := by
    rw [halpha, hby]
    exact sortCompare_alpha
  refine (sortingTasks_iff natKey hdb a storekey hobjs hc (fun x _ => rfl)
    (fun x _ => rfl)).mpr ⟨?_, fun _ _ => ?_⟩
  · show (!a.alpha && _) = (!a.alpha && _)
    rw [halpha]
    rfl
  · exact directedTies_of_injective natKey_injective _ _ _ _ _

theorem weight_iff (hdb : SameKeyspace s₁.db s₂.db) {a : SortOptions} (halpha : a.alpha = true)
    (hby : a.sortby ≠ none) (storekey : Bytes) {objs₁ objs₂ : List StringObject}
    (hobjs : (objs₁.map getDecodedObject).Perm (objs₂.map getDecodedObject)) :
    (∀ p₁ p₂, (sortingTask clib s₁ a objs₁).Sorted p₁ → (sortingTask clib s₂ a objs₂).Sorted p₂ →
        storeSorted s₁ a storekey (sortingTask clib s₁ a objs₁) p₁ =
          storeSorted s₂ a storekey (sortingTask clib s₂ a objs₂) p₂) ↔
      (outputlen a objs₁.length ≠ 0 → WeightsDecide s₁ a objs₁) := by
  have hsome : a.sortby.isSome = true := Option.isSome_iff_ne_none.mpr hby
  have hc : ComparedBy (fun so : SortObject S => weightKey so.cmpobj)
      (sortCompare false a.alpha a.sortby.isSome) := by
    rw [halpha, hsome]
    exact sortCompare_weight
  have hkey : ∀ {s : Server} {objs : List StringObject}, SameKeyspace s₁.db s.db →
      ∀ x ∈ loadVector clib s.db a.alpha a.sortby objs, weightKey x.cmpobj =
        weightKey ((byValue s₁.db a.sortby (.sds x.text)).map getDecodedObject) := by
    intro s objs hs x hx
    have hcmp := (mem_loadVector hx).2
    have hsame : getDecodedObject (.sds (getDecodedObject x.obj)) = getDecodedObject x.obj := rfl
    rw [halpha, hsome, if_pos (by rfl)] at hcmp
    unfold SortObject.text
    rw [hcmp, byValue_same hs a.sortby hsame]
  have herr : ∀ (s : Server) (objs : List StringObject),
      (sortingTask clib s a objs).int_convertion_error = false := by
    intro s objs
    show (!a.alpha && _) = false
    rw [halpha]
    rfl
  rw [sortingTasks_iff
    (fun b => weightKey ((byValue s₁.db a.sortby (.sds b)).map getDecodedObject)) hdb a storekey hobjs
    hc (hkey (SameKeyspace.refl _)) (hkey hdb), herr, herr]
  constructor
  · rintro ⟨-, h⟩ hne
    exact h rfl hne
  · intro h
    exact ⟨rfl, fun _ hne => h hne⟩

omit [LinearOrder S] in
theorem sortTask_sorting {a : SortOptions} {v : Value} (h : (forceSort a v).dontsort = false)
    (s : Server) :
    sortTask clib s a v =
      some (sortingTask clib s (forceSort a v) (v.elements false)) := by
  unfold sortTask
  simp only [h, Bool.false_eq_true, if_false]
  rfl

omit [LinearOrder S] in
theorem storeSorted_same (hdb : SameKeyspace s₁.db s₂.db) (a : SortOptions) (storekey : Bytes)
    {t₁ t₂ : SortTask S} (hstart : t₁.start = t₂.start) (hstop : t₁.stop = t₂.stop)
    (herr : t₁.int_convertion_error = t₂.int_convertion_error) {p₁ p₂ : List (SortObject S)}
    (htexts : p₁.map SortObject.text = p₂.map SortObject.text) :
    storeSorted s₁ a storekey t₁ p₁ = storeSorted s₂ a storekey t₂ p₂ := by
  have hf₁ := outputOf_text (S := S) (SameKeyspace.refl s₁.db) a.operations
  have hf₂ := outputOf_text (S := S) hdb a.operations
  have hslice : ∀ n m : Nat,
      sliceOutput (fun so : SortObject S => outputOf s₁.db a.operations (.sds so.text)) n m p₁ =
        sliceOutput (fun so : SortObject S => outputOf s₁.db a.operations (.sds so.text)) n m p₂ := by
    intro n m
    have h₁ := sliceOutput_map SortObject.text (fun b => outputOf s₁.db a.operations (.sds b)) n m p₁
    have h₂ := sliceOutput_map SortObject.text (fun b => outputOf s₁.db a.operations (.sds b)) n m p₂
    rw [← h₁, ← h₂, htexts]
  have houtputlen : t₁.outputlen a = t₂.outputlen a := by
    unfold SortTask.outputlen
    rw [hstart, hstop]
  rw [storeSorted_eq s₁ a storekey t₁ p₁ (fun b => outputOf s₁.db a.operations (.sds b)) hf₁,
    storeSorted_eq s₂ a storekey t₂ p₂ (fun b => outputOf s₁.db a.operations (.sds b)) hf₂, herr,
    houtputlen, hslice, hstart, hstop]

theorem unsorted_replicates (hdb : SameKeyspace s₁.db s₂.db) {a : SortOptions} {v₁ v₂ : Value}
    (hv : SameValue v₁ v₂) (hdont : (forceSort a v₁).dontsort = true) (storekey : Bytes) :
    (sortTask clib s₁ a v₁ = none ∧ sortTask clib s₂ a v₂ = none) ∨
      ∃ t₁ t₂, sortTask clib s₁ a v₁ = some t₁ ∧ sortTask clib s₂ a v₂ = some t₂ ∧
        ∀ p₁ p₂, t₁.Sorted p₁ → t₂.Sorted p₂ →
          storeSorted s₁ a storekey t₁ p₁ = storeSorted s₂ a storekey t₂ p₂ := by
  have hforce : forceSort a v₁ = a ∧ a.dontsort = true ∧ v₁.isZset = true := by
    unfold forceSort at hdont ⊢
    cases hd : a.dontsort with
    | false =>
      rw [hd, Bool.false_and, if_neg Bool.false_ne_true, hd] at hdont
      cases hdont
    | true =>
      cases hz : v₁.isZset with
      | true => exact ⟨rfl, rfl, rfl⟩
      | false =>
        rw [hd, hz, if_pos (by rfl)] at hdont
        cases hdont
  obtain ⟨hsame, hd, hz⟩ := hforce
  have htexts := elements_zset hv hz
  have hlength : (v₁.elements true).length = (v₂.elements true).length := by
    have h := congrArg List.length htexts
    rw [List.length_map, List.length_map] at h
    exact h
  unfold sortTask
  rw [← forceSort_same hv, hsame]
  simp only [hd, if_true, ← hlength]
  split
  · exact Or.inl ⟨rfl, rfl⟩
  · refine Or.inr ⟨_, _, rfl, rfl, fun p₁ p₂ hp₁ hp₂ => ?_⟩
    unfold SortTask.Sorted at hp₁ hp₂
    rw [if_pos rfl] at hp₁ hp₂
    rw [hp₁, hp₂]
    refine storeSorted_same hdb a storekey rfl rfl rfl ?_
    have hvector : ∀ l₁ l₂ : List StringObject,
        l₁.map getDecodedObject = l₂.map getDecodedObject →
        (l₁.map fun obj => ({ obj := obj, score := clib.zero, cmpobj := none } : SortObject S)).map
            SortObject.text =
          (l₂.map fun obj => ({ obj := obj, score := clib.zero, cmpobj := none } : SortObject S)).map
            SortObject.text := by
      intro l₁ l₂ h
      rw [List.map_map, List.map_map]
      exact h
    have hordered : (if a.desc then (v₁.elements true).reverse else v₁.elements true).map
        getDecodedObject =
        (if a.desc then (v₂.elements true).reverse else v₂.elements true).map getDecodedObject := by
      cases a.desc with
      | false => exact htexts
      | true =>
        show (v₁.elements true).reverse.map getDecodedObject =
          (v₂.elements true).reverse.map getDecodedObject
        rw [List.map_reverse, List.map_reverse, htexts]
    refine hvector _ _ ?_
    split
    · exact hordered
    · rw [List.map_take, List.map_drop, List.map_take, List.map_drop, hordered]

def Decides (clib : CLib S) (s₁ s₂ : Server) (a : SortOptions) (objs₁ objs₂ : List StringObject) :
    Prop :=
  a.dontsort = false →
    (a.alpha = false → BadScore clib s₁.db a.sortby objs₁ ∨
      (StaleError s₁ a.sortby objs₁ ↔ StaleError s₂ a.sortby objs₂)) ∧
    (a.alpha = true → a.sortby ≠ none → outputlen a objs₁.length ≠ 0 → WeightsDecide s₁ a objs₁)

theorem command_iff (hlong : LongsAgree clib) (hdb : SameKeyspace s₁.db s₂.db) {v₁ v₂ : Value}
    (hv : SameValue v₁ v₂) (a : SortOptions) (storekey : Bytes) :
    (∀ out₁ out₂,
        (match sortTask clib s₁ a v₁ with
          | none => out₁ = .crashed
          | some t => ∃ p, t.Sorted p ∧ out₁ = storeSorted s₁ a storekey t p) →
        (match sortTask clib s₂ a v₂ with
          | none => out₂ = .crashed
          | some t => ∃ p, t.Sorted p ∧ out₂ = storeSorted s₂ a storekey t p) → out₁ = out₂) ↔
      Decides clib s₁ s₂ (forceSort a v₁) (v₁.elements false) (v₂.elements false) := by
  cases hdont : (forceSort a v₁).dontsort with
  | true =>
    refine ⟨fun _ h => ?_, fun _ out₁ out₂ h₁ h₂ => ?_⟩
    · rw [hdont] at h
      cases h
    · have hboth := @unsorted_replicates S clib s₁ s₂ _ hdb a v₁ v₂ hv hdont storekey
      rcases hboth with
        ⟨hn₁, hn₂⟩ | ⟨t₁, t₂, ht₁, ht₂, hall⟩
      · rw [hn₁] at h₁
        rw [hn₂] at h₂
        exact h₁.trans h₂.symm
      · rw [ht₁] at h₁
        rw [ht₂] at h₂
        obtain ⟨p₁, hp₁, rfl⟩ := h₁
        obtain ⟨p₂, hp₂, rfl⟩ := h₂
        exact hall p₁ p₂ hp₁ hp₂
  | false =>
    have hdont₂ : (forceSort a v₂).dontsort = false := by
      rw [← forceSort_same hv]
      exact hdont
    have hobjs := elements_same hv
    rw [sortTask_sorting hdont, sortTask_sorting hdont₂, ← forceSort_same hv]
    have hout : ∀ (s : Server) (t : SortTask S) (p : List (SortObject S)),
        storeSorted s a storekey t p = storeSorted s (forceSort a v₁) storekey t p := by
      intro s t p
      unfold forceSort
      split
      · rfl
      · rfl
    generalize forceSort a v₁ = b at hdont hout ⊢
    have hall : (∀ out₁ out₂,
        (∃ p, (sortingTask clib s₁ b (v₁.elements false)).Sorted p ∧
          out₁ = storeSorted s₁ a storekey (sortingTask clib s₁ b (v₁.elements false)) p) →
        (∃ p, (sortingTask clib s₂ b (v₂.elements false)).Sorted p ∧
          out₂ = storeSorted s₂ a storekey (sortingTask clib s₂ b (v₂.elements false)) p) →
          out₁ = out₂) ↔
        ∀ p₁ p₂, (sortingTask clib s₁ b (v₁.elements false)).Sorted p₁ →
          (sortingTask clib s₂ b (v₂.elements false)).Sorted p₂ →
          storeSorted s₁ b storekey (sortingTask clib s₁ b (v₁.elements false)) p₁ =
            storeSorted s₂ b storekey (sortingTask clib s₂ b (v₂.elements false)) p₂ := by
      constructor
      · intro h p₁ p₂ hp₁ hp₂
        rw [← hout, ← hout]
        exact h _ _ ⟨p₁, hp₁, rfl⟩ ⟨p₂, hp₂, rfl⟩
      · rintro h out₁ out₂ ⟨p₁, hp₁, rfl⟩ ⟨p₂, hp₂, rfl⟩
        rw [hout, hout]
        exact h p₁ p₂ hp₁ hp₂
    refine hall.trans ?_
    unfold Decides
    rw [hdont]
    cases halpha : b.alpha with
    | false =>
      rw [numeric_iff hlong hdb halpha storekey hobjs]
      exact ⟨fun h _ => ⟨fun _ => h, nofun⟩, fun h => (h rfl).1 rfl⟩
    | true =>
      by_cases hby : b.sortby = none
      · exact ⟨fun _ _ => ⟨nofun, fun _ hne => absurd hby hne⟩,
          fun _ => alpha_replicates hdb halpha hby storekey hobjs⟩
      · rw [weight_iff hdb halpha hby storekey hobjs]
        exact ⟨fun h _ => ⟨nofun, fun _ _ => h⟩, fun h => (h rfl).2 rfl hby⟩

def intLib : CLib Int where
  strtod b :=
    match string2ll b with
    | some v => { value := v, whole := true, erange := false, nan := false }
    | none => { value := 0, whole := false, erange := false, nan := false }
  ofLong v := v
  zero := 0

theorem intLib_longsAgree : LongsAgree intLib := by
  intro n
  have h : string2ll (ll2string n.val) = some n.val := by
    have hfits := n.property
    unfold FitsBytes at hfits
    exact string2ll_ll2string (by omega) (by omega)
  constructor
  · show (match string2ll (ll2string n.val) with
      | some v => ({ value := v, whole := true, erange := false, nan := false } : Strtod Int)
      | none => { value := 0, whole := false, erange := false, nan := false }).value = n.val
    rw [h]
  · show (match string2ll (ll2string n.val) with
      | some v => ({ value := v, whole := true, erange := false, nan := false } : Strtod Int)
      | none => { value := 0, whole := false, erange := false, nan := false }).fails = false
    rw [h]
    rfl

def setServer (members : List Bytes) : Server :=
  { db := fun key => if key = ascii "s" then some (.set (members.map .sds)) else none, erange := false }

theorem setServer_same {l₁ l₂ : List Bytes} (h : l₁.Perm l₂) :
    SameKeyspace (setServer l₁).db (setServer l₂).db := by
  intro key
  show Option.Rel SameValue (if key = ascii "s" then _ else _) (if key = ascii "s" then _ else _)
  split
  · refine Option.Rel.some ?_
    show ((l₁.map StringObject.sds).map getDecodedObject).Perm
      ((l₂.map StringObject.sds).map getDecodedObject)
    exact (h.map _).map _
  · exact Option.Rel.none

def byMissingWeights : List Bytes :=
  [ascii "BY", ascii "w_*", ascii "ALPHA", ascii "STORE", ascii "d"]

end RedisCluster.Sort
