import RedisCluster.Sets.SetAlgebra
import RedisCluster.Sets.Proofs.SetRunProofs

/-!
# Set algebra in two encodings

Whatever the encodings, the order of the sets and the algorithm, the result set holds exactly the
intersection, union or difference, as long as an intset that is filled on the way keeps its byte count
in the range of `uint32_t` and an announced number is in the range of `int`.
-/

namespace RedisCluster.Sets

open RedisCluster.Util RedisCluster.Lib RedisCluster.Keyspace

variable {ω : Type} {db : SetDb ω} {m : SetSpace ω}

/-! ## The conditions -/

def AddAllFit (limit : Nat) : SetObject → List StringObject → Prop
  | _, [] => True
  | o, v :: vs => AddFits o v ∧
      match setTypeAdd limit o v with
      | some r => AddAllFit limit r.1 vs
      | none => True

instance decidableAddAllFit (limit : Nat) : ∀ o vs, Decidable (AddAllFit limit o vs)
  | _, [] => inferInstanceAs (Decidable True)
  | o, v :: vs =>
    have : Decidable (match setTypeAdd limit o v with
        | some r => AddAllFit limit r.1 vs
        | none => True) :=
      match setTypeAdd limit o v with
      | some r => decidableAddAllFit limit r.1 vs
      | none => inferInstanceAs (Decidable True)
    inferInstanceAs (Decidable (_ ∧ _))

def allObjects : List (Option Source) → List StringObject
  | [] => []
  | none :: sets => allObjects sets
  | some s :: sets => (setTypeObjects s.set).getD [] ++ allObjects sets

def objectsIn (s : Source) (result : Finset Bytes) : List StringObject :=
  ((setTypeObjects s.set).getD []).filter fun o => decide (getDecodedObject o ∈ result)

def CountFits (result : Finset Bytes) : Prop := result.card < 2 ^ 31

def InterFits (limit : Nat) (order : List Source → List Source) (db : SetDb ω) (m : SetSpace ω)
    (setkeys : List Bytes) (dstkey : Option Bytes) : Prop :=
  match dstkey, sinterSources db setkeys with
  | some _, .found sets =>
    match order sets with
    | s :: _ => AddAllFit limit createIntsetObject (objectsIn s (interOf m setkeys))
    | [] => True
  | _, _ => True

/-- The intset that is filled does not outgrow `uint32_t`, and `cardinality` does not outgrow `int`
where it is announced or tested. -/
def UnionDiffFits (limit : Nat) (algoOne : Source → List (Option Source) → Bool) (db : SetDb ω)
    (m : SetSpace ω) (setkeys : List Bytes) (dstkey : Option Bytes) : SetOperator → Prop
  | .union =>
    AddAllFit limit createIntsetObject (allObjects ((sunionDiffSources db setkeys).getD [])) ∧
      (dstkey = none → CountFits (unionOf m setkeys))
  | .diff =>
    match sunionDiffSources db setkeys with
    | some (some s :: rest) =>
      if algoOne s rest then
        AddAllFit limit createIntsetObject (objectsIn s (diffOf m setkeys)) ∧
          (dstkey = none → CountFits (diffOf m setkeys))
      else
        AddAllFit limit createIntsetObject ((setTypeObjects s.set).getD []) ∧
          CountFits (members m s.key)
    | _ => True

/-- The reply has each element of the result once, with the announced number of them; with a
destination the result is stored there. -/
def AlgebraCorrect (db : SetDb ω) (m : SetSpace ω) (result : Finset Bytes) (dstkey : Option Bytes)
    (r : Option (SetDb ω × AlgebraReply)) : Prop :=
  match dstkey with
  | none => ∃ elements, r = some (db, .multibulk result.card elements) ∧ elements.Nodup ∧
      elements.toFinset = result ∧ elements.length = result.card
  | some dst => ∃ db', r = some (db', .longlong result.card) ∧ Represents db' (store m dst result)

/-! ## Sources -/

def SourceHolds (m : SetSpace ω) (s : Source) : Prop := SetHolds s.set (members m s.key)

theorem mem_interOf (m : SetSpace ω) {keys : List Bytes} (hne : keys ≠ []) (b : Bytes) :
    b ∈ interOf m keys ↔ ∀ k ∈ keys, b ∈ members m k := by
  cases keys with
  | nil => exact absurd rfl hne
  | cons k ks => rw [interOf, Finset.mem_filter, List.forall_mem_cons]

theorem sinterSources_found (h : Represents db m) {keys : List Bytes} {sets : List Source}
    (hsets : sinterSources db keys = .found sets) :
    sets.map Source.key = keys ∧ ∀ s ∈ sets, SourceHolds m s := by
  induction keys generalizing sets with
  | nil =>
    cases hsets
    exact ⟨rfl, fun s hs => absurd hs List.not_mem_nil⟩
  | cons key keys ih =>
    rw [sinterSources] at hsets
    cases hk : lookupKey db key with
    | none =>
      rw [hk] at hsets
      cases hsets
    | some v =>
      rw [hk] at hsets
      cases v with
      | other x => cases hsets
      | set o =>
        obtain ⟨s, hm, ho, -⟩ := h.set hk
        cases hrest : sinterSources db keys with
        | found rest =>
          rw [hrest] at hsets
          cases hsets
          obtain ⟨hkeys, hholds⟩ := ih hrest
          refine ⟨by rw [List.map_cons, hkeys], fun t ht => ?_⟩
          rcases List.mem_cons.mp ht with rfl | ht
          · show SetHolds o (members m key)
            rw [members_of hm]
            exact ho
          · exact hholds t ht
        | missing =>
          rw [hrest] at hsets
          cases hsets
        | wrongtype =>
          rw [hrest] at hsets
          cases hsets

theorem sinterSources_missing (h : Represents db m) {keys : List Bytes}
    (hsets : sinterSources db keys = .missing) : ∃ k ∈ keys, members m k = ∅ := by
  induction keys with
  | nil => cases hsets
  | cons key keys ih =>
    rw [sinterSources] at hsets
    cases hk : lookupKey db key with
    | none => exact ⟨key, List.mem_cons_self, members_none (h.none hk)⟩
    | some v =>
      rw [hk] at hsets
      cases v with
      | other x => cases hsets
      | set o =>
        cases hrest : sinterSources db keys with
        | found rest =>
          rw [hrest] at hsets
          cases hsets
        | missing =>
          obtain ⟨k, hk, he⟩ := ih hrest
          exact ⟨k, List.mem_cons_of_mem key hk, he⟩
        | wrongtype =>
          rw [hrest] at hsets
          cases hsets

theorem sinterSources_wrongtype (h : Represents db m) {keys : List Bytes}
    (hsets : sinterSources db keys = .wrongtype) : ∃ k ∈ keys, isOther m k = true := by
  induction keys with
  | nil => cases hsets
  | cons key keys ih =>
    rw [sinterSources] at hsets
    cases hk : lookupKey db key with
    | none =>
      rw [hk] at hsets
      cases hsets
    | some v =>
      rw [hk] at hsets
      cases v with
      | other x => exact ⟨key, List.mem_cons_self, isOther_other (h.other hk)⟩
      | set o =>
        cases hrest : sinterSources db keys with
        | found rest =>
          rw [hrest] at hsets
          cases hsets
        | missing =>
          rw [hrest] at hsets
          cases hsets
        | wrongtype =>
          obtain ⟨k, hk, he⟩ := ih hrest
          exact ⟨k, List.mem_cons_of_mem key hk, he⟩

def OptSourceHolds (m : SetSpace ω) (key : Bytes) : Option Source → Prop
  | some s => s.key = key ∧ SourceHolds m s
  | none => members m key = ∅

theorem sunionDiffSources_holds (h : Represents db m) {keys : List Bytes}
    (hsets : ∀ k ∈ keys, isOther m k = false) :
    ∃ sets, sunionDiffSources db keys = some sets ∧ List.Forall₂ (OptSourceHolds m) keys sets := by
  induction keys with
  | nil => exact ⟨[], rfl, List.Forall₂.nil⟩
  | cons key keys ih =>
    obtain ⟨sets, hrest, hall⟩ := ih fun k hk => hsets k (List.mem_cons_of_mem key hk)
    cases hk : lookupKey db key with
    | none =>
      refine ⟨none :: sets, ?_, List.Forall₂.cons (members_none (h.none hk)) hall⟩
      rw [sunionDiffSources, hk, hrest]
      rfl
    | some v =>
      cases v with
      | other x =>
        have hother := isOther_other (h.other hk)
        rw [hsets key List.mem_cons_self] at hother
        cases hother
      | set o =>
        obtain ⟨s, hm, ho, -⟩ := h.set hk
        have hsource : OptSourceHolds m key (some { key := key, set := o }) := by
          refine ⟨rfl, ?_⟩
          show SetHolds o (members m key)
          rw [members_of hm]
          exact ho
        refine ⟨some { key := key, set := o } :: sets, ?_, List.Forall₂.cons hsource hall⟩
        rw [sunionDiffSources, hk, hrest]
        rfl

/-! ## Storing -/

theorem storeResult_correct (h : Represents db m) {dstset : SetObject} {result : Finset Bytes}
    (hd : SetHolds dstset result) (dst : Bytes) :
    AlgebraCorrect db m result (some dst) (some (storeResult db dst dstset)) := by
  unfold storeResult
  dsimp only
  rw [setTypeSize_eq hd]
  by_cases hempty : result = ∅
  · rw [if_neg (by rw [hempty, Finset.card_empty]; exact lt_irrefl 0)]
    refine ⟨_, by rw [hempty, Finset.card_empty], ?_⟩
    rw [store, if_pos hempty]
    exact h.update (lookup_dbDelete ..) (fun k hk => lookup_dbDelete_ne _ hk) trivial
  · have hne := Finset.nonempty_iff_ne_empty.mpr hempty
    rw [if_pos (Finset.card_pos.mpr hne)]
    refine ⟨_, rfl, ?_⟩
    rw [store, if_neg hempty]
    refine h.update (lookup_dbAdd ..) (fun k hk => ?_) ⟨hd, hne⟩
    rw [lookup_dbAdd_ne _ _ hk, lookup_dbDelete_ne _ hk]

/-! ## SINTER -/

theorem bulk_object (e : Element) : getDecodedObject e.object = e.bulk := by
  cases e with
  | intobj v => exact decoded_created v
  | eleobj o => rfl

def Element.Fits : Element → Prop
  | .intobj v => FitsBytes 8 v
  | .eleobj _ => True

theorem setTypeElements_eq {o : SetObject} {s : Finset Bytes} (h : SetHolds o s) :
    ∃ es, setTypeElements o = some es ∧ (∀ e ∈ es, e.Fits) ∧
      setTypeObjects o = some (es.map Element.object) ∧ (es.map Element.bulk).Nodup ∧
      (es.map Element.bulk).toFinset = s := by
  obtain ⟨os, hos, hnodup, hset⟩ := setTypeObjects_eq h
  have hbulk : ∀ es : List Element, os = es.map Element.object →
      es.map Element.bulk = decodedKeys os := by
    rintro es rfl
    rw [decodedKeys, List.map_map]
    exact List.map_congr_left fun e _ => (bulk_object e).symm
  cases o with
  | intset is =>
    obtain ⟨t, ht, h64, -⟩ := h
    have hvalues := intsetValues_eq ht
    have hos' : os = (t.sort.map Element.intobj).map Element.object := by
      rw [setTypeObjects, hvalues] at hos
      cases hos
      rw [List.map_map]
      rfl
    refine ⟨t.sort.map Element.intobj, ?_, ?_, ?_, ?_, ?_⟩
    · rw [setTypeElements, hvalues]
      rfl
    · intro e he
      obtain ⟨v, hv, rfl⟩ := List.mem_map.mp he
      exact h64 v ((Finset.mem_sort _).mp hv)
    · rw [hos, hos']
    · rw [hbulk _ hos']
      exact hnodup
    · rw [hbulk _ hos']
      exact hset
  | ht d =>
    have hos' : os = (d.map Element.eleobj).map Element.object := by
      rw [setTypeObjects] at hos
      cases hos
      rw [List.map_map]
      exact (List.map_id _).symm
    refine ⟨d.map Element.eleobj, rfl, ?_, ?_, ?_, ?_⟩
    · intro e he
      obtain ⟨o, -, rfl⟩ := List.mem_map.mp he
      trivial
    · rw [hos, hos']
    · rw [hbulk _ hos']
      exact hnodup
    · rw [hbulk _ hos']
      exact hset

theorem interFinds_eq {o : SetObject} {s : Finset Bytes} (h : SetHolds o s) {e : Element}
    (he : e.Fits) : interFinds e o = some (decide (e.bulk ∈ s)) := by
  cases e with
  | intobj v =>
    cases o with
    | intset is =>
      obtain ⟨t, ht, h64, rfl⟩ := h
      have hv : FitsBytes 8 v := he
      rw [interFinds, ht.find hv, Element.bulk]
      simp only [mem_spellings h64 hv]
    | ht d =>
      rw [interFinds, setTypeIsMember_eq h, decoded_created]
      rfl
  | eleobj x =>
    have hmember := setTypeIsMember_eq h x
    cases x with
    | sds b =>
      rw [interFinds]
      · exact hmember
      · intro n is _ hn
        cases hn
    | int n =>
      cases o with
      | ht d => exact hmember
      | intset is =>
        obtain ⟨t, ht, h64, rfl⟩ := h
        rw [interFinds, ht.find n.property]
        simp only [Option.bind_eq_bind, Option.bind_some]
        by_cases hn : n.val ∈ t
        · rw [decide_eq_true hn]
          exact hmember
        · have hnot : getDecodedObject (.int n) ∉ t.image ll2string := by
            show ll2string n.val ∉ _
            rwa [mem_spellings h64 n.property]
          rw [decide_eq_false hn]
          show some false = some (decide (getDecodedObject (.int n) ∈ t.image ll2string))
          rw [decide_eq_false hnot]

theorem interAll_eq {first : Bytes} {rest : List Source} (hrest : ∀ s ∈ rest, SourceHolds m s)
    {e : Element} (he : e.Fits) (hfirst : e.bulk ∈ members m first) :
    interAll first e rest = some (decide (∀ s ∈ rest, e.bulk ∈ members m s.key)) := by
  induction rest with
  | nil => simp [interAll]
  | cons s rest ih =>
    have ih' := ih fun t ht => hrest t (List.mem_cons_of_mem s ht)
    rw [interAll]
    by_cases hs : s.key = first
    · rw [if_pos hs, ih']
      congr 1
      rw [Bool.eq_iff_iff, decide_eq_true_iff, decide_eq_true_iff, List.forall_mem_cons, hs]
      exact ⟨fun h => ⟨hfirst, h⟩, And.right⟩
    · rw [if_neg hs, interFinds_eq (hrest s List.mem_cons_self) he]
      simp only [Option.bind_eq_bind, Option.bind_some]
      by_cases hmem : e.bulk ∈ members m s.key
      · rw [decide_eq_true hmem, if_pos rfl, ih']
        congr 1
        rw [Bool.eq_iff_iff, decide_eq_true_iff, decide_eq_true_iff, List.forall_mem_cons]
        exact ⟨fun h => ⟨hmem, h⟩, And.right⟩
      · rw [decide_eq_false hmem, if_neg (by decide)]
        have hnot : ¬ ∀ t ∈ s :: rest, e.bulk ∈ members m t.key :=
          fun h => hmem (h s List.mem_cons_self)
        rw [decide_eq_false hnot]
        rfl

theorem interReplyLoop_eq {first : Bytes} {rest : List Source}
    (hrest : ∀ s ∈ rest, SourceHolds m s) (es : List Element)
    (hes : ∀ e ∈ es, e.Fits ∧ e.bulk ∈ members m first) (replies : List Bytes) (n : Nat) :
    ∃ new, new = (es.map Element.bulk).filter
        (fun b => decide (∀ s ∈ rest, b ∈ members m s.key)) ∧
      interReplyLoop first rest es replies n = some (replies ++ new, n + new.length) := by
  induction es generalizing replies n with
  | nil => exact ⟨[], rfl, by simp [interReplyLoop]⟩
  | cons e es ih =>
    obtain ⟨he, hfirst⟩ := hes e List.mem_cons_self
    have ih' := ih fun x hx => hes x (List.mem_cons_of_mem e hx)
    rw [interReplyLoop, interAll_eq hrest he hfirst]
    simp only [Option.bind_eq_bind, Option.bind_some, List.map_cons]
    by_cases hall : ∀ s ∈ rest, e.bulk ∈ members m s.key
    · obtain ⟨new, hnew, hloop⟩ := ih' (replies ++ [e.bulk]) (n + 1)
      refine ⟨e.bulk :: new, ?_, ?_⟩
      · rw [List.filter_cons_of_pos (by simpa using hall), hnew]
      · rw [decide_eq_true hall, if_pos rfl, hloop, List.append_assoc, List.length_cons]
        simp only [List.singleton_append, Nat.add_assoc, Nat.add_comm 1]
    · obtain ⟨new, hnew, hloop⟩ := ih' replies n
      refine ⟨new, ?_, ?_⟩
      · rw [List.filter_cons_of_neg (by simpa using hall), hnew]
      · rw [decide_eq_false hall, if_neg (by decide), hloop]

theorem interStoreLoop_holds (limit : Nat) {first : Bytes} {rest : List Source}
    (hrest : ∀ s ∈ rest, SourceHolds m s) (es : List Element)
    (hes : ∀ e ∈ es, e.Fits ∧ e.bulk ∈ members m first) {d : SetObject} {s : Finset Bytes}
    (hd : SetHolds d s)
    (hfit : AddAllFit limit d ((es.map Element.object).filter
      fun o => decide (∀ s ∈ rest, getDecodedObject o ∈ members m s.key))) :
    ∃ d', interStoreLoop limit first rest es d = some d' ∧
      SetHolds d' (s ∪ (es.map Element.bulk).toFinset.filter
        (fun b => ∀ s ∈ rest, b ∈ members m s.key)) := by
  induction es generalizing d s with
  | nil => exact ⟨d, rfl, by simpa using hd⟩
  | cons e es ih =>
    obtain ⟨he, hfirst⟩ := hes e List.mem_cons_self
    have ih' := @ih fun x hx => hes x (List.mem_cons_of_mem e hx)
    rw [interStoreLoop, interAll_eq hrest he hfirst]
    simp only [Option.bind_eq_bind, Option.bind_some, List.map_cons, List.toFinset_cons,
      Finset.filter_insert]
    rw [List.map_cons] at hfit
    by_cases hall : ∀ s ∈ rest, e.bulk ∈ members m s.key
    · rw [List.filter_cons_of_pos (by rw [bulk_object]; simpa using hall)] at hfit
      obtain ⟨d₁, hadd, hd₁⟩ := setTypeAdd_holds limit hd hfit.1
      have hfit₁ := hfit.2
      rw [hadd] at hfit₁
      rw [bulk_object] at hadd hd₁
      obtain ⟨d', hloop, hd'⟩ := ih' hd₁ hfit₁
      refine ⟨d', ?_, ?_⟩
      · rw [decide_eq_true hall, if_pos rfl, hadd]
        exact hloop
      · rw [if_pos hall, Finset.union_insert, ← Finset.insert_union]
        exact hd'
    · rw [List.filter_cons_of_neg (by rw [bulk_object]; simpa using hall)] at hfit
      obtain ⟨d', hloop, hd'⟩ := ih' hd hfit
      refine ⟨d', ?_, ?_⟩
      · rw [decide_eq_false hall, if_neg (by decide), hloop]
      · rw [if_neg hall]
        exact hd'

theorem sinter_correct (limit : Nat) (order : List Source → List Source)
    (horder : ∀ l, (order l).Perm l) (h : Represents db m) {setkeys : List Bytes}
    (hne : setkeys ≠ []) (hsets : ∀ k ∈ setkeys, isOther m k = false) (dstkey : Option Bytes)
    (hfit : InterFits limit order db m setkeys dstkey) :
    AlgebraCorrect db m (interOf m setkeys) dstkey
      (sinterGenericCommand limit order db setkeys dstkey) := by
  unfold sinterGenericCommand
  cases hsrc : sinterSources db setkeys with
  | wrongtype =>
    obtain ⟨k, hk, hother⟩ := sinterSources_wrongtype h hsrc
    rw [hsets k hk] at hother
    cases hother
  | missing =>
    obtain ⟨k, hk, hempty⟩ := sinterSources_missing h hsrc
    have hinter : interOf m setkeys = ∅ := by
      rw [Finset.eq_empty_iff_forall_notMem]
      intro b hb
      have hbk := (mem_interOf m hne b).mp hb k hk
      rw [hempty] at hbk
      exact absurd hbk (Finset.notMem_empty b)
    rw [hinter]
    cases dstkey with
    | none => exact ⟨[], rfl, List.nodup_nil, rfl, rfl⟩
    | some dst =>
      refine ⟨_, rfl, ?_⟩
      rw [store, if_pos rfl]
      exact h.update (lookup_dbDelete ..) (fun k hk => lookup_dbDelete_ne _ hk) trivial
  | found sets =>
    obtain ⟨hkeys, hholds⟩ := sinterSources_found h hsrc
    have hperm := horder sets
    dsimp only
    cases hord : order sets with
    | nil =>
      rw [hord] at hperm
      have hnil : sets = [] := hperm.symm.eq_nil
      rw [hnil] at hkeys
      exact absurd hkeys.symm hne
    | cons s rest =>
      rw [hord] at hperm
      have hs : SourceHolds m s := hholds s (hperm.mem_iff.mp List.mem_cons_self)
      have hrest : ∀ t ∈ rest, SourceHolds m t := fun t ht =>
        hholds t (hperm.mem_iff.mp (List.mem_cons_of_mem s ht))
      have hmem : ∀ b, b ∈ interOf m setkeys ↔
          b ∈ members m s.key ∧ ∀ t ∈ rest, b ∈ members m t.key := by
        intro b
        rw [mem_interOf m hne, ← hkeys, List.forall_mem_map]
        constructor
        · intro hall
          exact ⟨hall s (hperm.mem_iff.mp List.mem_cons_self),
            fun t ht => hall t (hperm.mem_iff.mp (List.mem_cons_of_mem s ht))⟩
        · rintro ⟨h1, h2⟩ t ht
          rcases List.mem_cons.mp (hperm.mem_iff.mpr ht) with rfl | ht
          · exact h1
          · exact h2 t ht
      obtain ⟨es, helements, hfits, hobjects, hnodup, hset⟩ := setTypeElements_eq hs
      have hes : ∀ e ∈ es, e.Fits ∧ e.bulk ∈ members m s.key := by
        intro e he
        refine ⟨hfits e he, ?_⟩
        rw [← hset, List.mem_toFinset]
        exact List.mem_map_of_mem he
      have hresult : (es.map Element.bulk).toFinset.filter
          (fun b => ∀ t ∈ rest, b ∈ members m t.key) = interOf m setkeys := by
        ext b
        rw [Finset.mem_filter, hset, hmem]
      dsimp only
      rw [helements]
      cases dstkey with
      | none =>
        obtain ⟨new, hnew, hloop⟩ := interReplyLoop_eq hrest es hes [] 0
        have hnew' : new.Nodup := by
          rw [hnew]
          exact hnodup.filter _
        have hnewset : new.toFinset = interOf m setkeys := by
          rw [← hresult, hnew, List.toFinset_filter]
          congr 1
          funext b
          simp
        have hcard : new.length = (interOf m setkeys).card := by
          rw [← hnewset, List.toFinset_card_of_nodup hnew']
        simp only [Option.bind_eq_bind, Option.bind_some, hloop, List.nil_append, Nat.zero_add]
        exact ⟨new, by rw [hcard]; rfl, hnew', hnewset, hcard⟩
      | some dst =>
        have hfit' : AddAllFit limit createIntsetObject (objectsIn s (interOf m setkeys)) := by
          simpa only [InterFits, hsrc, hord] using hfit
        have hfilter : objectsIn s (interOf m setkeys) = (es.map Element.object).filter
            fun o => decide (∀ t ∈ rest, getDecodedObject o ∈ members m t.key) := by
          rw [objectsIn, hobjects, Option.getD_some]
          apply List.filter_congr
          intro o ho
          obtain ⟨e, he, rfl⟩ := List.mem_map.mp ho
          rw [bulk_object, Bool.eq_iff_iff, decide_eq_true_iff, decide_eq_true_iff, hmem]
          exact ⟨And.right, fun h => ⟨(hes e he).2, h⟩⟩
        rw [hfilter] at hfit'
        obtain ⟨d, hloop, hd⟩ := interStoreLoop_holds limit hrest es hes createIntsetObject_holds hfit'
        rw [Finset.empty_union, hresult] at hd
        simp only [Option.bind_eq_bind, Option.bind_some, hloop]
        exact storeResult_correct h hd dst

/-! ## `cardinality` -/

theorem toInt_of_fits {n : Nat} (h : n < 2 ^ 31) : toInt n = n := by
  unfold toInt
  omega

theorem countFits_empty : CountFits ∅ := by
  rw [CountFits, Finset.card_empty]
  exact Nat.two_pow_pos 31

theorem toInt_empty : toInt (∅ : Finset Bytes).card = 0 := toInt_of_fits countFits_empty

theorem toInt_succ (n : Int) : toInt (toInt n + 1) = toInt (n + 1) := by
  unfold toInt
  omega

theorem toInt_pred (n : Int) : toInt (toInt n - 1) = toInt (n - 1) := by
  unfold toInt
  omega

/-! ## SUNION -/

theorem addLoop_holds (limit : Nat) (vs ws : List StringObject) {d : SetObject} {s : Finset Bytes}
    (hd : SetHolds d s) (hfit : AddAllFit limit d (vs ++ ws)) :
    ∃ d', addLoop limit vs d (toInt s.card) =
        some (d', toInt (s ∪ (decodedKeys vs).toFinset).card) ∧
      SetHolds d' (s ∪ (decodedKeys vs).toFinset) ∧ AddAllFit limit d' ws := by
  induction vs generalizing d s with
  | nil => exact ⟨d, by simp [addLoop, decodedKeys], by simpa [decodedKeys] using hd, hfit⟩
  | cons v vs ih =>
    obtain ⟨d₁, hadd, hd₁⟩ := setTypeAdd_holds limit hd hfit.1
    have hfit₁ := hfit.2
    rw [hadd] at hfit₁
    obtain ⟨d', hloop, hd', hrest⟩ := ih hd₁ hfit₁
    have hunion : s ∪ (decodedKeys (v :: vs)).toFinset =
        insert (getDecodedObject v) s ∪ (decodedKeys vs).toFinset := by
      show s ∪ (getDecodedObject v :: decodedKeys vs).toFinset = _
      rw [List.toFinset_cons, Finset.union_insert, Finset.insert_union]
    have hcount : (if decide (getDecodedObject v ∉ s) = true then toInt (toInt s.card + 1)
        else toInt s.card) = toInt (insert (getDecodedObject v) s).card := by
      by_cases hmem : getDecodedObject v ∈ s
      · rw [if_neg (by simpa using hmem), Finset.insert_eq_of_mem hmem]
      · rw [if_pos (by simpa using hmem), Finset.card_insert_of_notMem hmem, toInt_succ,
          Nat.cast_add, Nat.cast_one]
    rw [hunion]
    refine ⟨d', ?_, hd', hrest⟩
    rw [addLoop, hadd]
    simp only [Option.bind_eq_bind, Option.bind_some]
    rw [hcount, hloop]

theorem unionLoop_holds (limit : Nat) {keys : List Bytes} {sets : List (Option Source)}
    (hall : List.Forall₂ (OptSourceHolds m) keys sets) {d : SetObject} {s : Finset Bytes}
    (hd : SetHolds d s) (hfit : AddAllFit limit d (allObjects sets)) :
    ∃ d', unionLoop limit sets d (toInt s.card) = some (d', toInt (s ∪ unionOf m keys).card) ∧
      SetHolds d' (s ∪ unionOf m keys) := by
  induction hall generalizing d s with
  | nil => exact ⟨d, by simp [unionLoop, unionOf], by simpa [unionOf] using hd⟩
  | @cons key set keys sets hset _ ih =>
    have hunion : unionOf m (key :: keys) = members m key ∪ unionOf m keys := by
      rw [unionOf, List.toFinset_cons, Finset.biUnion_insert]
      rfl
    cases set with
    | none =>
      have hempty : members m key = ∅ := hset
      obtain ⟨d', hloop, hd'⟩ := ih hd hfit
      rw [hunion, hempty, Finset.empty_union]
      exact ⟨d', hloop, hd'⟩
    | some src =>
      obtain ⟨hkey, hholds⟩ := hset
      obtain ⟨os, hos, hnodup, hos'⟩ := setTypeObjects_eq hholds
      rw [allObjects, hos, Option.getD_some] at hfit
      obtain ⟨d₁, hadd, hd₁, hfit₁⟩ := addLoop_holds limit os (allObjects sets) hd hfit
      rw [hos', hkey] at hadd hd₁
      obtain ⟨d', hloop, hd'⟩ := ih hd₁ hfit₁
      rw [hunion, ← Finset.union_assoc]
      refine ⟨d', ?_, hd'⟩
      rw [unionLoop, hos]
      simp only [Option.bind_eq_bind, Option.bind_some, hadd]
      exact hloop

/-! ## SDIFF, algorithm 1 -/

def InSome (m : SetSpace ω) (b : Bytes) (sets : List (Option Source)) : Prop :=
  ∃ s ∈ sets.filterMap id, b ∈ members m s.key

instance (m : SetSpace ω) (b : Bytes) (sets : List (Option Source)) : Decidable (InSome m b sets) :=
  inferInstanceAs (Decidable (∃ s ∈ sets.filterMap id, b ∈ members m s.key))

theorem inSome_cons (m : SetSpace ω) (b : Bytes) (s : Source) (sets : List (Option Source)) :
    InSome m b (some s :: sets) ↔ b ∈ members m s.key ∨ InSome m b sets := by
  simp [InSome]

theorem inSome_perm (m : SetSpace ω) (b : Bytes) {sets sets' : List (Option Source)}
    (h : sets.Perm sets') : InSome m b sets ↔ InSome m b sets' := by
  have hp := h.filterMap id
  constructor
  · rintro ⟨s, hs, hb⟩
    exact ⟨s, hp.mem_iff.mp hs, hb⟩
  · rintro ⟨s, hs, hb⟩
    exact ⟨s, hp.mem_iff.mpr hs, hb⟩

theorem inSome_iff {keys : List Bytes} {sets : List (Option Source)}
    (hall : List.Forall₂ (OptSourceHolds m) keys sets) (b : Bytes) :
    InSome m b sets ↔ ∃ k ∈ keys, b ∈ members m k := by
  induction hall with
  | nil => simp [InSome]
  | @cons key set keys sets hset _ ih =>
    cases set with
    | none =>
      have hempty : members m key = ∅ := hset
      have hskip : InSome m b (none :: sets) ↔ InSome m b sets := Iff.rfl
      rw [hskip, ih]
      simp [hempty]
    | some s =>
      rw [inSome_cons, ih, hset.1]
      simp

theorem filterMap_holds {keys : List Bytes} {sets : List (Option Source)}
    (hall : List.Forall₂ (OptSourceHolds m) keys sets) :
    ∀ s ∈ sets.filterMap id, SourceHolds m s := by
  induction hall with
  | nil => exact fun s hs => absurd hs List.not_mem_nil
  | @cons key set keys sets hset _ ih =>
    cases set with
    | none => exact ih
    | some s =>
      intro t ht
      rcases List.mem_cons.mp ht with rfl | ht
      · exact hset.2
      · exact ih t ht

theorem diffKeeps_eq {first : Bytes} {sets : List (Option Source)}
    (hsets : ∀ s ∈ sets.filterMap id, SourceHolds m s) (ele : StringObject)
    (hfirst : getDecodedObject ele ∈ members m first) :
    diffKeeps first ele sets = some (decide (¬ InSome m (getDecodedObject ele) sets)) := by
  induction sets with
  | nil => simp [diffKeeps, InSome]
  | cons set sets ih =>
    cases set with
    | none =>
      rw [diffKeeps, ih hsets]
      rfl
    | some s =>
      have hs : SourceHolds m s := hsets s (by simp)
      have ih' := ih fun t ht => hsets t (by simp only [List.filterMap_cons, id, List.mem_cons]; exact Or.inr ht)
      rw [diffKeeps]
      by_cases hk : s.key = first
      · have hin : InSome m (getDecodedObject ele) (some s :: sets) :=
          (inSome_cons ..).mpr (Or.inl (by rw [hk]; exact hfirst))
        rw [if_pos hk, decide_eq_false (not_not_intro hin)]
      · rw [if_neg hk, setTypeIsMember_eq hs]
        simp only [Option.bind_eq_bind, Option.bind_some]
        by_cases hmem : getDecodedObject ele ∈ members m s.key
        · have hin : InSome m (getDecodedObject ele) (some s :: sets) :=
            (inSome_cons ..).mpr (Or.inl hmem)
          rw [decide_eq_true hmem, if_pos rfl, decide_eq_false (not_not_intro hin)]
          rfl
        · rw [decide_eq_false hmem, if_neg (by decide), ih']
          congr 1
          rw [Bool.eq_iff_iff, decide_eq_true_iff, decide_eq_true_iff, inSome_cons]
          simp [hmem]

theorem diffOneLoop_holds (limit : Nat) {first : Bytes} {sets : List (Option Source)}
    (hsets : ∀ s ∈ sets.filterMap id, SourceHolds m s) (os : List StringObject)
    (hos : ∀ o ∈ os, getDecodedObject o ∈ members m first) (hnodup : (decodedKeys os).Nodup)
    {d : SetObject} {s : Finset Bytes} (hd : SetHolds d s) (hnew : ∀ b ∈ decodedKeys os, b ∉ s)
    (hfit : AddAllFit limit d
      (os.filter fun o => decide (¬ InSome m (getDecodedObject o) sets))) :
    ∃ d', diffOneLoop limit first sets os d (toInt s.card) =
        some (d', toInt (s ∪ (decodedKeys os).toFinset.filter fun b => ¬ InSome m b sets).card) ∧
      SetHolds d' (s ∪ (decodedKeys os).toFinset.filter fun b => ¬ InSome m b sets) := by
  induction os generalizing d s with
  | nil => exact ⟨d, by simp [diffOneLoop, decodedKeys], by simpa [decodedKeys] using hd⟩
  | cons o os ih =>
    have hkeys : decodedKeys (o :: os) = getDecodedObject o :: decodedKeys os := rfl
    rw [hkeys, List.nodup_cons] at hnodup
    rw [hkeys, List.forall_mem_cons] at hnew
    rw [hkeys, List.toFinset_cons, Finset.filter_insert, diffOneLoop,
      diffKeeps_eq hsets o (hos o List.mem_cons_self)]
    simp only [Option.bind_eq_bind, Option.bind_some]
    have ih' := @ih (fun x hx => hos x (List.mem_cons_of_mem o hx)) hnodup.2
    by_cases hin : InSome m (getDecodedObject o) sets
    · rw [List.filter_cons_of_neg (by simpa using hin)] at hfit
      rw [if_neg (not_not_intro hin), decide_eq_false (not_not_intro hin), if_neg (by decide)]
      exact ih' hd hnew.2 hfit
    · rw [List.filter_cons_of_pos (by simpa using hin)] at hfit
      obtain ⟨d₁, hadd, hd₁⟩ := setTypeAdd_holds limit hd hfit.1
      have hfit₁ := hfit.2
      rw [hadd] at hfit₁
      have hnew₁ : ∀ b ∈ decodedKeys os, b ∉ insert (getDecodedObject o) s := by
        intro b hb hmem
        rcases Finset.mem_insert.mp hmem with rfl | hmem
        · exact hnodup.1 hb
        · exact hnew.2 b hb hmem
      obtain ⟨d', hloop, hd'⟩ := ih' hd₁ hnew₁ hfit₁
      rw [Finset.card_insert_of_notMem hnew.1] at hloop
      rw [if_pos hin, Finset.union_insert, ← Finset.insert_union]
      refine ⟨d', ?_, hd'⟩
      rw [decide_eq_true hin, if_pos rfl, hadd]
      rw [Nat.cast_add, Nat.cast_one, ← toInt_succ] at hloop
      exact hloop

/-! ## SDIFF, algorithm 2 -/

theorem removeLoop_holds (os : List StringObject) {d : SetObject} {s : Finset Bytes}
    (hd : SetHolds d s) :
    ∃ d', removeLoop os d (toInt s.card) = some (d', toInt (s \ (decodedKeys os).toFinset).card) ∧
      SetHolds d' (s \ (decodedKeys os).toFinset) := by
  induction os generalizing d s with
  | nil => exact ⟨d, by simp [removeLoop, decodedKeys], by simpa [decodedKeys] using hd⟩
  | cons o os ih =>
    obtain ⟨d₁, hremove, hd₁⟩ := setTypeRemove_holds hd o
    obtain ⟨d', hloop, hd'⟩ := ih hd₁
    have hsdiff : s \ (decodedKeys (o :: os)).toFinset =
        s.erase (getDecodedObject o) \ (decodedKeys os).toFinset := by
      show s \ (getDecodedObject o :: decodedKeys os).toFinset = _
      rw [List.toFinset_cons, Finset.sdiff_insert, Finset.erase_sdiff_comm]
    have hcount : (if decide (getDecodedObject o ∈ s) = true then toInt (toInt s.card - 1)
        else toInt s.card) = toInt (s.erase (getDecodedObject o)).card := by
      by_cases hmem : getDecodedObject o ∈ s
      · have hpos : 0 < s.card := Finset.card_pos.mpr ⟨_, hmem⟩
        rw [if_pos (by simpa using hmem), Finset.card_erase_of_mem hmem, toInt_pred,
          Nat.cast_sub hpos, Nat.cast_one]
      · rw [if_neg (by simpa using hmem), Finset.erase_eq_of_notMem hmem]
    rw [hsdiff]
    refine ⟨d', ?_, hd'⟩
    rw [removeLoop, hremove]
    simp only [Option.bind_eq_bind, Option.bind_some]
    rw [hcount, hloop]

theorem diffTwoLoop_some {s : Source} {os : List StringObject} {d d₁ : SetObject} {c c₁ : Int}
    (hos : setTypeObjects s.set = some os) (hremove : removeLoop os d c = some (d₁, c₁))
    (sets : List (Option Source)) :
    diffTwoLoop (some s :: sets) d c =
      if c₁ = 0 then some (d₁, c₁) else diffTwoLoop sets d₁ c₁ := by
  rw [diffTwoLoop, hos]
  simp only [Option.bind_eq_bind, Option.bind_some, hremove]
  rfl

theorem diffTwo_some {limit : Nat} {s : Source} {os : List StringObject} {d₁ : SetObject} {c₁ : Int}
    (hos : setTypeObjects s.set = some os)
    (hadd : addLoop limit os createIntsetObject 0 = some (d₁, c₁)) (sets : List (Option Source)) :
    diffTwo limit s sets = if c₁ = 0 then some (d₁, c₁) else diffTwoLoop sets d₁ c₁ := by
  rw [diffTwo, hos]
  simp only [Option.bind_eq_bind, Option.bind_some, hadd]
  rfl

theorem diffTwoLoop_holds {keys : List Bytes} {sets : List (Option Source)}
    (hall : List.Forall₂ (OptSourceHolds m) keys sets) {d : SetObject} {s : Finset Bytes}
    (hd : SetHolds d s) (hfit : CountFits s) :
    ∃ d', diffTwoLoop sets d (toInt s.card) =
        some (d', toInt (s.filter fun b => ∀ k ∈ keys, b ∉ members m k).card) ∧
      SetHolds d' (s.filter fun b => ∀ k ∈ keys, b ∉ members m k) := by
  induction hall generalizing d s with
  | nil => exact ⟨d, by simp [diffTwoLoop], by simpa using hd⟩
  | @cons key set keys sets hset _ ih =>
    have hfilter : (s.filter fun b => ∀ k ∈ key :: keys, b ∉ members m k) =
        (s \ members m key).filter fun b => ∀ k ∈ keys, b ∉ members m k := by
      ext b
      rw [Finset.mem_filter, Finset.mem_filter, Finset.mem_sdiff, List.forall_mem_cons, and_assoc]
    rw [hfilter]
    cases set with
    | none =>
      have hempty : members m key = ∅ := hset
      rw [hempty, Finset.sdiff_empty]
      exact ih hd hfit
    | some src =>
      obtain ⟨hkey, hholds⟩ := hset
      obtain ⟨os, hos, hnodup, hos'⟩ := setTypeObjects_eq hholds
      obtain ⟨d₁, hremove, hd₁⟩ := removeLoop_holds os hd
      rw [hos', hkey] at hremove hd₁
      have hfit₁ : CountFits (s \ members m key) :=
        Nat.lt_of_le_of_lt (Finset.card_le_card Finset.sdiff_subset) hfit
      rw [diffTwoLoop_some hos hremove]
      by_cases hzero : toInt (s \ members m key).card = 0
      · rw [if_pos hzero]
        rw [toInt_of_fits hfit₁] at hzero
        have hempty : s \ members m key = ∅ := Finset.card_eq_zero.mp (by exact_mod_cast hzero)
        rw [hempty] at hd₁
        rw [hempty, Finset.filter_empty]
        exact ⟨d₁, rfl, hd₁⟩
      · rw [if_neg hzero]
        exact ih hd₁ hfit₁

theorem diffTwo_holds (limit : Nat) {key : Bytes} {s : Source} {keys : List Bytes}
    {sets : List (Option Source)} (hs : OptSourceHolds m key (some s))
    (hall : List.Forall₂ (OptSourceHolds m) keys sets)
    (hfit : AddAllFit limit createIntsetObject ((setTypeObjects s.set).getD []))
    (hcount : CountFits (members m s.key)) :
    ∃ d, diffTwo limit s sets = some (d, toInt (diffOf m (key :: keys)).card) ∧
      SetHolds d (diffOf m (key :: keys)) := by
  obtain ⟨os, hos, hnodup, hos'⟩ := setTypeObjects_eq hs.2
  rw [hos, Option.getD_some, ← List.append_nil os] at hfit
  obtain ⟨d₁, hadd, hd₁, -⟩ := addLoop_holds limit os [] createIntsetObject_holds hfit
  rw [hos', Finset.empty_union] at hadd hd₁
  rw [toInt_empty] at hadd
  rw [diffTwo_some hos hadd]
  rw [hs.1] at hd₁ hcount
  rw [hs.1]
  by_cases hz : toInt (members m key).card = 0
  · rw [if_pos hz]
    have hz' := hz
    rw [toInt_of_fits hcount] at hz'
    have hempty : members m key = ∅ := Finset.card_eq_zero.mp (by exact_mod_cast hz')
    have hdiff : diffOf m (key :: keys) = ∅ := by
      rw [diffOf, hempty, Finset.filter_empty]
    rw [hdiff]
    rw [hempty] at hd₁ ⊢
    exact ⟨d₁, rfl, hd₁⟩
  · rw [if_neg hz]
    exact diffTwoLoop_holds hall hd₁ hcount

/-! ## The command -/

theorem sunionDiff_holds (limit : Nat) (order : List (Option Source) → List (Option Source))
    (horder : ∀ l, (order l).Perm l) (algoOne : Source → List (Option Source) → Bool)
    (op : SetOperator) {setkeys : List Bytes}
    {dstkey : Option Bytes} {sets : List (Option Source)}
    (hsrc : sunionDiffSources db setkeys = some sets)
    (hall : List.Forall₂ (OptSourceHolds m) setkeys sets)
    (hfit : UnionDiffFits limit algoOne db m setkeys dstkey op) (result : Finset Bytes)
    (hresult : result = match op with | .union => unionOf m setkeys | .diff => diffOf m setkeys) :
    ∃ d, sunionDiff limit order algoOne op sets = some (d, toInt result.card) ∧ SetHolds d result ∧
      (dstkey = none → CountFits result) := by
  subst hresult
  cases op with
  | union =>
    have hfit' : AddAllFit limit createIntsetObject (allObjects sets) ∧
        (dstkey = none → CountFits (unionOf m setkeys)) := by
      simpa only [UnionDiffFits, hsrc, Option.getD_some] using hfit
    obtain ⟨d, hloop, hd⟩ := unionLoop_holds limit hall createIntsetObject_holds hfit'.1
    rw [Finset.empty_union, toInt_empty] at hloop
    rw [Finset.empty_union] at hd
    exact ⟨d, hloop, hd, hfit'.2⟩
  | diff =>
    cases hall with
    | nil =>
      dsimp only
      rw [diffOf, toInt_empty]
      exact ⟨createIntsetObject, rfl, createIntsetObject_holds, fun _ => countFits_empty⟩
    | @cons key set keys rest hset hrest =>
      cases set with
      | none =>
        have hempty : members m key = ∅ := hset
        have hdiff : diffOf m (key :: keys) = ∅ := by
          rw [diffOf, hempty, Finset.filter_empty]
        dsimp only
        rw [hdiff, toInt_empty]
        exact ⟨createIntsetObject, rfl, createIntsetObject_holds, fun _ => countFits_empty⟩
      | some s =>
        have hsunion : sunionDiff limit order algoOne .diff (some s :: rest) =
            if algoOne s rest then do
              let es ← setTypeObjects s.set
              diffOneLoop limit s.key (order rest) es createIntsetObject 0
            else diffTwo limit s rest := rfl
        dsimp only
        rw [hsunion]
        by_cases halgo : algoOne s rest = true
        · have hfit' : AddAllFit limit createIntsetObject (objectsIn s (diffOf m (key :: keys))) ∧
              (dstkey = none → CountFits (diffOf m (key :: keys))) := by
            simpa only [UnionDiffFits, hsrc, halgo, if_true] using hfit
          obtain ⟨os, hos, hnodup, hos'⟩ := setTypeObjects_eq hset.2
          have hmem : ∀ o ∈ os, getDecodedObject o ∈ members m s.key := by
            intro o ho
            rw [← hos', List.mem_toFinset]
            exact List.mem_map_of_mem ho
          have hin : ∀ b, InSome m b (order rest) ↔ ∃ k ∈ keys, b ∈ members m k := fun b =>
            (inSome_perm m b (horder rest)).trans (inSome_iff hrest b)
          have hsets : ∀ t ∈ (order rest).filterMap id, SourceHolds m t := fun t ht =>
            filterMap_holds hrest t (((horder rest).filterMap id).mem_iff.mp ht)
          have hdiff : (decodedKeys os).toFinset.filter (fun b => ¬ InSome m b (order rest)) =
              diffOf m (key :: keys) := by
            ext b
            rw [hos', hset.1, diffOf, Finset.mem_filter, Finset.mem_filter, hin]
            simp
          have hobjects : objectsIn s (diffOf m (key :: keys)) =
              os.filter fun o => decide (¬ InSome m (getDecodedObject o) (order rest)) := by
            rw [objectsIn, hos, Option.getD_some]
            apply List.filter_congr
            intro o ho
            rw [Bool.eq_iff_iff, decide_eq_true_iff, decide_eq_true_iff, ← hdiff, Finset.mem_filter]
            refine ⟨And.right, fun h => ⟨?_, h⟩⟩
            rw [hos']
            exact hmem o ho
          rw [hobjects] at hfit'
          obtain ⟨d, hloop, hd⟩ := diffOneLoop_holds limit hsets os hmem hnodup
            createIntsetObject_holds (fun b _ => Finset.notMem_empty b) hfit'.1
          rw [Finset.empty_union, hdiff, toInt_empty] at hloop
          rw [Finset.empty_union, hdiff] at hd
          refine ⟨d, ?_, hd, hfit'.2⟩
          rw [if_pos halgo, hos]
          exact hloop
        · have hfit' : AddAllFit limit createIntsetObject ((setTypeObjects s.set).getD []) ∧
              CountFits (members m s.key) := by
            simpa only [UnionDiffFits, hsrc, halgo, Bool.false_eq_true, if_false] using hfit
          obtain ⟨d, hloop, hd⟩ := diffTwo_holds limit hset hrest hfit'.1 hfit'.2
          refine ⟨d, by rw [if_neg halgo, hloop], hd, fun _ => ?_⟩
          refine Nat.lt_of_le_of_lt (Finset.card_le_card ?_) hfit'.2
          rw [diffOf, hset.1]
          exact Finset.filter_subset _ _

theorem sunionDiff_correct (limit : Nat) (order : List (Option Source) → List (Option Source))
    (horder : ∀ l, (order l).Perm l) (algoOne : Source → List (Option Source) → Bool)
    (op : SetOperator) (h : Represents db m) {setkeys : List Bytes}
    (hsets : ∀ k ∈ setkeys, isOther m k = false) (dstkey : Option Bytes)
    (hfit : UnionDiffFits limit algoOne db m setkeys dstkey op) (result : Finset Bytes)
    (hresult : result = match op with | .union => unionOf m setkeys | .diff => diffOf m setkeys) :
    AlgebraCorrect db m result dstkey
      (sunionDiffGenericCommand limit order algoOne db setkeys dstkey op) := by
  obtain ⟨sets, hsrc, hall⟩ := sunionDiffSources_holds h hsets
  obtain ⟨d, hres, hd, hcount⟩ :=
    sunionDiff_holds limit order horder algoOne op hsrc hall hfit result hresult
  unfold sunionDiffGenericCommand
  rw [hsrc]
  simp only [hres, Option.bind_eq_bind, Option.bind_some]
  cases dstkey with
  | some dst => exact storeResult_correct h hd dst
  | none =>
    obtain ⟨os, hos, hnodup, hos'⟩ := setTypeObjects_eq hd
    have hlength : (os.map getDecodedObject).length = result.card := by
      rw [← hos', List.toFinset_card_of_nodup hnodup]
      rfl
    refine ⟨os.map getDecodedObject, ?_, hnodup, hos', hlength⟩
    simp only [hos, Option.bind_some, toInt_of_fits (hcount rfl)]
    rfl

/-- An intset that is filled keeps its byte count in the range of `uint32_t`, and `cardinality` stays in
the range of `int` where it is announced or tested. -/
def AlgebraFits (limit : Nat) (ch : Choices) (db : SetDb ω) (m : SetSpace ω) (setkeys : List Bytes)
    (dstkey : Option Bytes) : AlgebraOp → Prop
  | .inter => InterFits limit ch.orderInter db m setkeys dstkey
  | .unionDiff op => UnionDiffFits limit ch.algoOne db m setkeys dstkey op

/-- **Set algebra** is that of finite sets, for any encodings, order and algorithm. -/
theorem set_algebra (limit : Nat) (ch : Choices) (op : AlgebraOp) (db : SetDb ω) (m : SetSpace ω)
    (h : Represents db m) (setkeys : List Bytes) (hne : setkeys ≠ [])
    (hsets : ∀ k ∈ setkeys, isOther m k = false) (dstkey : Option Bytes)
    (hfit : AlgebraFits limit ch db m setkeys dstkey op) :
    AlgebraCorrect db m (resultOf m setkeys op) dstkey
      (algebraCommand limit ch db setkeys dstkey op) := by
  cases op with
  | inter => exact sinter_correct limit ch.orderInter ch.permInter h hne hsets dstkey hfit
  | unionDiff op =>
    refine sunionDiff_correct limit ch.orderDiff ch.permDiff ch.algoOne op h hsets dstkey hfit _ ?_
    cases op <;> rfl

def plainChoices : Choices where
  orderInter := id
  orderDiff := id
  algoOne := diffAlgoOne
  permInter := fun l => List.Perm.refl l
  permDiff := fun l => List.Perm.refl l

/-- A set with a missing one, stored over itself. -/
theorem set_algebra_diff :
    AlgebraCorrect xDb xSpace (resultOf xSpace [ascii "k", ascii "no"] (.unionDiff .diff))
      (some (ascii "k"))
      (algebraCommand 512 plainChoices xDb [ascii "k", ascii "no"] (some (ascii "k"))
        (.unionDiff .diff)) := by
  apply set_algebra 512 plainChoices (.unionDiff .diff) xDb xSpace xDb_represents
  · exact List.cons_ne_nil _ _
  · intro k hk
    rcases List.mem_pair.mp hk with rfl | rfl
    · exact isOther_set xSpace_k
    · exact isOther_none (by rw [xSpace, store, Function.update_of_ne (by decide)])
  · have hadd : AddAllFit 512 createIntsetObject
        (objectsIn { key := ascii "k", set := .ht [.sds (ascii "x")] }
          (diffOf xSpace [ascii "k", ascii "no"])) := by
      unfold objectsIn
      show AddAllFit 512 createIntsetObject (List.filter _ [.sds (ascii "x")])
      cases hb : decide (getDecodedObject (.sds (ascii "x")) ∈ diffOf xSpace [ascii "k", ascii "no"]) with
      | true =>
        rw [List.filter_cons_of_pos (by simpa using hb)]
        decide +kernel
      | false =>
        rw [List.filter_cons_of_neg (by simpa using hb)]
        trivial
    have halgo : diffAlgoOne { key := ascii "k", set := .ht [.sds (ascii "x")] } [none] = true := by
      decide
    have hsrc : sunionDiffSources xDb [ascii "k", ascii "no"] =
        some [some { key := ascii "k", set := .ht [.sds (ascii "x")] }, none] := by
      have hno : lookupKey xDb (ascii "no") = none := by
        rw [xDb, lookup_dbAdd_ne _ _ (by decide)]
        rfl
      rw [sunionDiffSources, xDb_k, sunionDiffSources, hno]
      rfl
    simp only [AlgebraFits, UnionDiffFits, hsrc, plainChoices, halgo, if_true]
    exact ⟨hadd, fun hnone => by cases hnone⟩

/-! ## A set of wide integers -/

def wideObjects (n : Nat) : List StringObject := ((List.range n).map wideValue).map .int

theorem wideObjects_succ (n : Nat) : wideObjects (n + 1) = wideObjects n ++ [.int (wideValue n)] := by
  rw [wideObjects, List.range_succ, List.map_append, List.map_append]
  rfl

theorem addLoop_append (limit : Nat) (vs ws : List StringObject) (d : SetObject) (c : Int) :
    addLoop limit (vs ++ ws) d c =
      (addLoop limit vs d c).bind fun r => addLoop limit ws r.1 r.2 := by
  induction vs generalizing d c with
  | nil => rfl
  | cons v vs ih =>
    rw [List.cons_append, addLoop, addLoop]
    cases setTypeAdd limit d v with
    | none => rfl
    | some r => exact ih _ _

theorem decodedKeys_ints (vs : List Int64Value) :
    decodedKeys (vs.map .int) = vs.map fun v => ll2string v.val := by
  rw [decodedKeys, List.map_map]
  rfl

theorem wide_spelling_inj {i j : Nat} (hi : i < 2 ^ 29) (hj : j < 2 ^ 29)
    (hij : ll2string (wideValue i).val = ll2string (wideValue j).val) : i = j := by
  have hval := ll2string_inj (wideValue i).property (wideValue j).property hij
  have hi' := wideValue_val hi
  have hj' := wideValue_val hj
  rw [hi', hj'] at hval
  exact Int.ofNat.inj (Int.add_left_cancel hval)

theorem wide_decoded_nodup {n : Nat} (hn : n ≤ 2 ^ 29) : (decodedKeys (wideObjects n)).Nodup := by
  rw [wideObjects, decodedKeys_ints, List.map_map]
  apply List.Nodup.map_on
  · intro i hi j hj hij
    rw [List.mem_range] at hi hj
    rw [Function.comp_apply, Function.comp_apply] at hij
    exact wide_spelling_inj (Nat.lt_of_lt_of_le hi hn) (Nat.lt_of_lt_of_le hj hn) hij
  · exact List.nodup_range

theorem wide_addLoop {limit : Nat} (hlimit : 2 ^ 29 ≤ limit) :
    ∀ n, n < 2 ^ 29 → ∃ is c, addLoop limit (wideObjects n) createIntsetObject 0 =
      some (.intset is, c) ∧ Holds is (ascendingSet n) := by
  intro n
  induction n with
  | zero => exact fun _ => ⟨intsetNew, 0, rfl, by simpa [ascendingSet] using intsetNew_holds⟩
  | succ n ih =>
    intro hn
    obtain ⟨is, c, hloop, hh⟩ := ih (by omega)
    obtain ⟨is', hadd, hh'⟩ := hh.add (wideValue n).property (Or.inr (hh.ascending_fits hn))
    have hset : insert (wideValue n).val (ascendingSet n) = ascendingSet (n + 1) := by
      rw [ascendingSet, ascendingSet, Finset.range_add_one, Finset.image_insert]
    rw [hset] at hh'
    have hlen' := hh'.ascending_length (by omega)
    have hstep : ∃ b, setTypeAdd limit (.intset is) (.int (wideValue n)) = some (.intset is', b) := by
      have hrep : isObjectRepresentableAsLongLong (.int (wideValue n)) = some (wideValue n).val := rfl
      rw [setTypeAdd]
      simp only [hrep, hadd, Option.bind_eq_bind, Option.bind_some]
      have hkeep : ¬ intsetLen is' > limit := by
        rw [intsetLen, hlen']
        omega
      rw [if_neg hkeep]
      split
      · exact ⟨true, rfl⟩
      · exact ⟨false, rfl⟩
    obtain ⟨b, hstep⟩ := hstep
    refine ⟨is', if b then toInt (c + 1) else c, ?_, hh'⟩
    rw [wideObjects_succ, addLoop_append, hloop, Option.bind_some, addLoop, hstep]
    rfl

theorem wide_addLoop_wraps {limit : Nat} (hlimit : 2 ^ 29 ≤ limit) :
    addLoop limit (wideObjects (2 ^ 29)) createIntsetObject 0 = none := by
  obtain ⟨n, hn⟩ : ∃ n, n + 1 = 2 ^ 29 := ⟨2 ^ 29 - 1, by decide⟩
  rw [← hn]
  obtain ⟨is, c, hloop, hh⟩ := wide_addLoop hlimit n (by omega)
  have hlen := hh.ascending_length (by omega)
  have henc := hh.ascending_encoding (by omega)
  have hlast := ascendingSet_lt (n := n) (by omega)
  have hnone : setTypeAdd limit (.intset is) (.int (wideValue n)) = none := by
    have hrep : isObjectRepresentableAsLongLong (.int (wideValue n)) = some (wideValue n).val := rfl
    rw [setTypeAdd]
    simp only [hrep, Option.bind_eq_bind,
      intsetAdd_wraps hh (by omega) henc (wideValue_encoding (by omega)) hlast, Option.bind_none]
  rw [wideObjects_succ, addLoop_append, hloop, Option.bind_some, addLoop, hnone]
  rfl

def wideDb (n : Nat) : SetDb Unit := dbAdd emptyDb (ascii "a") (.set (.ht (wideObjects n)))

def wideSpace (n : Nat) : SetSpace Unit :=
  store (fun _ => none) (ascii "a") (decodedKeys (wideObjects n)).toFinset

theorem wideDb_represents {n : Nat} (hpos : 0 < n) (hn : n ≤ 2 ^ 29) :
    Represents (wideDb n) (wideSpace n) := by
  have hne : (decodedKeys (wideObjects n)).toFinset.Nonempty := by
    rw [← Finset.card_pos, List.toFinset_card_of_nodup (wide_decoded_nodup hn), decodedKeys,
      wideObjects, List.length_map, List.length_map, List.length_map, List.length_range]
    exact hpos
  intro key
  by_cases hk : key = ascii "a"
  · rw [hk, wideDb, lookup_dbAdd, wideSpace, store, if_neg hne.ne_empty, Function.update_self]
    exact ⟨⟨wide_decoded_nodup hn, rfl⟩, hne⟩
  · rw [wideDb, lookup_dbAdd_ne _ _ hk, wideSpace, store, if_neg hne.ne_empty,
      Function.update_of_ne hk]
    trivial

theorem sunionstore_none {limit n : Nat}
    (hwraps : addLoop limit (wideObjects n) createIntsetObject 0 = none) (dst : Bytes) :
    algebraCommand limit plainChoices (wideDb n) [ascii "a"] (some dst) (.unionDiff .union) = none := by
  have hlookup : lookupKey (wideDb n) (ascii "a") = some (.set (.ht (wideObjects n))) :=
    lookup_dbAdd ..
  rw [algebraCommand, sunionDiffGenericCommand, sunionDiffSources, hlookup]
  simp only [sunionDiffSources, Option.map_some, sunionDiff, unionLoop, setTypeObjects,
    Option.bind_eq_bind, Option.bind_some, hwraps, Option.bind_none]

theorem not_correct_none (db : SetDb ω) (m : SetSpace ω) (result : Finset Bytes) (dst : Bytes) :
    ¬ AlgebraCorrect db m result (some dst) none := by
  rintro ⟨db', hres, -⟩
  cases hres

/-- SUNIONSTORE of one set of `2 ^ 29` wide integers, below a limit that admits such an intset. -/
theorem sunionstore_wraps :
    Represents (wideDb (2 ^ 29)) (wideSpace (2 ^ 29)) ∧
      ¬ AlgebraCorrect (wideDb (2 ^ 29)) (wideSpace (2 ^ 29))
        (resultOf (wideSpace (2 ^ 29)) [ascii "a"] (.unionDiff .union)) (some (ascii "d"))
        (algebraCommand (2 ^ 30) plainChoices (wideDb (2 ^ 29)) [ascii "a"] (some (ascii "d"))
          (.unionDiff .union)) := by
  have hnone := sunionstore_none (wide_addLoop_wraps (show 2 ^ 29 ≤ 2 ^ 30 by omega)) (ascii "d")
  rw [hnone]
  exact ⟨wideDb_represents (by omega) le_rfl, not_correct_none _ _ _ _⟩

end RedisCluster.Sets
