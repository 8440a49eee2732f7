import RedisCluster.Sets.Proofs.SetAlgebraProofs

/-!
# Proofs: SRANDMEMBER with a count

Each of the four cases replies members of the set, and the last three reply different ones, as many as the count
asks for or as there are. The count itself goes through `unsigned` and `long`, and the copy of the whole set is
the result of a union, with the limits of that command.
-/

namespace RedisCluster.Sets

open RedisCluster.Util RedisCluster.Lib RedisCluster.Keyspace

variable {ω : Type} {s : Finset Bytes}

def RandomExact (s : Finset Bytes) (l : Int) (reply : Option AlgebraReply) : Prop :=
  ∃ elements : List Bytes, reply = some (.multibulk elements.length elements) ∧ (∀ e ∈ elements, e ∈ s) ∧
    if 0 ≤ l then elements.Nodup ∧ elements.length = min l.toNat s.card else elements.length = l.natAbs

def CollectEnds (set : SetObject) (l : Int) (fuel : Nat) (rand : Nat → Nat) : Prop :=
  0 ≤ l → srandCount l * SRANDMEMBER_SUB_STRATEGY_MUL ≤ setTypeSize set →
    (collectLoop set (srandCount l) fuel 0 [] rand).isSome

/-- The low 32 bits of the count ask for as much as the count. A set that is copied as a whole fits the result of
a union, and its size an `int`. The smallest `long` has an opposite nowhere. -/
def CountKept (limit : Nat) (set : SetObject) (s : Finset Bytes) (l : Int) : Prop :=
  if 0 ≤ l then
    min (srandCount l) s.card = min l.toNat s.card ∧
      (0 < srandCount l → s.card ≤ srandCount l →
        s.card < 2 ^ 31 ∧ AddAllFit limit createIntsetObject ((setTypeObjects set).getD []))
  else l ≠ -(2 ^ 63)

theorem randomLoop_some {set : SetObject} (h : SetHolds set s) (hne : s.Nonempty) (count : Nat) (rand : Nat → Nat) :
    ∃ es, randomLoop set count rand = some es ∧ es.length = count ∧ ∀ e ∈ es, e ∈ s := by
  induction count generalizing rand with
  | zero => exact ⟨[], rfl, rfl, nofun⟩
  | succ count ih =>
    obtain ⟨ele, hele, hmem⟩ := setTypeRandomElement_mem h hne (rand 0)
    obtain ⟨es, hes, hlen, hall⟩ := ih fun i => rand (i + 1)
    refine ⟨getDecodedObject ele :: es, ?_, congrArg (· + 1) hlen, ?_⟩
    · rw [randomLoop, hele]
      simp only [Option.bind_eq_bind, Option.bind_some, hes, Option.map_some]
    · intro e he
      rcases List.mem_cons.mp he with rfl | he
      · exact hmem
      · exact hall e he

/-- A dict of the reply: members of the set, each once. -/
structure Picked (s : Finset Bytes) (d : SetDict) : Prop where
  nodup : (decodedKeys d).Nodup
  subset : ∀ e ∈ decodedKeys d, e ∈ s

theorem Picked.nil : Picked s [] := ⟨List.nodup_nil, nofun⟩

theorem Picked.add {d d' : SetDict} (h : Picked s d) {ele : StringObject} (hele : getDecodedObject ele ∈ s)
    (hadd : dictAdd d ele = some d') : Picked s d' ∧ d'.length = d.length + 1 := by
  unfold dictAdd at hadd
  split at hadd
  · cases hadd
  next hfind =>
    cases hadd
    have hkeys : decodedKeys (d ++ [ele]) = decodedKeys d ++ [getDecodedObject ele] := by
      rw [decodedKeys, List.map_append]
      rfl
    have hnot : getDecodedObject ele ∉ decodedKeys d := fun hmem => hfind ((dictFind_iff d ele).mpr hmem)
    refine ⟨⟨?_, ?_⟩, by rw [List.length_append, List.length_singleton]⟩
    · rw [hkeys]
      refine List.nodup_append.mpr ⟨h.nodup, List.nodup_singleton _, ?_⟩
      rintro a ha b hb rfl
      rw [List.mem_singleton] at hb
      rw [hb] at ha
      exact hnot ha
    · intro e he
      rw [hkeys] at he
      rcases List.mem_append.mp he with he | he
      · exact h.subset e he
      · rw [List.mem_singleton.mp he]
        exact hele

theorem copyLoop_some (es : List StringObject) {d : SetDict} (hnodup : (decodedKeys (d ++ es)).Nodup) :
    copyLoop es d = some (d ++ es) := by
  induction es generalizing d with
  | nil => rw [copyLoop, List.append_nil]
  | cons ele es ih =>
    have hnot : getDecodedObject ele ∉ decodedKeys d := by
      intro hmem
      rw [decodedKeys, List.map_append] at hnodup
      exact List.disjoint_of_nodup_append hnodup hmem List.mem_cons_self
    have hfind : ¬ dictFind d ele = true := fun h => hnot ((dictFind_iff d ele).mp h)
    have hassoc : d ++ ele :: es = (d ++ [ele]) ++ es := by rw [List.append_assoc, List.singleton_append]
    rw [copyLoop, dictAdd, if_neg hfind, hassoc]
    rw [hassoc] at hnodup
    exact ih hnodup

theorem Picked.drop {d : SetDict} (h : Picked s d) (hne : d ≠ []) (r : Nat) :
    ∃ key, setTypeRandomElement (.ht d) r = some key ∧ Picked s ((dictDelete d key).getD d) ∧
      ((dictDelete d key).getD d).length + 1 = d.length := by
  have hpos : 0 < d.length := List.length_pos_iff.mpr hne
  have hlt : r % d.length < d.length := Nat.mod_lt _ hpos
  have hmem : d[r % d.length] ∈ d := List.getElem_mem hlt
  refine ⟨d[r % d.length], List.getElem?_eq_getElem hlt, ?_⟩
  generalize d[r % d.length] = key at hmem
  have hfind : dictFind d key = true := (dictFind_iff d key).mpr (List.mem_map_of_mem hmem)
  rw [dictDelete, if_pos hfind, Option.getD_some]
  have hsub : (d.eraseP (dictEncObjKeyCompare key)).Sublist d := List.eraseP_sublist
  refine ⟨⟨(hsub.map getDecodedObject).nodup h.nodup, fun e he => h.subset e ((hsub.map _).subset he)⟩, ?_⟩
  obtain ⟨o, ho, hcompare⟩ := List.any_eq_true.mp hfind
  have hlen := List.length_eraseP_of_mem ho hcompare
  omega

theorem dropLoop_some (n : Nat) {d : SetDict} (h : Picked s d) (hn : n ≤ d.length) (rand : Nat → Nat) :
    ∃ d', dropLoop n d rand = some d' ∧ Picked s d' ∧ d'.length + n = d.length := by
  induction n generalizing d rand with
  | zero => exact ⟨d, rfl, h, rfl⟩
  | succ n ih =>
    have hne : d ≠ [] := by
      rintro rfl
      exact absurd hn (Nat.not_succ_le_zero n)
    obtain ⟨key, hkey, hpicked, hlen⟩ := h.drop hne (rand 0)
    obtain ⟨d', hd', hpicked', hlen'⟩ := ih hpicked (by omega) fun i => rand (i + 1)
    refine ⟨d', ?_, hpicked', by omega⟩
    rw [dropLoop, hkey]
    exact hd'

theorem collectLoop_picked {set : SetObject} (hset : SetHolds set s) (hne : s.Nonempty) {count fuel added : Nat}
    {d d' : SetDict} (h : Picked s d) (hadded : d.length = added) (hle : added ≤ count) {rand : Nat → Nat}
    (hloop : collectLoop set count fuel added d rand = some d') : Picked s d' ∧ d'.length = count := by
  induction fuel generalizing added d rand with
  | zero =>
    rw [collectLoop] at hloop
    split at hloop
    · cases hloop
    · cases hloop
      exact ⟨h, by omega⟩
  | succ fuel ih =>
    rw [collectLoop] at hloop
    split at hloop
    next hlt =>
      obtain ⟨ele, hele, hmem⟩ := setTypeRandomElement_mem hset hne (rand 0)
      rw [hele] at hloop
      simp only [Option.bind_eq_bind, Option.bind_some] at hloop
      cases hadd : dictAdd d ele with
      | none =>
        rw [hadd] at hloop
        exact ih h hadded hle hloop
      | some d₁ =>
        rw [hadd] at hloop
        obtain ⟨hpicked, hlen⟩ := h.add hmem hadd
        exact ih hpicked (by omega) hlt hloop
    · cases hloop
      exact ⟨h, by omega⟩

theorem setTypeAdd_none (limit : Nat) {o : SetObject} (h : SetHolds o s) {value : StringObject}
    (hfit : ¬ AddFits o value) : setTypeAdd limit o value = none := by
  unfold AddFits at hfit
  cases o with
  | ht d => exact absurd trivial hfit
  | intset is =>
    obtain ⟨t, ht, h64, rfl⟩ := h
    cases hrep : isObjectRepresentableAsLongLong value with
    | none =>
      rw [hrep] at hfit
      exact absurd trivial hfit
    | some n =>
      rw [hrep] at hfit
      obtain ⟨hnew, hroom⟩ := not_or.mp hfit
      have hnot : n ∉ t := by
        intro hmem
        obtain ⟨i, hi, hget⟩ := List.getElem_of_mem ((Finset.mem_sort (· ≤ ·)).mpr hmem)
        refine hnew ⟨i, by rw [ht.packed.length_eq]; exact hi, ?_⟩
        rw [ht.get, List.getElem?_eq_getElem hi, hget]
      unfold setTypeAdd
      simp only [hrep, ht.add_none hnot (not_lt.mp hroom), Option.bind_eq_bind, Option.bind_none]

theorem addLoop_none (limit : Nat) (vs : List StringObject) {d : SetObject} (hd : SetHolds d s) (c : Int)
    (hfit : ¬ AddAllFit limit d vs) : addLoop limit vs d c = none := by
  induction vs generalizing d s c with
  | nil => exact absurd trivial hfit
  | cons v vs ih =>
    rw [addLoop]
    by_cases hv : AddFits d v
    · obtain ⟨d₁, hadd, hd₁⟩ := setTypeAdd_holds limit hd hv
      have hrest : ¬ AddAllFit limit d₁ vs := by
        intro hall
        refine hfit ⟨hv, ?_⟩
        rw [hadd]
        exact hall
      rw [hadd]
      exact ih hd₁ _ hrest
    · rw [setTypeAdd_none limit hd hv]
      rfl

variable {db : SetDb ω} {m : SetSpace ω} {key : Bytes} {set : SetObject}

theorem union_one (limit : Nat) (order : List (Option Source) → List (Option Source))
    (algoOne : Source → List (Option Source) → Bool) (hlooked : lookupKey db key = some (.set set))
    (hset : SetHolds set s) :
    if AddAllFit limit createIntsetObject ((setTypeObjects set).getD []) then
      ∃ elements, sunionDiffGenericCommand limit order algoOne db [key] none .union =
          some (db, .multibulk (toInt s.card) elements) ∧
        elements.Nodup ∧ elements.toFinset = s
    else sunionDiffGenericCommand limit order algoOne db [key] none .union = none := by
  obtain ⟨os, hos, hnodup, hos'⟩ := setTypeObjects_eq hset
  have hsources : sunionDiffSources db [key] = some [some { key := key, set := set }] := by
    simp only [sunionDiffSources, hlooked, Option.map_some]
  have hcommand : sunionDiffGenericCommand limit order algoOne db [key] none .union =
      (addLoop limit os createIntsetObject 0).bind fun r =>
        (setTypeObjects r.1).map fun es => (db, .multibulk r.2 (es.map getDecodedObject)) := by
    unfold sunionDiffGenericCommand
    rw [hsources]
    simp only [sunionDiff, unionLoop, hos, Option.bind_eq_bind, Option.bind_some]
    cases addLoop limit os createIntsetObject 0 with
    | none => rfl
    | some r =>
      simp only [Option.bind_some]
      cases setTypeObjects r.1 with
      | none => rfl
      | some es => rfl
  rw [hos, Option.getD_some, hcommand]
  by_cases hfit : AddAllFit limit createIntsetObject os
  · rw [if_pos hfit]
    obtain ⟨d, hloop, hd, -⟩ := addLoop_holds limit os [] createIntsetObject_holds (by rwa [List.append_nil])
    rw [toInt_empty, Finset.empty_union, hos'] at hloop
    rw [Finset.empty_union, hos'] at hd
    obtain ⟨es, hes, hnodup', hes'⟩ := setTypeObjects_eq hd
    rw [hloop, Option.bind_some]
    dsimp only
    rw [hes]
    exact ⟨es.map getDecodedObject, rfl, hnodup', hes'⟩
  · rw [if_neg hfit, addLoop_none limit os createIntsetObject_holds 0 hfit]
    rfl

theorem announce_of_lt {count : Nat} (h : count < 2 ^ 63) : announce count = count := by
  have hmin : (-(2 ^ 64 : Nat) / 2 : Int) ≤ count := le_trans (by decide) (Int.natCast_nonneg count)
  exact Int.bmod_eq_of_le hmin (by omega)

theorem exact_of_picked {d : SetDict} {l : Int} (h : Picked s d) (hl : 0 ≤ l) {count : Nat} (hlen : d.length = count)
    (hcount : count = min l.toNat s.card) (hsmall : count < 2 ^ 63) : RandomExact s l (some (replyDict count d)) := by
  have hlength : (d.map getDecodedObject).length = count := by rw [List.length_map, hlen]
  refine ⟨d.map getDecodedObject, ?_, h.subset, ?_⟩
  · rw [hlength, replyDict, announce_of_lt hsmall]
  · rw [if_pos hl]
    exact ⟨h.nodup, hlength.trans hcount⟩

theorem count_of_exact {elements : List Bytes} {l announced : Int} {count : Nat} (hl : 0 ≤ l)
    (h : RandomExact s l (some (.multibulk announced elements))) (hlen : elements.length = count) :
    announced = count ∧ count = min l.toNat s.card := by
  obtain ⟨es, heq, -, hes⟩ := h
  cases heq
  rw [if_pos hl] at hes
  exact ⟨congrArg _ hlen, hlen.symm.trans hes.2⟩

theorem exact_picked_iff {d : SetDict} {l : Int} (h : Picked s d) (hl : 0 ≤ l) (hlen : d.length = srandCount l)
    (hlt : srandCount l < s.card) (limit : Nat) :
    RandomExact s l (some (replyDict (srandCount l) d)) ↔ CountKept limit set s l := by
  have hsmall : srandCount l < 2 ^ 63 := by
    rw [srandCount, if_pos hl]
    omega
  have hmin : min (srandCount l) s.card = srandCount l := min_eq_left (le_of_lt hlt)
  rw [CountKept, if_pos hl, hmin]
  constructor
  · intro hexact
    have hlength : (d.map getDecodedObject).length = srandCount l := by rw [List.length_map, hlen]
    exact ⟨(count_of_exact hl hexact hlength).2, fun _ hle => absurd hle (not_le.mpr hlt)⟩
  · intro hkept
    exact exact_of_picked h hl hlen hkept.1 hsmall

variable {l : Int} {fuel : Nat} {rand : Nat → Nat}

theorem random_exact_iff (limit : Nat) (hset : SetHolds set s) (hne : s.Nonempty) (hmin : -(2 ^ 63) ≤ l)
    (hl : ¬ 0 ≤ l) :
    RandomExact s l ((randomLoop set (srandCount l) rand).map (.multibulk (announce (srandCount l)))) ↔
      CountKept limit set s l := by
  obtain ⟨es, hes, hlen, hall⟩ := randomLoop_some hset hne (srandCount l) rand
  have hcount : srandCount l = l.natAbs := by rw [srandCount, if_neg hl]
  rw [hcount] at hes hlen
  rw [hcount, hes, Option.map_some, CountKept, if_neg hl]
  constructor
  · rintro ⟨elements, heq, -, -⟩ hsmallest
    obtain ⟨hannounced, helements⟩ := AlgebraReply.multibulk.inj (Option.some.inj heq)
    rw [← helements, hlen, hsmallest] at hannounced
    exact absurd hannounced (by decide)
  · intro hne'
    have hsmall : l.natAbs < 2 ^ 63 := by omega
    refine ⟨es, ?_, hall, ?_⟩
    · rw [announce_of_lt hsmall, hlen]
    · rw [if_neg hl]
      exact hlen

theorem zero_exact_iff (limit : Nat) (hzero : srandCount l = 0) :
    RandomExact s l (some (.multibulk 0 [])) ↔ CountKept limit set s l := by
  have hl : 0 ≤ l := by
    by_contra hneg
    rw [srandCount, if_neg hneg] at hzero
    omega
  rw [CountKept, if_pos hl, hzero, Nat.zero_min]
  constructor
  · intro hexact
    exact ⟨(count_of_exact hl hexact rfl).2, fun h => absurd h (lt_irrefl 0)⟩
  · intro hkept
    refine ⟨[], rfl, nofun, ?_⟩
    rw [if_pos hl]
    exact ⟨List.nodup_nil, hkept.1⟩

theorem union_exact_iff (limit : Nat) (order : List (Option Source) → List (Option Source))
    (algoOne : Source → List (Option Source) → Bool) (hlooked : lookupKey db key = some (.set set))
    (hset : SetHolds set s) (hl : 0 ≤ l) (hzero : srandCount l ≠ 0) (hall : srandCount l ≥ s.card) :
    RandomExact s l ((sunionDiffGenericCommand limit order algoOne db [key] none .union).map Prod.snd) ↔
      CountKept limit set s l := by
  rw [CountKept, if_pos hl, min_eq_right hall]
  have hunion := union_one limit order algoOne hlooked hset
  by_cases hfit : AddAllFit limit createIntsetObject ((setTypeObjects set).getD [])
  · rw [if_pos hfit] at hunion
    obtain ⟨elements, heq, hnodup, helements⟩ := hunion
    have hlength : elements.length = s.card := by rw [← helements, List.toFinset_card_of_nodup hnodup]
    rw [heq, Option.map_some]
    constructor
    · intro hexact
      obtain ⟨hannounced, hcount⟩ := count_of_exact hl hexact hlength
      refine ⟨hcount, fun _ _ => ⟨?_, hfit⟩⟩
      unfold toInt at hannounced
      omega
    · rintro ⟨hcount, hfits⟩
      refine ⟨elements, ?_, fun e he => ?_, ?_⟩
      · rw [hlength, toInt_of_fits (hfits (Nat.pos_of_ne_zero hzero) hall).1]
      · rw [← helements]
        exact List.mem_toFinset.mpr he
      · rw [if_pos hl]
        exact ⟨hnodup, hlength.trans hcount⟩
  · rw [if_neg hfit] at hunion
    rw [hunion]
    constructor
    · rintro ⟨elements, heq, -⟩
      cases heq
    · rintro ⟨-, hfits⟩
      exact absurd (hfits (Nat.pos_of_ne_zero hzero) hall).2 hfit

/-- **SRANDMEMBER** with a count replies the announced number of members, all different for a count that is not
negative, if and only if the count survives its conversions and the copy of a whole set its limits. -/
theorem srandmember_exact_iff (limit : Nat) (order : List (Option Source) → List (Option Source))
    (algoOne : Source → List (Option Source) → Bool) (hlooked : lookupKey db key = some (.set set))
    (hset : SetHolds set s) (hne : s.Nonempty) (hmin : -(2 ^ 63) ≤ l) (hends : CollectEnds set l fuel rand) :
    RandomExact s l (srandmemberWithCountCommand limit order algoOne db key l fuel rand) ↔
      CountKept limit set s l := by
  have hsize := setTypeSize_eq hset
  have hcard : 0 < s.card := Finset.card_pos.mpr hne
  unfold srandmemberWithCountCommand
  simp only [hlooked, hsize]
  by_cases hzero : srandCount l = 0
  · rw [if_pos hzero]
    exact zero_exact_iff limit hzero
  rw [if_neg hzero]
  by_cases hneg : l < 0
  · rw [if_pos hneg]
    exact random_exact_iff limit hset hne hmin (not_le.mpr hneg)
  have hl : 0 ≤ l := not_lt.mp hneg
  rw [if_neg hneg]
  by_cases hall : srandCount l ≥ s.card
  · rw [if_pos hall]
    exact union_exact_iff limit order algoOne hlooked hset hl hzero hall
  rw [if_neg hall]
  have hlt : srandCount l < s.card := not_le.mp hall
  by_cases hcopy : srandCount l * SRANDMEMBER_SUB_STRATEGY_MUL > s.card
  · rw [if_pos hcopy]
    obtain ⟨os, hos, hnodup, hos'⟩ := setTypeObjects_eq hset
    have hlength : os.length = s.card := by
      rw [← hos', List.toFinset_card_of_nodup hnodup, decodedKeys, List.length_map]
    have hpicked : Picked s os := ⟨hnodup, fun e he => by rw [← hos']; exact List.mem_toFinset.mpr he⟩
    obtain ⟨d, hd, hdpicked, hdlen⟩ := dropLoop_some (s.card - srandCount l) hpicked (by omega) rand
    have hcopied : copyLoop os [] = some os := copyLoop_some os hnodup
    simp only [hos, hcopied, Option.bind_eq_bind, Option.bind_some, if_pos hlength, hd, Option.map_some]
    exact exact_picked_iff hdpicked hl (by omega) hlt limit
  · rw [if_neg hcopy]
    obtain ⟨d, hd⟩ := Option.isSome_iff_exists.mp (hends hl (by rw [hsize]; omega))
    obtain ⟨hpicked, hlen⟩ := collectLoop_picked hset hne Picked.nil rfl (Nat.zero_le _) hd
    rw [hd, Option.map_some]
    exact exact_picked_iff hpicked hl hlen hlt limit

/-- Two members are asked for, and there is one. -/
theorem srandmember_exact_two :
    RandomExact {ascii "x"} 2 (srandmemberWithCountCommand 512 id (fun _ _ => true) xDb (ascii "k") 2 0 fun _ => 0) := by
  refine (srandmember_exact_iff 512 id (fun _ _ => true) xDb_k ⟨by decide, by decide⟩ ⟨ascii "x", by decide⟩
    (by decide) ?_).mpr ?_
  · intro _ hle
    exact absurd hle (by decide)
  · rw [CountKept, if_pos (by decide)]
    exact ⟨by decide, fun _ _ => ⟨by decide, by decide⟩⟩

/-- The count `2 ^ 32` is the count 0, and the smallest one announces itself. -/
theorem srandmember_inexact :
    ¬ RandomExact {ascii "x"} (2 ^ 32)
        (srandmemberWithCountCommand 512 id (fun _ _ => true) xDb (ascii "k") (2 ^ 32) 0 fun _ => 0) ∧
      ¬ RandomExact {ascii "x"} (-(2 ^ 63))
        (srandmemberWithCountCommand 512 id (fun _ _ => true) xDb (ascii "k") (-(2 ^ 63)) 0 fun _ => 0) := by
  have hset : SetHolds (.ht [.sds (ascii "x")]) {ascii "x"} := ⟨by decide, by decide⟩
  constructor
  · have hreply : srandmemberWithCountCommand 512 id (fun _ _ => true) xDb (ascii "k") (2 ^ 32) 0 (fun _ => 0) =
        some (.multibulk 0 []) := by decide
    rw [hreply]
    intro hexact
    exact absurd (count_of_exact (by decide) hexact rfl).2 (by decide)
  · have hcommand : srandmemberWithCountCommand 512 id (fun _ _ => true) xDb (ascii "k") (-(2 ^ 63)) 0 (fun _ => 0) =
        (randomLoop (.ht [.sds (ascii "x")]) (srandCount (-(2 ^ 63))) fun _ => 0).map
          (.multibulk (announce (srandCount (-(2 ^ 63))))) := by
      unfold srandmemberWithCountCommand
      simp only [xDb_k]
      rw [if_neg (by decide), if_pos (by decide)]
    rw [hcommand, random_exact_iff 512 hset ⟨ascii "x", by decide⟩ (by decide) (by decide), CountKept,
      if_neg (by decide)]
    exact fun h => h rfl

end RedisCluster.Sets
