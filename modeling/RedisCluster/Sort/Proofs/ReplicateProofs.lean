import RedisCluster.Sort.Proofs.SortProofs
import RedisCluster.Util.Proofs.StringProofs

/-!
# SORT with STORE on two servers

On equal keyspaces the weights and the outputs of equal strings are equal, so the two servers sort the
same strings by the same keys. What they store is determined but for ties of weights that are compared
as strings, and for an `errno` that is never reset.
-/

namespace RedisCluster.Sort

open RedisCluster.Util RedisCluster.Sets RedisCluster.Lib

variable {S : Type} {clib : CLib S} {db₁ db₂ : Bytes → Option Value}

theorem SameValue.refl (v : Value) : SameValue v v := by
  cases v with
  | string o => exact rfl
  | list l => exact rfl
  | set elements => exact List.Perm.refl _
  | zset z => exact rfl
  | hash get => exact fun _ => rfl

theorem SameValue.symm {v₁ v₂ : Value} (h : SameValue v₁ v₂) : SameValue v₂ v₁ := by
  cases v₁ <;> cases v₂ <;>
    first | exact absurd h id | exact Eq.symm h | exact List.Perm.symm h | exact fun key => (h key).symm

theorem SameKeyspace.refl (db : Bytes → Option Value) : SameKeyspace db db := by
  intro key
  cases db key with
  | none => exact Option.Rel.none
  | some v => exact Option.Rel.some (SameValue.refl v)

theorem SameKeyspace.lookup (h : SameKeyspace db₁ db₂) (key : Bytes) :
    (db₁ key = none ∧ db₂ key = none) ∨
      ∃ v₁ v₂, db₁ key = some v₁ ∧ db₂ key = some v₂ ∧ SameValue v₁ v₂ := by
  have hrel := h key
  generalize db₁ key = x at hrel ⊢
  generalize db₂ key = y at hrel ⊢
  cases hrel with
  | none => exact Or.inl ⟨rfl, rfl⟩
  | some hv => exact Or.inr ⟨_, _, rfl, rfl, hv⟩

theorem SameKeyspace.symm (h : SameKeyspace db₁ db₂) : SameKeyspace db₂ db₁ := by
  intro key
  rcases h.lookup key with ⟨h₁, h₂⟩ | ⟨v₁, v₂, h₁, h₂, hv⟩
  · rw [h₁, h₂]
    exact Option.Rel.none
  · rw [h₁, h₂]
    exact Option.Rel.some hv.symm

theorem lookupKeyByPattern_same (hdb : SameKeyspace db₁ db₂) (pattern : Bytes) {o₁ o₂ : StringObject}
    (ho : getDecodedObject o₁ = getDecodedObject o₂) :
    (lookupKeyByPattern db₁ pattern o₁).map getDecodedObject =
      (lookupKeyByPattern db₂ pattern o₂).map getDecodedObject := by
  unfold lookupKeyByPattern
  by_cases hself : Multi.cstr pattern = [35]
  · rw [if_pos hself, if_pos hself, Option.map_some, Option.map_some, ho]
  · rw [if_neg hself, if_neg hself]
    cases strchr 42 pattern with
    | none => rfl
    | some prefixlen =>
      dsimp only
      rw [ho]
      cases fieldArrow (pattern.drop (prefixlen + 1)) with
      | some d =>
        dsimp only
        rcases hdb.lookup (pattern.take prefixlen ++ getDecodedObject o₂ ++
            (pattern.drop (prefixlen + 1)).take d) with ⟨h₁, h₂⟩ | ⟨v₁, v₂, h₁, h₂, hv⟩
        · rw [h₁, h₂]
        · rw [h₁, h₂]
          cases v₁ <;> cases v₂ <;> first | rfl | exact absurd hv id | exact hv _
      | none =>
        dsimp only
        rcases hdb.lookup (pattern.take prefixlen ++ getDecodedObject o₂ ++
            pattern.drop (prefixlen + 1)) with ⟨h₁, h₂⟩ | ⟨v₁, v₂, h₁, h₂, hv⟩
        · rw [h₁, h₂]
        · rw [h₁, h₂]
          cases v₁ <;> cases v₂ <;> first | rfl | exact absurd hv id | exact congrArg some hv

theorem byValue_same (hdb : SameKeyspace db₁ db₂) (sortby : Option Bytes) {o₁ o₂ : StringObject}
    (ho : getDecodedObject o₁ = getDecodedObject o₂) :
    (byValue db₁ sortby o₁).map getDecodedObject = (byValue db₂ sortby o₂).map getDecodedObject := by
  cases sortby with
  | none => exact congrArg some ho
  | some pattern => exact lookupKeyByPattern_same hdb pattern ho

theorem outputOf_same (hdb : SameKeyspace db₁ db₂) (operations : List Bytes) {o₁ o₂ : StringObject}
    (ho : getDecodedObject o₁ = getDecodedObject o₂) :
    outputOf db₁ operations o₁ = outputOf db₂ operations o₂ := by
  unfold outputOf
  rw [ho]
  by_cases hnil : operations = []
  · rw [if_pos hnil, if_pos hnil]
  · rw [if_neg hnil, if_neg hnil]
    exact List.map_congr_left fun pattern _ => by rw [lookupKeyByPattern_same hdb pattern ho]

theorem outputOf_length (db : Bytes → Option Value) (operations : List Bytes) (o : StringObject) :
    (outputOf db operations o).length = if operations = [] then 1 else operations.length := by
  unfold outputOf
  split
  · rfl
  · exact List.length_map _

theorem sourceValue_same {s₁ s₂ : Server} (hdb : SameKeyspace s₁.db s₂.db) (key : Bytes) :
    Option.Rel SameValue (sourceValue s₁ key) (sourceValue s₂ key) := by
  unfold sourceValue
  rcases hdb.lookup key with ⟨h₁, h₂⟩ | ⟨v₁, v₂, h₁, h₂, hv⟩
  · rw [h₁, h₂]
    exact Option.Rel.some rfl
  · rw [h₁, h₂]
    cases v₁ <;> cases v₂ <;>
      first | exact absurd hv id | exact Option.Rel.none | exact Option.Rel.some hv

theorem isZset_same {v₁ v₂ : Value} (h : SameValue v₁ v₂) : v₁.isZset = v₂.isZset := by
  cases v₁ <;> cases v₂ <;> first | rfl | exact absurd h id

theorem forceSort_same {v₁ v₂ : Value} (h : SameValue v₁ v₂) (a : SortOptions) :
    forceSort a v₁ = forceSort a v₂ := by
  unfold forceSort
  rw [isZset_same h]

theorem elements_same {v₁ v₂ : Value} (h : SameValue v₁ v₂) :
    ((v₁.elements false).map getDecodedObject).Perm ((v₂.elements false).map getDecodedObject) := by
  cases v₁ with
  | string o => cases v₂ <;> first | exact List.Perm.refl _ | exact absurd h id
  | hash get => cases v₂ <;> first | exact List.Perm.refl _ | exact absurd h id
  | list l =>
    cases v₂ <;> first | exact absurd h id | exact List.Perm.of_eq h
  | set elements => cases v₂ <;> first | exact absurd h id | exact h
  | zset z =>
    cases v₂ with
    | zset y => exact z.same.trans ((List.Perm.of_eq h).trans y.same.symm)
    | _ => exact absurd h id

theorem elements_zset {v₁ v₂ : Value} (h : SameValue v₁ v₂) (hz : v₁.isZset = true) :
    (v₁.elements true).map getDecodedObject = (v₂.elements true).map getDecodedObject := by
  cases v₁ with
  | zset z =>
    cases v₂ with
    | zset y => exact h
    | _ => exact absurd h id
  | _ => cases hz

theorem loadScore_same (hlong : LongsAgree clib) {b₁ b₂ : Option StringObject}
    (h : b₁.map getDecodedObject = b₂.map getDecodedObject) :
    loadScore clib b₁ = loadScore clib b₂ := by
  have hscore : ∀ o : StringObject,
      loadScore clib (some o) = (clib.strtod (getDecodedObject o)).value := by
    intro o
    cases o with
    | sds t => rfl
    | int n => exact (hlong n).1.symm
  cases b₁ with
  | none =>
    cases b₂ with
    | none => rfl
    | some o₂ => cases h
  | some o₁ =>
    cases b₂ with
    | none => cases h
    | some o₂ => rw [hscore, hscore, Option.some.inj h]

theorem conversionError_iff (hlong : LongsAgree clib) (erange : Bool)
    (byvals : List (Option StringObject)) :
    conversionError clib erange byvals = true ↔
      (∃ b, some b ∈ byvals ∧ (clib.strtod (getDecodedObject b)).fails = true) ∨
        (erange = true ∧ ∃ t, some (.sds t) ∈ byvals) := by
  induction byvals generalizing erange with
  | nil =>
    refine ⟨nofun, ?_⟩
    rintro (⟨b, hb, -⟩ | ⟨-, t, ht⟩)
    · cases hb
    · cases ht
  | cons x byvals ih =>
    match x with
    | none =>
      show conversionError clib erange byvals = true ↔ _
      rw [ih]
      simp
    | some (.int n) =>
      show conversionError clib erange byvals = true ↔ _
      rw [ih]
      have hn := (hlong n).2
      constructor
      · rintro (⟨b, hb, hfail⟩ | ⟨he, t, ht⟩)
        · exact Or.inl ⟨b, List.mem_cons_of_mem _ hb, hfail⟩
        · exact Or.inr ⟨he, t, List.mem_cons_of_mem _ ht⟩
      · rintro (⟨b, hb, hfail⟩ | ⟨he, t, ht⟩)
        · rcases List.mem_cons.mp hb with hb | hb
          · cases hb
            rw [show getDecodedObject (.int n) = ll2string n.val from rfl, hn] at hfail
            cases hfail
          · exact Or.inl ⟨b, hb, hfail⟩
        · rcases List.mem_cons.mp ht with ht | ht
          · cases ht
          · exact Or.inr ⟨he, t, ht⟩
    | some (.sds t) =>
      have hstep : conversionError clib erange (some (.sds t) :: byvals) =
          (((clib.strtod t).fails || erange) ||
            conversionError clib (erange || (clib.strtod t).erange) byvals) := rfl
      rw [hstep, Bool.or_eq_true, Bool.or_eq_true, ih]
      constructor
      · rintro ((hfail | he) | (⟨b, hb, hfail⟩ | ⟨he, u, hu⟩))
        · exact Or.inl ⟨.sds t, List.mem_cons_self, hfail⟩
        · exact Or.inr ⟨he, t, List.mem_cons_self⟩
        · exact Or.inl ⟨b, List.mem_cons_of_mem _ hb, hfail⟩
        · rcases Bool.or_eq_true_iff.mp he with he | he
          · exact Or.inr ⟨he, t, List.mem_cons_self⟩
          · refine Or.inl ⟨.sds t, List.mem_cons_self, ?_⟩
            show (clib.strtod t).fails = true
            unfold Strtod.fails
            rw [he]
            simp
      · rintro (⟨b, hb, hfail⟩ | ⟨he, u, hu⟩)
        · rcases List.mem_cons.mp hb with hb | hb
          · cases hb
            exact Or.inl (Or.inl hfail)
          · exact Or.inr (Or.inl ⟨b, hb, hfail⟩)
        · exact Or.inl (Or.inr he)

theorem conversionError_objs (hlong : LongsAgree clib) (s : Server) (sortby : Option Bytes)
    (objs : List StringObject) :
    conversionError clib s.erange (objs.map (byValue s.db sortby)) = true ↔
      BadScore clib s.db sortby objs ∨ StaleError s sortby objs := by
  rw [conversionError_iff hlong]
  unfold BadScore StaleError
  simp only [List.mem_map]
  constructor
  · rintro (⟨b, ⟨o, ho, hb⟩, hfail⟩ | ⟨he, t, o, ho, ht⟩)
    · exact Or.inl ⟨o, ho, b, hb, hfail⟩
    · exact Or.inr ⟨he, o, ho, t, ht⟩
  · rintro (⟨o, ho, b, hb, hfail⟩ | ⟨he, o, ho, t, ht⟩)
    · exact Or.inl ⟨b, ⟨o, ho, hb⟩, hfail⟩
    · exact Or.inr ⟨he, t, o, ho, ht⟩

theorem badScore_mono (hdb : SameKeyspace db₁ db₂) (sortby : Option Bytes)
    {objs₁ objs₂ : List StringObject}
    (hobjs : (objs₁.map getDecodedObject).Perm (objs₂.map getDecodedObject))
    (h : BadScore clib db₁ sortby objs₁) : BadScore clib db₂ sortby objs₂ := by
  obtain ⟨o, ho, b, hb, hfail⟩ := h
  have hmem : getDecodedObject o ∈ objs₂.map getDecodedObject :=
    hobjs.mem_iff.mp (List.mem_map_of_mem ho)
  obtain ⟨o₂, ho₂, heq⟩ := List.mem_map.mp hmem
  have hsame := byValue_same hdb sortby heq.symm
  rw [hb, Option.map_some] at hsame
  obtain ⟨b₂, hb₂, hdec⟩ := Option.map_eq_some_iff.mp hsame.symm
  exact ⟨o₂, ho₂, b₂, hb₂, by rw [hdec]; exact hfail⟩

end RedisCluster.Sort
