import RedisCluster.Sets.SetCommands
import RedisCluster.Sets.Proofs.SetTypeProofs

/-!
# Runs of set commands

A keyspace of sets in any encodings represents a keyspace of finite sets of byte strings, and the
commands keep that, whatever the limit for intsets. SMOVE of a missing element from a set to itself
replies as if it had moved it.
-/

namespace RedisCluster.Sets

open RedisCluster.Util RedisCluster.Lib RedisCluster.Keyspace

variable {ω : Type}

/-! ## What a keyspace represents -/

def EntryHolds : Option (Obj ω) → Option (Finset Bytes ⊕ ω) → Prop
  | none, none => True
  | some (.set o), some (.inl s) => SetHolds o s ∧ s.Nonempty
  | some (.other x), some (.inr y) => x = y
  | _, _ => False

def Represents (db : SetDb ω) (m : SetSpace ω) : Prop :=
  ∀ key, EntryHolds (lookupKey db key) (m key)

def AddsFit (limit : Nat) : SetObject → List Arg → Prop
  | _, [] => True
  | o, a :: args => AddFits o a.encoded ∧
      match setTypeAdd limit o a.encoded with
      | some r => AddsFit limit r.1 args
      | none => True

def OpFits (limit : Nat) (db : SetDb ω) : SetOp → Prop
  | .sadd key arg args =>
    match lookupKey db key with
    | some (.set o) => AddsFit limit o (arg :: args)
    | _ => AddsFit limit (setTypeCreate arg.obj) (arg :: args)
  | .smove src dst arg =>
    match lookupKey db src, lookupKey db dst with
    | some (.set o), some (.set o') =>
      (src = dst → setTypeIsMember o arg.encoded = some true) ∧
        (src ≠ dst → AddFits o' arg.encoded)
    | _, _ => True
  | _ => True

instance decidableAddsFit (limit : Nat) : ∀ o args, Decidable (AddsFit limit o args)
  | _, [] => inferInstanceAs (Decidable True)
  | o, a :: args =>
    have : Decidable (match setTypeAdd limit o a.encoded with
        | some r => AddsFit limit r.1 args
        | none => True) :=
      match setTypeAdd limit o a.encoded with
      | some r => decidableAddsFit limit r.1 args
      | none => inferInstanceAs (Decidable True)
    inferInstanceAs (Decidable (_ ∧ _))

instance (limit : Nat) (db : SetDb ω) (op : SetOp) : Decidable (OpFits limit db op) := by
  unfold OpFits
  split
  · split <;> infer_instance
  · split <;> infer_instance
  · infer_instance

def ConservesUnion (m m' : SetSpace ω) : SetOp → Prop
  | .smove src dst _ => members m' src ∪ members m' dst = members m src ∪ members m dst
  | _ => True

/-- Every operation of the run has a result, with the reply and the contents of finite sets, and each
keyspace on the way represents those. -/
def SetsAgree (limit : Nat) (db : SetDb ω) (m : SetSpace ω) : List SetOp → Prop
  | [] => Represents db m
  | op :: ops => Represents db m ∧
      ∃ db' reply m', setOpStep limit db op = some (db', reply) ∧ Specified m reply m' op ∧
        ConservesUnion m m' op ∧ SetsAgree limit db' m' ops

/-! ## Entries -/

variable {db : SetDb ω} {m : SetSpace ω} {key : Bytes}

theorem Represents.none (h : Represents db m) (hk : lookupKey db key = none) : m key = none := by
  have he := h key
  rw [hk] at he
  cases hm : m key with
  | none => rfl
  | some x =>
    rw [hm] at he
    cases x <;> exact he.elim

theorem Represents.other (h : Represents db m) {x : ω} (hk : lookupKey db key = some (.other x)) :
    m key = some (.inr x) := by
  have he := h key
  rw [hk] at he
  cases hm : m key with
  | none =>
    rw [hm] at he
    exact he.elim
  | some y =>
    rw [hm] at he
    cases y with
    | inl s => exact he.elim
    | inr y =>
      have hxy : x = y := he
      rw [hxy]

theorem Represents.set (h : Represents db m) {o : SetObject} (hk : lookupKey db key = some (.set o)) :
    ∃ s, m key = some (.inl s) ∧ SetHolds o s ∧ s.Nonempty := by
  have he := h key
  rw [hk] at he
  cases hm : m key with
  | none =>
    rw [hm] at he
    exact he.elim
  | some y =>
    rw [hm] at he
    cases y with
    | inl s => exact ⟨s, rfl, he.1, he.2⟩
    | inr y => exact he.elim

theorem Represents.update (h : Represents db m) {db' : SetDb ω} {e : Option (Obj ω)}
    {x : Option (Finset Bytes ⊕ ω)} (hself : lookupKey db' key = e)
    (hother : ∀ k, k ≠ key → lookupKey db' k = lookupKey db k) (hx : EntryHolds e x) :
    Represents db' (Function.update m key x) := by
  intro k
  by_cases hk : k = key
  · subst hk
    rw [Function.update_self, hself]
    exact hx
  · rw [Function.update_of_ne hk, hother k hk]
    exact h k

theorem lookup_dbAdd (db : SetDb ω) (key : Bytes) (v : Obj ω) : lookupKey (dbAdd db key v) key = some v := by
  simp [lookupKey, dbAdd]

theorem lookup_dbAdd_ne (db : SetDb ω) (v : Obj ω) {k : Bytes} (hk : k ≠ key) :
    lookupKey (dbAdd db key v) k = lookupKey db k := by
  simp [lookupKey, dbAdd, hk]

theorem lookup_dbOverwrite {v : Obj ω} (h : lookupKey db key = some v) (w : Obj ω) :
    lookupKey (dbOverwrite db key w) key = some w := by
  unfold lookupKey at h ⊢
  obtain ⟨e, he, -⟩ := Option.map_eq_some_iff.mp h
  simp [dbOverwrite, he]

theorem lookup_dbOverwrite_ne (db : SetDb ω) (v : Obj ω) {k : Bytes} (hk : k ≠ key) :
    lookupKey (dbOverwrite db key v) k = lookupKey db k := by
  simp [lookupKey, dbOverwrite, hk]

theorem lookup_dbDelete (db : SetDb ω) (key : Bytes) : lookupKey (dbDelete db key).1 key = none := by
  simp [lookupKey, dbDelete]

theorem lookup_dbDelete_ne (db : SetDb ω) {k : Bytes} (hk : k ≠ key) :
    lookupKey (dbDelete db key).1 k = lookupKey db k := by
  simp [lookupKey, dbDelete, hk]

theorem Represents.overwrite (h : Represents db m) {v : Obj ω} (hk : lookupKey db key = some v)
    {o : SetObject} {s : Finset Bytes} (ho : SetHolds o s) (hne : s.Nonempty) :
    Represents (dbOverwrite db key (.set o)) (store m key s) := by
  rw [store, if_neg hne.ne_empty]
  exact h.update (lookup_dbOverwrite hk _) (fun k hkk => lookup_dbOverwrite_ne db _ hkk) ⟨ho, hne⟩

theorem Represents.overwriteOrDelete (h : Represents db m) {v : Obj ω}
    (hk : lookupKey db key = some v) {o : SetObject} {s : Finset Bytes} (ho : SetHolds o s) :
    Represents (if setTypeSize o = 0 then (dbDelete (dbOverwrite db key (.set o)) key).1
      else dbOverwrite db key (.set o)) (store m key s) := by
  rw [setTypeSize_eq ho]
  by_cases hempty : s = ∅
  · rw [if_pos (by rw [hempty, Finset.card_empty]), store, if_pos hempty]
    refine h.update (lookup_dbDelete ..) (fun k hkk => ?_) trivial
    rw [lookup_dbDelete_ne _ hkk, lookup_dbOverwrite_ne _ _ hkk]
  · rw [if_neg (by rw [Finset.card_eq_zero]; exact hempty)]
    exact h.overwrite hk ho (Finset.nonempty_iff_ne_empty.mpr hempty)

theorem Represents.add (h : Represents db m) (key : Bytes) {o : SetObject} {s : Finset Bytes} (w : Obj ω)
    (ho : SetHolds o s) (hne : s.Nonempty) :
    Represents (dbOverwrite (dbAdd db key w) key (.set o)) (store m key s) := by
  rw [store, if_neg hne.ne_empty]
  refine h.update (lookup_dbOverwrite (lookup_dbAdd db key w) _) (fun k hkk => ?_) ⟨ho, hne⟩
  rw [lookup_dbOverwrite_ne _ _ hkk, lookup_dbAdd_ne _ _ hkk]

theorem members_of (hm : m key = some (.inl s)) : members m key = s := by
  rw [members, hm]

theorem members_none (hm : m key = none) : members m key = ∅ := by
  rw [members, hm]

theorem isOther_none (hm : m key = none) : isOther m key = false := by
  rw [isOther, hm]

theorem isOther_set {s : Finset Bytes} (hm : m key = some (.inl s)) : isOther m key = false := by
  rw [isOther, hm]

theorem isOther_other {x : ω} (hm : m key = some (.inr x)) : isOther m key = true := by
  rw [isOther, hm]

theorem decoded_arg (a : Arg) : getDecodedObject a.encoded = getDecodedObject a.obj :=
  decoded_encoded a.refcount a.obj

/-! ## SADD -/

theorem saddLoop_holds (limit : Nat) (args : List Arg) {o : SetObject} {s : Finset Bytes}
    (h : SetHolds o s) (hfit : AddsFit limit o args) (added : Nat) :
    ∃ o', saddLoop limit args o added = some (o', added + (strings args \ s).card) ∧
      SetHolds o' (s ∪ strings args) := by
  induction args generalizing o s added with
  | nil => exact ⟨o, by simp [saddLoop, strings], by simpa [strings] using h⟩
  | cons a args ih =>
    obtain ⟨o', hadd, ho'⟩ := setTypeAdd_holds limit h hfit.1
    have hrest := hfit.2
    rw [hadd] at hrest
    obtain ⟨o'', hloop, ho''⟩ :=
      ih ho' hrest (if decide (getDecodedObject a.encoded ∉ s) then added + 1 else added)
    rw [decoded_arg] at hadd ho'' hloop
    have hstrings : strings (a :: args) = insert (getDecodedObject a.obj) (strings args) := by
      simp [strings]
    refine ⟨o'', ?_, ?_⟩
    · rw [saddLoop, hadd]
      show saddLoop limit args o' _ = _
      rw [hloop, hstrings]
      congr 2
      by_cases hmem : getDecodedObject a.obj ∈ s
      · rw [if_neg (by simpa using hmem), Finset.insert_eq_of_mem hmem, Finset.insert_sdiff_of_mem _ hmem]
      · have hcard : (insert (getDecodedObject a.obj) (strings args) \ s).card =
            (strings args \ insert (getDecodedObject a.obj) s).card + 1 := by
          rw [Finset.insert_sdiff_of_notMem _ hmem]
          have heq : insert (getDecodedObject a.obj) (strings args \ s) =
              insert (getDecodedObject a.obj)
                (strings args \ insert (getDecodedObject a.obj) s) := by
            ext b
            simp only [Finset.mem_insert, Finset.mem_sdiff]
            tauto
          rw [heq, Finset.card_insert_of_notMem (by simp)]
        rw [if_pos (by simpa using hmem), hcard]
        omega
    · rw [hstrings]
      have heq : s ∪ insert (getDecodedObject a.obj) (strings args) =
          insert (getDecodedObject a.obj) s ∪ strings args := by
        ext b
        simp only [Finset.mem_union, Finset.mem_insert]
        tauto
      rw [heq]
      exact ho''

theorem strings_cons_nonempty (arg : Arg) (args : List Arg) : (strings (arg :: args)).Nonempty :=
  ⟨getDecodedObject arg.obj, by simp [strings]⟩

def StepAgrees (limit : Nat) (db : SetDb ω) (m : SetSpace ω) (op : SetOp) : Prop :=
  ∃ db' reply m', setOpStep limit db op = some (db', reply) ∧ Specified m reply m' op ∧
    ConservesUnion m m' op ∧ Represents db' m'

theorem sadd_agrees (limit : Nat) (h : Represents db m) (key : Bytes) (arg : Arg) (args : List Arg)
    (hfit : OpFits limit db (.sadd key arg args)) :
    StepAgrees limit db m (.sadd key arg args) := by
  cases hk : lookupKey db key with
  | none =>
    have hm := h.none hk
    have hfit' : AddsFit limit (setTypeCreate arg.obj) (arg :: args) := by
      simpa only [OpFits, hk] using hfit
    obtain ⟨o, hloop, ho⟩ := saddLoop_holds limit (arg :: args) (setTypeCreate_holds arg.obj) hfit' 0
    rw [Nat.zero_add] at hloop
    refine ⟨dbOverwrite (dbAdd db key (.set (setTypeCreate arg.obj))) key (.set o),
      .longlong (strings (arg :: args) \ ∅).card,
      store m key (∅ ∪ strings (arg :: args)), ?_, ?_, trivial, ?_⟩
    · simp only [setOpStep, saddCommand, hk, hloop, Option.bind_eq_bind, Option.bind_some]
      rfl
    · simp only [Specified, isOther_none hm, members_none hm, Bool.false_eq_true, if_false, and_self]
    · exact h.add key _ ho ((strings_cons_nonempty arg args).mono Finset.subset_union_right)
  | some v =>
    cases v with
    | other x =>
      have hm := h.other hk
      refine ⟨db, .wrongtypeerr, m, ?_, ?_, trivial, h⟩
      · simp only [setOpStep, saddCommand, hk]
      · simp only [Specified, isOther_other hm, if_true, and_self]
    | set o =>
      obtain ⟨s, hm, ho, hne⟩ := h.set hk
      have hfit' : AddsFit limit o (arg :: args) := by simpa only [OpFits, hk] using hfit
      obtain ⟨o', hloop, ho'⟩ := saddLoop_holds limit (arg :: args) ho hfit' 0
      rw [Nat.zero_add] at hloop
      refine ⟨dbOverwrite db key (.set o'), .longlong (strings (arg :: args) \ s).card,
        store m key (s ∪ strings (arg :: args)), ?_, ?_, trivial, ?_⟩
      · simp only [setOpStep, saddCommand, hk, hloop, Option.bind_eq_bind, Option.bind_some]
        rfl
      · simp only [Specified, isOther_set hm, members_of hm, Bool.false_eq_true, if_false, and_self]
      · exact h.overwrite hk ho' (hne.mono Finset.subset_union_left)

/-! ## SREM -/

theorem sremLoop_holds (args : List Arg) {o : SetObject} {s : Finset Bytes} (h : SetHolds o s)
    (hne : s.Nonempty) (deleted : Nat) :
    ∃ o', sremLoop args o deleted =
        some (o', deleted + (s ∩ strings args).card, decide (s \ strings args = ∅)) ∧
      SetHolds o' (s \ strings args) := by
  induction args generalizing o s deleted with
  | nil =>
    refine ⟨o, ?_, by simpa [strings] using h⟩
    have hfalse : decide (s \ strings [] = ∅) = false := by
      simpa [strings] using hne.ne_empty
    rw [sremLoop, hfalse]
    simp [strings]
  | cons a args ih =>
    obtain ⟨o', hremove, ho'⟩ := setTypeRemove_holds h a.obj
    have hstrings : strings (a :: args) = insert (getDecodedObject a.obj) (strings args) := by
      simp [strings]
    have hsdiff : s \ strings (a :: args) = s.erase (getDecodedObject a.obj) \ strings args := by
      rw [hstrings]
      ext b
      simp only [Finset.mem_sdiff, Finset.mem_insert, Finset.mem_erase]
      tauto
    rw [sremLoop, hremove]
    simp only [Option.bind_eq_bind, Option.bind_some]
    by_cases hmem : getDecodedObject a.obj ∈ s
    · have hcard : (s ∩ strings (a :: args)).card =
          (s.erase (getDecodedObject a.obj) ∩ strings args).card + 1 := by
        have heq : s ∩ strings (a :: args) = insert (getDecodedObject a.obj)
            (s.erase (getDecodedObject a.obj) ∩ strings args) := by
          rw [hstrings]
          ext b
          simp only [Finset.mem_inter, Finset.mem_insert, Finset.mem_erase]
          constructor
          · rintro ⟨hb, rfl | hb'⟩
            · exact Or.inl rfl
            · by_cases hba : b = getDecodedObject a.obj
              · exact Or.inl hba
              · exact Or.inr ⟨⟨hba, hb⟩, hb'⟩
          · rintro (rfl | ⟨⟨-, hb⟩, hb'⟩)
            · exact ⟨hmem, Or.inl rfl⟩
            · exact ⟨hb, Or.inr hb'⟩
        rw [heq, Finset.card_insert_of_notMem (by simp)]
      rw [decide_eq_true hmem, if_pos rfl, setTypeSize_eq ho', hsdiff, hcard]
      by_cases hempty : s.erase (getDecodedObject a.obj) = ∅
      · refine ⟨o', ?_, ?_⟩
        · rw [if_pos (Finset.card_eq_zero.mpr hempty), hempty]
          simp
        · rw [hempty, Finset.empty_sdiff, ← hempty]
          exact ho'
      · obtain ⟨o'', hloop, ho''⟩ := ih ho' (Finset.nonempty_iff_ne_empty.mpr hempty) (deleted + 1)
        refine ⟨o'', ?_, ho''⟩
        rw [if_neg (fun hc => hempty (Finset.card_eq_zero.mp hc)), hloop, Nat.add_assoc,
          Nat.add_comm 1]
    · rw [Finset.erase_eq_of_notMem hmem] at ho' hsdiff
      have hinter : s ∩ strings (a :: args) = s ∩ strings args := by
        rw [hstrings]
        ext b
        simp only [Finset.mem_inter, Finset.mem_insert]
        constructor
        · rintro ⟨hb, rfl | hb'⟩
          · exact absurd hb hmem
          · exact ⟨hb, hb'⟩
        · rintro ⟨hb, hb'⟩
          exact ⟨hb, Or.inr hb'⟩
      obtain ⟨o'', hloop, ho''⟩ := ih ho' hne deleted
      refine ⟨o'', ?_, by rw [hsdiff]; exact ho''⟩
      rw [decide_eq_false hmem, hsdiff, hinter, ← hloop]
      rfl

theorem srem_agrees (limit : Nat) (h : Represents db m) (key : Bytes) (args : List Arg) :
    StepAgrees limit db m (.srem key args) := by
  cases hk : lookupKey db key with
  | none =>
    have hm := h.none hk
    refine ⟨db, czero, m, ?_, ?_, trivial, h⟩
    · simp only [setOpStep, sremCommand, hk]
    · have hsame : store m key (∅ \ strings args) = m := by
        rw [Finset.empty_sdiff, store, if_pos rfl, Function.update_eq_self_iff, hm]
      simp only [Specified, isOther_none hm, members_none hm, Bool.false_eq_true, if_false,
        Finset.empty_inter, Finset.card_empty, hsame, and_true]
      rfl
  | some v =>
    cases v with
    | other x =>
      have hm := h.other hk
      refine ⟨db, .wrongtypeerr, m, ?_, ?_, trivial, h⟩
      · simp only [setOpStep, sremCommand, hk]
      · simp only [Specified, isOther_other hm, if_true, and_self]
    | set o =>
      obtain ⟨s, hm, ho, hne⟩ := h.set hk
      obtain ⟨o', hloop, ho'⟩ := sremLoop_holds args ho hne 0
      rw [Nat.zero_add] at hloop
      have hrep := h.overwriteOrDelete hk ho'
      refine ⟨if setTypeSize o' = 0 then (dbDelete (dbOverwrite db key (.set o')) key).1
        else dbOverwrite db key (.set o'), .longlong (s ∩ strings args).card,
        store m key (s \ strings args), ?_, ?_, trivial, hrep⟩
      · simp only [setOpStep, sremCommand, hk, hloop, Option.bind_eq_bind, Option.bind_some,
          setTypeSize_eq ho', Finset.card_eq_zero, decide_eq_true_eq]
        rfl
      · simp only [Specified, isOther_set hm, members_of hm, Bool.false_eq_true, if_false, and_self]

/-! ## SISMEMBER, SCARD and SPOP -/

theorem sismember_agrees (limit : Nat) (h : Represents db m) (key : Bytes) (arg : Arg) :
    StepAgrees limit db m (.sismember key arg) := by
  cases hk : lookupKey db key with
  | none =>
    have hm := h.none hk
    refine ⟨db, czero, m, ?_, ?_, trivial, h⟩
    · simp only [setOpStep, sismemberCommand, hk]
    · simp [Specified, isOther_none hm, members_none hm]
  | some v =>
    cases v with
    | other x =>
      have hm := h.other hk
      refine ⟨db, .wrongtypeerr, m, ?_, ?_, trivial, h⟩
      · simp only [setOpStep, sismemberCommand, hk]
      · simp [Specified, isOther_other hm]
    | set o =>
      obtain ⟨s, hm, ho, hne⟩ := h.set hk
      have hmember := setTypeIsMember_eq ho arg.encoded
      rw [decoded_arg] at hmember
      refine ⟨db, if getDecodedObject arg.obj ∈ s then cone else czero, m, ?_, ?_, trivial, h⟩
      · simp only [setOpStep, sismemberCommand, hk, hmember, Option.bind_eq_bind, Option.bind_some,
          decide_eq_true_eq]
        rfl
      · simp [Specified, isOther_set hm, members_of hm]

theorem scard_agrees (limit : Nat) (h : Represents db m) (key : Bytes) :
    StepAgrees limit db m (.scard key) := by
  cases hk : lookupKey db key with
  | none =>
    have hm := h.none hk
    refine ⟨db, czero, m, ?_, ?_, trivial, h⟩
    · simp only [setOpStep, scardCommand, hk]
    · simp [Specified, isOther_none hm, members_none hm, czero]
  | some v =>
    cases v with
    | other x =>
      have hm := h.other hk
      refine ⟨db, .wrongtypeerr, m, ?_, ?_, trivial, h⟩
      · simp only [setOpStep, scardCommand, hk]
      · simp [Specified, isOther_other hm]
    | set o =>
      obtain ⟨s, hm, ho, hne⟩ := h.set hk
      refine ⟨db, .longlong s.card, m, ?_, ?_, trivial, h⟩
      · simp only [setOpStep, scardCommand, hk, setTypeSize_eq ho]
      · simp [Specified, isOther_set hm, members_of hm]

theorem spop_agrees (limit : Nat) (h : Represents db m) (key : Bytes) (r : Nat) :
    StepAgrees limit db m (.spop key r) := by
  cases hk : lookupKey db key with
  | none =>
    have hm := h.none hk
    refine ⟨db, nullbulk, m, ?_, ?_, trivial, h⟩
    · simp only [setOpStep, spopCommand, hk]
    · simp [Specified, isOther_none hm, members_none hm]
  | some v =>
    cases v with
    | other x =>
      have hm := h.other hk
      refine ⟨db, .wrongtypeerr, m, ?_, ?_, trivial, h⟩
      · simp only [setOpStep, spopCommand, hk]
      · simp [Specified, isOther_other hm]
    | set o =>
      obtain ⟨s, hm, ho, hne⟩ := h.set hk
      obtain ⟨ele, hele, hmem⟩ := setTypeRandomElement_mem ho hne r
      obtain ⟨o', hremove, ho'⟩ := setTypeRemove_holds ho ele
      refine ⟨if setTypeSize o' = 0 then (dbDelete (dbOverwrite db key (.set o')) key).1
        else dbOverwrite db key (.set o'), .bulk (some (getDecodedObject ele)),
        store m key (s.erase (getDecodedObject ele)), ?_, ?_, trivial,
        h.overwriteOrDelete hk ho'⟩
      · simp only [setOpStep, spopCommand, hk, hele, hremove, Option.bind_eq_bind, Option.bind_some]
        rfl
      · simp only [Specified, isOther_set hm, members_of hm, Bool.false_eq_true, if_false,
          if_neg hne.ne_empty]
        exact ⟨getDecodedObject ele, hmem, rfl, rfl⟩

/-! ## SMOVE -/

theorem store_self (m : SetSpace ω) (key : Bytes) (s : Finset Bytes) :
    members (store m key s) key = s := by
  unfold members store
  rw [Function.update_self]
  by_cases hs : s = ∅
  · rw [if_pos hs, hs]
  · rw [if_neg hs]

theorem store_ne (m : SetSpace ω) (s : Finset Bytes) {k : Bytes} (hk : k ≠ key) :
    members (store m key s) k = members m k := by
  unfold members store
  rw [Function.update_of_ne hk]

theorem conserves_union (m : SetSpace ω) {src dst ele : Bytes} {s d : Finset Bytes}
    (hs : members m src = s) (hd : members (store m src (s.erase ele)) dst = d) (hmem : ele ∈ s) :
    members (store (store m src (s.erase ele)) dst (insert ele d)) src ∪
        members (store (store m src (s.erase ele)) dst (insert ele d)) dst =
      members m src ∪ members m dst := by
  subst hs hd
  by_cases hd : dst = src
  · subst hd
    rw [store_self, store_self, Finset.insert_erase hmem, Finset.union_self]
  · rw [store_self, store_ne _ _ (fun hc => hd hc.symm), store_self, store_ne _ _ hd]
    ext b
    simp only [Finset.mem_union, Finset.mem_erase, Finset.mem_insert]
    by_cases hb : b = ele
    · subst hb
      simp [hmem]
    · simp [hb]

theorem smove_refused (limit : Nat) (h : Represents db m) {src dst : Bytes} {arg : Arg} (reply : Reply)
    (hstep : setOpStep limit db (.smove src dst arg) = some (db, reply))
    (hspec : Specified m reply m (.smove src dst arg)) :
    StepAgrees limit db m (.smove src dst arg) :=
  ⟨db, reply, m, hstep, hspec, rfl, h⟩

theorem smove_agrees (limit : Nat) (h : Represents db m) (src dst : Bytes) (arg : Arg)
    (hfit : OpFits limit db (.smove src dst arg)) :
    StepAgrees limit db m (.smove src dst arg) := by
  cases hk : lookupKey db src with
  | none =>
    have hm := h.none hk
    apply smove_refused limit h czero
    · simp only [setOpStep, smoveCommand, hk]
    · simp [Specified, isOther_none hm, members_none hm, hm]
  | some v =>
    cases v with
    | other x =>
      have hm := h.other hk
      apply smove_refused limit h .wrongtypeerr
      · simp only [setOpStep, smoveCommand, hk]
      · simp [Specified, isOther_other hm]
    | set o =>
      obtain ⟨s, hm, ho, hne⟩ := h.set hk
      obtain ⟨o₁, hremove, ho₁⟩ := setTypeRemove_holds ho arg.encoded
      rw [decoded_arg] at hremove ho₁
      -- whatever the destination holds, a missing element is not moved
      have hmissing : src ≠ dst → getDecodedObject arg.obj ∉ s →
          (∀ x, lookupKey db dst ≠ some (.other x)) → StepAgrees limit db m (.smove src dst arg) := by
        intro hne' hnot hdst
        rw [decide_eq_false hnot] at hremove
        rw [Finset.erase_eq_of_notMem hnot] at ho₁
        have hspec : Specified m czero m (.smove src dst arg) := by
          have hnoOther : isOther m dst = false := by
            cases hd : lookupKey db dst with
            | none => exact isOther_none (h.none hd)
            | some w =>
              cases w with
              | other x => exact absurd hd (hdst x)
              | set o' =>
                obtain ⟨s', hm', -, -⟩ := h.set hd
                exact isOther_set hm'
          simp [Specified, isOther_set hm, members_of hm, hnot, hnoOther]
        refine ⟨dbOverwrite db src (.set o₁), czero, m, ?_, hspec, rfl, ?_⟩
        · cases hd : lookupKey db dst with
          | none =>
            simp only [setOpStep, smoveCommand, hk, hd, if_neg hne', hremove, Option.bind_eq_bind,
              Option.bind_some]
            rfl
          | some w =>
            cases w with
            | other x => exact absurd hd (hdst x)
            | set o' =>
              simp only [setOpStep, smoveCommand, hk, hd, if_neg hne', hremove, Option.bind_eq_bind,
                Option.bind_some]
              rfl
        · have hrep := h.overwrite hk ho₁ hne
          have hsame : store m src s = m := by
            rw [store, if_neg hne.ne_empty, Function.update_eq_self_iff, hm]
          rwa [hsame] at hrep
      -- the source after the element is gone
      have hleft := h.overwriteOrDelete hk ho₁
      cases hd : lookupKey db dst with
      | none =>
        have hmd := h.none hd
        have hne' : src ≠ dst := by
          rintro rfl
          rw [hk] at hd
          cases hd
        by_cases hmem : getDecodedObject arg.obj ∈ s
        · rw [decide_eq_true hmem] at hremove
          have hcreate : AddFits (setTypeCreate arg.encoded) arg.encoded := by
            unfold AddFits setTypeCreate
            cases hrep : isObjectRepresentableAsLongLong arg.encoded with
            | none =>
              simp only [createSetObject]
              cases hs : (none : Option Int).isSome <;> trivial
            | some n =>
              right
              have hle : max intsetNew.encoding (_intsetValueEncoding n) ≤ 8 := by
                unfold _intsetValueEncoding
                split
                · decide
                · split <;> decide
              show (0 + 1) * max intsetNew.encoding (_intsetValueEncoding n) < 2 ^ 32
              omega
          obtain ⟨o₂, hadd, ho₂⟩ :=
            setTypeAdd_holds limit (setTypeCreate_holds arg.encoded) hcreate
          rw [decoded_arg] at hadd ho₂
          have hmd₁ : members (store m src (s.erase (getDecodedObject arg.obj))) dst = ∅ := by
            rw [store_ne _ _ (fun hc => hne' hc.symm), members_none hmd]
          refine ⟨_, cone, _, ?_, ?_, ?_, hleft.add dst (.set (setTypeCreate arg.encoded)) ho₂ (Finset.insert_nonempty _ _)⟩
          · simp only [setOpStep, smoveCommand, hk, hd, if_neg hne', hremove, hadd,
              Option.bind_eq_bind, Option.bind_some]
            rfl
          · simp [Specified, isOther_set hm, isOther_none hmd, members_of hm, hmem, hmd₁]
          · exact conserves_union m (members_of hm) hmd₁ hmem
        · exact hmissing hne' hmem (fun x hx => by rw [hd] at hx; cases hx)
      | some w =>
        cases w with
        | other x =>
          have hmd := h.other hd
          apply smove_refused limit h .wrongtypeerr
          · simp only [setOpStep, smoveCommand, hk, hd]
          · simp [Specified, isOther_set hm, isOther_other hmd, hm]
        | set o' =>
          obtain ⟨s', hmd, ho', hne₂⟩ := h.set hd
          have hfit' : (src = dst → setTypeIsMember o arg.encoded = some true) ∧
              (src ≠ dst → AddFits o' arg.encoded) := by
            simpa only [OpFits, hk, hd] using hfit
          by_cases hsd : src = dst
          · subst hsd
            have hmember := hfit'.1 rfl
            rw [setTypeIsMember_eq ho, decoded_arg, Option.some.injEq, decide_eq_true_iff] at hmember
            apply smove_refused limit h cone
            · simp only [setOpStep, smoveCommand, hk, if_true]
            · have hback : store (store m src (s.erase (getDecodedObject arg.obj))) src s = m := by
                rw [store, store, Function.update_idem, if_neg hne.ne_empty,
                  Function.update_eq_self_iff, hm]
              simp [Specified, isOther_set hm, members_of hm, hmember, store_self]
              exact hback.symm
          · by_cases hmem : getDecodedObject arg.obj ∈ s
            · rw [decide_eq_true hmem] at hremove
              obtain ⟨o₂, hadd, ho₂⟩ := setTypeAdd_holds limit ho' (hfit'.2 hsd)
              rw [decoded_arg] at hadd ho₂
              have hmd₁ : members (store m src (s.erase (getDecodedObject arg.obj))) dst = s' := by
                rw [store_ne _ _ (fun hc => hsd hc.symm), members_of hmd]
              have hd₁ : lookupKey (if setTypeSize o₁ = 0 then
                  (dbDelete (dbOverwrite db src (.set o₁)) src).1
                  else dbOverwrite db src (.set o₁)) dst = some (.set o') := by
                split
                · rw [lookup_dbDelete_ne _ (fun hc => hsd hc.symm),
                    lookup_dbOverwrite_ne _ _ (fun hc => hsd hc.symm), hd]
                · rw [lookup_dbOverwrite_ne _ _ (fun hc => hsd hc.symm), hd]
              refine ⟨_, cone, _, ?_, ?_, ?_,
                hleft.overwrite hd₁ ho₂ (Finset.insert_nonempty _ _)⟩
              · simp only [setOpStep, smoveCommand, hk, hd, if_neg hsd, hremove, hadd,
                  Option.bind_eq_bind, Option.bind_some]
                rfl
              · simp [Specified, isOther_set hm, isOther_set hmd, members_of hm, hmem, hmd₁]
              · exact conserves_union m (members_of hm) hmd₁ hmem
            · exact hmissing hsd hmem (fun x hx => by rw [hd] at hx; cases hx)

/-! ## Runs -/

theorem setOpStep_agrees (limit : Nat) (h : Represents db m) (op : SetOp)
    (hfit : OpFits limit db op) : StepAgrees limit db m op := by
  cases op with
  | sadd key arg args => exact sadd_agrees limit h key arg args hfit
  | srem key args => exact srem_agrees limit h key args
  | smove src dst arg => exact smove_agrees limit h src dst arg hfit
  | spop key r => exact spop_agrees limit h key r
  | sismember key arg => exact sismember_agrees limit h key arg
  | scard key => exact scard_agrees limit h key

/-- **Set encodings agree**: from a keyspace that represents finite sets, every run whose operations
fit replies and stores as those do. -/
theorem set_runs_agree (limit : Nat) (ops : List SetOp) (db : SetDb ω) (m : SetSpace ω)
    (h : Represents db m) (hfit : RunOptionMeets (setOpStep limit) (OpFits limit) db ops) :
    SetsAgree limit db m ops := by
  induction ops generalizing db m with
  | nil => exact h
  | cons op ops ih =>
    obtain ⟨db', reply, m', hstep, hspec, hconserve, h'⟩ := setOpStep_agrees limit h op hfit.1
    have hrest := hfit.2
    rw [hstep] at hrest
    exact ⟨h, db', reply, m', hstep, hspec, hconserve, ih db' m' h' hrest⟩

def sent (text : String) : Arg := { obj := .sds (ascii text), refcount := 1 }

/-- The limit of two integers is passed, a string comes in, and a set is emptied. -/
theorem set_runs_agree_convert :
    SetsAgree 2 (emptyDb : SetDb Unit) (fun _ => none)
      [.sadd (ascii "a") (sent "1") [sent "2"], .sadd (ascii "a") (sent "3") [sent "01"],
        .smove (ascii "a") (ascii "b") (sent "2"), .sismember (ascii "b") (sent "2"),
        .spop (ascii "b") 5, .scard (ascii "b"), .srem (ascii "a") [sent "1", sent "4", sent "01"]] :=
  set_runs_agree 2 _ _ _ (fun _ => trivial) (by decide +kernel)

def xSpace : SetSpace Unit := store (fun _ => none) (ascii "k") {ascii "x"}

def xDb : SetDb Unit := dbAdd emptyDb (ascii "k") (.set (.ht [.sds (ascii "x")]))

theorem xDb_k : lookupKey xDb (ascii "k") = some (.set (.ht [.sds (ascii "x")])) := lookup_dbAdd ..

theorem xSpace_k : xSpace (ascii "k") = some (.inl {ascii "x"}) := by
  rw [xSpace, store, if_neg (Finset.singleton_ne_empty _), Function.update_self]

theorem xDb_represents : Represents xDb xSpace := by
  intro key
  by_cases hk : key = ascii "k"
  · rw [hk, xDb_k, xSpace_k]
    exact ⟨⟨List.nodup_singleton _, rfl⟩, Finset.singleton_nonempty _⟩
  · rw [xDb, lookup_dbAdd_ne _ _ hk, xSpace, store, Function.update_of_ne hk]
    trivial

/-- SMOVE of y from the set to itself replies that y was moved. -/
theorem smove_itself_disagrees :
    Represents xDb xSpace ∧
      ¬ SetsAgree 512 xDb xSpace [.smove (ascii "k") (ascii "k") (sent "y")] := by
  refine ⟨xDb_represents, ?_⟩
  rintro ⟨-, db', reply, m', hstep, hspec, -⟩
  simp only [setOpStep, smoveCommand, xDb_k, if_true, Option.some.injEq, Prod.mk.injEq] at hstep
  have hnot : ¬ getDecodedObject (sent "y").obj ∈ members xSpace (ascii "k") := by
    rw [members_of xSpace_k, Finset.mem_singleton]
    decide
  simp only [Specified, isOther_set xSpace_k, hnot, Bool.and_false, Bool.or_self,
    Bool.false_eq_true, if_false] at hspec
  rw [← hstep.2] at hspec
  exact absurd hspec.1 (by decide)

end RedisCluster.Sets
