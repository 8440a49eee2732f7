import RedisCluster.Redisdb.RedisDb

/-!
# Proofs: RENAME and MOVE

A database is looked at one key at a time: `entry` is the value and the expire time of a key, and each
function of `db.c` changes the entries of the keys it is given. A lookup first removes a key whose time has
passed; what the commands do then is a step on entries.
-/

namespace RedisCluster.Redisdb

open RedisCluster.Util

variable {V : Type} {db : RedisDb V} {s : Server V} {dbid : Nat} {key newkey : Bytes} {now now' : Int}

theorem mem_dict_iff : key ∈ db.dict ↔ (db.entry key).1 ≠ none := by
  rw [RedisDb.entry, ← Option.isSome_iff_ne_none, Finmap.lookup_isSome]

theorem wf_iff : db.WF ↔ ∀ k, (db.entry k).2 ≠ none → (db.entry k).1 ≠ none := by
  unfold RedisDb.WF
  simp only [RedisDb.entry, ← Option.isSome_iff_ne_none, Finmap.lookup_isSome]

theorem entry_of_absent (h : db.WF) (hkey : key ∉ db.dict) : db.entry key = (none, none) := by
  have hvalue : (db.entry key).1 = none := not_not.mp (mt mem_dict_iff.mpr hkey)
  have hexpire : (db.entry key).2 = none := by
    by_contra hno
    exact wf_iff.mp h key hno hvalue
  exact Prod.ext hvalue hexpire

theorem entry_dbDelete_self (db : RedisDb V) (key : Bytes) : (dbDelete db key).1.entry key = (none, none) := by
  simp only [dbDelete, RedisDb.entry, Finmap.lookup_erase]

theorem wf_dbDelete (h : db.WF) (key : Bytes) : (dbDelete db key).1.WF := by
  intro k hk
  have hmem := Finmap.mem_erase.mp hk
  exact Finmap.mem_erase.mpr ⟨hmem.1, h k hmem.2⟩

theorem entry_dbDelete_ne (db : RedisDb V) {k : Bytes} (hk : k ≠ key) :
    (dbDelete db key).1.entry k = db.entry k := by
  simp only [dbDelete, RedisDb.entry, Finmap.lookup_erase_ne hk]

@[simp] theorem setDb_db_self (s : Server V) (dbid : Nat) (db : RedisDb V) : (s.setDb dbid db).db dbid = db :=
  Function.update_self ..

theorem setDb_db_ne (s : Server V) (db : RedisDb V) {j : Nat} (hj : j ≠ dbid) :
    (s.setDb dbid db).db j = s.db j := Function.update_of_ne hj ..

theorem getExpire_eq (h : db.WF) : getExpire db key = some ((db.expires.lookup key).getD (-1)) := by
  unfold getExpire
  cases hexpire : db.expires.lookup key with
  | none => rfl
  | some when =>
    have hmem : key ∈ db.dict := h key (Finmap.mem_iff.mpr ⟨when, hexpire⟩)
    exact if_pos hmem

theorem expireIfNeeded_removes (h : (s.db dbid).WF) (hremoves : Removes s dbid key now) :
    expireIfNeeded s dbid key now = some (s.setDb dbid (dbDelete (s.db dbid) key).1, true) := by
  obtain ⟨hloading, hmaster, when, hwhen, hnonneg, hlate⟩ := hremoves
  have hmem : key ∈ (s.db dbid).dict := h key (Finmap.mem_iff.mpr ⟨when, hwhen⟩)
  rw [expireIfNeeded, getExpire_eq h, hwhen, Option.getD_some, Option.map_some, if_neg (not_lt.mpr hnonneg),
    hloading, hmaster, if_neg Bool.false_ne_true, if_neg Bool.false_ne_true, if_neg (not_le.mpr hlate)]
  simp only [dbDelete, hmem, decide_true]

theorem expireIfNeeded_keeps (h : (s.db dbid).WF) (hkeeps : ¬ Removes s dbid key now) :
    expireIfNeeded s dbid key now = some (s, decide (s.loading = false ∧ s.masterhost = true ∧
      ∃ when, (s.db dbid).expires.lookup key = some when ∧ 0 ≤ when ∧ when < now)) := by
  rw [expireIfNeeded, getExpire_eq h, Option.map_some]
  congr 1
  cases hexpire : (s.db dbid).expires.lookup key with
  | none =>
    rw [Option.getD_none, if_pos (by decide)]
    simp only [reduceCtorEq, false_and, exists_false, and_false, decide_false]
  | some when =>
    rw [Option.getD_some]
    simp only [Option.some.injEq, exists_eq_left']
    by_cases hneg : when < 0
    · rw [if_pos hneg, decide_eq_false]
      rintro ⟨-, -, hnonneg, -⟩
      omega
    · rw [if_neg hneg]
      cases hloading : s.loading with
      | true => simp
      | false =>
        cases hmaster : s.masterhost with
        | true =>
          simp only [Bool.false_eq_true, if_false, if_true, true_and, gt_iff_lt]
          rw [Prod.mk.injEq]
          exact ⟨rfl, decide_eq_decide.mpr (iff_and_self.mpr fun _ => not_lt.mp hneg)⟩
        | false =>
          have hearly : now ≤ when := by
            by_contra hlate
            exact hkeeps ⟨hloading, hmaster, when, hexpire, not_lt.mp hneg, not_le.mp hlate⟩
          simp only [Bool.false_eq_true, if_false, if_pos hearly, false_and, and_false, decide_false]

theorem lookupKeyWrite_removes (h : (s.db dbid).WF) (hremoves : Removes s dbid key now) :
    lookupKeyWrite s dbid key now = some (s.setDb dbid (dbDelete (s.db dbid) key).1, none) := by
  rw [lookupKeyWrite, expireIfNeeded_removes h hremoves, Option.map_some, setDb_db_self, lookupKey]
  simp only [dbDelete, Finmap.lookup_erase]

theorem lookupKeyWrite_keeps (h : (s.db dbid).WF) (hkeeps : ¬ Removes s dbid key now) :
    lookupKeyWrite s dbid key now = some (s, (s.db dbid).dict.lookup key) := by
  rw [lookupKeyWrite, expireIfNeeded_keeps h hkeeps]
  rfl

theorem lookupKeyWrite_cases (h : ∀ j, (s.db j).WF) (dbid : Nat) (key : Bytes) (now : Int) :
    (∃ o, Present s dbid key now ∧ (s.db dbid).dict.lookup key = some o ∧
      lookupKeyWrite s dbid key now = some (s, some o)) ∨
    ∃ s', ¬ Present s dbid key now ∧ lookupKeyWrite s dbid key now = some (s', none) ∧
      s'.dirty = s.dirty ∧ (s'.db dbid).entry key = (none, none) ∧ (∀ j, (s'.db j).WF) ∧
      (∀ j k, (j, k) ≠ (dbid, key) → (s'.db j).entry k = (s.db j).entry k) ∧
      ((s'.db dbid).entry key = (s.db dbid).entry key ∨ Removes s dbid key now) := by
  by_cases hremoves : Removes s dbid key now
  · refine Or.inr ⟨_, fun hpresent => hpresent.2 hremoves, lookupKeyWrite_removes (h dbid) hremoves, rfl, ?_, ?_, ?_,
      Or.inr hremoves⟩
    · rw [setDb_db_self, entry_dbDelete_self]
    · intro j
      by_cases hj : j = dbid
      · subst hj
        rw [setDb_db_self]
        exact wf_dbDelete (h j) key
      · rw [setDb_db_ne _ _ hj]
        exact h j
    · intro j k hne
      by_cases hj : j = dbid
      · subst hj
        rw [setDb_db_self, entry_dbDelete_ne]
        exact fun hkey => hne (by rw [hkey])
      · rw [setDb_db_ne _ _ hj]
  · have hlookup := lookupKeyWrite_keeps (h dbid) hremoves
    cases ho : (s.db dbid).dict.lookup key with
    | some o =>
      rw [ho] at hlookup
      exact Or.inl ⟨o, ⟨Finmap.mem_iff.mpr ⟨o, ho⟩, hremoves⟩, rfl, hlookup⟩
    | none =>
      rw [ho] at hlookup
      have habsent : key ∉ (s.db dbid).dict := Finmap.lookup_eq_none.mp ho
      exact Or.inr ⟨s, fun hpresent => habsent hpresent.1, hlookup, rfl, entry_of_absent (h dbid) habsent, h,
        fun _ _ _ => rfl, Or.inl rfl⟩

/-- The destination is free and the source is there: nothing fails, and the value is carried over with its
expire time, unless that is -1. -/
theorem renameEntry_spec (h : db.WF) (hne : key ≠ newkey) (o : V)
    (hfree : db.entry newkey = (none, none)) :
    ∃ db', renameEntry db key newkey o ((db.expires.lookup key).getD (-1)) = some db' ∧ db'.WF ∧
      db'.entry key = (none, none) ∧
      db'.entry newkey = (some o, if db.expires.lookup key = some (-1) then none else db.expires.lookup key) ∧
      ∀ k, k ≠ key → k ≠ newkey → db'.entry k = db.entry k := by
  have hnew : newkey ∉ db.dict := fun hmem => mem_dict_iff.mp hmem (by rw [hfree])
  have hexpires : db.expires.lookup newkey = none := congrArg Prod.snd hfree
  have hadd : dbAdd db newkey o = some { db with dict := db.dict.insert newkey o } := if_neg hnew
  -- the state before the source is deleted
  obtain ⟨db₁, hstep, hdict, hexp, hold⟩ : ∃ db₁, (if (db.expires.lookup key).getD (-1) ≠ -1 then
      setExpire { db with dict := db.dict.insert newkey o } newkey ((db.expires.lookup key).getD (-1))
      else some { db with dict := db.dict.insert newkey o }) = some db₁ ∧
      db₁.dict = db.dict.insert newkey o ∧
      db₁.expires.lookup newkey = (if db.expires.lookup key = some (-1) then none else db.expires.lookup key) ∧
      ∀ k, k ≠ newkey → db₁.expires.lookup k = db.expires.lookup k := by
    cases hwhen : db.expires.lookup key with
    | none => exact ⟨_, rfl, rfl, hexpires, fun _ _ => rfl⟩
    | some when =>
      rw [Option.getD_some]
      by_cases hminus : when = -1
      · rw [hminus, if_neg (not_not.mpr rfl), if_pos rfl]
        exact ⟨_, rfl, rfl, hexpires, fun _ _ => rfl⟩
      · have hmem : newkey ∈ db.dict.insert newkey o := Finmap.mem_insert.mpr (Or.inl rfl)
        rw [if_pos hminus, setExpire, if_pos hmem, if_neg fun heq => hminus (Option.some.inj heq)]
        exact ⟨_, rfl, rfl, Finmap.lookup_insert _, fun k hk => Finmap.lookup_insert_of_ne _ hk⟩
  have hentry : db₁.entry newkey =
      (some o, if db.expires.lookup key = some (-1) then none else db.expires.lookup key) := by
    rw [RedisDb.entry, hdict, Finmap.lookup_insert, hexp]
  have hothers : ∀ k, k ≠ newkey → db₁.entry k = db.entry k := by
    intro k hk
    rw [RedisDb.entry, hdict, Finmap.lookup_insert_of_ne _ hk, hold k hk]
    rfl
  have hnewDeleted : (dbDelete db₁ key).1.entry newkey = db₁.entry newkey := entry_dbDelete_ne _ hne.symm
  refine ⟨(dbDelete db₁ key).1, ?_, ?_, entry_dbDelete_self _ _, hnewDeleted.trans hentry, fun k hk hk' => ?_⟩
  · rw [renameEntry, hadd, Option.bind_some, hstep, Option.map_some]
  · refine wf_iff.mpr fun k hk => ?_
    by_cases hkey : k = key
    · rw [hkey, entry_dbDelete_self] at hk
      exact absurd rfl hk
    · by_cases hkey' : k = newkey
      · rw [hkey', hnewDeleted, hentry]
        exact Option.some_ne_none o
      · rw [entry_dbDelete_ne _ hkey, hothers k hkey'] at hk ⊢
        exact wf_iff.mp h k hk
  · rw [entry_dbDelete_ne _ hk, hothers k hk']

def Exact (s s' : Server V) (srcid : Nat) (key : Bytes) (dstid : Nat) (newkey : Bytes) (now : Int) : Prop :=
  (∀ j, (s'.db j).WF) ∧ (Untouched s s' srcid key now ∨ Transferred s s' srcid key dstid newkey)

/-- A state in which the source is gone and the destination has its value is exact if and only if the
destination has its expire time too. -/
theorem exact_iff {s s' : Server V} {srcid dstid : Nat} {o : V} (hpresent : Present s srcid key now)
    (ho : (s.db srcid).dict.lookup key = some o) (hwf : ∀ j, (s'.db j).WF)
    (hgone : (s'.db srcid).entry key = (none, none)) (hnew : ((s'.db dstid).entry newkey).1 = some o)
    (hrest : ∀ j k, (j, k) ≠ (srcid, key) → (j, k) ≠ (dstid, newkey) → (s'.db j).entry k = (s.db j).entry k) :
    Exact s s' srcid key dstid newkey now ↔
      ((s'.db dstid).entry newkey).2 = (s.db srcid).expires.lookup key := by
  constructor
  · rintro ⟨-, ⟨-, hkept | ⟨hremoves, -⟩⟩ | ⟨-, htransfer, -⟩⟩
    · rw [hgone] at hkept
      have hvalue := (congrArg Prod.fst hkept).trans ho
      cases hvalue
    · exact absurd hremoves hpresent.2
    · exact congrArg Prod.snd htransfer
  · intro hexpire
    refine ⟨hwf, Or.inr ⟨?_, Prod.ext (hnew.trans ho.symm) hexpire, hgone, hrest⟩⟩
    rw [ho]
    exact Option.some_ne_none o

theorem exact_refl {s : Server V} (h : ∀ j, (s.db j).WF) (srcid : Nat) (key : Bytes) (dstid : Nat)
    (newkey : Bytes) (now : Int) : Exact s s srcid key dstid newkey now :=
  ⟨h, Or.inl ⟨fun _ _ _ => rfl, Or.inl rfl⟩⟩

theorem renamed_iff {s s' : Server V} (hpresent : Present s dbid key now) {o : V}
    (ho : (s.db dbid).dict.lookup key = some o) (hsame : key ≠ newkey) (hwf : ∀ j, (s'.db j).WF)
    (hother : ∀ j, j ≠ dbid → ∀ k, (s'.db j).entry k = (s.db j).entry k) {db : RedisDb V} (hdb : db.WF)
    (hfree : db.entry newkey = (none, none)) (hentries : ∀ k, k ≠ newkey → db.entry k = (s.db dbid).entry k)
    (reply : Reply) :
    (∃ s'' reply', (renameEntry db key newkey o (((s.db dbid).expires.lookup key).getD (-1))).map
        (fun db => (({ s'.setDb dbid db with dirty := s'.dirty + 1 } : Server V), reply)) = some (s'', reply') ∧
        Exact s s'' dbid key dbid newkey now) ↔
      (s.db dbid).expires.lookup key ≠ some (-1) := by
  have hsrc : db.entry key = (s.db dbid).entry key := hentries key hsame
  have hexpires : db.expires.lookup key = (s.db dbid).expires.lookup key := congrArg Prod.snd hsrc
  obtain ⟨db', hrename, hwf', hgone, hnew, hrest⟩ := renameEntry_spec hdb hsame o hfree
  rw [hexpires] at hrename hnew
  rw [hrename, Option.map_some]
  obtain ⟨t, ht⟩ : ∃ t, t = ({ s'.setDb dbid db' with dirty := s'.dirty + 1 } : Server V) := ⟨_, rfl⟩
  have hself : t.db dbid = db' := by
    rw [ht]
    exact setDb_db_self s' dbid db'
  have hbeside : ∀ j, j ≠ dbid → t.db j = s'.db j := by
    intro j hj
    rw [ht]
    exact setDb_db_ne s' db' hj
  have hiff : Exact s t dbid key dbid newkey now ↔ ((t.db dbid).entry newkey).2 = (s.db dbid).expires.lookup key := by
    refine exact_iff hpresent ho (fun j => ?_) (by rw [hself, hgone]) (by rw [hself, hnew]) fun j k hsrc hdst => ?_
    · by_cases hj : j = dbid
      · rw [hj, hself]
        exact hwf'
      · rw [hbeside j hj]
        exact hwf j
    · by_cases hj : j = dbid
      · subst hj
        have hk : k ≠ key := fun h => hsrc (by rw [h])
        have hk' : k ≠ newkey := fun h => hdst (by rw [h])
        rw [hself, hrest k hk hk', hentries k hk']
      · rw [hbeside j hj, hother j hj]
  rw [← ht]
  constructor
  · rintro ⟨s'', reply', heq, hexact⟩ hminus
    obtain ⟨rfl, -⟩ := Prod.mk.inj (Option.some.inj heq)
    have hexpire := hiff.mp hexact
    rw [hself, hnew, if_pos hminus, hminus] at hexpire
    cases hexpire
  · intro hne
    refine ⟨_, _, rfl, hiff.mpr ?_⟩
    rw [hself, hnew, if_neg hne]

theorem rename_exact_iff (s : Keyspace V) (dbid : Nat) (key newkey : Bytes) (nx : Bool) (now now' : Int) :
    RenameExact s dbid key newkey nx now now' ↔
      (Renames s.server dbid key newkey nx now now' → (s.server.db dbid).expires.lookup key ≠ some (-1)) := by
  unfold RenameExact Renames renameGenericCommand
  by_cases hsame : key = newkey
  · rw [if_pos hsame]
    refine iff_of_true ⟨_, _, rfl, exact_refl s.wf ..⟩ ?_
    rintro ⟨hno, -⟩
    exact absurd hsame hno
  · rw [if_neg hsame]
    rcases lookupKeyWrite_cases s.wf dbid key now with
      ⟨o, hpresent, ho, hlookup⟩ | ⟨s', hmissing, hlookup, -, hgone, hwf, hothers, hkept⟩
    · rw [hlookup, Option.bind_some]
      dsimp only
      rw [getExpire_eq (s.wf dbid), Option.bind_some]
      rcases lookupKeyWrite_cases s.wf dbid newkey now' with
        ⟨old, hpresent', hold, hlookup'⟩ | ⟨s', hmissing', hlookup', -, hfree, hwf, hothers, -⟩
      · rw [hlookup', Option.bind_some]
        simp only [Option.isSome_some, Bool.true_and, if_true]
        cases nx with
        | true =>
          rw [if_pos rfl]
          refine iff_of_true ⟨_, _, rfl, exact_refl s.wf ..⟩ ?_
          rintro ⟨-, -, hno⟩
          exact absurd hpresent' (hno rfl)
        | false =>
          rw [if_neg Bool.false_ne_true]
          refine (renamed_iff hpresent ho hsame s.wf (fun _ _ _ => rfl) (wf_dbDelete (s.wf dbid) newkey)
            (entry_dbDelete_self _ _) (fun k hk => entry_dbDelete_ne _ hk) _).trans ?_
          exact ⟨fun h _ => h, fun h => h ⟨hsame, hpresent, fun hno => absurd hno Bool.false_ne_true⟩⟩
      · rw [hlookup', Option.bind_some]
        simp only [Option.isSome_none, Bool.false_and, Bool.false_eq_true, if_false]
        have hentries : ∀ k, k ≠ newkey → (s'.db dbid).entry k = (s.server.db dbid).entry k :=
          fun k hk => hothers dbid k fun h => hk (congrArg Prod.snd h)
        have hother : ∀ j, j ≠ dbid → ∀ k, (s'.db j).entry k = (s.server.db j).entry k :=
          fun j hj k => hothers j k fun h => hj (congrArg Prod.fst h)
        refine (renamed_iff hpresent ho hsame hwf hother (hwf dbid) hfree hentries _).trans ?_
        exact ⟨fun h _ => h, fun h => h ⟨hsame, hpresent, fun _ => hmissing'⟩⟩
    · rw [hlookup, Option.bind_some]
      refine iff_of_true ⟨_, _, rfl, hwf, Or.inl ⟨hothers, ?_⟩⟩ ?_
      · exact hkept.imp id fun hremoves => ⟨hremoves, hgone⟩
      · rintro ⟨-, hpresent, -⟩
        exact absurd hpresent hmissing

theorem moved_iff {s s' : Server V} {srcid dstid : Nat} (hpresent : Present s srcid key now) {o : V}
    (ho : (s.db srcid).dict.lookup key = some o) (hids : dstid ≠ srcid) (hwf : ∀ j, (s'.db j).WF)
    (hothers : ∀ j k, (j, k) ≠ (dstid, key) → (s'.db j).entry k = (s.db j).entry k)
    (hfree : (s'.db dstid).entry key = (none, none)) :
    (∃ s'' reply', some (({ (s'.setDb dstid { s'.db dstid with dict := (s'.db dstid).dict.insert key o }).setDb srcid
        (dbDelete (s'.db srcid) key).1 with dirty := s'.dirty + 1 } : Server V), Reply.cone) = some (s'', reply') ∧
        Exact s s'' srcid key dstid key now) ↔
      (s.db srcid).expires.lookup key = none := by
  obtain ⟨t, ht⟩ : ∃ t, t = ({ (s'.setDb dstid { s'.db dstid with dict := (s'.db dstid).dict.insert key o }).setDb srcid
    (dbDelete (s'.db srcid) key).1 with dirty := s'.dirty + 1 } : Server V) := ⟨_, rfl⟩
  have hsrc : t.db srcid = (dbDelete (s'.db srcid) key).1 := by
    rw [ht]
    exact setDb_db_self ..
  have hdst : t.db dstid = { s'.db dstid with dict := (s'.db dstid).dict.insert key o } := by
    rw [ht]
    exact (setDb_db_ne _ _ hids).trans (setDb_db_self ..)
  have hbeside : ∀ j, j ≠ srcid → j ≠ dstid → t.db j = s'.db j := by
    intro j hj hj'
    rw [ht]
    exact (setDb_db_ne _ _ hj).trans (setDb_db_ne _ _ hj')
  have hplain : (s'.db dstid).expires.lookup key = none := congrArg Prod.snd hfree
  have hnew : (t.db dstid).entry key = (some o, none) := by
    rw [hdst]
    exact Prod.ext (Finmap.lookup_insert _) hplain
  have hkept : ∀ k, k ≠ key → (t.db dstid).entry k = (s'.db dstid).entry k := by
    intro k hk
    rw [hdst]
    exact Prod.ext (Finmap.lookup_insert_of_ne _ hk) rfl
  have hiff : Exact s t srcid key dstid key now ↔ ((t.db dstid).entry key).2 = (s.db srcid).expires.lookup key := by
    refine exact_iff hpresent ho (fun j => ?_) (by rw [hsrc, entry_dbDelete_self]) (by rw [hnew]) fun j k hs hd => ?_
    · by_cases hj : j = srcid
      · rw [hj, hsrc]
        exact wf_dbDelete (hwf srcid) key
      · by_cases hj' : j = dstid
        · rw [hj']
          refine wf_iff.mpr fun k hk => ?_
          by_cases hkey : k = key
          · rw [hkey, hnew]
            exact Option.some_ne_none o
          · rw [hkept k hkey] at hk ⊢
            exact wf_iff.mp (hwf dstid) k hk
        · rw [hbeside j hj hj']
          exact hwf j
    · by_cases hj : j = srcid
      · subst hj
        have hk : k ≠ key := fun h => hs (by rw [h])
        rw [hsrc, entry_dbDelete_ne _ hk, hothers j k hd]
      · by_cases hj' : j = dstid
        · subst hj'
          have hk : k ≠ key := fun h => hd (by rw [h])
          rw [hkept k hk, hothers j k hd]
        · rw [hbeside j hj hj', hothers j k hd]
  rw [← ht]
  constructor
  · rintro ⟨s'', reply', heq, hexact⟩
    obtain ⟨rfl, -⟩ := Prod.mk.inj (Option.some.inj heq)
    have hexpire := hiff.mp hexact
    rw [hnew] at hexpire
    exact hexpire.symm
  · intro hnone
    refine ⟨_, _, rfl, hiff.mpr ?_⟩
    rw [hnew, hnone]

theorem move_exact_iff (s : Keyspace V) (srcid : Nat) (key id : Bytes) (now now' : Int) :
    MoveExact s srcid key id now now' ↔
      (Moves s.server srcid key id now now' → (s.server.db srcid).expires.lookup key = none) := by
  unfold MoveExact Moves moveCommand
  dsimp only
  cases hcluster : s.server.cluster_enabled with
  | true =>
    rw [if_pos rfl]
    refine iff_of_true ⟨_, _, rfl, exact_refl s.wf ..⟩ ?_
    rintro ⟨hno, -⟩
    cases hno
  | false =>
    rw [if_neg Bool.false_ne_true]
    by_cases hrange : Aof.atoi id < 0 ∨ Aof.atoi id ≥ s.server.dbnum
    · rw [if_pos hrange]
      refine iff_of_true ⟨_, _, rfl, exact_refl s.wf ..⟩ ?_
      rintro ⟨-, hmin, hmax, -⟩
      omega
    · rw [if_neg hrange]
      by_cases hself : Aof.atoi id = srcid
      · rw [if_pos hself]
        refine iff_of_true ⟨_, _, rfl, exact_refl s.wf ..⟩ ?_
        rintro ⟨-, -, -, hno, -⟩
        exact absurd hself hno
      · rw [if_neg hself]
        have hids : (Aof.atoi id).toNat ≠ srcid := by omega
        generalize hdst : (Aof.atoi id).toNat = dstid at hids ⊢
        rcases lookupKeyWrite_cases s.wf srcid key now with
          ⟨o, hpresent, ho, hlookup⟩ | ⟨s', hmissing, hlookup, -, hgone, hwf, hothers, hkept⟩
        · rw [hlookup, Option.bind_some]
          dsimp only
          rcases lookupKeyWrite_cases s.wf dstid key now' with
            ⟨old, hpresent', hold, hlookup'⟩ | ⟨s', hmissing', hlookup', -, hfree, hwf, hothers, -⟩
          · rw [hlookup', Option.bind_some]
            refine iff_of_true ⟨_, _, rfl, exact_refl s.wf ..⟩ ?_
            rintro ⟨-, -, -, -, -, hno⟩
            exact absurd hpresent' hno
          · have hnew : key ∉ (s'.db dstid).dict := fun hmem => mem_dict_iff.mp hmem (by rw [hfree])
            rw [hlookup', Option.bind_some]
            simp only [Option.isSome_none, Bool.false_eq_true, if_false, dbAdd, if_neg hnew, Option.map_some,
              setDb_db_ne _ _ hids.symm]
            refine (moved_iff hpresent ho hids hwf hothers hfree).trans ?_
            exact ⟨fun h _ => h, fun h => h ⟨trivial, by omega, by omega, hself, hpresent, hmissing'⟩⟩
        · rw [hlookup, Option.bind_some]
          refine iff_of_true ⟨_, _, rfl, hwf, Or.inl ⟨hothers, ?_⟩⟩ ?_
          · exact hkept.imp (fun h => h) fun hremoves => ⟨hremoves, hgone⟩
          · rintro ⟨-, -, -, -, hpresent, -⟩
            exact absurd hpresent hmissing

/-- RENAME and RENAMENX carry both halves of the entry over, but an expire time of -1; MOVE carries the value
only. -/
theorem entries_moved_iff :
    (∀ (s : Keyspace V) (dbid : Nat) (key newkey : Bytes) (nx : Bool) (now now' : Int),
      RenameExact s dbid key newkey nx now now' ↔
        (Renames s.server dbid key newkey nx now now' → (s.server.db dbid).expires.lookup key ≠ some (-1))) ∧
      ∀ (s : Keyspace V) (srcid : Nat) (key id : Bytes) (now now' : Int),
        MoveExact s srcid key id now now' ↔
          (Moves s.server srcid key id now now' → (s.server.db srcid).expires.lookup key = none) :=
  ⟨rename_exact_iff, move_exact_iff⟩

def oneTtl : Keyspace Nat where
  server :=
    { dbnum := 2, cluster_enabled := false, loading := false, masterhost := false, dirty := 0
      db := fun dbid =>
        if dbid = 0 then { dict := Finmap.singleton (ascii "k") 7, expires := Finmap.singleton (ascii "k") 5000 }
        else { dict := ∅, expires := ∅ } }
  wf := by
    intro dbid key hkey
    by_cases hdb : dbid = 0
    · simp only [if_pos hdb, Finmap.mem_singleton] at hkey ⊢
      exact hkey
    · simp only [if_neg hdb] at hkey
      exact absurd hkey Finmap.notMem_empty

/-- MOVE k 1 loses the TTL. -/
theorem moveTtl_inexact : ¬ MoveExact oneTtl 0 (ascii "k") (ascii "1") 1000 1000 := by
  rw [move_exact_iff]
  intro h
  have hid : Aof.atoi (ascii "1") = 1 := by decide
  have hwhen : (oneTtl.server.db 0).expires.lookup (ascii "k") = some 5000 := by decide
  have hmoves : Moves oneTtl.server 0 (ascii "k") (ascii "1") 1000 1000 := by
    refine ⟨rfl, by decide, by decide, by decide, ⟨by decide, ?_⟩, ?_⟩
    · rintro ⟨-, -, when, hkey, -, hlate⟩
      rw [hwhen] at hkey
      cases hkey
      omega
    · rw [hid]
      rintro ⟨hkey, -⟩
      exact absurd hkey Finmap.notMem_empty
  rw [h hmoves] at hwhen
  cases hwhen

end RedisCluster.Redisdb
