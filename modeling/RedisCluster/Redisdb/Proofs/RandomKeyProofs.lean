import RedisCluster.Redisdb.Proofs.RenameProofs

/-!
# Proofs: RANDOMKEY

A turn of the loop that goes on has found a key that is past its time. Where lookups delete such keys the
dict gets smaller with each turn; where they only refuse them, the same key may be found for ever.
-/

namespace RedisCluster.Redisdb

open RedisCluster.Util

variable {V : Type} {dbid : Nat}

theorem exists_mem {d : Dict V} (h : d ≠ ∅) : ∃ key, key ∈ d := by
  by_contra hno
  refine h (Finmap.ext_lookup fun key => ?_)
  rw [Finmap.lookup_empty]
  exact Finmap.lookup_eq_none.mpr fun hkey => hno ⟨key, hkey⟩

theorem exists_choices (key : Bytes) : ∃ choices : Choices V, ∀ i d, key ∈ d → choices.key i d = some key := by
  classical
  refine ⟨{ key := fun _ d => if key ∈ d then some key else if h : d ≠ ∅ then some (exists_mem h).choose else none
            key_none := fun _ d => ?_, key_mem := fun _ d k hk => ?_ }, fun _ d hd => if_pos hd⟩
  · by_cases hkey : key ∈ d
    · rw [if_pos hkey]
      refine iff_of_false (Option.some_ne_none key) ?_
      rintro rfl
      exact Finmap.notMem_empty hkey
    · rw [if_neg hkey]
      by_cases hd : d ≠ ∅
      · rw [dif_pos hd]
        exact iff_of_false (Option.some_ne_none _) hd
      · rw [dif_neg hd]
        exact iff_of_true rfl (not_not.mp hd)
  · by_cases hkey : key ∈ d
    · rw [if_pos hkey] at hk
      exact Option.some.inj hk ▸ hkey
    · rw [if_neg hkey] at hk
      by_cases hd : d ≠ ∅
      · rw [dif_pos hd] at hk
        exact Option.some.inj hk ▸ (exists_mem hd).choose_spec
      · rw [dif_neg hd] at hk
        cases hk

def RandomKeyRight (s : Keyspace V) (clock : Clock) (dbid : Nat) : Prop :=
  ∀ choices : Choices V, ∃ fuel s' found i, dbRandomKey choices clock dbid fuel s.server = some (s', found, i) ∧
    match found with
    | some key => key ∈ (s.server.db dbid).dict ∧ ¬ Past (s.server.db dbid) key (clock.now i)
    | none => ∀ key, key ∈ (s.server.db dbid).dict → Past (s.server.db dbid) key (clock.now i)

def RandomKeyCondition (s : Server V) (clock : Clock) (dbid : Nat) : Prop :=
  (∀ key, key ∈ (s.db dbid).dict → ¬ Past (s.db dbid) key (clock.now 0)) ∨
    (s.loading = false ∧ s.masterhost = false ∧
      ∀ key when, (s.db dbid).expires.lookup key = some when → 0 ≤ when)

theorem randomKeyLoop_keeps {s : Server V} (h : (s.db dbid).WF) (choices : Choices V) (clock : Clock) {i : Nat}
    {key : Bytes} (hkey : choices.key i (s.db dbid).dict = some key)
    (hkeeps : ¬ ∃ when, (s.db dbid).expires.lookup key = some when ∧ 0 ≤ when ∧ when < clock.now i ∧
      s.loading = false) (fuel : Nat) :
    randomKeyLoop choices clock dbid (fuel + 1) i s = some (s, some key, i) := by
  rw [randomKeyLoop, hkey]
  dsimp only
  have hnot : ¬ Removes s dbid key (clock.now i) := by
    rintro ⟨hloading, -, when, hwhen, hnonneg, hlate⟩
    exact hkeeps ⟨when, hwhen, hnonneg, hlate, hloading⟩
  have hfalse : decide (s.loading = false ∧ s.masterhost = true ∧
      ∃ when, (s.db dbid).expires.lookup key = some when ∧ 0 ≤ when ∧ when < clock.now i) = false := by
    refine decide_eq_false ?_
    rintro ⟨hloading, -, when, hwhen, hnonneg, hlate⟩
    exact hkeeps ⟨when, hwhen, hnonneg, hlate, hloading⟩
  rw [expireIfNeeded_keeps h hnot, hfalse]
  exact ite_self _

theorem randomKeyLoop_removes {s : Server V} (h : (s.db dbid).WF) (choices : Choices V) (clock : Clock) {i : Nat}
    {key : Bytes} (hkey : choices.key i (s.db dbid).dict = some key) (hremoves : Removes s dbid key (clock.now i))
    (fuel : Nat) : randomKeyLoop choices clock dbid (fuel + 1) i s =
      randomKeyLoop choices clock dbid fuel (i + 1) (s.setDb dbid (dbDelete (s.db dbid) key).1) := by
  obtain ⟨-, -, when, hwhen, -, -⟩ := id hremoves
  rw [randomKeyLoop, hkey]
  dsimp only
  rw [if_pos (Finmap.mem_iff.mpr ⟨when, hwhen⟩), expireIfNeeded_removes h hremoves]

theorem randomKeyLoop_master {db₀ : RedisDb V} (choices : Choices V) (clock : Clock)
    (htimes : ∀ key when, db₀.expires.lookup key = some when → 0 ≤ when) (n : Nat) :
    ∀ (s : Server V) (i : Nat), (s.db dbid).WF → s.loading = false → s.masterhost = false →
      (s.db dbid).dict.keys.card ≤ n →
      (∀ key, key ∈ (s.db dbid).dict → key ∈ db₀.dict ∧ (s.db dbid).expires.lookup key = db₀.expires.lookup key) →
      (∀ key, key ∈ db₀.dict → key ∉ (s.db dbid).dict → Past db₀ key (clock.now i)) →
      ∃ fuel s' found j, randomKeyLoop choices clock dbid fuel i s = some (s', found, j) ∧
        match found with
        | some key => key ∈ db₀.dict ∧ ¬ Past db₀ key (clock.now j)
        | none => ∀ key, key ∈ db₀.dict → Past db₀ key (clock.now j) := by
  induction n with
  | zero =>
    intro s i _ _ _ hcard _ hgone
    have hempty : (s.db dbid).dict = ∅ := by
      by_contra hno
      obtain ⟨key, hkey⟩ := exists_mem hno
      have hpos := Finset.card_pos.mpr ⟨key, Finmap.mem_keys.mpr hkey⟩
      omega
    refine ⟨1, s, none, i, ?_, fun key hkey => hgone key hkey ?_⟩
    · rw [randomKeyLoop, (choices.key_none i _).mpr hempty]
    · rw [hempty]
      exact Finmap.notMem_empty
  | succ n ih =>
    intro s i hwf hloading hmaster hcard hsame hgone
    cases hchoice : choices.key i (s.db dbid).dict with
    | none =>
      have hempty := (choices.key_none i _).mp hchoice
      refine ⟨1, s, none, i, ?_, fun key hkey => hgone key hkey ?_⟩
      · rw [randomKeyLoop, hchoice]
      · rw [hempty]
        exact Finmap.notMem_empty
    | some key =>
      have hmem := choices.key_mem i _ key hchoice
      obtain ⟨hmem₀, hexpires⟩ := hsame key hmem
      by_cases hpast : Past db₀ key (clock.now i)
      · obtain ⟨when, hwhen, hlate⟩ := hpast
        have hremoves : Removes s dbid key (clock.now i) :=
          ⟨hloading, hmaster, when, hexpires.trans hwhen, htimes key when hwhen, hlate⟩
        have hcard' : ((s.setDb dbid (dbDelete (s.db dbid) key).1).db dbid).dict.keys.card ≤ n := by
          rw [setDb_db_self]
          show ((s.db dbid).dict.erase key).keys.card ≤ n
          rw [Finmap.keys_erase, Finset.card_erase_of_mem (Finmap.mem_keys.mpr hmem)]
          omega
        have hsame' : ∀ k, k ∈ ((s.setDb dbid (dbDelete (s.db dbid) key).1).db dbid).dict → k ∈ db₀.dict ∧
            ((s.setDb dbid (dbDelete (s.db dbid) key).1).db dbid).expires.lookup k = db₀.expires.lookup k := by
          intro k hk
          rw [setDb_db_self] at hk ⊢
          obtain ⟨hne, hk⟩ := Finmap.mem_erase.mp hk
          obtain ⟨hk₀, hkexpires⟩ := hsame k hk
          exact ⟨hk₀, (Finmap.lookup_erase_ne hne).trans hkexpires⟩
        have hgone' : ∀ k, k ∈ db₀.dict → k ∉ ((s.setDb dbid (dbDelete (s.db dbid) key).1).db dbid).dict →
            Past db₀ k (clock.now (i + 1)) := by
          intro k hk₀ hk
          rw [setDb_db_self] at hk
          have hlater : clock.now i ≤ clock.now (i + 1) := clock.mono i (i + 1) (Nat.le_succ i)
          by_cases hkey : k = key
          · rw [hkey]
            exact ⟨when, hwhen, hlate.trans_le hlater⟩
          · obtain ⟨when', hwhen', hlate'⟩ := hgone k hk₀ fun hmem => hk (Finmap.mem_erase.mpr ⟨hkey, hmem⟩)
            exact ⟨when', hwhen', hlate'.trans_le hlater⟩
        obtain ⟨fuel, s', found, j, hrun, hfound⟩ := ih (s.setDb dbid (dbDelete (s.db dbid) key).1) (i + 1)
          (by rw [setDb_db_self]; exact wf_dbDelete hwf key) hloading hmaster hcard' hsame' hgone'
        exact ⟨fuel + 1, s', found, j, (randomKeyLoop_removes hwf choices clock hchoice hremoves fuel).trans hrun,
          hfound⟩
      · refine ⟨1, s, some key, i, randomKeyLoop_keeps hwf choices clock hchoice ?_ 0, hmem₀, hpast⟩
        rintro ⟨when, hwhen, -, hlate, -⟩
        exact hpast ⟨when, hexpires.symm.trans hwhen, hlate⟩

theorem randomKeyLoop_forever {s : Server V} (h : (s.db dbid).WF) {choices : Choices V} (clock : Clock)
    {key : Bytes} (hkey : ∀ i d, key ∈ d → choices.key i d = some key) (hloading : s.loading = false)
    (hmaster : s.masterhost = true) {when : Int} (hwhen : (s.db dbid).expires.lookup key = some when)
    (hnonneg : 0 ≤ when) (hlate : when < clock.now 0) (fuel i : Nat) :
    randomKeyLoop choices clock dbid fuel i s = none := by
  induction fuel generalizing i with
  | zero => rfl
  | succ fuel ih =>
    have hexpires : key ∈ (s.db dbid).expires := Finmap.mem_iff.mpr ⟨when, hwhen⟩
    have hnot : ¬ Removes s dbid key (clock.now i) := by
      rintro ⟨-, hno, -⟩
      rw [hmaster] at hno
      cases hno
    have htrue : decide (s.loading = false ∧ s.masterhost = true ∧
        ∃ when, (s.db dbid).expires.lookup key = some when ∧ 0 ≤ when ∧ when < clock.now i) = true :=
      decide_eq_true ⟨hloading, hmaster, when, hwhen, hnonneg, hlate.trans_le (clock.mono 0 i (Nat.zero_le i))⟩
    rw [randomKeyLoop, hkey i _ (h key hexpires)]
    dsimp only
    rw [if_pos hexpires, expireIfNeeded_keeps h hnot, htrue]
    exact ih (i + 1)

theorem condition_of_right {s : Keyspace V} {clock : Clock} {dbid : Nat} (hright : RandomKeyRight s clock dbid) :
    RandomKeyCondition s.server clock dbid := by
  have hwf := s.wf dbid
  by_contra hcondition
  obtain ⟨hsome, hrest⟩ := not_or.mp hcondition
  push Not at hsome
  obtain ⟨key, hkey, when, hwhen, hlate⟩ := hsome
  -- a key past its time that the first turn returns
  have hreturned : ∀ k t, (s.server.db dbid).expires.lookup k = some t → t < clock.now 0 →
      (t < 0 ∨ s.server.loading = true) → False := by
    intro k t ht hpast hcase
    obtain ⟨choices, hchoices⟩ := exists_choices (V := V) k
    obtain ⟨fuel, s', found, i, hrun, hfound⟩ := hright choices
    have hmem := hwf k (Finmap.mem_iff.mpr ⟨t, ht⟩)
    cases fuel with
    | zero => cases hrun
    | succ fuel =>
      have hloop := randomKeyLoop_keeps hwf choices clock (hchoices 0 _ hmem) (by
        rintro ⟨t', ht', hnonneg, -, hloading⟩
        rw [ht] at ht'
        cases ht'
        rcases hcase with hneg | hload
        · omega
        · rw [hload] at hloading
          cases hloading) fuel
      rw [dbRandomKey, hloop] at hrun
      cases hrun
      exact hfound.2 ⟨t, ht, hpast⟩
  cases hloading : s.server.loading with
  | true => exact hreturned key when hwhen hlate (Or.inr hloading)
  | false =>
    by_cases hneg : when < 0
    · exact hreturned key when hwhen hlate (Or.inl hneg)
    · cases hmaster : s.server.masterhost with
      | true =>
        obtain ⟨choices, hchoices⟩ := exists_choices (V := V) key
        obtain ⟨fuel, s', found, i, hrun, -⟩ := hright choices
        rw [dbRandomKey, randomKeyLoop_forever hwf clock hchoices hloading hmaster hwhen (not_lt.mp hneg) hlate] at hrun
        cases hrun
      | false =>
        refine hrest ⟨hloading, hmaster, fun k t ht => ?_⟩
        by_contra hneg'
        have hnonneg := clock.nonneg
        exact hreturned k t ht (by omega) (Or.inl (by omega))

theorem randomKey_right_iff (s : Keyspace V) (clock : Clock) (dbid : Nat) :
    RandomKeyRight s clock dbid ↔ RandomKeyCondition s.server clock dbid := by
  have hwf := s.wf dbid
  constructor
  · exact condition_of_right
  · rintro (hnone | ⟨hloading, hmaster, htimes⟩) choices
    · cases hchoice : choices.key 0 (s.server.db dbid).dict with
      | none =>
        have hempty := (choices.key_none 0 _).mp hchoice
        refine ⟨1, s.server, none, 0, ?_, fun key hkey => ?_⟩
        · rw [dbRandomKey, randomKeyLoop, hchoice]
        · rw [hempty] at hkey
          exact absurd hkey Finmap.notMem_empty
      | some key =>
        have hmem := choices.key_mem 0 _ key hchoice
        refine ⟨1, s.server, some key, 0, randomKeyLoop_keeps hwf choices clock hchoice ?_ 0, hmem, hnone key hmem⟩
        rintro ⟨when, hwhen, -, hlate, -⟩
        exact hnone key hmem ⟨when, hwhen, hlate⟩
    · exact randomKeyLoop_master choices clock htimes _ s.server 0 hwf hloading hmaster le_rfl
        (fun key hkey => ⟨hkey, rfl⟩) fun key hkey hno => absurd hkey hno

def expiredOnSlave : Keyspace Nat where
  server :=
    { dbnum := 1, cluster_enabled := false, loading := false, masterhost := true, dirty := 0
      db := fun _ => { dict := Finmap.singleton (ascii "k") 7, expires := Finmap.singleton (ascii "k") 5000 } }
  wf := by
    intro dbid key hkey
    simp only [Finmap.mem_singleton] at hkey ⊢
    exact hkey

def atSix : Clock := { now := fun _ => 6000, mono := fun _ _ _ => le_rfl, nonneg := by decide }

theorem expiredOnSlave_loops : ¬ RandomKeyRight expiredOnSlave atSix 0 := by
  intro hright
  rcases condition_of_right hright with hnone | ⟨-, hmaster, -⟩
  · exact hnone (ascii "k") (by decide) ⟨5000, by decide, by decide⟩
  · cases hmaster

end RedisCluster.Redisdb
