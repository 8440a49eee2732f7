import RedisCluster.Keyspace.Propagation

/-!
# Which deletions reach the replicas

Lookups, the active expire cycle and eviction delete a key only together with a DEL for it, and
whatever is executed after the DEL finds the same databases on a replica. `delKeysInSlot` deletes
without one.
-/

namespace RedisCluster.Keyspace

open RedisCluster.Util RedisCluster.Lib

variable {V : Type} {s t u : Server V}

def deleteFed (s : Server V) (d : Nat × Bytes) : Server V :=
  deleteKey (propagateExpire s d.1 d.2) d.1 d.2

def delEntry (d : Nat × Bytes) : Entry V := { dbid := d.1, cmd := delCommand d.2 }

@[simp] theorem deleteFed_slaves (s : Server V) (d : Nat × Bytes) :
    (deleteFed s d).slaves = s.slaves ++ [delEntry d] := by
  cases h : s.aof_state_on <;>
    simp [deleteFed, deleteKey, propagateExpire, replicationFeedSlaves, feedAppendOnlyFile, delEntry, h]

@[simp] theorem deleteFed_aof_state_on (s : Server V) (d : Nat × Bytes) :
    (deleteFed s d).aof_state_on = s.aof_state_on := by
  cases h : s.aof_state_on <;>
    simp [deleteFed, deleteKey, propagateExpire, replicationFeedSlaves, feedAppendOnlyFile, h]

theorem deleteFed_aof (h : s.aof_state_on = true) (d : Nat × Bytes) :
    (deleteFed s d).aof = s.aof ++ [delEntry d] := by
  simp [deleteFed, deleteKey, propagateExpire, replicationFeedSlaves, feedAppendOnlyFile, delEntry, h]

@[simp] theorem deleteFed_db (s : Server V) (d : Nat × Bytes) :
    (deleteFed s d).db = Function.update s.db d.1 (dbDelete (s.db d.1) d.2).1 := by
  cases h : s.aof_state_on <;>
    simp [deleteFed, deleteKey, propagateExpire, replicationFeedSlaves, feedAppendOnlyFile, h]

theorem deleteFed_gone {d : Nat × Bytes} {dbid : Nat} {key : Bytes}
    (hs : dbExists (s.db dbid) key = true) (ht : dbExists ((deleteFed s d).db dbid) key = false) :
    d = (dbid, key) := by
  obtain ⟨dbid', key'⟩ := d
  rw [deleteFed_db] at ht
  by_cases hi : dbid = dbid'
  · subst hi
    rw [Function.update_self] at ht
    by_cases hk : key = key'
    · rw [hk]
    · have hkeep : dbExists (dbDelete (s.db dbid) key').1 key = dbExists (s.db dbid) key := by
        simp [dbExists, dbDelete, Function.update_of_ne hk]
      rw [hkeep, hs] at ht
      cases ht
  · rw [Function.update_of_ne hi, hs] at ht
    cases ht

def Present (s : Server V) (d : Nat × Bytes) : Prop := dbExists (s.db d.1) d.2 = true

def DeletesFed (s t : Server V) : Prop :=
  ∃ ds, RunMeets deleteFed Present s ds ∧ t = run deleteFed s ds

theorem DeletesFed.refl (s : Server V) : DeletesFed s s := ⟨[], trivial, rfl⟩

theorem DeletesFed.one {d : Nat × Bytes} (h : Present s d) : DeletesFed s (deleteFed s d) :=
  ⟨[d], ⟨h, trivial⟩, rfl⟩

theorem DeletesFed.trans (h1 : DeletesFed s t) (h2 : DeletesFed t u) : DeletesFed s u := by
  obtain ⟨ds, hds, rfl⟩ := h1
  obtain ⟨es, hes, rfl⟩ := h2
  exact ⟨ds ++ es, hds.append hes, (run_append deleteFed s ds es).symm⟩

theorem present_of_expire {dbid : Nat} {key : Bytes} {t : Int}
    (h : ((s.db dbid).dict key).bind Keyed.expire = some t) : Present s (dbid, key) := by
  show (((s.db dbid).dict key).isSome) = true
  cases hk : (s.db dbid).dict key with
  | none =>
    rw [hk] at h
    cases h
  | some e => rfl

theorem expireIfNeeded_deletes (s : Server V) (dbid : Nat) (key : Bytes) (now : Int) :
    DeletesFed s (expireIfNeeded s dbid key now).1 := by
  unfold expireIfNeeded
  by_cases hwhen : getExpire (s.db dbid) key < 0
  · rw [if_pos hwhen]
    exact DeletesFed.refl s
  · rw [if_neg hwhen]
    have hpresent : Present s (dbid, key) := by
      cases he : ((s.db dbid).dict key).bind Keyed.expire with
      | none =>
        rw [getExpire, he] at hwhen
        exact absurd (by decide) hwhen
      | some t => exact present_of_expire he
    cases s.loading
    · cases s.masterhost
      · by_cases hnow : now ≤ getExpire (s.db dbid) key
        · simp only [if_pos hnow, Bool.false_eq_true, if_false]
          exact DeletesFed.refl s
        · simp only [if_neg hnow, Bool.false_eq_true, if_false]
          exact DeletesFed.one hpresent
      · exact DeletesFed.refl s
    · exact DeletesFed.refl s

theorem tryExpire_deletes (s : Server V) (dbid : Nat) (key : Bytes) (now : Int) :
    DeletesFed s (activeExpireCycleTryExpire s dbid key now).1 := by
  unfold activeExpireCycleTryExpire
  cases he : ((s.db dbid).dict key).bind Keyed.expire with
  | none => exact DeletesFed.refl s
  | some t =>
    by_cases hnow : now > t
    · simp only [if_pos hnow]
      exact DeletesFed.one (present_of_expire he)
    · simp only [if_neg hnow]
      exact DeletesFed.refl s

theorem evict_deletes (s : Server V) (dbid : Nat) (key : Bytes) :
    DeletesFed s (freeMemoryEvict s dbid key) := by
  unfold freeMemoryEvict
  by_cases hk : dbExists (s.db dbid) key = true
  · rw [if_pos hk]
    exact DeletesFed.one (d := (dbid, key)) hk
  · rw [if_neg hk]
    exact DeletesFed.refl s

theorem lookups_deletes (s : Server V) (ls : List Lookup) : DeletesFed s (run lookupStep s ls) :=
  run_inv_always (P := DeletesFed s)
    (fun _ l h => h.trans (expireIfNeeded_deletes _ l.dbid l.key l.now)) (DeletesFed.refl s) ls

theorem deletesFed_slaves (ds : List (Nat × Bytes)) (s : Server V) :
    (run deleteFed s ds).slaves = s.slaves ++ ds.map delEntry := by
  induction ds generalizing s with
  | nil => simp
  | cons d ds ih => rw [run_cons, ih, deleteFed_slaves, List.append_assoc]; rfl

theorem deletesFed_aof (ds : List (Nat × Bytes)) {s : Server V} (h : s.aof_state_on = true) :
    (run deleteFed s ds).aof = s.aof ++ ds.map delEntry := by
  induction ds generalizing s with
  | nil => simp
  | cons d ds ih =>
    have hd : (deleteFed s d).aof_state_on = true := by rw [deleteFed_aof_state_on, h]
    rw [run_cons, ih hd, deleteFed_aof h, List.append_assoc]
    rfl

theorem deletesFed_gone (ds : List (Nat × Bytes)) {s : Server V} {dbid : Nat} {key : Bytes}
    (hs : dbExists (s.db dbid) key = true)
    (ht : dbExists ((run deleteFed s ds).db dbid) key = false) : (dbid, key) ∈ ds := by
  induction ds generalizing s with
  | nil =>
    rw [run_nil, hs] at ht
    cases ht
  | cons d ds ih =>
    rw [run_cons] at ht
    cases hd : dbExists ((deleteFed s d).db dbid) key with
    | true => exact List.mem_cons_of_mem d (ih hd ht)
    | false =>
      rw [deleteFed_gone hs hd]
      exact List.mem_cons_self

theorem DeletesFed.fedBetween (h : DeletesFed s t) : FedBetween s t := by
  obtain ⟨ds, -, rfl⟩ := h
  intro dbid key hs ht
  have hmem : (⟨dbid, delCommand key⟩ : Entry V) ∈ ds.map delEntry :=
    List.mem_map_of_mem (f := delEntry) (deletesFed_gone ds hs ht)
  constructor
  · exact ⟨ds.map delEntry, deletesFed_slaves ds s, hmem⟩
  · intro haof
    exact ⟨ds.map delEntry, deletesFed_aof ds haof, hmem⟩

theorem lookupStep_replica (h : s.masterhost = true) (l : Lookup) : lookupStep s l = s := by
  simp only [lookupStep, expireIfNeeded, h, if_true]
  by_cases hwhen : getExpire (s.db l.dbid) l.key < 0
  · rw [if_pos hwhen]
  · rw [if_neg hwhen]
    cases s.loading <;> rfl

theorem lookups_replica (h : s.masterhost = true) (ls : List Lookup) : run lookupStep s ls = s := by
  induction ls with
  | nil => rfl
  | cons l ls ih => rw [run_cons, lookupStep_replica h, ih]

theorem callProc_db (s : Server V) (dbid : Nat) (cmd : Command V) :
    (callProc s dbid cmd).db = (cmd.proc dbid s.db).1 := by
  unfold callProc propagate replicationFeedSlaves feedAppendOnlyFile
  by_cases h0 : (cmd.proc dbid s.db).2 ≠ 0
  · cases s.aof_state_on <;> simp [h0]
  · simp [h0]

theorem callProc_masterhost (s : Server V) (dbid : Nat) (cmd : Command V) :
    (callProc s dbid cmd).masterhost = s.masterhost := by
  unfold callProc propagate replicationFeedSlaves feedAppendOnlyFile
  by_cases h0 : (cmd.proc dbid s.db).2 ≠ 0
  · cases s.aof_state_on <;> simp [h0]
  · simp [h0]

theorem replay_append (r : Server V) (es fs : List (Entry V × List Lookup)) :
    replay r (es ++ fs) = replay (replay r es) fs := run_append ..

theorem replay_masterhost (es : List (Entry V × List Lookup)) {r : Server V}
    (h : r.masterhost = true) : (replay r es).masterhost = true :=
  run_inv_always (P := fun r : Server V => r.masterhost = true)
    (fun r e hr => by rw [call, lookups_replica hr, callProc_masterhost, hr]) h es

theorem replay_one {r : Server V} (h : r.masterhost = true) (e : Entry V) (ls : List Lookup) :
    (replay r [(e, ls)]).db = (e.cmd.proc e.dbid r.db).1 := by
  show (call r e.dbid ls e.cmd).db = _
  rw [call, lookups_replica h, callProc_db]

theorem InSync.refl (s : Server V) : InSync s s := by
  refine ⟨[], (List.append_nil _).symm, fun r _ hdb rs hrs => ?_⟩
  rw [List.map_eq_nil_iff.mp hrs]
  exact hdb

theorem InSync.trans (h1 : InSync s t) (h2 : InSync t u) : InSync s u := by
  obtain ⟨es, hes, hrep1⟩ := h1
  obtain ⟨fs, hfs, hrep2⟩ := h2
  refine ⟨es ++ fs, by rw [hfs, hes, List.append_assoc], fun r hr hdb rs hrs => ?_⟩
  obtain ⟨rs1, rs2, rfl, hrs1, hrs2⟩ := List.map_eq_append_iff.mp hrs
  rw [replay_append]
  exact hrep2 _ (replay_masterhost rs1 hr) (hrep1 r hr hdb rs1 hrs1) rs2 hrs2

theorem InSync.fed (e : Entry V) (hslaves : t.slaves = s.slaves ++ [e])
    (hdb : t.db = (e.cmd.proc e.dbid s.db).1) : InSync s t := by
  refine ⟨[e], hslaves, fun r hr hrdb rs hrs => ?_⟩
  obtain ⟨⟨e', ls⟩, rfl, rfl⟩ := List.map_eq_singleton_iff.mp hrs
  rw [replay_one hr, hrdb, hdb]

theorem InSync.same (hslaves : t.slaves = s.slaves) (hdb : t.db = s.db) : InSync s t := by
  refine ⟨[], by rw [hslaves, List.append_nil], fun r _ hrdb rs hrs => ?_⟩
  rw [List.map_eq_nil_iff.mp hrs, hdb]
  exact hrdb

theorem deleteFed_inSync {d : Nat × Bytes} (h : Present s d) : InSync s (deleteFed s d) := by
  refine InSync.fed (delEntry d) (deleteFed_slaves s d) ?_
  rw [deleteFed_db]
  show _ = (delKey d.2 d.1 s.db).1
  have hexists : dbExists (s.db d.1) d.2 = true := h
  rw [delKey, if_pos hexists]

theorem DeletesFed.inSync (h : DeletesFed s t) : InSync s t := by
  obtain ⟨ds, hds, rfl⟩ := h
  exact run_inv (P := InSync s) (fun _ _ hsync hpresent => hsync.trans (deleteFed_inSync hpresent))
    (InSync.refl s) hds

theorem callProc_inSync (s : Server V) (dbid : Nat) (cmd : Command V) :
    InSync s (callProc s dbid cmd) := by
  by_cases h0 : (cmd.proc dbid s.db).2 = 0
  · apply InSync.same
    · simp [callProc, h0]
    · rw [callProc_db]
      exact cmd.clean dbid s.db h0
  · apply InSync.fed { dbid := dbid, cmd := cmd }
    · unfold callProc propagate replicationFeedSlaves feedAppendOnlyFile
      cases s.aof_state_on <;> simp [h0]
    · exact callProc_db s dbid cmd

theorem delKeysInSlot_empty {hashslot : Nat} (h : SlotEmpty s (.delSlot hashslot)) :
    delKeysInSlot s hashslot = s := by
  have hdb : (delKeysInSlot s hashslot).db = s.db := by
    show Function.update s.db 0 _ = s.db
    rw [Function.update_eq_self_iff]
    show (⟨_⟩ : Db V) = ⟨(s.db 0).dict⟩
    congr 1
    funext key
    by_cases hk : Multi.keyHashSlot key = hashslot
    · rw [if_pos hk]
      exact (Option.not_isSome_iff_eq_none.mp (by rw [show ((s.db 0).dict key).isSome = false from h key hk]; decide)).symm
    · rw [if_neg hk]
  show { s with db := (delKeysInSlot s hashslot).db } = s
  rw [hdb]

theorem slotEmpty_of_fed {hashslot : Nat} (h : FedBetween s (delKeysInSlot s hashslot)) :
    SlotEmpty s (.delSlot hashslot) := by
  intro key hkey
  cases hs : dbExists (s.db 0) key with
  | false => rfl
  | true =>
    have ht : dbExists ((delKeysInSlot s hashslot).db 0) key = false := by
      simp [delKeysInSlot, dbExists, hkey]
    obtain ⟨es, hes, hmem⟩ := (h 0 key hs ht).1
    have hnil : es = [] := List.self_eq_append_right.mp hes
    rw [hnil] at hmem
    cases hmem

theorem unasked_fed_iff (s : Server V) (a : Action V) :
    FedBetween s (unasked s a) ↔ SlotEmpty s a := by
  cases a with
  | call dbid lookups cmd =>
    exact iff_of_true (lookups_deletes s lookups).fedBetween trivial
  | tryExpire dbid key now =>
    exact iff_of_true (tryExpire_deletes s dbid key now).fedBetween trivial
  | evict dbid bestkey => exact iff_of_true (evict_deletes s dbid bestkey).fedBetween trivial
  | appendOnly on =>
    refine iff_of_true (fun dbid key hs ht => ?_) trivial
    rw [show (unasked s (.appendOnly on)).db = s.db from rfl, hs] at ht
    cases ht
  | delSlot hashslot =>
    constructor
    · exact slotEmpty_of_fed
    · intro h
      show FedBetween s (delKeysInSlot s hashslot)
      rw [delKeysInSlot_empty h]
      exact (DeletesFed.refl s).fedBetween

theorem act_inSync (s : Server V) {a : Action V} (h : SlotEmpty s a) : InSync s (act s a) := by
  cases a with
  | call dbid lookups cmd => exact (lookups_deletes s lookups).inSync.trans (callProc_inSync _ dbid cmd)
  | tryExpire dbid key now => exact (tryExpire_deletes s dbid key now).inSync
  | evict dbid bestkey => exact (evict_deletes s dbid bestkey).inSync
  | appendOnly on => exact InSync.same rfl rfl
  | delSlot hashslot =>
    show InSync s (delKeysInSlot s hashslot)
    rw [delKeysInSlot_empty h]
    exact InSync.refl s

/-- **Deletions that no command asked for are propagated** in exactly the runs in which no slot with
keys is deleted. -/
theorem deletions_propagated_iff (s₀ : Server V) (as : List (Action V)) :
    PropagatesDeletions s₀ as ↔ RunMeets act SlotEmpty s₀ as := by
  have hok : (fun (s : Server V) (a : Action V) => FedBetween s (unasked s a)) = SlotEmpty := by
    funext s a
    exact propext (unasked_fed_iff s a)
  unfold PropagatesDeletions
  rw [hok]
  constructor
  · exact And.left
  · intro h
    refine ⟨h, fun bs hbs => ?_⟩
    exact run_inv (P := InSync s₀) (fun s a hsync ha => hsync.trans (act_inSync s ha)) (InSync.refl s₀)
      (h.initial hbs)

def fooServer : Server Unit where
  db := fun _ => dbAdd emptyDb (ascii "foo") ()
  masterhost := false
  loading := false
  aof_state_on := true
  aof := []
  slaves := []

/-- The slot 12182 of `foo` goes to another node. -/
theorem slot_deletion_not_fed : ¬ PropagatesDeletions fooServer [.delSlot 12182] := by
  intro h
  have hempty : SlotEmpty fooServer (.delSlot 12182) := (unasked_fed_iff _ _).mp h.1.1
  have hfoo : dbExists (fooServer.db 0) (ascii "foo") = false :=
    hempty (ascii "foo") (by decide +kernel)
  revert hfoo
  decide

end RedisCluster.Keyspace
