import RedisCluster.Keyspace.Rewriting
import RedisCluster.Keyspace.Proofs.PropagationProofs

/-!
# Rewritten commands on a replica

The propagated form changes the databases as the command did, except that SET and the pair RPOP and
LPUSH make a new key without the expire time that the master keeps.
-/

namespace RedisCluster.Keyspace

open RedisCluster.Util RedisCluster.Lib

variable {ζ V : Type} {s t u : Server V}

def applied (es : List (Entry V)) (dbs : Nat → Db V) : Nat → Db V :=
  es.foldl (fun dbs e => (e.cmd.proc e.dbid dbs).1) dbs

theorem applied_append (es fs : List (Entry V)) (dbs : Nat → Db V) :
    applied (es ++ fs) dbs = applied fs (applied es dbs) := List.foldl_append

theorem replay_db (rs : List (Entry V × List Lookup)) {r : Server V} (h : r.masterhost = true) :
    (replay r rs).db = applied (rs.map Prod.fst) r.db := by
  induction rs generalizing r with
  | nil => rfl
  | cons e rs ih =>
    have hr : (replay r [e]).masterhost = true := replay_masterhost [e] h
    have hdb : (replay r [e]).db = (e.1.cmd.proc e.1.dbid r.db).1 := replay_one h e.1 e.2
    show (replay (replay r [e]) rs).db = _
    rw [ih hr, hdb]
    rfl

theorem inSync_iff {es : List (Entry V)} (hes : t.slaves = s.slaves ++ es) :
    InSync s t ↔ applied es s.db = t.db := by
  constructor
  · rintro ⟨fs, hfs, hrep⟩
    have hsame : fs = es := List.append_cancel_left (hfs.symm.trans hes)
    subst hsame
    have h := hrep { s with masterhost := true } rfl rfl (fs.map fun e => (e, []))
      (by rw [List.map_map]; exact List.map_id fs)
    rw [replay_db _ rfl, List.map_map] at h
    rw [← h]
    simp [Function.comp_def]
  · intro h
    refine ⟨es, hes, fun r hr hdb rs hrs => ?_⟩
    rw [replay_db rs hr, hrs, hdb, h]

theorem InSync.after (h : InSync s t) {es : List (Entry V)} (hes : u.slaves = t.slaves ++ es) :
    InSync s u ↔ InSync t u := by
  have h' := h
  obtain ⟨fs, hfs, -⟩ := h'
  rw [inSync_iff hfs] at h
  have hall : u.slaves = s.slaves ++ (fs ++ es) := by rw [hes, hfs, List.append_assoc]
  rw [inSync_iff hes, inSync_iff hall, applied_append, h]

@[simp] theorem propagate_slaves (s : Server V) (e : Entry V) :
    (propagate s e).slaves = s.slaves ++ [e] := by
  unfold propagate replicationFeedSlaves feedAppendOnlyFile
  cases s.aof_state_on <;> rfl

@[simp] theorem propagate_db (s : Server V) (e : Entry V) : (propagate s e).db = s.db := by
  unfold propagate replicationFeedSlaves feedAppendOnlyFile
  cases s.aof_state_on <;> rfl

@[simp] theorem propagate_loading (s : Server V) (e : Entry V) :
    (propagate s e).loading = s.loading := by
  unfold propagate replicationFeedSlaves feedAppendOnlyFile
  cases s.aof_state_on <;> rfl

@[simp] theorem propagate_masterhost (s : Server V) (e : Entry V) :
    (propagate s e).masterhost = s.masterhost := by
  unfold propagate replicationFeedSlaves feedAppendOnlyFile
  cases s.aof_state_on <;> rfl

theorem commit_slaves (s : Server V) (dbid : Nat) (db : Db V) (cmd : Command V) :
    (commit s dbid db cmd).slaves = s.slaves ++ [{ dbid := dbid, cmd := cmd }] :=
  propagate_slaves ..

@[simp] theorem commit_db (s : Server V) (dbid : Nat) (db : Db V) (cmd : Command V) :
    (commit s dbid db cmd).db = Function.update s.db dbid db := propagate_db ..

theorem commit_inSync_iff (h : InSync s t) (dbid : Nat) (db : Db V) (argv : List Bytes)
    (f : Db V → Db V × Nat) (clean : ∀ db, (f db).2 = 0 → (f db).1 = db) :
    InSync s (commit t dbid db (Command.onDb argv f clean)) ↔ (f (t.db dbid)).1 = db := by
  rw [h.after (commit_slaves ..), inSync_iff (commit_slaves ..), commit_db]
  show Function.update t.db dbid (f (t.db dbid)).1 = _ ↔ _
  constructor
  · intro heq
    have h := congrFun heq dbid
    rwa [Function.update_self, Function.update_self] at h
  · intro heq
    rw [heq]

theorem looked_cases (s : Server V) (dbid : Nat) (key : Bytes) (now : Int) :
    (looked s dbid key now = s ∧ liveEntry s dbid key now = (s.db dbid).dict key) ∨
      (looked s dbid key now = deleteFed s (dbid, key) ∧ liveEntry s dbid key now = none ∧
        Present s (dbid, key)) := by
  unfold looked expireIfNeeded liveEntry getExpire
  cases hk : (s.db dbid).dict key with
  | none => exact Or.inl ⟨rfl, rfl⟩
  | some e =>
    cases he : e.expire with
    | none => exact Or.inl ⟨by simp [he], by simp [he]⟩
    | some t =>
      have hpresent : Present s (dbid, key) := by
        show dbExists (s.db dbid) key = true
        rw [dbExists, hk]
        rfl
      simp only [Option.bind_some, he, Option.getD_some]
      by_cases hexp : 0 ≤ t ∧ t < now ∧ s.loading = false ∧ s.masterhost = false
      · obtain ⟨h0, hnow, hload, hmaster⟩ := hexp
        right
        simp only [h0, hnow, hload, hmaster, and_self, if_true, hpresent, and_true]
        rw [if_neg (by omega), if_neg (by simp), if_neg (by simp), if_neg (by omega)]
        rfl
      · left
        rw [if_neg hexp]
        refine ⟨?_, rfl⟩
        by_cases h0 : t < 0
        · rw [if_pos h0]
        · rw [if_neg h0]
          cases hload : s.loading with
          | true => rfl
          | false =>
            cases hmaster : s.masterhost with
            | true => rfl
            | false =>
              have hnow : now ≤ t := by
                by_contra hlt
                exact hexp ⟨by omega, by omega, hload, hmaster⟩
              simp only [Bool.false_eq_true, if_false]
              rw [if_pos hnow]

theorem looked_inSync (s : Server V) (dbid : Nat) (key : Bytes) (now : Int) :
    InSync s (looked s dbid key now) := (expireIfNeeded_deletes s dbid key now).inSync

theorem looked_entry (s : Server V) (dbid : Nat) (key : Bytes) (now : Int) :
    ((looked s dbid key now).db dbid).dict key = liveEntry s dbid key now := by
  rcases looked_cases s dbid key now with ⟨hsame, hlive⟩ | ⟨hdel, hlive, -⟩
  · rw [hsame, hlive]
  · rw [hdel, hlive, deleteFed_db, Function.update_self]
    simp [dbDelete]

theorem lookup_looked (s : Server V) (dbid : Nat) (key : Bytes) (now : Int) :
    lookupKey ((looked s dbid key now).db dbid) key = (liveEntry s dbid key now).map Keyed.val := by
  rw [lookupKey, looked_entry]

theorem entry_of_lookup {db : Db V} {key : Bytes} {v : V} (h : lookupKey db key = some v) :
    ∃ x, db.dict key = some ⟨v, x⟩ := by
  unfold lookupKey at h
  obtain ⟨e, he, rfl⟩ := Option.map_eq_some_iff.mp h
  exact ⟨e.expire, he⟩

theorem dict_of_lookup_none {db : Db V} {key : Bytes} (h : lookupKey db key = none) :
    db.dict key = none := Option.map_eq_none_iff.mp h

theorem dbOverwrite_of_entry {db : Db V} {key : Bytes} {e : Keyed V} (h : db.dict key = some e)
    (v : V) : dbOverwrite db key v = ⟨Function.update db.dict key (some ⟨v, e.expire⟩)⟩ := by
  rw [dbOverwrite, h]
  rfl

theorem setKey_eq (db : Db V) (key : Bytes) (v : V) :
    setKey db key v = ⟨Function.update db.dict key (some ⟨v, none⟩)⟩ := by
  unfold setKey removeExpire
  by_cases h : dbExists db key = true
  · rw [if_pos h]
    obtain ⟨e, he⟩ := Option.isSome_iff_exists.mp h
    rw [dbOverwrite_of_entry he]
    simp
  · rw [if_neg h]
    simp [dbAdd]

theorem update_db_inj {db : Db V} {key : Bytes} {x y : Option (Keyed V)}
    (h : (⟨Function.update db.dict key x⟩ : Db V) = ⟨Function.update db.dict key y⟩) : x = y := by
  injection h with h
  have hk := congrFun h key
  rwa [Function.update_self, Function.update_self] at hk

theorem incrbyfloat_inSync_iff (F : LongDouble) (s : Server (Value ζ)) (dbid : Nat)
    (key incr : Bytes) (now : Int) :
    InSync s (incrbyfloatCommand F s dbid key incr now) ↔
      ¬ ExpireLost F s dbid now (.incrbyfloat key incr) := by
  have hl : InSync s (looked s dbid key now) := looked_inSync s dbid key now
  have hentry := looked_entry s dbid key now
  have hnothing : (∀ old t, liveEntry s dbid key now ≠ some ⟨.string old, some t⟩) →
      ¬ ExpireLost F s dbid now (.incrbyfloat key incr) := by
    rintro h ⟨old, t, -, -, hlive, -⟩
    exact h old t hlive
  unfold incrbyfloatCommand
  dsimp only
  cases hk : lookupKey ((looked s dbid key now).db dbid) key with
  | none =>
    have hnone := dict_of_lookup_none hk
    rw [hentry] at hnone
    have hnot := hnothing (fun old t h => by rw [hnone] at h; cases h)
    refine iff_of_true ?_ hnot
    cases hincr : F.parse incr with
    | none => exact hl
    | some inc =>
      by_cases hnan : F.nanOrInf (F.add F.zero inc) = true
      · simp only [hnan, if_true]
        exact hl
      · simp only [hnan, Bool.false_eq_true, if_false]
        refine (commit_inSync_iff hl ..).mpr ?_
        rw [setKey_eq]
        rfl
  | some v =>
    obtain ⟨x, hx⟩ := entry_of_lookup hk
    cases v with
    | string old =>
      have hlive := hentry.symm.trans hx
      dsimp only
      cases hold : F.parse old with
      | none =>
        dsimp only
        refine iff_of_true hl ?_
        rintro ⟨old', t, value, inc, hlive', hvalue, -⟩
        rw [hlive] at hlive'
        injection hlive' with h
        injection h with h _
        injection h with h
        rw [← h, hold] at hvalue
        cases hvalue
      | some value =>
        cases hincr : F.parse incr with
        | none =>
          dsimp only
          refine iff_of_true hl ?_
          rintro ⟨old', t, value', inc, -, -, hinc, -⟩
          rw [hincr] at hinc
          cases hinc
        | some inc =>
          dsimp only
          by_cases hnan : F.nanOrInf (F.add value inc) = true
          · simp only [hnan, if_true]
            refine iff_of_true hl ?_
            rintro ⟨old', t, value', inc', hlive', hvalue, hinc, hok⟩
            rw [hlive] at hlive'
            injection hlive' with h
            injection h with h _
            injection h with h
            rw [← h, hold] at hvalue
            rw [hincr] at hinc
            cases hvalue
            cases hinc
            rw [hnan] at hok
            cases hok
          · simp only [hnan, Bool.false_eq_true, if_false]
            rw [show setCommand (ζ := ζ) key (F.print (F.add value inc)) = Command.onDb _ _ _ from rfl,
              commit_inSync_iff hl, setKey_eq, dbOverwrite_of_entry hx]
            constructor
            · rintro heq ⟨old', t, -, -, hlive', -⟩
              have hsame := update_db_inj heq
              rw [hlive] at hlive'
              injection hlive' with h
              injection h with _ h
              rw [h] at hsame
              cases hsame
            · intro hnot
              cases x with
              | none => rfl
              | some t =>
                exact absurd ⟨old, t, value, inc, hlive, hold, hincr, by simpa using hnan⟩ hnot
    | list _ | set _ | hash _ | zset _ =>
      refine iff_of_true hl (hnothing fun old t h => ?_)
      rw [← hentry, hx] at h
      cases h

theorem hincrbyfloat_inSync (F : LongDouble) (s : Server (Value ζ)) (dbid : Nat)
    (key field incr : Bytes) (now : Int) :
    InSync s (hincrbyfloatCommand F s dbid key field incr now) := by
  have hl : InSync s (looked s dbid key now) := looked_inSync s dbid key now
  unfold hincrbyfloatCommand
  dsimp only
  cases hincr : F.parse incr with
  | none => exact InSync.refl s
  | some inc =>
    cases hk : lookupKey ((looked s dbid key now).db dbid) key with
    | none =>
      refine (commit_inSync_iff hl ..).mpr ?_
      rw [hset, hk]
    | some v =>
      cases v with
      | hash h =>
        have hcommit : ∀ new : Bytes, InSync s (commit (looked s dbid key now) dbid
            (dbOverwrite ((looked s dbid key now).db dbid) key
              (.hash (Function.update h field (some new)))) (hsetCommand key field new)) := by
          intro new
          refine (commit_inSync_iff hl ..).mpr ?_
          rw [hset, hk]
        cases hfield : h field with
        | none =>
          simp only [hfield]
          exact hcommit _
        | some current =>
          cases hcur : F.parse current with
          | none =>
            simp only [hfield, hcur]
            exact hl
          | some value =>
            simp only [hfield, hcur]
            exact hcommit _
      | string _ | list _ | set _ | zset _ => exact hl

theorem dbDelete_overwrite (db : Db V) (key : Bytes) (v : V) :
    (dbDelete (dbOverwrite db key v) key).1 = (dbDelete db key).1 := by
  simp [dbDelete, dbOverwrite]

theorem spop_inSync (s : Server (Value ζ)) (dbid : Nat) (key ele : Bytes) (now : Int) :
    InSync s (spopCommand s dbid key ele now) := by
  have hl : InSync s (looked s dbid key now) := looked_inSync s dbid key now
  unfold spopCommand
  dsimp only
  cases hk : lookupKey ((looked s dbid key now).db dbid) key with
  | none => exact hl
  | some v =>
    cases v with
    | set members =>
      by_cases hele : ele ∈ members
      · simp only [hele, if_true]
        refine (commit_inSync_iff hl ..).mpr ?_
        rw [srem, hk]
        simp only [hele, if_true]
        by_cases hempty : members.erase ele = ∅
        · rw [if_pos hempty, if_pos hempty, dbDelete_overwrite]
        · rw [if_neg hempty, if_neg hempty]
      · simp only [hele, if_false]
        exact hl
    | string _ | list _ | hash _ | zset _ => exact hl

theorem popGeneric_some {db : Db (Value ζ)} {key : Bytes} {l l' : List Bytes} {e : ListEnd}
    {value : Bytes} (hk : lookupKey db key = some (.list l)) (hpop : listTypePop e l = some (value, l')) :
    popGeneric e key db = (storeList db key l', 1) := by
  rw [popGeneric, hk]
  simp only [hpop]

theorem blockingPop_inSync (e : ListEnd) (dbid : Nat) (now : Int) (keys : List Bytes)
    (s : Server (Value ζ)) : InSync s (blockingPopGenericCommand e dbid now keys s) := by
  induction keys generalizing s with
  | nil => exact InSync.refl s
  | cons key keys ih =>
    have hl : InSync s (looked s dbid key now) := looked_inSync s dbid key now
    unfold blockingPopGenericCommand
    dsimp only
    cases hk : lookupKey ((looked s dbid key now).db dbid) key with
    | none => exact hl.trans (ih _)
    | some v =>
      cases v with
      | list l =>
        cases hpop : listTypePop e l with
        | none =>
          simp only [hpop]
          exact hl.trans (ih _)
        | some r =>
          obtain ⟨value, l'⟩ := r
          simp only [hpop]
          refine (commit_inSync_iff hl ..).mpr ?_
          rw [popGeneric_some hk hpop, storeList]
          by_cases hempty : l' = []
          · rw [if_pos hempty, if_pos hempty, dbDelete_overwrite]
          · rw [if_neg hempty, if_neg hempty]
      | string _ | set _ | hash _ | zset _ => exact hl

theorem brpoplpush_inSync (s : Server (Value ζ)) (dbid : Nat) (src dst timeout : Bytes) (now : Int) :
    InSync s (brpoplpushCommand s dbid src dst timeout now) := by
  have hl : InSync s (looked s dbid src now) := looked_inSync s dbid src now
  unfold brpoplpushCommand
  dsimp only
  cases hk : lookupKey ((looked s dbid src now).db dbid) src with
  | none => exact hl
  | some v =>
    cases v with
    | list l =>
      have hl' := (hl.trans (looked_inSync _ dbid src now)).trans (looked_inSync _ dbid dst now)
      simp only
      split
      · exact hl'
      · exact (commit_inSync_iff hl' ..).mpr rfl
    | string _ | set _ | hash _ | zset _ => exact hl

theorem expire_inSync (s : Server (Value ζ)) (dbid : Nat) (key : Bytes) (when : Int)
    (sent : Command (Value ζ)) (now : Int) (hpast : InOtherForm s now (.expire key when sent)) :
    InSync s (expireGenericCommand s dbid key when sent now) := by
  obtain ⟨hwhen, hload, hmaster⟩ := hpast
  have hl : InSync s (looked s dbid key now) := looked_inSync s dbid key now
  have hflags : (looked s dbid key now).loading = false ∧ (looked s dbid key now).masterhost = false := by
    rcases looked_cases s dbid key now with ⟨hsame, -⟩ | ⟨hdel, -⟩
    · rw [hsame]
      exact ⟨hload, hmaster⟩
    · rw [hdel]
      simp [deleteFed, deleteKey, propagateExpire, replicationFeedSlaves, feedAppendOnlyFile]
      cases s.aof_state_on <;> exact ⟨hload, hmaster⟩
  unfold expireGenericCommand
  dsimp only
  cases hex : dbExists ((looked s dbid key now).db dbid) key with
  | false =>
    simp only [Bool.not_false, if_true]
    exact hl
  | true =>
    simp only [hwhen, hflags.1, hflags.2, decide_true, Bool.not_false, Bool.not_true,
      Bool.and_self, Bool.false_eq_true, if_false, if_true]
    rw [hl.after (commit_slaves ..), inSync_iff (commit_slaves ..), commit_db]
    show (delKey key dbid _).1 = _
    rw [delKey, if_pos hex]

end RedisCluster.Keyspace
