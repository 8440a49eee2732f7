import RedisCluster.Keyspace.Migrate
import RedisCluster.Keyspace.Proofs.PropagationProofs

/-!
# Proofs: what MIGRATE deletes and what it propagates

An attempt answers with nothing changed, is tried again, or the target takes the key. In the last case a
DEL is propagated, with COPY too.
-/

namespace RedisCluster.Keyspace

open RedisCluster.Util RedisCluster.Lib

variable {V : Type} {s t : Server V} {dbid : Nat} {key : Bytes}

theorem expireIfNeeded_cases (s : Server V) (dbid : Nat) (key : Bytes) (now : Int) :
    (expireIfNeeded s dbid key now).1 = s ∨
      Present s (dbid, key) ∧ (expireIfNeeded s dbid key now).1 = deleteFed s (dbid, key) := by
  unfold expireIfNeeded
  by_cases hwhen : getExpire (s.db dbid) key < 0
  · exact Or.inl (congrArg Prod.fst (if_pos hwhen))
  · have hpresent : Present s (dbid, key) := by
      cases he : ((s.db dbid).dict key).bind Keyed.expire with
      | none =>
        rw [getExpire, he] at hwhen
        exact absurd (by decide) hwhen
      | some t => exact present_of_expire he
    rw [if_neg hwhen]
    cases s.loading
    · cases s.masterhost
      · by_cases hnow : now ≤ getExpire (s.db dbid) key
        · simp [hnow]
        · simp only [if_neg hnow, Bool.false_eq_true, if_false]
          exact Or.inr ⟨hpresent, rfl⟩
      · exact Or.inl rfl
    · exact Or.inl rfl

theorem deleteFed_missing (s : Server V) (dbid : Nat) (key : Bytes) :
    dbExists ((deleteFed s (dbid, key)).db dbid) key = false := by
  rw [deleteFed_db, Function.update_self]
  simp [dbExists, dbDelete]

theorem LiveAt.unchanged {now : Int} (h : LiveAt s dbid key now) : (expireIfNeeded s dbid key now).1 = s := by
  rcases expireIfNeeded_cases s dbid key now with hsame | ⟨-, hgone⟩
  · exact hsame
  · unfold LiveAt at h
    rw [hgone, deleteFed_missing] at h
    cases h

theorem LiveAt.present {now : Int} (h : LiveAt s dbid key now) : Present s (dbid, key) := by
  have hlive := h
  unfold LiveAt at hlive
  rw [h.unchanged] at hlive
  exact hlive

theorem lookupKey_of_exists {db : Db V} (h : dbExists db key = true) : ∃ o, lookupKey db key = some o := by
  obtain ⟨e, he⟩ := Option.isSome_iff_exists.mp h
  exact ⟨e.val, by rw [lookupKey, he, Option.map_some]⟩

theorem lookupKey_of_missing {db : Db V} (h : ¬ dbExists db key = true) : lookupKey db key = none := by
  have hnone : db.dict key = none := by simpa [dbExists] using h
  rw [lookupKey, hnone, Option.map_none]

def finish (dbid : Nat) (r : Migrated V) : Server V :=
  match r.rewritten with
  | some cmd => if r.dirty ≠ 0 then propagate r.server { dbid := dbid, cmd := cmd } else r.server
  | none => r.server

def taken (s : Server V) (dbid : Nat) (key : Bytes) (copy : Bool) : Server V :=
  propagate (if copy then s else deleteKey s dbid key) (delEntry (dbid, key))

theorem accepts_replies_iff {buf1 buf2 : Bytes} :
    (Exchange.replies buf1 buf2).Accepts ↔ ¬ (buf1.head? = some 45 ∨ buf2.head? = some 45) := by
  constructor
  · rintro ⟨a, b, heq, ha, hb⟩
    cases heq
    exact not_or.mpr ⟨ha, hb⟩
  · intro h
    obtain ⟨ha, hb⟩ := not_or.mp h
    exact ⟨buf1, buf2, rfl, ha, hb⟩

theorem finish_accepted {copy : Bool} {buf1 buf2 : Bytes} (h : (Exchange.replies buf1 buf2).Accepts)
    (written : List Bytes) :
    finish dbid (migrateReplies s dbid key copy buf1 buf2 written) = taken s dbid key copy := by
  unfold migrateReplies
  rw [if_neg (accepts_replies_iff.mp h)]
  rfl

theorem finish_refused {copy : Bool} {buf1 buf2 : Bytes} (h : ¬ (Exchange.replies buf1 buf2).Accepts)
    (written : List Bytes) : finish dbid (migrateReplies s dbid key copy buf1 buf2 written) = s := by
  have herror := not_not.mp (mt accepts_replies_iff.mpr h)
  unfold migrateReplies
  rw [if_pos herror]
  rfl

theorem socketError_timedout (again : Option (Server V → List Bytes → Migrated V)) (reply : Bytes) (s : Server V)
    (written : List Bytes) : socketError again true reply s written = answered s reply written := by
  cases again <;> rfl

theorem socketError_retry (again : Option (Server V → List Bytes → Migrated V)) (reply : Bytes) (s : Server V)
    (written : List Bytes) :
    socketError again false reply s written = again.elim (answered s reply written) fun f => f s written := by
  cases again <;> rfl

theorem timedout_settles {e : Exchange} (h : e = .writeFails true ∨ e = .readFails true) :
    ¬ e.Accepts ∧ ¬ e.Retries := by
  constructor
  · rintro ⟨buf1, buf2, hreplies, -⟩
    rcases h with rfl | rfl <;> cases hreplies
  · rintro (hretry | hretry)
    · rcases h with rfl | rfl <;> cases hretry
    · rcases h with rfl | rfl <;> cases hretry

theorem converse_cases (again : Option (Server V → List Bytes → Migrated V)) (s : Server V) (dbid : Nat) (key : Bytes)
    (copy : Bool) (written : List Bytes) (e : Exchange) :
    (e.Accepts ∧ finish dbid (converse again s dbid key copy written e) = taken s dbid key copy) ∨
      (e.Retries ∧ ∃ reply, converse again s dbid key copy written e =
        again.elim (answered s reply written) fun f => f s written) ∨
      (¬ e.Accepts ∧ ¬ e.Retries ∧ finish dbid (converse again s dbid key copy written e) = s) := by
  cases e with
  | replies buf1 buf2 =>
    by_cases h : (Exchange.replies buf1 buf2).Accepts
    · exact Or.inl ⟨h, finish_accepted h written⟩
    · refine Or.inr (Or.inr ⟨h, ?_, finish_refused h written⟩)
      rintro (hno | hno) <;> cases hno
  | writeFails timedout =>
    cases timedout with
    | false => exact Or.inr (Or.inl ⟨Or.inl rfl, _, socketError_retry again _ s written⟩)
    | true =>
      obtain ⟨haccepts, hretries⟩ := timedout_settles (Or.inl rfl)
      exact Or.inr (Or.inr ⟨haccepts, hretries, congrArg (finish dbid) (socketError_timedout again _ s written)⟩)
  | readFails timedout =>
    cases timedout with
    | false => exact Or.inr (Or.inl ⟨Or.inr rfl, _, socketError_retry again _ s written⟩)
    | true =>
      obtain ⟨haccepts, hretries⟩ := timedout_settles (Or.inr rfl)
      exact Or.inr (Or.inr ⟨haccepts, hretries, congrArg (finish dbid) (socketError_timedout again _ s written)⟩)

theorem migrateAttempt_lookup (w : Dumping V) (dbid : Nat) {argv : List Bytes} {o : Options}
    (h : migrateOptions argv = some o) (a : Attempt) (again : Option (Server V → List Bytes → Migrated V))
    (s : Server V) (written : List Bytes) :
    ∃ target, migrateAttempt w dbid argv a again s written =
      (lookupKey ((expireIfNeeded s dbid (argv.getD 3 []) a.now).1.db dbid) (argv.getD 3 [])).elim
        (answered (expireIfNeeded s dbid (argv.getD 3 []) a.now).1 (ascii "+NOKEY\r\n") written)
        fun val => a.noSocket.elim
          (converse again (expireIfNeeded s dbid (argv.getD 3 []) a.now).1 dbid (argv.getD 3 []) o.copy
            (written ++ [restoreText w target (argv.getD 3 [])
              (migrateTtl (getExpire ((expireIfNeeded s dbid (argv.getD 3 []) a.now).1.db dbid) (argv.getD 3 []))
                a.mstime) val o.replace])
            a.exchange)
          fun reply => answered (expireIfNeeded s dbid (argv.getD 3 []) a.now).1 reply written := by
  unfold migrateOptions at h
  split at h
  · rename_i hnumbers
    obtain ⟨timeout, htimeout⟩ := Option.isSome_iff_exists.mp hnumbers.1
    obtain ⟨target, htarget⟩ := Option.isSome_iff_exists.mp hnumbers.2
    refine ⟨target, ?_⟩
    unfold migrateAttempt
    rw [h, htimeout, htarget]
    dsimp only
    cases hval : lookupKey ((expireIfNeeded s dbid (argv.getD 3 []) a.now).1.db dbid) (argv.getD 3 []) with
    | none => rfl
    | some val =>
      cases a.noSocket with
      | none => rfl
      | some reply => rfl
  · cases h

theorem migrateAttempt_refused {w : Dumping V} {argv : List Bytes} (h : migrateOptions argv = none) (a : Attempt)
    (again : Option (Server V → List Bytes → Migrated V)) (s : Server V) (written : List Bytes) :
    finish dbid (migrateAttempt w dbid argv a again s written) = s := by
  unfold migrateAttempt
  cases hoptions : parseOptions (argv.drop 6) with
  | none => rfl
  | some o =>
    dsimp only
    split
    · rename_i htimeout htarget
      unfold migrateOptions at h
      rw [if_pos ⟨by rw [htimeout]; rfl, by rw [htarget]; rfl⟩, hoptions] at h
      cases h
    · rfl

theorem Exchange.Accepts.not_retries {e : Exchange} (h : e.Accepts) : ¬ e.Retries := by
  obtain ⟨buf1, buf2, rfl, -⟩ := h
  rintro (h | h) <;> cases h

theorem migrateAttempt_cases (w : Dumping V) (dbid : Nat) {argv : List Bytes} {o : Options}
    (h : migrateOptions argv = some o) (hkey : argv.getD 3 [] = key) (a : Attempt)
    (again : Option (Server V → List Bytes → Migrated V)) (s : Server V) (written : List Bytes) :
    (LiveAt s dbid key a.now ∧ a.noSocket = none ∧ a.exchange.Accepts ∧
        finish dbid (migrateAttempt w dbid argv a again s written) = taken s dbid key o.copy) ∨
      (LiveAt s dbid key a.now ∧ a.noSocket = none ∧ a.exchange.Retries ∧ ∃ reply written',
        migrateAttempt w dbid argv a again s written = again.elim (answered s reply written') fun f => f s written') ∨
      (LiveAt s dbid key a.now ∧ ¬ (a.noSocket = none ∧ (a.exchange.Accepts ∨ a.exchange.Retries)) ∧
        finish dbid (migrateAttempt w dbid argv a again s written) = s) ∨
      (¬ LiveAt s dbid key a.now ∧
        finish dbid (migrateAttempt w dbid argv a again s written) = (expireIfNeeded s dbid key a.now).1) := by
  subst hkey
  obtain ⟨target, heq⟩ := migrateAttempt_lookup w dbid h a again s written
  rw [heq]
  by_cases hlive : LiveAt s dbid (argv.getD 3 []) a.now
  · obtain ⟨val, hval⟩ := lookupKey_of_exists hlive
    rw [hval, Option.elim_some, hlive.unchanged]
    cases hsocket : a.noSocket with
    | some reply =>
      refine Or.inr (Or.inr (Or.inl ⟨hlive, ?_, rfl⟩))
      rintro ⟨hnone, -⟩
      cases hnone
    | none =>
      rw [Option.elim_none]
      rcases converse_cases again s dbid (argv.getD 3 []) o.copy _ a.exchange with
        ⟨haccepts, hend⟩ | ⟨hretries, reply, hend⟩ | ⟨hno, hnot, hend⟩
      · exact Or.inl ⟨hlive, rfl, haccepts, hend⟩
      · exact Or.inr (Or.inl ⟨hlive, rfl, hretries, reply, _, hend⟩)
      · refine Or.inr (Or.inr (Or.inl ⟨hlive, ?_, hend⟩))
        rintro ⟨-, h | h⟩
        · exact hno h
        · exact hnot h
  · rw [lookupKey_of_missing hlive, Option.elim_none]
    exact Or.inr (Or.inr (Or.inr ⟨hlive, rfl⟩))

theorem callMigrate_cases (w : Dumping V) (dbid : Nat) (argv : List Bytes) (hkey : argv.getD 3 [] = key)
    (first second : Attempt) (s : Server V) :
    (TargetTakes s dbid key first second ∧ ∃ o, migrateOptions argv = some o ∧
        callMigrate w dbid argv first second s = taken s dbid key o.copy) ∨
      ((¬ TargetTakes s dbid key first second ∨ migrateOptions argv = none) ∧
        (callMigrate w dbid argv first second s = s ∨
          ExpiresMeanwhile s dbid key first second ∧ Present s (dbid, key) ∧
            callMigrate w dbid argv first second s = deleteFed s (dbid, key))) := by
  have hcall : callMigrate w dbid argv first second s =
      finish dbid (migrateAttempt w dbid argv first (some (migrateAttempt w dbid argv second none)) s []) := rfl
  rw [hcall]
  cases hoptions : migrateOptions argv with
  | none =>
    exact Or.inr ⟨Or.inr rfl, Or.inl (migrateAttempt_refused hoptions first _ s [])⟩
  | some o =>
    rcases migrateAttempt_cases w dbid hoptions hkey first
      (some (migrateAttempt w dbid argv second none)) s [] with
      ⟨hlive, hsocket, haccepts, heq⟩ | ⟨hlive, hsocket, hretries, reply, written, heq⟩ |
        ⟨hlive, hno, heq⟩ | ⟨hdead, heq⟩
    · exact Or.inl ⟨⟨hlive, hsocket, Or.inl haccepts⟩, o, rfl, heq⟩
    · rw [heq, Option.elim_some]
      have hfirst : ¬ first.exchange.Accepts := fun h => h.not_retries hretries
      rcases migrateAttempt_cases w dbid hoptions hkey second none s written with
        ⟨hlive2, hsocket2, haccepts2, heq2⟩ | ⟨hlive2, hsocket2, hretries2, reply2, written2, heq2⟩ |
          ⟨hlive2, hno2, heq2⟩ | ⟨hdead2, heq2⟩
      · exact Or.inl ⟨⟨hlive, hsocket, Or.inr ⟨hretries, hlive2, hsocket2, haccepts2⟩⟩, o, rfl, heq2⟩
      · refine Or.inr ⟨Or.inl ?_, Or.inl (by rw [heq2]; rfl)⟩
        rintro ⟨-, -, h | ⟨-, -, -, h⟩⟩
        · exact hfirst h
        · exact h.not_retries hretries2
      · refine Or.inr ⟨Or.inl ?_, Or.inl heq2⟩
        rintro ⟨-, -, h | ⟨-, -, h1, h2⟩⟩
        · exact hfirst h
        · exact hno2 ⟨h1, Or.inl h2⟩
      · refine Or.inr ⟨Or.inl ?_, ?_⟩
        · rintro ⟨-, -, h | ⟨-, h, -⟩⟩
          · exact hfirst h
          · exact hdead2 h
        · rw [heq2]
          refine (expireIfNeeded_cases s dbid key second.now).imp_right ?_
          exact fun h => ⟨Or.inr ⟨hsocket, hretries, hdead2⟩, h⟩
    · refine Or.inr ⟨Or.inl ?_, Or.inl heq⟩
      rintro ⟨-, h1, h | ⟨h, -⟩⟩
      · exact hno ⟨h1, Or.inl h⟩
      · exact hno ⟨h1, Or.inr h⟩
    · refine Or.inr ⟨Or.inl fun h => hdead h.1, ?_⟩
      rw [heq]
      refine (expireIfNeeded_cases s dbid key first.now).imp_right ?_
      exact fun h => ⟨Or.inl hdead, h⟩

theorem lookups_quiet {r : Server V} (h : r.masterhost = true ∨ r.loading = true) (ls : List Lookup) :
    run lookupStep r ls = r := by
  have hstep : ∀ l : Lookup, lookupStep r l = r := by
    intro l
    unfold lookupStep expireIfNeeded
    rcases h with hmaster | hloading
    · simp only [hmaster, if_true]
      split
      · rfl
      · cases r.loading <;> rfl
    · simp only [hloading, if_true]
      split <;> rfl
  induction ls with
  | nil => rfl
  | cons l ls ih => rw [run_cons, hstep, ih]

theorem replay_del {r : Server V} (h : r.masterhost = true ∨ r.loading = true)
    {rs : List (Entry V × List Lookup)} (hrs : rs.map Prod.fst = [delEntry (dbid, key)]) :
    (replay r rs).db = (delKey key dbid r.db).1 := by
  obtain ⟨e, rfl, he⟩ := List.map_eq_singleton_iff.mp hrs
  show (call r e.1.dbid e.2 e.1.cmd).db = _
  rw [call, lookups_quiet h, callProc_db, he]
  rfl

theorem Reproduces.refl (s : Server V) : Reproduces s s := by
  refine ⟨[], (List.append_nil _).symm, by simp, fun r _ hdb rs hrs => ?_⟩
  rw [List.map_eq_nil_iff.mp hrs]
  exact hdb

theorem taken_false (s : Server V) (dbid : Nat) (key : Bytes) :
    taken s dbid key false = deleteFed s (dbid, key) := by
  unfold taken deleteFed propagate propagateExpire replicationFeedSlaves feedAppendOnlyFile deleteKey delEntry
  cases hon : s.aof_state_on <;> simp [hon]

theorem reproduces_deleteFed (h : Present s (dbid, key)) : Reproduces s (deleteFed s (dbid, key)) := by
  refine ⟨[delEntry (dbid, key)], deleteFed_slaves s _, ?_, ?_⟩
  · cases hon : s.aof_state_on with
    | true => exact deleteFed_aof hon _
    | false => simp [deleteFed, deleteKey, propagateExpire, replicationFeedSlaves, hon]
  · intro r hr hdb rs hrs
    have hexists : dbExists (s.db dbid) key = true := h
    rw [replay_del hr hrs, delKey, hdb, if_pos hexists, deleteFed_db]

theorem not_reproduces_copied (h : Present s (dbid, key)) : ¬ Reproduces s (taken s dbid key true) := by
  rintro ⟨es, hslaves, -, hreplay⟩
  have hfed : (taken s dbid key true).slaves = s.slaves ++ [delEntry (dbid, key)] := by
    unfold taken propagate replicationFeedSlaves feedAppendOnlyFile
    cases hon : s.aof_state_on <;> simp [hon]
  have hdb : (taken s dbid key true).db = s.db := by
    unfold taken propagate replicationFeedSlaves feedAppendOnlyFile
    cases hon : s.aof_state_on <;> simp [hon]
  have hes : es = [delEntry (dbid, key)] := List.append_cancel_left (hslaves.symm.trans hfed)
  have hreplica := hreplay { s with masterhost := true } (Or.inl rfl) rfl [(delEntry (dbid, key), [])] hes.symm
  rw [replay_del (Or.inl rfl) rfl, hdb] at hreplica
  have hgone : (delKey key dbid s.db).1 = s.db := hreplica
  have hexists : dbExists (s.db dbid) key = true := h
  rw [delKey, if_pos hexists] at hgone
  dsimp only at hgone
  rw [← hgone, Function.update_self] at hexists
  simp [dbExists, dbDelete] at hexists

/-- MIGRATE does what it owes exactly if it is not that the target takes the key and COPY is given. -/
theorem callMigrate_right_iff (w : Dumping V) (dbid : Nat) (argv : List Bytes) (first second : Attempt)
    (s : Server V) :
    MigratesRight s dbid argv first second (callMigrate w dbid argv first second s) ↔
      ¬ (TargetTakes s dbid (argv.getD 3 []) first second ∧
        ∃ o, migrateOptions argv = some o ∧ o.copy = true) := by
  have hgone : ∀ {dbid' : Nat} {key' : Bytes}, dbExists (s.db dbid') key' = true →
      dbExists ((deleteFed s (dbid, argv.getD 3 [])).db dbid') key' = false →
        dbid' = dbid ∧ key' = argv.getD 3 [] := by
    intro dbid' key' hs ht
    have hpair := deleteFed_gone hs ht
    exact ⟨(congrArg Prod.fst hpair).symm, (congrArg Prod.snd hpair).symm⟩
  rcases callMigrate_cases w dbid argv rfl first second s with
    ⟨htakes, o, hoptions, heq⟩ | ⟨hno, hkept⟩
  · have hpresent : Present s (dbid, argv.getD 3 []) := htakes.1.present
    rw [heq]
    cases hcopy : o.copy with
    | true =>
      exact iff_of_false (fun h => not_reproduces_copied hpresent h.propagated)
        (not_not.mpr ⟨htakes, o, hoptions, hcopy⟩)
    | false =>
      rw [taken_false]
      refine iff_of_true ⟨?_, reproduces_deleteFed hpresent⟩ ?_
      · intro dbid' key' hs ht
        obtain ⟨rfl, rfl⟩ := hgone hs ht
        exact ⟨rfl, rfl, Or.inr ⟨htakes, o, hoptions, hcopy⟩⟩
      · rintro ⟨-, o', hoptions', hcopy'⟩
        rw [hoptions] at hoptions'
        cases hoptions'
        rw [hcopy] at hcopy'
        cases hcopy'
  · have hcondition : ¬ (TargetTakes s dbid (argv.getD 3 []) first second ∧
        ∃ o, migrateOptions argv = some o ∧ o.copy = true) := by
      rintro ⟨htakes, o, hoptions, -⟩
      rcases hno with hno | hno
      · exact hno htakes
      · rw [hno] at hoptions
        cases hoptions
    refine iff_of_true ?_ hcondition
    rcases hkept with hsame | ⟨hexpires, hpresent, heq⟩
    · rw [hsame]
      refine ⟨?_, Reproduces.refl s⟩
      intro dbid' key' hs ht
      rw [hs] at ht
      cases ht
    · rw [heq]
      refine ⟨?_, reproduces_deleteFed hpresent⟩
      intro dbid' key' hs ht
      obtain ⟨rfl, rfl⟩ := hgone hs ht
      exact ⟨rfl, rfl, Or.inl hexpires⟩

def oneKey : Server Bytes where
  db := fun _ => { dict := fun key => if key = ascii "k" then some { val := ascii "v", expire := none } else none }
  masterhost := false
  loading := false
  aof_state_on := true
  aof := []
  slaves := []

def migrateCopy : List Bytes :=
  [ascii "MIGRATE", ascii "host", ascii "6379", ascii "k", ascii "0", ascii "1000", ascii "COPY"]

def bothOk : Attempt :=
  { now := 0, mstime := 0, noSocket := none, exchange := .replies (ascii "+OK") (ascii "+OK") }

/-- The source keeps its copy, and its replicas delete theirs. -/
theorem migrateCopy_diverges :
    ¬ MigratesRight oneKey 0 migrateCopy bothOk bothOk
      (callMigrate { cluster_enabled := false, createDumpPayload := id } 0 migrateCopy bothOk bothOk oneKey) := by
  have hpresent : Present oneKey (0, ascii "k") := rfl
  have htaken : callMigrate { cluster_enabled := false, createDumpPayload := id } 0 migrateCopy bothOk bothOk oneKey =
      taken oneKey 0 (ascii "k") true := rfl
  intro hright
  rw [htaken] at hright
  exact not_reproduces_copied hpresent hright.propagated

end RedisCluster.Keyspace
