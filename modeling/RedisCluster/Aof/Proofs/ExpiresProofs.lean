import RedisCluster.Aof.Proofs.ReplayProofs

/-!
# The file keeps up with memory

`Synced` is the invariant: the file so far replays to the databases in memory, whatever the clock of the
replay. A lookup that deletes an expired key keeps it, as its DEL is fed.
-/

namespace RedisCluster.Aof

open RedisCluster.Util RedisCluster.Keyspace RedisCluster.Lib

variable {V : Type} {cfg : Config} {codec : Codec V} {s : Server V} {dbid : Nat} {key : Bytes}

@[simp] theorem setDb_db (s : Server V) (dbid : Nat) (db : Db V) : (setDb s dbid db).db dbid = db :=
  Function.update_self ..

@[simp] theorem setDb_setDb (s : Server V) (dbid : Nat) (a b : Db V) :
    setDb (setDb s dbid a) dbid b = setDb s dbid b := by
  unfold setDb
  simp only [Function.update_idem]

theorem expireIfNeeded_loading (h : s.loading = true) (dbid : Nat) (key : Bytes) (mstime : Int) :
    (expireIfNeeded s dbid key mstime).1 = s := by
  unfold expireIfNeeded
  dsimp only
  rw [if_pos h]
  split <;> rfl

def Expires (s : Server V) (dbid : Nat) (key : Bytes) (mstime : Int) : Prop :=
  ¬ getExpire (s.db dbid) key < 0 ∧ s.loading = false ∧ s.masterhost = false ∧
    getExpire (s.db dbid) key < mstime

theorem expireIfNeeded_cases (s : Server V) (dbid : Nat) (key : Bytes) (mstime : Int) :
    (¬ Expires s dbid key mstime ∧ (expireIfNeeded s dbid key mstime).1 = s) ∨
      (Expires s dbid key mstime ∧ (expireIfNeeded s dbid key mstime).1 =
        feedAppendOnlyFile (setDb s dbid (dbDelete (s.db dbid) key).1) .del dbid [ascii "DEL", key]
          mstime) := by
  unfold expireIfNeeded Expires
  dsimp only
  by_cases hwhen : getExpire (s.db dbid) key < 0
  · rw [if_pos hwhen]
    exact Or.inl ⟨fun h => h.1 hwhen, rfl⟩
  · rw [if_neg hwhen]
    cases hload : s.loading with
    | true => exact Or.inl ⟨fun h => Bool.noConfusion h.2.1, rfl⟩
    | false =>
      cases hmaster : s.masterhost with
      | true => exact Or.inl ⟨fun h => Bool.noConfusion h.2.2.1, rfl⟩
      | false =>
        rw [if_neg Bool.false_ne_true, if_neg Bool.false_ne_true]
        by_cases hle : mstime ≤ getExpire (s.db dbid) key
        · rw [if_pos hle]
          exact Or.inl ⟨fun h => absurd h.2.2.2 (not_lt.mpr hle), rfl⟩
        · rw [if_neg hle]
          exact Or.inr ⟨⟨hwhen, rfl, rfl, not_le.mp hle⟩, rfl⟩

theorem getExpire_dbDelete (db : Db V) (key : Bytes) : getExpire (dbDelete db key).1 key = -1 := by
  unfold getExpire dbDelete
  dsimp only
  rw [Function.update_self]
  rfl

theorem expireIfNeeded_idem (s : Server V) (dbid : Nat) (key : Bytes) (mstime : Int) :
    (expireIfNeeded (expireIfNeeded s dbid key mstime).1 dbid key mstime).1 =
      (expireIfNeeded s dbid key mstime).1 := by
  rcases expireIfNeeded_cases s dbid key mstime with ⟨-, h⟩ | ⟨-, h⟩
  · rw [h, h]
  · rw [h]
    rcases expireIfNeeded_cases (feedAppendOnlyFile (setDb s dbid (dbDelete (s.db dbid) key).1) .del
        dbid [ascii "DEL", key] mstime) dbid key mstime with ⟨-, h'⟩ | ⟨hex, -⟩
    · exact h'
    · have hnone : getExpire ((setDb s dbid (dbDelete (s.db dbid) key).1).db dbid) key = -1 := by
        rw [setDb_db, getExpire_dbDelete]
      refine absurd ?_ hex.1
      rw [feed_eq]
      show getExpire ((setDb s dbid (dbDelete (s.db dbid) key).1).db dbid) key < 0
      rw [hnone]
      decide

/-- From any loading server with the databases `db` and the database `dbid` selected, the commands are
replayed to `db'`. -/
def Replays (cfg : Config) (codec : Codec V) (cmds : List (List Bytes)) (dbid : Nat)
    (db db' : Nat → Db V) : Prop :=
  ∀ mstime loops (c : FakeClient V), c.server.loading = true → c.dbid = dbid → c.server.db = db →
    ∃ c', replayAll cfg codec mstime loops cmds c = some c' ∧ c'.server.loading = true ∧
      c'.dbid = dbid ∧ c'.server.db = db'

theorem Replays.append {xs ys : List (List Bytes)} {a b d : Nat → Db V}
    (hx : Replays cfg codec xs dbid a b) (hy : Replays cfg codec ys dbid b d) :
    Replays cfg codec (xs ++ ys) dbid a d := by
  intro mstime loops c hload hdbid hdb
  obtain ⟨c₁, hrun₁, hload₁, hdbid₁, hdb₁⟩ := hx mstime loops c hload hdbid hdb
  obtain ⟨c₂, hrun₂, hend⟩ := hy mstime (loops + xs.length) c₁ hload₁ hdbid₁ hdb₁
  exact ⟨c₂, by rw [replayAll_append, hrun₁, Option.bind_some, hrun₂], hend⟩

theorem Replays.single {cmd : Proc} {argv : List Bytes} {db db' : Nat → Db V}
    (hcmd : lookupCommand (arg argv 0) = some cmd) (hne : cmd ≠ .select)
    (hproc : ∀ (r : Server V) mstime, r.loading = true → r.db = db →
      (proc codec r dbid cmd argv mstime).1.loading = true ∧
        (proc codec r dbid cmd argv mstime).1.db = db') :
    Replays cfg codec [argv] dbid db db' := by
  intro mstime loops c hload hdbid hdb
  obtain ⟨hload', hdb'⟩ := hproc c.server (mstime loops) hload hdb
  rw [← hdbid] at hload' hdb'
  refine ⟨{ c with server := (proc codec c.server c.dbid cmd argv (mstime loops)).1 }, ?_, hload',
    hdbid, hdb'⟩
  rw [replayAll, replayCommand, hcmd]
  dsimp only
  rw [if_neg (fun h => hne h.1)]
  rfl

def Selectable (cfg : Config) (dbid : Nat) : Prop :=
  dbid < cfg.dbnum ∧ (cfg.cluster_enabled = true → dbid = 0)

theorem selectCommand_eq (hdb : Selectable cfg dbid) (c : FakeClient V) :
    selectCommand cfg c (ll2string dbid) = { c with dbid := dbid } := by
  have hlt := cfg.dbnum_lt
  have hbound := hdb.1
  rw [selectCommand, getLongLong_ll2string (by omega) (by omega)]
  dsimp only
  have hcluster : ¬ (cfg.cluster_enabled = true ∧ (dbid : Int) ≠ 0) := by
    rintro ⟨h, h0⟩
    rw [hdb.2 h] at h0
    exact h0 rfl
  rw [if_neg hcluster, if_neg (by omega), Int.toNat_natCast]

def start (db : Nat → Db V) : FakeClient V :=
  { server := { db := db, masterhost := false, loading := true, aof_selected_db := none, aof_buf := [] }
    dbid := 0 }

def ReplayedTo (s : Server V) (c : FakeClient V) : Prop :=
  c.server.loading = true ∧ c.server.db = s.db ∧ ∀ d, s.aof_selected_db = some d → c.dbid = d

structure Synced (cfg : Config) (codec : Codec V) (db₀ : Nat → Db V) (s : Server V) : Prop where
  serving : s.loading = false
  file : ∃ cmds, s.aof_buf = fileText cmds ∧ (∀ argv ∈ cmds, Readable argv) ∧
    ∀ mstime, ∃ c, replayAll cfg codec mstime 0 cmds (start db₀) = some c ∧ ReplayedTo s c

variable {db₀ : Nat → Db V}

theorem readable_select (hdb : Selectable cfg dbid) : Readable [ascii "SELECT", ll2string dbid] := by
  have hlt := cfg.dbnum_lt
  have hbound := hdb.1
  refine ⟨List.cons_ne_nil _ _, show 2 < 2 ^ 31 by decide, ?_⟩
  intro o ho
  rcases List.mem_pair.mp ho with rfl | rfl
  · decide
  · have hlength := length_decimal_le (n := dbid) (k := 10) (by omega) (by omega)
    rw [ll2string_natCast]
    exact Nat.lt_of_le_of_lt hlength (by norm_num)

theorem replay_select (hdb : Selectable cfg dbid) {c : FakeClient V} (h : ReplayedTo s c)
    (mstime : Nat → Int) (loops : Nat) :
    ∃ c', replayAll cfg codec mstime loops (fedSelect s dbid) c = some c' ∧
      c'.server.loading = true ∧ c'.dbid = dbid ∧ c'.server.db = s.db := by
  obtain ⟨hload, hsame, hselected⟩ := h
  rw [fedSelect]
  by_cases hsel : s.aof_selected_db = some dbid
  · rw [if_pos hsel]
    exact ⟨c, rfl, hload, hselected dbid hsel, hsame⟩
  · rw [if_neg hsel]
    refine ⟨{ c with dbid := dbid }, ?_, hload, rfl, hsame⟩
    have hlookup : lookupCommand (arg [ascii "SELECT", ll2string dbid] 0) = some .select := by
      show lookupCommand (ascii "SELECT") = some .select
      decide +kernel
    rw [replayAll, replayCommand, hlookup]
    dsimp only
    rw [if_pos ⟨rfl, rfl⟩]
    show some (selectCommand cfg c (ll2string dbid)) = _
    rw [selectCommand_eq hdb]

theorem Synced.feed (h : Synced cfg codec db₀ s) (hdb : Selectable cfg dbid) {cmd : Proc}
    {argv : List Bytes} {mstime : Int} {db' : Nat → Db V}
    (hread : ∀ a ∈ fedCommands cmd argv mstime, Readable a)
    (hreplays : Replays cfg codec (fedCommands cmd argv mstime) dbid s.db db') :
    Synced cfg codec db₀ (feedAppendOnlyFile { s with db := db' } cmd dbid argv mstime) := by
  obtain ⟨hserving, cmds, hbuf, hcmds, hrun⟩ := h
  rw [feed_eq]
  refine ⟨hserving, cmds ++ (fedSelect s dbid ++ fedCommands cmd argv mstime), ?_, ?_, ?_⟩
  · show s.aof_buf ++ fileText (fedSelect s dbid ++ fedCommands cmd argv mstime) = _
    rw [hbuf]
    exact List.flatMap_append.symm
  · intro a ha
    rcases List.mem_append.mp ha with ha | ha
    · exact hcmds a ha
    · rcases List.mem_append.mp ha with ha | ha
      · rw [fedSelect] at ha
        split at ha
        · cases ha
        · rw [List.mem_singleton.mp ha]
          exact readable_select hdb
      · exact hread a ha
  · intro clock
    obtain ⟨c, hc, hreplayed⟩ := hrun clock
    obtain ⟨c₁, hc₁, hload₁, hdbid₁, hdb₁⟩ := replay_select hdb hreplayed clock (0 + cmds.length)
    obtain ⟨c₂, hc₂, hload₂, hdbid₂, hdb₂⟩ := hreplays clock
      (0 + cmds.length + (fedSelect s dbid).length) c₁ hload₁ hdbid₁ hdb₁
    refine ⟨c₂, ?_, hload₂, hdb₂, ?_⟩
    · rw [replayAll_append, hc, Option.bind_some, replayAll_append, hc₁, Option.bind_some, hc₂]
    · intro d hd
      rw [hdbid₂]
      exact Option.some.inj hd

theorem proc_del (r : Server V) (hload : r.loading = true) (dbid : Nat) (key : Bytes) (mstime : Int) :
    (proc codec r dbid .del [ascii "DEL", key] mstime).1 =
      setDb r dbid (dbDelete (r.db dbid) key).1 := by
  show (delCommand r dbid mstime [key] 0).1 = _
  rw [delCommand, delCommand, expireIfNeeded_loading hload]

theorem readable_del {key : Bytes} (hkey : key.length < 2 ^ 63) : Readable [ascii "DEL", key] := by
  refine ⟨List.cons_ne_nil _ _, show 2 < 2 ^ 31 by decide, ?_⟩
  intro o ho
  rcases List.mem_pair.mp ho with rfl | rfl
  · decide
  · exact hkey

theorem replays_del (db : Nat → Db V) (dbid : Nat) (key : Bytes) :
    Replays cfg codec [[ascii "DEL", key]] dbid db
      (Function.update db dbid (dbDelete (db dbid) key).1) := by
  have hlookup : lookupCommand (ascii "DEL") = some .del := by decide +kernel
  refine Replays.single hlookup (by decide) ?_
  rintro r mstime hload rfl
  rw [proc_del r hload]
  exact ⟨hload, rfl⟩

theorem Synced.delete (h : Synced cfg codec db₀ s) (hdb : Selectable cfg dbid)
    (hkey : key.length < 2 ^ 63) (mstime : Int) :
    Synced cfg codec db₀ (feedAppendOnlyFile (setDb s dbid (dbDelete (s.db dbid) key).1) .del dbid
      [ascii "DEL", key] mstime) := by
  refine h.feed hdb ?_ (replays_del s.db dbid key)
  intro a ha
  rw [List.mem_singleton.mp ha]
  exact readable_del hkey

theorem Synced.expireIfNeeded (h : Synced cfg codec db₀ s) (hdb : Selectable cfg dbid)
    (hkey : key.length < 2 ^ 63) (mstime : Int) :
    Synced cfg codec db₀ (expireIfNeeded s dbid key mstime).1 := by
  rcases expireIfNeeded_cases s dbid key mstime with ⟨-, hs⟩ | ⟨-, hs⟩
  · rw [hs]
    exact h
  · rw [hs]
    exact h.delete hdb hkey mstime

end RedisCluster.Aof

/-!
## Expire times survive a replay

Each procedure is a lookup and then one change of its database; what is fed for it makes the same
change when it is replayed, as long as the times in it are absolute.
-/

namespace RedisCluster.Aof

open RedisCluster.Util RedisCluster.Keyspace RedisCluster.Lib

variable {V : Type} {cfg : Config} {codec : Codec V} {s : Server V} {dbid : Nat} {key : Bytes}

def stored (db : Db V) (key : Bytes) (val : V) (expire : Option Int) : Db V :=
  match expire with
  | none => Keyspace.setKey db key val
  | some when => setExpire (Keyspace.setKey db key val) key when

def refused (o : SetOptions) (found : Option V) : Bool :=
  (o.nx && found.isSome) || (o.xx && found.isNone)

theorem setGenericCommand_eq (s : Server V) (dbid : Nat) (o : SetOptions) (key : Bytes) (val : V)
    (mstime : Int) {s₁ : Server V} (hs : (expireIfNeeded s dbid key mstime).1 = s₁) :
    setGenericCommand s dbid o key val mstime =
      match expireMillis o.expire with
      | none => (s, .clean)
      | some milliseconds =>
        if refused o (lookupKey (s₁.db dbid) key) then (s₁, .clean)
        else (setDb s₁ dbid (stored (s₁.db dbid) key val
          (milliseconds.map fun ms => toLongLong (mstime + ms))), .dirty) := by
  have hagain : (expireIfNeeded s₁ dbid key mstime).1 = s₁ := by
    rw [← hs]
    exact expireIfNeeded_idem s dbid key mstime
  unfold setGenericCommand
  cases expireMillis o.expire with
  | none => rfl
  | some milliseconds =>
    have hset : ∀ t : Server V, (expireIfNeeded t dbid key mstime).1 = s₁ →
        (match milliseconds with
          | none => (setKey t dbid key val mstime, Outcome.dirty)
          | some ms => (setDb (setKey t dbid key val mstime) dbid (setExpire
              ((setKey t dbid key val mstime).db dbid) key (toLongLong (mstime + ms))), .dirty)) =
          (setDb s₁ dbid (stored (s₁.db dbid) key val
            (milliseconds.map fun ms => toLongLong (mstime + ms))), .dirty) := by
      intro t ht
      have hkey : setKey t dbid key val mstime =
          setDb s₁ dbid (Keyspace.setKey (s₁.db dbid) key val) := by
        rw [setKey, lookupKeyWrite, ht]
      rw [hkey]
      cases milliseconds with
      | none => rfl
      | some ms =>
        dsimp only
        rw [setDb_setDb, setDb_db]
        rfl
    dsimp only
    unfold refused lookupKeyWrite
    cases hnx : o.nx with
    | true =>
      cases hfound : lookupKey (s₁.db dbid) key with
      | some v => simp [hs, hfound]
      | none =>
        cases hxx : o.xx with
        | true => simp [hs, hfound, hagain]
        | false =>
          simp only [hs, hfound, if_true, Option.isSome_none, Bool.and_false, Bool.false_eq_true,
            if_false, Bool.false_and, Bool.or_false]
          exact hset s₁ hagain
    | false =>
      cases hfound : lookupKey (s₁.db dbid) key with
      | none =>
        cases hxx : o.xx with
        | true => simp [hs, hfound]
        | false =>
          simp only [Bool.false_eq_true, if_false, Bool.false_and, Bool.or_false]
          exact hset s hs
      | some v =>
        cases hxx : o.xx with
        | true =>
          simp only [hs, hfound, Bool.false_eq_true, if_false, Bool.false_and, if_true,
            Option.isNone_some, Bool.and_false, Bool.or_false]
          exact hset s₁ hagain
        | false =>
          simp only [Bool.false_eq_true, if_false, Bool.false_and, Bool.or_false]
          exact hset s hs

theorem expireGenericCommand_eq (s : Server V) (dbid : Nat) (key param : Bytes) (basetime : Int)
    (seconds : Bool) (mstime : Int) {s₁ : Server V} (hs : (expireIfNeeded s dbid key mstime).1 = s₁)
    {v : Int} (hv : getLongLongFromObject param = some v) {when : Int}
    (hwhen : toLongLong ((if seconds then toLongLong (v * 1000) else v) + basetime) = when) :
    expireGenericCommand s dbid key param basetime seconds mstime =
      if (lookupKey (s₁.db dbid) key).isNone then (s₁, .clean)
      else if when ≤ mstime && !s₁.loading && !s₁.masterhost then
        (setDb s₁ dbid (dbDelete (s₁.db dbid) key).1, .rewritten .del [ascii "DEL", key])
      else (setDb s₁ dbid (setExpire (s₁.db dbid) key when), .dirty) := by
  unfold expireGenericCommand
  rw [hv]
  unfold lookupKeyRead lookupKeyWrite
  dsimp only
  rw [hs, hwhen]

theorem toLongLong_fits (n : Int) : -(2 ^ 63) ≤ toLongLong n ∧ toLongLong n < 2 ^ 63 := by
  have h1 := Int.le_bmod (x := n) (m := 2 ^ 64) (by decide)
  have h2 := Int.bmod_lt (x := n) (m := 2 ^ 64) (by decide)
  unfold toLongLong
  constructor
  · exact le_trans (by decide) h1
  · exact lt_of_lt_of_le h2 (by decide)

theorem toLongLong_of_fits {n : Int} (hmin : -(2 ^ 63) ≤ n) (hmax : n < 2 ^ 63) :
    toLongLong n = n := by
  rw [toLongLong]
  exact Int.bmod_eq_of_le (le_trans (by decide) hmin) (lt_of_lt_of_le hmax (by decide))

theorem replays_pexpireat {name param : Bytes} (hname : lookupCommand name = some .pexpireat) {v : Int}
    (hv : getLongLongFromObject param = some v) (db : Nat → Db V) (dbid : Nat) (key : Bytes)
    (hkey : (lookupKey (db dbid) key).isSome) :
    Replays cfg codec [[name, key, param]] dbid db
      (Function.update db dbid (setExpire (db dbid) key (toLongLong (v + 0)))) := by
  refine Replays.single hname (by decide) ?_
  rintro r mstime hload rfl
  have hwhen : toLongLong ((if false = true then toLongLong (v * 1000) else v) + 0) =
      toLongLong (v + 0) := by
    rw [if_neg Bool.false_ne_true]
  have heq := expireGenericCommand_eq r dbid key param 0 false mstime
    (expireIfNeeded_loading hload dbid key mstime) hv hwhen
  have hfound : (lookupKey (r.db dbid) key).isNone = false := by
    rw [Option.isNone_eq_false_iff]
    exact hkey
  have hproc : proc codec r dbid .pexpireat [name, key, param] mstime =
      expireGenericCommand r dbid key param 0 false mstime := rfl
  rw [hproc, heq, hfound, hload, if_neg Bool.false_ne_true, Bool.not_true, Bool.and_false,
    Bool.false_and, if_neg Bool.false_ne_true]
  exact ⟨hload, rfl⟩

theorem replays_absolute (db : Nat → Db V) (dbid : Nat) (key : Bytes) (n : Int)
    (hkey : (lookupKey (db dbid) key).isSome) :
    Replays cfg codec [[ascii "PEXPIREAT", key, ll2string (toLongLong n)]] dbid db
      (Function.update db dbid (setExpire (db dbid) key (toLongLong n))) := by
  obtain ⟨hmin, hmax⟩ := toLongLong_fits n
  have hname : lookupCommand (ascii "PEXPIREAT") = some .pexpireat := by decide +kernel
  have hreplays : Replays cfg codec _ dbid db _ :=
    replays_pexpireat hname (getLongLong_ll2string hmin hmax) db dbid key hkey
  rwa [add_zero, toLongLong_of_fits hmin hmax] at hreplays

theorem replays_set (db : Nat → Db V) (dbid : Nat) (key val : Bytes) :
    Replays cfg codec [[ascii "SET", key, val]] dbid db
      (Function.update db dbid (Keyspace.setKey (db dbid) key (codec.string val))) := by
  have hlookup : lookupCommand (ascii "SET") = some .set := by decide +kernel
  refine Replays.single hlookup (by decide) ?_
  rintro r mstime hload rfl
  have hproc : proc codec r dbid .set [ascii "SET", key, val] mstime =
      setGenericCommand r dbid { nx := false, xx := false, expire := none } key (codec.string val)
        mstime := rfl
  rw [hproc, setGenericCommand_eq r dbid _ key _ mstime (expireIfNeeded_loading hload dbid key mstime)]
  exact ⟨hload, rfl⟩

theorem lookup_setKey (db : Db V) (key : Bytes) (val : V) :
    (lookupKey (Keyspace.setKey db key val) key).isSome := by
  unfold Keyspace.setKey lookupKey removeExpire
  dsimp only
  rw [Function.update_self]
  by_cases hk : dbExists db key = true
  · rw [if_pos hk, dbOverwrite]
    dsimp only
    rw [Function.update_self]
    unfold dbExists at hk
    cases hd : db.dict key with
    | none =>
      rw [hd] at hk
      cases hk
    | some e => rfl
  · rw [if_neg hk, dbAdd]
    dsimp only
    rw [Function.update_self]
    rfl

theorem replays_setex (db : Nat → Db V) (dbid : Nat) (key val : Bytes) (n : Int) :
    Replays cfg codec [[ascii "SET", key, val], [ascii "PEXPIREAT", key, ll2string (toLongLong n)]]
      dbid db (Function.update db dbid
        (stored (db dbid) key (codec.string val) (some (toLongLong n)))) := by
  have hset : Replays cfg codec _ dbid db _ := replays_set db dbid key val
  have hexpire : Replays cfg codec _ dbid _ _ := replays_absolute
    (Function.update db dbid (Keyspace.setKey (db dbid) key (codec.string val))) dbid key n
    (by rw [Function.update_self]; exact lookup_setKey ..)
  rw [Function.update_self, Function.update_idem] at hexpire
  exact hset.append hexpire

theorem expireAtMillis_relative {cmd : Proc} {seconds : Bool} {param : Bytes} {v : Int}
    (hcmd : (cmd, seconds) ∈ [(Proc.expire, true), (.pexpire, false), (.setex, true), (.psetex, false)])
    (hv : getLongLongFromObject param = some v) (mstime : Int) :
    expireAtMillis cmd param mstime =
      toLongLong ((if seconds then toLongLong (v * 1000) else v) + mstime) := by
  have hvalue := strtoll_of_getLongLong hv
  simp only [List.mem_cons, Prod.mk.injEq, List.not_mem_nil, or_false] at hcmd
  unfold expireAtMillis
  rw [hvalue]
  rcases hcmd with ⟨rfl, rfl⟩ | ⟨rfl, rfl⟩ | ⟨rfl, rfl⟩ | ⟨rfl, rfl⟩ <;> rfl

theorem expireAtMillis_expireat {param : Bytes} {v : Int} (hv : getLongLongFromObject param = some v)
    (mstime : Int) : expireAtMillis .expireat param mstime = toLongLong (v * 1000) := by
  have hvalue := strtoll_of_getLongLong hv
  unfold expireAtMillis
  rw [hvalue]
  rfl

end RedisCluster.Aof
