import RedisCluster.Aof.Proofs.ExpiresProofs

/-!
# Whole runs

One request keeps `Synced` if what it feeds is absolute, and so does a run.
-/

namespace RedisCluster.Aof

open RedisCluster.Util RedisCluster.Keyspace RedisCluster.Lib

variable {V : Type} {cfg : Config} {codec : Codec V} {s : Server V} {key : Bytes}
variable {db₀ : Nat → Db V}

def setsTtl : Proc → Bool
  | .del => false
  | .select => false
  | _ => true

def Sent (cfg : Config) (r : Request) : Prop :=
  Selectable cfg r.dbid ∧ Readable r.argv ∧
    ∃ cmd, lookupCommand (arg r.argv 0) = some cmd ∧ setsTtl cmd = true

def FedAbsolute (r : Request) : Prop :=
  match lookupCommand (arg r.argv 0) with
  | some .expire => r.mstimeFeed = r.mstime
  | some .pexpire => r.mstimeFeed = r.mstime
  | some .setex => r.mstimeFeed = r.mstime
  | some .psetex => r.mstimeFeed = r.mstime
  | some .set =>
    (setOptions (r.argv.drop 3) { nx := false, xx := false, expire := none }).bind
      SetOptions.expire = none
  | some .restore => getLongLongFromObject (arg r.argv 2) = some 0
  | _ => True

def expireAt (db : Db V) (key : Bytes) (now : Int) : Option (Option Int) :=
  (db.dict key).bind fun e =>
    match e.expire with
    | none => some none
    | some when => if now > when then none else some (some when)

def ExpiresSurvive (cfg : Config) (codec : Codec V) (s : Server V) (rs : List Request) : Prop :=
  ∀ mstime : Nat → Int, (∀ i, ∀ r ∈ rs, r.mstimeFeed ≤ mstime i) →
    ∃ c, loadAppendOnlyFile cfg codec mstime (run (call codec) s rs).aof_buf s.db = some c ∧
      ∀ now dbid key, expireAt (c.server.db dbid) key now =
        expireAt ((run (call codec) s rs).db dbid) key now

theorem Synced.set (h : Synced cfg codec db₀ s) {r : Request} (hdb : Selectable cfg r.dbid)
    (hkey : key.length < 2 ^ 63) {cmd : Proc}
    (hread : ∀ a ∈ fedCommands cmd r.argv r.mstimeFeed, Readable a) (o : SetOptions) (val : V)
    (hfed : ∀ (db : Nat → Db V) ms, expireMillis o.expire = some ms →
      refused o (lookupKey (db r.dbid) key) = false →
      Replays cfg codec (fedCommands cmd r.argv r.mstimeFeed) r.dbid db
        (Function.update db r.dbid (stored (db r.dbid) key val
          (ms.map fun ms => toLongLong (r.mstime + ms))))) :
    Synced cfg codec db₀ (propagate cmd r (setGenericCommand s r.dbid o key val r.mstime)) := by
  have h₁ := h.expireIfNeeded hdb hkey r.mstime
  generalize hs : (Aof.expireIfNeeded s r.dbid key r.mstime).1 = s₁ at h₁
  rw [setGenericCommand_eq s r.dbid o key val r.mstime hs]
  cases hms : expireMillis o.expire with
  | none => exact h
  | some ms =>
    dsimp only
    cases href : refused o (lookupKey (s₁.db r.dbid) key) with
    | true => exact h₁
    | false => exact h₁.feed hdb hread (hfed s₁.db ms hms href)

theorem Synced.expire (h : Synced cfg codec db₀ s) {r : Request} (hdb : Selectable cfg r.dbid)
    (hkey : key.length < 2 ^ 63) {cmd : Proc}
    (hread : ∀ a ∈ fedCommands cmd r.argv r.mstimeFeed, Readable a) (param : Bytes) (basetime : Int)
    (seconds : Bool)
    (hfed : ∀ (db : Nat → Db V) v, getLongLongFromObject param = some v →
      (lookupKey (db r.dbid) key).isSome →
      Replays cfg codec (fedCommands cmd r.argv r.mstimeFeed) r.dbid db
        (Function.update db r.dbid (setExpire (db r.dbid) key
          (toLongLong ((if seconds then toLongLong (v * 1000) else v) + basetime))))) :
    Synced cfg codec db₀
      (propagate cmd r (expireGenericCommand s r.dbid key param basetime seconds r.mstime)) := by
  have h₁ := h.expireIfNeeded hdb hkey r.mstime
  generalize hs : (Aof.expireIfNeeded s r.dbid key r.mstime).1 = s₁ at h₁
  cases hv : getLongLongFromObject param with
  | none =>
    rw [expireGenericCommand, hv]
    exact h
  | some v =>
    have hset := hfed s₁.db v hv
    generalize hwhen : toLongLong ((if seconds then toLongLong (v * 1000) else v) + basetime) = when
      at hset
    rw [expireGenericCommand_eq s r.dbid key param basetime seconds r.mstime hs hv hwhen]
    cases hfound : lookupKey (s₁.db r.dbid) key with
    | none => exact h₁
    | some val =>
      rw [if_neg (by rw [Option.isNone_some]; exact Bool.false_ne_true)]
      cases decide (when ≤ r.mstime) && !s₁.loading && !s₁.masterhost with
      | true => exact h₁.delete hdb hkey r.mstimeFeed
      | false => exact h₁.feed hdb hread (hset (by rw [hfound]; rfl))

theorem restoreCommand_eq (load : Bytes → Option V) (s : Server V) (dbid : Nat) (key ttl payload : Bytes)
    (options : List Bytes) (mstime : Int) (hopts : options.all (Multi.sameCaseless · (ascii "replace")))
    (httl : getLongLongFromObject ttl = some 0) {s₁ : Server V}
    (hs : (if options.isEmpty then (expireIfNeeded s dbid key mstime).1 else s) = s₁) :
    restoreCommand load s dbid key ttl payload options mstime =
      if options.isEmpty && (lookupKey (s₁.db dbid) key).isSome then (s₁, .clean)
      else
        match load payload with
        | none => (s₁, .clean)
        | some obj => (setDb s₁ dbid (dbAdd (if options.isEmpty then s₁.db dbid
            else (dbDelete (s₁.db dbid) key).1) key obj), .dirty) := by
  unfold restoreCommand lookupKeyWrite
  rw [hopts, httl]
  subst hs
  cases options with
  | nil =>
    dsimp only [List.isEmpty_nil]
    simp only [Bool.not_true, Bool.false_eq_true, if_false, if_true, Bool.true_and,
      lt_self_iff_false] <;> rfl
  | cons o os =>
    dsimp only [List.isEmpty_cons]
    simp only [Bool.not_true, Bool.not_false, Bool.false_eq_true, if_false, if_true, Bool.false_and,
      lt_self_iff_false, Option.isSome_none] <;> rfl

theorem Synced.restore (h : Synced cfg codec db₀ s) {r : Request} (hdb : Selectable cfg r.dbid)
    (hread : Readable r.argv) {name ttl payload : Bytes} {options : List Bytes}
    (hargv : r.argv = name :: key :: ttl :: payload :: options)
    (hname : lookupCommand name = some .restore) (httl : getLongLongFromObject ttl = some 0) :
    Synced cfg codec db₀ (propagate .restore r
      (restoreCommand codec.load s r.dbid key ttl payload options r.mstime)) := by
  by_cases hopts : options.all (Multi.sameCaseless · (ascii "replace")) = true
  · have hkey : key.length < 2 ^ 63 := hread.2.2 key (by rw [hargv]; simp)
    have h₁ : Synced cfg codec db₀
        (if options.isEmpty then (Aof.expireIfNeeded s r.dbid key r.mstime).1 else s) := by
      split
      · exact h.expireIfNeeded hdb hkey r.mstime
      · exact h
    generalize hs : (if options.isEmpty then (Aof.expireIfNeeded s r.dbid key r.mstime).1 else s) =
      s₁ at h₁
    rw [restoreCommand_eq codec.load s r.dbid key ttl payload options r.mstime hopts httl hs]
    cases hfound : options.isEmpty && (lookupKey (s₁.db r.dbid) key).isSome with
    | true => exact h₁
    | false =>
      rw [if_neg Bool.false_ne_true]
      cases hload : codec.load payload with
      | none => exact h₁
      | some obj =>
        have hfed : fedCommands .restore r.argv r.mstimeFeed = [r.argv] := rfl
        refine h₁.feed hdb ?_ ?_
        · intro a ha
          rw [hfed, List.mem_singleton] at ha
          rw [ha]
          exact hread
        · rw [hfed, hargv]
          refine Replays.single hname (by decide) ?_
          intro t mstime hloading hsame
          have hsame' : (if options.isEmpty then (Aof.expireIfNeeded t r.dbid key mstime).1 else t) = t := by
            split
            · exact expireIfNeeded_loading hloading ..
            · rfl
          have hproc : proc codec t r.dbid .restore (name :: key :: ttl :: payload :: options) mstime =
              restoreCommand codec.load t r.dbid key ttl payload options mstime := rfl
          rw [hproc, restoreCommand_eq codec.load t r.dbid key ttl payload options mstime hopts httl
            hsame', hsame, hfound, if_neg Bool.false_ne_true, hload]
          refine ⟨hloading, ?_⟩
          show Function.update t.db _ _ = _
          rw [hsame]
  · unfold restoreCommand
    rw [if_pos (by simpa using hopts)]
    exact h

theorem readable_pexpireat (key : Bytes) (hkey : key.length < 2 ^ 63) (n : Int) :
    Readable [ascii "PEXPIREAT", key, ll2string (toLongLong n)] := by
  obtain ⟨hmin, hmax⟩ := toLongLong_fits n
  refine ⟨List.cons_ne_nil _ _, show 3 < 2 ^ 31 by decide, ?_⟩
  intro o ho
  simp only [List.mem_cons, List.not_mem_nil, or_false] at ho
  rcases ho with rfl | rfl | rfl
  · decide
  · exact hkey
  · have hlength := length_decimal_le (show 0 < 20 by decide)
      (show (toLongLong n).natAbs < 10 ^ 20 by omega)
    unfold ll2string
    split
    · rw [List.length_cons]
      omega
    · omega

theorem expireAtMillis_wraps (cmd : Proc) (hcmd : cmd = .expire ∨ cmd = .pexpire ∨ cmd = .expireat ∨
    cmd = .setex ∨ cmd = .psetex) (seconds : Bytes) (mstime : Int) :
    ∃ n, expireAtMillis cmd seconds mstime = toLongLong n := by
  unfold expireAtMillis
  rcases hcmd with rfl | rfl | rfl | rfl | rfl
  · exact ⟨_, rfl⟩
  · exact ⟨_, rfl⟩
  · exact ⟨_, rfl⟩
  · exact ⟨_, rfl⟩
  · exact ⟨_, rfl⟩

theorem readable_fed {cmd : Proc} {argv : List Bytes} (hread : Readable argv) (mstime : Int) :
    ∀ a ∈ fedCommands cmd argv mstime, Readable a := by
  have harg : ∀ j, (arg argv j).length < 2 ^ 63 := by
    intro j
    unfold arg
    rw [List.getD_eq_getElem?_getD]
    cases hj : argv[j]? with
    | none => exact Nat.two_pow_pos 63
    | some o => exact hread.2.2 o (List.mem_of_getElem? hj)
  have hset : Readable [ascii "SET", arg argv 1, arg argv 3] := by
    refine ⟨List.cons_ne_nil _ _, show 3 < 2 ^ 31 by decide, ?_⟩
    intro o ho
    simp only [List.mem_cons, List.not_mem_nil, or_false] at ho
    rcases ho with rfl | rfl | rfl
    · decide
    · exact harg 1
    · exact harg 3
  intro a ha
  unfold fedCommands at ha
  dsimp only at ha
  by_cases h1 : cmd = .expire ∨ cmd = .pexpire ∨ cmd = .expireat
  · rw [if_pos h1, List.mem_singleton] at ha
    obtain ⟨n, hn⟩ := expireAtMillis_wraps cmd (by tauto) (arg argv 2) mstime
    rw [ha, hn]
    exact readable_pexpireat _ (harg 1) n
  · rw [if_neg h1] at ha
    by_cases h2 : cmd = .setex ∨ cmd = .psetex
    · rw [if_pos h2] at ha
      obtain ⟨n, hn⟩ := expireAtMillis_wraps cmd (by tauto) (arg argv 2) mstime
      rcases List.mem_pair.mp ha with rfl | rfl
      · exact hset
      · rw [hn]
        exact readable_pexpireat _ (harg 1) n
    · rw [if_neg h2, List.mem_singleton] at ha
      rw [ha]
      exact hread

theorem Synced.expireRelative (h : Synced cfg codec db₀ s) {r : Request} (hdb : Selectable cfg r.dbid)
    (hread : Readable r.argv) {cmd : Proc} {seconds : Bool}
    (hcmd : (cmd, seconds) ∈ [(Proc.expire, true), (.pexpire, false)])
    {name param : Bytes} (hargv : r.argv = [name, key, param]) (hclock : r.mstimeFeed = r.mstime) :
    Synced cfg codec db₀
      (propagate cmd r (expireGenericCommand s r.dbid key param r.mstime seconds r.mstime)) := by
  have hkey : key.length < 2 ^ 63 := hread.2.2 key (by rw [hargv]; simp)
  refine h.expire hdb hkey (readable_fed hread r.mstimeFeed) param r.mstime seconds ?_
  intro db v hv hfound
  have hmember : (cmd, seconds) ∈
      [(Proc.expire, true), (.pexpire, false), (.setex, true), (.psetex, false)] :=
    List.mem_append_left [(Proc.setex, true), (.psetex, false)] hcmd
  have hmillis := expireAtMillis_relative hmember hv r.mstime
  have hfed : fedCommands cmd r.argv r.mstimeFeed =
      [[ascii "PEXPIREAT", key, ll2string (expireAtMillis cmd param r.mstime)]] := by
    rw [hargv, hclock]
    simp only [List.mem_cons, Prod.mk.injEq, List.not_mem_nil, or_false] at hcmd
    rcases hcmd with ⟨rfl, rfl⟩ | ⟨rfl, rfl⟩
    · rfl
    · rfl
  rw [hfed, hmillis]
  exact replays_absolute db r.dbid key _ hfound

theorem Synced.expireat (h : Synced cfg codec db₀ s) {r : Request} (hdb : Selectable cfg r.dbid)
    (hread : Readable r.argv) {name param : Bytes} (hargv : r.argv = [name, key, param]) :
    Synced cfg codec db₀
      (propagate .expireat r (expireGenericCommand s r.dbid key param 0 true r.mstime)) := by
  have hkey : key.length < 2 ^ 63 := hread.2.2 key (by rw [hargv]; simp)
  refine h.expire hdb hkey (readable_fed hread r.mstimeFeed) param 0 true ?_
  intro db v hv hfound
  have hfed : fedCommands .expireat r.argv r.mstimeFeed =
      [[ascii "PEXPIREAT", key, ll2string (expireAtMillis .expireat param r.mstimeFeed)]] := by
    rw [hargv]
    rfl
  obtain ⟨hmin, hmax⟩ := toLongLong_fits (v * 1000)
  rw [hfed, expireAtMillis_expireat hv, if_pos rfl, add_zero, toLongLong_of_fits hmin hmax]
  exact replays_absolute db r.dbid key _ hfound

theorem Synced.pexpireat (h : Synced cfg codec db₀ s) {r : Request} (hdb : Selectable cfg r.dbid)
    (hread : Readable r.argv) {name param : Bytes} (hargv : r.argv = [name, key, param])
    (hname : lookupCommand name = some .pexpireat) :
    Synced cfg codec db₀
      (propagate .pexpireat r (expireGenericCommand s r.dbid key param 0 false r.mstime)) := by
  have hkey : key.length < 2 ^ 63 := hread.2.2 key (by rw [hargv]; simp)
  refine h.expire hdb hkey (readable_fed hread r.mstimeFeed) param 0 false ?_
  intro db v hv hfound
  have hfed : fedCommands .pexpireat r.argv r.mstimeFeed = [[name, key, param]] := by
    rw [hargv]
    rfl
  rw [hfed, if_neg Bool.false_ne_true]
  exact replays_pexpireat hname hv db r.dbid key hfound

theorem Synced.setex (h : Synced cfg codec db₀ s) {r : Request} (hdb : Selectable cfg r.dbid)
    (hread : Readable r.argv) {cmd : Proc} {seconds : Bool}
    (hcmd : (cmd, seconds) ∈ [(Proc.setex, true), (.psetex, false)])
    {name param val : Bytes} (hargv : r.argv = [name, key, param, val])
    (hclock : r.mstimeFeed = r.mstime) :
    Synced cfg codec db₀ (propagate cmd r (setGenericCommand s r.dbid
      { nx := false, xx := false, expire := some (param, seconds) } key (codec.string val)
      r.mstime)) := by
  have hkey : key.length < 2 ^ 63 := hread.2.2 key (by rw [hargv]; simp)
  refine h.set hdb hkey (readable_fed hread r.mstimeFeed) _ _ ?_
  intro db ms hms _
  have hfed : fedCommands cmd r.argv r.mstimeFeed = [[ascii "SET", key, val],
      [ascii "PEXPIREAT", key, ll2string (expireAtMillis cmd param r.mstime)]] := by
    rw [hargv, hclock]
    simp only [List.mem_cons, Prod.mk.injEq, List.not_mem_nil, or_false] at hcmd
    rcases hcmd with ⟨rfl, rfl⟩ | ⟨rfl, rfl⟩
    · rfl
    · rfl
  have hmember : (cmd, seconds) ∈
      [(Proc.expire, true), (.pexpire, false), (.setex, true), (.psetex, false)] :=
    List.mem_append_right [(Proc.expire, true), (.pexpire, false)] hcmd
  cases hv : getLongLongFromObject param with
  | none =>
    rw [expireMillis, hv] at hms
    cases hms
  | some v =>
    rw [expireMillis, hv] at hms
    dsimp only at hms
    by_cases hpos : v ≤ 0
    · rw [if_pos hpos] at hms
      cases hms
    · rw [if_neg hpos] at hms
      cases hms
      rw [hfed, expireAtMillis_relative hmember hv, Option.map_some, add_comm r.mstime]
      exact replays_setex db r.dbid key val _

theorem proc_set_some {name key val : Bytes} {options : List Bytes} {o : SetOptions}
    (hopts : setOptions options { nx := false, xx := false, expire := none } = some o)
    (s : Server V) (dbid : Nat) (mstime : Int) :
    proc codec s dbid .set (name :: key :: val :: options) mstime =
      setGenericCommand s dbid o key (codec.string val) mstime := by
  delta proc
  dsimp only
  rw [hopts]

theorem proc_set_none {name key val : Bytes} {options : List Bytes}
    (hopts : setOptions options { nx := false, xx := false, expire := none } = none)
    (s : Server V) (dbid : Nat) (mstime : Int) :
    proc codec s dbid .set (name :: key :: val :: options) mstime = (s, .clean) := by
  delta proc
  dsimp only
  rw [hopts]

theorem Synced.setPlain (h : Synced cfg codec db₀ s) {r : Request} (hdb : Selectable cfg r.dbid)
    (hread : Readable r.argv) {name val : Bytes} {options : List Bytes}
    (hargv : r.argv = name :: key :: val :: options) (hname : lookupCommand name = some .set)
    {o : SetOptions}
    (hopts : setOptions options { nx := false, xx := false, expire := none } = some o)
    (hplain : o.expire = none) :
    Synced cfg codec db₀
      (propagate .set r (setGenericCommand s r.dbid o key (codec.string val) r.mstime)) := by
  have hkey : key.length < 2 ^ 63 := hread.2.2 key (by rw [hargv]; simp)
  refine h.set hdb hkey (readable_fed hread r.mstimeFeed) o _ ?_
  intro db ms hms href
  have hfed : fedCommands .set r.argv r.mstimeFeed = [name :: key :: val :: options] := by
    rw [hargv]
    rfl
  rw [hfed]
  refine Replays.single hname (by decide) ?_
  rintro t mstime hload rfl
  rw [proc_set_some hopts, setGenericCommand_eq t r.dbid o key _ mstime
    (expireIfNeeded_loading hload r.dbid key mstime), hms]
  rw [hplain, expireMillis] at hms
  cases hms
  dsimp only
  rw [href, if_neg Bool.false_ne_true]
  exact ⟨hload, rfl⟩

theorem three_cases (argv : List Bytes) :
    (∃ a b c, argv = [a, b, c]) ∨ ∀ a b c, argv ≠ [a, b, c] := by
  rcases argv with _ | ⟨a, _ | ⟨b, _ | ⟨c, _ | ⟨d, rest⟩⟩⟩⟩
  · exact Or.inr (by simp)
  · exact Or.inr (by simp)
  · exact Or.inr (by simp)
  · exact Or.inl ⟨a, b, c, rfl⟩
  · exact Or.inr (by simp)

theorem proc_wrong_arity {cmd : Proc} {argv : List Bytes}
    (hcmd : cmd ∈ [Proc.expire, .pexpire, .expireat, .pexpireat]) (hargv : ∀ a b c, argv ≠ [a, b, c])
    (dbid : Nat) (mstime : Int) : proc codec s dbid cmd argv mstime = (s, .clean) := by
  unfold proc
  simp only [List.mem_cons, List.not_mem_nil, or_false] at hcmd
  rcases hcmd with rfl | rfl | rfl | rfl
  all_goals
    split
    all_goals first | rfl | exact absurd rfl (hargv _ _ _) | contradiction

theorem call_synced (h : Synced cfg codec db₀ s) {r : Request} (hr : Sent cfg r)
    (hok : FedAbsolute r) : Synced cfg codec db₀ (call codec s r) := by
  obtain ⟨hdb, hread, cmd, hcmd, hsets⟩ := hr
  unfold FedAbsolute at hok
  rw [hcmd] at hok
  unfold call
  rw [hcmd]
  dsimp only
  cases cmd with
  | del => cases hsets
  | select => cases hsets
  | expire =>
    rcases three_cases r.argv with ⟨name, key, param, hargv⟩ | hargv
    · rw [hargv]
      exact h.expireRelative hdb hread (by decide) hargv hok
    · rw [proc_wrong_arity (by decide) hargv]
      exact h
  | pexpire =>
    rcases three_cases r.argv with ⟨name, key, param, hargv⟩ | hargv
    · rw [hargv]
      exact h.expireRelative hdb hread (by decide) hargv hok
    · rw [proc_wrong_arity (by decide) hargv]
      exact h
  | expireat =>
    rcases three_cases r.argv with ⟨name, key, param, hargv⟩ | hargv
    · rw [hargv]
      exact h.expireat hdb hread hargv
    · rw [proc_wrong_arity (by decide) hargv]
      exact h
  | pexpireat =>
    rcases three_cases r.argv with ⟨name, key, param, hargv⟩ | hargv
    · rw [hargv] at hcmd ⊢
      exact h.pexpireat hdb hread hargv hcmd
    · rw [proc_wrong_arity (by decide) hargv]
      exact h
  | setex =>
    rcases hargv : r.argv with _ | ⟨name, _ | ⟨key, _ | ⟨param, _ | ⟨val, _ | ⟨x, rest⟩⟩⟩⟩⟩
    · exact h
    · exact h
    · exact h
    · exact h
    · exact h.setex hdb hread (by decide) hargv hok
    · exact h
  | psetex =>
    rcases hargv : r.argv with _ | ⟨name, _ | ⟨key, _ | ⟨param, _ | ⟨val, _ | ⟨x, rest⟩⟩⟩⟩⟩
    · exact h
    · exact h
    · exact h
    · exact h
    · exact h.setex hdb hread (by decide) hargv hok
    · exact h
  | set =>
    rcases hargv : r.argv with _ | ⟨name, _ | ⟨key, _ | ⟨val, options⟩⟩⟩
    · exact h
    · exact h
    · exact h
    · rw [hargv] at hok hcmd
      cases hopts : setOptions options { nx := false, xx := false, expire := none } with
      | none =>
        rw [proc_set_none hopts]
        exact h
      | some o =>
        have hplain : o.expire = none := by
          have hbind : (setOptions options { nx := false, xx := false, expire := none }).bind
            SetOptions.expire = none := hok
          rwa [hopts] at hbind
        rw [proc_set_some hopts]
        exact h.setPlain hdb hread hargv hcmd hopts hplain
  | restore =>
    rcases hargv : r.argv with _ | ⟨name, _ | ⟨key, _ | ⟨ttl, _ | ⟨payload, options⟩⟩⟩⟩
    · exact h
    · exact h
    · exact h
    · exact h
    · rw [hargv] at hok hcmd
      exact h.restore hdb hread hargv hcmd hok

theorem synced_start {s : Server V} (hserving : s.loading = false) (hselected : s.aof_selected_db = none)
    (hempty : s.aof_buf = []) : Synced cfg codec s.db s := by
  refine ⟨hserving, [], hempty, fun a ha => absurd ha List.not_mem_nil, fun mstime => ?_⟩
  refine ⟨start s.db, rfl, rfl, rfl, fun d hd => ?_⟩
  rw [hselected] at hd
  cases hd

theorem run_synced {rs : List Request} (hsent : ∀ r ∈ rs, Sent cfg r) (hok : ∀ r ∈ rs, FedAbsolute r)
    (h : Synced cfg codec db₀ s) : Synced cfg codec db₀ (run (call codec) s rs) := by
  induction rs generalizing s with
  | nil => exact h
  | cons r rs ih =>
    have hnext := call_synced h (hsent r List.mem_cons_self) (hok r List.mem_cons_self)
    exact ih (fun x hx => hsent x (List.mem_cons_of_mem r hx))
      (fun x hx => hok x (List.mem_cons_of_mem r hx)) hnext

theorem Synced.load (h : Synced cfg codec db₀ s) (mstime : Nat → Int) :
    ∃ c, loadAppendOnlyFile cfg codec mstime s.aof_buf db₀ = some c ∧ c.server.db = s.db := by
  obtain ⟨-, cmds, hbuf, hcmds, hrun⟩ := h
  obtain ⟨c, hc, -, hdb, -⟩ := hrun mstime
  refine ⟨c, ?_, hdb⟩
  unfold loadAppendOnlyFile
  rw [hbuf, loadLoop_fileText mstime cmds hcmds (Nat.lt_succ_of_le (length_fileText cmds))]
  exact hc

/-- **Expire times survive a replay**, if every request is fed absolute. -/
theorem expires_survive (cfg : Config) (codec : Codec V) (s : Server V) (hserving : s.loading = false)
    (hselected : s.aof_selected_db = none) (hempty : s.aof_buf = []) (rs : List Request)
    (hsent : ∀ r ∈ rs, Sent cfg r) (hok : ∀ r ∈ rs, FedAbsolute r) :
    ExpiresSurvive cfg codec s rs := by
  intro mstime _
  have h : Synced cfg codec s.db _ := run_synced hsent hok (synced_start hserving hselected hempty)
  obtain ⟨c, hload, hdb⟩ := h.load mstime
  exact ⟨c, hload, fun now dbid key => by rw [hdb]⟩

def freshServer : Server Bytes :=
  { db := fun _ => emptyDb, masterhost := false, loading := false, aof_selected_db := none, aof_buf := [] }

def sixteen : Config := { dbnum := 16, cluster_enabled := false, dbnum_lt := by decide }

def stringCodec : Codec Bytes := { string := id, load := fun _ => none }

def requestAt (mstime : Int) (argv : List String) : Request :=
  { dbid := 3, argv := argv.map ascii, mstime := mstime, mstimeFeed := mstime }

/-- The key has expired when the last command comes, so its DEL is fed too. -/
theorem expires_survive_setex :
    ExpiresSurvive sixteen stringCodec freshServer
      [requestAt 1000 ["SETEX", "k", "10", "v"], requestAt 2000 ["expire", "k", "3"],
        requestAt 9000 ["SET", "k", "w", "NX"], requestAt 9000 ["PEXPIREAT", "k", "20000"]] := by
  have hdb : Selectable sixteen 3 := ⟨by decide, fun h => by cases h⟩
  apply expires_survive sixteen stringCodec freshServer rfl rfl rfl
  · intro r hr
    simp only [List.mem_cons, List.not_mem_nil, or_false] at hr
    rcases hr with rfl | rfl | rfl | rfl
    · exact ⟨hdb, by unfold Readable; decide, .setex, by decide +kernel, rfl⟩
    · exact ⟨hdb, by unfold Readable; decide, .expire, by decide +kernel, rfl⟩
    · exact ⟨hdb, by unfold Readable; decide, .set, by decide +kernel, rfl⟩
    · exact ⟨hdb, by unfold Readable; decide, .pexpireat, by decide +kernel, rfl⟩
  · intro r hr
    simp only [List.mem_cons, List.not_mem_nil, or_false] at hr
    rcases hr with rfl | rfl | rfl | rfl
    · show (1000 : Int) = 1000
      rfl
    · show (2000 : Int) = 2000
      rfl
    · show (setOptions [ascii "NX"] _).bind SetOptions.expire = none
      decide +kernel
    · trivial

/-- SET with EX is fed as it is, so the replay sets the time anew. -/
theorem set_ex_lives_longer :
    ¬ ExpiresSurvive sixteen stringCodec freshServer [requestAt 1000 ["SET", "k", "v", "EX", "10"]] := by
  intro h
  obtain ⟨c, hload, hsame⟩ := h (fun _ => 5000) (by
    intro i r hr
    rw [List.mem_singleton.mp hr]
    decide)
  have hreplayed : (loadAppendOnlyFile sixteen stringCodec (fun _ => 5000)
      (run (call stringCodec) freshServer [requestAt 1000 ["SET", "k", "v", "EX", "10"]]).aof_buf
      freshServer.db).map (fun c => expireAt (c.server.db 3) (ascii "k") 5000) =
        some (some (some 15000)) := by
    decide +kernel
  have hmemory : expireAt ((run (call stringCodec) freshServer
      [requestAt 1000 ["SET", "k", "v", "EX", "10"]]).db 3) (ascii "k") 5000 = some (some 11000) := by
    decide +kernel
  rw [hload, Option.map_some, Option.some.injEq, hsame 5000 3 (ascii "k"), hmemory] at hreplayed
  exact absurd hreplayed (by decide)

end RedisCluster.Aof
