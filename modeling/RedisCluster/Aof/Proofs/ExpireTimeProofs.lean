import RedisCluster.Aof.Proofs.ExpiresProofs

/-!
# Proofs: the arithmetic on expire times

EXPIRE, SETEX, SET with EX or PX, their siblings and the timeouts of the blocking commands multiply an
argument by 1000 and add a time to it, both in `long long`. The time that is used is the exact one as long
as neither operation leaves that range; a command that stores nothing uses no time at all.
-/

namespace RedisCluster.Aof

open RedisCluster.Util RedisCluster.Keyspace

variable {V : Type}

/-- `getTimeoutFromObjectOrReply`: the absolute time in milliseconds, 0 for no timeout, and `none` for the
two errors. -/
def getTimeoutFromObjectOrReply (object : Bytes) (seconds : Bool) (mstime : Int) : Option Int :=
  match getLongLongFromObject object with
  | none => none
  | some tval =>
    if tval < 0 then none
    else if tval > 0 then
      some (toLongLong ((if seconds then toLongLong (tval * 1000) else tval) + mstime))
    else some tval

def millis (seconds : Bool) (v : Int) : Int := if seconds then v * 1000 else v

def NoWrap (seconds : Bool) (v base : Int) : Prop :=
  Numbers.IsLongLong (millis seconds v) ∧ Numbers.IsLongLong (millis seconds v + base)

theorem millis_pos {seconds : Bool} {v : Int} (hv : 0 < v) : 0 < millis seconds v := by
  unfold millis
  split <;> omega

theorem toLongLong_eq {n : Int} (h : Numbers.IsLongLong n) : toLongLong n = n :=
  toLongLong_of_fits h.1 h.2

theorem time_exact {seconds : Bool} {v base : Int} (h : NoWrap seconds v base) :
    toLongLong ((if seconds then toLongLong (v * 1000) else v) + base) = millis seconds v + base := by
  obtain ⟨hproduct, hsum⟩ := h
  unfold millis at hproduct hsum ⊢
  cases seconds with
  | false => exact toLongLong_eq hsum
  | true =>
    rw [if_pos rfl] at hproduct hsum ⊢
    rw [if_pos rfl, toLongLong_eq hproduct, toLongLong_eq hsum]

def applyExpire (s : Server V) (dbid : Nat) (key : Bytes) (when mstime : Int) : Server V × Outcome :=
  if when ≤ mstime && !s.loading && !s.masterhost then
    (setDb s dbid (dbDelete (s.db dbid) key).1, .rewritten .del [ascii "DEL", key])
  else (setDb s dbid (setExpire (s.db dbid) key when), .dirty)

/-- EXPIRE and its siblings: an error changes nothing, a key that is not there is left alone, and else the
time is the exact one. -/
def ExpireExact (s : Server V) (dbid : Nat) (key param : Bytes) (basetime : Int) (seconds : Bool)
    (mstime : Int) : Prop :=
  let out := expireGenericCommand s dbid key param basetime seconds mstime
  let looked := lookupKeyRead s dbid key mstime
  match getLongLongFromObject param with
  | none => out = (s, .clean)
  | some v =>
    looked.2 = none ∧ out = (looked.1, .clean) ∨
      looked.2 ≠ none ∧ NoWrap seconds v basetime ∧
        out = applyExpire looked.1 dbid key (millis seconds v + basetime) mstime

def ExpireFits (s : Server V) (dbid : Nat) (key param : Bytes) (basetime : Int) (seconds : Bool)
    (mstime : Int) : Prop :=
  ∀ v, getLongLongFromObject param = some v → (lookupKeyRead s dbid key mstime).2 ≠ none →
    NoWrap seconds v basetime

theorem expire_exact_iff (s : Server V) (dbid : Nat) (key param : Bytes) (basetime : Int) (seconds : Bool)
    (mstime : Int) : ExpireExact s dbid key param basetime seconds mstime ↔
      ExpireFits s dbid key param basetime seconds mstime := by
  unfold ExpireExact ExpireFits expireGenericCommand
  cases getLongLongFromObject param with
  | none => exact iff_of_true rfl fun v h => nomatch h
  | some v =>
    dsimp only
    cases hlooked : (lookupKeyRead s dbid key mstime).2 with
    | none => exact iff_of_true (Or.inl ⟨rfl, rfl⟩) fun v _ hno => absurd rfl hno
    | some o =>
      have hthere : some o ≠ none := Option.some_ne_none o
      constructor
      · rintro (⟨hno, -⟩ | ⟨-, hfits, -⟩) v' hv' -
        · exact absurd hno hthere
        · cases hv'
          exact hfits
      · intro h
        have hfits := h v rfl hthere
        refine Or.inr ⟨hthere, hfits, ?_⟩
        rw [time_exact hfits]
        rfl

def SetExact (s : Server V) (dbid : Nat) (o : SetOptions) (key : Bytes) (val : V) (mstime : Int) : Prop :=
  let out := setGenericCommand s dbid o key val mstime
  let plain := setGenericCommand s dbid { o with expire := none } key val mstime
  match o.expire with
  | none => True
  | some (expire, seconds) =>
    match getLongLongFromObject expire with
    | none => out = (s, .clean)
    | some v =>
      if v ≤ 0 then out = (s, .clean)
      else
        plain.2 = .clean ∧ out = plain ∨
          plain.2 = .dirty ∧ NoWrap seconds v mstime ∧
            out = (setDb plain.1 dbid (setExpire (plain.1.db dbid) key (millis seconds v + mstime)), .dirty)

def SetFits (s : Server V) (dbid : Nat) (o : SetOptions) (key : Bytes) (val : V) (mstime : Int) : Prop :=
  ∀ expire seconds v, o.expire = some (expire, seconds) → getLongLongFromObject expire = some v → 0 < v →
    (setGenericCommand s dbid { o with expire := none } key val mstime).2 = .dirty → NoWrap seconds v mstime

theorem setGeneric_cases (s : Server V) (dbid : Nat) (o : SetOptions) (key : Bytes) (val : V) (mstime : Int)
    {ms : Option Int} (hms : expireMillis o.expire = some ms) :
    ((setGenericCommand s dbid { o with expire := none } key val mstime).2 = .clean ∧
        setGenericCommand s dbid o key val mstime = setGenericCommand s dbid { o with expire := none } key val mstime) ∨
      ((setGenericCommand s dbid { o with expire := none } key val mstime).2 = .dirty ∧
        ∀ n, ms = some n → setGenericCommand s dbid o key val mstime =
          (setDb (setGenericCommand s dbid { o with expire := none } key val mstime).1 dbid
            (setExpire ((setGenericCommand s dbid { o with expire := none } key val mstime).1.db dbid) key
              (toLongLong (mstime + n))), .dirty)) := by
  unfold setGenericCommand
  rw [hms]
  simp only [expireMillis]
  generalize (if o.nx = true then lookupKeyWrite s dbid key mstime else (s, none)) = r
  by_cases hnx : (o.nx && r.2.isSome) = true
  · rw [if_pos hnx, if_pos hnx]
    exact Or.inl ⟨rfl, rfl⟩
  · rw [if_neg hnx, if_neg hnx]
    generalize (if o.xx = true then lookupKeyWrite r.1 dbid key mstime else (r.1, none)) = q
    by_cases hxx : (o.xx && q.2.isNone) = true
    · rw [if_pos hxx, if_pos hxx]
      exact Or.inl ⟨rfl, rfl⟩
    · rw [if_neg hxx, if_neg hxx]
      refine Or.inr ⟨rfl, ?_⟩
      rintro n rfl
      rfl

theorem set_exact_iff (s : Server V) (dbid : Nat) (o : SetOptions) (key : Bytes) (val : V) (mstime : Int) :
    SetExact s dbid o key val mstime ↔ SetFits s dbid o key val mstime := by
  unfold SetExact SetFits
  cases hexpire : o.expire with
  | none => exact iff_of_true trivial fun _ _ _ h => nomatch h
  | some e =>
    obtain ⟨expire, seconds⟩ := e
    dsimp only
    cases hv : getLongLongFromObject expire with
    | none =>
      refine iff_of_true ?_ fun expire' seconds' v h hv' => ?_
      · simp only [setGenericCommand, expireMillis, hexpire, hv]
      · cases h
        rw [hv] at hv'
        cases hv'
    | some v =>
      dsimp only
      by_cases hneg : v ≤ 0
      · rw [if_pos hneg]
        refine iff_of_true ?_ fun expire' seconds' v' h hv' hpos => ?_
        · simp only [setGenericCommand, expireMillis, hexpire, hv, if_pos hneg]
        · cases h
          rw [hv] at hv'
          cases hv'
          omega
      · rw [if_neg hneg]
        have hms : expireMillis o.expire = some (some (if seconds then toLongLong (v * 1000) else v)) := by
          simp only [expireMillis, hexpire, hv, if_neg hneg]
        have hcases := setGeneric_cases s dbid o key val mstime hms
        rcases hcases with ⟨hclean, hout⟩ | ⟨hdirty, hout⟩
        · refine iff_of_true (Or.inl ⟨hclean, hout⟩) fun _ _ _ _ _ _ hdirty => ?_
          rw [hclean] at hdirty
          cases hdirty
        · have hexact := hout _ rfl
          constructor
          · rintro (⟨hclean, -⟩ | ⟨-, hfits, -⟩) expire' seconds' v' h hv' - -
            · rw [hclean] at hdirty
              cases hdirty
            · cases h
              rw [hv] at hv'
              cases hv'
              exact hfits
          · intro h
            have hfits := h expire seconds v rfl hv (by omega) hdirty
            refine Or.inr ⟨hdirty, hfits, ?_⟩
            rw [hexact, Int.add_comm mstime, time_exact hfits]

def TimeoutExact (object : Bytes) (seconds : Bool) (mstime : Int) : Prop :=
  let out := getTimeoutFromObjectOrReply object seconds mstime
  match getLongLongFromObject object with
  | none => out = none
  | some v =>
    if v < 0 then out = none
    else if v = 0 then out = some 0
    else NoWrap seconds v mstime ∧ out = some (millis seconds v + mstime)

def TimeoutFits (object : Bytes) (seconds : Bool) (mstime : Int) : Prop :=
  ∀ v, getLongLongFromObject object = some v → 0 < v → NoWrap seconds v mstime

theorem timeout_exact_iff (object : Bytes) (seconds : Bool) (mstime : Int) :
    TimeoutExact object seconds mstime ↔ TimeoutFits object seconds mstime := by
  unfold TimeoutExact TimeoutFits getTimeoutFromObjectOrReply
  cases getLongLongFromObject object with
  | none => exact iff_of_true rfl fun v h => nomatch h
  | some v =>
    dsimp only
    rcases lt_trichotomy v 0 with hneg | rfl | hpos
    · rw [if_pos hneg, if_pos hneg]
      refine iff_of_true rfl fun v' hv' hpos => ?_
      cases hv'
      omega
    · exact iff_of_true rfl fun v' hv' hpos => by cases hv'; omega
    · rw [if_neg (by omega), if_neg (by omega), if_neg (by omega), if_pos hpos]
      constructor
      · rintro ⟨hfits, -⟩ v' hv' -
        cases hv'
        exact hfits
      · intro h
        have hfits := h v rfl hpos
        exact ⟨hfits, congrArg some (time_exact hfits)⟩

def Lives (s : Server V) (dbid : Nat) (key : Bytes) (when mstime : Int) : Prop :=
  dbExists (s.db dbid) key = true ∧ getExpire (s.db dbid) key = when ∧ mstime < when ∧ 0 ≤ when

theorem lives_setExpire {s : Server V} {dbid : Nat} {key : Bytes} {when mstime : Int}
    (hkey : dbExists (s.db dbid) key = true) (hmstime : 0 ≤ mstime) (hwhen : mstime < when) :
    Lives (setDb s dbid (setExpire (s.db dbid) key when)) dbid key when mstime := by
  obtain ⟨e, he⟩ := Option.isSome_iff_exists.mp hkey
  refine ⟨?_, ?_, hwhen, by omega⟩
  · simp only [setDb, setExpire, dbExists, Function.update_self, he, Option.map_some, Option.isSome_some]
  · simp only [setDb, setExpire, getExpire, Function.update_self, he, Option.map_some, Option.bind_some,
      Option.getD_some]

theorem dbExists_of_lookup {db : Db V} {key : Bytes} (h : lookupKey db key ≠ none) :
    dbExists db key = true := by
  unfold lookupKey at h
  rw [Ne, Option.map_eq_none_iff] at h
  exact Option.isSome_iff_ne_none.mpr h

theorem expire_lives {s : Server V} {dbid : Nat} {key param : Bytes} {seconds : Bool} {mstime v : Int}
    (hv : getLongLongFromObject param = some v) (hpos : 0 < v) (hmstime : 0 ≤ mstime)
    (hthere : (lookupKeyRead s dbid key mstime).2 ≠ none) (hfits : NoWrap seconds v mstime) :
    Lives (expireGenericCommand s dbid key param mstime seconds mstime).1 dbid key
      (millis seconds v + mstime) mstime := by
  have hexact := (expire_exact_iff s dbid key param mstime seconds mstime).mpr
    fun v' hv' _ => by rw [hv] at hv'; cases hv'; exact hfits
  unfold ExpireExact at hexact
  rw [hv] at hexact
  rcases hexact with ⟨hno, -⟩ | ⟨-, -, hout⟩
  · exact absurd hno hthere
  · have hmillis := @millis_pos seconds _ hpos
    have hlater : mstime < millis seconds v + mstime := by omega
    have hkeep : ¬ ((decide (millis seconds v + mstime ≤ mstime) &&
        !(lookupKeyRead s dbid key mstime).1.loading && !(lookupKeyRead s dbid key mstime).1.masterhost) = true) := by
      rw [decide_eq_false (not_le.mpr hlater)]
      exact Bool.false_ne_true
    rw [hout, applyExpire, if_neg hkeep]
    exact lives_setExpire (dbExists_of_lookup hthere) hmstime hlater

theorem exists_of_set {s : Server V} {dbid : Nat} {o : SetOptions} {key : Bytes} {val : V} {mstime : Int}
    (h : (setGenericCommand s dbid { o with expire := none } key val mstime).2 = .dirty) :
    dbExists ((setGenericCommand s dbid { o with expire := none } key val mstime).1.db dbid) key = true := by
  unfold setGenericCommand at h ⊢
  simp only [expireMillis] at h ⊢
  generalize (if o.nx = true then lookupKeyWrite s dbid key mstime else (s, none)) = r at h ⊢
  by_cases hnx : (o.nx && r.2.isSome) = true
  · rw [if_pos hnx] at h
    cases h
  · rw [if_neg hnx] at h ⊢
    generalize (if o.xx = true then lookupKeyWrite r.1 dbid key mstime else (r.1, none)) = q at h ⊢
    by_cases hxx : (o.xx && q.2.isNone) = true
    · rw [if_pos hxx] at h
      cases h
    · rw [if_neg hxx]
      simp only [setKey, setDb, Function.update_self]
      exact dbExists_of_lookup (Option.isSome_iff_ne_none.mp (lookup_setKey ..))

theorem set_lives {s : Server V} {dbid : Nat} {o : SetOptions} {key expire : Bytes} {val : V} {seconds : Bool}
    {mstime v : Int} (hexpire : o.expire = some (expire, seconds)) (hv : getLongLongFromObject expire = some v)
    (hpos : 0 < v) (hmstime : 0 ≤ mstime)
    (hdirty : (setGenericCommand s dbid { o with expire := none } key val mstime).2 = .dirty)
    (hfits : NoWrap seconds v mstime) :
    Lives (setGenericCommand s dbid o key val mstime).1 dbid key (millis seconds v + mstime) mstime := by
  have hexact := (set_exact_iff s dbid o key val mstime).mpr fun expire' seconds' v' hexpire' hv' _ _ => by
    rw [hexpire] at hexpire'
    cases hexpire'
    rw [hv] at hv'
    cases hv'
    exact hfits
  unfold SetExact at hexact
  rw [hexpire] at hexact
  simp only [hv, if_neg (not_le.mpr hpos)] at hexact
  rcases hexact with ⟨hclean, -⟩ | ⟨-, -, hout⟩
  · rw [hclean] at hdirty
    cases hdirty
  · have hmillis := @millis_pos seconds _ hpos
    rw [hout]
    exact lives_setExpire (exists_of_set hdirty) hmstime (by omega)

/-- Each command is exact if and only if its own arithmetic stays inside `long long`; a positive TTL that
does is set and neither deletes the key nor reads as none. -/
theorem times_exact_iff :
    (∀ (s : Server V) (dbid : Nat) (key param : Bytes) (basetime : Int) (seconds : Bool) (mstime : Int),
      ExpireExact s dbid key param basetime seconds mstime ↔
        ExpireFits s dbid key param basetime seconds mstime) ∧
      (∀ (s : Server V) (dbid : Nat) (o : SetOptions) (key : Bytes) (val : V) (mstime : Int),
        SetExact s dbid o key val mstime ↔ SetFits s dbid o key val mstime) ∧
      (∀ (object : Bytes) (seconds : Bool) (mstime : Int),
        TimeoutExact object seconds mstime ↔ TimeoutFits object seconds mstime) ∧
      (∀ (s : Server V) (dbid : Nat) (key param : Bytes) (seconds : Bool) (mstime v : Int),
        getLongLongFromObject param = some v → 0 < v → 0 ≤ mstime →
          (lookupKeyRead s dbid key mstime).2 ≠ none → NoWrap seconds v mstime →
            Lives (expireGenericCommand s dbid key param mstime seconds mstime).1 dbid key
              (millis seconds v + mstime) mstime) ∧
      ∀ (s : Server V) (dbid : Nat) (o : SetOptions) (key expire : Bytes) (val : V) (seconds : Bool)
        (mstime v : Int), o.expire = some (expire, seconds) → getLongLongFromObject expire = some v → 0 < v →
          0 ≤ mstime → (setGenericCommand s dbid { o with expire := none } key val mstime).2 = .dirty →
            NoWrap seconds v mstime →
              Lives (setGenericCommand s dbid o key val mstime).1 dbid key (millis seconds v + mstime) mstime := by
  refine ⟨expire_exact_iff, set_exact_iff, timeout_exact_iff, ?_, ?_⟩
  · intro s dbid key param seconds mstime v hv hpos hmstime hthere hfits
    exact expire_lives hv hpos hmstime hthere hfits
  · intro s dbid o key expire val seconds mstime v hexpire hv hpos hmstime hdirty hfits
    exact set_lives hexpire hv hpos hmstime hdirty hfits

def oneKey : Server Nat :=
  { db := fun _ => { dict := Function.update (fun _ => none) (ascii "k") (some { val := 1, expire := none }) }
    masterhost := false, loading := false, aof_selected_db := none, aof_buf := [] }

/-- EXPIRE k 10, ten seconds after the epoch. -/
theorem times_exact_ten :
    Lives (expireGenericCommand oneKey 0 (ascii "k") (ascii "10") 10000 true 10000).1 0 (ascii "k") 20000 10000 :=
  times_exact_iff.2.2.2.1 oneKey 0 (ascii "k") (ascii "10") true 10000 10 (by decide) (by decide) (by decide)
    (by decide) ⟨⟨by decide, by decide⟩, ⟨by decide, by decide⟩⟩

/-- The largest number of seconds is less than a second ago: the key is deleted at once. -/
theorem longTtl_deletes :
    ¬ ExpireExact oneKey 0 (ascii "k") (ascii "9223372036854775807") 10000 true 10000 ∧
      dbExists ((expireGenericCommand oneKey 0 (ascii "k") (ascii "9223372036854775807") 10000 true 10000).1.db 0)
        (ascii "k") = false := by
  constructor
  · intro h
    have hfits := (expire_exact_iff oneKey 0 (ascii "k") (ascii "9223372036854775807") 10000 true 10000).mp h
      9223372036854775807 (by decide) (by decide)
    exact absurd hfits.1.2 (by decide)
  · decide

end RedisCluster.Aof
