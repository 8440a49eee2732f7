import RedisCluster.Keyspace.Proofs.RewritingProofs

/-!
# Served clients on a replica

While clients are served the master keeps the entry of the list also when it is empty, and a replica
that follows has none then. `Serving` says how the two differ between two clients.
-/

namespace RedisCluster.Keyspace

open RedisCluster.Util RedisCluster.Lib

variable {ζ : Type} {s t : Server (Value ζ)} {dbid : Nat} {key : Bytes} {now : Int}

/-! ## Pops and pushes as updates of one entry -/

def popped (e : ListEnd) : Option (Keyed (Value ζ)) → Option (Keyed (Value ζ))
  | some ⟨.list l, x⟩ =>
    match listTypePop e l with
    | some (_, l') => if l' = [] then none else some ⟨.list l', x⟩
    | none => some ⟨.list l, x⟩
  | entry => entry

def pushed (val : Bytes) : Option (Keyed (Value ζ)) → Option (Keyed (Value ζ))
  | none => some ⟨.list [val], none⟩
  | some ⟨.list l, x⟩ => some ⟨.list (val :: l), x⟩
  | entry => entry

theorem unchanged {db : Db (Value ζ)} {entry : Option (Keyed (Value ζ))}
    (h : db.dict key = entry) : db.dict = Function.update db.dict key entry := by
  rw [← h, Function.update_eq_self]

theorem popGeneric_dict (e : ListEnd) (key : Bytes) (db : Db (Value ζ)) :
    (popGeneric e key db).1.dict = Function.update db.dict key (popped e (db.dict key)) := by
  cases hk : db.dict key with
  | none =>
    rw [popGeneric, lookupKey, hk]
    exact unchanged hk
  | some entry =>
    obtain ⟨v, x⟩ := entry
    rw [popGeneric, lookupKey, hk]
    cases v with
    | list l =>
      cases hpop : listTypePop e l with
      | none =>
        simp only [Option.map_some, popped, hpop]
        exact unchanged hk
      | some r =>
        simp only [Option.map_some, popped, hpop, storeList]
        by_cases hempty : r.2 = []
        · rw [if_pos hempty, if_pos hempty]
          rfl
        · rw [if_neg hempty, if_neg hempty, dbOverwrite_of_entry hk]
    | string _ | set _ | hash _ | zset _ => exact unchanged hk

theorem pushHead_dict (key val : Bytes) (db : Db (Value ζ)) :
    (pushHead key val db).1.dict = Function.update db.dict key (pushed val (db.dict key)) := by
  cases hk : db.dict key with
  | none =>
    rw [pushHead, lookupKey, hk]
    rfl
  | some entry =>
    obtain ⟨v, x⟩ := entry
    rw [pushHead, lookupKey, hk]
    cases v with
    | list l =>
      simp only [Option.map_some]
      rw [dbOverwrite_of_entry hk]
      rfl
    | string _ | set _ | hash _ | zset _ => exact unchanged hk

/-! ## Wrong types -/

theorem wrongType_none (h : (t.db dbid).dict key = none) : wrongType t dbid now key = false := by
  rw [wrongType, liveEntry, h]
  rfl

theorem wrongType_list {l : List Bytes} {x : Option Int}
    (h : (t.db dbid).dict key = some ⟨.list l, x⟩) : wrongType t dbid now key = false := by
  rw [wrongType, liveEntry, h]
  cases x with
  | none => rfl
  | some x =>
    by_cases hexp : 0 ≤ x ∧ x < now ∧ t.loading = false ∧ t.masterhost = false
    · simp only [if_pos hexp, Option.map_none]
    · simp only [if_neg hexp, Option.map_some]

theorem wrongType_congr (hentry : (t.db dbid).dict key = (s.db dbid).dict key)
    (hload : t.loading = s.loading) (hmaster : t.masterhost = s.masterhost) :
    wrongType t dbid now key = wrongType s dbid now key := by
  rw [wrongType, wrongType, liveEntry, liveEntry, hentry, hload, hmaster]

/-! ## Between two clients -/

def mirror (l : List Bytes) (x : Option Int) (alone : Bool) : Option (Keyed (Value ζ)) :=
  if l = [] then none else some ⟨.list l, if alone then none else x⟩

/-- `l` is what is left of the list, with its expire time `x`; `es` was fed since the state `s`. With
`alone` the replica has lost the expire time. -/
structure Serving (s t : Server (Value ζ)) (dbid : Nat) (key : Bytes) (now : Int) (l : List Bytes)
    (x : Option Int) (alone : Bool) (es : List (Entry (Value ζ))) : Prop where
  slaves : t.slaves = s.slaves ++ es
  entry : (t.db dbid).dict key = some ⟨.list l, x⟩
  others : ∀ i, i ≠ dbid → applied es s.db i = t.db i
  same : ∀ k, k ≠ key → (applied es s.db dbid).dict k = (t.db dbid).dict k
  mirrored : (applied es s.db dbid).dict key = mirror l x alone
  loading : t.loading = s.loading
  masterhost : t.masterhost = s.masterhost
  wrong : ∀ k, k ≠ key → wrongType t dbid now k = wrongType s dbid now k

theorem applied_pop (es : List (Entry (Value ζ))) (e : ListEnd) (dbs : Nat → Db (Value ζ)) :
    applied (es ++ [{ dbid := dbid, cmd := popCommand e key }]) dbs =
      Function.update (applied es dbs) dbid (popGeneric e key (applied es dbs dbid)).1 := by
  rw [applied_append]
  rfl

theorem applied_push (es : List (Entry (Value ζ))) (val : Bytes) (dbs : Nat → Db (Value ζ)) :
    applied (es ++ [{ dbid := dbid, cmd := lpushCommand key val }]) dbs =
      Function.update (applied es dbs) dbid (pushHead key val (applied es dbs dbid)).1 := by
  rw [applied_append]
  rfl

theorem popped_mirror {e : ListEnd} {l l' : List Bytes} {value : Bytes} (x : Option Int)
    (alone : Bool) (hpop : listTypePop e l = some (value, l')) :
    popped (ζ := ζ) e (mirror l x alone) = mirror l' x alone := by
  have hne : l ≠ [] := by
    rintro rfl
    cases hpop
  rw [mirror, if_neg hne, popped, hpop]
  rfl

/-- One more entry is fed, by which the replica's database becomes `d'` while the master's becomes
`d`. -/
theorem Serving.feed {l l' : List Bytes} {x : Option Int} {alone alone' : Bool}
    {es : List (Entry (Value ζ))} (h : Serving s t dbid key now l x alone es) {e : Entry (Value ζ)}
    {d d' : Db (Value ζ)} {u : Server (Value ζ)} (hslaves : u.slaves = t.slaves ++ [e])
    (hdb : u.db = Function.update t.db dbid d)
    (happ : applied (es ++ [e]) s.db = Function.update (applied es s.db) dbid d')
    (hentry : d.dict key = some ⟨.list l', x⟩) (hsame : ∀ k, k ≠ key → d'.dict k = d.dict k)
    (hmirror : d'.dict key = mirror l' x alone') (hload : u.loading = t.loading)
    (hmaster : u.masterhost = t.masterhost)
    (hwrong : ∀ k, k ≠ key → wrongType u dbid now k = wrongType t dbid now k) :
    Serving s u dbid key now l' x alone' (es ++ [e]) := by
  constructor
  · rw [hslaves, h.slaves, List.append_assoc]
  · rw [hdb, Function.update_self, hentry]
  · intro i hi
    rw [happ, hdb, Function.update_of_ne hi, Function.update_of_ne hi, h.others i hi]
  · intro k hk
    rw [happ, hdb, Function.update_self, Function.update_self, hsame k hk]
  · rw [happ, Function.update_self, hmirror]
  · rw [hload, h.loading]
  · rw [hmaster, h.masterhost]
  · intro k hk
    rw [hwrong k hk, h.wrong k hk]

theorem Serving.pop {l l' : List Bytes} {x : Option Int} {alone : Bool}
    {es : List (Entry (Value ζ))} (h : Serving s t dbid key now l x alone es) {e : ListEnd}
    {value : Bytes} (hpop : listTypePop e l = some (value, l')) {u : Server (Value ζ)}
    (hslaves : u.slaves = t.slaves ++ [{ dbid := dbid, cmd := popCommand e key }])
    (hdb : u.db = Function.update t.db dbid (dbOverwrite (t.db dbid) key (.list l')))
    (hload : u.loading = t.loading) (hmaster : u.masterhost = t.masterhost) :
    Serving s u dbid key now l' x alone (es ++ [{ dbid := dbid, cmd := popCommand e key }]) := by
  have hdict : (dbOverwrite (t.db dbid) key (.list l')).dict =
      Function.update (t.db dbid).dict key (some ⟨.list l', x⟩) := by
    rw [dbOverwrite_of_entry h.entry]
  refine h.feed hslaves hdb (applied_pop es e s.db) ?_ (fun k hk => ?_) ?_ hload hmaster fun k hk => ?_
  · rw [hdict, Function.update_self]
  · rw [popGeneric_dict, Function.update_of_ne hk, hdict, Function.update_of_ne hk, h.same k hk]
  · rw [popGeneric_dict, Function.update_self, h.mirrored, popped_mirror x alone hpop]
  · refine wrongType_congr ?_ hload hmaster
    rw [hdb, Function.update_self, hdict, Function.update_of_ne hk]

theorem Serving.push {l : List Bytes} {x : Option Int} {alone : Bool}
    {es : List (Entry (Value ζ))} (h : Serving s t dbid key now l x alone es) {dst : Bytes} (value : Bytes)
    (hdst : dst ≠ key)
    (hlist : lookupKey (t.db dbid) dst = none ∨ ∃ m, lookupKey (t.db dbid) dst = some (.list m)) :
    Serving s (commit t dbid (pushHead dst value (t.db dbid)).1 (lpushCommand dst value)) dbid key now
      l x alone (es ++ [{ dbid := dbid, cmd := lpushCommand dst value }]) := by
  refine h.feed (commit_slaves ..) (commit_db ..) (applied_push es value s.db) ?_ (fun k hk => ?_) ?_
    (propagate_loading ..) (propagate_masterhost ..) fun k hk => ?_
  · rw [pushHead_dict, Function.update_of_ne hdst.symm, h.entry]
  · rw [pushHead_dict, pushHead_dict]
    by_cases hkd : k = dst
    · subst hkd
      rw [Function.update_self, Function.update_self, h.same k hdst]
    · rw [Function.update_of_ne hkd, Function.update_of_ne hkd, h.same k hk]
  · rw [pushHead_dict, Function.update_of_ne hdst.symm, h.mirrored]
  · by_cases hkd : k = dst
    · subst hkd
      rcases hlist with hnone | ⟨m, hm⟩
      · have hk' : (t.db dbid).dict k = none := dict_of_lookup_none hnone
        rw [wrongType_none hk', wrongType_list (l := [value]) (x := none)]
        rw [commit_db, Function.update_self, pushHead_dict, Function.update_self, hk']
        rfl
      · obtain ⟨y, hy⟩ := entry_of_lookup hm
        rw [wrongType_list hy, wrongType_list (l := value :: m) (x := y)]
        rw [commit_db, Function.update_self, pushHead_dict, Function.update_self, hy]
        rfl
    · refine wrongType_congr ?_ (propagate_loading ..) (propagate_masterhost ..)
      rw [commit_db, Function.update_self, pushHead_dict, Function.update_of_ne hkd]

theorem deleteFed_loading (s : Server (Value ζ)) (d : Nat × Bytes) :
    (deleteFed s d).loading = s.loading := by
  unfold deleteFed deleteKey propagateExpire replicationFeedSlaves feedAppendOnlyFile
  cases s.aof_state_on <;> rfl

theorem deleteFed_masterhost (s : Server (Value ζ)) (d : Nat × Bytes) :
    (deleteFed s d).masterhost = s.masterhost := by
  unfold deleteFed deleteKey propagateExpire replicationFeedSlaves feedAppendOnlyFile
  cases s.aof_state_on <;> rfl

theorem Serving.lookedUp {l : List Bytes} {x : Option Int} {alone : Bool}
    {es : List (Entry (Value ζ))} (h : Serving s t dbid key now l x alone es) {dst : Bytes}
    (hdst : dst ≠ key) :
    ∃ es', Serving s (looked t dbid dst now) dbid key now l x alone es' := by
  rcases looked_cases t dbid dst now with ⟨hsame, -⟩ | ⟨hdel, hlive, hpresent⟩
  · rw [hsame]
    exact ⟨es, h⟩
  · have hdelete : ∀ db : Db (Value ζ), (dbDelete db dst).1.dict = Function.update db.dict dst none :=
      fun _ => rfl
    have hthere : dbExists (applied es s.db dbid) dst = true := by
      rw [dbExists, h.same dst hdst]
      exact hpresent
    have happ : applied (es ++ [delEntry (dbid, dst)]) s.db =
        Function.update (applied es s.db) dbid (dbDelete (applied es s.db dbid) dst).1 := by
      rw [applied_append]
      show (delKey dst dbid (applied es s.db)).1 = _
      rw [delKey, if_pos hthere]
    rw [hdel]
    refine ⟨_, h.feed (deleteFed_slaves ..) (deleteFed_db ..) happ ?_ (fun k hk => ?_) ?_
      (deleteFed_loading ..) (deleteFed_masterhost ..) fun k hk => ?_⟩
    · rw [hdelete, Function.update_of_ne hdst.symm, h.entry]
    · rw [hdelete, hdelete]
      by_cases hkd : k = dst
      · rw [hkd, Function.update_self, Function.update_self]
      · rw [Function.update_of_ne hkd, Function.update_of_ne hkd, h.same k hk]
    · rw [hdelete, Function.update_of_ne hdst.symm, h.mirrored]
    · by_cases hkd : k = dst
      · subst hkd
        rw [wrongType_none (by rw [deleteFed_db, Function.update_self, hdelete, Function.update_self]),
          wrongType, hlive]
        rfl
      · refine wrongType_congr ?_ (deleteFed_loading ..) (deleteFed_masterhost ..)
        rw [deleteFed_db, Function.update_self, hdelete, Function.update_of_ne hkd]

theorem Serving.pushSelf {l : List Bytes} {x : Option Int} {alone : Bool}
    {es : List (Entry (Value ζ))} (h : Serving s t dbid key now l x alone es) (value : Bytes) :
    Serving s (commit t dbid (pushHead key value (t.db dbid)).1 (lpushCommand key value)) dbid key now
      (value :: l) x (alone || l.length == 0) (es ++ [{ dbid := dbid, cmd := lpushCommand key value }]) := by
  refine h.feed (commit_slaves ..) (commit_db ..) (applied_push es value s.db) ?_ (fun k hk => ?_) ?_
    (propagate_loading ..) (propagate_masterhost ..) fun k hk => ?_
  · rw [pushHead_dict, Function.update_self, h.entry]
    rfl
  · rw [pushHead_dict, pushHead_dict, Function.update_of_ne hk, Function.update_of_ne hk, h.same k hk]
  · rw [pushHead_dict, Function.update_self, h.mirrored]
    cases l with
    | nil => simp [mirror, pushed]
    | cons v l => simp [mirror, pushed]
  · refine wrongType_congr ?_ (propagate_loading ..) (propagate_masterhost ..)
    rw [commit_db, Function.update_self, pushHead_dict, Function.update_of_ne hk]

/-! ## One client -/

def inPlace (t : Server (Value ζ)) (dbid : Nat) (key : Bytes) (l : List Bytes) : Server (Value ζ) :=
  { t with db := Function.update t.db dbid (dbOverwrite (t.db dbid) key (.list l)) }

theorem inPlace_db (t : Server (Value ζ)) (dbid : Nat) (key : Bytes) (l : List Bytes) :
    (inPlace t dbid key l).db =
      Function.update t.db dbid (dbOverwrite (t.db dbid) key (.list l)) := rfl

theorem deleteFed_eq (s : Server (Value ζ)) (d : Nat × Bytes) :
    deleteFed s d =
      { s with
        db := Function.update s.db d.1 (dbDelete (s.db d.1) d.2).1
        aof := if s.aof_state_on then s.aof ++ [delEntry d] else s.aof
        slaves := s.slaves ++ [delEntry d] } := by
  obtain ⟨db, masterhost, loading, on, aof, slaves⟩ := s
  cases on <;> rfl

theorem inPlace_dict {l : List Bytes} {k : Bytes} (hk : k ≠ key) :
    ((inPlace t dbid key l).db dbid).dict k = (t.db dbid).dict k := by
  show (Function.update t.db dbid _ dbid).dict k = _
  rw [Function.update_self]
  exact Function.update_of_ne hk ..

theorem inPlace_wrongType {l : List Bytes} {k : Bytes} (hk : k ≠ key) :
    wrongType (inPlace t dbid key l) dbid now k = wrongType t dbid now k :=
  wrongType_congr (inPlace_dict hk) rfl rfl

theorem inPlace_liveEntry {l : List Bytes} {k : Bytes} (hk : k ≠ key) :
    liveEntry (inPlace t dbid key l) dbid k now = liveEntry t dbid k now := by
  rw [liveEntry, liveEntry, inPlace_dict hk]
  rfl

theorem looked_inPlace {l : List Bytes} {dst : Bytes} (hdst : dst ≠ key) :
    looked (inPlace t dbid key l) dbid dst now = inPlace (looked t dbid dst now) dbid key l := by
  rcases looked_cases t dbid dst now with ⟨hsame, hlive⟩ | ⟨hdel, hlive, hpresent⟩
  · rw [hsame]
    rcases looked_cases (inPlace t dbid key l) dbid dst now with ⟨h, -⟩ | ⟨-, hnone, hthere⟩
    · exact h
    · rw [inPlace_liveEntry hdst, hlive] at hnone
      rw [Present, dbExists, inPlace_dict hdst, hnone] at hthere
      cases hthere
  · rw [hdel]
    rcases looked_cases (inPlace t dbid key l) dbid dst now with ⟨-, hsome⟩ | ⟨h, -, -⟩
    · rw [inPlace_liveEntry hdst, hlive, inPlace_dict hdst] at hsome
      have hthere : dbExists (t.db dbid) dst = true := hpresent
      rw [dbExists, ← hsome] at hthere
      cases hthere
    · rw [h]
      have hdb : Function.update (inPlace t dbid key l).db dbid
          (dbDelete ((inPlace t dbid key l).db dbid) dst).1 =
          Function.update (Function.update t.db dbid (dbDelete (t.db dbid) dst).1) dbid
            (dbOverwrite (dbDelete (t.db dbid) dst).1 key (.list l)) := by
        rw [inPlace_db, Function.update_self, Function.update_idem, Function.update_idem]
        congr 1
        simp only [dbDelete, dbOverwrite, Function.update_of_ne hdst.symm]
        rw [Function.update_comm hdst]
      have hself : (deleteFed t (dbid, dst)).db dbid = (dbDelete (t.db dbid) dst).1 := by
        rw [deleteFed_db, Function.update_self]
      show _ = { deleteFed t (dbid, dst) with
        db := Function.update (deleteFed t (dbid, dst)).db dbid
          (dbOverwrite ((deleteFed t (dbid, dst)).db dbid) key (.list l)) }
      rw [hself, deleteFed_eq, deleteFed_eq]
      dsimp only
      rw [hdb]
      rfl

def Alive (s : Server (Value ζ)) (now : Int) (x : Option Int) : Prop :=
  ∀ v, x = some v → ¬ (0 ≤ v ∧ v < now ∧ s.loading = false ∧ s.masterhost = false)

theorem looked_alive {l : List Bytes} {x : Option Int}
    (hentry : (t.db dbid).dict key = some ⟨.list l, x⟩) (halive : Alive t now x) :
    looked t dbid key now = t := by
  rcases looked_cases t dbid key now with ⟨hsame, -⟩ | ⟨-, hnone, -⟩
  · exact hsame
  · rw [liveEntry, hentry] at hnone
    cases x with
    | none => cases hnone
    | some v =>
      simp only at hnone
      rw [if_neg (halive v rfl)] at hnone
      cases hnone

theorem listTypePop_length {e : ListEnd} {l l' : List Bytes} {value : Bytes}
    (hpop : listTypePop e l = some (value, l')) : l.length = l'.length + 1 := by
  cases l with
  | nil => cases hpop
  | cons v l =>
    cases e <;> cases hpop <;> simp

theorem listTypePop_back {l l' : List Bytes} {value : Bytes}
    (hpop : listTypePop .tail l = some (value, l')) : listTypePush l' value .tail = l := by
  cases l with
  | nil => cases hpop
  | cons v l =>
    cases hpop
    exact List.dropLast_append_getLast _

theorem not_wrongType {k : Bytes} (h : wrongType t dbid now k = false) :
    lookupKey ((looked t dbid k now).db dbid) k = none ∨
      ∃ m, lookupKey ((looked t dbid k now).db dbid) k = some (.list m) := by
  rw [lookup_looked]
  unfold wrongType at h
  cases hv : (liveEntry t dbid k now).map Keyed.val with
  | none => exact Or.inl rfl
  | some v =>
    rw [hv] at h
    cases v with
    | list m => exact Or.inr ⟨m, rfl⟩
    | string _ | set _ | hash _ | zset _ => cases h

theorem Serving.receiver {l l' : List Bytes} {x : Option Int} {alone : Bool}
    {es : List (Entry (Value ζ))} (h : Serving s t dbid key now l x alone es)
    (halive : Alive s now x) (r : Receiver) {value : Bytes}
    (hpop : listTypePop r.where l = some (value, l')) (rs : List Receiver) :
    ∃ m alone' es', Serving s
        (serveClientBlockedOnList (inPlace t dbid key l') dbid key r value now) dbid key now m x
        alone' es' ∧
      rotation key (wrongType s dbid now) (r :: rs) l.length alone =
        rotation key (wrongType s dbid now) rs m.length alone' := by
  have hlength := listTypePop_length hpop
  cases r with
  | blpop =>
    refine ⟨l', alone, _, h.pop hpop (propagate_slaves ..) (propagate_db ..) (propagate_loading ..)
      (propagate_masterhost ..), ?_⟩
    rw [hlength, rotation]
  | brpop =>
    refine ⟨l', alone, _, h.pop hpop (propagate_slaves ..) (propagate_db ..) (propagate_loading ..)
      (propagate_masterhost ..), ?_⟩
    rw [hlength, rotation]
  | brpoplpush dst =>
    unfold serveClientBlockedOnList
    dsimp only
    by_cases hdst : dst = key
    · subst hdst
      have hentry : ((inPlace t dbid dst l').db dbid).dict dst = some ⟨.list l', x⟩ := by
        show (Function.update t.db dbid _ dbid).dict dst = _
        rw [Function.update_self, dbOverwrite_of_entry h.entry]
        exact Function.update_self ..
      have halive' : Alive (inPlace t dbid dst l') now x := by
        intro v hv hexp
        refine halive v hv ?_
        rw [← h.loading, ← h.masterhost]
        exact hexp
      have hlookup : lookupKey ((inPlace t dbid dst l').db dbid) dst = some (.list l') := by
        rw [lookupKey, hentry]
        rfl
      rw [looked_alive hentry halive', hlookup]
      have hp := h.pop hpop (u := propagate (inPlace t dbid dst l')
        { dbid := dbid, cmd := popCommand .tail dst }) (propagate_slaves ..) (propagate_db ..)
        (propagate_loading ..) (propagate_masterhost ..)
      refine ⟨value :: l', alone || l'.length == 0, _, hp.pushSelf value, ?_⟩
      rw [hlength, rotation, if_pos rfl, List.length_cons]
    · by_cases hwrong : wrongType s dbid now dst = true
      · have hwrong' : wrongType (inPlace t dbid key l') dbid now dst = true := by
          rw [inPlace_wrongType hdst, h.wrong dst hdst, hwrong]
        have hsame : looked (inPlace t dbid key l') dbid dst now = inPlace t dbid key l' := by
          rcases looked_cases (inPlace t dbid key l') dbid dst now with ⟨hsame, -⟩ | ⟨-, hnone, -⟩
          · exact hsame
          · rw [wrongType, hnone] at hwrong'
            cases hwrong'
        have hback : (Function.update (inPlace t dbid key l').db dbid
            (dbOverwrite ((inPlace t dbid key l').db dbid) key
              (.list (listTypePush l' value .tail)))) = t.db := by
          rw [listTypePop_back hpop, inPlace_db, Function.update_self, Function.update_idem,
            Function.update_eq_self_iff]
          show dbOverwrite (dbOverwrite (t.db dbid) key (.list l')) key (.list l) = t.db dbid
          rw [dbOverwrite_of_entry h.entry]
          simp only [dbOverwrite, Function.update_self, Option.map_some, Function.update_idem]
          rw [← h.entry, Function.update_eq_self]
        have hlookup : ∃ v, lookupKey ((looked (inPlace t dbid key l') dbid dst now).db dbid) dst =
            some v ∧ ∀ m, v ≠ Value.list m := by
          rw [lookup_looked]
          unfold wrongType at hwrong'
          cases hv : (liveEntry (inPlace t dbid key l') dbid dst now).map Keyed.val with
          | none =>
            rw [hv] at hwrong'
            cases hwrong'
          | some v =>
            refine ⟨v, rfl, ?_⟩
            rintro m rfl
            rw [hv] at hwrong'
            cases hwrong'
        obtain ⟨v, hv, hnot⟩ := hlookup
        have hlist : lookupKey ((inPlace t dbid key l').db dbid) key = some (.list l') := by
          show lookupKey (Function.update t.db dbid _ dbid) key = _
          rw [Function.update_self, lookupKey, dbOverwrite_of_entry h.entry]
          simp
        refine ⟨l, alone, es, ?_, ?_⟩
        · rw [hv, hsame, hlist]
          cases v with
          | list m => exact absurd rfl (hnot m)
          | string _ | set _ | hash _ | zset _ =>
            dsimp only
            rw [hback]
            exact h
        · rw [hlength, rotation, if_neg hdst, if_pos hwrong]
      · have hok : wrongType (inPlace t dbid key l') dbid now dst = false := by
          rw [inPlace_wrongType hdst, h.wrong dst hdst]
          exact Bool.not_eq_true _ ▸ hwrong
        obtain ⟨es', h'⟩ := h.lookedUp hdst
        have hp := h'.pop hpop (u := propagate (inPlace (looked t dbid dst now) dbid key l')
          { dbid := dbid, cmd := popCommand .tail key }) (propagate_slaves ..) (propagate_db ..)
          (propagate_loading ..) (propagate_masterhost ..)
        have hlist := not_wrongType hok
        have hlist' := hlist
        rw [looked_inPlace hdst] at hlist'
        rw [← propagate_db _ { dbid := dbid, cmd := popCommand .tail key }] at hlist'
        refine ⟨l', alone, es' ++ [{ dbid := dbid, cmd := popCommand .tail key }] ++
          [{ dbid := dbid, cmd := lpushCommand dst value }], ?_, ?_⟩
        · have hgoal := hp.push value hdst hlist'
          rcases hlist with hnone | ⟨m, hm⟩
          · rw [hnone, looked_inPlace hdst]
            exact hgoal
          · rw [hm, looked_inPlace hdst]
            exact hgoal
        · rw [hlength, rotation, if_neg hdst, if_neg hwrong]

/-! ## All clients of a key -/

theorem Serving.loop (receivers : List Receiver) {l : List Bytes} {x : Option Int} {alone : Bool}
    {es : List (Entry (Value ζ))} (h : Serving s t dbid key now l x alone es)
    (halive : Alive s now x) :
    ∃ m alone' es', Serving s (serveLoop dbid key now receivers t) dbid key now m x alone' es' ∧
      rotation key (wrongType s dbid now) receivers l.length alone = (m.length, alone') := by
  induction receivers generalizing t l alone es with
  | nil => exact ⟨l, alone, es, h, rfl⟩
  | cons r rs ih =>
    have hlookup : lookupKey (t.db dbid) key = some (.list l) := by
      rw [lookupKey, h.entry]
      rfl
    rw [serveLoop, hlookup]
    dsimp only
    cases hpop : listTypePop r.where l with
    | none =>
      have hl : l = [] := by
        cases l with
        | nil => rfl
        | cons v l => cases hr : r.where <;> rw [hr] at hpop <;> cases hpop
      subst hl
      exact ⟨[], alone, es, h, rfl⟩
    | some p =>
      obtain ⟨m, alone', es', hserved, hrot⟩ := h.receiver halive r hpop rs
      rw [hrot]
      exact ih hserved

theorem alive_of_liveEntry {e : Keyed (Value ζ)} (h : liveEntry s dbid key now = some e)
    (hentry : (s.db dbid).dict key = some e) : Alive s now e.expire := by
  intro v hv hexp
  rw [liveEntry, hentry] at h
  simp only [hv] at h
  rw [if_pos hexp] at h
  cases h

theorem db_ext {db db' : Db (Value ζ)} (h : ∀ k, db.dict k = db'.dict k) : db = db' := by
  obtain ⟨d⟩ := db
  obtain ⟨d'⟩ := db'
  rw [show d = d' from funext h]

theorem Serving.inSync_of_empty {x : Option Int} {alone : Bool} {es : List (Entry (Value ζ))}
    (h : Serving s t dbid key now [] x alone es) : InSync s (deleteKey t dbid key) := by
  rw [inSync_iff (t := deleteKey t dbid key) h.slaves]
  show _ = Function.update t.db dbid (dbDelete (t.db dbid) key).1
  funext i
  by_cases hi : i = dbid
  · subst hi
    rw [Function.update_self]
    apply db_ext
    intro k
    show _ = Function.update (t.db i).dict key none k
    by_cases hkey : k = key
    · rw [hkey, Function.update_self, h.mirrored]
      rfl
    · rw [Function.update_of_ne hkey, h.same k hkey]
  · rw [Function.update_of_ne hi, h.others i hi]

theorem Serving.inSync_iff_of_ne {m : List Bytes} {x : Option Int} {alone : Bool}
    {es : List (Entry (Value ζ))} (h : Serving s t dbid key now m x alone es) (hm : m ≠ []) :
    InSync s t ↔ (alone = true → x = none) := by
  rw [inSync_iff h.slaves]
  constructor
  · intro heq ha
    have hkey := congrArg (fun dbs => (dbs dbid).dict key) heq
    simp only [h.mirrored, h.entry, mirror, ha, if_true, if_neg hm] at hkey
    injection hkey with hkey
    injection hkey with _ hkey
    exact hkey.symm
  · intro hx
    have hsame : mirror (ζ := ζ) m x alone = some ⟨.list m, x⟩ := by
      rw [mirror, if_neg hm]
      cases alone with
      | false => rfl
      | true =>
        rw [hx rfl]
        rfl
    funext i
    by_cases hi : i = dbid
    · subst hi
      apply db_ext
      intro k
      by_cases hkey : k = key
      · rw [hkey, h.mirrored, h.entry, hsame]
      · exact h.same k hkey
    · exact h.others i hi

def NoEmptyList (s : Server (Value ζ)) (dbid : Nat) : Prop :=
  ∀ key l, lookupKey (s.db dbid) key = some (.list l) → l ≠ []

theorem handleReadyKey_inSync_iff (hwf : NoEmptyList s dbid) (F : LongDouble) (key : Bytes)
    (receivers : List Receiver) (now : Int) :
    InSync s (handleReadyKey s dbid key receivers now) ↔
      ¬ ExpireLost F s dbid now (.served key receivers) := by
  unfold handleReadyKey
  dsimp only
  have hnothing : (∀ l t, liveEntry s dbid key now ≠ some ⟨.list l, some t⟩) →
      ¬ ExpireLost F s dbid now (.served key receivers) := by
    rintro h ⟨l, t, hlive, -⟩
    exact h l t hlive
  rcases looked_cases s dbid key now with ⟨hsame, hlive⟩ | ⟨hdel, hlive, hpresent⟩
  · rw [hsame]
    cases hk : lookupKey (s.db dbid) key with
    | none =>
      refine iff_of_true (InSync.refl s) (hnothing fun l t h => ?_)
      rw [hlive, dict_of_lookup_none hk] at h
      cases h
    | some v =>
      obtain ⟨x, hx⟩ := entry_of_lookup hk
      have hliveEntry := hlive.trans hx
      cases v with
      | list l =>
        have halive : Alive s now x := alive_of_liveEntry hliveEntry hx
        have hne : l ≠ [] := hwf key l hk
        have hstart : Serving s s dbid key now l x false [] := by
          constructor
          · exact (List.append_nil _).symm
          · exact hx
          · exact fun _ _ => rfl
          · exact fun _ _ => rfl
          · rw [mirror, if_neg hne]
            exact hx
          · rfl
          · rfl
          · exact fun _ _ => rfl
        obtain ⟨m, alone, es, hend, hrot⟩ := hstart.loop receivers halive
        have hlost : ExpireLost F s dbid now (.served key receivers) ↔
            x ≠ none ∧ alone = true ∧ m ≠ [] := by
          constructor
          · rintro ⟨l', t, hl', h2, h1⟩
            rw [hliveEntry] at hl'
            injection hl' with hl'
            injection hl' with hv hx'
            injection hv with hv
            subst hv
            rw [hrot] at h1 h2
            refine ⟨by rw [hx']; exact Option.some_ne_none t, h2, ?_⟩
            rintro rfl
            exact h1 rfl
          · rintro ⟨hx', ha, hm⟩
            obtain ⟨t, rfl⟩ := Option.ne_none_iff_exists'.mp hx'
            refine ⟨l, t, hliveEntry, ?_, ?_⟩
            · rw [hrot]
              exact ha
            · rw [hrot]
              exact fun h => hm (List.length_eq_zero_iff.mp h)
        dsimp only
        have hlookup : lookupKey ((serveLoop dbid key now receivers s).db dbid) key = some (.list m) := by
          rw [lookupKey, hend.entry]
          rfl
        rw [hlookup, hlost]
        cases m with
        | nil => exact iff_of_true hend.inSync_of_empty (fun h => h.2.2 rfl)
        | cons v m =>
          rw [hend.inSync_iff_of_ne (List.cons_ne_nil v m)]
          constructor
          · rintro h ⟨hx', ha, -⟩
            exact hx' (h ha)
          · intro hnot ha
            by_contra hx'
            exact hnot ⟨hx', ha, List.cons_ne_nil v m⟩
      | string _ | set _ | hash _ | zset _ =>
        refine iff_of_true (InSync.refl s) (hnothing fun l t h => ?_)
        rw [hliveEntry] at h
        cases h
  · have hnone : lookupKey ((looked s dbid key now).db dbid) key = none := by
      rw [lookup_looked, hlive]
      rfl
    rw [hnone]
    refine iff_of_true (looked_inSync s dbid key now) (hnothing fun l t h => ?_)
    rw [hlive] at h
    cases h

/-! ## All rewritten commands -/

/-- **Rewritten commands replicate faithfully** exactly when no expire time is lost on the way. -/
theorem rewritten_replicates_iff (F : LongDouble) (s : Server (Value ζ)) (dbid : Nat) (now : Int)
    (a : Rewritten ζ) (hwf : NoEmptyList s dbid) :
    ReplicatesFaithfully F s dbid now a ↔ ¬ ExpireLost F s dbid now a := by
  cases a with
  | incrbyfloat key incr =>
    rw [← incrbyfloat_inSync_iff]
    exact ⟨fun h => h trivial, fun h _ => h⟩
  | hincrbyfloat key field incr =>
    exact iff_of_true (fun _ => hincrbyfloat_inSync F s dbid key field incr now) id
  | spop key ele => exact iff_of_true (fun _ => spop_inSync s dbid key ele now) id
  | blockingPop e keys => exact iff_of_true (fun _ => blockingPop_inSync e dbid now keys s) id
  | brpoplpush src dst timeout =>
    exact iff_of_true (fun _ => brpoplpush_inSync s dbid src dst timeout now) id
  | expire key when sent =>
    exact iff_of_true (fun hpast => expire_inSync s dbid key when sent now hpast) id
  | served key receivers =>
    rw [← handleReadyKey_inSync_iff hwf F]
    exact ⟨fun h => h trivial, fun h _ => h⟩

def wholeNumbers : LongDouble where
  carrier := Int
  zero := 0
  parse := string2ll
  add := fun a b => a + b
  nanOrInf := fun _ => false
  print := ll2string

def expiringServer : Server (Value Unit) where
  db := fun _ => setExpire (dbAdd emptyDb (ascii "k") (.string (ascii "1"))) (ascii "k") 1000
  masterhost := false
  loading := false
  aof_state_on := false
  aof := []
  slaves := []

theorem expiringServer_entry (dbid : Nat) (key : Bytes) :
    (expiringServer.db dbid).dict key =
      if key = ascii "k" then some ⟨.string (ascii "1"), some 1000⟩ else none := by
  by_cases hk : key = ascii "k"
  · subst hk
    simp [expiringServer, setExpire, dbAdd, emptyDb]
  · simp [expiringServer, setExpire, dbAdd, emptyDb, hk]

theorem expiringServer_noEmptyList (dbid : Nat) : NoEmptyList expiringServer dbid := by
  intro key l h
  rw [lookupKey, expiringServer_entry] at h
  by_cases hk : key = ascii "k"
  · rw [if_pos hk] at h
    cases h
  · rw [if_neg hk] at h
    cases h

/-- HINCRBYFLOAT makes a hash of a missing key. -/
theorem rewritten_replicates_hincrbyfloat :
    ReplicatesFaithfully wholeNumbers expiringServer 0 5
        (.hincrbyfloat (ascii "h") (ascii "f") (ascii "3")) ↔
      ¬ ExpireLost wholeNumbers expiringServer 0 5
        (.hincrbyfloat (ascii "h") (ascii "f") (ascii "3")) :=
  rewritten_replicates_iff _ _ _ _ _ (expiringServer_noEmptyList 0)

/-- INCRBYFLOAT keeps the expire time of `k`, and the SET that is fed removes it. -/
theorem incrbyfloat_loses_expire :
    ¬ ReplicatesFaithfully wholeNumbers expiringServer 0 5 (.incrbyfloat (ascii "k") (ascii "1")) := by
  intro h
  have hone : string2ll (ascii "1") = some 1 := by decide
  refine (incrbyfloat_inSync_iff wholeNumbers expiringServer 0 (ascii "k") (ascii "1") 5).mp
    (h trivial) ⟨ascii "1", 1000, (1 : Int), (1 : Int), ?_, hone, hone, rfl⟩
  rw [liveEntry, expiringServer_entry, if_pos rfl]
  exact if_neg (by decide)

end RedisCluster.Keyspace
