import RedisCluster.Multi.Proofs.CallProofs

/-!
# EXEC in the propagated stream

All that a request feeds belongs to no transaction, unless it is an EXEC that runs its transaction; then
it feeds one segment for that transaction (`exec_segment`), which is a block exactly under
`TransactionOk`. A stream is well bracketed if and only if every segment is
(`exec_atomic_in_stream`).
-/

namespace RedisCluster.Multi

open RedisCluster.Lib

variable {δ ν : Type}

/-! ## Entries of no transaction -/

def Plain (e : Entry) : Prop := ∀ n, ¬ (txRoles n).Mine e

theorem plain_server {e : Entry} (h : e.origin = .server) : Plain e := by
  rintro n (k | k | k)
  · exact Origin.noConfusion (h.symm.trans k)
  · exact Origin.noConfusion (h.symm.trans k)
  · exact Origin.noConfusion (h.symm.trans k)

theorem plain_command {e : Entry} {c : ClientId} (h : e.origin = .command c) : Plain e := by
  rintro n (k | k | k)
  · exact Origin.noConfusion (h.symm.trans k)
  · exact Origin.noConfusion (h.symm.trans k)
  · exact Origin.noConfusion (h.symm.trans k)

/-- From `s` to `t` entries that meet `P` were fed, and no transaction ran. -/
structure Feeds (P : Entry → Prop) (s t : Server δ ν) : Prop where
  aof : ∃ l, t.aof = s.aof ++ l ∧ ∀ e ∈ l, P e
  repl : ∃ l, t.repl = s.repl ++ l ∧ ∀ e ∈ l, P e
  execs : t.execs = s.execs

namespace Feeds

variable {P : Entry → Prop} {s t u : Server δ ν}

theorem refl (s : Server δ ν) : Feeds P s s := ⟨⟨[], by simp⟩, ⟨[], by simp⟩, rfl⟩

theorem trans (h : Feeds P s t) (k : Feeds P t u) : Feeds P s u := by
  obtain ⟨⟨la, hla, hpa⟩, ⟨lr, hlr, hpr⟩, hn⟩ := h
  obtain ⟨⟨ka, hka, hqa⟩, ⟨kr, hkr, hqr⟩, hm⟩ := k
  refine ⟨⟨la ++ ka, by rw [hka, hla, List.append_assoc], ?_⟩,
    ⟨lr ++ kr, by rw [hkr, hlr, List.append_assoc], ?_⟩, hm.trans hn⟩
  · intro e he
    rcases List.mem_append.mp he with he | he
    · exact hpa e he
    · exact hqa e he
  · intro e he
    rcases List.mem_append.mp he with he | he
    · exact hpr e he
    · exact hqr e he

theorem of_eq (ha : t.aof = s.aof) (hr : t.repl = s.repl) (hn : t.execs = s.execs) : Feeds P s t :=
  ⟨⟨[], by simp [ha]⟩, ⟨[], by simp [hr]⟩, hn⟩

theorem mapLive (s : Server δ ν) (f : Live δ ν → Live δ ν) : Feeds P s (s.mapLive f) :=
  of_eq rfl rfl rfl

theorem quiet (argv : List Bytes) (f : Live δ ν → Live δ ν) (s : Server δ ν) :
    Feeds P s (Multi.quiet argv f s).1 := mapLive s f

theorem setClient (c : ClientId) (x : Client) (s : Server δ ν) : Feeds P s (s.setClient c x) :=
  mapLive s _

theorem note (s : Server δ ν) (p : CallPoint δ ν) : Feeds P s (s.note p) := of_eq rfl rfl rfl

theorem feed {o : Origin} (hP : ∀ e : Entry, e.origin = o → P e) (fed : Fed) (s : Server δ ν) :
    Feeds P s (s.feed o fed) := by
  refine ⟨⟨_, rfl, ?_⟩, ⟨_, rfl, ?_⟩, rfl⟩
  · intro e he
    obtain ⟨x, _, rfl⟩ := List.mem_map.mp he
    exact hP _ rfl
  · intro e he
    obtain ⟨x, _, rfl⟩ := List.mem_map.mp he
    exact hP _ rfl

theorem emit {o : Origin} (hP : ∀ e : Entry, e.origin = o → P e) (ops : List RedisOp)
    (s : Server δ ν) : Feeds P s (s.emit o ops) := by
  refine ⟨⟨_, rfl, ?_⟩, ⟨_, rfl, ?_⟩, rfl⟩
  · intro e he
    obtain ⟨x, _, rfl⟩ := List.mem_map.mp he
    exact hP _ rfl
  · intro e he
    obtain ⟨x, _, rfl⟩ := List.mem_map.mp he
    exact hP _ rfl

theorem aside (h : Aside s t) : Feeds Plain s t := by
  obtain ⟨la, hla, hpa⟩ := h.aof
  obtain ⟨lr, hlr, hpr⟩ := h.repl
  exact ⟨⟨la, hla, fun e he => plain_server (hpa e he)⟩,
    ⟨lr, hlr, fun e he => plain_server (hpr e he)⟩, h.execs⟩

theorem callWith {o : Origin} (hP : ∀ e : Entry, e.origin = o → P e) (c : ClientId)
    (cmd : RedisCommand) (argv : List Bytes) {body : Server δ ν → Server δ ν × Outcome}
    (hbody : ∀ s, Feeds P s (body s).1) (s : Server δ ν) :
    Feeds P s (Multi.callWith o c cmd argv body s) := by
  rw [callWith_eq]
  exact ((note s _).trans (hbody _)).trans (emit hP _ _)

theorem procBody (w : World δ ν) {o : Origin} (hP : ∀ e : Entry, e.origin = o → P e) (c : ClientId)
    (proc : Proc) (argv : List Bytes) (s : Server δ ν) :
    Feeds P s (Multi.procBody w o c proc argv s).1 :=
  (mapLive s _).trans (feed hP _ _)

theorem queuedCall (w : World δ ν) (n : Nat) (c : ClientId) (m : MultiCmd) (s : Server δ ν) :
    Feeds (txRoles n).inner s (Multi.queuedCall w n c s m) := by
  refine callWith (fun _ h => h) c m.cmd m.argv (fun s => ?_) s
  unfold queuedBody
  split
  · exact mapLive s _
  · exact procBody w (fun _ h => h) c _ m.argv s

theorem runQueue (w : World δ ν) (n : Nat) (c : ClientId) (queue : List MultiCmd)
    (s : Server δ ν) : Feeds (txRoles n).inner s (Multi.runQueue w n c queue s) := by
  induction queue generalizing s with
  | nil => exact refl s
  | cons m queue ih => exact (queuedCall w n c m s).trans (ih _)

end Feeds

/-! ## The loop of EXEC -/

section Loop

variable (w : World δ ν)

theorem execLoop_true (n : Nat) (c : ClientId) (queue : List MultiCmd) (s : Server δ ν) :
    execLoop w n c queue true s = (runQueue w n c queue s, true) := by
  induction queue generalizing s with
  | nil => rfl
  | cons m queue ih =>
    rw [execLoop]
    exact ih _

theorem execLoop_false (n : Nat) (c : ClientId) (queue : List MultiCmd) (s : Server δ ν) :
    execLoop w n c queue false s =
      let s₁ := runQueue w n c (queue.takeWhile fun m => m.cmd.flags.readonly) s
      let rest := queue.dropWhile fun m => m.cmd.flags.readonly
      if rest = [] then (s₁, false)
      else (runQueue w n c rest (execCommandPropagateMulti n c s₁), true) := by
  induction queue generalizing s with
  | nil => rfl
  | cons m queue ih =>
    cases hro : m.cmd.flags.readonly with
    | false => simp [execLoop, execLoop_true, hro, runQueue]
    | true => simp [execLoop, ih, hro, runQueue]

theorem queuedCall_blank (n : Nat) (c : ClientId) (m : MultiCmd) (s : Server δ ν) :
    (queuedCall w n c s m).live = (queuedCall w 0 c (blank s.live) m).live ∧
      ((queuedCall w n c s m).aof.length =
        s.aof.length + (queuedCall w 0 c (blank s.live) m).aof.length) ∧
      ((queuedCall w n c s m).repl.length =
        s.repl.length + (queuedCall w 0 c (blank s.live) m).repl.length) := by
  unfold queuedCall queuedBody
  simp only [callWith_eq]
  split
  · refine ⟨rfl, ?_, ?_⟩
    · simp [Server.emit, emitted, blank, quiet, Server.note, Server.mapLive]
    · simp [Server.emit, emitted, blank, quiet, Server.note, Server.mapLive]
  · refine ⟨rfl, ?_, ?_⟩
    · simp [Server.emit, emitted, blank, procBody, Server.note, Server.mapLive, Server.feed]
    · simp [Server.emit, emitted, blank, procBody, Server.note, Server.mapLive, Server.feed]

theorem runQueue_blank (n : Nat) (c : ClientId) (queue : List MultiCmd) (s : Server δ ν) :
    (runQueue w n c queue s).live = (runQueue w 0 c queue (blank s.live)).live ∧
      ((runQueue w n c queue s).aof.length =
        s.aof.length + (runQueue w 0 c queue (blank s.live)).aof.length) ∧
      ((runQueue w n c queue s).repl.length =
        s.repl.length + (runQueue w 0 c queue (blank s.live)).repl.length) := by
  induction queue generalizing n s with
  | nil => exact ⟨rfl, rfl, rfl⟩
  | cons m queue ih =>
    obtain ⟨hlive, haof, hrepl⟩ := queuedCall_blank w n c m s
    obtain ⟨ihlive, ihaof, ihrepl⟩ := ih n (queuedCall w n c s m)
    obtain ⟨ihlive₀, ihaof₀, ihrepl₀⟩ := ih 0 (queuedCall w 0 c (blank s.live) m)
    rw [hlive] at ihlive ihaof ihrepl
    refine ⟨ihlive.trans ihlive₀.symm, ?_, ?_⟩
    · simp only [runQueue, List.foldl_cons] at ihaof ihaof₀ ⊢
      omega
    · simp only [runQueue, List.foldl_cons] at ihrepl ihrepl₀ ⊢
      omega

end Loop

/-! ## The segment of a transaction -/

def Segment (n : Nat) (opened closed early : Prop) (l : List Entry) : Prop :=
  ∃ a o b x, l = a ++ o ++ b ++ x ∧ (∀ e ∈ a, (txRoles n).inner e) ∧
    (∀ e ∈ b, (txRoles n).inner e) ∧ (∀ e ∈ o, (txRoles n).opening e) ∧
    (∀ e ∈ x, (txRoles n).closing e) ∧ o.length ≤ 1 ∧ x.length ≤ 1 ∧ (o ≠ [] ↔ opened) ∧
    (x ≠ [] ↔ closed) ∧ (a ≠ [] ↔ early)

theorem Segment.bracketed {n : Nat} {opened closed early : Prop} {l : List Entry}
    (h : Segment n opened closed early l) :
    (txRoles n).Bracketed l ↔ (opened ↔ closed) ∧ (opened → ¬ early) := by
  obtain ⟨a, o, b, x, rfl, ha, hb, ho, hx, hone, hxone, hopened, hclosed, hearly⟩ := h
  rw [Roles.bracketed_segment ha hb ho hx hone hxone, hopened, hclosed, ← hearly, not_not]

theorem Segment.mine {n : Nat} {opened closed early : Prop} {l : List Entry}
    (h : Segment n opened closed early l) : ∀ e ∈ l, (txRoles n).Mine e := by
  obtain ⟨a, o, b, x, rfl, ha, hb, ho, hx, _⟩ := h
  intro e he
  simp only [List.mem_append] at he
  rcases he with ((he | he) | he) | he
  · exact .inr (.inl (ha e he))
  · exact .inl (ho e he)
  · exact .inr (.inl (hb e he))
  · exact .inr (.inr (hx e he))

theorem emit_exec (n db : Nat) (dirty : Int) (argv : List Bytes) (u : Server δ ν) :
    ∃ xa xr, (u.emit (.exec n) (callOps db dirty ⟨argv, [], false, false⟩)).aof = u.aof ++ xa ∧
      (u.emit (.exec n) (callOps db dirty ⟨argv, [], false, false⟩)).repl = u.repl ++ xr ∧
      (∀ e ∈ xa, (txRoles n).closing e) ∧ (∀ e ∈ xr, (txRoles n).closing e) ∧ xa.length ≤ 1 ∧
      xr.length ≤ 1 ∧ (xa ≠ [] ↔ dirty ≠ 0 ∧ u.live.conditions.feedsAof = true) ∧
      (xr ≠ [] ↔ dirty ≠ 0) := by
  refine ⟨_, _, rfl, rfl, ?_⟩
  by_cases hdirty : dirty = 0
  · simp [callOps, hdirty, emitted]
  · cases hfeeds : u.live.conditions.feedsAof with
    | false => simp [callOps, hdirty, emitted, txRoles]
    | true => simp [callOps, hdirty, emitted, txRoles]

theorem emit_multi (n db : Nat) (u : Server δ ν) :
    ∃ oa ol, (u.emit (.multi n) [⟨db, [multistring], true, true⟩]).aof = u.aof ++ oa ∧
      (u.emit (.multi n) [⟨db, [multistring], true, true⟩]).repl = u.repl ++ ol ∧
      (∀ e ∈ oa, (txRoles n).opening e) ∧ (∀ e ∈ ol, (txRoles n).opening e) ∧ oa.length ≤ 1 ∧
      ol.length ≤ 1 ∧ (oa ≠ [] ↔ u.live.conditions.feedsAof = true) ∧ ol ≠ [] := by
  refine ⟨_, _, rfl, rfl, ?_⟩
  cases hfeeds : u.live.conditions.feedsAof with
  | false => simp [emitted, txRoles]
  | true => simp [emitted, txRoles]

section Exec

variable (w : World δ ν)

theorem runQueue_appends (n : Nat) (c : ClientId) (queue : List MultiCmd) (s : Server δ ν) :
    ∃ la lr, (runQueue w n c queue s).aof = s.aof ++ la ∧
      (runQueue w n c queue s).repl = s.repl ++ lr ∧
      (∀ e ∈ la, (txRoles n).inner e) ∧ (∀ e ∈ lr, (txRoles n).inner e) ∧
      (la ≠ [] ↔ (runQueue w 0 c queue (blank s.live)).aof ≠ []) ∧
      (lr ≠ [] ↔ (runQueue w 0 c queue (blank s.live)).repl ≠ []) := by
  obtain ⟨⟨la, hla, hpa⟩, ⟨lr, hlr, hpr⟩, _⟩ := Feeds.runQueue w n c queue s
  obtain ⟨_, haof, hrepl⟩ := runQueue_blank w n c queue s
  refine ⟨la, lr, hla, hlr, hpa, hpr, ?_, ?_⟩
  · rw [hla, List.length_append] at haof
    rw [← List.length_pos_iff, ← List.length_pos_iff]
    omega
  · rw [hlr, List.length_append] at hrepl
    rw [← List.length_pos_iff, ← List.length_pos_iff]
    omega

theorem execCommand_runs {c : ClientId} {s : Server δ ν} (hmulti : (s.client c).multi = true)
    (hcas : (s.client c).dirty_cas = false) (hexec : (s.client c).dirty_exec = false) :
    let s₁ := runQueue w s.execs c (readonlyPart c s.live) (s.mapLive (unwatchAllKeys w c))
    let s₂ := if writingPart c s.live = [] then s₁
      else runQueue w s.execs c (writingPart c s.live) (execCommandPropagateMulti s.execs c s₁)
    (execCommand w c s).1.aof = s₂.aof ∧ (execCommand w c s).1.repl = s₂.repl ∧
      (execCommand w c s).1.execs = s.execs + 1 ∧
      (execCommand w c s).1.live.conditions = s₂.live.conditions ∧
      (execCommand w c s).1.live.dirty =
        if writingPart c s.live = [] then s₂.live.dirty else s₂.live.dirty + 1 := by
  unfold execCommand
  dsimp only
  rw [hmulti, hcas, hexec, execLoop_false]
  simp only [Bool.not_true, Bool.or_self, Bool.false_eq_true, if_false]
  show _ ∧ _
  by_cases hrest : writingPart c s.live = []
  · rw [writingPart] at hrest
    simp only [writingPart, hrest, if_true, Bool.false_eq_true, if_false]
    exact ⟨rfl, rfl, trivial, rfl, rfl⟩
  · rw [writingPart] at hrest
    simp only [writingPart, hrest, if_true, if_false]
    exact ⟨rfl, rfl, trivial, rfl, rfl⟩

theorem exec_segment {c : ClientId} {cmd : RedisCommand} (argv : List Bytes) {s : Server δ ν}
    (hproc : cmd.proc = .execCommand) (hmulti : (s.client c).multi = true)
    (hcas : (s.client c).dirty_cas = false) (hexec : (s.client c).dirty_exec = false) :
    let t := s.live
    let opened := writingPart c t ≠ []
    let final := if writingPart c t = [] then beforeMulti w c t else afterQueue w c t
    let dirty := (if writingPart c t = [] then final.live.dirty else final.live.dirty + 1) - t.dirty
    ∃ la lr, (call w c cmd argv s).1.aof = s.aof ++ la ∧
      (call w c cmd argv s).1.repl = s.repl ++ lr ∧
      (call w c cmd argv s).1.execs = s.execs + 1 ∧
      Segment s.execs (opened ∧ (beforeMulti w c t).live.conditions.feedsAof = true)
        (dirty ≠ 0 ∧ final.live.conditions.feedsAof = true) ((beforeMulti w c t).aof ≠ []) la ∧
      Segment s.execs opened (dirty ≠ 0) ((beforeMulti w c t).repl ≠ []) lr := by
  intro t opened final dirty
  obtain ⟨haof, hrepl, hexecs, hconditions, hdirty⟩ :=
    execCommand_runs w (s := s.note (callPoint (.exec s.execs) c cmd argv s)) hmulti hcas hexec
  have hcall : (call w c cmd argv s).1 =
      (execCommand w c (s.note (callPoint (.exec s.execs) c cmd argv s))).1.emit (.exec s.execs)
        (callOps ((execCommand w c (s.note (callPoint (.exec s.execs) c cmd argv s))).1.client c).session.db
          ((execCommand w c (s.note (callPoint (.exec s.execs) c cmd argv s))).1.live.dirty - s.live.dirty)
          ⟨argv, [], false, false⟩) := by
    simp only [call, hproc, callWith_eq]
  rw [hcall]
  generalize (execCommand w c (s.note (callPoint (.exec s.execs) c cmd argv s))).1 = u at *
  -- the queue up to MULTI
  set s₀ := (s.note (callPoint (.exec s.execs) c cmd argv s)).mapLive (unwatchAllKeys w c) with hs₀
  obtain ⟨la₁, lr₁, hla₁, hlr₁, hpa₁, hpr₁, hea₁, her₁⟩ :=
    runQueue_appends w s.execs c (readonlyPart c t) s₀
  have hlive₁ : (runQueue w s.execs c (readonlyPart c t) s₀).live = (beforeMulti w c t).live :=
    (runQueue_blank w s.execs c (readonlyPart c t) s₀).1
  have hrest : ∃ oa ba ol bl, u.aof = s.aof ++ (la₁ ++ oa ++ ba) ∧
      u.repl = s.repl ++ (lr₁ ++ ol ++ bl) ∧ (∀ e ∈ ba, (txRoles s.execs).inner e) ∧
      (∀ e ∈ bl, (txRoles s.execs).inner e) ∧ (∀ e ∈ oa, (txRoles s.execs).opening e) ∧
      (∀ e ∈ ol, (txRoles s.execs).opening e) ∧ oa.length ≤ 1 ∧ ol.length ≤ 1 ∧
      (oa ≠ [] ↔ opened ∧ (beforeMulti w c t).live.conditions.feedsAof = true) ∧
      (ol ≠ [] ↔ opened) ∧ u.live.conditions = final.live.conditions ∧
      u.live.dirty - s.live.dirty = dirty := by
    change u.aof = (if writingPart c t = [] then _ else _ : Server δ ν).aof at haof
    change u.repl = (if writingPart c t = [] then _ else _ : Server δ ν).repl at hrepl
    change u.live.conditions = (if writingPart c t = [] then _ else _ : Server δ ν).live.conditions
      at hconditions
    change u.live.dirty = if writingPart c t = [] then
      (if writingPart c t = [] then _ else _ : Server δ ν).live.dirty
      else (if writingPart c t = [] then _ else _ : Server δ ν).live.dirty + 1 at hdirty
    by_cases hrest : writingPart c t = []
    · simp only [hrest, if_true] at haof hrepl hconditions hdirty
      refine ⟨[], [], [], [], ?_, ?_, by simp, by simp, by simp, by simp, by simp, by simp, ?_, ?_,
        ?_, ?_⟩
      · rw [haof, List.append_nil, List.append_nil]
        exact hla₁
      · rw [hrepl, List.append_nil, List.append_nil]
        exact hlr₁
      · simp [opened, hrest]
      · simp [opened, hrest]
      · simp only [final, hrest, if_true]
        rw [hconditions]
        exact congrArg Live.conditions hlive₁
      · simp only [dirty, final, hrest, if_true]
        rw [hdirty]
        exact congrArg (fun l => Live.dirty l - s.live.dirty) hlive₁
    · simp only [hrest, if_false] at haof hrepl hconditions hdirty
      obtain ⟨oa, ol, hoaeq, holeq, hoa, hol, hoa1, hol1, hopena, hopenl⟩ :=
        emit_multi s.execs
          ((runQueue w s.execs c (readonlyPart c t) s₀).client c).session.db
          (runQueue w s.execs c (readonlyPart c t) s₀)
      rw [← propagate_eq] at hoaeq holeq
      obtain ⟨ba, bl, hba, hbl, hpba, hpbl, _, _⟩ :=
        runQueue_appends w s.execs c (writingPart c t)
          (execCommandPropagateMulti s.execs c (runQueue w s.execs c (readonlyPart c t) s₀))
      have hlive₂ : (runQueue w s.execs c (writingPart c t) (execCommandPropagateMulti s.execs c
          (runQueue w s.execs c (readonlyPart c t) s₀))).live = (afterQueue w c t).live := by
        rw [(runQueue_blank w s.execs c (writingPart c t) _).1, afterQueue, ← hlive₁]
        rfl
      refine ⟨oa, ba, ol, bl, ?_, ?_, hpba, hpbl, hoa, hol, hoa1, hol1, ?_, ?_, ?_, ?_⟩
      · rw [haof]
        refine hba.trans ?_
        rw [show (execCommandPropagateMulti s.execs c _).aof = _ from hoaeq, hla₁]
        simp only [List.append_assoc]
        rfl
      · rw [hrepl]
        refine hbl.trans ?_
        rw [show (execCommandPropagateMulti s.execs c _).repl = _ from holeq, hlr₁]
        simp only [List.append_assoc]
        rfl
      · rw [hopena, ← hlive₁]
        simp [opened, hrest]
      · simp [opened, hrest, hopenl]
      · simp only [final, hrest, if_false]
        rw [hconditions]
        exact congrArg Live.conditions hlive₂
      · simp only [dirty, final, hrest, if_false]
        rw [hdirty]
        exact congrArg (fun l => Live.dirty l + 1 - s.live.dirty) hlive₂
  obtain ⟨oa, ba, ol, bl, hua, hul, hba, hbl, hoa, hol, hoa1, hol1, hopena, hopenl, hcond, hd⟩ :=
    hrest
  rw [hd]
  obtain ⟨xa, xl, hxaeq, hxleq, hxa, hxl, hxa1, hxl1, hclosea, hclosel⟩ :=
    emit_exec s.execs (u.client c).session.db dirty argv u
  rw [hcond] at hclosea
  refine ⟨la₁ ++ oa ++ ba ++ xa, lr₁ ++ ol ++ bl ++ xl, ?_, ?_, hexecs, ?_, ?_⟩
  · rw [hxaeq, hua, List.append_assoc s.aof]
  · rw [hxleq, hul, List.append_assoc s.repl]
  · exact ⟨la₁, oa, ba, xa, rfl, hpa₁, hba, hoa, hxa, hoa1, hxa1, hopena, hclosea, hea₁⟩
  · exact ⟨lr₁, ol, bl, xl, rfl, hpr₁, hbl, hol, hxl, hol1, hxl1, hopenl, hclosel, her₁⟩

theorem transactionOk_iff (c : ClientId) (t : Live δ ν) (n : Nat) {la lr : List Entry}
    {final : Server δ ν} {dirty : Int}
    (hfinal : final = if writingPart c t = [] then beforeMulti w c t else afterQueue w c t)
    (hdirty : dirty = (if writingPart c t = [] then final.live.dirty
      else final.live.dirty + 1) - t.dirty)
    (ha : Segment n (writingPart c t ≠ [] ∧ (beforeMulti w c t).live.conditions.feedsAof = true)
      (dirty ≠ 0 ∧ final.live.conditions.feedsAof = true) ((beforeMulti w c t).aof ≠ []) la)
    (hr : Segment n (writingPart c t ≠ []) (dirty ≠ 0) ((beforeMulti w c t).repl ≠ []) lr) :
    (txRoles n).Bracketed la ∧ (txRoles n).Bracketed lr ↔ TransactionOk w c t := by
  rw [ha.bracketed, hr.bracketed, TransactionOk]
  by_cases hrest : writingPart c t = []
  · simp only [hrest, if_true] at hfinal hdirty ⊢
    subst hfinal hdirty
    simp only [ne_eq, not_true_eq_false, false_and, false_iff, not_and, not_not, false_implies,
      and_true, sub_eq_zero]
    exact ⟨fun h => h.2, fun h => ⟨fun hne => absurd h hne, h⟩⟩
  · simp only [hrest, if_false] at hfinal hdirty ⊢
    subst hfinal hdirty
    have hzero : (afterQueue w c t).live.dirty + 1 - t.dirty ≠ 0 ↔
        (afterQueue w c t).live.dirty + 1 ≠ t.dirty := sub_ne_zero
    rw [hzero]
    simp only [ne_eq, hrest, not_false_eq_true, true_and, true_iff, not_not, true_implies]
    constructor
    · rintro ⟨⟨hiff, haof⟩, hne, hrepl⟩
      refine ⟨hne, hrepl, ?_, haof⟩
      rw [Bool.eq_iff_iff, hiff]
      exact ⟨And.right, fun h => ⟨hne, h⟩⟩
    · rintro ⟨hne, hrepl, hfeeds, haof⟩
      refine ⟨⟨?_, haof⟩, hne, hrepl⟩
      rw [hfeeds]
      exact ⟨fun h => ⟨hne, h⟩, And.right⟩

/-! ## What a request feeds -/

theorem callOps_quiet (db : Nat) (argv : List Bytes) :
    callOps db 0 ⟨argv, [], false, false⟩ = [] := by
  simp [callOps]

theorem execCommand_note (c : ClientId) (s : Server δ ν) (p : CallPoint δ ν) :
    (execCommand w c (s.note p)).2 = (execCommand w c s).2 := by
  unfold execCommand
  dsimp only
  rw [apply_ite Prod.snd, apply_ite Prod.snd, apply_ite Prod.snd, apply_ite Prod.snd]
  rfl

theorem execCommand_stops {c : ClientId} {s : Server δ ν}
    (h : ∀ count, (execCommand w c s).2 ≠ .replies count) :
    ∃ f : Live δ ν → Live δ ν, (execCommand w c s).1 = s.mapLive f ∧
      (f s.live).dirty = s.live.dirty := by
  unfold execCommand at h ⊢
  dsimp only at h ⊢
  split
  · exact ⟨id, rfl, rfl⟩
  · rename_i hmulti
    rw [if_neg hmulti] at h
    split
    · exact ⟨discardTransaction w c, rfl, rfl⟩
    · rename_i hflags
      rw [if_neg hflags] at h
      exact absurd rfl (h _)

theorem execCommand_replies {c : ClientId} {s : Server δ ν} {count : Nat}
    (h : (execCommand w c s).2 = .replies count) :
    (s.client c).multi = true ∧ (s.client c).dirty_cas = false ∧
      (s.client c).dirty_exec = false := by
  unfold execCommand at h
  dsimp only at h
  split at h
  · cases h
  · rename_i hmulti
    split at h
    · split at h
      · cases h
      · cases h
    · rename_i hflags
      simpa using And.intro hmulti hflags

theorem call_feeds {c : ClientId} {cmd : RedisCommand} {argv : List Bytes} {s : Server δ ν}
    (h : ∀ count, (call w c cmd argv s).2 ≠ .exec (.replies count)) :
    Feeds Plain s (call w c cmd argv s).1 := by
  have hdirect : ∀ {body : Server δ ν → Server δ ν × Outcome},
      (∀ s, Feeds Plain s (body s).1) → Feeds Plain s (callWith (.command c) c cmd argv body s) :=
    fun hbody => Feeds.callWith (fun _ he => plain_command he) c cmd argv hbody s
  have hproc : ∀ proc s, Feeds Plain s (procBody w (.command c) c proc argv s).1 :=
    fun proc s => Feeds.procBody w (fun _ he => plain_command he) c proc argv s
  unfold call at h ⊢
  dsimp only at h ⊢
  split
  · rename_i hexec
    rw [hexec] at h
    dsimp only at h
    have hstops : ∀ count,
        (execCommand w c (s.note (callPoint (.exec s.execs) c cmd argv s))).2 ≠ .replies count :=
      fun count hcount => h count (congrArg CallReply.exec ((execCommand_note w c s _).symm.trans hcount))
    obtain ⟨f, hf, hdirty⟩ := execCommand_stops w hstops
    rw [callWith_eq]
    dsimp only
    rw [hf]
    have hzero : ((s.note (callPoint (.exec s.execs) c cmd argv s)).mapLive f).live.dirty - s.live.dirty = 0 :=
      sub_eq_zero.mpr hdirty
    rw [hzero, callOps_quiet]
    exact Feeds.of_eq (by simp [Server.emit, emitted, Server.note, Server.mapLive])
      (by simp [Server.emit, emitted, Server.note, Server.mapLive]) rfl
  · exact hdirect (Feeds.quiet argv _)
  · exact hdirect (Feeds.quiet argv _)
  · split
    · exact hdirect (Feeds.quiet argv _)
    · exact hdirect (hproc _)
  · exact hdirect (Feeds.quiet argv _)
  · exact hdirect (hproc _)

theorem Checked.feeds {c : ClientId} {P : Rejection → Prop} {s : Server δ ν}
    {r : Server δ ν × Option Answer} (h : Checked c P s r) : Feeds Plain s r.1 := by
  have hflag : ∀ t : Server δ ν, Feeds Plain t (flagTransaction c t) := by
    intro t
    unfold flagTransaction
    split
    · exact Feeds.mapLive t _
    · exact Feeds.refl t
  cases h with
  | pass h _ => exact Feeds.aside h
  | assertion h _ => exact (Feeds.aside h).trans (Feeds.of_eq rfl rfl rfl)
  | flagged h _ => exact (Feeds.aside h).trans (hflag _)
  | silent h _ => exact Feeds.aside h

theorem resetClient_streams (c : ClientId) (asked : Bool) (s : Server δ ν) :
    (resetClient c asked s).aof = s.aof ∧ (resetClient c asked s).repl = s.repl ∧
      (resetClient c asked s).execs = s.execs := by
  unfold resetClient
  dsimp only
  split
  · exact ⟨rfl, rfl, rfl⟩
  · exact ⟨rfl, rfl, rfl⟩

theorem resetClient_feeds (c : ClientId) (asked : Bool) (s : Server δ ν) :
    Feeds Plain s (resetClient c asked s) :=
  Feeds.of_eq (resetClient_streams c asked s).1 (resetClient_streams c asked s).2.1
    (resetClient_streams c asked s).2.2

theorem processCommand_feeds {c : ClientId} {argv : List Bytes} {s : Server δ ν}
    (h : ∀ count, (processCommand w c argv s).2 ≠ .called (.exec (.replies count))) :
    Feeds Plain s (processCommand w c argv s).1 := by
  unfold processCommand at h ⊢
  dsimp only at h ⊢
  split
  · exact Feeds.setClient c _ s
  rename_i hquit
  rw [if_neg hquit] at h
  cases hname : w.commands (argv.headD []) with
  | none =>
    dsimp only
    unfold flagTransaction
    split
    · exact Feeds.mapLive s _
    · exact Feeds.refl s
  | some cmd =>
    rw [hname] at h
    dsimp only at h ⊢
    have hcheck := (checkCommand_checked w c cmd argv s).feeds
    generalize checkCommand w c cmd argv s = r at h hcheck
    obtain ⟨t, a⟩ := r
    cases a with
    | some a => exact hcheck
    | none =>
      dsimp only at h ⊢
      split
      · exact hcheck.trans (Feeds.setClient c _ t)
      · rename_i hqueue
        rw [dif_neg hqueue] at h
        exact hcheck.trans (call_feeds w fun count hcount => h count (congrArg Answer.called hcount))

theorem request_feeds {c : ClientId} {argv : List Bytes} {s : Server δ ν}
    (h : ¬ ∃ count, (request w c argv s).2 = .called (.exec (.replies count))) :
    Feeds Plain s (request w c argv s).1 := by
  unfold request at h ⊢
  split
  · exact Feeds.refl s
  rename_i halive
  rw [if_neg halive] at h
  dsimp only at h ⊢
  have hprocess : Feeds Plain s (processCommand w c argv s).1 := by
    refine processCommand_feeds w fun count hcount => h ⟨count, ?_⟩
    rw [hcount]
    split
    · rfl
    · rfl
  split
  · exact hprocess
  · exact hprocess.trans (resetClient_feeds c _ _)

theorem request_exec {c : ClientId} {argv : List Bytes} {s : Server δ ν} {count : Nat}
    (h : (request w c argv s).2 = .called (.exec (.replies count))) :
    ∃ t la lr, Feeds Plain s t ∧ (request w c argv s).1.aof = t.aof ++ la ∧
      (request w c argv s).1.repl = t.repl ++ lr ∧ (request w c argv s).1.execs = s.execs + 1 ∧
      (∀ e ∈ la, (txRoles s.execs).Mine e) ∧ (∀ e ∈ lr, (txRoles s.execs).Mine e) ∧
      ((txRoles s.execs).Bracketed la ∧ (txRoles s.execs).Bracketed lr ↔
        TransactionOk w c (atCall w c argv s)) := by
  obtain ⟨_, _, cmd, hname, hpass, hreply, _, asked, hst⟩ := request_called w h
  have haside := (checkCommand_checked w c cmd argv s).aside_of_none hpass
  have hat : atCall w c argv s = (checkCommand w c cmd argv s).1.live := by
    rw [atCall, hname]
    rfl
  rw [hst, hat]
  generalize (checkCommand w c cmd argv s).1 = t at haside hreply ⊢
  obtain ⟨hproc, hruns⟩ := call_reply_exec hreply
  obtain ⟨hmulti, hcas, hexec⟩ := execCommand_replies w hruns
  obtain ⟨la, lr, hla, hlr, hexecs, hsa, hsr⟩ :=
    exec_segment w argv hproc hmulti hcas hexec
  obtain ⟨haof, hrepl, hn⟩ := resetClient_streams c asked (call w c cmd argv t).1
  rw [haside.execs] at hexecs hsa hsr
  exact ⟨t, la, lr, Feeds.aside haside, haof.trans hla, hrepl.trans hlr, hn.trans hexecs, hsa.mine,
    hsr.mine, transactionOk_iff w c t.live s.execs rfl rfl hsa hsr⟩

/-! ## Runs -/

def Numbered (k : Nat) (l : List Entry) : Prop := ∀ e ∈ l, ∀ n, (txRoles n).Mine e → n < k

theorem mine_unique {e : Entry} {n m : Nat} (hn : (txRoles n).Mine e) (hm : (txRoles m).Mine e) :
    n = m := by
  rcases hn with hn | hn | hn
  · rcases hm with hm | hm | hm
    · exact Origin.multi.inj (hn.symm.trans hm)
    · exact Origin.noConfusion (hn.symm.trans hm)
    · exact Origin.noConfusion (hn.symm.trans hm)
  · rcases hm with hm | hm | hm
    · exact Origin.noConfusion (hn.symm.trans hm)
    · exact Origin.queued.inj (hn.symm.trans hm)
    · exact Origin.noConfusion (hn.symm.trans hm)
  · rcases hm with hm | hm | hm
    · exact Origin.noConfusion (hn.symm.trans hm)
    · exact Origin.noConfusion (hn.symm.trans hm)
    · exact Origin.exec.inj (hn.symm.trans hm)

theorem wellBracketed_append_plain {l p : List Entry} (hp : ∀ e ∈ p, Plain e) :
    WellBracketed (l ++ p) ↔ WellBracketed l :=
  forall_congr' fun n => Roles.bracketed_append_right fun e he => hp e he n

theorem wellBracketed_append_segment {k : Nat} {l x : List Entry} (hl : Numbered k l)
    (hx : ∀ e ∈ x, (txRoles k).Mine e) :
    WellBracketed (l ++ x) ↔ WellBracketed l ∧ (txRoles k).Bracketed x := by
  have hown : (txRoles k).Bracketed (l ++ x) ↔ (txRoles k).Bracketed x :=
    Roles.bracketed_append_left fun e he hmine => absurd (hl e he k hmine) (lt_irrefl k)
  have hother : ∀ n, n ≠ k → ((txRoles n).Bracketed (l ++ x) ↔ (txRoles n).Bracketed l) :=
    fun n hn => Roles.bracketed_append_right fun e he hmine => hn (mine_unique hmine (hx e he))
  constructor
  · intro h
    refine ⟨fun n => ?_, hown.mp (h k)⟩
    by_cases hn : n = k
    · subst hn
      refine .none fun e he => ⟨fun ho => ?_, fun hc => ?_⟩
      · exact lt_irrefl n (hl e he n (.inl ho))
      · exact lt_irrefl n (hl e he n (.inr (.inr hc)))
    · exact (hother n hn).mp (h n)
  · rintro ⟨h, hk⟩ n
    by_cases hn : n = k
    · subst hn
      exact hown.mpr hk
    · exact (hother n hn).mpr (h n)

def StreamsBracketed (s : Server δ ν) : Prop := WellBracketed s.aof ∧ WellBracketed s.repl

def StreamsNumbered (s : Server δ ν) : Prop := Numbered s.execs s.aof ∧ Numbered s.execs s.repl

theorem Numbered.append_plain {k : Nat} {l p : List Entry} (hl : Numbered k l)
    (hp : ∀ e ∈ p, Plain e) : Numbered k (l ++ p) := by
  intro e he n hmine
  rcases List.mem_append.mp he with he | he
  · exact hl e he n hmine
  · exact absurd hmine (hp e he n)

theorem Numbered.append_segment {k : Nat} {l x : List Entry} (hl : Numbered k l)
    (hx : ∀ e ∈ x, (txRoles k).Mine e) : Numbered (k + 1) (l ++ x) := by
  intro e he n hmine
  rcases List.mem_append.mp he with he | he
  · exact Nat.lt_succ_of_lt (hl e he n hmine)
  · rw [mine_unique hmine (hx e he)]
    exact Nat.lt_succ_self k

theorem Feeds.streams {s t : Server δ ν} (h : Feeds Plain s t) (hs : StreamsNumbered s) :
    StreamsNumbered t ∧ (StreamsBracketed t ↔ StreamsBracketed s) := by
  obtain ⟨⟨la, hla, hpa⟩, ⟨lr, hlr, hpr⟩, hn⟩ := h
  unfold StreamsNumbered StreamsBracketed
  rw [hla, hlr, hn, wellBracketed_append_plain hpa, wellBracketed_append_plain hpr]
  exact ⟨⟨hs.1.append_plain hpa, hs.2.append_plain hpr⟩, Iff.rfl⟩

/-- One event keeps the streams well bracketed if and only if it is no EXEC that runs its transaction
in a state that does not meet the condition. -/
theorem step_streams {s : Server δ ν} (hs : StreamsNumbered s) (e : Event δ ν) :
    StreamsNumbered (step w s e) ∧
      (StreamsBracketed (step w s e) ↔ StreamsBracketed s ∧ ExecOk w s e) := by
  have hplain : Feeds Plain s (step w s e) → ExecOk w s e → StreamsNumbered (step w s e) ∧
      (StreamsBracketed (step w s e) ↔ StreamsBracketed s ∧ ExecOk w s e) := by
    intro hfeeds hok
    obtain ⟨hnum, hiff⟩ := hfeeds.streams hs
    exact ⟨hnum, hiff.trans (and_iff_left hok).symm⟩
  cases e with
  | createClient c master =>
    refine hplain ?_ trivial
    unfold step
    dsimp only
    split
    · exact Feeds.refl s
    · exact Feeds.setClient c _ s
  | freeClient c =>
    refine hplain ?_ trivial
    unfold step
    dsimp only
    split
    · exact Feeds.refl s
    · exact (Feeds.mapLive s _).trans (Feeds.setClient c _ _)
  | background b =>
    refine hplain ?_ trivial
    unfold step
    dsimp only
    split
    · exact Feeds.refl s
    · exact (Feeds.mapLive s _).trans (Feeds.feed (fun _ he => plain_server he) b.fed _)
  | request c argv =>
    by_cases hexec : ∃ count, (request w c argv s).2 = .called (.exec (.replies count))
    · obtain ⟨count, hcount⟩ := hexec
      obtain ⟨t, la, lr, hfeeds, hla, hlr, hexecs, hma, hmr, hiff⟩ := request_exec w hcount
      obtain ⟨hnum, hbracketed⟩ := hfeeds.streams hs
      have hk : t.execs = s.execs := hfeeds.execs
      unfold StreamsNumbered at hnum
      rw [hk] at hnum
      have hok : ExecOk w s (.request c argv) ↔ TransactionOk w c (atCall w c argv s) :=
        ⟨fun h => h ⟨count, hcount⟩, fun h _ => h⟩
      rw [hok, ← hiff, ← hbracketed]
      unfold StreamsNumbered StreamsBracketed
      show (Numbered (request w c argv s).1.execs (request w c argv s).1.aof ∧
        Numbered (request w c argv s).1.execs (request w c argv s).1.repl) ∧
        (WellBracketed (request w c argv s).1.aof ∧ WellBracketed (request w c argv s).1.repl ↔ _)
      rw [hexecs, hla, hlr, wellBracketed_append_segment hnum.1 hma,
        wellBracketed_append_segment hnum.2 hmr]
      exact ⟨⟨hnum.1.append_segment hma, hnum.2.append_segment hmr⟩, and_and_and_comm⟩
    · exact hplain (request_feeds w hexec) fun h => absurd h hexec

theorem run_streams {s : Server δ ν} (hs : StreamsNumbered s) (es : List (Event δ ν)) :
    StreamsBracketed (run (step w) s es) ↔
      StreamsBracketed s ∧ RunMeets (step w) (ExecOk w) s es := by
  induction es generalizing s with
  | nil => simp
  | cons e es ih =>
    obtain ⟨hnum, hiff⟩ := step_streams w hs e
    rw [run_cons, ih hnum, hiff, runMeets_cons, and_assoc]

/-- In the stream for the AOF and in the one for the slaves every MULTI and its EXEC enclose exactly
what their transaction fed, if and only if each EXEC of the run that runs its transaction does so in a
state that meets `TransactionOk`. -/
theorem exec_atomic_in_stream (data : δ) (g : Conditions ν) (es : List (Event δ ν)) :
    WellBracketed (run (step w) (initServer data g) es).aof ∧
        WellBracketed (run (step w) (initServer data g) es).repl ↔
      RunMeets (step w) (ExecOk w) (initServer data g) es := by
  have hnum : StreamsNumbered (initServer data g) :=
    ⟨fun _ he => absurd he List.not_mem_nil, fun _ he => absurd he List.not_mem_nil⟩
  have hstart : StreamsBracketed (initServer data g) :=
    ⟨fun _ => .none fun _ he => absurd he List.not_mem_nil,
      fun _ => .none fun _ he => absurd he List.not_mem_nil⟩
  have hrun := run_streams w hnum es
  rw [and_iff_right hstart] at hrun
  exact hrun

end Exec

def savingRun : List (Event Unit Nat) :=
  [.createClient 1 false, sends ["SET", "k", "v"], sends ["MULTI"], sends ["SET", "k", "w"],
    sends ["SAVE"], sends ["EXEC"]]

/-- SAVE resets the counter inside the transaction: MULTI is fed, and EXEC is not. -/
theorem multi_without_exec :
    ¬ (WellBracketed (run (step smallWorld) (initServer () plainConditions) savingRun).aof ∧
      WellBracketed (run (step smallWorld) (initServer () plainConditions) savingRun).repl) := by
  have hopen : ∃ e ∈ (run (step smallWorld) (initServer () plainConditions) savingRun).repl,
      e.origin = .multi 0 := by decide
  have hclosed : ∀ e ∈ (run (step smallWorld) (initServer () plainConditions) savingRun).repl,
      e.origin ≠ .exec 0 := by decide
  generalize (run (step smallWorld) (initServer () plainConditions) savingRun).repl = stream at *
  rintro ⟨_, h⟩
  rcases h 0 with hnone | ⟨pre, o, forms, x, post, rfl, _, hx, _⟩
  · obtain ⟨e, he, hmulti⟩ := hopen
    exact (hnone e he).1 hmulti
  · exact hclosed x (by simp) hx

/-- With SAVE alone in the queue it is the other way round. -/
example : (run (step smallWorld) (initServer () plainConditions)
      [.createClient 1 false, sends ["SET", "k", "v"], sends ["MULTI"], sends ["SAVE"],
        sends ["EXEC"]]).repl.map Entry.origin = [.command 1, .queued 0, .exec 0] := by decide

end RedisCluster.Multi
