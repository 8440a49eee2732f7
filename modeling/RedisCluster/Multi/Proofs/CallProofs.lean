import RedisCluster.Multi.Proofs.CheckProofs

/-!
# What `call` and EXEC change

`call` adds to the streams after the procedure and changes nothing else, so the state of the clients
after a call is that after the procedure. Seen from another client only its `dirty_cas` may change
(`Untouched`). `Preserves` is the invariant rule for a request.
-/

namespace RedisCluster.Multi

variable {δ ν : Type}

def emitted (o : Origin) (target : RedisOp → Bool) (ops : List RedisOp) : List Entry :=
  (ops.filter target).map fun op => ⟨o, op.db, op.argv⟩

theorem emitted_append (o : Origin) (target : RedisOp → Bool) (ops ops' : List RedisOp) :
    emitted o target (ops ++ ops') = emitted o target ops ++ emitted o target ops' := by
  simp [emitted]

def Server.emit (o : Origin) (ops : List RedisOp) (s : Server δ ν) : Server δ ν :=
  { s with
    aof := s.aof ++ emitted o (fun op => s.live.conditions.feedsAof && op.aof) ops
    repl := s.repl ++ emitted o RedisOp.repl ops }

theorem propagate_eq (o : Origin) (op : RedisOp) (s : Server δ ν) :
    propagate o op s = s.emit o [op] := by
  have haof : (if s.live.conditions.aof_state ≠ .off ∧ op.aof then s.aof ++ [⟨o, op.db, op.argv⟩]
      else s.aof) = s.aof ++ emitted o (fun op => s.live.conditions.feedsAof && op.aof) [op] := by
    by_cases hoff : s.live.conditions.aof_state = .off
    · simp [emitted, Conditions.feedsAof, hoff]
    · cases hop : op.aof <;> simp [emitted, Conditions.feedsAof, hoff, hop]
  have hrepl : (if op.repl then s.repl ++ [⟨o, op.db, op.argv⟩] else s.repl) =
      s.repl ++ emitted o RedisOp.repl [op] := by
    cases hop : op.repl <;> simp [emitted, hop]
  unfold propagate Server.emit
  dsimp only
  rw [haof, hrepl]

theorem Server.emit_emit (o : Origin) (ops ops' : List RedisOp) (s : Server δ ν) :
    (s.emit o ops).emit o ops' = s.emit o (ops ++ ops') := by
  simp only [Server.emit, emitted_append, List.append_assoc]

theorem foldl_propagate (o : Origin) (ops : List RedisOp) (s : Server δ ν) :
    ops.foldl (fun t op => propagate o op t) s = s.emit o ops := by
  induction ops generalizing s with
  | nil => simp [Server.emit, emitted]
  | cons op ops ih => rw [List.foldl_cons, ih, propagate_eq, Server.emit_emit, List.singleton_append]

def callOps (db : Nat) (dirty : Int) (out : Outcome) : List RedisOp :=
  let op : RedisOp :=
    { db := db, argv := out.argv, aof := out.force_aof || dirty ≠ 0
      repl := out.force_repl || dirty ≠ 0 }
  (if op.aof || op.repl then [op] else []) ++ out.also

theorem propagateCommand_eq (o : Origin) (c : ClientId) (dirty : Int) (out : Outcome)
    (s : Server δ ν) :
    out.also.foldl (fun t op => propagate o op t) (propagateCommand o c dirty out s) =
      s.emit o (callOps (s.client c).session.db dirty out) := by
  unfold propagateCommand callOps
  dsimp only
  rw [foldl_propagate]
  split
  · rw [propagate_eq, Server.emit_emit]
  · rw [List.nil_append]

theorem callWith_eq (o : Origin) (c : ClientId) (cmd : RedisCommand) (argv : List Bytes)
    (body : Server δ ν → Server δ ν × Outcome) (s : Server δ ν) :
    callWith o c cmd argv body s =
      let r := body (s.note (callPoint o c cmd argv s))
      r.1.emit o
        (callOps (r.1.client c).session.db (r.1.live.dirty - s.live.dirty) r.2) :=
  propagateCommand_eq o c _ _ _

@[simp] theorem emit_live (o : Origin) (ops : List RedisOp) (s : Server δ ν) :
    (s.emit o ops).live = s.live := rfl

section CallWith

variable (o : Origin) (c : ClientId) (cmd : RedisCommand) (argv : List Bytes)
  (body : Server δ ν → Server δ ν × Outcome) (s : Server δ ν)

@[simp] theorem callWith_live :
    (callWith o c cmd argv body s).live = (body (s.note (callPoint o c cmd argv s))).1.live := by
  rw [callWith_eq]
  rfl

@[simp] theorem callWith_calls :
    (callWith o c cmd argv body s).calls = (body (s.note (callPoint o c cmd argv s))).1.calls := by
  rw [callWith_eq]
  rfl

end CallWith

@[simp] theorem note_live (s : Server δ ν) (p : CallPoint δ ν) : (s.note p).live = s.live := rfl

@[simp] theorem note_calls (s : Server δ ν) (p : CallPoint δ ν) :
    (s.note p).calls = s.calls ++ [p] := rfl

@[simp] theorem mapLive_live (s : Server δ ν) (f : Live δ ν → Live δ ν) :
    (s.mapLive f).live = f s.live := rfl

@[simp] theorem quiet_live (argv : List Bytes) (f : Live δ ν → Live δ ν) (s : Server δ ν) :
    (quiet argv f s).1.live = f s.live := rfl

theorem setClient_client (c : ClientId) (x : Client) (s : Server δ ν) :
    (s.setClient c x).client c = x := Function.update_self ..

theorem setClient_client_ne {c d : ClientId} (h : d ≠ c) (x : Client) (s : Server δ ν) :
    (s.setClient c x).client d = s.client d := Function.update_of_ne h ..

theorem call_reply_exec {w : World δ ν} {c : ClientId} {cmd : RedisCommand} {argv : List Bytes}
    {s : Server δ ν} {r : ExecReply} (h : (call w c cmd argv s).2 = .exec r) :
    cmd.proc = .execCommand ∧ (execCommand w c s).2 = r := by
  unfold call at h
  dsimp only at h
  split at h
  · rename_i hproc
    exact ⟨hproc, CallReply.exec.inj h⟩
  · split at h
    · cases h
    · cases h
  · split at h
    · cases h
    · cases h
  · split at h
    · cases h
    · cases h
  · cases h
  · cases h

def Untouched (c : ClientId) (s t : Live δ ν) : Prop :=
  ∃ b, t.client c = { s.client c with dirty_cas := b }

namespace Untouched

variable {c d : ClientId}

theorem refl (s : Live δ ν) : Untouched c s s := ⟨(s.client c).dirty_cas, rfl⟩

theorem trans {s t u : Live δ ν} (h : Untouched c s t) (k : Untouched c t u) :
    Untouched c s u := by
  obtain ⟨b, hb⟩ := h
  obtain ⟨b', hb'⟩ := k
  exact ⟨b', by rw [hb', hb]⟩

theorem of_eq {s t : Live δ ν} (h : t.client = s.client) : Untouched c s t :=
  ⟨(s.client c).dirty_cas, by rw [h]⟩

theorem touch (l : List ClientId) (s : Live δ ν) : Untouched c s (s.touch l) := ⟨_, rfl⟩

theorem setClient (h : d ≠ c) (x : Client) (s : Live δ ν) : Untouched c s (s.setClient d x) :=
  ⟨(s.client c).dirty_cas, by simp [Live.setClient, Function.update_of_ne h.symm]⟩

end Untouched

/-- What a call can do to its client. -/
inductive CallStep : Client → Client → Prop
  | session (x : Client) (y : Session) : CallStep x { x with session := y }
  | cas (x : Client) (b : Bool) : CallStep x { x with dirty_cas := b }
  | discard (x : Client) :
      CallStep x { x with mstate := [], multi := false, dirty_cas := false, dirty_exec := false }
  | multi (x : Client) : CallStep x { x with multi := true }

/-- What can happen to a client. -/
inductive ClientStep : Client → Client → Prop
  | call {x y : Client} : CallStep x y → ClientStep x y
  | flag (x : Client) : x.multi = true → ClientStep x { x with dirty_exec := true }
  | queue (x : Client) (m : MultiCmd) :
      x.multi = true → ClientStep x { x with mstate := x.mstate ++ [m] }
  | create (x : Client) (master : Bool) : ClientStep x (newClient master)
  | free (x : Client) : ClientStep x freedClient

/-- The client `d` did something, or something was done for it, in steps of `R`. -/
structure Moves (R : Client → Client → Prop) (d : ClientId) (s t : Live δ ν) : Prop where
  own : Relation.ReflTransGen R (s.client d) (t.client d)
  other : ∀ c, d ≠ c → Untouched c s t

namespace Moves

variable {R : Client → Client → Prop} {d : ClientId}

theorem refl (s : Live δ ν) : Moves R d s s := ⟨.refl, fun _ _ => Untouched.refl s⟩

theorem trans {s t u : Live δ ν} (h : Moves R d s t) (k : Moves R d t u) : Moves R d s u :=
  ⟨h.own.trans k.own, fun c hc => (h.other c hc).trans (k.other c hc)⟩

theorem of_eq {s t : Live δ ν} (h : t.client = s.client) : Moves R d s t := by
  refine ⟨?_, fun _ _ => Untouched.of_eq h⟩
  rw [h]

theorem mono {R' : Client → Client → Prop} (hR : ∀ {x y}, R x y → R' x y) {s t : Live δ ν}
    (h : Moves R d s t) : Moves R' d s t := ⟨Relation.ReflTransGen.mono (fun _ _ => hR) _ _ h.own, h.other⟩

theorem setClient {x : Client} {s : Live δ ν} (h : R (s.client d) x) :
    Moves R d s (s.setClient d x) := by
  refine ⟨?_, fun _ hc => Untouched.setClient hc x s⟩
  have hx : (s.setClient d x).client d = x := Function.update_self ..
  rw [hx]
  exact .single h

theorem touch (l : List ClientId) (s : Live δ ν) : Moves CallStep d s (s.touch l) :=
  ⟨.single (.cas _ _), fun _ _ => Untouched.touch l s⟩

theorem perform (e : Effect δ ν) (s : Live δ ν) : Moves CallStep d s (s.perform e d) := by
  have hdata : Moves CallStep d s
      { s with data := e.data, dirty := e.dirty, conditions := e.conditions } := of_eq rfl
  exact (hdata.trans (touch e.touched _)).trans (setClient (.session _ _))

theorem discard (w : World δ ν) (s : Live δ ν) :
    Moves CallStep d s (discardTransaction w d s) := (setClient (.discard _)).trans (of_eq rfl)

theorem unwatchAll (w : World δ ν) (s : Live δ ν) : Moves R d s (unwatchAllKeys w d s) := of_eq rfl

theorem unwatch (w : World δ ν) (s : Live δ ν) : Moves CallStep d s (unwatchCommand w d s) :=
  (unwatchAll w s).trans (setClient (.cas _ false))

theorem flag (s : Server δ ν) : Moves ClientStep d s.live (flagTransaction d s).live := by
  unfold flagTransaction
  split
  · rename_i h
    exact setClient (.flag _ h)
  · exact refl _

end Moves

section Moves

variable (w : World δ ν) (d : ClientId)

theorem procBody_moves (o : Origin) (proc : Proc) (argv : List Bytes) (s : Server δ ν) :
    Moves CallStep d s.live (procBody w o d proc argv s).1.live := Moves.perform _ s.live

theorem queuedBody_moves (o : Origin) (m : MultiCmd) (s : Server δ ν) :
    Moves CallStep d s.live (queuedBody w o d m s).1.live := by
  unfold queuedBody
  split
  · exact Moves.unwatch w s.live
  · exact procBody_moves w d o _ m.argv s

theorem execLoop_moves (n : Nat) (queue : List MultiCmd) (must : Bool) (s : Server δ ν) :
    Moves CallStep d s.live (execLoop w n d queue must s).1.live := by
  induction queue generalizing must s with
  | nil => exact Moves.refl s.live
  | cons m queue ih =>
    unfold execLoop
    dsimp only
    refine Moves.trans ?_ (ih _ _)
    rw [queuedCall, callWith_live]
    split
    · exact queuedBody_moves w d (.queued n) m ((execCommandPropagateMulti n d s).note _)
    · exact queuedBody_moves w d (.queued n) m (s.note _)

theorem execCommand_moves (s : Server δ ν) : Moves CallStep d s.live (execCommand w d s).1.live := by
  unfold execCommand
  dsimp only
  split
  · exact Moves.refl s.live
  · split
    · exact Moves.discard w s.live
    · have hloop := execLoop_moves w d s.execs (s.client d).mstate false
        (s.mapLive (unwatchAllKeys w d))
      have hall : Moves CallStep d s.live (discardTransaction w d
          (execLoop w s.execs d (s.client d).mstate false
            (s.mapLive (unwatchAllKeys w d))).1.live) :=
        ((Moves.unwatchAll w s.live).trans hloop).trans (Moves.discard w _)
      split
      · exact hall.trans (Moves.of_eq rfl)
      · exact hall

theorem call_moves (cmd : RedisCommand) (argv : List Bytes) (s : Server δ ν) :
    Moves CallStep d s.live (call w d cmd argv s).1.live := by
  unfold call
  dsimp only
  split
  · rw [callWith_live]
    exact execCommand_moves w d (s.note _)
  · rw [callWith_live]
    show Moves CallStep d s.live (multiCommand d s.live)
    unfold multiCommand
    split
    · exact Moves.refl _
    · exact Moves.setClient (.multi _)
  · rw [callWith_live]
    show Moves CallStep d s.live (discardCommand w d s.live)
    unfold discardCommand
    split
    · exact Moves.discard w _
    · exact Moves.refl _
  · split
    · rw [callWith_live]
      exact Moves.refl _
    · rw [callWith_live]
      exact procBody_moves w d (.command d) _ argv _
  · rw [callWith_live]
    exact Moves.unwatch w s.live
  · rw [callWith_live]
    exact procBody_moves w d (.command d) _ argv _

theorem Checked.moves {P : Rejection → Prop} {s : Server δ ν} {r : Server δ ν × Option Answer}
    (h : Checked d P s r) : Moves ClientStep d s.live r.1.live := by
  cases h with
  | pass h _ => exact .of_eq h.client
  | assertion h _ => exact .of_eq h.client
  | flagged h => exact (Moves.of_eq h.client).trans (Moves.flag _)
  | silent h => exact .of_eq h.client

theorem processCommand_moves (argv : List Bytes) (s : Server δ ν) :
    Moves ClientStep d s.live (processCommand w d argv s).1.live := by
  unfold processCommand
  dsimp only
  split
  · exact Moves.setClient (.call (.session _ _))
  · split
    · exact Moves.flag s
    · rename_i cmd _
      have hcheck := (checkCommand_checked w d cmd argv s).moves
      split
      · rename_i heq
        rw [heq] at hcheck
        exact hcheck
      · rename_i heq
        rw [heq] at hcheck
        split
        · rename_i hqueue
          exact hcheck.trans (Moves.setClient (.queue _ _ hqueue.1))
        · exact hcheck.trans ((call_moves w d cmd argv _).mono .call)

theorem resetClient_moves (asked : Bool) (s : Server δ ν) :
    Moves ClientStep d s.live (resetClient d asked s).live := by
  unfold resetClient
  dsimp only
  split
  · exact Moves.setClient (.call (.session _ _))
  · exact Moves.refl _

theorem request_moves (argv : List Bytes) (s : Server δ ν) :
    Moves ClientStep d s.live (request w d argv s).1.live := by
  have hprocess := processCommand_moves w d argv s
  unfold request
  split
  · exact Moves.refl _
  · dsimp only
    split
    · exact hprocess
    · exact hprocess.trans (resetClient_moves d _ _)

end Moves

theorem client_inv {P : Client → Prop} (hP : ∀ x y, ClientStep x y → P x → P y) (w : World δ ν)
    (s : Server δ ν) (e : Event δ ν) (h : ∀ c, P (s.client c)) (c : ClientId) :
    P ((step w s e).client c) := by
  have hmoves : ∀ {d t}, Moves ClientStep d s.live t → P (t.client c) := by
    intro d t ht
    by_cases hc : d = c
    · subst hc
      exact ht.own.head_induction_on (motive := fun x _ => P x → P (t.client d)) id
        (fun hstep _ ih hx => ih (hP _ _ hstep hx)) (h d)
    · obtain ⟨b, hb⟩ := ht.other c hc
      rw [hb]
      exact hP _ _ (.call (.cas _ b)) (h c)
  unfold step
  cases e with
  | request d argv => exact hmoves (request_moves w d argv s)
  | createClient d master =>
    dsimp only
    split
    · exact h c
    · exact hmoves (Moves.setClient (.create _ master))
  | freeClient d =>
    dsimp only
    split
    · exact h c
    · exact hmoves (((Moves.discard w s.live).mono .call).trans (Moves.setClient (.free _)))
  | background b =>
    dsimp only
    split
    · exact h c
    · have hdata : Moves ClientStep c s.live
          { s.live with data := b.data, dirty := b.dirty, conditions := b.conditions } :=
        Moves.of_eq rfl
      exact hmoves (hdata.trans ((Moves.touch b.touched _).mono .call))

/-- `P` survives the procedures, the lookups and evictions of `processCommand`, and what it does to
clients itself. -/
structure Preserves (w : World δ ν) (P : Live δ ν → Prop) : Prop where
  proc : ∀ {s}, P s → ∀ proc argv c, P (s.perform (w.proc proc argv c s) c)
  lookup : ∀ {s}, P s → ∀ key, P { s with data := (w.lookupKeyRead key s).data }
  evict : ∀ {s}, P s → P { s with data := (w.freeMemoryIfNeeded s).data }
  unwatch : ∀ {s}, P s → ∀ c, P (unwatchAllKeys w c s)
  client : ∀ {s}, P s → ∀ c x, P (s.setClient c x)
  dirty : ∀ {s}, P s → ∀ n, P { s with dirty := n }

namespace Preserves

variable {w : World δ ν} {P : Live δ ν → Prop} (hP : Preserves w P) {s : Server δ ν}
include hP

theorem flag (c : ClientId) (h : P s.live) : P (flagTransaction c s).live := by
  unfold flagTransaction
  split
  · exact hP.client h c _
  · exact h

theorem discard (c : ClientId) {t : Live δ ν} (h : P t) : P (discardTransaction w c t) :=
  hP.unwatch (hP.client h c _) c

theorem scanKey (r : Option KeyScan) (key : Bytes) (h : P s.live) : P (scanKey w r key s).1.live := by
  unfold Multi.scanKey
  split
  · exact h
  · split
    · exact hP.lookup h key
    · exact h

theorem scanKeys (keys : List Bytes) (r : Option KeyScan) (h : P s.live) :
    P (scanKeys w keys r s).1.live := by
  induction keys generalizing r s with
  | nil => exact h
  | cons key keys ih =>
    have hkey := hP.scanKey r key h
    unfold Multi.scanKeys
    split
    · rename_i heq
      rw [heq] at hkey
      exact hkey
    · rename_i heq
      rw [heq] at hkey
      exact ih _ hkey

theorem scanCommands (cmds : List (RedisCommand × List Bytes)) (r : Option KeyScan) (h : P s.live) :
    P (scanCommands w cmds r s).1.live := by
  induction cmds generalizing r s with
  | nil => exact h
  | cons m cmds ih =>
    unfold Multi.scanCommands
    split
    · exact h
    · rename_i keys _
      have hkeys := hP.scanKeys keys r h
      split
      · rename_i heq
        rw [heq] at hkeys
        exact hkeys
      · rename_i heq
        rw [heq] at hkeys
        exact ih _ hkeys

theorem getNodeByQuery (c : ClientId) (cmd : RedisCommand) (argv : List Bytes) (h : P s.live) :
    P (getNodeByQuery w c cmd argv s).1.live := by
  unfold Multi.getNodeByQuery
  split
  · exact h
  · have hcmds := hP.scanCommands (queryCommands (s.client c) cmd argv) none h
    split
    · rename_i heq
      rw [heq] at hcmds
      exact hcmds
    · rename_i heq
      rw [heq] at hcmds
      exact hcmds

theorem checkCluster (c : ClientId) (cmd : RedisCommand) (argv : List Bytes) (h : P s.live) :
    P (checkCluster w c cmd argv s).1.live := by
  have hquery := hP.getNodeByQuery c cmd argv h
  unfold Multi.checkCluster
  split
  · exact h
  · split
    · exact hP.flag c h
    · dsimp only
      split
      · exact hP.flag c hquery
      · exact hP.flag c hquery
      · exact hquery
      · split
        · exact hquery
        · split
          · exact hP.flag c hquery
          · exact hP.flag c hquery

theorem checkMemory (c : ClientId) (cmd : RedisCommand) (h : P s.live) :
    P (checkMemory w c cmd s).1.live := by
  unfold Multi.checkMemory
  split
  · exact h
  · dsimp only
    split
    · exact hP.flag c (s := (s.mapLive fun t =>
        { t with data := (w.freeMemoryIfNeeded s.live).data }).feed .server _) (hP.evict h)
    · exact hP.evict h

theorem checkState (c : ClientId) (cmd : RedisCommand) (argv : List Bytes) (h : P s.live) :
    P (checkState c cmd argv s).1.live := by
  unfold Multi.checkState reject rejectSilently
  dsimp only
  repeat' split
  all_goals first
    | exact h
    | exact hP.flag c h

omit hP in
theorem orElse {r : Server δ ν × Option Answer} {next : Server δ ν → Server δ ν × Option Answer}
    (h : P r.1.live) (hnext : P r.1.live → P (next r.1).1.live) : P (orElse r next).1.live := by
  unfold Multi.orElse
  split
  · exact h
  · exact hnext h

theorem checkCommand (c : ClientId) (cmd : RedisCommand) (argv : List Bytes) (h : P s.live) :
    P (checkCommand w c cmd argv s).1.live := by
  unfold Multi.checkCommand
  split
  · exact hP.flag c h
  · split
    · exact hP.flag c h
    · refine Preserves.orElse (hP.checkCluster c cmd argv h) fun h => ?_
      exact Preserves.orElse (hP.checkMemory c cmd h) fun h => hP.checkState c cmd argv h

theorem queuedBody (o : Origin) (c : ClientId) (m : MultiCmd) (h : P s.live) :
    P (queuedBody w o c m s).1.live := by
  unfold Multi.queuedBody
  split
  · exact hP.client (hP.unwatch h c) c _
  · exact hP.proc h _ m.argv c

theorem execLoop (n : Nat) (c : ClientId) (queue : List MultiCmd) (must : Bool) (h : P s.live) :
    P (execLoop w n c queue must s).1.live := by
  induction queue generalizing must s with
  | nil => exact h
  | cons m queue ih =>
    unfold Multi.execLoop
    dsimp only
    refine ih _ ?_
    rw [queuedCall, callWith_live]
    split
    · exact hP.queuedBody (s := (execCommandPropagateMulti n c s).note _) (.queued n) c m h
    · exact hP.queuedBody (s := s.note _) (.queued n) c m h

theorem execCommand (c : ClientId) (h : P s.live) : P (execCommand w c s).1.live := by
  unfold Multi.execCommand
  dsimp only
  split
  · exact h
  · split
    · exact hP.discard c h
    · have hloop := hP.execLoop (s := s.mapLive (unwatchAllKeys w c)) s.execs c (s.client c).mstate
        false (hP.unwatch h c)
      split
      · exact hP.dirty (hP.discard c hloop) _
      · exact hP.discard c hloop

theorem call (c : ClientId) (cmd : RedisCommand) (argv : List Bytes) (h : P s.live) :
    P (call w c cmd argv s).1.live := by
  unfold Multi.call
  dsimp only
  split
  · rw [callWith_live]
    exact hP.execCommand (s := s.note _) c h
  · rw [callWith_live]
    show P (multiCommand c s.live)
    unfold multiCommand
    split
    · exact h
    · exact hP.client h c _
  · rw [callWith_live]
    show P (discardCommand w c s.live)
    unfold discardCommand
    split
    · exact hP.discard c h
    · exact h
  · split
    · rw [callWith_live]
      exact h
    · rw [callWith_live]
      exact hP.proc h _ argv c
  · rw [callWith_live]
    exact hP.client (hP.unwatch h c) c _
  · rw [callWith_live]
    exact hP.proc h _ argv c

theorem processCommand (c : ClientId) (argv : List Bytes) (h : P s.live) :
    P (processCommand w c argv s).1.live := by
  unfold Multi.processCommand
  dsimp only
  split
  · exact hP.client h c _
  · split
    · exact hP.flag c h
    · rename_i cmd _
      have hcheck := hP.checkCommand c cmd argv h
      split
      · rename_i heq
        rw [heq] at hcheck
        exact hcheck
      · rename_i heq
        rw [heq] at hcheck
        split
        · exact hP.client hcheck c _
        · exact hP.call c cmd argv hcheck

theorem request (c : ClientId) (argv : List Bytes) (h : P s.live) :
    P (request w c argv s).1.live := by
  have hprocess := hP.processCommand c argv h
  unfold Multi.request
  split
  · exact h
  · dsimp only
    split
    · exact hprocess
    · unfold resetClient
      dsimp only
      split
      · exact hP.client hprocess c _
      · exact hprocess

end Preserves

end RedisCluster.Multi
