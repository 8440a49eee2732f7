import RedisCluster.Multi.Proofs.CallProofs

/-!
# Transactions after a queueing error

The flag `REDIS_DIRTY_EXEC` of a client that is in a transaction says that one of its commands was
refused by an exit that calls `flagTransaction` (`open_run`). EXEC replies with EXECABORT if and only
if it is set, so a transaction is all or nothing unless its only refused commands were refused by the
read-only check or by the loading check (`exec_all_or_nothing`).
-/

namespace RedisCluster.Multi

open RedisCluster.Lib

variable {δ ν : Type} (w : World δ ν)

/-- The client is in a transaction, which no client with subscriptions can be. -/
structure InMulti (c : ClientId) (s : Server δ ν) : Prop where
  multi : (s.client c).multi = true
  channels : (s.client c).session.channels = 0
  patterns : (s.client c).session.patterns = 0

/-- The client `c` stays in its transaction from `s` to `t`, and its transaction is flagged if it was
or if `flags` says so. -/
structure Flags (c : ClientId) (flags : Prop) (s t : Server δ ν) : Prop where
  inMulti : InMulti c t
  dirty : (t.client c).dirty_exec = true ↔ (s.client c).dirty_exec = true ∨ flags

theorem Flags.congr {c : ClientId} {p q : Prop} {s t : Server δ ν} (h : Flags c p s t)
    (hpq : p ↔ q) : Flags c q s t := ⟨h.inMulti, h.dirty.trans (or_congr_right hpq)⟩

theorem InMulti.untouched {c : ClientId} {s t : Server δ ν} (h : InMulti c s)
    (hst : Untouched c s.live t.live) : Flags c False s t := by
  obtain ⟨b, hb⟩ := hst
  constructor
  · constructor
    · rw [Server.client, hb]
      exact h.multi
    · rw [Server.client, hb]
      exact h.channels
    · rw [Server.client, hb]
      exact h.patterns
  · rw [Server.client, hb]
    simp

theorem InMulti.flagged {c : ClientId} {s t : Server δ ν} (h : InMulti c s) (hst : Aside s t) :
    Flags c True s (flagTransaction c t) := by
  have hclient : t.live.client c = s.live.client c := by rw [hst.client]
  constructor
  · constructor <;> rw [Server.client, flagTransaction_client, hclient]
    · exact h.multi
    · exact h.channels
    · exact h.patterns
  · have hmulti : (s.live.client c).multi = true := h.multi
    rw [Server.client, flagTransaction_client, hclient]
    simp [hmulti]

theorem InMulti.unsubscribed {c : ClientId} {s : Server δ ν} (h : InMulti c s)
    (cmd : RedisCommand) : Conditions.subscribed (s.client c).session cmd = false := by
  simp [Conditions.subscribed, h.channels, h.patterns]

theorem InMulti.stateSilent {c : ClientId} {s : Server δ ν} (h : InMulti c s) {cmd : RedisCommand}
    {e : Rejection} (he : StateSilent cmd s.live.conditions (s.client c).session e) :
    StateSilent cmd s.live.conditions (s.client c).session .roslave ∨
      StateSilent cmd s.live.conditions (s.client c).session .loading := by
  rcases he with ⟨hdisk, hslaves, ⟨rfl, hro⟩ | ⟨rfl, _, hsub⟩ | ⟨rfl, hload⟩⟩
  · exact .inl ⟨hdisk, hslaves, .inl ⟨rfl, hro⟩⟩
  · rw [h.unsubscribed] at hsub
    cases hsub
  · exact .inr ⟨hdisk, hslaves, .inr (.inr ⟨rfl, hload⟩)⟩

theorem call_inMulti {c : ClientId} {cmd : RedisCommand} {argv : List Bytes} {s : Server δ ν}
    (h : InMulti c s) (hcmd : ¬ cmd.Queueable)
    (hstays : (Answer.called (call w c cmd argv s).2).ends = false) :
    Flags c False s (call w c cmd argv s).1 := by
  refine h.untouched (Untouched.of_eq ?_)
  unfold call at hstays ⊢
  dsimp only at hstays ⊢
  split at hstays
  · cases hstays
  · simp only [callWith_live, quiet_live, note_live, multiCommand, h.multi, if_true]
  · rw [if_pos h.multi] at hstays
    cases hstays
  · simp only [if_pos h.multi, callWith_live, quiet_live, note_live, id]
  · rename_i hproc
    exact absurd ⟨by simp [hproc], by simp [hproc], by simp [hproc], by simp [hproc]⟩ hcmd
  · rename_i hexec hmulti hdiscard hwatch _
    exact absurd ⟨hexec, hdiscard, hmulti, hwatch⟩ hcmd

theorem queueMultiCommand_inMulti {c : ClientId} {s t : Server δ ν} (h : InMulti c s)
    (hst : Aside s t) (m : MultiCmd) : Flags c False s (queueMultiCommand c m t) := by
  have hclient : t.client c = s.client c := by rw [Server.client, hst.client]
  have hqueue : (queueMultiCommand c m t).client c =
      { s.client c with mstate := (s.client c).mstate ++ [m] } := by
    rw [queueMultiCommand, setClient_client, hclient]
  constructor
  · constructor
    · rw [hqueue]
      exact h.multi
    · rw [hqueue]
      exact h.channels
    · rw [hqueue]
      exact h.patterns
  · rw [hqueue]
    simp

theorem resetClient_inMulti {c : ClientId} {flags : Prop} {s t : Server δ ν}
    (h : Flags c flags s t) (asked : Bool) : Flags c flags s (resetClient c asked t) := by
  have hreset : resetClient c asked t = t := by
    have hmulti := h.inMulti.multi
    unfold resetClient
    simp only [hmulti, Bool.not_true, Bool.false_and, Bool.false_eq_true, if_false]
  rw [hreset]
  exact h

/-- The command of a client in a transaction: it is flagged if and only if the command is refused, and
not by the read-only or the loading check. -/
theorem processCommand_inMulti {c : ClientId} {argv : List Bytes} {s : Server δ ν}
    (h : InMulti c s) (hstays : (processCommand w c argv s).2.ends = false)
    (hpanic : s.panicked = false) (hclose : (s.client c).session.close_after_reply = false) :
    Flags c
      ((∃ error, (processCommand w c argv s).2 = .rejected error) ∧
        ¬ RefusedSilently w c s (.request c argv)) s
      (processCommand w c argv s).1 := by
  unfold processCommand at hstays ⊢
  dsimp only at hstays ⊢
  split
  · constructor
    · constructor <;> rw [setClient_client]
      · exact h.multi
      · exact h.channels
      · exact h.patterns
    · rw [setClient_client]
      simp
  rename_i hquit
  rw [if_neg hquit] at hstays
  rw [Bool.not_eq_true] at hquit
  cases hname : w.commands (argv.headD []) with
  | none =>
    have hflags := h.flagged (Aside.refl s)
    have hloud : ¬ RefusedSilently w c s (.request c argv) := by
      rintro ⟨_, _, _, _, cmd, hcmd, _⟩
      rw [hname] at hcmd
      cases hcmd
    refine ⟨hflags.inMulti, ?_⟩
    rw [hflags.dirty]
    simp [hloud]
  | some cmd =>
    rw [hname] at hstays
    dsimp only at hstays ⊢
    have hsilent : RefusedSilently w c s (.request c argv) ↔
        ∃ e, ReachesState w c cmd argv s ∧
          StateSilent cmd s.live.conditions (s.client c).session e := by
      constructor
      · rintro ⟨_, _, _, _, cmd', hcmd', hreach, hro | hload⟩
        · rw [hname, Option.some.injEq] at hcmd'
          subst hcmd'
          exact ⟨_, hreach, hro⟩
        · rw [hname, Option.some.injEq] at hcmd'
          subst hcmd'
          exact ⟨_, hreach, hload⟩
      · rintro ⟨e, hreach, he⟩
        exact ⟨rfl, hpanic, hclose, hquit, cmd, hname, hreach, h.stateSilent he⟩
    have hcheck := checkCommand_checked w c cmd argv s
    generalize checkCommand w c cmd argv s = r at hcheck hstays
    cases hcheck with
    | @pass t haside _ =>
      dsimp only at hstays ⊢
      split
      · exact (queueMultiCommand_inMulti h haside _).congr (by simp)
      rename_i hqueue
      rw [dif_neg hqueue] at hstays
      have hsame := h.untouched (Untouched.of_eq (c := c) haside.client)
      have hcmd : ¬ cmd.Queueable := fun hq => hqueue ⟨hsame.inMulti.multi, hq⟩
      have hcall := call_inMulti w hsame.inMulti hcmd hstays
      refine ⟨hcall.inMulti, hcall.dirty.trans ?_⟩
      rw [hsame.dirty]
      simp
    | @assertion t haside _ =>
      have hsame : Flags c False s { t with panicked := true } :=
        h.untouched (Untouched.of_eq haside.client)
      exact hsame.congr (by simp)
    | flagged haside hnot =>
      refine (h.flagged haside).congr ?_
      rw [hsilent]
      simp only [true_iff]
      refine ⟨⟨_, rfl⟩, ?_⟩
      rintro ⟨e, he⟩
      exact hnot e he
    | silent haside he =>
      refine (h.untouched (Untouched.of_eq haside.client)).congr ?_
      simp only [false_iff, not_and, not_not]
      exact fun _ => hsilent.mpr ⟨_, he⟩

theorem runHas_cons (p : Server δ ν → Event δ ν → Prop) (s : Server δ ν) (e : Event δ ν)
    (es : List (Event δ ν)) : RunHas w p s (e :: es) ↔ p s e ∨ RunHas w p (step w s e) es := by
  simp only [RunHas, runMeets_cons]
  tauto

theorem answerTo_request (c d : ClientId) (argv : List Bytes) (s : Server δ ν) :
    answerTo w c s (.request d argv) = if d = c then some (request w d argv s).2 else none := rfl

theorem open_step {c : ClientId} {s : Server δ ν} {e : Event δ ν} (h : InMulti c s)
    (hopen : StaysOpen w c s e) :
    Flags c (Rejects w c s e ∧ ¬ RefusedSilently w c s e) s (step w s e) := by
  cases e with
  | createClient d master =>
    refine (h.untouched (t := step w s (.createClient d master)) ?_).congr ?_
    · unfold step
      dsimp only
      split
      · exact Untouched.refl _
      · exact Untouched.setClient hopen _ _
    · simp [Rejects, answerTo]
  | freeClient d =>
    refine (h.untouched (t := step w s (.freeClient d)) ?_).congr ?_
    · unfold step
      dsimp only
      split
      · exact Untouched.refl _
      · exact ((Moves.discard w _).other c hopen).trans (Untouched.setClient hopen _ _)
    · simp [Rejects, answerTo]
  | background b =>
    refine (h.untouched (t := step w s (.background b)) ?_).congr ?_
    · unfold step
      dsimp only
      split
      · exact Untouched.refl _
      · exact (Untouched.of_eq rfl).trans (Untouched.touch b.touched _)
    · simp [Rejects, answerTo]
  | request d argv =>
    by_cases hd : d = c
    · subst hd
      have hends : (request w d argv s).2.ends = false := by
        simpa [StaysOpen, answerTo] using hopen
      have hrejects : Rejects w d s (.request d argv) ↔
          ∃ error, (request w d argv s).2 = .rejected error := by
        simp [Rejects, answerTo]
      show Flags d _ s (request w d argv s).1
      rw [hrejects]
      unfold request at hends ⊢
      split
      · exact (h.untouched (Untouched.refl _)).congr (by simp)
      rename_i halive
      rw [if_neg halive] at hends
      rw [Bool.not_eq_true, Bool.or_eq_false_iff] at halive
      have hprocess : (processCommand w d argv s).2.ends = false → Flags d _ s _ :=
        fun hstays => processCommand_inMulti w h hstays halive.1 halive.2
      dsimp only at hends ⊢
      split
      · rename_i hstop
        rw [if_pos hstop] at hends
        exact hprocess hends
      · rename_i hstop
        rw [if_neg hstop] at hends
        exact resetClient_inMulti (hprocess hends) _
    · refine (h.untouched (t := step w s (.request d argv)) ((request_moves w d argv s).other c hd)).congr ?_
      simp [Rejects, answerTo, hd]

theorem open_run {c : ClientId} {s : Server δ ν} {es : List (Event δ ν)} (h : InMulti c s)
    (hopen : RunMeets (step w) (StaysOpen w c) s es) :
    Flags c (RunHas w (fun s e => Rejects w c s e ∧ ¬ RefusedSilently w c s e) s es) s
      (run (step w) s es) := by
  induction es generalizing s with
  | nil => exact (h.untouched (Untouched.refl _)).congr (by simp [RunHas])
  | cons e es ih =>
    have hstep := open_step w h hopen.1
    have hrest := ih hstep.inMulti hopen.2
    refine ⟨hrest.inMulti, hrest.dirty.trans ?_⟩
    rw [hstep.dirty, or_assoc, runHas_cons]

theorem rejects_of_refusedSilently {c : ClientId} {s : Server δ ν} {e : Event δ ν}
    (h : RefusedSilently w c s e) : Rejects w c s e := by
  cases e with
  | createClient => exact h.elim
  | freeClient => exact h.elim
  | background => exact h.elim
  | request d argv =>
    obtain ⟨rfl, hpanic, hclose, hquit, cmd, hname, hreach, hsilent⟩ := h
    have hcheck := checkCommand_checked w d cmd argv s
    have hprocess : ∃ error, (processCommand w d argv s).2 = .rejected error := by
      unfold processCommand
      rw [if_neg (by rw [hquit]; exact nofun), hname]
      dsimp only
      generalize checkCommand w d cmd argv s = r at hcheck
      have hsome : ∃ e, ReachesState w d cmd argv s ∧
          StateSilent cmd s.live.conditions (s.client d).session e := by
        rcases hsilent with hro | hload
        · exact ⟨_, hreach, hro⟩
        · exact ⟨_, hreach, hload⟩
      obtain ⟨e, he⟩ := hsome
      cases hcheck with
      | pass _ hnot => exact absurd he (hnot e)
      | assertion _ hnot => exact absurd he (hnot e)
      | flagged _ hnot => exact absurd he (hnot e)
      | silent _ _ => exact ⟨_, rfl⟩
    obtain ⟨error, herror⟩ := hprocess
    have halive : ¬ (s.panicked || (s.client d).session.close_after_reply) = true := by
      simp [hpanic, hclose]
    refine ⟨error, ?_⟩
    rw [answerTo_request, if_pos rfl, request, if_neg halive]
    simp [herror]

theorem runHas_rejects (c : ClientId) (s : Server δ ν) (es : List (Event δ ν)) :
    RunHas w (Rejects w c) s es ↔
      RunHas w (RefusedSilently w c) s es ∨
        RunHas w (fun s e => Rejects w c s e ∧ ¬ RefusedSilently w c s e) s es := by
  induction es generalizing s with
  | nil => simp [RunHas]
  | cons e es ih =>
    have hrejects := rejects_of_refusedSilently w (c := c) (s := s) (e := e)
    rw [runHas_cons, runHas_cons, runHas_cons, ih]
    tauto

def Idle (x : Client) : Prop := x.multi = false → x.mstate = [] ∧ x.dirty_exec = false

theorem idle_clientStep (x y : Client) (h : ClientStep x y) (hx : Idle x) : Idle y := by
  cases h with
  | call h =>
    cases h with
    | session => exact hx
    | cas => exact hx
    | discard => exact fun _ => ⟨rfl, rfl⟩
    | multi => exact nofun
  | flag h => exact fun hmulti => absurd (h.symm.trans hmulti) nofun
  | queue m h => exact fun hmulti => absurd (h.symm.trans hmulti) nofun
  | create => exact fun _ => ⟨rfl, rfl⟩
  | free => exact fun _ => ⟨rfl, rfl⟩

theorem idle_run (data : δ) (g : Conditions ν) (es : List (Event δ ν)) (c : ClientId) :
    Idle ((run (step w) (initServer data g) es).client c) :=
  run_inv_always (P := fun s => ∀ c, Idle (s.client c))
    (fun s e h => client_inv idle_clientStep w s e h) (fun _ _ => ⟨rfl, rfl⟩) es c

theorem multi_accepted {c : ClientId} {argv : List Bytes} {s : Server δ ν}
    (hidle : Idle (s.client c)) (h : (request w c argv s).2 = .called .multi) :
    InMulti c (request w c argv s).1 ∧ ((request w c argv s).1.client c).dirty_exec = false := by
  obtain ⟨_, _, cmd, _, hpass, hreply, _, asked, hst⟩ := request_called w h
  have haside := (checkCommand_checked w c cmd argv s).aside_of_none hpass
  obtain ⟨_, _, _, _, hsub⟩ := checkCommand_pass w c cmd argv hpass
  rw [hst]
  generalize (checkCommand w c cmd argv s).1 = t at haside hreply
  have hclient : t.client c = s.client c := by rw [Server.client, haside.client]
  obtain ⟨hproc, hfree⟩ : cmd.proc = .multiCommand ∧ (t.client c).multi = false := by
    unfold call at hreply
    dsimp only at hreply
    split at hreply
    · cases hreply
    · rename_i hproc
      split at hreply
      · cases hreply
      · rename_i hmulti
        rw [Bool.not_eq_true] at hmulti
        exact ⟨hproc, hmulti⟩
    · split at hreply
      · cases hreply
      · cases hreply
    · split at hreply
      · cases hreply
      · cases hreply
    · cases hreply
    · cases hreply
  have hcall : (call w c cmd argv t).1.client c = { s.client c with multi := true } := by
    have hlive : (call w c cmd argv t).1.live = multiCommand c t.live := by
      simp only [call, hproc, callWith_live, quiet_live, note_live]
    rw [Server.client, hlive, multiCommand, if_neg (by simp [hfree])]
    calc (t.live.setClient c { t.live.client c with multi := true }).client c
        = { t.live.client c with multi := true } := Function.update_self ..
      _ = { s.client c with multi := true } := by rw [haside.client]
  have hdirty : (s.client c).dirty_exec = false := (hidle (hclient ▸ hfree)).2
  have hnone : (s.client c).session.channels = 0 ∧ (s.client c).session.patterns = 0 := by
    simpa [Conditions.subscribed, hproc] using hsub
  have hflags : Flags c False (call w c cmd argv t).1 (call w c cmd argv t).1 := by
    refine ⟨⟨?_, ?_, ?_⟩, by simp⟩
    · rw [hcall]
    · rw [hcall]
      exact hnone.1
    · rw [hcall]
      exact hnone.2
  have hreset := resetClient_inMulti hflags asked
  refine ⟨hreset.inMulti, ?_⟩
  rw [← Bool.not_eq_true, hreset.dirty, hcall]
  simp [hdirty]

theorem execCommand_reply (c : ClientId) (s : Server δ ν) (hmulti : (s.client c).multi = true) :
    (execCommand w c s).2 = .execabort ↔ (s.client c).dirty_exec = true := by
  unfold execCommand
  dsimp only
  rw [hmulti, if_neg (by simp)]
  cases hexec : (s.client c).dirty_exec with
  | true => simp
  | false => cases hcas : (s.client c).dirty_cas <;> simp

theorem execCommand_abort_calls {c : ClientId} {s : Server δ ν}
    (hmulti : (s.client c).multi = true) (hexec : (s.client c).dirty_exec = true) :
    (execCommand w c s).1.calls = s.calls := by
  unfold execCommand
  dsimp only
  rw [hmulti, hexec, Bool.or_true, if_neg (by simp), if_pos rfl]
  rfl

theorem exec_aborts_iff {c : ClientId} {argv : List Bytes} {s : Server δ ν} {r : ExecReply}
    (hmulti : InMulti c s) (h : (request w c argv s).2 = .called (.exec r)) :
    ExecAborts w c argv s ↔ (s.client c).dirty_exec = true := by
  obtain ⟨_, _, cmd, _, hpass, hreply, _, asked, hst⟩ := request_called w h
  have haside := (checkCommand_checked w c cmd argv s).aside_of_none hpass
  unfold ExecAborts
  rw [h, hst]
  generalize (checkCommand w c cmd argv s).1 = t at haside hreply ⊢
  have hclient : t.live.client c = s.live.client c := by rw [haside.client]
  have htmulti : (t.client c).multi = true := by
    rw [Server.client, hclient]
    exact hmulti.multi
  obtain ⟨hproc, hr⟩ := call_reply_exec hreply
  have hiff : r = .execabort ↔ (s.client c).dirty_exec = true := by
    rw [← hr, execCommand_reply w c t htmulti, Server.client, hclient]
  simp only [Answer.called.injEq, CallReply.exec.injEq]
  rw [hiff]
  refine ⟨And.left, fun hexec => ⟨hexec, ?_⟩⟩
  have htexec : (t.client c).dirty_exec = true := by
    rw [Server.client, hclient]
    exact hexec
  have hreset : (resetClient c asked (call w c cmd argv t).1).calls =
      (call w c cmd argv t).1.calls := by
    unfold resetClient
    dsimp only
    split
    · rfl
    · rfl
  have hcalls : (call w c cmd argv t).1.calls = t.calls ++ [callPoint (.exec t.execs) c cmd argv t] := by
    simp only [call, hproc, callWith_calls]
    exact execCommand_abort_calls w (s := t.note _) htmulti htexec
  rw [hreset, hcalls, haside.calls, List.length_append, List.length_singleton]

/-- A transaction is all or nothing with respect to queueing errors if and only if, with a command
that the read-only check or the loading check refuses, it also has one that another check refuses. -/
theorem exec_all_or_nothing (data : δ) (g : Conditions ν) (before es : List (Event δ ν))
    (c : ClientId) (multi exec : List Bytes) {r : ExecReply} (s t u : Server δ ν)
    (hs : s = run (step w) (initServer data g) before)
    (ht : t = (request w c multi s).1) (hmulti : (request w c multi s).2 = .called .multi)
    (hopen : RunMeets (step w) (StaysOpen w c) t es) (hu : u = run (step w) t es)
    (hexec : (request w c exec u).2 = .called (.exec r)) :
    (RunHas w (Rejects w c) t es → ExecAborts w c exec u) ↔
      (RunHas w (RefusedSilently w c) t es →
        RunHas w (fun s e => Rejects w c s e ∧ ¬ RefusedSilently w c s e) t es) := by
  have hidle : Idle (s.client c) := by
    rw [hs]
    exact idle_run w data g before c
  obtain ⟨hin, hclean⟩ := multi_accepted w hidle hmulti
  rw [← ht] at hin hclean
  have hrun := open_run w hin hopen
  rw [← hu] at hrun
  rw [exec_aborts_iff w hrun.inMulti hexec, hrun.dirty, hclean, runHas_rejects]
  simp only [Bool.false_eq_true, false_or]
  tauto

def readonlySlave : Server Unit Nat := smallServer { plainConditions with masterhost := true }

def readonlyMulti : Server Unit Nat := (request smallWorld 1 [multistring] readonlySlave).1

def readThenWrite : List (Event Unit Nat) := [sends ["GET", "k"], sends ["SET", "k", "v"]]

/-- SET is refused, and EXEC runs the GET. -/
theorem exec_after_readonly_refusal :
    (request smallWorld 1 [multistring] readonlySlave).2 = .called .multi ∧
      RunMeets (step smallWorld) (StaysOpen smallWorld 1) readonlyMulti readThenWrite ∧
      RunHas smallWorld (Rejects smallWorld 1) readonlyMulti readThenWrite ∧
      (request smallWorld 1 [asciiBytes "EXEC"] (run (step smallWorld) readonlyMulti readThenWrite)).2 =
        .called (.exec (.replies 1)) ∧
      ¬ ExecAborts smallWorld 1 [asciiBytes "EXEC"]
        (run (step smallWorld) readonlyMulti readThenWrite) := by
  have hexec : (request smallWorld 1 [asciiBytes "EXEC"]
      (run (step smallWorld) readonlyMulti readThenWrite)).2 = .called (.exec (.replies 1)) := by
    decide
  refine ⟨by decide, by decide, ?_, hexec, ?_⟩
  · intro h
    exact h.2.1 ⟨.roslave, by decide⟩
  · rintro ⟨habort, _⟩
    rw [hexec] at habort
    cases habort

/-- With a command that does not exist in the same transaction EXEC aborts. -/
theorem exec_all_or_nothing_unknown :
    RunHas smallWorld (Rejects smallWorld 1) readonlyMulti (sends ["NOP"] :: readThenWrite) ∧
      ExecAborts smallWorld 1 [asciiBytes "EXEC"]
        (run (step smallWorld) readonlyMulti (sends ["NOP"] :: readThenWrite)) := by
  have hnop : Rejects smallWorld 1 readonlyMulti (sends ["NOP"]) :=
    ⟨.unknownCommand (asciiBytes "NOP"), by decide⟩
  have hloud : ¬ RefusedSilently smallWorld 1 readonlyMulti (sends ["NOP"]) := by
    rintro ⟨_, _, _, _, cmd, hcmd, _⟩
    cases hcmd
  have hall := exec_all_or_nothing smallWorld () { plainConditions with masterhost := true }
    [.createClient 1 false] (sends ["NOP"] :: readThenWrite) 1 [multistring] [asciiBytes "EXEC"]
    (r := .execabort) readonlySlave readonlyMulti _ rfl rfl (by decide) (by decide) rfl (by decide)
  exact ⟨fun h => h.1 hnop, hall.mpr (fun _ h => h.1 ⟨hnop, hloud⟩) fun h => h.1 hnop⟩

end RedisCluster.Multi
