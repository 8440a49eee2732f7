import RedisCluster.Multi.MultiRun

/-!
# What the checks of `processCommand` change

Looking for keys and freeing memory are work of the server itself: they change the keyspace and feed
commands, and nothing else (`Aside`). A check lets the command pass after such work, or answers it and
at most flags the transaction.
-/

namespace RedisCluster.Multi

open RedisCluster.Bus

variable {δ ν : Type}

namespace Aside

theorem refl (s : Server δ ν) : Aside s s where
  live := ⟨s.live.data, rfl⟩
  aof := ⟨[], by simp⟩
  repl := ⟨[], by simp⟩
  panicked := rfl
  calls := rfl
  execs := rfl

theorem trans {s t u : Server δ ν} (h : Aside s t) (k : Aside t u) : Aside s u where
  live := by
    obtain ⟨d, hd⟩ := h.live
    obtain ⟨e, he⟩ := k.live
    exact ⟨e, by rw [he, hd]⟩
  aof := by
    obtain ⟨l, hl, hol⟩ := h.aof
    obtain ⟨m, hm, hom⟩ := k.aof
    refine ⟨l ++ m, by rw [hm, hl, List.append_assoc], ?_⟩
    intro e he
    rcases List.mem_append.mp he with he | he
    · exact hol e he
    · exact hom e he
  repl := by
    obtain ⟨l, hl, hol⟩ := h.repl
    obtain ⟨m, hm, hom⟩ := k.repl
    refine ⟨l ++ m, by rw [hm, hl, List.append_assoc], ?_⟩
    intro e he
    rcases List.mem_append.mp he with he | he
    · exact hol e he
    · exact hom e he
  panicked := k.panicked.trans h.panicked
  calls := k.calls.trans h.calls
  execs := k.execs.trans h.execs

variable {s t : Server δ ν}

theorem client (h : Aside s t) : t.live.client = s.live.client := by
  obtain ⟨d, hd⟩ := h.live
  rw [hd]

theorem conditions (h : Aside s t) : t.live.conditions = s.live.conditions := by
  obtain ⟨d, hd⟩ := h.live
  rw [hd]

end Aside

theorem aside_feed (s : Server δ ν) (d : δ) (fed : Fed) :
    Aside s ((s.mapLive fun t => { t with data := d }).feed .server fed) where
  live := ⟨d, rfl⟩
  aof := by
    refine ⟨fed.aof.map fun e => ⟨.server, e.1, e.2⟩, rfl, ?_⟩
    intro e he
    obtain ⟨x, _, rfl⟩ := List.mem_map.mp he
    rfl
  repl := by
    refine ⟨fed.repl.map fun e => ⟨.server, e.1, e.2⟩, rfl, ?_⟩
    intro e he
    obtain ⟨x, _, rfl⟩ := List.mem_map.mp he
    rfl
  panicked := rfl
  calls := rfl
  execs := rfl

section Query

variable (w : World δ ν)

theorem aside_lookupKeyRead (key : Bytes) (s : Server δ ν) : Aside s (lookupKeyRead w key s).1 :=
  aside_feed s _ _

theorem aside_scanKey (r : Option KeyScan) (key : Bytes) (s : Server δ ν) :
    Aside s (scanKey w r key s).1 := by
  unfold scanKey
  split
  · exact Aside.refl s
  · split
    · exact aside_lookupKeyRead w key s
    · exact Aside.refl s

theorem aside_scanKeys (keys : List Bytes) (r : Option KeyScan) (s : Server δ ν) :
    Aside s (scanKeys w keys r s).1 := by
  induction keys generalizing r s with
  | nil => exact Aside.refl s
  | cons key keys ih =>
    have hkey := aside_scanKey w r key s
    unfold scanKeys
    split
    · rename_i heq
      rw [heq] at hkey
      exact hkey
    · rename_i heq
      rw [heq] at hkey
      exact hkey.trans (ih _ _)

theorem aside_scanCommands (cmds : List (RedisCommand × List Bytes)) (r : Option KeyScan)
    (s : Server δ ν) : Aside s (scanCommands w cmds r s).1 := by
  induction cmds generalizing r s with
  | nil => exact Aside.refl s
  | cons cmd cmds ih =>
    obtain ⟨cmd, argv⟩ := cmd
    unfold scanCommands
    split
    · exact Aside.refl s
    · rename_i keys _
      have hkeys := aside_scanKeys w keys r s
      split
      · rename_i heq
        rw [heq] at hkeys
        exact hkeys
      · rename_i heq
        rw [heq] at hkeys
        exact hkeys.trans (ih _ _)

theorem aside_getNodeByQuery (c : ClientId) (cmd : RedisCommand) (argv : List Bytes)
    (s : Server δ ν) : Aside s (getNodeByQuery w c cmd argv s).1 := by
  unfold getNodeByQuery
  split
  · exact Aside.refl s
  · have hcmds := aside_scanCommands w (queryCommands (s.client c) cmd argv) none s
    split
    · rename_i heq
      rw [heq] at hcmds
      exact hcmds
    · rename_i heq
      rw [heq] at hcmds
      exact hcmds

end Query

theorem flagTransaction_client (c : ClientId) (s : Server δ ν) :
    (flagTransaction c s).live.client c =
      { s.live.client c with
        dirty_exec := (s.live.client c).dirty_exec || (s.live.client c).multi } := by
  unfold flagTransaction
  split
  · rename_i h
    show Function.update _ c _ c = _
    simp only [Function.update_self, h, Bool.or_true]
  · rename_i h
    rw [Bool.not_eq_true] at h
    rw [h, Bool.or_false]

/-- What a check does: it lets the command pass, ends the process, or answers with an error. `silent`
says which errors it answers without flagging the transaction. -/
inductive Checked (c : ClientId) (silent : Rejection → Prop) (s : Server δ ν) :
    Server δ ν × Option Answer → Prop
  | pass {t} : Aside s t → (∀ e, ¬ silent e) → Checked c silent s (t, none)
  | assertion {t} : Aside s t → (∀ e, ¬ silent e) →
      Checked c silent s ({ t with panicked := true }, some .assertion)
  | flagged {t error} : Aside s t → (∀ e, ¬ silent e) →
      Checked c silent s (flagTransaction c t, some (.rejected error))
  | silent {t error} : Aside s t → silent error → Checked c silent s (t, some (.rejected error))

def Never : Rejection → Prop := fun _ => False

theorem Checked.orElse {c : ClientId} {P : Rejection → Prop} {s : Server δ ν}
    {r : Server δ ν × Option Answer} {next : Server δ ν → Server δ ν × Option Answer}
    (h : Checked c Never s r) (hnext : r.2 = none → Aside s r.1 → Checked c P r.1 (next r.1)) :
    Checked c (fun e => r.2 = none ∧ P e) s (orElse r next) := by
  cases h with
  | pass haside =>
    have hthen := hnext rfl haside
    dsimp only [Multi.orElse]
    generalize next _ = r' at hthen
    cases hthen with
    | pass h hnot => exact .pass (haside.trans h) fun e he => hnot e he.2
    | assertion h hnot => exact .assertion (haside.trans h) fun e he => hnot e he.2
    | flagged h hnot => exact .flagged (haside.trans h) fun e he => hnot e he.2
    | silent h he => exact .silent (haside.trans h) ⟨rfl, he⟩
  | assertion haside => exact .assertion haside (by rintro e ⟨⟨⟩, _⟩)
  | flagged haside => exact .flagged haside (by rintro e ⟨⟨⟩, _⟩)
  | silent _ he => exact he.elim

theorem Checked.aside_of_none {c : ClientId} {P : Rejection → Prop} {s : Server δ ν}
    {r : Server δ ν × Option Answer} (h : Checked c P s r) (hr : r.2 = none) : Aside s r.1 := by
  cases h with
  | pass h _ => exact h
  | assertion _ _ => cases hr
  | flagged _ _ => cases hr
  | silent _ _ => cases hr

theorem Checked.congr {c : ClientId} {P Q : Rejection → Prop} {s : Server δ ν}
    {r : Server δ ν × Option Answer} (h : Checked c P s r) (hPQ : ∀ e, P e ↔ Q e) :
    Checked c Q s r := by
  have heq : P = Q := funext fun e => propext (hPQ e)
  exact heq ▸ h

section Checks

variable (w : World δ ν) (c : ClientId) (cmd : RedisCommand) (argv : List Bytes)

theorem checkCluster_checked (s : Server δ ν) :
    Checked c Never s (checkCluster w c cmd argv s) := by
  have haside := aside_getNodeByQuery w c cmd argv s
  unfold checkCluster
  split
  · exact .pass (Aside.refl s) nofun
  · split
    · exact .flagged (Aside.refl s) nofun
    · dsimp only
      split
      · exact .flagged haside nofun
      · exact .flagged haside nofun
      · exact .assertion haside nofun
      · split
        · exact .pass haside nofun
        · split
          · exact .flagged haside nofun
          · exact .flagged haside nofun

theorem checkMemory_checked (s : Server δ ν) : Checked c Never s (checkMemory w c cmd s) := by
  unfold checkMemory
  split
  · exact .pass (Aside.refl s) nofun
  · dsimp only
    split
    · exact .flagged (aside_feed s _ _) nofun
    · exact .pass (aside_feed s _ _) nofun

theorem checkState_checked (s : Server δ ν) :
    Checked c (StateSilent cmd s.live.conditions (s.client c).session) s
      (checkState c cmd argv s) := by
  unfold checkState
  dsimp only
  split
  · rename_i hdisk
    refine .flagged (Aside.refl s) ?_
    rintro e ⟨h, _⟩
    rw [hdisk] at h
    cases h
  rename_i hdisk
  rw [Bool.not_eq_true] at hdisk
  split
  · rename_i hslaves
    refine .flagged (Aside.refl s) ?_
    rintro e ⟨_, h, _⟩
    rw [hslaves] at h
    cases h
  rename_i hslaves
  rw [Bool.not_eq_true] at hslaves
  split
  · rename_i hro
    exact .silent (Aside.refl s) ⟨hdisk, hslaves, .inl ⟨rfl, hro⟩⟩
  rename_i hro
  rw [Bool.not_eq_true] at hro
  split
  · rename_i hsub
    exact .silent (Aside.refl s) ⟨hdisk, hslaves, .inr (.inl ⟨rfl, hro, hsub⟩)⟩
  rename_i hsub
  rw [Bool.not_eq_true] at hsub
  split
  · rename_i hstale
    refine .flagged (Aside.refl s) ?_
    rintro e ⟨_, _, ⟨_, h⟩ | ⟨_, _, h⟩ | ⟨_, _, _, h, _⟩⟩
    · rw [hro] at h
      cases h
    · rw [hsub] at h
      cases h
    · rw [hstale] at h
      cases h
  rename_i hstale
  rw [Bool.not_eq_true] at hstale
  split
  · rename_i hload
    exact .silent (Aside.refl s) ⟨hdisk, hslaves, .inr (.inr ⟨rfl, hro, hsub, hstale, hload⟩)⟩
  rename_i hload
  rw [Bool.not_eq_true] at hload
  have hnone : ∀ e, ¬ StateSilent cmd s.live.conditions (s.client c).session e := by
    rintro e ⟨_, _, ⟨_, h⟩ | ⟨_, _, h⟩ | ⟨_, _, _, _, h⟩⟩
    · rw [hro] at h
      cases h
    · rw [hsub] at h
      cases h
    · rw [hload] at h
      cases h
  split
  · exact .flagged (Aside.refl s) hnone
  · exact .pass (Aside.refl s) hnone

theorem checkCommand_checked (s : Server δ ν) :
    Checked c
      (fun e => ReachesState w c cmd argv s ∧
        StateSilent cmd s.live.conditions (s.client c).session e) s
      (checkCommand w c cmd argv s) := by
  unfold checkCommand
  split
  · rename_i harity
    refine .flagged (Aside.refl s) ?_
    rintro e ⟨⟨h, _⟩, _⟩
    rw [harity] at h
    cases h
  rename_i harity
  rw [Bool.not_eq_true] at harity
  split
  · rename_i hauth
    refine .flagged (Aside.refl s) ?_
    rintro e ⟨⟨_, h, _⟩, _⟩
    rw [hauth] at h
    cases h
  rename_i hauth
  rw [Bool.not_eq_true] at hauth
  have hmemory : Checked c _ (checkCluster w c cmd argv s).1 _ :=
    (checkMemory_checked w c cmd (checkCluster w c cmd argv s).1).orElse fun _ _ =>
      checkState_checked c cmd argv _
  refine ((checkCluster_checked w c cmd argv s).orElse fun _ _ => hmemory).congr ?_
  intro e
  have haside : (checkCluster w c cmd argv s).2 = none →
      (checkMemory w c cmd (checkCluster w c cmd argv s).1).2 = none →
      Aside s (checkMemory w c cmd (checkCluster w c cmd argv s).1).1 :=
    fun hcl hmem => ((checkCluster_checked w c cmd argv s).aside_of_none hcl).trans
      ((checkMemory_checked w c cmd _).aside_of_none hmem)
  constructor
  · rintro ⟨hcl, hmem, hsilent⟩
    rw [(haside hcl hmem).conditions, Server.client, (haside hcl hmem).client] at hsilent
    exact ⟨⟨harity, hauth, hcl, hmem⟩, hsilent⟩
  · rintro ⟨⟨_, _, hcl, hmem⟩, hsilent⟩
    refine ⟨hcl, hmem, ?_⟩
    rw [(haside hcl hmem).conditions, Server.client, (haside hcl hmem).client]
    exact hsilent

theorem checkState_pass {s : Server δ ν} (h : (checkState c cmd argv s).2 = none) :
    (checkState c cmd argv s).1 = s ∧
      s.live.conditions.roslave (s.client c).session cmd = false ∧
      Conditions.subscribed (s.client c).session cmd = false := by
  unfold checkState at h ⊢
  dsimp only at h ⊢
  split at h
  · cases h
  rename_i hdisk
  split at h
  · cases h
  rename_i hslaves
  split at h
  · cases h
  rename_i hro
  split at h
  · cases h
  rename_i hsub
  split at h
  · cases h
  rename_i hstale
  split at h
  · cases h
  rename_i hload
  split at h
  · cases h
  rename_i hslow
  rw [Bool.not_eq_true] at hro hsub
  refine ⟨?_, hro, hsub⟩
  rw [if_neg hdisk, if_neg hslaves, hro, hsub, if_neg hstale, if_neg hload, if_neg hslow]
  rfl

theorem orElse_pass {r : Server δ ν × Option Answer} {next : Server δ ν → Server δ ν × Option Answer}
    (h : (orElse r next).2 = none) :
    r.2 = none ∧ orElse r next = next r.1 ∧ (next r.1).2 = none := by
  obtain ⟨t, a⟩ := r
  cases a with
  | none => exact ⟨rfl, rfl, h⟩
  | some a => nomatch h

theorem checkCommand_pass {s : Server δ ν} (h : (checkCommand w c cmd argv s).2 = none) :
    (checkCluster w c cmd argv s).2 = none ∧
      (checkMemory w c cmd (checkCluster w c cmd argv s).1).2 = none ∧
      (checkCommand w c cmd argv s).1 = (checkMemory w c cmd (checkCluster w c cmd argv s).1).1 ∧
      s.live.conditions.roslave (s.client c).session cmd = false ∧
      Conditions.subscribed (s.client c).session cmd = false := by
  unfold checkCommand at h ⊢
  split at h
  · cases h
  rename_i harity
  split at h
  · cases h
  rename_i hauth
  rw [if_neg harity, if_neg hauth]
  obtain ⟨hcl, hclnext, h⟩ := orElse_pass h
  obtain ⟨hmem, hmemnext, h⟩ := orElse_pass h
  obtain ⟨hstate, hro, hsub⟩ := checkState_pass c cmd argv h
  have haside := ((checkCluster_checked w c cmd argv s).aside_of_none hcl).trans
    ((checkMemory_checked w c cmd _).aside_of_none hmem)
  rw [haside.conditions, Server.client, haside.client] at hro
  rw [Server.client, haside.client] at hsub
  rw [hclnext, hmemnext, hstate]
  exact ⟨hcl, hmem, rfl, hro, hsub⟩

end Checks

theorem request_called (w : World δ ν) {c : ClientId} {argv : List Bytes} {s : Server δ ν}
    {r : CallReply} (h : (request w c argv s).2 = .called r) :
    s.panicked = false ∧ (s.client c).session.close_after_reply = false ∧
      ∃ cmd, w.commands (argv.headD []) = some cmd ∧ (checkCommand w c cmd argv s).2 = none ∧
        (call w c cmd argv (checkCommand w c cmd argv s).1).2 = r ∧
        ¬ (((checkCommand w c cmd argv s).1.client c).multi = true ∧ cmd.Queueable) ∧
        ∃ asked, (request w c argv s).1 =
          resetClient c asked (call w c cmd argv (checkCommand w c cmd argv s).1).1 := by
  unfold request at h ⊢
  split at h
  · cases h
  rename_i halive
  rw [if_neg halive]
  rw [Bool.not_eq_true, Bool.or_eq_false_iff] at halive
  refine ⟨halive.1, halive.2, ?_⟩
  dsimp only at h ⊢
  have hanswer : (processCommand w c argv s).2 = .called r := by
    split at h
    · exact h
    · exact h
  rw [if_neg (by simp [hanswer])]
  unfold processCommand at hanswer ⊢
  dsimp only at hanswer ⊢
  split at hanswer
  · cases hanswer
  rename_i hquit
  rw [if_neg hquit]
  cases hname : w.commands (argv.headD []) with
  | none =>
    rw [hname] at hanswer
    cases hanswer
  | some cmd =>
    rw [hname] at hanswer
    refine ⟨cmd, rfl, ?_⟩
    dsimp only at hanswer ⊢
    have hcheck := checkCommand_checked w c cmd argv s
    generalize checkCommand w c cmd argv s = q at hcheck hanswer ⊢
    cases hcheck with
    | assertion _ _ => cases hanswer
    | flagged _ _ => cases hanswer
    | silent _ _ => cases hanswer
    | pass _ _ =>
      dsimp only at hanswer ⊢
      split at hanswer
      · cases hanswer
      rename_i hqueue
      rw [dif_neg hqueue]
      exact ⟨rfl, by simpa using hanswer, hqueue, _, rfl⟩

end RedisCluster.Multi
