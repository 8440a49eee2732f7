import RedisCluster.Multi.Proofs.CallProofs

/-!
# The gates of a command

`getNodeByQuery` lets a command pass only if this node serves its keys (`route_serves`), so a command
that passes the checks of `processCommand` meets `Gate` where it is received. A queued command is not
checked again when EXEC runs it (`calls_passed_gates`).
-/

namespace RedisCluster.Multi

open RedisCluster.Bus RedisCluster.Lib

variable {δ ν : Type} {w : World δ ν}

/-! ## The loop over the keys -/

theorem scanKeys_error (keys : List Bytes) (r : Option KeyScan) (s : Server δ ν) {t : Server δ ν}
    {n : Addr} {slot : Nat} {ask : Bool} :
    scanKeys w keys r s ≠ (t, .error (.node n slot ask)) := by
  induction keys generalizing r s with
  | nil => exact nofun
  | cons key keys ih =>
    intro h
    unfold scanKeys at h
    split at h
    · rename_i u e heq
      obtain ⟨_, h⟩ := Prod.mk.inj h
      obtain rfl := Except.error.inj h
      unfold scanKey at heq
      split at heq
      · rename_i e he
        obtain ⟨_, heq⟩ := Prod.mk.inj heq
        obtain rfl := Except.error.inj heq
        cases r with
        | none =>
          simp only [Option.elim_none, firstKey] at he
          split at he
          · cases he
          · cases he
        | some r =>
          simp only [Option.elim_some, nextKey] at he
          split at he
          · cases he
          · split at he
            · cases he
            · cases he
      · split at heq
        · cases heq
        · cases heq
    · exact ih _ _ h

def Scanned (w : World δ ν) (s : Server δ ν) (seen : List Bytes) : Option KeyScan → Prop
  | none => seen = []
  | some r =>
    let cl := s.live.conditions.cluster
    seen ≠ [] ∧ (∀ k ∈ seen, keyHashSlot k = r.slot) ∧ cl.slots r.slot = some r.n ∧
      r.migrating_slot = (r.n == cl.myself && (cl.migrating_slots_to r.slot).isSome) ∧
      r.importing_slot = (!r.migrating_slot && (cl.importing_slots_from r.slot).isSome) ∧
      (r.multiple_keys = false → ∀ k ∈ seen, k = r.firstkey) ∧
      keyHashSlot r.firstkey = r.slot ∧
      ((r.migrating_slot || r.importing_slot) = true → r.missing_keys = 0 →
        ∀ k ∈ seen, WasFound w s k)

theorem scanned_key {s : Server δ ν} {seen : List Bytes} {r : Option KeyScan} {key : Bytes}
    {r' : KeyScan} (h : Scanned w s seen r)
    (hr : r.elim (firstKey s.live.conditions.cluster key) (fun r => nextKey r key) = .ok r') :
    let cl := s.live.conditions.cluster
    (∀ k ∈ seen ++ [key], keyHashSlot k = r'.slot) ∧ cl.slots r'.slot = some r'.n ∧
      r'.migrating_slot = (r'.n == cl.myself && (cl.migrating_slots_to r'.slot).isSome) ∧
      r'.importing_slot = (!r'.migrating_slot && (cl.importing_slots_from r'.slot).isSome) ∧
      (r'.multiple_keys = false → ∀ k ∈ seen ++ [key], k = r'.firstkey) ∧
      keyHashSlot r'.firstkey = r'.slot ∧
      ((r'.migrating_slot || r'.importing_slot) = true → r'.missing_keys = 0 →
        ∀ k ∈ seen, WasFound w s k) := by
  intro cl
  cases r with
  | none =>
    have hseen : seen = [] := h
    subst hseen
    simp only [Option.elim_none, firstKey] at hr
    cases hslot : cl.slots (keyHashSlot key) with
    | none =>
      rw [hslot] at hr
      cases hr
    | some n =>
      rw [hslot] at hr
      obtain rfl := Except.ok.inj hr
      refine ⟨?_, hslot, rfl, rfl, ?_, rfl, ?_⟩
      · simp
      · simp
      · simp
  | some r =>
    obtain ⟨_, hslots, hn, hmig, himp, hmult, hfirst, hfound⟩ := h
    simp only [Option.elim_some, nextKey] at hr
    split at hr
    · rename_i heq
      obtain rfl := Except.ok.inj hr
      refine ⟨?_, hn, hmig, himp, ?_, hfirst, hfound⟩
      · intro k hk
        rcases List.mem_append.mp hk with hk | hk
        · exact hslots k hk
        · obtain rfl := List.mem_singleton.mp hk
          rw [← heq, hfirst]
      · intro hone k hk
        rcases List.mem_append.mp hk with hk | hk
        · exact hmult hone k hk
        · obtain rfl := List.mem_singleton.mp hk
          exact heq.symm
    · split at hr
      · cases hr
      · rename_i hslot
        obtain rfl := Except.ok.inj hr
        refine ⟨?_, hn, hmig, himp, nofun, hfirst, hfound⟩
        intro k hk
        rcases List.mem_append.mp hk with hk | hk
        · exact hslots k hk
        · obtain rfl := List.mem_singleton.mp hk
          exact (not_not.mp hslot).symm

theorem scanned_scanKey {s t t' : Server δ ν} {seen : List Bytes} {r : Option KeyScan} {key : Bytes}
    {r' : KeyScan} (hst : Aside s t) (h : Scanned w s seen r)
    (hr : scanKey w r key t = (t', .ok r')) : Scanned w s (seen ++ [key]) (some r') := by
  unfold scanKey at hr
  rw [hst.conditions] at hr
  split at hr
  · cases hr
  · rename_i q hq
    obtain ⟨hslots, hn, hmig, himp, hmult, hfirst, hfound⟩ := scanned_key h hq
    split at hr
    · rename_i hmoving
      obtain ⟨_, hr⟩ := Prod.mk.inj hr
      replace hr := Except.ok.inj hr
      refine ⟨by simp, ?_⟩
      cases hf : (w.lookupKeyRead key t.live).found with
      | true =>
        obtain rfl : q = r' := (if_pos hf).symm.trans hr
        refine ⟨hslots, hn, hmig, himp, hmult, hfirst, fun _ hmiss k hk => ?_⟩
        rcases List.mem_append.mp hk with hk | hk
        · exact hfound hmoving hmiss k hk
        · obtain rfl := List.mem_singleton.mp hk
          exact ⟨t, hst, hf⟩
      | false =>
        obtain rfl : { q with missing_keys := q.missing_keys + 1 } = r' :=
          (if_neg (Bool.eq_false_iff.mp hf)).symm.trans hr
        exact ⟨hslots, hn, hmig, himp, hmult, hfirst, fun _ hmiss => by cases hmiss⟩
    · rename_i hstill
      obtain ⟨_, hr⟩ := Prod.mk.inj hr
      obtain rfl := Except.ok.inj hr
      exact ⟨by simp, hslots, hn, hmig, himp, hmult, hfirst, fun hmoving => absurd hmoving hstill⟩

theorem scanned_scanKeys {s t t' : Server δ ν} {keys seen : List Bytes} {r r' : Option KeyScan}
    (hst : Aside s t) (h : Scanned w s seen r) (hr : scanKeys w keys r t = (t', .ok r')) :
    Scanned w s (seen ++ keys) r' := by
  induction keys generalizing seen r t with
  | nil =>
    obtain ⟨_, hr⟩ := Prod.mk.inj hr
    obtain rfl := Except.ok.inj hr
    rw [List.append_nil]
    exact h
  | cons key keys ih =>
    unfold scanKeys at hr
    have haside := aside_scanKey w r key t
    split at hr
    · cases hr
    · rename_i u q heq
      rw [heq] at haside
      have hnext := ih (hst.trans haside) (scanned_scanKey hst h heq) hr
      rw [List.append_assoc, List.singleton_append] at hnext
      exact hnext

/-! ## The route -/

theorem route_serves {s : Server δ ν} {x : Session} {cmd : RedisCommand} {keys : List Bytes}
    {r : Option KeyScan} {n : Addr} {slot : Nat} {ask : Bool} (h : Scanned w s keys r)
    (hroute : routeQuery s.live.conditions.cluster x cmd r = .node n slot ask)
    (hn : n = s.live.conditions.cluster.myself) :
    keys = [] ∨ ∃ slot, (∀ k ∈ keys, keyHashSlot k = slot) ∧ Serves w x cmd keys slot s := by
  cases r with
  | none => exact .inl h
  | some r =>
    obtain ⟨_, hslots, hrn, hmig, himp, hmult, _, hfound⟩ := h
    refine .inr ⟨r.slot, hslots, ?_⟩
    unfold routeQuery at hroute
    dsimp only at hroute
    split at hroute
    · -- the slot moves to this node itself
      rename_i hmoving
      rw [Bool.and_eq_true] at hmoving
      rw [hmig, Bool.and_eq_true, beq_iff_eq] at hmoving
      obtain ⟨⟨hmine, hsome⟩, _⟩ := hmoving
      obtain ⟨m, hm⟩ := Option.isSome_iff_exists.mp hsome
      refine .inl ⟨by rw [hrn, hmine], fun n' hn' hne => ?_⟩
      rw [hm] at hn'
      rw [hm, Option.getD_some] at hroute
      obtain ⟨hto, _⟩ := Route.node.inj hroute
      exact absurd ((Option.some.inj hn').symm.trans (hto.trans hn)) hne
    · rename_i hmissing
      split at hroute
      · rename_i himporting
        rw [Bool.and_eq_true] at himporting
        obtain ⟨himport, hasking⟩ := himporting
        split at hroute
        · cases hroute
        · rename_i hstable
          refine .inr (.inl ⟨?_, hasking, ?_⟩)
          · rw [himp, Bool.and_eq_true] at himport
            exact himport.2
          · rintro ⟨k, hk, k', hk', hne⟩
            refine hfound (by rw [himport, Bool.or_true]) ?_
            have hmany : r.multiple_keys = true := by
              by_contra hone
              rw [Bool.not_eq_true] at hone
              exact hne ((hmult hone k hk).trans (hmult hone k' hk').symm)
            simpa [hmany] using hstable
      · split at hroute
        · rename_i hreadonly
          simp only [Bool.and_eq_true, beq_iff_eq] at hreadonly
          obtain ⟨⟨⟨hro, hcmd⟩, hslave⟩, hmaster⟩ := hreadonly
          exact .inr (.inr ⟨hro, hcmd, hslave, r.n, hmaster, hrn⟩)
        · obtain ⟨hto, _⟩ := Route.node.inj hroute
          refine .inl ⟨by rw [hrn, hto, hn], fun n' hn' _ => ?_⟩
          have hmoving : r.migrating_slot = true := by
            rw [hmig, hto, hn, hn']
            simp
          refine hfound (by rw [hmoving, Bool.true_or]) ?_
          simpa [hmoving] using hmissing

theorem checkCluster_gate {c : ClientId} {cmd : RedisCommand} {argv : List Bytes} {s : Server δ ν}
    (h : (checkCluster w c cmd argv s).2 = none) (hmaster : (s.client c).session.master = false)
    (hcluster : s.live.conditions.cluster_enabled = true) (hproc : cmd.proc ≠ .execCommand) :
    ∃ keys, commandKeys cmd argv = some keys ∧
      (keys = [] ∨ s.live.conditions.cluster.ok = true ∧
        ∃ slot, (∀ k ∈ keys, keyHashSlot k = slot) ∧
          Serves w (s.client c).session cmd keys slot s) := by
  unfold checkCluster at h
  split at h
  · rename_i hredirects
    have hkeyless : cmd.keyless = true := by
      simpa [Conditions.redirects, hmaster, hcluster] using hredirects
    exact ⟨[], commandKeys_keyless hkeyless argv, .inl rfl⟩
  · split at h
    · cases h
    · rename_i hok
      rw [Bool.not_eq_true, Bool.not_eq_false'] at hok
      have haside := aside_getNodeByQuery w c cmd argv s
      dsimp only at h
      split at h
      · cases h
      · cases h
      · cases h
      · rename_i n slot ask hroute
        split at h
        · rename_i hn
          rw [haside.conditions] at hn
          unfold getNodeByQuery at hroute
          rw [if_neg (by simp [hproc])] at hroute
          unfold queryCommands at hroute
          rw [if_neg hproc] at hroute
          unfold scanCommands at hroute
          cases hkeys : commandKeys cmd argv with
          | none =>
            rw [hkeys] at hroute
            cases hroute
          | some keys =>
            rw [hkeys] at hroute
            dsimp only at hroute
            refine ⟨keys, rfl, ?_⟩
            have hscan := aside_scanKeys w keys none s
            cases hres : scanKeys w keys none s with
            | mk t res =>
              rw [hres] at hroute hscan
              cases res with
              | error e =>
                obtain rfl : e = .node n slot ask := hroute
                exact absurd hres (scanKeys_error keys none s)
              | ok r =>
                have hscanned : Scanned w s ([] ++ keys) r :=
                  scanned_scanKeys (r := none) (Aside.refl s) rfl hres
                dsimp only [scanCommands] at hroute
                rw [hscan.conditions] at hroute
                rcases route_serves hscanned hroute hn with hnil | hserves
                · exact .inl hnil
                · exact .inr ⟨hok, hserves⟩
        · split at h
          · cases h
          · cases h

theorem checkCommand_gate {c : ClientId} {cmd : RedisCommand} {argv : List Bytes} {s : Server δ ν}
    (h : (checkCommand w c cmd argv s).2 = none) : Gate w c cmd argv s := by
  intro hmaster
  obtain ⟨hcl, _, _, hro, _⟩ := checkCommand_pass w c cmd argv h
  refine ⟨?_, fun hcluster hproc => checkCluster_gate hcl hmaster hcluster hproc⟩
  rintro hwrite ⟨hslave, hreadonly⟩
  simp [Conditions.roslave, hslave, hreadonly, hmaster, hwrite] at hro

/-! ## Calls -/

theorem execLoop_calls (n : Nat) (c : ClientId) (queue : List MultiCmd) (must : Bool)
    (s : Server δ ν) :
    ∃ l, (execLoop w n c queue must s).1.calls = s.calls ++ l ∧
      ∀ p ∈ l, p.origin = .queued n ∧ p.client = c ∧ ∃ m ∈ queue, p.cmd = m.cmd ∧ p.argv = m.argv := by
  induction queue generalizing must s with
  | nil => exact ⟨[], by simp [execLoop], by simp⟩
  | cons m queue ih =>
    unfold execLoop
    dsimp only
    generalize hs : (if (!must && !m.cmd.flags.readonly) = true then
      execCommandPropagateMulti n c s else s) = t
    have ht : t.calls = s.calls := by
      rw [← hs]
      split
      · rfl
      · rfl
    obtain ⟨l, hl, hpoints⟩ := ih (must || (!must && !m.cmd.flags.readonly)) (queuedCall w n c t m)
    have hone : (queuedCall w n c t m).calls =
        t.calls ++ [callPoint (.queued n) c m.cmd m.argv t] := by
      rw [queuedCall, callWith_calls]
      unfold queuedBody
      split
      · rfl
      · rfl
    refine ⟨callPoint (.queued n) c m.cmd m.argv t :: l, ?_, ?_⟩
    · rw [hl, hone, ht, List.append_assoc, List.singleton_append]
    · intro p hp
      rcases List.mem_cons.mp hp with rfl | hp
      · exact ⟨rfl, rfl, m, by simp, rfl, rfl⟩
      · obtain ⟨ho, hc, m', hm', heq⟩ := hpoints p hp
        exact ⟨ho, hc, m', List.mem_cons_of_mem m hm', heq⟩

theorem execCommand_calls (c : ClientId) (s : Server δ ν) :
    ∃ l, (execCommand w c s).1.calls = s.calls ++ l ∧
      ∀ p ∈ l, p.origin = .queued s.execs ∧ p.client = c ∧
        ∃ m ∈ (s.client c).mstate, p.cmd = m.cmd ∧ p.argv = m.argv := by
  unfold execCommand
  dsimp only
  split
  · exact ⟨[], by simp, by simp⟩
  · split
    · exact ⟨[], by simp [Server.mapLive], by simp⟩
    · obtain ⟨l, hl, hpoints⟩ := execLoop_calls (w := w) s.execs c (s.client c).mstate false
        (s.mapLive (unwatchAllKeys w c))
      refine ⟨l, ?_, hpoints⟩
      dsimp only
      split
      · exact hl
      · exact hl

theorem call_calls (c : ClientId) (cmd : RedisCommand) (argv : List Bytes) (s : Server δ ν) :
    ∃ o l, (call w c cmd argv s).1.calls = s.calls ++ callPoint o c cmd argv s :: l ∧
      (∀ n, o ≠ .queued n) ∧
      ∀ p ∈ l, (∃ n, p.origin = .queued n) ∧ p.client = c ∧
        ∃ m ∈ (s.client c).mstate, p.cmd = m.cmd ∧ p.argv = m.argv := by
  have hdirect : ∀ {body : Server δ ν → Server δ ν × Outcome}, (∀ t, (body t).1.calls = t.calls) →
      ∃ o l, (callWith (.command c) c cmd argv body s).calls =
          s.calls ++ callPoint o c cmd argv s :: l ∧ (∀ n, o ≠ .queued n) ∧
        ∀ p ∈ l, (∃ n, p.origin = .queued n) ∧ p.client = c ∧
          ∃ m ∈ (s.client c).mstate, p.cmd = m.cmd ∧ p.argv = m.argv := by
    intro body hbody
    exact ⟨.command c, [], by rw [callWith_calls, hbody, note_calls], nofun, by simp⟩
  unfold call
  dsimp only
  split
  · obtain ⟨l, hl, hpoints⟩ := execCommand_calls (w := w) c
      (s.note (callPoint (.exec s.execs) c cmd argv s))
    refine ⟨.exec s.execs, l, ?_, nofun, ?_⟩
    · rw [callWith_calls, hl, note_calls, List.append_assoc, List.singleton_append]
    · intro p hp
      obtain ⟨ho, hc, hm⟩ := hpoints p hp
      exact ⟨⟨_, ho⟩, hc, hm⟩
  · exact hdirect fun _ => rfl
  · exact hdirect fun _ => rfl
  · split
    · exact hdirect fun _ => rfl
    · exact hdirect fun _ => rfl
  · exact hdirect fun _ => rfl
  · exact hdirect fun _ => rfl

/-! ## Queues -/

theorem call_mstate {c : ClientId} {cmd : RedisCommand} {argv : List Bytes} {s : Server δ ν}
    {m : MultiCmd} (h : m ∈ ((call w c cmd argv s).1.client c).mstate) :
    m ∈ (s.client c).mstate := by
  have hmoves := (call_moves w c cmd argv s).own
  refine hmoves.head_induction_on
    (motive := fun x _ => m ∈ ((call w c cmd argv s).1.client c).mstate → m ∈ x.mstate) id ?_ h
  intro x y hstep _ ih hm
  have hy := ih hm
  cases hstep with
  | session => exact hy
  | cas => exact hy
  | discard => exact absurd hy List.not_mem_nil
  | multi => exact hy

theorem flagTransaction_mstate (c : ClientId) (s : Server δ ν) :
    ((flagTransaction c s).live.client c).mstate = (s.live.client c).mstate := by
  rw [flagTransaction_client]

theorem processCommand_mstate {c : ClientId} {argv : List Bytes} {s : Server δ ν} {m : MultiCmd}
    (h : m ∈ ((processCommand w c argv s).1.client c).mstate) :
    m ∈ (s.client c).mstate ∨ m.argv = argv ∧ Gate w c m.cmd argv s := by
  unfold processCommand at h
  dsimp only at h
  split at h
  · change m ∈ ((s.setClient c _).client c).mstate at h
    rw [setClient_client] at h
    exact .inl h
  cases hname : w.commands (argv.headD []) with
  | none =>
    rw [hname] at h
    rw [Server.client, flagTransaction_mstate] at h
    exact .inl h
  | some cmd =>
    rw [hname] at h
    dsimp only at h
    have hcheck := checkCommand_checked w c cmd argv s
    have hgate : (checkCommand w c cmd argv s).2 = none → Gate w c cmd argv s := checkCommand_gate
    generalize checkCommand w c cmd argv s = r at h hcheck hgate
    cases hcheck with
    | @assertion t haside =>
      change m ∈ (t.live.client c).mstate at h
      rw [haside.client] at h
      exact .inl h
    | flagged haside =>
      rw [Server.client, flagTransaction_mstate, haside.client] at h
      exact .inl h
    | silent haside =>
      rw [Server.client, haside.client] at h
      exact .inl h
    | @pass t haside =>
      dsimp only at h
      split at h
      · change m ∈ ((t.setClient c _).client c).mstate at h
        rw [setClient_client, Server.client, haside.client] at h
        rcases List.mem_append.mp h with h | h
        · exact .inl h
        · obtain rfl := List.mem_singleton.mp h
          exact .inr ⟨rfl, hgate rfl⟩
      · have hmem := call_mstate h
        rw [Server.client, haside.client] at hmem
        exact .inl hmem

theorem resetClient_mstate (c : ClientId) (asked : Bool) (s : Server δ ν) :
    ((resetClient c asked s).client c).mstate = (s.client c).mstate := by
  unfold resetClient
  dsimp only
  split
  · rw [setClient_client]
  · rfl

theorem resetClient_calls (c : ClientId) (asked : Bool) (s : Server δ ν) :
    (resetClient c asked s).calls = s.calls := by
  unfold resetClient
  dsimp only
  split
  · rfl
  · rfl

theorem request_mstate {c : ClientId} {argv : List Bytes} {s : Server δ ν} {m : MultiCmd}
    (h : m ∈ ((request w c argv s).1.client c).mstate) :
    m ∈ (s.client c).mstate ∨ m.argv = argv ∧ Gate w c m.cmd argv s := by
  unfold request at h
  split at h
  · exact .inl h
  · dsimp only at h
    split at h
    · exact processCommand_mstate h
    · rw [resetClient_mstate] at h
      exact processCommand_mstate h

/-- The calls that a request adds: none, or that of its command, and for EXEC those of the queue. -/
inductive NewCalls (w : World δ ν) (c : ClientId) (argv : List Bytes) (s : Server δ ν) :
    List (CallPoint δ ν) → Prop
  | none : NewCalls w c argv s []
  | call {p l} : Gate w c p.cmd argv s → p.client = c → p.argv = argv →
      p.conditions = s.live.conditions → p.session = (s.client c).session →
      (∀ q ∈ l, (∃ n, q.origin = .queued n) ∧ q.client = c ∧
        ∃ m ∈ (s.client c).mstate, q.cmd = m.cmd ∧ q.argv = m.argv) →
      NewCalls w c argv s (p :: l)

theorem flagTransaction_calls (c : ClientId) (s : Server δ ν) :
    (flagTransaction c s).calls = s.calls := by
  unfold flagTransaction
  split
  · rfl
  · rfl

theorem processCommand_calls (c : ClientId) (argv : List Bytes) (s : Server δ ν) :
    ∃ l, (processCommand w c argv s).1.calls = s.calls ++ l ∧ NewCalls w c argv s l := by
  have hnone : ∀ {t : Server δ ν}, t.calls = s.calls →
      ∃ l, t.calls = s.calls ++ l ∧ NewCalls w c argv s l :=
    fun ht => ⟨[], by rw [ht, List.append_nil], .none⟩
  unfold processCommand
  dsimp only
  split
  · exact hnone rfl
  cases hname : w.commands (argv.headD []) with
  | none => exact hnone (flagTransaction_calls c s)
  | some cmd =>
    dsimp only
    have hcheck := checkCommand_checked w c cmd argv s
    have hgate : (checkCommand w c cmd argv s).2 = none → Gate w c cmd argv s := checkCommand_gate
    generalize checkCommand w c cmd argv s = r at hcheck hgate
    cases hcheck with
    | assertion haside => exact hnone haside.calls
    | flagged haside => exact hnone ((flagTransaction_calls c _).trans haside.calls)
    | silent haside => exact hnone haside.calls
    | @pass t haside =>
      dsimp only
      split
      · exact hnone haside.calls
      · obtain ⟨o, l, hl, ho, hpoints⟩ := call_calls (w := w) c cmd argv t
        refine ⟨callPoint o c cmd argv t :: l, by rw [hl, haside.calls],
          .call (hgate rfl) rfl rfl haside.conditions ?_ ?_⟩
        · show (t.live.client c).session = _
          rw [haside.client]
        · intro q hq
          have hq' := hpoints q hq
          rw [Server.client, haside.client] at hq'
          exact hq'

theorem request_calls (c : ClientId) (argv : List Bytes) (s : Server δ ν) :
    ∃ l, (request w c argv s).1.calls = s.calls ++ l ∧ NewCalls w c argv s l := by
  unfold request
  split
  · exact ⟨[], by rw [List.append_nil], .none⟩
  · dsimp only
    split
    · exact processCommand_calls c argv s
    · rw [resetClient_calls]
      exact processCommand_calls c argv s

/-! ## Runs -/

/-- What holds along a run: all calls passed the gates, and so did the queued commands. -/
structure GatesInv (w : World δ ν) (s : Server δ ν) (es : List (Event δ ν)) : Prop where
  calls : ∀ p ∈ (run (step w) s es).calls, PassedGates w s es p
  queues : ∀ c, ∀ m ∈ ((run (step w) s es).client c).mstate, ∃ before after,
    es = before ++ .request c m.argv :: after ∧ Gate w c m.cmd m.argv (run (step w) s before)

theorem PassedGates.snoc {s : Server δ ν} {es : List (Event δ ν)} {p : CallPoint δ ν}
    (h : PassedGates w s es p) (e : Event δ ν) : PassedGates w s (es ++ [e]) p := by
  obtain ⟨before, after, rfl, hgate⟩ := h
  exact ⟨before, after ++ [e], by simp, hgate⟩

theorem GatesInv.snoc_quiet {s : Server δ ν} {es : List (Event δ ν)} {e : Event δ ν}
    (h : GatesInv w s es)
    (hcalls : (step w (run (step w) s es) e).calls = (run (step w) s es).calls)
    (hqueues : ∀ c m, m ∈ ((step w (run (step w) s es) e).client c).mstate →
      m ∈ ((run (step w) s es).client c).mstate) : GatesInv w s (es ++ [e]) := by
  constructor
  · intro p hp
    rw [run_append, run_cons, run_nil, hcalls] at hp
    exact (h.calls p hp).snoc e
  · intro c m hm
    rw [run_append, run_cons, run_nil] at hm
    obtain ⟨before, after, rfl, hgate⟩ := h.queues c m (hqueues c m hm)
    exact ⟨before, after ++ [e], by simp, hgate⟩

theorem GatesInv.snoc_request {s : Server δ ν} {es : List (Event δ ν)} (h : GatesInv w s es)
    (c : ClientId) (argv : List Bytes) : GatesInv w s (es ++ [.request c argv]) := by
  have hrun : run (step w) s (es ++ [.request c argv]) =
      (request w c argv (run (step w) s es)).1 := by
    rw [run_append]
    rfl
  constructor
  · intro p hp
    rw [hrun] at hp
    obtain ⟨l, hl, hnew⟩ := request_calls (w := w) c argv (run (step w) s es)
    rw [hl] at hp
    rcases List.mem_append.mp hp with hp | hp
    · exact (h.calls p hp).snoc _
    · cases hnew with
      | none => exact absurd hp List.not_mem_nil
      | call hgate hc hargv hcond hsession hqueue =>
        rcases List.mem_cons.mp hp with rfl | hp
        · refine ⟨es, [], by rw [hc, hargv], ?_, fun _ => ?_⟩
          · rw [hc, hargv]
            exact hgate
          · rw [hc]
            exact ⟨hcond, hsession⟩
        · obtain ⟨⟨n, ho⟩, hc', m, hm, hcmd, hargv'⟩ := hqueue p hp
          obtain ⟨before, after, heq, hgate'⟩ := h.queues c m hm
          refine ⟨before, after ++ [.request c argv], ?_, ?_, fun hno => absurd ho (hno n)⟩
          · rw [heq, hc', hargv']
            simp
          · rw [hc', hcmd, hargv']
            exact hgate'
  · intro d m hm
    rw [hrun] at hm
    by_cases hd : c = d
    · subst hd
      rcases request_mstate hm with hm | ⟨hargv, hgate⟩
      · obtain ⟨before, after, heq, hgate⟩ := h.queues c m hm
        exact ⟨before, after ++ [.request c argv], by rw [heq]; simp, hgate⟩
      · refine ⟨es, [], by rw [hargv], ?_⟩
        rw [hargv]
        exact hgate
    · obtain ⟨b, hb⟩ := (request_moves w c argv (run (step w) s es)).other d hd
      rw [Server.client, hb] at hm
      obtain ⟨before, after, heq, hgate⟩ := h.queues d m hm
      exact ⟨before, after ++ [.request c argv], by rw [heq]; simp, hgate⟩

theorem gatesInv_run (data : δ) (g : Conditions ν) (es : List (Event δ ν)) :
    GatesInv w (initServer data g) es := by
  induction es using List.reverseRecOn with
  | nil => exact ⟨fun p hp => absurd hp List.not_mem_nil, fun c m hm => absurd hm List.not_mem_nil⟩
  | append_singleton es e ih =>
    cases e with
    | request c argv => exact ih.snoc_request c argv
    | createClient c master =>
      generalize hs : run (step w) (initServer data g) es = s at *
      have hstep : step w s (.createClient c master) =
          if s.panicked then s else s.setClient c (newClient master) := rfl
      refine ih.snoc_quiet ?_ fun d m hm => ?_
      · rw [hs, hstep]
        split
        · rfl
        · rfl
      · rw [hs, hstep] at hm
        rw [hs]
        split at hm
        · exact hm
        · by_cases hd : d = c
          · rw [hd, setClient_client] at hm
            exact absurd hm List.not_mem_nil
          · rw [setClient_client_ne hd] at hm
            exact hm
    | freeClient c =>
      generalize hs : run (step w) (initServer data g) es = s at *
      have hstep : step w s (.freeClient c) =
          if s.panicked then s
          else (s.mapLive (discardTransaction w c)).setClient c freedClient := rfl
      refine ih.snoc_quiet ?_ fun d m hm => ?_
      · rw [hs, hstep]
        split
        · rfl
        · rfl
      · rw [hs, hstep] at hm
        rw [hs]
        split at hm
        · exact hm
        · by_cases hd : d = c
          · rw [hd, setClient_client] at hm
            exact absurd hm List.not_mem_nil
          · rw [setClient_client_ne hd] at hm
            obtain ⟨b, hb⟩ := (Moves.discard (d := c) w s.live).other d (Ne.symm hd)
            rw [Server.client, mapLive_live, hb] at hm
            exact hm
    | background b =>
      generalize hs : run (step w) (initServer data g) es = s at *
      have hstep : step w s (.background b) = if s.panicked then s else background b s := rfl
      refine ih.snoc_quiet ?_ fun d m hm => ?_
      · rw [hs, hstep]
        split
        · rfl
        · rfl
      · rw [hs, hstep] at hm
        rw [hs]
        split at hm
        · exact hm
        · exact hm

/-- The call meets the conditions of its moment: a write is not on a read-only slave, and in cluster
mode all keys hash to one slot that this node owns, or that it imports while the client is ASKING. -/
def GatesNow (p : CallPoint δ ν) : Prop :=
  p.session.master = false →
    (p.cmd.flags.write = true →
      ¬ (p.conditions.masterhost = true ∧ p.conditions.repl_slave_ro = true)) ∧
    (p.conditions.cluster_enabled = true → ∀ keys, commandKeys p.cmd p.argv = some keys →
      keys = [] ∨ ∃ slot, (∀ k ∈ keys, keyHashSlot k = slot) ∧
        (p.conditions.cluster.slots slot = some p.conditions.cluster.myself ∨
          (p.conditions.cluster.importing_slots_from slot).isSome = true ∧
            p.session.asking = true))

def demotedRun : List (Event Unit Nat) :=
  [.createClient 1 false, sends ["MULTI"], sends ["SET", "k", "v"],
    changesTo { plainConditions with masterhost := true } 0, sends ["EXEC"]]

def replicaRun : List (Event Unit Nat) :=
  [.createClient 1 false, sends ["READONLY"], sends ["GET", "k"]]

def restoreRun : List (Event Unit Nat) :=
  [.createClient 1 false, sends ["RESTORE-ASKING", "k", "0", "v"]]

theorem not_gatesNow_of_key {p : CallPoint δ ν} {k : Bytes} (hmaster : p.session.master = false)
    (hcluster : p.conditions.cluster_enabled = true) (hkeys : commandKeys p.cmd p.argv = some [k])
    (howner : p.conditions.cluster.slots (keyHashSlot k) ≠ some p.conditions.cluster.myself)
    (hasking : p.session.asking = false) : ¬ GatesNow p := by
  intro h
  rcases (h hmaster).2 hcluster _ hkeys with hnil | ⟨slot, hslot, hown | ⟨_, hask⟩⟩
  · cases hnil
  · rw [← hslot k (by simp)] at hown
    exact howner hown
  · rw [hasking] at hask
    cases hask

end RedisCluster.Multi
