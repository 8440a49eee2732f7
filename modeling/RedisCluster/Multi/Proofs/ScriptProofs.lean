import RedisCluster.Multi.Proofs.CheckProofs
import RedisCluster.Multi.Script

/-!
# The checks of scripts and those of `processCommand`

A write command that a script calls has passed the check of read-only slaves, that of the last BGSAVE,
and before the first write that of the memory. The last AOF write, the number of good slaves and the
slots of the keys are not checked.
-/

namespace RedisCluster.Multi

open RedisCluster.Bus RedisCluster.Lib

variable {δ ν : Type} {w : World δ ν} {bits : RedisCommand → ScriptFlags} {lua_client : ClientId}

/-- What an executed command has passed. -/
structure ScriptPassed (w : World δ ν) (cmd : RedisCommand) (r : LuaState × Server δ ν) : Prop where
  gate : scriptGate r.2.live.conditions (r.2.client r.1.caller).session r.1 cmd = none
  memory : (scriptMemory w r.1 cmd r.2).2 = none

theorem luaRedisGenericCommand_executed {argv : List Bytes} {r : LuaState × Server δ ν}
    {cmd : RedisCommand}
    (h : (luaRedisGenericCommand w bits lua_client argv r).2 = .executed cmd) :
    ScriptPassed w cmd r := by
  obtain ⟨lua, s⟩ := r
  unfold luaRedisGenericCommand at h
  dsimp only at h
  split at h
  · cases h
  · split at h
    · cases h
    · rename_i row hrow
      split at h
      · cases h
      · split at h
        · cases h
        · split at h
          · cases h
          · rename_i hgate
            split at h
            · cases h
            · rename_i t hmemory
              cases h
              exact ⟨hgate, by rw [hmemory]⟩

theorem scriptGate_none {g : Conditions ν} {x : Session} {lua : LuaState} {cmd : RedisCommand}
    (h : scriptGate g x lua cmd = none) (hwrite : cmd.flags.write = true)
    (hloading : g.loading = false) (hmaster : x.master = false) :
    (g.masterhost && g.repl_slave_ro) = false ∧
      (g.stop_writes_on_bgsave_err && 0 < g.saveparamslen && g.lastbgsave_err) = false := by
  unfold scriptGate at h
  rw [if_pos hwrite, hloading, hmaster] at h
  split at h
  · cases h
  · split at h
    · cases h
    · rename_i hro
      split at h
      · cases h
      · rename_i hbgsave
        constructor
        · simpa using hro
        · exact Bool.eq_false_iff.mpr hbgsave

theorem scriptMemory_none {lua : LuaState} {cmd : RedisCommand} {s : Server δ ν} (c : ClientId)
    (h : (scriptMemory w lua cmd s).2 = none) (hfirst : lua.write_dirty = false) :
    (checkMemory w c cmd s).2 = none := by
  unfold checkMemory
  split
  · rfl
  · rename_i hmax
    unfold scriptMemory at h
    dsimp only
    cases hoom : cmd.flags.denyoom with
    | false => rfl
    | true =>
      rw [hoom, hfirst, if_pos (by simpa using hmax)] at h
      dsimp only at h
      split at h
      · rename_i hfound
        rw [hfound]
        rfl
      · cases h

theorem checkCluster_none_iff {c : ClientId} {cmd : RedisCommand} {argv : List Bytes}
    {s : Server δ ν} (hmaster : (s.client c).session.master = false) :
    (checkCluster w c cmd argv s).2 = none ↔
      (s.live.conditions.cluster_enabled = true → cmd.keyless = false →
        s.live.conditions.cluster.ok = true ∧ ∃ slot ask,
          (getNodeByQuery w c cmd argv s).2 = .node s.live.conditions.cluster.myself slot ask) := by
  unfold checkCluster
  cases hredirects : s.live.conditions.redirects (s.client c).session cmd with
  | false =>
    unfold Conditions.redirects at hredirects
    rw [if_pos (by rfl)]
    refine ⟨fun _ hcluster hkeyless => ?_, fun _ => rfl⟩
    rw [hcluster, hmaster, hkeyless] at hredirects
    cases hredirects
  | true =>
    have hboth : s.live.conditions.cluster_enabled = true ∧ cmd.keyless = false := by
      unfold Conditions.redirects at hredirects
      rw [hmaster] at hredirects
      simpa using hredirects
    rw [if_neg (by decide)]
    cases hok : s.live.conditions.cluster.ok with
    | false =>
      rw [if_pos (by rfl)]
      refine ⟨fun hnone => (by cases hnone), fun himp => ?_⟩
      cases (himp hboth.1 hboth.2).1
    | true =>
      rw [if_neg (by decide)]
      have haside := (aside_getNodeByQuery w c cmd argv s).conditions
      dsimp only
      rw [haside]
      cases hroute : (getNodeByQuery w c cmd argv s).2 with
      | crossSlot =>
        refine ⟨fun hnone => (by cases hnone), fun himp => ?_⟩
        obtain ⟨-, slot, ask, hnode⟩ := himp hboth.1 hboth.2
        cases hnode
      | unstable =>
        refine ⟨fun hnone => (by cases hnone), fun himp => ?_⟩
        obtain ⟨-, slot, ask, hnode⟩ := himp hboth.1 hboth.2
        cases hnode
      | assertion =>
        refine ⟨fun hnone => (by cases hnone), fun himp => ?_⟩
        obtain ⟨-, slot, ask, hnode⟩ := himp hboth.1 hboth.2
        cases hnode
      | node n hashslot ask =>
        dsimp only
        by_cases hn : n = s.live.conditions.cluster.myself
        · rw [if_pos hn]
          exact ⟨fun _ _ _ => ⟨rfl, hashslot, ask, by rw [hn]⟩, fun _ => rfl⟩
        · rw [if_neg hn]
          refine ⟨fun hnone => ?_, fun himp => ?_⟩
          · split at hnone
            · cases hnone
            · cases hnone
          · obtain ⟨-, slot, ask', hnode⟩ := himp hboth.1 hboth.2
            cases hnode
            exact absurd rfl hn

theorem diskError_iff {g : Conditions ν} {cmd : RedisCommand} (hwrite : cmd.flags.write = true)
    (hbgsave : (g.stop_writes_on_bgsave_err && 0 < g.saveparamslen && g.lastbgsave_err) = false) :
    g.diskError cmd = false ↔ (g.aof_last_write_err.isSome = true → g.masterhost = true) := by
  unfold Conditions.diskError
  rw [hbgsave, hwrite]
  cases g.aof_last_write_err.isSome <;> cases g.masterhost <;> simp

theorem fewSlaves_iff {g : Conditions ν} {cmd : RedisCommand} (hwrite : cmd.flags.write = true) :
    g.fewSlaves cmd = false ↔
      (g.repl_min_slaves_to_write ≠ 0 → g.repl_min_slaves_max_lag ≠ 0 →
        g.repl_min_slaves_to_write ≤ g.repl_good_slaves_count) := by
  unfold Conditions.fewSlaves
  rw [hwrite]
  simp only [Bool.and_true, Bool.and_eq_false_iff, decide_eq_false_iff_not, not_lt, ne_eq]
  tauto

theorem scriptState_caller (caller : ClientId) (s : Server δ ν) (calls : List (List Bytes)) :
    (scriptState w bits lua_client caller s calls).1.caller = caller := by
  refine run_inv_always (P := fun r : LuaState × Server δ ν => r.1.caller = caller)
    (fun r argv h => ?_) rfl calls
  unfold scriptStep luaRedisGenericCommand
  dsimp only
  split
  · exact h
  · split
    · exact h
    · split
      · exact h
      · split
        · exact h
        · split
          · exact h
          · split
            · exact h
            · exact h

theorem executed_accepted_iff {r : LuaState × Server δ ν} {argv : List Bytes} {cmd : RedisCommand}
    (hexecuted : (luaRedisGenericCommand w bits lua_client argv r).2 = .executed cmd)
    (hwrite : cmd.flags.write = true) (hmaster : (r.2.client r.1.caller).session.master = false)
    (hloading : r.2.live.conditions.loading = false) :
    AcceptedDirectly w cmd argv r ↔ UncheckedRulesHold w cmd argv r := by
  have hpassed := luaRedisGenericCommand_executed hexecuted
  obtain ⟨hro, hbgsave⟩ := scriptGate_none hpassed.gate hwrite hloading hmaster
  have hmemory := scriptMemory_none r.1.caller hpassed.memory
  have hroslave : r.2.live.conditions.roslave (r.2.client r.1.caller).session cmd = false := by
    unfold Conditions.roslave
    rw [hro]
    rfl
  unfold AcceptedDirectly UncheckedRulesHold
  dsimp only
  rw [checkCluster_none_iff hmaster, diskError_iff hwrite hbgsave, fewSlaves_iff hwrite]
  constructor
  · rintro ⟨hcluster, -, hdisk, hslaves, -⟩
    exact ⟨hdisk, hslaves, hcluster⟩
  · rintro ⟨hdisk, hslaves, hcluster⟩
    exact ⟨hcluster, hmemory, hdisk, hslaves, hroslave⟩

/-- **A write command that a script calls would be accepted from the caller** exactly if the rules hold
that scripts do not check. -/
theorem script_gates_iff (w : World δ ν) (bits : RedisCommand → ScriptFlags)
    (lua_client caller : ClientId) (s : Server δ ν) (calls : List (List Bytes)) (argv : List Bytes)
    (cmd : RedisCommand) (r : LuaState × Server δ ν)
    (hr : scriptState w bits lua_client caller s calls = r)
    (hmaster : (r.2.client caller).session.master = false)
    (hloading : r.2.live.conditions.loading = false)
    (hexecuted : (luaRedisGenericCommand w bits lua_client argv r).2 = .executed cmd)
    (hwrite : cmd.flags.write = true) :
    AcceptedDirectly w cmd argv r ↔ UncheckedRulesHold w cmd argv r := by
  have hcaller : r.1.caller = caller := by
    rw [← hr]
    exact scriptState_caller caller s calls
  exact executed_accepted_iff hexecuted hwrite (by rw [hcaller]; exact hmaster) hloading

def noBits : RedisCommand → ScriptFlags := fun _ => { noscript := false, random := false }

def lonelyMaster : Server Unit Nat := smallServer { plainConditions with repl_min_slaves_to_write := 1 }

def setWords : List Bytes := [asciiBytes "SET", asciiBytes "k", asciiBytes "v"]

/-- A script sets a key where the client itself may not. -/
theorem script_writes_without_slaves :
    ¬ ∀ cmd, (luaRedisGenericCommand smallWorld noBits 9 setWords (startScript 1, lonelyMaster)).2 =
        .executed cmd → cmd.flags.write = true →
      AcceptedDirectly smallWorld cmd setWords (startScript 1, lonelyMaster) := by
  intro h
  obtain ⟨-, -, -, hslaves, -⟩ :=
    h (oneKeyRow "set" (.other 1) (-3) { plainFlags with write := true, denyoom := true }) rfl rfl
  cases hslaves

/-- With no slave asked for, both may. -/
theorem script_gates_set :
    AcceptedDirectly smallWorld
        (oneKeyRow "set" (.other 1) (-3) { plainFlags with write := true, denyoom := true }) setWords
        (startScript 1, smallServer plainConditions) ↔
      UncheckedRulesHold smallWorld
        (oneKeyRow "set" (.other 1) (-3) { plainFlags with write := true, denyoom := true }) setWords
        (startScript 1, smallServer plainConditions) :=
  script_gates_iff smallWorld noBits 9 1 (smallServer plainConditions) [] setWords _ _ rfl rfl rfl rfl rfl

end RedisCluster.Multi
