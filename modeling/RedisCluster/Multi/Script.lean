import RedisCluster.Multi.MultiRun

/-!
# Commands called by scripts

`luaRedisGenericCommand` of `scripting.c`: the checks that a command called by a script meets, and its
call. A script is the list of the commands it calls; what Lua does between them is not modelled, nor
are the arguments of other types than strings and numbers and the conversion of replies.
-/

namespace RedisCluster.Multi

open RedisCluster.Bus

variable {δ ν : Type}

/-- The bits of a row that only scripts read: `REDIS_CMD_NOSCRIPT` and `REDIS_CMD_RANDOM`. -/
structure ScriptFlags where
  noscript : Bool
  random : Bool
  deriving DecidableEq, Repr

inductive ScriptError where
  | noArguments
  | wrongArity
  | unknownCommand
  | noscript
  | nondeterministic
  | roslave
  | bgsave
  | oom
  deriving DecidableEq, Repr

def ScriptError.text : ScriptError → String
  | noArguments => "Please specify at least one argument for redis.call()"
  | wrongArity => "Wrong number of args calling Redis command From Lua script"
  | unknownCommand => "Unknown Redis command called from Lua script"
  | noscript => "This Redis command is not allowed from scripts"
  | nondeterministic => "Write commands not allowed after non deterministic commands"
  | roslave => Rejection.roslave.reply
  | bgsave => Rejection.bgsave.reply
  | oom => Rejection.oom.reply

/-- What a running script keeps in the server: `lua_caller`, `lua_random_dirty` and `lua_write_dirty`,
and the force flags that its commands set for the caller. -/
structure LuaState where
  caller : ClientId
  random_dirty : Bool
  write_dirty : Bool
  force_aof : Bool
  force_repl : Bool
  deriving DecidableEq, Repr

def startScript (caller : ClientId) : LuaState :=
  { caller := caller, random_dirty := false, write_dirty := false, force_aof := false
    force_repl := false }

/-- The checks of a write command; `x` is the session of the caller. -/
def scriptGate (g : Conditions ν) (x : Session) (lua : LuaState) (cmd : RedisCommand) :
    Option ScriptError :=
  if cmd.flags.write then
    if lua.random_dirty then some .nondeterministic
    else if g.masterhost && g.repl_slave_ro && !g.loading && !x.master then some .roslave
    else if g.stop_writes_on_bgsave_err && 0 < g.saveparamslen && g.lastbgsave_err then some .bgsave
    else none
  else none

section

variable (w : World δ ν) (bits : RedisCommand → ScriptFlags) (lua_client : ClientId)

/-- The memory limit, until the script has written. -/
def scriptMemory (lua : LuaState) (cmd : RedisCommand) (s : Server δ ν) :
    Server δ ν × Option ScriptError :=
  if s.live.conditions.maxmemory ≠ 0 && !lua.write_dirty && cmd.flags.denyoom then
    let r := w.freeMemoryIfNeeded s.live
    ((s.mapLive fun t => { t with data := r.data }).feed .server r.fed,
      if r.found then none else some .oom)
  else (s, none)

/-- `call` with `REDIS_CALL_SLOWLOG` and `REDIS_CALL_STATS`: the command itself is not propagated. -/
def scriptCall (cmd : RedisCommand) (argv : List Bytes) (r : LuaState × Server δ ν) :
    LuaState × Server δ ν :=
  let o := Origin.command r.1.caller
  let (t, out) := procBody w o lua_client cmd.proc argv (r.2.note (callPoint o lua_client cmd argv r.2))
  ({ r.1 with
      force_aof := r.1.force_aof || out.force_aof
      force_repl := r.1.force_repl || out.force_repl },
    out.also.foldl (fun t op => propagate o op t) t)

inductive ScriptReply where
  | error (e : ScriptError)
  | executed (cmd : RedisCommand)

def luaRedisGenericCommand (argv : List Bytes) (r : LuaState × Server δ ν) :
    (LuaState × Server δ ν) × ScriptReply :=
  let (lua, s) := r
  if argv = [] then (r, .error .noArguments)
  else
    match w.commands (argv.headD []) with
    | none => (r, .error .unknownCommand)
    | some cmd =>
      if Conditions.wrongArity cmd argv.length then (r, .error .wrongArity)
      else if (bits cmd).noscript then (r, .error .noscript)
      else
        match scriptGate s.live.conditions (s.client lua.caller).session lua cmd with
        | some e => (r, .error e)
        | none =>
          match scriptMemory w lua cmd s with
          | (s, some e) => ((lua, s), .error e)
          | (s, none) =>
            let lua := { lua with
              random_dirty := lua.random_dirty || (bits cmd).random
              write_dirty := lua.write_dirty || cmd.flags.write }
            (scriptCall w lua_client cmd argv (lua, s), .executed cmd)

/-- One call of a script; after an error the script may go on, as with `redis.pcall`. -/
def scriptStep (r : LuaState × Server δ ν) (argv : List Bytes) : LuaState × Server δ ν :=
  (luaRedisGenericCommand w bits lua_client argv r).1

/-- A running script that has made these calls. -/
def scriptState (caller : ClientId) (s : Server δ ν) (calls : List (List Bytes)) :
    LuaState × Server δ ν :=
  Lib.run (scriptStep w bits lua_client) (startScript caller, s) calls

/-! ## What must hold -/

/-- `processCommand` would let the same command of the caller pass its checks of the cluster, of the
disk and of the slaves, and that of the memory as long as the script has written nothing. -/
def AcceptedDirectly (cmd : RedisCommand) (argv : List Bytes) (r : LuaState × Server δ ν) : Prop :=
  let g := r.2.live.conditions
  let c := r.1.caller
  (checkCluster w c cmd argv r.2).2 = none ∧
    (r.1.write_dirty = false → (checkMemory w c cmd r.2).2 = none) ∧
    g.diskError cmd = false ∧ g.fewSlaves cmd = false ∧
    g.roslave (r.2.client c).session cmd = false

/-- No AOF write failed on a master, there are enough good slaves, and the keys belong here if the node
is one of a cluster. -/
def UncheckedRulesHold (cmd : RedisCommand) (argv : List Bytes) (r : LuaState × Server δ ν) : Prop :=
  let g := r.2.live.conditions
  let c := r.1.caller
  (g.aof_last_write_err.isSome = true → g.masterhost = true) ∧
    (g.repl_min_slaves_to_write ≠ 0 → g.repl_min_slaves_max_lag ≠ 0 →
      g.repl_min_slaves_to_write ≤ g.repl_good_slaves_count) ∧
    (g.cluster_enabled = true → cmd.keyless = false →
      g.cluster.ok = true ∧ ∃ slot ask,
        (getNodeByQuery w c cmd argv r.2).2 = .node g.cluster.myself slot ask)

end

end RedisCluster.Multi
