import RedisCluster.Aof.Expires
import RedisCluster.Aof.Proofs.FormatProofs

/-!
# Replaying the append only file

The file is a list of commands, and loading it replays them one after the other. What was fed for the
commands and the lazy deletions so far replays to the databases in memory, at any time.
-/

namespace RedisCluster.Aof

open RedisCluster.Util RedisCluster.Keyspace RedisCluster.Lib

variable {V : Type} {cfg : Config} {codec : Codec V} {s : Server V} {dbid : Nat} {key : Bytes}

def fileText (cmds : List (List Bytes)) : Bytes := cmds.flatMap commandText

def Readable (argv : List Bytes) : Prop :=
  argv ≠ [] ∧ argv.length < 2 ^ 31 ∧ ∀ o ∈ argv, o.length < 2 ^ 63

def replayAll (cfg : Config) (codec : Codec V) (mstime : Nat → Int) :
    Nat → List (List Bytes) → FakeClient V → Option (FakeClient V)
  | _, [], c => some c
  | loops, argv :: cmds, c =>
    (replayCommand cfg codec c argv (mstime loops)).bind (replayAll cfg codec mstime (loops + 1) cmds)

theorem replayAll_append (mstime : Nat → Int) (xs ys : List (List Bytes)) (loops : Nat)
    (c : FakeClient V) :
    replayAll cfg codec mstime loops (xs ++ ys) c =
      (replayAll cfg codec mstime loops xs c).bind
        (replayAll cfg codec mstime (loops + xs.length) ys) := by
  induction xs generalizing loops c with
  | nil => rfl
  | cons x xs ih =>
    rw [List.cons_append, replayAll, replayAll, List.length_cons]
    cases replayCommand cfg codec c x (mstime loops) with
    | none => rfl
    | some c' =>
      rw [Option.bind_some, Option.bind_some, ih, Nat.add_assoc, Nat.add_comm 1]

theorem atoi_number {n : Nat} (hn : n < 2 ^ 31) : atoi (ll2string n ++ crlf) = n := by
  rw [atoi, strtoll_number (Nat.lt_trans hn (by decide))]
  exact Int.bmod_eq_of_le (by omega) (by omega)

theorem loadLoop_fileText (mstime : Nat → Int) (cmds : List (List Bytes))
    (hcmds : ∀ argv ∈ cmds, Readable argv) {fuel : Nat} (hfuel : cmds.length < fuel) (loops : Nat)
    (c : FakeClient V) :
    loadLoop cfg codec mstime fuel loops (fileText cmds) c =
      replayAll cfg codec mstime loops cmds c := by
  induction cmds generalizing fuel loops c with
  | nil =>
    obtain ⟨k, rfl⟩ : ∃ k, fuel = k + 1 := ⟨fuel - 1, by simp only [List.length_nil] at hfuel; omega⟩
    rfl
  | cons argv cmds ih =>
    obtain ⟨k, rfl⟩ : ∃ k, fuel = k + 1 := ⟨fuel - 1, by omega⟩
    obtain ⟨hne, hcount, hsize⟩ := hcmds argv List.mem_cons_self
    have hpos : 0 < argv.length := List.length_pos_iff.mpr hne
    have hshape : fileText (argv :: cmds) = 42 :: ll2string argv.length ++ crlf ++
        (argv.flatMap catArgument ++ fileText cmds) := by
      rw [fileText, List.flatMap_cons, commandText, List.append_assoc]
      rfl
    rw [hshape, loadLoop, fgets_number 42 (by decide) (Nat.lt_trans hcount (by decide))]
    simp only [List.cons_append, List.head?_cons, List.tail_cons, atoi_number hcount, ne_eq,
      not_true_eq_false, if_false, reduceCtorEq, Int.toNat_natCast,
      readArgs_text argv hsize (fileText cmds)]
    rw [if_neg (by omega), replayAll]
    cases replayCommand cfg codec c argv (mstime loops) with
    | none => rfl
    | some c' =>
      exact ih (fun a ha => hcmds a (List.mem_cons_of_mem argv ha))
        (by rw [List.length_cons] at hfuel; omega) _ _

theorem length_fileText (cmds : List (List Bytes)) : cmds.length ≤ (fileText cmds).length := by
  induction cmds with
  | nil => exact Nat.le_refl 0
  | cons argv cmds ih =>
    have hpos : 1 ≤ (commandText argv).length := by
      rw [commandText, List.length_append, List.length_append, List.length_cons]
      omega
    rw [fileText, List.flatMap_cons, List.length_append, List.length_cons]
    rw [fileText] at ih
    omega

def fedCommands (cmd : Proc) (argv : List Bytes) (mstime : Int) : List (List Bytes) :=
  let expireAt :=
    [ascii "PEXPIREAT", arg argv 1, ll2string (expireAtMillis cmd (arg argv 2) mstime)]
  if cmd = .expire ∨ cmd = .pexpire ∨ cmd = .expireat then [expireAt]
  else if cmd = .setex ∨ cmd = .psetex then [[ascii "SET", arg argv 1, arg argv 3], expireAt]
  else [argv]

def fedSelect (s : Server V) (dictid : Nat) : List (List Bytes) :=
  if s.aof_selected_db = some dictid then [] else [[ascii "SELECT", ll2string dictid]]

theorem ll2string_natCast (n : Nat) : ll2string n = decimal n := by
  rw [ll2string, if_neg (by omega), Int.natAbs_natCast]

theorem selectText_eq (dictid : Nat) : selectText dictid = fileText [[ascii "SELECT", ll2string dictid]] := by
  have hcount : 42 :: ll2string ((2 : Nat) : Int) ++ crlf ++ catArgument (ascii "SELECT") ++ [36] =
      ascii "*2\r\n$6\r\nSELECT\r\n$" := by decide +kernel
  have hlength : ([ascii "SELECT", ll2string dictid] : List Bytes).length = 2 := rfl
  have hid : catArgument (decimal dictid) =
      36 :: ll2string (decimal dictid).length ++ crlf ++ decimal dictid ++ crlf := rfl
  rw [selectText, ← hcount, fileText, List.flatMap_cons, List.flatMap_nil, List.append_nil,
    commandText, hlength, List.flatMap_cons, List.flatMap_cons, List.flatMap_nil, List.append_nil,
    ll2string_natCast dictid, hid]
  simp only [List.append_assoc, List.cons_append, List.nil_append]

theorem feed_eq (s : Server V) (cmd : Proc) (dictid : Nat) (argv : List Bytes) (mstime : Int) :
    feedAppendOnlyFile s cmd dictid argv mstime =
      { s with
        aof_selected_db := some dictid
        aof_buf := s.aof_buf ++ fileText (fedSelect s dictid ++ fedCommands cmd argv mstime) } := by
  have hselect : (if s.aof_selected_db = some dictid then [] else selectText dictid) =
      fileText (fedSelect s dictid) := by
    rw [fedSelect]
    split
    · rfl
    · exact selectText_eq dictid
  have happend : ∀ xs ys, fileText (xs ++ ys) = fileText xs ++ fileText ys := fun xs ys =>
    List.flatMap_append
  unfold feedAppendOnlyFile
  rw [hselect, happend]
  unfold fedCommands
  dsimp only
  split
  · simp [catAppendOnlyExpireAtCommand, catAppendOnlyGenericCommand, fileText]
  · split
    · simp [catAppendOnlyExpireAtCommand, catAppendOnlyGenericCommand, fileText]
    · simp [catAppendOnlyGenericCommand, fileText]

end RedisCluster.Aof
