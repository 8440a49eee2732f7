import RedisCluster.Aof.Format
import RedisCluster.Multi.Command

/-!
# `redis-check-aof.c`: the offset up to which a file is good

`process` reads the file with a parser of its own; the loader's reading is the one of `aof.c`. A file is the
list of the bytes that are still to be read, and memory is never short.
-/

namespace RedisCluster.Aof.Check

open RedisCluster.Util
open RedisCluster.Multi (tolower cstr sameCaseless)

/-! ## Reading -/

/-- A break out of the loops, or a step that C leaves undefined. -/
inductive Fault where
  | defect
  | undefined
  deriving DecidableEq, Repr

def consumeNewline (buf : Bytes) : Bool := buf.take 2 = crlf

def readLong (initial : UInt8) (fp : Bytes) : Option (Int × Bytes) :=
  let r := fgets 127 fp
  if r.1 = [] then none
  else if r.1.head? ≠ some initial then none
  else
    let t := strtoll r.1.tail
    if consumeNewline t.eptr then some (t.value, r.2) else none

/-- The string and what follows it. The sum `len + 2` overflows, or `consumeNewline` gets an address before
the buffer; with a length of -1 only when `readBytes` has got its one byte. -/
def readString (fp : Bytes) : Except Fault (Bytes × Bytes) :=
  match readLong 36 fp with
  | none => .error .defect
  | some (len, fp) =>
    if len = -1 ∧ fp = [] then .error .defect
    else if len < 0 ∨ 2 ^ 63 ≤ len + 2 then .error .undefined
    else if (fp.length : Int) < len + 2 then .error .defect
    else if consumeNewline (fp.drop len.toNat) then .ok (fp.take len.toNat, fp.drop (len.toNat + 2))
    else .error .defect

def readArgc (fp : Bytes) : Option (Int × Bytes) := readLong 42 fp

/-- `multi` after a command with this name. -/
def countMulti (multi : Int) (str : Bytes) : Except Fault Int :=
  if sameCaseless str (ascii "multi") then
    if multi ≠ 0 then .error .defect else .ok (multi + 1)
  else if sameCaseless str (ascii "exec") then
    if multi - 1 ≠ 0 then .error .defect else .ok (multi - 1)
  else .ok multi

/-- The loop over the strings of a command, of which the first `i` are read. The counter is an `int`. -/
def readStrings : Nat → Nat → Int → Bytes → Except Fault (Int × Bytes)
  | 0, _, multi, fp => .ok (multi, fp)
  | n + 1, i, multi, fp =>
    match readString fp with
    | .error e => .error e
    | .ok (str, fp) =>
      match (if i = 0 then countMulti multi str else .ok multi) with
      | .error e => .error e
      | .ok multi =>
        if i + 1 = 2 ^ 31 then .error .undefined else readStrings n (i + 1) multi fp

def checkCommand (multi : Int) (fp : Bytes) : Except Fault (Int × Bytes) :=
  match readArgc fp with
  | none => .error .defect
  | some (argc, fp) => readStrings argc.toNat 0 multi fp

/-- The loop of `process` in a file of `size` bytes; `none` when it comes to an undefined step. Every turn
reads at least one byte. -/
def processLoop (size : Nat) : Nat → Nat → Int → Bytes → Option Nat
  | 0, _, _, _ => none
  | fuel + 1, pos, multi, fp =>
    let pos := if multi = 0 then size - fp.length else pos
    match checkCommand multi fp with
    | .error .defect => some pos
    | .error .undefined => none
    | .ok (multi, fp) => processLoop size fuel pos multi fp

def process (file : Bytes) : Option Nat := processLoop file.length (file.length + 1) 0 0 file

/-! ## The loader -/

inductive Command where
  | multiCommand
  | execCommand
  | discardCommand
  | other
  deriving DecidableEq, Repr

/-- The commands of the server, none of them renamed. `execute` is what a command does to the keyspace, and
whether the assertions after it hold. -/
structure CommandTable (σ : Type) where
  lookupCommand : Bytes → Option Command
  execute : σ → List Bytes → σ × Bool
  multi_iff : ∀ name c, lookupCommand name = some c →
    (c = .multiCommand ↔ name.map tolower = ascii "multi")
  exec_iff : ∀ name c, lookupCommand name = some c →
    (c = .execCommand ↔ name.map tolower = ascii "exec")

inductive LoadResult (σ : Type) where
  | loaded (s : σ)
  | badFile
  | unknownCommand
  | assertFailed

variable {σ : Type}

/-- `REDIS_MULTI` of the fake client after a command. -/
def multiFlag (flag : Bool) : Command → Bool
  | .multiCommand => true
  | .execCommand => false
  | .discardCommand => false
  | .other => flag

def loadLoop (table : CommandTable σ) : Nat → Bool → σ → Bytes → LoadResult σ
  | 0, _, _, _ => .badFile
  | fuel + 1, flag, s, fp =>
    let r := fgets 127 fp
    if r.1 = [] then if flag then .badFile else .loaded s
    else if r.1.head? ≠ some 42 then .badFile
    else
      let argc := atoi r.1.tail
      if argc < 1 then .badFile
      else
        match readArgs argc.toNat r.2 with
        | none => .badFile
        | some (argv, fp) =>
          match table.lookupCommand (argv.headD []) with
          | none => .unknownCommand
          | some c =>
            let (s, silent) := table.execute s argv
            if silent then loadLoop table fuel (multiFlag flag c) s fp else .assertFailed

def loadAppendOnlyFile (table : CommandTable σ) (s : σ) (file : Bytes) : LoadResult σ :=
  loadLoop table (file.length + 1) false s file

/-! ## The format -/

/-- A count or a length on its line, in a form that `strtol` reads to the end. -/
def NumberLine (initial : UInt8) (n : Int) (text : Bytes) : Prop :=
  ∃ number, text = initial :: number ++ crlf ∧ LF ∉ number ∧ number.length ≤ 124 ∧
    (strtoll (number ++ crlf)).value = n ∧ (strtoll (number ++ crlf)).eptr = crlf

inductive BulkTexts : List Bytes → Bytes → Prop where
  | nil : BulkTexts [] []
  | cons {o line : Bytes} {os : List Bytes} {text : Bytes} : NumberLine 36 o.length line →
      BulkTexts os text → BulkTexts (o :: os) (line ++ o ++ crlf ++ text)

/-- A command, or a count that leaves no room for one. -/
inductive Item where
  | empty (count : Int)
  | command (name : Bytes) (args : List Bytes)

def Item.isCommand : Item → Bool
  | .empty _ => false
  | .command _ _ => true

inductive ItemText : Item → Bytes → Prop where
  | empty {count : Int} {line : Bytes} : count < 1 → NumberLine 42 count line →
      ItemText (.empty count) line
  | command {name line text : Bytes} {args : List Bytes} : NumberLine 42 (args.length + 1 : Nat) line →
      BulkTexts (name :: args) text → ItemText (.command name args) (line ++ text)

inductive Items : List Item → Bytes → Prop where
  | nil : Items [] []
  | cons {i : Item} {is : List Item} {text rest : Bytes} : ItemText i text → Items is rest →
      Items (i :: is) (text ++ rest)

/-- Whether a transaction is open after an item, `none` for MULTI in a transaction and EXEC out of one.
`extent` is the part of a name that counts. -/
def transaction (extent : Bytes → Bytes) (multi : Bool) : Item → Option Bool
  | .empty _ => some multi
  | .command name _ =>
    if (extent name).map tolower = ascii "multi" then if multi then none else some true
    else if (extent name).map tolower = ascii "exec" then if multi then some false else none
    else some multi

def transactions (extent : Bytes → Bytes) : Bool → List Item → Option Bool
  | multi, [] => some multi
  | multi, i :: is => (transaction extent multi i).bind fun multi => transactions extent multi is

def Balanced (extent : Bytes → Bytes) (items : List Item) : Prop :=
  transactions extent false items = some false

/-- The lengths up to which the file is made of commands with balanced transactions. -/
def Prefixes (extent : Bytes → Bytes) (file : Bytes) : Set Nat :=
  { q | q ≤ file.length ∧ ∃ items, Items items (file.take q) ∧ (∀ i ∈ items, i.isCommand = true) ∧
    Balanced extent items }

/-! ## What must hold -/

/-- What `catAppendOnlyGenericCommand` wrote for these commands, one after the other. -/
def written (cmds : List (List Bytes)) : Bytes := cmds.foldl catAppendOnlyGenericCommand []

def asItem : List Bytes → Item
  | [] => .empty 0
  | name :: args => .command name args

/-- The offset is the end of the longest good part, the loader reads that part to its end, and nothing is cut
off from what the server wrote. -/
def Agrees (file : Bytes) : Prop :=
  ∃ p, process file = some p ∧ IsGreatest (Prefixes id file) p ∧
    (∀ (σ : Type) (table : CommandTable σ) (s : σ),
      (∀ items, Items items (file.take p) → ∀ name args, .command name args ∈ items →
        table.lookupCommand name ≠ none) →
      (∀ s argv, (table.execute s argv).2 = true) →
      ∃ s', loadAppendOnlyFile table s (file.take p) = .loaded s') ∧
    ∀ cmds, (∀ argv ∈ cmds, argv ≠ []) → Balanced id (cmds.map asItem) → file = written cmds →
      p = file.length

/-! ## When it does -/

/-- A length that `readString` adds to, or for which it reads before the buffer. -/
def BadLength (fp : Bytes) : Prop :=
  ∃ len line rest, NumberLine 36 len line ∧ fp = line ++ rest ∧
    ((len < 0 ∧ ¬(len = -1 ∧ rest = [])) ∨ 2 ^ 63 ≤ len + 2)

/-- A command begins here that has such a length after strings that are good, or 2^31 strings. -/
def BadCommand (multi : Bool) (fp : Bytes) : Prop :=
  ∃ count line os text rest, NumberLine 42 count line ∧ BulkTexts os text ∧ fp = line ++ (text ++ rest) ∧
    (∀ name args, os = name :: args → transaction cstr multi (.command name args) ≠ none) ∧
    (((os.length : Int) < count ∧ BadLength rest) ∨ ((os.length : Int) ≤ count ∧ os.length = 2 ^ 31))

/-- Such a command after items that are good. -/
def HasBadCommand (multi : Bool) (file : Bytes) : Prop :=
  ∃ items text rest multi', Items items text ∧ file = text ++ rest ∧
    transactions cstr multi items = some multi' ∧ BadCommand multi' rest

/-- No count below one stands in items with balanced transactions at the start of the file. -/
def CountsPositive (file : Bytes) : Prop :=
  ∀ items text rest, Items items text → file = text ++ rest → Balanced cstr items →
    ∀ i ∈ items, i.isCommand = true

/-- The longest good part is the same when a name ends at its first NUL byte. -/
def NamesAgree (file : Bytes) : Prop :=
  ∀ p, IsGreatest (Prefixes cstr file) p ↔ IsGreatest (Prefixes id file) p

end RedisCluster.Aof.Check
