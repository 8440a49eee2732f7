import RedisCluster.Aof.Proofs.CheckAofProofs

/-!
# The part that `redis-check-aof` keeps

The loader reads a good part to its end, and what the server wrote is one.
-/

namespace RedisCluster.Aof.Check

open RedisCluster.Util
open RedisCluster.Multi (tolower cstr sameCaseless)

theorem readArgs_bulk {os : List Bytes} {text : Bytes} (h : BulkTexts os text) {rest : Bytes}
    (hfp : (text ++ rest).length < 2 ^ 63) : readArgs os.length (text ++ rest) = some (os, rest) := by
  induction h with
  | nil => rfl
  | cons hline hrest ih =>
    rename_i o line os text
    have hshape : line ++ o ++ crlf ++ text ++ rest = line ++ (o ++ (crlf ++ (text ++ rest))) := by
      simp only [List.append_assoc]
    rw [hshape] at hfp ⊢
    have hlong : (o ++ (crlf ++ (text ++ rest))).length = o.length + 2 + (text ++ rest).length := by
      rw [List.length_append, List.length_append, ← Nat.add_assoc]
      rfl
    have hsize := length_rest hfp
    rw [hlong] at hsize
    have hlen : ((o.length : Int) % 2 ^ 64).toNat = o.length := by
      rw [Int.emod_eq_of_lt (by omega) (by omega), Int.toNat_natCast]
    rw [List.length_cons, readArgs, hline.fgets (by decide)]
    simp only [hline.strtoll_tail.1, hlen]
    rw [if_neg (not_not.mpr hline.head), if_neg (by rw [hlong]; omega), ← List.drop_drop,
      List.drop_left, List.take_left]
    have hcrlf : (crlf ++ (text ++ rest)).drop 2 = text ++ rest := rfl
    rw [hcrlf, ih (by omega)]
    rfl

variable {σ : Type} {table : CommandTable σ}

theorem multiFlag_step {flag b b' : Bool} {name : Bytes} {args : List Bytes} {c : Command}
    (hc : table.lookupCommand name = some c) (hflag : flag = true → b = true)
    (htrans : transaction id b (.command name args) = some b') :
    multiFlag flag c = true → b' = true := by
  have hmulti := table.multi_iff name c hc
  have hexec := table.exec_iff name c hc
  rw [transaction, id] at htrans
  intro h
  cases c with
  | multiCommand =>
    rw [if_pos (hmulti.mp rfl)] at htrans
    cases b with
    | false => exact (Option.some.inj htrans).symm
    | true => cases htrans
  | execCommand => cases h
  | discardCommand => cases h
  | other =>
    rw [if_neg fun hname => Command.noConfusion (hmulti.mpr hname),
      if_neg fun hname => Command.noConfusion (hexec.mpr hname)] at htrans
    rw [← Option.some.inj htrans]
    exact hflag h

theorem loadLoop_items {items : List Item} {text : Bytes} (h : Items items text)
    (hfile : text.length < 2 ^ 63)
    (hcommand : ∀ i ∈ items, i.isCommand = true ∧ i.strings < 2 ^ 31)
    (hknown : ∀ name args, .command name args ∈ items → table.lookupCommand name ≠ none)
    (hsilent : ∀ s argv, (table.execute s argv).2 = true) {fuel : Nat} (hfuel : text.length < fuel)
    {flag b : Bool} (hflag : flag = true → b = true) (hrun : transactions id b items = some false)
    (s : σ) : ∃ s', loadLoop table fuel flag s text = .loaded s' := by
  induction h generalizing fuel flag b s with
  | nil =>
    obtain ⟨k, rfl⟩ : ∃ k, fuel = k + 1 := ⟨fuel - 1, by simp only [List.length_nil] at hfuel; omega⟩
    have hb : b = false := Option.some.inj hrun
    have hoff : flag = false := by
      cases flag with
      | false => rfl
      | true => exact (hflag rfl).symm.trans hb
    rw [hoff]
    exact ⟨s, rfl⟩
  | cons hitem hrest ih =>
    rename_i i is first rest
    have hpos := hitem.length_pos
    rw [List.length_append] at hfuel
    obtain ⟨k, rfl⟩ : ∃ k, fuel = k + 1 := ⟨fuel - 1, by omega⟩
    obtain ⟨b', htrans, hafter⟩ := Option.bind_eq_some_iff.mp hrun
    obtain ⟨hkind, hsmall⟩ := hcommand i List.mem_cons_self
    cases hitem with
    | empty => cases hkind
    | command hline hstrings =>
      rename_i name line strings args
      rw [Item.strings] at hsmall
      rw [List.append_assoc] at hfile ⊢
      have hargc : atoi line.tail = (args.length + 1 : Nat) := by
        rw [atoi, hline.strtoll_tail.1]
        exact Int.bmod_eq_of_le (by omega) (by omega)
      have hargv := readArgs_bulk hstrings (length_rest hfile)
      rw [List.length_cons] at hargv
      rw [loadLoop, hline.fgets (by decide)]
      simp only [hargc, Int.toNat_natCast, hargv, List.headD_cons]
      rw [if_neg hline.ne_nil, if_neg (not_not.mpr hline.head), if_neg (by omega)]
      cases hlookup : table.lookupCommand name with
      | none => exact absurd hlookup (hknown name args List.mem_cons_self)
      | some c =>
        simp only [hsilent, if_true]
        exact ih (length_rest (length_rest hfile)) (fun i hi => hcommand i (List.mem_cons_of_mem _ hi))
          (fun n a ha => hknown n a (List.mem_cons_of_mem _ ha)) (by omega)
          (multiFlag_step hlookup hflag htrans) hafter _

theorem numberLine_ll2string {initial : UInt8} {n : Nat} (hn : n < 2 ^ 63) :
    NumberLine initial n (initial :: ll2string n ++ crlf) := by
  have hdecimal : ll2string (n : Int) = decimal n := by
    rw [ll2string, if_neg (by omega), Int.natAbs_natCast]
  have hcrlf : isDigit (crlf.headD 0) = false := by decide
  have hread := strtoll_ll2string (n := (n : Int)) (by omega) (by exact_mod_cast hn) hcrlf
  refine ⟨ll2string n, rfl, ?_, ?_, by rw [hread], by rw [hread]⟩
  · rw [hdecimal]
    exact notMem_decimal (by decide) n
  · have hlength := length_decimal_le (n := n) (k := 20) (by omega)
      (Nat.lt_of_lt_of_le hn (by norm_num))
    rw [hdecimal]
    omega

theorem bulkTexts_catArgument (os : List Bytes) (hos : (os.flatMap catArgument).length < 2 ^ 63) :
    BulkTexts os (os.flatMap catArgument) := by
  induction os with
  | nil => exact .nil
  | cons o os ih =>
    rw [List.flatMap_cons, List.length_append] at hos
    have ho : o.length < 2 ^ 63 := by
      rw [catArgument] at hos
      simp only [List.length_append] at hos
      omega
    exact .cons (numberLine_ll2string ho) (ih (by omega))

theorem written_eq (cmds : List (List Bytes)) : written cmds = cmds.flatMap commandText := by
  have hfold (dst : Bytes) :
      cmds.foldl catAppendOnlyGenericCommand dst = dst ++ cmds.flatMap commandText := by
    induction cmds generalizing dst with
    | nil => rw [List.flatMap_nil, List.append_nil, List.foldl_nil]
    | cons argv cmds ih =>
      rw [List.foldl_cons, ih, catAppendOnlyGenericCommand, List.flatMap_cons, List.append_assoc]
  exact hfold []

theorem length_argv_le (argv : List Bytes) : argv.length ≤ (argv.flatMap catArgument).length := by
  induction argv with
  | nil => exact Nat.le_refl 0
  | cons o argv ih =>
    rw [List.flatMap_cons, List.length_append, List.length_cons, catArgument]
    simp only [List.length_append, List.length_cons]
    omega

theorem items_written {cmds : List (List Bytes)} (hne : ∀ argv ∈ cmds, argv ≠ [])
    (hfile : (cmds.flatMap commandText).length < 2 ^ 63) :
    Items (cmds.map asItem) (cmds.flatMap commandText) := by
  induction cmds with
  | nil => exact .nil
  | cons argv cmds ih =>
    rw [List.flatMap_cons, List.length_append] at hfile
    rw [List.map_cons, List.flatMap_cons]
    refine .cons ?_ (ih (fun a ha => hne a (List.mem_cons_of_mem _ ha)) (by omega))
    cases argv with
    | nil => exact absurd rfl (hne [] List.mem_cons_self)
    | cons name args =>
      have hlength := length_argv_le (name :: args)
      rw [commandText] at hfile ⊢
      simp only [List.length_append] at hfile
      exact .command (numberLine_ll2string (by rw [← List.length_cons (a := name)]; omega))
        (bulkTexts_catArgument _ (by omega))

theorem asItem_isCommand {cmds : List (List Bytes)} (hne : ∀ argv ∈ cmds, argv ≠ []) :
    ∀ i ∈ cmds.map asItem, i.isCommand = true := by
  intro i hi
  obtain ⟨argv, hargv, rfl⟩ := List.mem_map.mp hi
  cases argv with
  | nil => exact absurd rfl (hne [] hargv)
  | cons name args => rfl

theorem mem_prefixes {extent : Bytes → Bytes} {file : Bytes} {q : Nat} :
    q ∈ Prefixes extent file ↔ ∃ items text rest, Items items text ∧ file = text ++ rest ∧
      (∀ i ∈ items, i.isCommand = true) ∧ Balanced extent items ∧ q = text.length := by
  constructor
  · rintro ⟨hq, items, hitems, hcommand, hrun⟩
    exact ⟨items, _, _, hitems, (List.take_append_drop q file).symm, hcommand, hrun,
      (List.length_take_of_le hq).symm⟩
  · rintro ⟨items, text, rest, hitems, rfl, hcommand, hrun, rfl⟩
    refine ⟨?_, items, ?_, hcommand, hrun⟩
    · rw [List.length_append]
      omega
    · rw [List.take_left]
      exact hitems

theorem reaches_of_mem {file : Bytes} {q : Nat} (h : q ∈ Prefixes cstr file) :
    Reaches false file q := by
  obtain ⟨items, text, rest, hitems, heq, -, hrun, hq⟩ := mem_prefixes.mp h
  exact ⟨items, text, rest, hitems, heq, hrun, hq⟩

theorem prefixes_of_counts {file : Bytes} (hcounts : CountsPositive file) :
    Prefixes cstr file = { q | Reaches false file q } := by
  ext q
  refine ⟨reaches_of_mem, ?_⟩
  rintro ⟨items, text, rest, hitems, heq, hrun, hq⟩
  exact mem_prefixes.mpr ⟨items, text, rest, hitems, heq, hcounts items text rest hitems heq hrun, hrun, hq⟩

theorem strings_small {b b' : Bool} {items : List Item} {text rest : Bytes} (hitems : Items items text)
    (hfile : (text ++ rest).length < 2 ^ 63) (hrun : transactions cstr b items = some b')
    (hgood : ¬ HasBadCommand b (text ++ rest)) : ∀ i ∈ items, i.strings < 2 ^ 31 := by
  induction hitems generalizing b with
  | nil => exact fun i hi => absurd hi List.not_mem_nil
  | cons hitem hitems ih =>
    rename_i i is first last
    obtain ⟨b₁, htrans, hrun⟩ := Option.bind_eq_some_iff.mp hrun
    rw [List.append_assoc] at hfile hgood
    have hhere : ¬ BadCommand b (first ++ (last ++ rest)) :=
      fun h => hgood ⟨[], [], _, b, .nil, rfl, rfl, h⟩
    rw [hasBadCommand_step hfile hitem htrans hhere] at hgood
    intro j hj
    rcases List.mem_cons.mp hj with rfl | hj
    · exact (checkCommand_item hfile hitem htrans hhere).1
    · exact ih (length_rest hfile) hrun hgood j hj

theorem countsPositive_of_mem {file : Bytes} {p : Nat} (hmax : IsGreatest { q | Reaches false file q } p)
    (hp : p ∈ Prefixes id file) : CountsPositive file := by
  intro items text rest hitems heq hrun i hi
  obtain ⟨items', text', rest', hitems', heq', hcommand, -, hlen⟩ := mem_prefixes.mp hp
  have hle : text.length ≤ text'.length := by
    rw [← hlen]
    exact hmax.2 ⟨items, text, rest, hitems, heq, hrun, rfl⟩
  exact hcommand i ((hitems.isPrefix hitems' (heq.symm.trans heq') hle).subset hi)

/-- What the check keeps is loaded: the names are read in full there. -/
theorem load_checked {file : Bytes} (hfile : file.length < 2 ^ 63) (hgood : ¬ HasBadCommand false file)
    {p : Nat} (hchecked : p ∈ Prefixes cstr file) (hp : p ∈ Prefixes id file)
    (hknown : ∀ items, Items items (file.take p) → ∀ name args, .command name args ∈ items →
      table.lookupCommand name ≠ none)
    (hsilent : ∀ s argv, (table.execute s argv).2 = true) (s : σ) :
    ∃ s', loadAppendOnlyFile table s (file.take p) = .loaded s' := by
  obtain ⟨items, text, rest, hitems, rfl, hcommand, hrun, rfl⟩ := mem_prefixes.mp hp
  obtain ⟨items', text', rest', hitems', heq', -, hrun', hlen'⟩ := mem_prefixes.mp hchecked
  have hpart := hitems.isPrefix hitems' heq' (Nat.le_of_eq hlen')
  rw [heq'] at hfile hgood
  have hsmall := strings_small hitems' hfile hrun' hgood
  rw [List.take_left] at hknown ⊢
  rw [← heq'] at hfile
  refine loadLoop_items hitems ?_ (fun i hi => ⟨hcommand i hi, hsmall i (hpart.subset hi)⟩)
    (hknown items hitems) hsilent (Nat.lt_succ_self _) (fun h => h) hrun s
  rw [List.length_append] at hfile
  omega

theorem length_mem_prefixes {file : Bytes} (hfile : file.length < 2 ^ 63) {cmds : List (List Bytes)}
    (hne : ∀ argv ∈ cmds, argv ≠ []) (hrun : Balanced id (cmds.map asItem)) (hwritten : file = written cmds) :
    file.length ∈ Prefixes id file := by
  have hshape : file = cmds.flatMap commandText := hwritten.trans (written_eq cmds)
  refine mem_prefixes.mpr ⟨cmds.map asItem, file, [], ?_, (List.append_nil file).symm,
    asItem_isCommand hne, hrun, rfl⟩
  rw [hshape] at hfile ⊢
  exact items_written hne hfile

/-- The checker and the loader agree exactly when no step of the checker is undefined, no count below one
is accepted, and no name goes on after a NUL where it matters. -/
theorem check_agrees_iff (file : Bytes) (hfile : file.length < 2 ^ 63) :
    Agrees file ↔ ¬ HasBadCommand false file ∧ CountsPositive file ∧ NamesAgree file := by
  constructor
  · rintro ⟨p, hp, hgreatest, -, -⟩
    have hgood : ¬ HasBadCommand false file := fun h => by
      rw [(process_none hfile).mpr h] at hp
      cases hp
    have hmax := process_greatest hfile hp
    have hcounts : CountsPositive file := countsPositive_of_mem hmax hgreatest.1
    refine ⟨hgood, hcounts, fun q => ?_⟩
    rw [← prefixes_of_counts hcounts] at hmax
    constructor
    · intro h
      rw [h.unique hmax]
      exact hgreatest
    · intro h
      rw [h.unique hgreatest]
      exact hmax
  · rintro ⟨hgood, hcounts, hnames⟩
    obtain ⟨p, hp⟩ : ∃ p, process file = some p :=
      Option.ne_none_iff_exists'.mp fun h => hgood ((process_none hfile).mp h)
    have hmax := process_greatest hfile hp
    rw [← prefixes_of_counts hcounts] at hmax
    have hgreatest := (hnames p).mp hmax
    refine ⟨p, hp, hgreatest, ?_, ?_⟩
    · intro σ table s hknown hsilent
      exact load_checked hfile hgood hmax.1 hgreatest.1 hknown hsilent s
    · intro cmds hne hrun hwritten
      exact Nat.le_antisymm hgreatest.1.1 (hgreatest.2 (length_mem_prefixes hfile hne hrun hwritten))

/-- A file that is one count. -/
theorem check_agrees_count : Agrees (ascii "*0\r\n") ↔
    ¬ HasBadCommand false (ascii "*0\r\n") ∧ CountsPositive (ascii "*0\r\n") ∧
      NamesAgree (ascii "*0\r\n") :=
  check_agrees_iff (ascii "*0\r\n") (by decide)

/-- The count is kept, and the loader refuses it. -/
theorem count_is_kept : ¬ Agrees (ascii "*0\r\n") := by
  rintro ⟨p, hp, hgreatest, -⟩
  have hlength : process (ascii "*0\r\n") = some 4 := by decide
  rw [hlength, Option.some.injEq] at hp
  have hline : NumberLine 42 0 (ascii "*0\r\n") := ⟨ascii "0", rfl, by decide, by decide, rfl, rfl⟩
  have hcount : Items [.empty 0] (ascii "*0\r\n" ++ []) := .cons (.empty (by decide) hline) .nil
  obtain ⟨items, text, rest, hitems, heq, hcommand, -, hlen⟩ := mem_prefixes.mp hgreatest.1
  have hsame : ascii "*0\r\n" ++ [] ++ [] = text ++ rest := heq
  have hpart := hcount.isPrefix hitems hsame (by rw [← hlen, ← hp]; decide)
  exact Bool.noConfusion (hcommand (.empty 0) (hpart.subset List.mem_cons_self))

end RedisCluster.Aof.Check
