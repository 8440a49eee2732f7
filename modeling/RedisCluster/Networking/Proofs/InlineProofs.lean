import RedisCluster.Networking.Request
import RedisCluster.Util.Proofs.StringProofs

/-!
# Proofs: lines in one buffer

The text of a line is found whatever ends it, but two bytes are taken for the terminator. Before each
turn the buffer starts at a line as long as no line with a lone LF has something behind it.
-/

namespace RedisCluster.Networking

open RedisCluster.Util RedisCluster.Lib

variable {σ : Type}

theorem Line.bytes_ne_nil (line : Line) : line.bytes ≠ [] := by
  unfold Line.bytes Line.terminator
  cases line.crlf <;> simp

theorem Line.head_ne_star (line : Line) (rest : Bytes) : (line.bytes ++ rest).head? ≠ some 42 := by
  have hstar := line.no_star
  unfold Line.bytes Line.terminator
  cases htext : line.text with
  | nil => cases line.crlf <;> simp [CR, LF]
  | cons b text =>
    rw [htext] at hstar
    exact hstar

theorem querylen_line (line : Line) (rest : Bytes) :
    ∃ newline, strchr LF (line.bytes ++ rest) = some newline ∧
      (if newline ≠ 0 ∧ (line.bytes ++ rest)[newline - 1]? = some CR then newline - 1 else newline) =
        line.text.length := by
  cases hcrlf : line.crlf with
  | true =>
    have hbytes : line.bytes ++ rest = (line.text ++ [CR]) ++ LF :: rest := by
      simp [Line.bytes, Line.terminator, hcrlf]
    have hlf : LF ∉ line.text ++ [CR] :=
      fun h => (List.mem_append.mp h).elim line.no_lf (by decide)
    have hnul : (0 : UInt8) ∉ line.text ++ [CR] :=
      fun h => (List.mem_append.mp h).elim line.no_nul (by decide)
    refine ⟨(line.text ++ [CR]).length, ?_, ?_⟩
    · rw [hbytes]
      exact strchr_append hlf hnul rest
    · have hcr : (line.bytes ++ rest)[line.text.length]? = some CR := by
        simp [Line.bytes, Line.terminator, hcrlf]
      rw [List.length_append, List.length_singleton, Nat.add_sub_cancel, hcr, if_pos ⟨by omega, rfl⟩]
  | false =>
    have hbytes : line.bytes ++ rest = line.text ++ LF :: rest := by
      simp [Line.bytes, Line.terminator, hcrlf]
    refine ⟨line.text.length, ?_, ?_⟩
    · rw [hbytes]
      exact strchr_append line.no_lf line.no_nul rest
    · refine if_neg ?_
      rintro ⟨hne, hcr⟩
      have hlast : line.text.getLast? = some CR := by
        rw [hbytes, List.getElem?_append_left (by omega)] at hcr
        rw [List.getLast?_eq_getElem?, hcr]
      exact line.no_cr hcrlf hlast

def Line.left (line : Line) (rest : Bytes) : Bytes := if line.crlf then rest else rest.drop 1

theorem Line.drop_left (line : Line) (rest : Bytes) :
    (line.bytes ++ rest).drop (line.text.length + 2) = line.left rest := by
  unfold Line.bytes Line.terminator Line.left
  rw [List.append_assoc, ← List.drop_drop, List.drop_left]
  cases line.crlf <;> simp

theorem Line.take_text (line : Line) (rest : Bytes) : (line.bytes ++ rest).take line.text.length = line.text := by
  unfold Line.bytes
  rw [List.append_assoc, List.take_left]

theorem processInlineBuffer_balanced {c : Client} {line : Line} {rest : Bytes}
    (hbuf : c.querybuf = line.bytes ++ rest) (h : line.Balanced) :
    processInlineBuffer c = (true, { c with querybuf := line.left rest, argv := line.args }) := by
  obtain ⟨newline, hfound, hlen⟩ := querylen_line line rest
  obtain ⟨argv, hargv⟩ := Option.isSome_iff_exists.mp h
  unfold processInlineBuffer Line.args
  rw [hbuf, hfound]
  dsimp only
  rw [hlen, line.take_text, hargv]
  dsimp only
  rw [line.drop_left, Option.getD_some]

theorem processInlineBuffer_unbalanced {c : Client} {line : Line} {rest : Bytes}
    (hbuf : c.querybuf = line.bytes ++ rest) (h : ¬ line.Balanced) :
    processInlineBuffer c =
      (false, protocolError c (ascii "Protocol error: unbalanced quotes in request") 0) := by
  obtain ⟨newline, hfound, hlen⟩ := querylen_line line rest
  have hargv : sdssplitargs line.text = none := by simpa [Line.Balanced] using h
  unfold processInlineBuffer
  rw [hbuf, hfound]
  dsimp only
  rw [hlen, line.take_text, hargv]

theorem requestType_line {c : Client} {line : Line} {rest : Bytes} (hbuf : c.querybuf = line.bytes ++ rest)
    (hready : c.reqtype ≠ some .multibulk) : requestType c = .inline := by
  unfold requestType
  cases htype : c.reqtype with
  | none =>
    dsimp only
    rw [hbuf, if_neg (line.head_ne_star rest)]
  | some t =>
    cases t with
    | inline => rfl
    | multibulk => exact absurd htype hready

theorem parseNext_balanced {s : Conn σ} {line : Line} {rest : Bytes} (hbuf : s.client.querybuf = line.bytes ++ rest)
    (hready : s.client.reqtype ≠ some .multibulk) (h : line.Balanced) :
    parseNext s = (true, { s with
      client := { s.client with reqtype := some .inline, querybuf := line.left rest, argv := line.args } }) := by
  unfold parseNext
  rw [requestType_line hbuf hready]
  dsimp only
  rw [parseRequest, processInlineBuffer_balanced (c := { s.client with reqtype := some .inline }) hbuf h]
  simp

theorem parseNext_unbalanced {s : Conn σ} {line : Line} {rest : Bytes} (hbuf : s.client.querybuf = line.bytes ++ rest)
    (hready : s.client.reqtype ≠ some .multibulk) (h : ¬ line.Balanced) :
    (parseNext s).1 = false ∧ (parseNext s).2.client.querybuf = s.client.querybuf ∧
      (parseNext s).2.client.errors =
        s.client.errors ++ [ascii "Protocol error: unbalanced quotes in request"] ∧
      (parseNext s).2.client.flags.close_after_reply = true := by
  unfold parseNext
  rw [requestType_line hbuf hready]
  dsimp only
  rw [parseRequest, processInlineBuffer_unbalanced (c := { s.client with reqtype := some .inline }) hbuf h]
  exact ⟨rfl, rfl, rfl, rfl⟩

theorem takesLine {s : Conn σ} {line : Line} {rest : Bytes} (hbuf : s.client.querybuf = line.bytes ++ rest)
    (hready : s.client.reqtype ≠ some .multibulk)
    (hlast : line.Balanced → line.crlf = false → rest = []) : TakesLine line rest s := by
  unfold TakesLine
  by_cases h : line.Balanced
  · rw [if_pos h, parseNext_balanced hbuf hready h]
    refine ⟨rfl, rfl, ?_⟩
    show line.left rest = rest
    unfold Line.left
    cases hcrlf : line.crlf with
    | true => rfl
    | false =>
      rw [hlast h hcrlf]
      rfl
  · rw [if_neg h]
    exact parseNext_unbalanced hbuf hready h

theorem reset_not_multibulk (c : Client) : (resetClient c).reqtype ≠ some .multibulk := by
  intro h
  cases h

theorem dispatch_fields (w : World σ) (s : Conn σ) (htype : s.client.reqtype ≠ some .multibulk) :
    (dispatch w s).client.querybuf = s.client.querybuf ∧
      (dispatch w s).client.reqtype ≠ some .multibulk ∧
      (dispatch w s).handed = s.handed ++ (if s.client.argv = [] then [] else [s.client.argv]) := by
  unfold dispatch
  by_cases hargv : s.client.argv = []
  · rw [if_pos hargv, if_pos hargv, List.append_nil]
    exact ⟨rfl, reset_not_multibulk _, rfl⟩
  · rw [if_neg hargv, if_neg hargv]
    dsimp only
    split
    · exact ⟨rfl, reset_not_multibulk _, rfl⟩
    · exact ⟨rfl, htype, rfl⟩

def turn (w : World σ) (t : Conn σ) : Option (Conn σ) :=
  if t.client.querybuf = [] then none
  else if Held w t then none
  else if (parseNext t).1 then some (dispatch w (parseNext t).2)
  else none

theorem afterTurns_succ (w : World σ) (n : Nat) (s : Conn σ) :
    afterTurns w (n + 1) s = (afterTurns w n s).bind (turn w) := by
  induction n generalizing s with
  | zero =>
    show afterTurns w 1 s = turn w s
    unfold afterTurns turn
    rfl
  | succ n ih =>
    rw [afterTurns]
    conv_rhs => rw [afterTurns]
    split
    · rfl
    · split
      · rfl
      · split
        · exact ih _
        · rfl

theorem processLoop_afterTurns (w : World σ) {n : Nat} {s t : Conn σ} (h : afterTurns w n s = some t) (fuel : Nat) :
    processLoop w (n + fuel) s = processLoop w fuel t := by
  induction n generalizing s with
  | zero =>
    cases h
    rw [Nat.zero_add]
  | succ n ih =>
    rw [afterTurns] at h
    rw [Nat.succ_add, processLoop]
    split at h
    · cases h
    · rename_i hbuf
      split at h
      · cases h
      · rename_i hheld
        split at h
        · rename_i hok
          rw [if_neg hbuf, if_neg hheld, if_pos hok]
          exact ih h
        · cases h

theorem turn_eq_some {w : World σ} {t t' : Conn σ} (h : turn w t = some t') :
    t.client.querybuf ≠ [] ∧ ¬ Held w t ∧ (parseNext t).1 = true ∧ t' = dispatch w (parseNext t).2 := by
  unfold turn at h
  split at h
  · cases h
  · rename_i hbuf
    split at h
    · cases h
    · rename_i hheld
      split at h
      · rename_i hok
        exact ⟨hbuf, hheld, hok, (Option.some.inj h).symm⟩
      · cases h

theorem linesBytes_drop {lines : List Line} {n : Nat} {line : Line} (h : lines[n]? = some line) :
    linesBytes (lines.drop n) = line.bytes ++ linesBytes (lines.drop (n + 1)) := by
  obtain ⟨hn, hget⟩ := List.getElem?_eq_some_iff.mp h
  rw [List.drop_eq_getElem_cons hn, hget]
  rfl

theorem take_succ_of_get {lines : List Line} {n : Nat} {line : Line} (h : lines[n]? = some line) :
    lines.take (n + 1) = lines.take n ++ [line] := by
  rw [List.take_add_one, h]
  rfl

theorem linesHanded_concat (lines : List Line) (line : Line) :
    linesHanded (lines ++ [line]) = linesHanded lines ++ (if line.args = [] then [] else [line.args]) := by
  unfold linesHanded
  rw [List.filterMap_append]
  split <;> simp [*]

theorem length_le_linesBytes (lines : List Line) : lines.length ≤ (linesBytes lines).length := by
  induction lines with
  | nil => exact Nat.le_refl _
  | cons line lines ih =>
    have hpos := List.length_pos_iff.mpr line.bytes_ne_nil
    have hcons : linesBytes (line :: lines) = line.bytes ++ linesBytes lines := rfl
    rw [hcons, List.length_append, List.length_cons]
    omega

/-- What holds before turn number `n` of an exact run. -/
structure AtLine (lines : List Line) (tail : Bytes) (s : Conn σ) (n : Nat) (t : Conn σ) : Prop where
  buffer : t.client.querybuf = linesBytes (lines.drop n) ++ tail
  handed : t.handed = s.handed ++ linesHanded (lines.take n)
  ready : t.client.reqtype ≠ some .multibulk
  balanced : ∀ x ∈ lines.take n, x.Balanced

theorem AtLine.line_first {lines : List Line} {tail : Bytes} {s t : Conn σ} {n : Nat} {line : Line}
    (h : AtLine lines tail s n t) (hline : lines[n]? = some line) :
    t.client.querybuf = line.bytes ++ (linesBytes (lines.drop (n + 1)) ++ tail) := by
  rw [h.buffer, linesBytes_drop hline, List.append_assoc]

theorem AtLine.balanced_succ {lines : List Line} {tail : Bytes} {s t : Conn σ} {n : Nat} {line : Line}
    (h : AtLine lines tail s n t) (hline : lines[n]? = some line) (hbalanced : line.Balanced) :
    ∀ x ∈ lines.take (n + 1), x.Balanced := by
  intro x hx
  rw [take_succ_of_get hline] at hx
  rcases List.mem_append.mp hx with hx | hx
  · exact h.balanced x hx
  · rw [List.mem_singleton.mp hx]
    exact hbalanced

theorem AtLine.takes {lines : List Line} {tail : Bytes} {s t : Conn σ} {n : Nat} {line : Line}
    (h : AtLine lines tail s n t) (hlast : LoneLfLast lines tail) (hline : lines[n]? = some line) :
    TakesLine line (linesBytes (lines.drop (n + 1)) ++ tail) t := by
  refine takesLine (h.line_first hline) h.ready fun hbalanced hlf => ?_
  exact hlast n line hline (h.balanced_succ hline hbalanced) hlf

theorem AtLine.turn {w : World σ} {lines : List Line} {tail : Bytes} {s t t' : Conn σ} {n : Nat} {line : Line}
    (h : AtLine lines tail s n t) (hline : lines[n]? = some line)
    (htakes : TakesLine line (linesBytes (lines.drop (n + 1)) ++ tail) t) (hturn : turn w t = some t') :
    AtLine lines tail s (n + 1) t' := by
  obtain ⟨-, -, hok, rfl⟩ := turn_eq_some hturn
  have hbuf := h.line_first hline
  have hbalanced : line.Balanced := by
    by_contra hno
    have hfalse := (parseNext_unbalanced hbuf h.ready hno).1
    rw [hok] at hfalse
    cases hfalse
  unfold TakesLine at htakes
  rw [if_pos hbalanced] at htakes
  obtain ⟨-, hargv, hrest⟩ := htakes
  have hparse := parseNext_balanced hbuf h.ready hbalanced
  have hinline : (parseNext t).2.client.reqtype ≠ some .multibulk := by
    rw [hparse]
    intro h
    cases h
  obtain ⟨hsame, hready, hhanded⟩ := dispatch_fields w (parseNext t).2 hinline
  have hbefore : (parseNext t).2.handed = t.handed := by rw [hparse]
  constructor
  · rw [hsame, hrest]
  · rw [hhanded, hargv, hbefore, h.handed, take_succ_of_get hline, linesHanded_concat, List.append_assoc]
  · exact hready
  · exact h.balanced_succ hline hbalanced

theorem afterTurns_atLine {w : World σ} {lines : List Line} {tail : Bytes} {s : Conn σ}
    (htype : s.client.reqtype = none) (hbuf : s.client.querybuf = linesBytes lines ++ tail)
    (hlast : LoneLfLast lines tail) (n : Nat) (hn : n ≤ lines.length) {t : Conn σ} (ht : afterTurns w n s = some t) :
    AtLine lines tail s n t := by
  induction n generalizing t with
  | zero =>
    cases ht
    refine ⟨hbuf, (List.append_nil _).symm, ?_, by simp⟩
    rw [htype]
    intro h
    cases h
  | succ n ih =>
    rw [afterTurns_succ] at ht
    obtain ⟨t₀, ht₀, hturn⟩ := Option.bind_eq_some_iff.mp ht
    have hat := ih (by omega) ht₀
    have hline : lines[n]? = some lines[n] := List.getElem?_eq_getElem (by omega)
    exact hat.turn hline (hat.takes hlast hline) hturn

theorem processInputBuffer_afterTurns {w : World σ} {s t : Conn σ} {n : Nat} (hn : n ≤ s.client.querybuf.length)
    (h : afterTurns w n s = some t) :
    processInputBuffer w s = { processLoop w (s.client.querybuf.length - n) t with processed := true } := by
  have hfuel : s.client.querybuf.length = n + (s.client.querybuf.length - n) := by omega
  unfold processInputBuffer
  conv_lhs => rw [hfuel]
  rw [processLoop_afterTurns w h]

theorem linesExact_of_loneLfLast {w : World σ} {lines : List Line} {tail : Bytes} {s : Conn σ}
    (htype : s.client.reqtype = none) (hbuf : s.client.querybuf = linesBytes lines ++ tail)
    (hlast : LoneLfLast lines tail) : LinesExact w lines tail s := by
  intro n t hn ht
  have hat := afterTurns_atLine htype hbuf hlast n hn ht
  have hlength := length_le_linesBytes lines
  have hfuel : n ≤ s.client.querybuf.length := by
    rw [hbuf, List.length_append]
    omega
  exact ⟨hat.buffer, hat.handed, processInputBuffer_afterTurns hfuel ht, fun line hline _ => hat.takes hlast hline⟩

def calm : World Unit where
  clientsArePaused := fun _ => false
  client_max_querybuf_len := 0
  processCommand := fun s flags _ => (true, flags, s)
  err_closes := fun _ _ _ h => by cases h

def filled (buf : Bytes) : Conn Unit :=
  { connect () [] with client := { createClient with querybuf := buf } }

theorem calm_dispatch (s : Conn Unit) : (dispatch calm s).client.flags = s.client.flags := by
  unfold dispatch
  split
  · rfl
  · rfl

theorem calm_not_held {t : Conn Unit} (h : t.client.flags = createClient.flags) : ¬ Held calm t := by
  unfold Held
  rw [h]
  rintro (⟨-, hpaused⟩ | hblocked | hclose)
  · exact Bool.false_ne_true hpaused
  · exact Bool.false_ne_true hblocked
  · exact Bool.false_ne_true hclose

theorem calm_turns {lines : List Line} {tail : Bytes}
    (hexact : LinesExact calm lines tail (filled (linesBytes lines ++ tail))) (n : Nat) (hn : n ≤ lines.length)
    (hbalanced : ∀ x ∈ lines.take n, x.Balanced) :
    ∃ t, afterTurns calm n (filled (linesBytes lines ++ tail)) = some t ∧
      AtLine lines tail (filled (linesBytes lines ++ tail)) n t ∧ t.client.flags = createClient.flags := by
  induction n with
  | zero =>
    refine ⟨_, rfl, ⟨rfl, rfl, ?_, by simp⟩, rfl⟩
    intro h
    cases h
  | succ n ih =>
    have hline : lines[n]? = some lines[n] := List.getElem?_eq_getElem (by omega)
    have htake := take_succ_of_get hline
    rw [htake] at hbalanced
    obtain ⟨t, ht, hat, hflags⟩ := ih (by omega) fun x hx => hbalanced x (List.mem_append_left _ hx)
    have hthis : lines[n].Balanced := hbalanced _ (List.mem_append_right _ (List.mem_singleton_self _))
    have hheld := calm_not_held hflags
    have htakes := (hexact n t (by omega) ht).takes _ hline hheld
    have hbuf := hat.line_first hline
    have hparse := parseNext_balanced hbuf hat.ready hthis
    have hne : t.client.querybuf ≠ [] := by
      rw [hbuf]
      intro hnil
      exact lines[n].bytes_ne_nil (List.append_eq_nil_iff.mp hnil).1
    have hturn : turn calm t = some (dispatch calm (parseNext t).2) := by
      unfold turn
      rw [if_neg hne, if_neg hheld, hparse, if_pos rfl]
    refine ⟨_, ?_, hat.turn hline htakes hturn, ?_⟩
    · rw [afterTurns_succ, ht, Option.bind_some, hturn]
    · rw [calm_dispatch, hparse]
      exact hflags

theorem loneLfLast_of_exact {lines : List Line} {tail : Bytes}
    (hexact : LinesExact calm lines tail (filled (linesBytes lines ++ tail))) : LoneLfLast lines tail := by
  intro n line hline hbalanced hlf
  obtain ⟨hn, -⟩ := List.getElem?_eq_some_iff.mp hline
  have htake := take_succ_of_get hline
  rw [htake] at hbalanced
  have hthis : line.Balanced := hbalanced _ (List.mem_append_right _ (List.mem_singleton_self _))
  obtain ⟨t, ht, hat, hflags⟩ :=
    calm_turns hexact n (by omega) fun x hx => hbalanced x (List.mem_append_left _ hx)
  have htakes := (hexact n t (by omega) ht).takes line hline (calm_not_held hflags)
  unfold TakesLine at htakes
  rw [if_pos hthis, parseNext_balanced (hat.line_first hline) hat.ready hthis] at htakes
  have hrest : line.left (linesBytes (lines.drop (n + 1)) ++ tail) = linesBytes (lines.drop (n + 1)) ++ tail :=
    htakes.2.2
  unfold Line.left at hrest
  rw [hlf, if_neg Bool.false_ne_true] at hrest
  have hlength := congrArg List.length hrest
  rw [List.length_drop] at hlength
  exact List.length_eq_zero_iff.mp (by omega)

/-- Every line is taken exactly, whatever the commands do, if and only if no line with a lone LF that is
parsed has anything behind it. -/
theorem lines_exact_iff (lines : List Line) (tail : Bytes) :
    (∀ (σ : Type) (w : World σ) (s : Conn σ), s.client.reqtype = none →
      s.client.querybuf = linesBytes lines ++ tail → LinesExact w lines tail s) ↔ LoneLfLast lines tail := by
  constructor
  · intro hall
    exact loneLfLast_of_exact (hall Unit calm _ rfl rfl)
  · intro hlast σ w s htype hbuf
    exact linesExact_of_loneLfLast htype hbuf hlast

def pingLf : Line where
  text := ascii "PING"
  crlf := false
  no_nul := by decide
  no_lf := by decide
  no_star := by decide
  no_cr := by decide

/-- Of two such lines in one buffer, the second loses its first byte. -/
theorem pingPing_unexact :
    ¬ ∀ (σ : Type) (w : World σ) (s : Conn σ), s.client.reqtype = none →
      s.client.querybuf = linesBytes [pingLf, pingLf] ++ [] → LinesExact w [pingLf, pingLf] [] s := by
  intro hall
  have hlast := loneLfLast_of_exact (hall Unit calm _ rfl rfl) 0 pingLf rfl (by decide) rfl
  exact absurd hlast (by decide)

end RedisCluster.Networking
