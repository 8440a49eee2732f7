import RedisCluster.Util.Proofs.StringProofs
import RedisCluster.Networking.Request

/-!
# Requests: proofs

One call of `processMultibulkBuffer` on a buffer that holds the front of an encoded command: it takes
every complete argument, and keeps what is left of the first incomplete one. It refuses the buffer
only where its end lies in a length line and it is overlong.
-/

namespace RedisCluster.Networking

open RedisCluster.Util

/-! ## Encodings -/

@[simp] theorem encodeArgs_nil : encodeArgs [] = [] := rfl

@[simp] theorem encodeArgs_cons (arg : Bytes) (args : List Bytes) :
    encodeArgs (arg :: args) = encodeArg arg ++ encodeArgs args := rfl

@[simp] theorem encodeArgs_append (args rem : List Bytes) :
    encodeArgs (args ++ rem) = encodeArgs args ++ encodeArgs rem := List.flatMap_append

@[simp] theorem encodeAll_nil : encodeAll [] = [] := rfl

@[simp] theorem encodeAll_cons (cmd : List Bytes) (cmds : List (List Bytes)) :
    encodeAll (cmd :: cmds) = encode cmd ++ encodeAll cmds := rfl

@[simp] theorem encodeAll_append (cmds later : List (List Bytes)) :
    encodeAll (cmds ++ later) = encodeAll cmds ++ encodeAll later := List.flatMap_append

theorem notMem_line {first c : UInt8} (hfirst : first ≠ c) (hc : isDigit c = false) (n : Nat) :
    c ∉ first :: decimal n := by
  intro hmem
  rcases List.mem_cons.mp hmem with h | h
  · exact hfirst h.symm
  · exact notMem_decimal hc n h

theorem strchr_line {first : UInt8} (hcr : first ≠ CR) (h0 : first ≠ 0) (n : Nat) (rest : Bytes) :
    strchr CR ((first :: decimal n) ++ CR :: rest) = some (first :: decimal n).length :=
  strchr_append (notMem_line hcr (by decide) n) (notMem_line h0 (by decide) n) rest

theorem append_split {α : Type} {xs ys as bs : List α} (h : xs ++ ys = as ++ bs) :
    (∃ r, xs = as ++ r ∧ r ++ ys = bs) ∨ (∃ d, d ≠ [] ∧ as = xs ++ d ∧ ys = d ++ bs) := by
  rcases List.append_eq_append_iff.mp h with ⟨d, hd, hys⟩ | ⟨r, hr, hbs⟩
  · by_cases hnil : d = []
    · subst hnil
      exact Or.inl ⟨[], by simpa using hd.symm, by simpa using hys⟩
    · exact Or.inr ⟨d, hnil, hd, hys⟩
  · exact Or.inl ⟨r, hr, hbs.symm⟩

theorem line_prefix {first : UInt8} {n : Nat} (hfirst : first ≠ CR) {t d : Bytes} (hd : d ≠ [])
    (h : first :: decimal n ++ crlf = t ++ d) : CR ∉ t ∨ t = first :: decimal n ++ [CR] := by
  have hno : CR ∉ first :: decimal n := notMem_line hfirst (by decide) n
  rcases append_split h.symm with ⟨r, hr, hrd⟩ | ⟨e, -, he, -⟩
  · cases r with
    | nil =>
      rw [hr, List.append_nil]
      exact Or.inl hno
    | cons b r =>
      rw [List.cons_append, crlf, List.cons.injEq] at hrd
      obtain ⟨hb, hrd⟩ := hrd
      cases r with
      | nil =>
        rw [hr, hb]
        exact Or.inr rfl
      | cons b' r =>
        rw [List.cons_append, List.cons.injEq] at hrd
        exact absurd (List.append_eq_nil_iff.mp hrd.2).2 hd
  · refine Or.inl fun hmem => hno ?_
    rw [he]
    exact List.mem_append_left e hmem

/-! ## The length of an argument -/

theorem readBulkLen_line {c : Client} {pos len : Nat} {u : Bytes} (hbulk : c.bulklen = none)
    (hlen : len ≤ 512 * 1024 * 1024) (hpos : pos ≤ c.querybuf.length)
    (hbuf : c.querybuf.drop pos = bulkLine len ++ u) :
    ∃ q, readBulkLen c pos =
        .known { c with querybuf := q, bulklen := some len } (posStart pos len) len ∧
      q.drop (posStart pos len) = u ∧ posStart pos len ≤ q.length := by
  have hline : bulkLine len ++ u = (36 :: decimal len) ++ CR :: (LF :: u) := by
    simp [bulkLine, crlf]
  have hchr : strchr CR (c.querybuf.drop pos) = some (36 :: decimal len).length := by
    rw [hbuf, hline]
    exact strchr_line (by decide) (by decide) len (LF :: u)
  have hsize : c.querybuf.length = pos + (bulkLine len).length + u.length := by
    have h1 := congrArg List.length hbuf
    rw [List.length_drop, List.length_append] at h1
    omega
  have hlinelen : (bulkLine len).length = (36 :: decimal len).length + 2 := by
    simp [bulkLine, crlf]
  have hfirst : c.querybuf[pos]? = some 36 := by
    have h1 : (c.querybuf.drop pos)[0]? = some 36 := by rw [hbuf, hline]; rfl
    rwa [List.getElem?_drop, Nat.add_zero] at h1
  have hdigits : ((c.querybuf.drop pos).take (36 :: decimal len).length).drop 1 = decimal len := by
    rw [hbuf, hline, List.take_left']
    · rfl
    · rfl
  have hread : string2ll (decimal len) = some (len : Int) := by
    refine string2ll_decimal (Nat.le_trans hlen ?_)
    unfold LLONG_MAX
    omega
  have hdrop : c.querybuf.drop (pos + (36 :: decimal len).length + 2) = u := by
    rw [Nat.add_assoc, ← hlinelen, ← List.drop_drop, hbuf, List.drop_left']
    rfl
  have hwait : ¬ c.querybuf.length < pos + (36 :: decimal len).length + 2 := by omega
  have hrange : ¬ ((len : Int) < 0 ∨ 512 * 1024 * 1024 < (len : Int)) := by omega
  have hnat : ((len : Nat) : Int).toNat = len := Int.toNat_natCast len
  have hpos' : pos + (bulkLine len).length = pos + (36 :: decimal len).length + 2 := by omega
  unfold readBulkLen
  rw [hbulk]
  simp only [hchr, if_neg hwait, hfirst, ne_eq, not_true_eq_false, if_false, hdigits, hread,
    if_neg hrange, hnat]
  by_cases hbig : REDIS_MBULK_BIG_ARG ≤ len
  · refine ⟨u, ?_, ?_, ?_⟩
    · rw [if_pos hbig, hdrop, posStart, if_pos hbig]
    · rw [posStart, if_pos hbig, List.drop_zero]
    · rw [posStart, if_pos hbig]
      exact Nat.zero_le _
  · refine ⟨c.querybuf, ?_, ?_, ?_⟩
    · rw [if_neg hbig, posStart, if_neg hbig, hpos']
    · rw [posStart, if_neg hbig, hpos']
      exact hdrop
    · rw [posStart, if_neg hbig]
      omega

theorem readBulkLen_none {c : Client} {pos : Nat} (hbulk : c.bulklen = none)
    (hno : CR ∉ c.querybuf.drop pos) :
    readBulkLen c pos = if REDIS_INLINE_MAX_SIZE < c.querybuf.length then
      .refused (protocolError c (ascii "Protocol error: too big bulk count string") 0) else .wait := by
  unfold readBulkLen
  rw [hbulk]
  simp only [strchr_eq_none hno]

theorem readBulkLen_cr {c : Client} {pos len : Nat} (hbulk : c.bulklen = none)
    (hbuf : c.querybuf.drop pos = 36 :: decimal len ++ [CR]) : readBulkLen c pos = .wait := by
  have hchr : strchr CR (c.querybuf.drop pos) = some (36 :: decimal len).length := by
    rw [hbuf]
    exact strchr_line (by decide) (by decide) len []
  have hsize : c.querybuf.length < pos + (36 :: decimal len).length + 2 := by
    have h1 := congrArg List.length hbuf
    rw [List.length_drop, List.length_append] at h1
    simp only [List.length_cons, List.length_nil] at h1 ⊢
    omega
  unfold readBulkLen
  rw [hbulk]
  simp only [hchr, if_pos hsize]

/-! ## The payload of an argument -/

theorem takeBulk_complete {c : Client} {pos : Nat} {arg r : Bytes} (hpos : pos ≤ c.querybuf.length)
    (hbuf : c.querybuf.drop pos = arg ++ crlf ++ r) :
    ∃ q, takeBulk c pos arg.length =
        ({ c with argv := c.argv ++ [arg], querybuf := q, bulklen := none }, posTaken pos arg r) ∧
      q.drop (posTaken pos arg r) = r ∧ posTaken pos arg r ≤ q.length := by
  have hsize : c.querybuf.length = pos + arg.length + 2 + r.length := by
    have h1 := congrArg List.length hbuf
    simp only [List.length_drop, List.length_append, crlf, List.length_cons, List.length_nil] at h1
    omega
  have hwhole : c.querybuf.length = arg.length + 2 ↔ pos = 0 ∧ r = [] := by
    rw [← List.length_eq_zero_iff]
    omega
  have hcond : (pos = 0 ∧ REDIS_MBULK_BIG_ARG ≤ arg.length ∧ c.querybuf.length = arg.length + 2) ↔
      (pos = 0 ∧ REDIS_MBULK_BIG_ARG ≤ arg.length ∧ r = []) := by
    rw [hwhole]
    tauto
  have hdrop : c.querybuf.drop (pos + arg.length + 2) = r := by
    rw [Nat.add_assoc, ← List.drop_drop, hbuf, List.drop_left']
    simp [crlf]
  unfold takeBulk posTaken
  by_cases h : pos = 0 ∧ REDIS_MBULK_BIG_ARG ≤ arg.length ∧ r = []
  · have harg : c.querybuf.take arg.length = arg := by
      rw [h.1, List.drop_zero] at hbuf
      rw [hbuf, List.append_assoc, List.take_left']
      rfl
    refine ⟨[], ?_, ?_, ?_⟩
    · rw [if_pos (hcond.mpr h), if_pos h, harg]
    · rw [if_pos h, h.2.2]
      rfl
    · rw [if_pos h]
      exact Nat.le_refl 0
  · have harg : (c.querybuf.drop pos).take arg.length = arg := by
      rw [hbuf, List.append_assoc, List.take_left']
      rfl
    refine ⟨c.querybuf, ?_, ?_, ?_⟩
    · rw [if_neg (fun h' => h (hcond.mp h')), if_neg h, harg]
    · rw [if_neg h]
      exact hdrop
    · rw [if_neg h]
      omega

/-! ## The loop over the arguments -/

def toCome (bulklen : Option Nat) (rem : List Bytes) : Bytes :=
  match bulklen, rem with
  | none, rem => encodeArgs rem
  | some _, [] => []
  | some _, arg :: args => arg ++ crlf ++ encodeArgs args

/-- The buffer and what follows it are the rest of the arguments `rem` and then `rest`. -/
structure AtArgument (bulklen : Option Nat) (rem : List Bytes) (buf future rest : Bytes) : Prop where
  known : bulklen = none ∨ bulklen = rem.head?.map List.length
  bytes : buf ++ future = toCome bulklen rem ++ rest

def Stops (c : Client) (args rem : List Bytes) (future rest : Bytes) (result : Bool × Client) : Prop :=
  ∃ bulklen buf,
    result = (false, { c with
      argv := c.argv ++ args, multibulklen := rem.length, bulklen := bulklen, querybuf := buf }) ∧
    AtArgument bulklen rem buf future rest ∧ buf.length < (toCome bulklen rem).length

def Completes (c : Client) (args : List Bytes) (future rest : Bytes) (result : Bool × Client) : Prop :=
  ∃ buf, result = (true, { c with
      argv := c.argv ++ args, multibulklen := 0, bulklen := none, querybuf := buf }) ∧
    buf ++ future = rest

def Refuses (c : Client) (result : Bool × Client) : Prop :=
  result.1 = false ∧
    result.2.errors = c.errors ++ [ascii "Protocol error: too big bulk count string"]

def LoopResult (c : Client) (pos : Nat) (rem : List Bytes) (future rest : Bytes)
    (result : Bool × Client) : Prop :=
  Completes c rem future rest result ∨
    (∃ args rem', rem = args ++ rem' ∧ rem' ≠ [] ∧ Stops c args rem' future rest result) ∨
    (∃ args tail, c.querybuf.drop pos = encodeArgs args ++ tail ∧
      TailTooLong rem.length pos args tail ∧ Refuses c result)

theorem LoopResult.cons {c c' : Client} {pos pos' : Nat} {arg : Bytes} {rem : List Bytes}
    {future rest : Bytes} {result : Bool × Client} {r : Bytes} (q : Bytes)
    (hc : c' = { c with argv := c.argv ++ [arg], querybuf := q, bulklen := none })
    (hbuf : c.querybuf.drop pos = encodeArg arg ++ r) (hr : c'.querybuf.drop pos' = r)
    (hpos : pos' = posTaken (posStart pos arg.length) arg r)
    (h : LoopResult c' pos' rem future rest result) :
    LoopResult c pos (arg :: rem) future rest result := by
  subst hc
  rcases h with ⟨buf, hres, hbytes⟩ | ⟨args, rem', hrem, hne, bulklen, buf, hres, hat, hshort⟩ |
    ⟨args, tail, htail, ⟨hlt, hno, hlong⟩, hrefuse⟩
  · refine Or.inl ⟨buf, ?_, hbytes⟩
    rw [hres, List.append_assoc, List.singleton_append]
  · refine Or.inr (Or.inl ⟨arg :: args, rem', by rw [hrem, List.cons_append], hne, bulklen, buf, ?_,
      hat, hshort⟩)
    rw [hres, List.append_assoc, List.singleton_append]
  · rw [hr] at htail
    refine Or.inr (Or.inr ⟨arg :: args, tail, ?_, ⟨Nat.succ_lt_succ hlt, hno, ?_⟩, hrefuse⟩)
    · rw [hbuf, htail, encodeArgs_cons, List.append_assoc]
    · rw [posAfterAll, ← htail, ← hpos]
      exact hlong

theorem multibulkLoop_spec (rem : List Bytes) (hrem : ∀ arg ∈ rem, arg.length ≤ 512 * 1024 * 1024)
    (c : Client) (pos : Nat) (hbulk : c.bulklen = none) (hpos : pos ≤ c.querybuf.length)
    (future rest : Bytes) (h : c.querybuf.drop pos ++ future = encodeArgs rem ++ rest) :
    LoopResult c pos rem future rest (multibulkLoop rem.length c pos) := by
  induction rem generalizing c pos with
  | nil =>
    refine Or.inl ⟨c.querybuf.drop pos, ?_, h⟩
    rw [List.length_nil, multibulkLoop, List.append_nil, ← hbulk]
  | cons arg rem ih =>
    have harg : arg.length ≤ 512 * 1024 * 1024 := hrem arg List.mem_cons_self
    have hsplit : c.querybuf.drop pos ++ future =
        bulkLine arg.length ++ (arg ++ crlf ++ (encodeArgs rem ++ rest)) := by
      rw [h, encodeArgs_cons, encodeArg]
      simp only [List.append_assoc]
    rcases append_split hsplit with ⟨u, hu, hufuture⟩ | ⟨d, hd, hline, hfuture⟩
    · obtain ⟨q, hread, hq, hqpos⟩ := readBulkLen_line hbulk harg hpos hu
      rw [List.length_cons, multibulkLoop, hread]
      rcases append_split hufuture with ⟨r, hr, hrfuture⟩ | ⟨d, hd, hpayload, hfuture⟩
      · -- The argument is complete.
        have henough : ¬ q.length - posStart pos arg.length < arg.length + 2 := by
          have h1 := congrArg List.length hq
          rw [hr] at h1
          simp only [List.length_drop, List.length_append, crlf, List.length_cons,
            List.length_nil] at h1
          omega
        obtain ⟨q', htake, hq', hqpos'⟩ := takeBulk_complete
          (c := { c with querybuf := q, bulklen := some arg.length }) hqpos (hq.trans hr)
        simp only [if_neg henough, htake]
        have hnext := ih (fun a ha => hrem a (List.mem_cons_of_mem arg ha))
          { c with argv := c.argv ++ [arg], querybuf := q', bulklen := none }
          (posTaken (posStart pos arg.length) arg r) rfl hqpos' (by rw [hq', hrfuture])
        refine LoopResult.cons q' rfl ?_ hq' rfl hnext
        rw [hu, hr, encodeArg]
        simp only [List.append_assoc]
      · -- The payload is not complete.
        have hlen : u.length < arg.length + 2 := by
          have h1 := congrArg List.length hpayload
          have h2 : 0 < d.length := List.length_pos_iff.mpr hd
          simp only [List.length_append, crlf, List.length_cons, List.length_nil] at h1
          omega
        have hshort : q.length - posStart pos arg.length < arg.length + 2 := by
          rw [← List.length_drop, hq]
          exact hlen
        simp only [if_pos hshort]
        refine Or.inr (Or.inl ⟨[], arg :: rem, rfl, List.cons_ne_nil _ _, some arg.length, u, ?_,
          ⟨Or.inr rfl, ?_⟩, ?_⟩)
        · rw [hq, List.append_nil, List.length_cons]
        · rw [toCome, hufuture]
          simp only [List.append_assoc]
        · rw [toCome]
          simp only [List.length_append, crlf, List.length_cons, List.length_nil]
          omega
    · -- The length line is not complete.
      have hshort : (c.querybuf.drop pos).length < (encodeArgs (arg :: rem)).length := by
        have h1 := congrArg List.length hline
        have h2 : 0 < d.length := List.length_pos_iff.mpr hd
        rw [List.length_append] at h1
        rw [encodeArgs_cons, encodeArg]
        simp only [List.length_append]
        omega
      have hwaits : readBulkLen c pos = .wait →
          LoopResult c pos (arg :: rem) future rest (multibulkLoop (arg :: rem).length c pos) := by
        intro hwait
        refine Or.inr (Or.inl ⟨[], arg :: rem, rfl, List.cons_ne_nil _ _, none, c.querybuf.drop pos, ?_,
          ⟨Or.inl rfl, ?_⟩, hshort⟩)
        · rw [List.length_cons, multibulkLoop, hwait, List.append_nil, ← hbulk]
        · exact h
      rcases line_prefix (by decide) hd hline with hno | hcr
      · by_cases hlong : REDIS_INLINE_MAX_SIZE < c.querybuf.length
        · refine Or.inr (Or.inr ⟨[], c.querybuf.drop pos, rfl, ⟨?_, hno, ?_⟩, ?_⟩)
          · exact Nat.succ_pos _
          · rw [posAfterAll, List.length_drop]
            omega
          · rw [List.length_cons, multibulkLoop, readBulkLen_none hbulk hno, if_pos hlong]
            exact ⟨rfl, rfl⟩
        · exact hwaits (by rw [readBulkLen_none hbulk hno, if_neg hlong])
      · exact hwaits (readBulkLen_cr hbulk hcr)

theorem multibulkLoop_refuses (args : List Bytes)
    (hargs : ∀ arg ∈ args, arg.length ≤ 512 * 1024 * 1024) (c : Client) (pos n : Nat) (tail : Bytes)
    (hbulk : c.bulklen = none) (hpos : pos ≤ c.querybuf.length)
    (hbuf : c.querybuf.drop pos = encodeArgs args ++ tail) (h : TailTooLong n pos args tail) :
    Refuses c (multibulkLoop n c pos) := by
  obtain ⟨hlt, hno, hlong⟩ := h
  obtain ⟨n, rfl⟩ : ∃ m, n = m + 1 := Nat.exists_eq_succ_of_ne_zero (by omega)
  induction args generalizing c pos n with
  | nil =>
    have hcr : CR ∉ c.querybuf.drop pos := by
      rw [hbuf]
      exact hno
    have hsize : REDIS_INLINE_MAX_SIZE < c.querybuf.length := by
      have h1 := congrArg List.length hbuf
      simp only [List.length_drop, encodeArgs_nil, List.nil_append] at h1
      simp only [posAfterAll] at hlong
      omega
    rw [multibulkLoop, readBulkLen_none hbulk hcr, if_pos hsize]
    exact ⟨rfl, rfl⟩
  | cons arg args ih =>
    have hline : c.querybuf.drop pos =
        bulkLine arg.length ++ (arg ++ crlf ++ (encodeArgs args ++ tail)) := by
      rw [hbuf, encodeArgs_cons, encodeArg]
      simp only [List.append_assoc]
    obtain ⟨q, hread, hq, hqpos⟩ := readBulkLen_line hbulk (hargs arg List.mem_cons_self) hpos hline
    have henough : ¬ q.length - posStart pos arg.length < arg.length + 2 := by
      have h1 := congrArg List.length hq
      simp only [List.length_drop, List.length_append, crlf, List.length_cons, List.length_nil] at h1
      omega
    obtain ⟨q', htake, hq', hqpos'⟩ := takeBulk_complete
      (c := { c with querybuf := q, bulklen := some arg.length }) hqpos hq
    obtain ⟨n, rfl⟩ : ∃ m, n = m + 1 := by
      refine Nat.exists_eq_succ_of_ne_zero (fun h0 => ?_)
      rw [h0, List.length_cons] at hlt
      omega
    rw [multibulkLoop, hread]
    simp only [if_neg henough, htake]
    exact ih (fun a ha => hargs a (List.mem_cons_of_mem arg ha))
      { c with argv := c.argv ++ [arg], querybuf := q', bulklen := none } _ rfl hqpos' hq' hlong n
      (Nat.lt_of_succ_lt_succ hlt)

/-! ## One parse -/

/-- The client is at the front of the command `cmd`, or between two of its arguments, and `future` and
then `rest` follow the buffer. -/
def InCommand (c : Client) (cmd : List Bytes) (future rest : Bytes) : Prop :=
  (c.multibulklen = 0 ∧ c.argv = [] ∧ c.bulklen = none ∧ c.querybuf ++ future = encode cmd ++ rest) ∨
  (∃ rem, rem ≠ [] ∧ cmd = c.argv ++ rem ∧ c.multibulklen = rem.length ∧
    AtArgument c.bulklen rem c.querybuf future rest)

theorem bulkLine_toCome {bulklen : Option Nat} {rem : List Bytes}
    (h : bulklen = none ∨ bulklen = rem.head?.map List.length) :
    (bulklen.map bulkLine).getD [] ++ toCome bulklen rem = encodeArgs rem := by
  cases bulklen with
  | none => rfl
  | some len =>
    cases rem with
    | nil =>
      rcases h with h | h
      · cases h
      · cases h
    | cons arg rem =>
      rcases h with h | h
      · cases h
      · have hlen : len = arg.length := Option.some.inj h
        subst hlen
        simp only [Option.map_some, Option.getD_some, toCome, encodeArgs_cons, encodeArg,
          List.append_assoc]

theorem InCommand.stream {c : Client} {cmd : List Bytes} {future rest : Bytes}
    (h : InCommand c cmd future rest) :
    parsedPart c ++ c.querybuf ++ future = encode cmd ++ rest := by
  rcases h with ⟨hzero, -, -, hbytes⟩ | ⟨rem, hne, hcmd, hlen, hat⟩
  · rw [parsedPart, if_pos hzero, List.nil_append]
    exact hbytes
  · have hpos : c.multibulklen ≠ 0 := by
      rw [hlen]
      exact fun h => hne (List.length_eq_zero_iff.mp h)
    have hcount : c.argv.length + c.multibulklen = cmd.length := by
      rw [hcmd, List.length_append, hlen]
    rw [parsedPart, if_neg hpos, hcount, List.append_assoc _ c.querybuf, hat.bytes, encode]
    have hargs : encodeArgs cmd = encodeArgs c.argv ++
        ((c.bulklen.map bulkLine).getD [] ++ toCome c.bulklen rem) := by
      rw [bulkLine_toCome hat.known, hcmd, encodeArgs_append]
    rw [hargs]
    simp only [List.append_assoc]

def Short (c : Client) (cmd : List Bytes) : Prop :=
  (parsedPart c ++ c.querybuf).length < (encode cmd).length

theorem short_of_toCome {c : Client} {cmd rem : List Bytes} (hne : rem ≠ [])
    (hcmd : cmd = c.argv ++ rem) (hlen : c.multibulklen = rem.length)
    (hknown : c.bulklen = none ∨ c.bulklen = rem.head?.map List.length)
    (hshort : c.querybuf.length < (toCome c.bulklen rem).length) : Short c cmd := by
  have hin : InCommand { c with querybuf := toCome c.bulklen rem } cmd [] [] :=
    Or.inr ⟨rem, hne, hcmd, hlen, ⟨hknown, rfl⟩⟩
  have hstream := hin.stream
  have h1 := congrArg List.length hstream
  have hsame : parsedPart { c with querybuf := toCome c.bulklen rem } = parsedPart c := rfl
  rw [hsame] at h1
  unfold Short
  simp only [List.length_append, List.length_nil] at h1 ⊢
  omega

/-- What a parse does: the command is complete, or it is not and the parser stops inside it, or the
buffer is overlong and the parser refuses it. -/
def ParseResult (c : Client) (cmd : List Bytes) (future rest : Bytes) (result : Bool × Client) : Prop :=
  (∃ buf, result = (true, { c with
      argv := cmd, multibulklen := 0, bulklen := none, querybuf := buf }) ∧ buf ++ future = rest) ∨
  (∃ c', result = (false, c') ∧ InCommand c' cmd future rest ∧ Short c' cmd ∧
    c'.errors = c.errors ∧ c'.flags = c.flags ∧ c'.reqtype = c.reqtype) ∨
  (Overlong c ∧ Refuses c result)

theorem LoopResult.parse {c c' : Client} {pos : Nat} {cmd args rem : List Bytes} {q : Bytes}
    {future rest : Bytes} {result : Bool × Client}
    (hc : c' = { c with argv := args, querybuf := q, bulklen := none }) (hcmd : cmd = args ++ rem)
    (hlong : ∀ args tail, c'.querybuf.drop pos = encodeArgs args ++ tail →
      TailTooLong rem.length pos args tail → Overlong c)
    (h : LoopResult c' pos rem future rest result) : ParseResult c cmd future rest result := by
  subst hc
  rcases h with ⟨buf, hres, hbytes⟩ | ⟨args', rem', hrem, hne, bulklen, buf, hres, hat, hshort⟩ |
    ⟨args', tail, htail, htoo, hrefuse⟩
  · exact Or.inl ⟨buf, by rw [hres, hcmd], hbytes⟩
  · have hcmd' : cmd = (args ++ args') ++ rem' := by rw [hcmd, hrem, List.append_assoc]
    refine Or.inr (Or.inl ⟨_, hres, Or.inr ⟨rem', hne, hcmd', rfl, hat⟩, ?_, rfl, rfl, rfl⟩)
    exact short_of_toCome hne hcmd' rfl hat.known hshort
  · exact Or.inr (Or.inr ⟨hlong args' tail htail htoo, hrefuse⟩)

theorem processMultibulkBuffer_inside {c : Client} {cmd rem : List Bytes} {future rest : Bytes}
    (hlim : ∀ arg ∈ cmd, arg.length ≤ 512 * 1024 * 1024) (hne : rem ≠ [])
    (hcmd : cmd = c.argv ++ rem) (hlen : c.multibulklen = rem.length)
    (hat : AtArgument c.bulklen rem c.querybuf future rest) :
    ParseResult c cmd future rest (processMultibulkBuffer c) := by
  have hrem : ∀ arg ∈ rem, arg.length ≤ 512 * 1024 * 1024 := fun arg harg =>
    hlim arg (hcmd ▸ List.mem_append_right c.argv harg)
  have hpos : c.multibulklen ≠ 0 := by
    rw [hlen]
    exact fun h => hne (List.length_eq_zero_iff.mp h)
  rw [processMultibulkBuffer, if_neg hpos, hlen]
  cases hbulk : c.bulklen with
  | none =>
    have hbytes := hat.bytes
    rw [hbulk] at hbytes
    have hsame : c = { c with argv := c.argv, querybuf := c.querybuf, bulklen := none } := by
      rw [← hbulk]
    refine LoopResult.parse hsame hcmd ?_
      (multibulkLoop_spec rem hrem c 0 hbulk (Nat.zero_le _) future rest hbytes)
    intro args tail htail htoo
    rw [List.drop_zero] at htail
    rw [← hlen] at htoo
    exact ⟨args, tail, Or.inr (Or.inl ⟨hbulk, htail, htoo⟩)⟩
  | some len =>
    obtain ⟨arg, rem, rfl⟩ := List.exists_cons_of_ne_nil hne
    have hsome : some len = some arg.length := by
      rcases hat.known with h | h
      · rw [hbulk] at h
        cases h
      · rw [hbulk] at h
        exact h
    have hlenarg : len = arg.length := Option.some.inj hsome
    subst hlenarg
    have hbytes : c.querybuf ++ future = arg ++ crlf ++ (encodeArgs rem ++ rest) := by
      have h1 := hat.bytes
      rw [hbulk, toCome] at h1
      rw [h1]
      simp only [List.append_assoc]
    have hread : readBulkLen c 0 = .known c 0 arg.length := by
      rw [readBulkLen, hbulk]
    rw [List.length_cons, multibulkLoop, hread]
    rcases append_split hbytes with ⟨r, hr, hrfuture⟩ | ⟨d, hd, hpayload, hfuture⟩
    · -- The argument whose length was known is complete.
      have henough : ¬ c.querybuf.length - 0 < arg.length + 2 := by
        have h1 := congrArg List.length hr
        simp only [List.length_append, crlf, List.length_cons, List.length_nil] at h1
        omega
      obtain ⟨q, htake, hq, hqpos⟩ := takeBulk_complete (c := c) (Nat.zero_le _) hr
      simp only [if_neg henough, htake]
      have hnext := multibulkLoop_spec rem (fun a ha => hrem a (List.mem_cons_of_mem arg ha))
        { c with argv := c.argv ++ [arg], querybuf := q, bulklen := none } (posTaken 0 arg r) rfl hqpos
        future rest (by rw [hq, hrfuture])
      have hcmd' : cmd = (c.argv ++ [arg]) ++ rem := by
        rw [hcmd, List.append_assoc, List.singleton_append]
      refine LoopResult.parse rfl hcmd' (fun args tail htail htoo => ?_) hnext
      have hr' : r = encodeArgs args ++ tail := hq.symm.trans htail
      refine ⟨args, tail, Or.inr (Or.inr ⟨arg, hbulk, ?_, ?_⟩)⟩
      · rw [hr, hr', ← List.append_assoc]
      · rw [hlen, ← hr']
        exact htoo
    · -- The payload is not complete.
      have hshort : c.querybuf.length - 0 < arg.length + 2 := by
        have h1 := congrArg List.length hpayload
        have h2 : 0 < d.length := List.length_pos_iff.mpr hd
        simp only [List.length_append, crlf, List.length_cons, List.length_nil] at h1
        omega
      have hbuf : c.querybuf.length < (toCome (some arg.length) (arg :: rem)).length := by
        simp only [toCome, List.length_append, crlf, List.length_cons, List.length_nil]
        omega
      simp only [if_pos hshort]
      refine Or.inr (Or.inl ⟨_, rfl, Or.inr ⟨arg :: rem, hne, hcmd, rfl, ?_⟩, ?_, rfl, rfl, rfl⟩)
      · exact ⟨Or.inr hbulk, by rw [List.drop_zero]; exact hat.bytes⟩
      · refine short_of_toCome hne hcmd rfl (Or.inr hbulk) ?_
        rw [List.drop_zero, hbulk]
        exact hbuf

theorem length_countLine_le {n : Nat} (hn : n ≤ 1024 * 1024) : (countLine n).length ≤ 10 := by
  have h : (decimal n).length ≤ 7 := length_decimal_le (by decide) (by omega)
  simp only [countLine, crlf, List.length_append, List.length_cons, List.length_nil]
  omega

theorem processMultibulkBuffer_countLine {c : Client} {n : Nat} {u : Bytes} (hn : n ≠ 0)
    (hcount : n ≤ 1024 * 1024) (hzero : c.multibulklen = 0) (hbuf : c.querybuf = countLine n ++ u) :
    processMultibulkBuffer c = multibulkLoop n c (countLine n).length := by
  have hlinelen : (countLine n).length = (42 :: decimal n).length + 2 := by
    simp [countLine, crlf]
  have hsplit : c.querybuf = (42 :: decimal n) ++ CR :: (LF :: u) := by
    rw [hbuf]
    simp [countLine, crlf]
  have hchr : strchr CR c.querybuf = some (42 :: decimal n).length := by
    rw [hsplit]
    exact strchr_line (by decide) (by decide) _ _
  have hwait : ¬ c.querybuf.length < (42 :: decimal n).length + 2 := by
    rw [hbuf, List.length_append]
    omega
  have hdigits : (c.querybuf.take (42 :: decimal n).length).drop 1 = decimal n := by
    rw [hsplit, List.take_left']
    · rfl
    · rfl
  have hread : string2ll (decimal n) = some (n : Int) := by
    refine string2ll_decimal (Nat.le_trans hcount ?_)
    unfold LLONG_MAX
    omega
  have hmany : ¬ ((1024 * 1024 : Int) < (n : Int)) := by omega
  have hsome : ¬ ((n : Int) ≤ 0) := by omega
  rw [processMultibulkBuffer, if_pos hzero]
  simp only [hchr, if_neg hwait, hdigits, hread, if_neg hmany, if_neg hsome, Int.toNat_natCast]
  rw [← hlinelen]

theorem processMultibulkBuffer_front {c : Client} {cmd : List Bytes} {future rest : Bytes}
    (hlim : WithinLimits cmd) (hzero : c.multibulklen = 0) (hargv : c.argv = [])
    (hbulk : c.bulklen = none) (hbytes : c.querybuf ++ future = encode cmd ++ rest) :
    ParseResult c cmd future rest (processMultibulkBuffer c) := by
  obtain ⟨hne, hcount, hargs⟩ := hlim
  have hten := length_countLine_le hcount
  have hsplit : c.querybuf ++ future = countLine cmd.length ++ (encodeArgs cmd ++ rest) := by
    rw [hbytes, encode, List.append_assoc]
  have hlinelen : (countLine cmd.length).length = (42 :: decimal cmd.length).length + 2 := by
    simp [countLine, crlf]
  rcases append_split hsplit with ⟨u, hu, hufuture⟩ | ⟨d, hd, hline, hfuture⟩
  · -- The count line is complete.
    have hdrop : c.querybuf.drop (countLine cmd.length).length = u := by
      rw [hu, List.drop_left']
      rfl
    have hloop := multibulkLoop_spec cmd hargs c (countLine cmd.length).length hbulk
      (by rw [hu, List.length_append]; omega) future rest (by rw [hdrop, hufuture])
    have hsame : c = { c with argv := c.argv, querybuf := c.querybuf, bulklen := none } := by
      rw [← hbulk]
    have hpos := List.length_pos_iff.mpr hne
    rw [processMultibulkBuffer_countLine (by omega) hcount hzero hu]
    refine LoopResult.parse hsame (by rw [hargv]; rfl) ?_ hloop
    intro args tail htail htoo
    refine ⟨args, tail, Or.inl ⟨cmd.length, hzero, ?_, htoo⟩⟩
    rw [hdrop] at htail
    rw [hu, htail, List.append_assoc]
  · -- The count line is not complete, and shorter than a line may be.
    have hshort : c.querybuf.length < (countLine cmd.length).length := by
      have h1 := congrArg List.length hline
      have h2 : 0 < d.length := List.length_pos_iff.mpr hd
      rw [List.length_append] at h1
      omega
    have hstays : ParseResult c cmd future rest (false, c) := by
      refine Or.inr (Or.inl ⟨c, rfl, Or.inl ⟨hzero, hargv, hbulk, hbytes⟩, ?_, rfl, rfl, rfl⟩)
      rw [Short, parsedPart, if_pos hzero, List.nil_append, encode, List.length_append]
      omega
    rw [processMultibulkBuffer, if_pos hzero]
    rcases line_prefix (by decide) hd hline with hno | hcr
    · have hfit : ¬ REDIS_INLINE_MAX_SIZE < c.querybuf.length := by
        unfold REDIS_INLINE_MAX_SIZE
        omega
      rw [strchr_eq_none hno]
      simp only [if_neg hfit]
      exact hstays
    · have hchr : strchr CR c.querybuf = some (42 :: decimal cmd.length).length := by
        rw [hcr]
        exact strchr_line (by decide) (by decide) _ []
      have hwait : c.querybuf.length < (42 :: decimal cmd.length).length + 2 := by omega
      simp only [hchr, if_pos hwait]
      exact hstays

theorem processMultibulkBuffer_spec {c : Client} {cmd : List Bytes} {future rest : Bytes}
    (hlim : WithinLimits cmd) (h : InCommand c cmd future rest) :
    ParseResult c cmd future rest (processMultibulkBuffer c) := by
  rcases h with ⟨hzero, hargv, hbulk, hbytes⟩ | ⟨rem, hne, hcmd, hlen, hat⟩
  · exact processMultibulkBuffer_front hlim hzero hargv hbulk hbytes
  · exact processMultibulkBuffer_inside hlim.2.2 hne hcmd hlen hat

end RedisCluster.Networking
