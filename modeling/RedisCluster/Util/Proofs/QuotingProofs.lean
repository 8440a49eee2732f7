import RedisCluster.Util.Sds

/-!
# Proofs: `sdssplitargs` reads what `sdscatrepr` writes

A byte is written as one of eight kinds of tokens, and the decoder takes each token back to its byte inside a quoted
argument, whatever follows. The line is one sds string, so its length wraps around at `2 ^ 32` bytes.
-/

namespace RedisCluster.Util

theorem hexDigit_spec : ∀ d < 16, is_hex_digit (hexDigit d) = true ∧ (hex_digit_to_int (hexDigit d)).toNat = d := by
  decide

theorem reprByte_hex (c : UInt8) :
    is_hex_digit (hexDigit (c.toNat / 16)) = true ∧ is_hex_digit (hexDigit (c.toNat % 16)) = true ∧
      hex_digit_to_int (hexDigit (c.toNat / 16)) * 16 + hex_digit_to_int (hexDigit (c.toNat % 16)) = c := by
  have hlt := c.toNat_lt
  obtain ⟨hhigh, hhigh'⟩ := hexDigit_spec (c.toNat / 16) (by omega)
  obtain ⟨hlow, hlow'⟩ := hexDigit_spec (c.toNat % 16) (by omega)
  refine ⟨hhigh, hlow, UInt8.toNat_inj.mp ?_⟩
  rw [UInt8.toNat_add, UInt8.toNat_mul, hhigh', hlow']
  have h16 : (16 : UInt8).toNat = 16 := rfl
  rw [h16]
  omega

-- The equations of `splitArg` are derived here, once for the proofs that follow.
section
attribute [local simp] splitArg
end

theorem splitArg_escape {d : UInt8} (hx : d ≠ 120) (hd : d ≠ 0) (current rest : Bytes) :
    splitArg .inq current (92 :: d :: rest) = splitArg .inq (current ++ [unescape d]) rest := by
  rw [splitArg]
  · rw [if_pos rfl, if_neg hd]
  · intro a b rest' _ h
    exact hx (List.cons.inj h).1

theorem splitArg_verbatim {c : UInt8} (hback : c ≠ 92) (hquote : c ≠ 34) (hnul : c ≠ 0) (current rest : Bytes) :
    splitArg .inq current (c :: rest) = splitArg .inq (current ++ [c]) rest := by
  have hno : ∀ a b rest', c = 92 → rest = 120 :: a :: b :: rest' → False := fun _ _ _ h _ => hback h
  cases rest with
  | nil => rw [splitArg.eq_4 _ _ hno, if_neg hback, if_neg hquote, if_neg hnul]
  | cons d rest => rw [splitArg.eq_5 _ _ _ _ hno, if_neg hback, if_neg hquote, if_neg hnul]

theorem splitArg_close (current : Bytes) {rest : Bytes} (hrest : closesWell rest = true) :
    splitArg .inq current (34 :: rest) = some (current, rest) := by
  have hno : ∀ a b rest', (34 : UInt8) = 92 → rest = 120 :: a :: b :: rest' → False :=
    fun _ _ _ h _ => absurd h (by decide)
  cases rest with
  | nil => rw [splitArg.eq_4 _ _ hno, if_neg (by decide), if_pos rfl, if_pos hrest]
  | cons d rest => rw [splitArg.eq_5 _ _ _ _ hno, if_neg (by decide), if_pos rfl, if_pos hrest]

theorem splitArg_reprByte (c : UInt8) (current rest : Bytes) :
    splitArg .inq current (reprByte c ++ rest) = splitArg .inq (current ++ [c]) rest := by
  unfold reprByte
  by_cases hself : c = 92 ∨ c = 34
  · rw [if_pos hself]
    rcases hself with rfl | rfl
    · exact splitArg_escape (by decide) (by decide) current rest
    · exact splitArg_escape (by decide) (by decide) current rest
  rw [if_neg hself]
  obtain ⟨hback, hquote⟩ := not_or.mp hself
  by_cases hn : c = 10
  · rw [if_pos hn, hn]
    exact splitArg_escape (by decide) (by decide) current rest
  rw [if_neg hn]
  by_cases hr : c = 13
  · rw [if_pos hr, hr]
    exact splitArg_escape (by decide) (by decide) current rest
  rw [if_neg hr]
  by_cases ht : c = 9
  · rw [if_pos ht, ht]
    exact splitArg_escape (by decide) (by decide) current rest
  rw [if_neg ht]
  by_cases ha : c = 7
  · rw [if_pos ha, ha]
    exact splitArg_escape (by decide) (by decide) current rest
  rw [if_neg ha]
  by_cases hb : c = 8
  · rw [if_pos hb, hb]
    exact splitArg_escape (by decide) (by decide) current rest
  rw [if_neg hb]
  by_cases hprint : isprint c = true
  · rw [if_pos hprint]
    refine splitArg_verbatim hback hquote ?_ current rest
    rintro rfl
    cases hprint
  · rw [if_neg hprint]
    obtain ⟨hhigh, hlow, hvalue⟩ := reprByte_hex c
    have hboth : (is_hex_digit (hexDigit (c.toNat / 16)) && is_hex_digit (hexDigit (c.toNat % 16))) = true := by
      rw [hhigh, hlow]
      rfl
    show splitArg .inq current (92 :: 120 :: hexDigit (c.toNat / 16) :: hexDigit (c.toNat % 16) :: rest) = _
    rw [splitArg, if_pos hboth, hvalue]

def reprText (p : Bytes) : Bytes := 34 :: p.flatMap reprByte ++ [34]

theorem splitArg_tokens (p current rest : Bytes) :
    splitArg .inq current (p.flatMap reprByte ++ rest) = splitArg .inq (current ++ p) rest := by
  induction p generalizing current with
  | nil => rw [List.flatMap_nil, List.nil_append, List.append_nil]
  | cons c p ih =>
    rw [List.flatMap_cons, List.append_assoc, splitArg_reprByte, ih, List.append_assoc, List.singleton_append]

theorem splitArg_repr (p : Bytes) {rest : Bytes} (hrest : closesWell rest = true) :
    splitArg .bare [] (reprText p ++ rest) = some (p, rest) := by
  have hopen : reprText p ++ rest = 34 :: (p.flatMap reprByte ++ 34 :: rest) := by
    rw [reprText, List.cons_append, List.cons_append, List.append_assoc, List.singleton_append]
  rw [hopen, splitArg, if_neg (by decide), if_neg (by decide), if_pos rfl, splitArg_tokens, splitArg_close _ hrest, List.nil_append]

def reprLine : List Bytes → Bytes
  | [] => []
  | [p] => reprText p
  | p :: ps => reprText p ++ 32 :: reprLine ps

theorem repr_cons (p rest : Bytes) : ∃ tail, reprText p ++ rest = 34 :: tail := ⟨_, rfl⟩

theorem splitArgs_step (fuel : Nat) (p : Bytes) {rest : Bytes} (hrest : closesWell rest = true) :
    splitArgs (fuel + 1) (reprText p ++ rest) = (splitArgs fuel rest).map (p :: ·) := by
  obtain ⟨tail, htail⟩ := repr_cons p rest
  have harg := splitArg_repr p hrest
  rw [htail] at harg ⊢
  have hstart : (34 :: tail : Bytes).dropWhile isspace = 34 :: tail := List.dropWhile_cons_of_neg (by decide)
  rw [splitArgs, hstart]
  dsimp only
  rw [if_neg (by decide), harg]
  rfl

theorem splitArgs_space (fuel : Nat) (rest : Bytes) : splitArgs fuel (32 :: rest) = splitArgs fuel rest := by
  cases fuel with
  | zero => rfl
  | succ fuel => rw [splitArgs, splitArgs, List.dropWhile_cons_of_pos (by decide)]

theorem splitArgs_reprLine (ps : List Bytes) (fuel : Nat) (hfuel : ps.length < fuel) :
    splitArgs fuel (reprLine ps) = some ps := by
  induction ps generalizing fuel with
  | nil =>
    cases fuel with
    | zero => rfl
    | succ fuel => rfl
  | cons p ps ih =>
    obtain ⟨fuel, rfl⟩ : ∃ m, fuel = m + 1 := ⟨fuel - 1, by rw [List.length_cons] at hfuel; omega⟩
    have hrest := ih fuel (Nat.lt_of_succ_lt_succ hfuel)
    cases ps with
    | nil =>
      have hstep := @splitArgs_step fuel p [] rfl
      rw [List.append_nil] at hstep
      rw [reprLine, hstep]
      rw [reprLine] at hrest
      rw [hrest]
      rfl
    | cons q ps =>
      rw [reprLine, splitArgs_step fuel p rfl, splitArgs_space, hrest]
      · rfl
      · nofun

theorem length_reprLine (ps : List Bytes) : ps.length ≤ (reprLine ps).length := by
  induction ps with
  | nil => exact le_rfl
  | cons p ps ih =>
    cases ps with
    | nil =>
      rw [reprLine, reprText]
      simp only [List.length_cons, List.length_append, List.length_nil]
      omega
    | cons q ps =>
      rw [reprLine]
      · rw [List.length_append, List.length_cons, List.length_cons (a := 32)]
        omega
      · nofun

theorem sdssplitargs_reprLine (ps : List Bytes) : sdssplitargs (reprLine ps) = some ps :=
  splitArgs_reprLine ps _ (Nat.lt_succ_of_le (length_reprLine ps))

/-- The buffer has the text that was appended, and its length in 32 bits. -/
structure Tracks (s : SdsBuffer) (text : Bytes) : Prop where
  buf : s.buf = text
  len : s.len = text.length % 2 ^ 32

variable {s : SdsBuffer} {text : Bytes}

theorem Tracks.empty : Tracks sdsempty [] := ⟨rfl, rfl⟩

theorem Tracks.catlen (h : Tracks s text) {t : Bytes} (ht : t ≠ []) (hfit : text.length + t.length ≤ 2 ^ 32) :
    Tracks (s.catlen t) (text ++ t) := by
  have hpos := List.length_pos_iff.mpr ht
  have hlen : s.len = text.length := by rw [h.len, Nat.mod_eq_of_lt (by omega)]
  constructor
  · rw [SdsBuffer.catlen, h.buf, hlen, List.take_length]
  · rw [SdsBuffer.catlen, hlen, List.length_append]

theorem reprByte_ne_nil (c : UInt8) : reprByte c ≠ [] := by
  unfold reprByte
  repeat' split
  all_goals exact List.cons_ne_nil _ _

theorem Tracks.tokens (h : Tracks s text) (p : Bytes) (hfit : text.length + (p.flatMap reprByte).length ≤ 2 ^ 32) :
    Tracks (p.foldl (fun s c => s.catlen (reprByte c)) s) (text ++ p.flatMap reprByte) := by
  induction p generalizing s text with
  | nil =>
    rw [List.flatMap_nil, List.append_nil]
    exact h
  | cons c p ih =>
    rw [List.flatMap_cons, List.length_append] at hfit
    rw [List.foldl_cons, List.flatMap_cons, ← List.append_assoc]
    exact ih (h.catlen (reprByte_ne_nil c) (by omega)) (by rw [List.length_append]; omega)

theorem Tracks.repr (h : Tracks s text) (p : Bytes) (hfit : text.length + (reprText p).length ≤ 2 ^ 32) :
    Tracks (sdscatrepr s p) (text ++ reprText p) := by
  have hlen : (reprText p).length = 1 + (p.flatMap reprByte).length + 1 := by
    rw [reprText, List.length_append, List.length_cons, List.length_singleton, Nat.add_comm 1]
  have hopen := h.catlen (t := [34]) (List.cons_ne_nil _ _) (by rw [List.length_singleton]; omega)
  have htokens := hopen.tokens p (by rw [List.length_append, List.length_singleton]; omega)
  have hclose := htokens.catlen (t := [34]) (List.cons_ne_nil _ _) (by
    simp only [List.length_append, List.length_singleton]
    omega)
  rw [sdscatrepr, reprText]
  simpa only [List.append_assoc, List.singleton_append, List.cons_append, List.nil_append] using hclose

theorem Tracks.join (h : Tracks s text) (ps : List Bytes) (hfit : text.length + (reprLine ps).length ≤ 2 ^ 32) :
    Tracks (joinReprs s ps) (text ++ reprLine ps) := by
  induction ps generalizing s text with
  | nil =>
    rw [reprLine, List.append_nil]
    exact h
  | cons p ps ih =>
    cases ps with
    | nil => exact h.repr p hfit
    | cons q ps =>
      have hline : reprLine (p :: q :: ps) = reprText p ++ 32 :: reprLine (q :: ps) := rfl
      rw [hline, List.length_append, List.length_cons] at hfit
      have hfirst := h.repr p (by omega)
      have hspace := hfirst.catlen (t := [32]) (List.cons_ne_nil _ _) (by
        rw [List.length_append, List.length_singleton]
        omega)
      have hrest := ih hspace (by
        simp only [List.length_append, List.length_singleton]
        omega)
      have hjoin : joinReprs s (p :: q :: ps) = joinReprs ((sdscatrepr s p).catlen [32]) (q :: ps) := rfl
      rw [hline, hjoin]
      simpa only [List.append_assoc, List.singleton_append] using hrest

end RedisCluster.Util
