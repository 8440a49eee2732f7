import RedisCluster.Util.Glob

/-!
# Proofs: glob patterns

`stringmatchlen` is `matchTokens` of the tokens of the pattern. On a string that is not empty the matcher is
right unless it comes to a class with an open escape; on the empty string the first token decides.
-/

namespace RedisCluster.Util.Glob

/-! ## Classes -/

theorem classLoop_open {nocase : Bool} {string : StringAt} {pattern : Bytes}
    (h : (classItems pattern).2 = none) (matched : Bool) :
    classLoop nocase string matched pattern = none := by
  fun_induction classItems pattern generalizing matched
  case case1 => cases h
  case case2 => rw [classLoop]
  case case3 d p ih =>
    rw [classLoop]
    cases string.char with
    | none => rfl
    | some s => exact ih h _
  case case4 => cases h
  case case5 c e p h1 h2 ih =>
    rw [classLoop]
    · cases string.char with
      | none => rfl
      | some s => exact ih h _
    all_goals assumption
  case case6 c p h1 h2 h3 h4 ih =>
    rw [classLoop]
    · cases string.char with
      | none => rfl
      | some s => exact ih h _
    all_goals assumption

theorem classLoop_char {nocase : Bool} {string : StringAt} {pattern rest : Bytes} {s : UInt8}
    (hs : string.char = some s) (h : (classItems pattern).2 = some rest) (matched : Bool) :
    classLoop nocase string matched pattern =
      some (matched || (classItems pattern).1.any fun i => i.has nocase s, rest) := by
  fun_induction classItems pattern generalizing matched
  case case1 => cases h; simp [classLoop]
  case case2 => cases h
  case case3 d p ih =>
    rw [classLoop, hs]
    show classLoop nocase string _ p = _
    rw [ih h, Bool.or_assoc]
    rfl
  case case4 => cases h; simp [classLoop]
  case case5 c e p h1 h2 ih =>
    rw [classLoop, hs]
    · show classLoop nocase string _ p = _
      rw [ih h, Bool.or_assoc]
      rfl
    all_goals assumption
  case case6 c p h1 h2 h3 h4 ih =>
    rw [classLoop, hs]
    · show classLoop nocase string _ p = _
      rw [ih h, Bool.or_assoc]
      rfl
    all_goals assumption

theorem classLoop_beyond {nocase : Bool} {string : StringAt} {pattern rest : Bytes}
    (hs : string.char = none) (h : (classItems pattern).2 = some rest) (matched : Bool) :
    classLoop nocase string matched pattern =
      if (classItems pattern).1 = [] then some (matched, rest) else none := by
  fun_cases classItems pattern
  case case1 => cases h; rfl
  case case2 => cases h
  case case3 d p =>
    rw [classLoop, hs]
    rfl
  case case4 => cases h; rw [classLoop]; rfl
  case case5 c e p h1 h2 =>
    rw [classLoop, hs]
    · rfl
    all_goals assumption
  case case6 c p h1 h2 h3 h4 =>
    rw [classLoop, hs]
    · rfl
    all_goals assumption

/-! ## The matcher on tokens -/

def Token.tries (nocase : Bool) (string : StringAt) : Token → Option Bool
  | star => none
  | any => some !string.isEnd
  | char b => string.char.map fun s => sameChar nocase b s
  | cls negated [] => some negated
  | cls negated items => string.char.map fun s => (items.any fun i => i.has nocase s) != negated
  | openCls _ _ => none

def allStars (ts : List Token) : Bool := ts.all fun t => t = .star

def afterTry (loop : StringAt → Option Bool) (ts : List Token) (string : StringAt) :
    Option Bool → Option Bool
  | some true => if string.next.isEnd then some (allStars ts) else loop string.next
  | r => r

def matchTokens (nocase : Bool) : List Token → StringAt → Option Bool
  | [], string => some string.isEnd
  | .star :: ts, string =>
    if allStars ts then some true else starRounds (fun s => matchTokens nocase ts s) string
  | t :: ts, string => afterTry (fun s => matchTokens nocase ts s) ts string (t.tries nocase string)

theorem tries_cls {nocase : Bool} {string : StringAt} {s : UInt8} (hs : string.char = some s)
    (negated : Bool) (items : List ClassItem) : (Token.cls negated items).tries nocase string =
      some ((items.any fun i => i.has nocase s) != negated) := by
  cases items with
  | nil => cases negated <;> rfl
  | cons i items => simp [Token.tries, hs]

theorem tries_cls_beyond {nocase : Bool} {string : StringAt} (hs : string.char = none)
    (negated : Bool) (items : List ClassItem) : (Token.cls negated items).tries nocase string =
      if items = [] then some negated else none := by
  cases items with
  | nil => rfl
  | cons i items => simp [Token.tries, hs]

theorem starRounds_beyond (f : StringAt → Option Bool) :
    starRounds f .beyond = if f .beyond = some false then none else f .beyond := by
  unfold starRounds
  cases f .beyond with
  | none => rfl
  | some r => cases r <;> rfl

theorem starLoop_cons (f : StringAt → Option Bool) (b : UInt8) (s : Bytes) : starLoop f (b :: s) =
    if f (.within (b :: s)) = some false then starLoop f s else f (.within (b :: s)) := by
  rw [starLoop]
  cases f (.within (b :: s)) with
  | none => rfl
  | some r => cases r <;> rfl

theorem starRounds_idem (f : StringAt → Option Bool) (string : StringAt) :
    starRounds (fun s => starRounds f s) string = starRounds f string := by
  cases string with
  | beyond =>
    rw [starRounds_beyond, starRounds_beyond]
    split
    · rfl
    · rfl
  | within s =>
    show starLoop (fun s => starRounds f s) s = starLoop f s
    induction s with
    | nil => rfl
    | cons b s ih =>
      have hround : starRounds f (.within (b :: s)) = starLoop f (b :: s) := rfl
      rw [starLoop_cons, ih, hround, starLoop_cons]
      split
      · split
        · rfl
        · rfl
      · rfl

theorem skipStars_nil_iff (pattern : Bytes) : skipStars pattern = [] ↔ allStars (tokens pattern) = true := by
  have hother : ∀ {c : UInt8} {p : Bytes} {t : Token} {ts : List Token}, c ≠ 42 → t ≠ .star →
      (skipStars (c :: p) = [] ↔ allStars (t :: ts) = true) := by
    intro c p t ts hc ht
    simp [skipStars, allStars, hc, ht]
  fun_induction tokens pattern
  case case1 => simp [skipStars, allStars]
  case case2 pattern ih => simpa [skipStars, allStars] using ih
  case case3 => exact hother (by decide) (by simp)
  case case4 => exact hother (by decide) (by simp)
  case case5 => exact hother (by decide) (by simp)
  case case6 c pattern h1 h2 h3 ih => exact hother h1 (by simp)

theorem isEmpty_skipStars (pattern : Bytes) : (skipStars pattern).isEmpty = allStars (tokens pattern) := by
  rw [Bool.eq_iff_iff, List.isEmpty_iff, skipStars_nil_iff]

theorem starRounds_skipStars (nocase : Bool) {pattern : Bytes} (h : skipStars pattern ≠ [])
    (string : StringAt) :
    starRounds (fun s => stringmatchlen nocase (skipStars pattern) s) string =
      starRounds (fun s => stringmatchlen nocase pattern s) string := by
  cases pattern with
  | nil => exact absurd rfl h
  | cons c pattern =>
    by_cases hc : c = 42
    · subst hc
      have hskip : skipStars (42 :: pattern) = skipStars pattern := rfl
      rw [hskip] at h ⊢
      have hfun : (fun s => stringmatchlen nocase (42 :: pattern) s) = fun s =>
          starRounds (fun s => stringmatchlen nocase (skipStars pattern) s) s := by
        funext s
        rw [stringmatchlen, if_neg h]
      rw [hfun, starRounds_idem]
    · have hskip : skipStars (c :: pattern) = c :: pattern := by simp [skipStars, hc]
      rw [hskip]

theorem afterByte_eq {loop loop' : StringAt → Option Bool} (h : ∀ s, loop s = loop' s) (pattern : Bytes)
    (string : StringAt) :
    afterByte loop pattern string.next = afterTry loop' (tokens pattern) string (some true) := by
  unfold afterByte afterTry
  rw [isEmpty_skipStars, h]

theorem stringmatchlen_eq (nocase : Bool) (pattern : Bytes) (string : StringAt) :
    stringmatchlen nocase pattern string = matchTokens nocase (tokens pattern) string := by
  fun_induction tokens pattern generalizing string
  case case1 => rw [stringmatchlen, matchTokens]
  case case2 pattern ih =>
    rw [stringmatchlen, matchTokens]
    by_cases hskip : skipStars pattern = []
    · rw [if_pos hskip, if_pos ((skipStars_nil_iff pattern).mp hskip)]
    · rw [if_neg hskip, if_neg fun h => hskip ((skipStars_nil_iff pattern).mpr h),
        starRounds_skipStars nocase hskip]
      exact congrArg (fun f => starRounds f string) (funext ih)
  case case3 pattern ih =>
    rw [stringmatchlen, matchTokens]
    · cases hend : string.isEnd with
      | true => simp [Token.tries, hend, afterTry]
      | false =>
        rw [if_neg (by simp), afterByte_eq ih]
        simp [Token.tries, hend]
    all_goals simp
  case case4 pattern hopen =>
    rw [stringmatchlen, matchTokens]
    · split
      · rfl
      · rename_i hloop
        rw [classLoop_open hopen] at hloop
        cases hloop
    all_goals simp
  case case5 pattern rest hrest ih =>
    rw [stringmatchlen, matchTokens]
    · cases hchar : string.char with
      | none =>
        rw [tries_cls_beyond hchar]
        by_cases hitems : (classItems (classBody pattern)).1 = []
        · rw [if_pos hitems]
          split
          all_goals
            rename_i hloop
            rw [classLoop_beyond hchar hrest, if_pos hitems] at hloop
            cases hloop
          cases classNot pattern with
          | false => rfl
          | true => exact (if_neg Bool.false_ne_true).trans (afterByte_eq ih rest string)
        · rw [if_neg hitems]
          split
          · rfl
          · rename_i hloop
            rw [classLoop_beyond hchar hrest, if_neg hitems] at hloop
            cases hloop
      | some s =>
        rw [tries_cls hchar]
        split
        all_goals
          rename_i hloop
          rw [classLoop_char hchar hrest, Bool.false_or] at hloop
          cases hloop
        generalize ((classItems (classBody pattern)).1.any fun i => i.has nocase s) = matched
        by_cases hmatched : matched = classNot pattern
        · rw [if_pos hmatched, hmatched, bne_self_eq_false]
          rfl
        · rw [if_neg hmatched, bne_iff_ne.mpr hmatched]
          exact afterByte_eq ih rest string
    all_goals simp
  case case6 c pattern h1 h2 h3 ih =>
    rw [stringmatchlen, matchTokens]
    · cases hchar : string.char with
      | none => simp [Token.tries, hchar, afterTry]
      | some s =>
        simp only [Token.tries, hchar, Option.map_some, Option.bind_some]
        cases hsame : sameChar nocase (literal c pattern).1 s with
        | false => rfl
        | true => 
          rw [if_pos rfl, afterByte_eq ih]
    all_goals simp_all

/-! ## The language of a list of tokens -/

section Languages

variable {nocase : Bool} {t : Token} {ts front back : List Token} {s : Bytes}

theorem mem_tokensLanguage_nil : s ∈ tokensLanguage nocase [] ↔ s = [] := Language.mem_one s

theorem tokensLanguage_cons (t : Token) (ts : List Token) :
    tokensLanguage nocase (t :: ts) = t.language nocase * tokensLanguage nocase ts := List.prod_cons

theorem tokensLanguage_append (front back : List Token) : tokensLanguage nocase (front ++ back) =
    tokensLanguage nocase front * tokensLanguage nocase back := by
  unfold tokensLanguage
  rw [List.map_append, List.prod_append]

theorem mem_language (ht : t ≠ .star) :
    s ∈ t.language nocase ↔ ∃ b, t.accepts nocase b = true ∧ s = [b] := by
  cases t with
  | star => exact absurd rfl ht
  | any => exact Iff.rfl
  | char c => exact Iff.rfl
  | cls negated items => exact Iff.rfl
  | openCls negated items => exact Iff.rfl

theorem mem_tokensLanguage_cons (ht : t ≠ .star) : s ∈ tokensLanguage nocase (t :: ts) ↔
    ∃ b s', s = b :: s' ∧ t.accepts nocase b = true ∧ s' ∈ tokensLanguage nocase ts := by
  rw [tokensLanguage_cons, Language.mem_mul]
  constructor
  · rintro ⟨u, hu, s', hs', rfl⟩
    obtain ⟨b, hb, rfl⟩ := (mem_language ht).mp hu
    exact ⟨b, s', rfl, hb, hs'⟩
  · rintro ⟨b, s', rfl, hb, hs'⟩
    exact ⟨[b], (mem_language ht).mpr ⟨b, hb, rfl⟩, s', hs', rfl⟩

theorem mem_tokensLanguage_star : s ∈ tokensLanguage nocase (.star :: ts) ↔
    ∃ u v, s = u ++ v ∧ v ∈ tokensLanguage nocase ts := by
  rw [tokensLanguage_cons, Language.mem_mul]
  constructor
  · rintro ⟨u, -, v, hv, rfl⟩
    exact ⟨u, v, rfl, hv⟩
  · rintro ⟨u, v, rfl, hv⟩
    exact ⟨u, trivial, v, hv, rfl⟩

theorem nil_mem_tokensLanguage : [] ∈ tokensLanguage nocase ts ↔ allStars ts = true := by
  induction ts with
  | nil => simp [mem_tokensLanguage_nil, allStars]
  | cons t ts ih =>
    by_cases ht : t = .star
    · subst ht
      rw [mem_tokensLanguage_star]
      simpa [allStars] using ih
    · rw [mem_tokensLanguage_cons ht]
      simp [allStars, ht]

/-! ## Classes with an open escape -/

theorem ReachesOpen.exists_open (h : ReachesOpen nocase ts s) : ∃ t ∈ ts, t.isOpen = true := by
  obtain ⟨front, t, back, -, -, rfl, ht, -⟩ := h
  exact ⟨t, List.mem_append_right _ List.mem_cons_self, ht⟩

theorem reachesOpen_of_mem (ht : ∃ t ∈ ts, t.isOpen = true) (hs : s ∈ tokensLanguage nocase ts) :
    ReachesOpen nocase ts s := by
  obtain ⟨t, hmem, ht⟩ := ht
  obtain ⟨front, back, rfl⟩ := List.append_of_mem hmem
  rw [tokensLanguage_append, Language.mem_mul] at hs
  obtain ⟨s1, hs1, s2, hs2, rfl⟩ := hs
  have hstar : t ≠ .star := by
    rintro rfl
    cases ht
  obtain ⟨b, s3, rfl, -, -⟩ := (mem_tokensLanguage_cons hstar).mp hs2
  exact ⟨front, t, back, s1, b :: s3, rfl, ht, rfl, hs1, Or.inl (List.cons_ne_nil b s3)⟩

theorem not_reachesOpen_nil : ¬ ReachesOpen nocase [] s := by
  intro h
  obtain ⟨t, ht, -⟩ := h.exists_open
  cases ht

theorem reachesOpen_head (ht : t.isOpen = true) : ReachesOpen nocase (t :: ts) s :=
  ⟨[], t, ts, [], s, rfl, ht, rfl, mem_tokensLanguage_nil.mpr rfl, Or.inr rfl⟩

theorem reachesOpen_cons {b : UInt8} (ht : t ≠ .star) (hopen : t.isOpen = false) :
    ReachesOpen nocase (t :: ts) (b :: s) ↔
      t.accepts nocase b = true ∧ s ≠ [] ∧ ReachesOpen nocase ts s := by
  constructor
  · rintro ⟨front, c, back, s1, s2, hts, hc, hs, hs1, hrest⟩
    cases front with
    | nil =>
      cases hts
      rw [hopen] at hc
      cases hc
    | cons a front =>
      cases hts
      obtain ⟨b', s3, rfl, hb, hs3⟩ := (mem_tokensLanguage_cons ht).mp hs1
      obtain ⟨rfl, rfl⟩ := List.cons.inj hs
      have hne : s2 ≠ [] := hrest.resolve_right (List.cons_ne_nil _ _)
      exact ⟨hb, fun h => hne (List.append_eq_nil_iff.mp h).2, front, c, back, s3, s2, rfl, hc, rfl, hs3,
        Or.inl hne⟩
  · rintro ⟨hb, hne, front, c, back, s1, s2, rfl, hc, rfl, hs1, hrest⟩
    refine ⟨t :: front, c, back, b :: s1, s2, rfl, hc, rfl,
      (mem_tokensLanguage_cons ht).mpr ⟨b, s1, rfl, hb, hs1⟩, Or.inl ?_⟩
    rcases hrest with h2 | rfl
    · exact h2
    · rw [mem_tokensLanguage_nil.mp hs1] at hne
      exact hne

theorem reachesOpen_star : ReachesOpen nocase (.star :: ts) s ↔
    ∃ u v, s = u ++ v ∧ v ≠ [] ∧ ReachesOpen nocase ts v := by
  constructor
  · rintro ⟨front, c, back, s1, s2, hts, hc, rfl, hs1, hrest⟩
    cases front with
    | nil =>
      cases hts
      cases hc
    | cons a front =>
      cases hts
      obtain ⟨u, w, rfl, hw⟩ := mem_tokensLanguage_star.mp hs1
      have hne : s2 ≠ [] := hrest.resolve_right (List.cons_ne_nil _ _)
      exact ⟨u, w ++ s2, List.append_assoc u w s2, fun h => hne (List.append_eq_nil_iff.mp h).2,
        front, c, back, w, s2, rfl, hc, rfl, hw, Or.inl hne⟩
  · rintro ⟨u, v, rfl, hne, front, c, back, s1, s2, rfl, hc, rfl, hs1, hrest⟩
    refine ⟨.star :: front, c, back, u ++ s1, s2, rfl, hc, (List.append_assoc u s1 s2).symm,
      mem_tokensLanguage_star.mpr ⟨u, s1, rfl, hs1⟩, Or.inl ?_⟩
    rcases hrest with h2 | rfl
    · exact h2
    · rw [mem_tokensLanguage_nil.mp hs1] at hne
      exact hne

/-! ## Strings that are not empty -/

def Answers (r : Option Bool) (p : Prop) : Prop := ∃ b, r = some b ∧ (b = true ↔ p)

/-- The loop behind a star: `bad` are the strings on which what follows the star goes wrong, and none of
them can be left out of a search that fails. -/
theorem starLoop_spec {f : StringAt → Option Bool} {bad good : Bytes → Prop}
    (hf : ∀ v, v ≠ [] → bad v ∧ f (.within v) = none ∨ ¬ bad v ∧ Answers (f (.within v)) (good v))
    (hpass : ∀ v w, good v → bad w → bad v) (s : Bytes) :
    (∃ u v, s = u ++ v ∧ v ≠ [] ∧ bad v) ∧ starLoop f s = none ∨
      (¬ ∃ u v, s = u ++ v ∧ v ≠ [] ∧ bad v) ∧
        Answers (starLoop f s) (∃ u v, s = u ++ v ∧ v ≠ [] ∧ good v) := by
  induction s with
  | nil =>
    have hnone : ∀ {p : Bytes → Prop}, ¬ ∃ u v, [] = u ++ v ∧ v ≠ [] ∧ p v := by
      rintro p ⟨u, v, huv, hne, -⟩
      exact hne (List.append_eq_nil_iff.mp huv.symm).2
    exact Or.inr ⟨hnone, false, rfl, iff_of_false Bool.false_ne_true hnone⟩
  | cons b s ih =>
    have hsplit : ∀ {p : Bytes → Prop}, (∃ u v, b :: s = u ++ v ∧ v ≠ [] ∧ p v) ↔
        p (b :: s) ∨ ∃ u v, s = u ++ v ∧ v ≠ [] ∧ p v := by
      intro p
      constructor
      · rintro ⟨u, v, huv, hne, hv⟩
        cases u with
        | nil => exact Or.inl (huv.symm ▸ hv)
        | cons c u => exact Or.inr ⟨u, v, (List.cons.inj huv).2, hne, hv⟩
      · rintro (h | ⟨u, v, rfl, hne, hv⟩)
        · exact ⟨[], b :: s, rfl, List.cons_ne_nil b s, h⟩
        · exact ⟨b :: u, v, rfl, hne, hv⟩
    rw [hsplit, hsplit, starLoop]
    rcases hf (b :: s) (List.cons_ne_nil b s) with ⟨hbad, hnone⟩ | ⟨hok, r, hr, hgood⟩
    · rw [hnone]
      exact Or.inl ⟨Or.inl hbad, rfl⟩
    · rw [hr]
      cases r with
      | true =>
        have hgood := hgood.mp rfl
        have hnot : ∀ w, ¬ bad w := fun w hw => hok (hpass _ w hgood hw)
        refine Or.inr ⟨?_, true, rfl, iff_of_true rfl (Or.inl hgood)⟩
        rintro (h | ⟨u, v, -, -, h⟩)
        · exact hnot _ h
        · exact hnot v h
      | false =>
        have hno : ¬ good (b :: s) := fun h => Bool.false_ne_true (hgood.mpr h)
        simp only [hok, hno, false_or]
        exact ih

theorem tries_within (t : Token) (ht : t ≠ .star) (hopen : t.isOpen = false) (b : UInt8) (s : Bytes) :
    t.tries nocase (.within (b :: s)) = some (t.accepts nocase b) := by
  cases t with
  | star => exact absurd rfl ht
  | any => rfl
  | char c => rfl
  | cls negated items => exact tries_cls rfl negated items
  | openCls negated items => cases hopen

theorem matchTokens_cons (ht : t ≠ .star) (string : StringAt) : matchTokens nocase (t :: ts) string =
    afterTry (fun s => matchTokens nocase ts s) ts string (t.tries nocase string) := by
  cases t with
  | star => exact absurd rfl ht
  | any => rfl
  | char c => rfl
  | cls negated items => rfl
  | openCls negated items => rfl

theorem tries_open (hopen : t.isOpen = true) (string : StringAt) : t.tries nocase string = none := by
  cases t with
  | openCls negated items => rfl
  | _ => cases hopen

theorem star_ne_of_open (hopen : t.isOpen = true) : t ≠ .star := by
  rintro rfl
  cases hopen

theorem allStars_not_open (h : allStars ts = true) : ¬ ∃ t ∈ ts, t.isOpen = true := by
  rintro ⟨t, ht, hopen⟩
  exact star_ne_of_open hopen (by simpa using List.all_eq_true.mp h t ht)

theorem matchTokens_within (nocase : Bool) (ts : List Token) {s : Bytes} (hs : s ≠ []) :
    ReachesOpen nocase ts s ∧ matchTokens nocase ts (.within s) = none ∨
      ¬ ReachesOpen nocase ts s ∧
        Answers (matchTokens nocase ts (.within s)) (s ∈ tokensLanguage nocase ts) := by
  induction ts generalizing s with
  | nil =>
    refine Or.inr ⟨not_reachesOpen_nil, false, ?_, ?_⟩
    · cases s with
      | nil => exact absurd rfl hs
      | cons b s => rfl
    · exact iff_of_false Bool.false_ne_true fun h => hs (mem_tokensLanguage_nil.mp h)
  | cons t ts ih =>
    by_cases ht : t = .star
    · subst ht
      rw [matchTokens]
      by_cases hall : allStars ts = true
      · rw [if_pos hall]
        refine Or.inr ⟨fun h => ?_, true, rfl, iff_of_true rfl ?_⟩
        · obtain ⟨u, v, -, -, hv⟩ := reachesOpen_star.mp h
          exact allStars_not_open hall hv.exists_open
        · exact mem_tokensLanguage_star.mpr ⟨s, [], (List.append_nil s).symm, nil_mem_tokensLanguage.mpr hall⟩
      · rw [if_neg hall, reachesOpen_star, mem_tokensLanguage_star]
        have hnil : ∀ v, v ∈ tokensLanguage nocase ts → v ≠ [] := by
          rintro v hv rfl
          exact hall (nil_mem_tokensLanguage.mp hv)
        have hiff : (∃ u v, s = u ++ v ∧ v ∈ tokensLanguage nocase ts) ↔
            ∃ u v, s = u ++ v ∧ v ≠ [] ∧ v ∈ tokensLanguage nocase ts :=
          exists_congr fun u => exists_congr fun v => and_congr_right fun _ =>
            ⟨fun hv => ⟨hnil v hv, hv⟩, And.right⟩
        rw [hiff]
        exact starLoop_spec (fun v hv => ih hv)
          (fun v w hv hw => reachesOpen_of_mem hw.exists_open hv) s
    · rw [matchTokens_cons ht]
      cases hopen : t.isOpen with
      | true =>
        rw [tries_open hopen]
        exact Or.inl ⟨reachesOpen_head hopen, rfl⟩
      | false =>
        cases s with
        | nil => exact absurd rfl hs
        | cons b s =>
          rw [reachesOpen_cons ht hopen, tries_within t ht hopen]
          have hmem : b :: s ∈ tokensLanguage nocase (t :: ts) ↔
              t.accepts nocase b = true ∧ s ∈ tokensLanguage nocase ts := by
            rw [mem_tokensLanguage_cons ht]
            constructor
            · rintro ⟨c, s', h, hc, hs'⟩
              cases h
              exact ⟨hc, hs'⟩
            · exact fun h => ⟨b, s, rfl, h⟩
          rw [hmem]
          cases haccepts : t.accepts nocase b with
          | false =>
            refine Or.inr ⟨fun h => Bool.false_ne_true h.1, false, rfl, ?_⟩
            exact iff_of_false Bool.false_ne_true fun h => Bool.false_ne_true h.1
          | true =>
            simp only [true_and]
            cases s with
            | nil =>
              refine Or.inr ⟨fun h => h.1 rfl, allStars ts, rfl, ?_⟩
              exact nil_mem_tokensLanguage.symm
            | cons c s =>
              have hne := List.cons_ne_nil c s
              simp only [ne_eq, hne, not_false_eq_true, true_and]
              exact ih hne

/-! ## The empty string -/

theorem reachesOpen_empty : ReachesOpen nocase (t :: ts) [] ↔ t.isOpen = true := by
  constructor
  · rintro ⟨front, c, back, s1, s2, hts, hc, hs, -, hrest⟩
    have hs2 : s2 = [] := (List.append_eq_nil_iff.mp hs.symm).2
    cases hrest.resolve_left (not_not_intro hs2)
    cases hts
    exact hc
  · exact reachesOpen_head

theorem tries_empty (ht : t ≠ .star) (hopen : t.isOpen = false) :
    t.tries nocase (.within []) = some (t.swallowsNul nocase) := by
  cases t with
  | star => exact absurd rfl ht
  | any => rfl
  | char c => rfl
  | cls negated items => exact tries_cls rfl negated items
  | openCls negated items => cases hopen

theorem tries_beyond (ht : t ≠ .star) : t.tries nocase .beyond =
    if t.isBlind then some true else if t = .nothing then some false else none := by
  cases t with
  | star => exact absurd rfl ht
  | any => rfl
  | char c => rfl
  | cls negated items =>
    rw [tries_cls_beyond rfl]
    cases items with
    | nil => cases negated <;> rfl
    | cons i items => cases negated <;> simp [Token.isBlind, Token.nothing]
  | openCls negated items => rfl

theorem endsBlind_cons (hblind : t.isBlind = true) : EndsBlind (t :: ts) ↔ EndsBlind ts := by
  unfold EndsBlind
  rw [List.dropWhile_cons_of_pos hblind]

theorem endsBlind_head (hblind : ¬ t.isBlind = true) : EndsBlind (t :: ts) ↔ t = .nothing := by
  unfold EndsBlind
  rw [List.dropWhile_cons_of_neg hblind]
  simp

theorem endsInStar_cons (ht : t ≠ .star) : EndsInStar (t :: ts) ↔ t.isBlind = true ∧ EndsInStar ts := by
  unfold EndsInStar
  cases ts with
  | nil => simp [ht]
  | cons a ts => simp [ht, and_assoc]

theorem endsInStar_star : EndsInStar (.star :: ts) ↔ allStars ts = true ∨ EndsInStar ts := by
  unfold EndsInStar
  constructor
  · rintro ⟨hall, hlast⟩
    cases ts with
    | nil => exact Or.inl rfl
    | cons a ts => exact Or.inr ⟨fun t ht => hall t (List.mem_cons_of_mem _ ht), by simpa using hlast⟩
  · rintro (h | ⟨hall, hlast⟩)
    · have hstar : ∀ t ∈ Token.star :: ts, t = .star := by
        intro t ht
        rcases List.mem_cons.mp ht with rfl | ht
        · rfl
        · simpa using List.all_eq_true.mp h t ht
      refine ⟨fun t ht => Or.inl (hstar t ht), ?_⟩
      rw [List.getLast?_eq_some_getLast (List.cons_ne_nil _ _)]
      exact congrArg some (hstar _ (List.getLast_mem _))
    · refine ⟨fun t ht => ?_, ?_⟩
      · rcases List.mem_cons.mp ht with rfl | ht
        · exact Or.inl rfl
        · exact hall t ht
      · cases ts with
        | nil => cases hlast
        | cons a ts => simpa using hlast

theorem matchTokens_beyond (nocase : Bool) (ts : List Token) :
    (matchTokens nocase ts .beyond = some false ↔ EndsBlind ts) ∧
      (matchTokens nocase ts .beyond = some true ↔ EndsInStar ts) := by
  induction ts with
  | nil =>
    refine ⟨iff_of_true rfl ?_, iff_of_false (by simp [matchTokens, StringAt.isEnd]) fun h => ?_⟩
    · rintro t ht
      cases ht
    · cases h.2
  | cons t ts ih =>
    obtain ⟨hfalse, htrue⟩ := ih
    by_cases ht : t = .star
    · subst ht
      have hblind : ¬ EndsBlind (.star :: ts) := by
        rw [endsBlind_head (t := .star) Bool.false_ne_true]
        simp [Token.nothing]
      rw [matchTokens, endsInStar_star]
      by_cases hall : allStars ts = true
      · rw [if_pos hall]
        exact ⟨iff_of_false (by simp) hblind, iff_of_true rfl (Or.inl hall)⟩
      · rw [if_neg hall, or_iff_right hall, ← htrue]
        rw [starRounds_beyond]
        refine ⟨iff_of_false ?_ hblind, ?_⟩
        · split
          · simp
          · assumption
        · split
          · rename_i hno
            simp [hno]
          · exact Iff.rfl
    · rw [matchTokens_cons ht, tries_beyond ht, endsInStar_cons ht]
      by_cases hblind : t.isBlind = true
      · rw [if_pos hblind, endsBlind_cons hblind]
        simp only [hblind, true_and]
        exact ⟨hfalse, htrue⟩
      · rw [if_neg hblind, endsBlind_head hblind]
        have hstar : ¬ (t.isBlind = true ∧ EndsInStar ts) := fun h => hblind h.1
        by_cases hnothing : t = .nothing
        · rw [if_pos hnothing]
          exact ⟨iff_of_true rfl hnothing, iff_of_false (by simp [afterTry]) hstar⟩
        · rw [if_neg hnothing]
          exact ⟨iff_of_false (by simp [afterTry]) hnothing, iff_of_false (by simp [afterTry]) hstar⟩

theorem matchTokens_empty (nocase : Bool) (ts : List Token) :
    (ReachesOpen nocase ts [] ∧ matchTokens nocase ts (.within []) = none) ∨
      ¬ ReachesOpen nocase ts [] ∧
        ((∃ t rest, ts = t :: rest ∧ t.swallowsNul nocase = true ∧
            matchTokens nocase ts (.within []) = matchTokens nocase rest .beyond ∧
            [] ∉ tokensLanguage nocase ts) ∨
          (∀ t rest, ts = t :: rest → t.swallowsNul nocase = false) ∧
            Answers (matchTokens nocase ts (.within [])) ([] ∈ tokensLanguage nocase ts)) := by
  rw [nil_mem_tokensLanguage]
  cases ts with
  | nil => exact Or.inr ⟨not_reachesOpen_nil, Or.inr ⟨by simp, true, rfl, iff_of_true rfl rfl⟩⟩
  | cons t ts =>
    rw [reachesOpen_empty]
    by_cases ht : t = .star
    · subst ht
      refine Or.inr ⟨Bool.false_ne_true, Or.inr ⟨?_, ?_⟩⟩
      · intro t rest h
        cases h
        rfl
      · have hall : allStars (.star :: ts) = allStars ts := rfl
        rw [matchTokens, hall]
        cases h : allStars ts with
        | true => exact ⟨true, rfl, Iff.rfl⟩
        | false => exact ⟨false, rfl, Iff.rfl⟩
    · have hnot : allStars (t :: ts) = false := by simp [allStars, ht]
      rw [matchTokens_cons ht, hnot]
      cases hopen : t.isOpen with
      | true => exact Or.inl ⟨rfl, by rw [tries_open hopen]; rfl⟩
      | false =>
        rw [tries_empty ht hopen]
        refine Or.inr ⟨Bool.false_ne_true, ?_⟩
        cases hnul : t.swallowsNul nocase with
        | true => exact Or.inl ⟨t, ts, rfl, hnul, rfl, Bool.false_ne_true⟩
        | false =>
          refine Or.inr ⟨?_, false, rfl, Iff.rfl⟩
          intro t' rest h
          cases h
          exact hnul

/-! ## The condition -/

theorem afterNul_of_ne {P : List Token → Prop} (hs : s ≠ []) : AfterNul nocase P ts s :=
  fun _ _ h => absurd h hs

theorem afterNul_cons {P : List Token → Prop} {t : Token} {rest : List Token} (hnul : t.swallowsNul nocase = true) :
    AfterNul nocase P (t :: rest) [] ↔ P rest := by
  constructor
  · intro h
    exact h t rest rfl rfl hnul
  · rintro h t' rest' - heq -
    cases heq
    exact h

/-- `stringmatchlen` ends and reads nothing behind the NUL bytes exactly when it comes to no class with an
open escape and, where the first token takes the NUL byte of an empty string, the others do not look at the
string and end without a star or with one. -/
theorem glob_stays_inside_iff (nocase : Bool) (pattern s : Bytes) :
    (stringmatchlen nocase pattern (.within s)).isSome = true ↔
      ¬ ReachesOpen nocase (tokens pattern) s ∧
        AfterNul nocase (fun rest => EndsBlind rest ∨ EndsInStar rest) (tokens pattern) s := by
  rw [stringmatchlen_eq]
  by_cases hs : s = []
  case neg =>
    rcases matchTokens_within nocase (tokens pattern) hs with ⟨hreach, hnone⟩ | ⟨hreach, b, hb, -⟩
    · rw [hnone]
      exact iff_of_false Bool.false_ne_true fun h => h.1 hreach
    · rw [hb]
      exact iff_of_true rfl ⟨hreach, afterNul_of_ne hs⟩
  case pos =>
    subst hs
    rcases matchTokens_empty nocase (tokens pattern) with
      ⟨hreach, hnone⟩ | ⟨hreach, ⟨t, rest, hts, hnul, heq, -⟩ | ⟨hfirst, b, hb, -⟩⟩
    · rw [hnone]
      exact iff_of_false Bool.false_ne_true fun h => h.1 hreach
    · obtain ⟨hfalse, htrue⟩ := matchTokens_beyond nocase rest
      rw [hts] at hreach heq ⊢
      rw [heq, afterNul_cons hnul, ← hfalse, ← htrue]
      simp only [hreach, not_false_eq_true, true_and]
      cases matchTokens nocase rest .beyond with
      | none => simp
      | some b => cases b <;> simp
    · rw [hb]
      refine iff_of_true rfl ⟨hreach, fun t rest _ hts hnul => ?_⟩
      rw [hfirst t rest hts] at hnul
      cases hnul

/-- The string is read behind its NUL byte, and the pattern behind its own. -/
theorem glob_reads_beyond : stringmatchlen false (ascii "[^a]b") (.within []) = none ∧
    stringmatchlen false (ascii "[\\") (.within (ascii "a")) = none := by
  have hclass : tokens (ascii "[^a]b") = [.cls true [.char 97], .char 98] := by
    have hascii : ascii "[^a]b" = [91, 94, 97, 93, 98] := by decide
    have hrest : (classItems (classBody [94, 97, 93, 98])).2 = some [98] := by decide
    rw [hascii, tokens_class hrest]
    simp [tokens, classItems, classBody, classNot, literal]
  have hopen : tokens (ascii "[\\") = [.openCls false []] := by
    have hascii : ascii "[\\" = [91, 92] := by decide
    rw [hascii, tokens_openClass (by decide)]
    rfl
  rw [stringmatchlen_eq, stringmatchlen_eq, hclass, hopen]
  exact ⟨rfl, rfl⟩

/-- `stringmatchlen` answers whether the string is in the language of the pattern exactly when it comes to no
class with an open escape and, where the first token takes the NUL byte of an empty string, the others do not
look at the string and end without a star. -/
theorem glob_right_iff (nocase : Bool) (pattern s : Bytes) :
    Answers (stringmatchlen nocase pattern (.within s)) (s ∈ globLanguage nocase pattern) ↔
      ¬ ReachesOpen nocase (tokens pattern) s ∧ AfterNul nocase EndsBlind (tokens pattern) s := by
  rw [stringmatchlen_eq]
  unfold globLanguage
  have hnone : ∀ {p : Prop}, ¬ Answers none p := by
    rintro p ⟨b, hb, -⟩
    cases hb
  by_cases hs : s = []
  case neg =>
    rcases matchTokens_within nocase (tokens pattern) hs with ⟨hreach, hn⟩ | ⟨hreach, hok⟩
    · rw [hn]
      exact iff_of_false hnone fun h => h.1 hreach
    · exact iff_of_true hok ⟨hreach, afterNul_of_ne hs⟩
  case pos =>
    subst hs
    rcases matchTokens_empty nocase (tokens pattern) with
      ⟨hreach, hn⟩ | ⟨hreach, ⟨t, rest, hts, hnul, heq, hmem⟩ | ⟨hfirst, hok⟩⟩
    · rw [hn]
      exact iff_of_false hnone fun h => h.1 hreach
    · rw [hts] at hreach heq hmem ⊢
      rw [heq, afterNul_cons hnul, ← (matchTokens_beyond nocase rest).1]
      simp only [hreach, not_false_eq_true, true_and]
      constructor
      · rintro ⟨b, hb, hiff⟩
        cases b with
        | true => exact absurd (hiff.mp rfl) hmem
        | false => exact hb
      · exact fun h => ⟨false, h, iff_of_false Bool.false_ne_true hmem⟩
    · refine iff_of_true hok ⟨hreach, fun t rest _ hts hnul => ?_⟩
      rw [hfirst t rest hts] at hnul
      cases hnul

/-- A class that takes the NUL byte, and a star: the empty string matches. -/
theorem glob_wrong_on_empty : stringmatchlen false (ascii "[^a]*") (.within []) = some true ∧
    [] ∉ globLanguage false (ascii "[^a]*") := by
  have htokens : tokens (ascii "[^a]*") = [.cls true [.char 97], .star] := by
    have hascii : ascii "[^a]*" = [91, 94, 97, 93, 42] := by decide
    have hrest : (classItems (classBody [94, 97, 93, 42])).2 = some [42] := by decide
    rw [hascii, tokens_class hrest]
    simp [tokens, classItems, classBody, classNot]
  rw [stringmatchlen_eq, globLanguage, htokens, nil_mem_tokensLanguage]
  exact ⟨rfl, by decide⟩

end Languages

end RedisCluster.Util.Glob
