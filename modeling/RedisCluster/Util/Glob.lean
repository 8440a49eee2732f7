import Mathlib.Computability.Language
import RedisCluster.Util.Strings

/-!
# `util.c`: glob patterns

`pattern` and `patternLen` move together, and so do `string` and `stringLen`: a pointer with its length is
the list of the bytes that are left, with the NUL byte after them. `none` stands for a call that reads
behind a NUL byte or does not end. A `char` is signed.
-/

namespace RedisCluster.Util.Glob

/-- Where `string` points to. Behind the NUL byte nothing can be read, and `stringLen` is below zero. -/
inductive StringAt where
  | within (rest : Bytes)
  | beyond
  deriving DecidableEq, Repr

namespace StringAt

def char : StringAt → Option UInt8
  | within [] => some 0
  | within (b :: _) => some b
  | beyond => none

def next : StringAt → StringAt
  | within (_ :: rest) => within rest
  | within [] => beyond
  | beyond => beyond

def isEnd : StringAt → Bool
  | within [] => true
  | _ => false

end StringAt

def charInt (b : UInt8) : Int := if b < 128 then (b.toNat : Int) else (b.toNat : Int) - 256

def tolower (c : Int) : Int := if 65 ≤ c ∧ c ≤ 90 then c + 32 else c

def sameChar (nocase : Bool) (p s : UInt8) : Bool :=
  if nocase then tolower (charInt p) = tolower (charInt s) else p = s

/-- `c` is in the range from `start` to `last`, in whatever order the two stand. -/
def inRange (nocase : Bool) (start last c : UInt8) : Bool :=
  let lo := min (charInt start) (charInt last)
  let hi := max (charInt start) (charInt last)
  if nocase then tolower lo ≤ tolower (charInt c) ∧ tolower (charInt c) ≤ tolower hi
  else lo ≤ charInt c ∧ charInt c ≤ hi

/-- The loop over a class: whether the byte matched, and the pattern after the class. Where the pattern
ends, `pattern--` and the `pattern++` after the class cancel out. -/
def classLoop (nocase : Bool) (string : StringAt) : Bool → Bytes → Option (Bool × Bytes)
  | matched, [] => some (matched, [])
  | _, 92 :: [] => none
  | matched, 92 :: d :: pattern =>
    string.char.bind fun s => classLoop nocase string (matched || d = s) pattern
  | matched, 93 :: pattern => some (matched, pattern)
  | matched, c :: 45 :: e :: pattern =>
    string.char.bind fun s => classLoop nocase string (matched || inRange nocase c e s) pattern
  | matched, c :: pattern =>
    string.char.bind fun s => classLoop nocase string (matched || sameChar nocase c s) pattern

theorem classLoop_length {nocase : Bool} {string : StringAt} {matched m : Bool} {pattern rest : Bytes}
    (h : classLoop nocase string matched pattern = some (m, rest)) : rest.length ≤ pattern.length := by
  fun_induction classLoop nocase string matched pattern
  case case1 => cases h; exact Nat.le_refl _
  case case2 => cases h
  case case3 ih =>
    obtain ⟨s, -, hs⟩ := Option.bind_eq_some_iff.mp h
    have := ih s hs
    simp only [List.length_cons]
    omega
  case case4 => cases h; exact Nat.le_succ _
  case case5 ih =>
    obtain ⟨s, -, hs⟩ := Option.bind_eq_some_iff.mp h
    have := ih s hs
    simp only [List.length_cons]
    omega
  case case6 ih =>
    obtain ⟨s, -, hs⟩ := Option.bind_eq_some_iff.mp h
    exact Nat.le_succ_of_le (ih s hs)

def skipStars (pattern : Bytes) : Bytes := pattern.dropWhile (· = 42)

theorem skipStars_length (pattern : Bytes) : (skipStars pattern).length ≤ pattern.length :=
  (List.dropWhile_sublist _).length_le

/-- The rounds of the loop over `string` behind a star. -/
def starLoop (rest : StringAt → Option Bool) : Bytes → Option Bool
  | [] => some false
  | b :: s =>
    match rest (.within (b :: s)) with
    | some false => starLoop rest s
    | r => r

/-- Below zero `stringLen` does not come to zero, and each round is like the first. -/
def starRounds (rest : StringAt → Option Bool) : StringAt → Option Bool
  | .within s => starLoop rest s
  | .beyond =>
    match rest .beyond with
    | some false => none
    | r => r

/-- What follows when a byte of the string is matched: `pattern` is behind what matched it. -/
def afterByte (loop : StringAt → Option Bool) (pattern : Bytes) (string : StringAt) : Option Bool :=
  if string.isEnd then some (skipStars pattern).isEmpty else loop string

def classNot (pattern : Bytes) : Bool := pattern.head? = some 94

def classBody (pattern : Bytes) : Bytes := if classNot pattern then pattern.tail else pattern

theorem classBody_length (pattern : Bytes) : (classBody pattern).length ≤ pattern.length := by
  unfold classBody
  split
  · exact List.length_tail ▸ Nat.sub_le _ _
  · exact Nat.le_refl _

/-- The byte that an escape or a plain byte stands for, and the pattern behind it. -/
def literal (c : UInt8) (pattern : Bytes) : UInt8 × Bytes :=
  if c = 92 then
    match pattern with
    | [] => (c, [])
    | d :: pattern => (d, pattern)
  else (c, pattern)

theorem literal_length (c : UInt8) (pattern : Bytes) : (literal c pattern).2.length ≤ pattern.length := by
  unfold literal
  split
  · cases pattern with
    | nil => exact Nat.le_refl _
    | cons d pattern => exact Nat.le_succ _
  · exact Nat.le_refl _

def stringmatchlen (nocase : Bool) : Bytes → StringAt → Option Bool
  | [], string => some string.isEnd
  | 42 :: pattern, string =>
    if skipStars pattern = [] then some true
    else starRounds (fun s => stringmatchlen nocase (skipStars pattern) s) string
  | 63 :: pattern, string =>
    if string.isEnd then some false
    else afterByte (fun s => stringmatchlen nocase pattern s) pattern string.next
  | 91 :: pattern, string =>
    match _h : classLoop nocase string false (classBody pattern) with
    | none => none
    | some (matched, rest) =>
      if matched = classNot pattern then some false
      else afterByte (fun s => stringmatchlen nocase rest s) rest string.next
  | c :: pattern, string =>
    string.char.bind fun s =>
      if sameChar nocase (literal c pattern).1 s then
        afterByte (fun s => stringmatchlen nocase (literal c pattern).2 s) (literal c pattern).2 string.next
      else some false
termination_by pattern _ => pattern.length
decreasing_by
  · exact Nat.lt_succ_of_le (skipStars_length pattern)
  · exact Nat.lt_succ_self _
  · exact Nat.lt_succ_of_le ((classLoop_length _h).trans (classBody_length pattern))
  · exact Nat.lt_succ_of_le (literal_length c pattern)

end RedisCluster.Util.Glob

/-!
## What a glob pattern means

A pattern is a list of tokens, and its language is the product of theirs: every string for a star, the
strings of one accepted byte for the others. In a class a backslash escapes the byte behind it, the first
unescaped `]` that is not the end of a range closes it, and the end of the pattern closes it too.
-/

namespace RedisCluster.Util.Glob

inductive ClassItem where
  | escaped (b : UInt8)
  | char (b : UInt8)
  | range (start last : UInt8)
  deriving DecidableEq, Repr

/-- An escaped byte is not folded to lower case. -/
def ClassItem.has (nocase : Bool) (s : UInt8) : ClassItem → Bool
  | .escaped b => b = s
  | .char b => sameChar nocase b s
  | .range start last => inRange nocase start last s

/-- `openCls` is a class that ends with the pattern in a backslash that has no byte to escape. -/
inductive Token where
  | star
  | any
  | char (b : UInt8)
  | cls (negated : Bool) (items : List ClassItem)
  | openCls (negated : Bool) (items : List ClassItem)
  deriving DecidableEq, Repr

namespace Token

/-- The byte is one that the token stands for. -/
def accepts (nocase : Bool) (s : UInt8) : Token → Bool
  | star => false
  | any => true
  | char b => sameChar nocase b s
  | cls negated items => (items.any fun i => i.has nocase s) != negated
  | openCls negated items => (items.any fun i => i.has nocase s) != negated

def language (nocase : Bool) : Token → Language UInt8
  | star => ⊤
  | t => {w | ∃ b, t.accepts nocase b = true ∧ w = [b]}

def isOpen : Token → Bool
  | openCls _ _ => true
  | _ => false

/-- The token is matched without a look at the string. -/
def isBlind : Token → Bool
  | any => true
  | cls true [] => true
  | _ => false

def nothing : Token := cls false []

/-- Unlike `?`, the token takes the NUL byte of an empty string for a byte of it. -/
def swallowsNul (nocase : Bool) : Token → Bool
  | any => false
  | t => t.accepts nocase 0

end Token

/-- The items of a class, and the pattern behind it. -/
def classItems : Bytes → List ClassItem × Option Bytes
  | [] => ([], some [])
  | 92 :: [] => ([], none)
  | 92 :: d :: pattern => (.escaped d :: (classItems pattern).1, (classItems pattern).2)
  | 93 :: pattern => ([], some pattern)
  | c :: 45 :: e :: pattern => (.range c e :: (classItems pattern).1, (classItems pattern).2)
  | c :: pattern => (.char c :: (classItems pattern).1, (classItems pattern).2)

theorem classItems_length {pattern rest : Bytes} (h : (classItems pattern).2 = some rest) :
    rest.length ≤ pattern.length := by
  fun_induction classItems pattern
  case case1 => cases h; exact Nat.le_refl _
  case case2 => cases h
  case case3 ih => exact (ih h).trans (by simp only [List.length_cons]; omega)
  case case4 => cases h; exact Nat.le_succ _
  case case5 ih => exact (ih h).trans (by simp only [List.length_cons]; omega)
  case case6 ih => exact (ih h).trans (Nat.le_succ _)

def tokens : Bytes → List Token
  | [] => []
  | 42 :: pattern => .star :: tokens pattern
  | 63 :: pattern => .any :: tokens pattern
  | 91 :: pattern =>
    match _h : (classItems (classBody pattern)).2 with
    | none => [.openCls (classNot pattern) (classItems (classBody pattern)).1]
    | some rest => .cls (classNot pattern) (classItems (classBody pattern)).1 :: tokens rest
  | c :: pattern => .char (literal c pattern).1 :: tokens (literal c pattern).2
termination_by pattern => pattern.length
decreasing_by
  · exact Nat.lt_succ_self _
  · exact Nat.lt_succ_self _
  · exact Nat.lt_succ_of_le ((classItems_length _h).trans (classBody_length pattern))
  · exact Nat.lt_succ_of_le (literal_length c pattern)

theorem tokens_class {pattern rest : Bytes} (h : (classItems (classBody pattern)).2 = some rest) :
    tokens (91 :: pattern) =
      .cls (classNot pattern) (classItems (classBody pattern)).1 :: tokens rest := by
  rw [tokens]
  split
  · rename_i hnone
    rw [hnone] at h
    cases h
  · rename_i rest' hsome
    rw [hsome] at h
    cases h
    rfl

theorem tokens_openClass {pattern : Bytes} (h : (classItems (classBody pattern)).2 = none) :
    tokens (91 :: pattern) = [.openCls (classNot pattern) (classItems (classBody pattern)).1] := by
  rw [tokens]
  split
  · rfl
  · rename_i rest hsome
    rw [hsome] at h
    cases h

def tokensLanguage (nocase : Bool) (ts : List Token) : Language UInt8 :=
  (ts.map (Token.language nocase)).prod

def globLanguage (nocase : Bool) (pattern : Bytes) : Language UInt8 :=
  tokensLanguage nocase (tokens pattern)

/-! ## Where the matcher goes wrong -/

/-- The tokens in front of a class with an open escape match a part of the string, and a byte of it is
left, or there are none. -/
def ReachesOpen (nocase : Bool) (ts : List Token) (s : Bytes) : Prop :=
  ∃ front t back s1 s2, ts = front ++ t :: back ∧ t.isOpen = true ∧ s = s1 ++ s2 ∧
    s1 ∈ tokensLanguage nocase front ∧ (s2 ≠ [] ∨ front = [])

/-- The tokens behind one that took the NUL byte end without a look at the string, and without a star. -/
def EndsBlind (ts : List Token) : Prop :=
  ∀ t ∈ (ts.dropWhile Token.isBlind).head?, t = .nothing

/-- The tokens consist of stars and of tokens that do not look at the string, with a star for the last. -/
def EndsInStar (ts : List Token) : Prop :=
  (∀ t ∈ ts, t = .star ∨ t.isBlind = true) ∧ ts.getLast? = some .star

/-- An empty string, whose NUL byte the first token takes: `P` of the tokens behind it. -/
def AfterNul (nocase : Bool) (P : List Token → Prop) (ts : List Token) (s : Bytes) : Prop :=
  ∀ t rest, s = [] → ts = t :: rest → t.swallowsNul nocase = true → P rest

end RedisCluster.Util.Glob
