import Mathlib.Data.Nat.Digits.Lemmas

/-!
# Strings of bytes

The functions of `util.c` and `sds.c` that the request parser uses. An sds string is the list of its
bytes; the NUL that follows the last one is where `strchr` stops at the latest.
-/

namespace RedisCluster.Util

abbrev Bytes := List UInt8

def CR : UInt8 := 13
def LF : UInt8 := 10

def ascii (text : String) : Bytes := text.toList.map fun c => UInt8.ofNat c.toNat

/-- `strchr`: the distance to the first `c` before a NUL byte. -/
def strchr (c : UInt8) : Bytes → Option Nat
  | [] => none
  | b :: bs => if b = c then some 0 else if b = 0 then none else (strchr c bs).map (· + 1)

/-! ## Integers -/

def ULLONG_MAX : Nat := 2 ^ 64 - 1
def LLONG_MAX : Nat := 2 ^ 63 - 1

def isDigit (c : UInt8) : Bool := 48 ≤ c ∧ c ≤ 57

/-- The loop of `string2ll` over the digits after the first one, with its checks for overflow. -/
def string2llDigits (v : Nat) : Bytes → Option Nat
  | [] => some v
  | c :: cs =>
    if isDigit c then
      if v > ULLONG_MAX / 10 then none
      else if v * 10 > ULLONG_MAX - (c.toNat - 48) then none
      else string2llDigits (v * 10 + (c.toNat - 48)) cs
    else none

/-- The unsigned part of `string2ll`: the first digit is not 0. -/
def string2llMagnitude : Bytes → Option Nat
  | [] => none
  | c :: cs => if 49 ≤ c ∧ c ≤ 57 then string2llDigits (c.toNat - 48) cs else none

/-- `string2ll`: the canonical decimal spelling of a signed 64-bit integer. -/
def string2ll (s : Bytes) : Option Int :=
  match s with
  | [] => none
  | [48] => some 0
  | 45 :: cs =>
    (string2llMagnitude cs).bind fun v => if v > LLONG_MAX + 1 then none else some (-(v : Int))
  | cs => (string2llMagnitude cs).bind fun v => if v > LLONG_MAX then none else some (v : Int)

def decimal (n : Nat) : Bytes :=
  if n = 0 then [48] else (Nat.digits 10 n).reverse.map fun d => UInt8.ofNat (48 + d)

def ll2string (n : Int) : Bytes := if n < 0 then 45 :: decimal n.natAbs else decimal n.natAbs

/-! ## Splitting a line into arguments -/

def isspace (c : UInt8) : Bool := c = 32 ∨ (9 ≤ c ∧ c ≤ 13)

def is_hex_digit (c : UInt8) : Bool :=
  (48 ≤ c ∧ c ≤ 57) ∨ (97 ≤ c ∧ c ≤ 102) ∨ (65 ≤ c ∧ c ≤ 70)

def hex_digit_to_int (c : UInt8) : UInt8 :=
  if 48 ≤ c ∧ c ≤ 57 then c - 48
  else if 97 ≤ c ∧ c ≤ 102 then c - 97 + 10
  else if 65 ≤ c ∧ c ≤ 70 then c - 65 + 10
  else 0

/-- What an escaped character of a quoted argument stands for. -/
def unescape (c : UInt8) : UInt8 :=
  if c = 110 then 10 else if c = 114 then 13 else if c = 116 then 9
  else if c = 98 then 8 else if c = 97 then 7 else c

/-- The state of the inner loop of `sdssplitargs`: `inq`, `insq` or neither. -/
inductive Quoting where
  | bare
  | inq
  | insq

/-- The closing quote must be followed by a space or the end of the line. -/
def closesWell (rest : Bytes) : Bool :=
  match rest with
  | [] => true
  | c :: _ => c = 0 || isspace c

/-- The inner loop of `sdssplitargs`: the rest of one argument and what follows it, or `none` on
unbalanced quotes. A NUL byte ends the line. -/
def splitArg : Quoting → Bytes → Bytes → Option (Bytes × Bytes)
  | .bare, current, [] => some (current, [])
  | _, _, [] => none
  | .inq, current, 92 :: 120 :: a :: b :: rest =>
    if is_hex_digit a && is_hex_digit b then
      splitArg .inq (current ++ [hex_digit_to_int a * 16 + hex_digit_to_int b]) rest
    else splitArg .inq (current ++ [120]) (a :: b :: rest)
  | .inq, current, c :: rest =>
    if c = 92 then
      match rest with
      | [] => none
      | d :: rest => if d = 0 then none else splitArg .inq (current ++ [unescape d]) rest
    else if c = 34 then if closesWell rest then some (current, rest) else none
    else if c = 0 then none
    else splitArg .inq (current ++ [c]) rest
  | .insq, current, 92 :: 39 :: rest => splitArg .insq (current ++ [39]) rest
  | .insq, current, c :: rest =>
    if c = 39 then if closesWell rest then some (current, rest) else none
    else if c = 0 then none
    else splitArg .insq (current ++ [c]) rest
  | .bare, current, c :: rest =>
    if c = 32 ∨ c = 10 ∨ c = 13 ∨ c = 9 then some (current, rest)
    else if c = 0 then some (current, [])
    else if c = 34 then splitArg .inq current rest
    else if c = 39 then splitArg .insq current rest
    else splitArg .bare (current ++ [c]) rest

/-- The outer loop of `sdssplitargs`; every turn takes at least one byte of `line`. -/
def splitArgs : Nat → Bytes → Option (List Bytes)
  | 0, _ => some []
  | fuel + 1, line =>
    match line.dropWhile isspace with
    | [] => some []
    | c :: rest =>
      if c = 0 then some []
      else (splitArg .bare [] (c :: rest)).bind fun (arg, rest) =>
        (splitArgs fuel rest).map (arg :: ·)

/-- `sdssplitargs`; `none` stands for unbalanced quotes. -/
def sdssplitargs (line : Bytes) : Option (List Bytes) := splitArgs (line.length + 1) line

end RedisCluster.Util

/-!
## `util.c`: numbers as strings, with the machine's arithmetic

`v` is an `unsigned long long`; what is computed with it is reduced to 64 bits.
-/

namespace RedisCluster.Util.Numbers

def ull (n : Nat) : Nat := n % 2 ^ 64

/-- The conversion of an `unsigned long long` to `long long`. -/
def toLongLong (v : Nat) : Int := if v < 2 ^ 63 then (v : Int) else (v : Int) - 2 ^ 64

/-! ## Reading -/

/-- The loop of `string2ll`: the value with the bytes from `p` on, or `none` where 0 is returned. -/
def string2llLoop (v : Nat) : Bytes → Option (Nat × Bytes)
  | [] => some (v, [])
  | c :: p =>
    if isDigit c then
      if v > ULLONG_MAX / 10 then none
      else if ull (v * 10) > ULLONG_MAX - (c.toNat - 48) then none
      else string2llLoop (ull (ull (v * 10) + (c.toNat - 48))) p
    else some (v, c :: p)

def string2llSigned (negative : Bool) (v : Nat) : Option Int :=
  if negative then if v > LLONG_MAX + 1 then none else some (toLongLong (ull (2 ^ 64 - v)))
  else if v > LLONG_MAX then none
  else some (toLongLong v)

/-- What follows the sign in a string of `slen` bytes. -/
def string2llUnsigned (slen : Nat) (negative : Bool) : Bytes → Option Int
  | [] => none
  | c :: p =>
    if 49 ≤ c ∧ c ≤ 57 then
      match string2llLoop (c.toNat - 48) p with
      | some (v, []) => string2llSigned negative v
      | _ => none
    else if c = 48 ∧ slen = 1 then some 0
    else none

/-- `string2ll`, `none` for the return value 0. -/
def string2ll (s : Bytes) : Option Int :=
  if s.length = 0 then none
  else if s.length = 1 ∧ s.head? = some 48 then some 0
  else if s.head? = some 45 then string2llUnsigned s.length true s.tail
  else string2llUnsigned s.length false s

/-! ## Writing -/

/-- The digits in front of what is in the buffer. -/
def ll2stringLoop : Nat → Nat → Bytes → Bytes
  | 0, _, buf => buf
  | fuel + 1, v, buf =>
    let buf := UInt8.ofNat (48 + v % 10) :: buf
    if v / 10 = 0 then buf else ll2stringLoop fuel (v / 10) buf

/-- What `ll2string` puts into `s` before the NUL. The smallest value has no opposite, and its conversion is the
right one; a 64-bit number has at most 20 digits. -/
def ll2string (len : Nat) (value : Int) : Bytes :=
  if len = 0 then []
  else
    let v := if value < 0 then (-value % 2 ^ 64).toNat else value.toNat
    let buf := ll2stringLoop 20 v []
    let p := if value < 0 then 45 :: buf else buf
    p.take (if p.length + 1 > len then len - 1 else p.length)

/-! ## Spellings -/

/-- The number that digits write behind those of `v`. -/
def appendDigits (v : Nat) (ds : Bytes) : Nat := ds.foldl (fun v d => v * 10 + (d.toNat - 48)) v

/-- The canonical decimal spelling of an integer. -/
inductive Spells : Bytes → Int → Prop where
  | zero : Spells [48] 0
  | positive (c : UInt8) (ds : Bytes) (hc : 49 ≤ c ∧ c ≤ 57) (hds : ∀ d ∈ ds, isDigit d = true) :
    Spells (c :: ds) (appendDigits 0 (c :: ds))
  | negative (c : UInt8) (ds : Bytes) (hc : 49 ≤ c ∧ c ≤ 57) (hds : ∀ d ∈ ds, isDigit d = true) :
    Spells (45 :: c :: ds) (-(appendDigits 0 (c :: ds) : Int))

def IsLongLong (n : Int) : Prop := -(2 ^ 63) ≤ n ∧ n < 2 ^ 63

end RedisCluster.Util.Numbers
