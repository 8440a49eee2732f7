import RedisCluster.Util.Strings

/-!
# `aof.c`: a command as text, and reading it back

Objects are their contents. A file is the list of the bytes that are still to be read.
-/

namespace RedisCluster.Aof

open RedisCluster.Util

/-! ## Numbers -/

def toLongLong (n : Int) : Int := Int.bmod n (2 ^ 64)

/-- What `strtoll` gives: the value, whether it was out of range, and the bytes from `eptr` on. -/
structure Strtoll where
  value : Int
  erange : Bool
  eptr : Bytes
  deriving DecidableEq

def digitsValue (ds : Bytes) : Nat := ds.foldl (fun v c => v * 10 + (c.toNat - 48)) 0

/-- A value out of range is set to the nearest end. -/
def clampLongLong (n : Int) (rest : Bytes) : Strtoll :=
  if n < -(2 ^ 63) then { value := -(2 ^ 63), erange := true, eptr := rest }
  else if n ≥ 2 ^ 63 then { value := 2 ^ 63 - 1, erange := true, eptr := rest }
  else { value := n, erange := false, eptr := rest }

def strtoll (s : Bytes) : Strtoll :=
  let t := s.dropWhile isspace
  let u := if t.head? = some 45 ∨ t.head? = some 43 then t.tail else t
  let ds := u.takeWhile isDigit
  if ds = [] then { value := 0, erange := false, eptr := s }
  else
    clampLongLong (if t.head? = some 45 then -(digitsValue ds : Int) else digitsValue ds)
      (u.dropWhile isDigit)

def getLongLongFromObject (s : Bytes) : Option Int :=
  let r := strtoll s
  if isspace (s.headD 0) ∨ r.eptr.headD 0 ≠ 0 ∨ r.erange then none else some r.value

/-- `atoi`: the conversion to `int` keeps the low 32 bits. -/
def atoi (s : Bytes) : Int := Int.bmod (strtoll s).value (2 ^ 32)

/-! ## Writing -/

def crlf : Bytes := [CR, LF]

def catArgument (o : Bytes) : Bytes := 36 :: ll2string o.length ++ crlf ++ o ++ crlf

/-- What `catAppendOnlyGenericCommand` appends. -/
def commandText (argv : List Bytes) : Bytes :=
  42 :: ll2string argv.length ++ crlf ++ argv.flatMap catArgument

def catAppendOnlyGenericCommand (dst : Bytes) (argv : List Bytes) : Bytes := dst ++ commandText argv

/-! ## Reading -/

/-- `fgets` with room for `n` bytes: the line and what follows; nothing at the end of the file. -/
def fgets : Nat → Bytes → Bytes × Bytes
  | 0, fp => ([], fp)
  | _ + 1, [] => ([], [])
  | n + 1, c :: fp =>
    if c = LF then ([c], fp)
    else
      let r := fgets n fp
      (c :: r.1, r.2)

/-- The loop over the arguments in `loadAppendOnlyFile`. -/
def readArgs : Nat → Bytes → Option (List Bytes × Bytes)
  | 0, fp => some ([], fp)
  | n + 1, fp =>
    let r := fgets 127 fp
    if r.1.head? ≠ some 36 then none
    else
      let len := ((strtoll r.1.tail).value % 2 ^ 64).toNat
      if r.2.length < len + 2 then none
      else (readArgs n (r.2.drop (len + 2))).map fun q => (r.2.take len :: q.1, q.2)

end RedisCluster.Aof
