import RedisCluster.Lib.Bytes
import RedisCluster.Util.Strings

/-!
# `ziplist.c`: entries

A pointer into a ziplist is the bytes from it on. An entry is the length of the one before it, an encoding with a length,
and the content.
-/

namespace RedisCluster.Ziplist

open RedisCluster.Lib RedisCluster.Util

def ZIP_END : Nat := 255
def ZIP_BIGLEN : Nat := 254
def ZIP_STR_MASK : Nat := 0xc0
def ZIP_STR_06B : Nat := 0 <<< 6
def ZIP_STR_14B : Nat := 1 <<< 6
def ZIP_STR_32B : Nat := 2 <<< 6
def ZIP_INT_16B : Nat := 0xc0 ||| 0 <<< 4
def ZIP_INT_32B : Nat := 0xc0 ||| 1 <<< 4
def ZIP_INT_64B : Nat := 0xc0 ||| 2 <<< 4
def ZIP_INT_24B : Nat := 0xc0 ||| 3 <<< 4
def ZIP_INT_8B : Nat := 0xfe
def ZIP_INT_IMM_MASK : Nat := 0x0f
def ZIP_INT_IMM_MIN : Nat := 0xf1
def ZIP_INT_IMM_MAX : Nat := 0xfd
def UCHAR_MAX : Nat := 255

def byteAt (p : Bytes) (i : Nat) : Nat := (p.getD i 0).toNat

def zipIsStr (enc : Nat) : Bool := enc &&& ZIP_STR_MASK < ZIP_STR_MASK

/-! ## Decoding -/

def zipEntryEncoding (p : Bytes) : Nat :=
  let encoding := byteAt p 0
  if encoding < ZIP_STR_MASK then encoding &&& ZIP_STR_MASK else encoding

def zipIntSize (encoding : Nat) : Nat :=
  if encoding = ZIP_INT_8B then 1
  else if encoding = ZIP_INT_16B then 2
  else if encoding = ZIP_INT_24B then 3
  else if encoding = ZIP_INT_32B then 4
  else if encoding = ZIP_INT_64B then 8
  else 0

/-- `ZIP_DECODE_LENGTH`: the encoding, the size of the length field and the length. -/
def zipDecodeLength (p : Bytes) : Nat × Nat × Nat :=
  let encoding := zipEntryEncoding p
  if encoding < ZIP_STR_MASK then
    if encoding = ZIP_STR_06B then (encoding, 1, byteAt p 0 &&& 0x3f)
    else if encoding = ZIP_STR_14B then (encoding, 2, (byteAt p 0 &&& 0x3f) <<< 8 ||| byteAt p 1)
    else (encoding, 5, byteAt p 1 <<< 24 ||| byteAt p 2 <<< 16 ||| byteAt p 3 <<< 8 ||| byteAt p 4)
  else (encoding, 1, zipIntSize encoding)

def zipDecodePrevlensize (p : Bytes) : Nat := if byteAt p 0 < ZIP_BIGLEN then 1 else 5

/-- `zipLoadInteger`; no value where it asserts. -/
def zipLoadInteger (p : Bytes) (encoding : Nat) : Option Int :=
  if encoding = ZIP_INT_8B then some (leInt (p.take 1))
  else if encoding = ZIP_INT_16B then some (leInt (p.take 2))
  else if encoding = ZIP_INT_32B then some (leInt (p.take 4))
  else if encoding = ZIP_INT_24B then some (leInt (0 :: p.take 3) / 256)
  else if encoding = ZIP_INT_64B then some (leInt (p.take 8))
  else if encoding ≥ ZIP_INT_IMM_MIN ∧ encoding ≤ ZIP_INT_IMM_MAX then some (((encoding &&& ZIP_INT_IMM_MASK : Nat) : Int) - 1)
  else none

/-- `zipTryEncoding`: the value and the encoding. -/
def zipTryEncoding (entry : Bytes) : Option (Int × Nat) :=
  if entry.length ≥ 32 ∨ entry.length = 0 then none
  else
    (Numbers.string2ll entry).map fun value =>
      (value,
        if 0 ≤ value ∧ value ≤ 12 then ZIP_INT_IMM_MIN + value.toNat
        else if -2 ^ 7 ≤ value ∧ value < 2 ^ 7 then ZIP_INT_8B
        else if -2 ^ 15 ≤ value ∧ value < 2 ^ 15 then ZIP_INT_16B
        else if -2 ^ 23 ≤ value ∧ value < 2 ^ 23 then ZIP_INT_24B
        else if -2 ^ 31 ≤ value ∧ value < 2 ^ 31 then ZIP_INT_32B
        else ZIP_INT_64B)

/-! ## Comparing -/

def ziplistCompare (p sstr : Bytes) : Except String Bool :=
  if byteAt p 0 = ZIP_END then .ok false
  else
    let prevlensize := zipDecodePrevlensize p
    let entry := zipDecodeLength (p.drop prevlensize)
    let q := p.drop (prevlensize + entry.2.1)
    if zipIsStr entry.1 then .ok (decide (entry.2.2 = sstr.length) && decide (q.take sstr.length = sstr))
    else
      match zipTryEncoding sstr with
      | some (sval, _) =>
        match zipLoadInteger q entry.1 with
        | some zval => .ok (decide (zval = sval))
        | none => .error "assert(NULL)"
      | none => .ok false

/-- The number that `ziplistFind` looks for: `vencoding` is 0 until it is asked for, and `UCHAR_MAX` where the string is no
number. -/
def findNumber (vstr : Bytes) (vencoding : Nat) (vll : Int) : Nat × Int :=
  if vencoding = 0 then
    match zipTryEncoding vstr with
    | some (v, encoding) => (encoding, v)
    | none => (UCHAR_MAX, vll)
  else (vencoding, vll)

/-- The loop of `ziplistFind`. `skipcnt` is an `int` that is only compared with 0. -/
def ziplistFindLoop (vstr : Bytes) (skip : UInt32) : Nat → Bytes → UInt32 → Nat → Int → Except String (Option Bytes)
  | 0, _, _, _, _ => .error "no end"
  | fuel + 1, p, skipcnt, vencoding, vll =>
    if byteAt p 0 = ZIP_END then .ok none
    else
      let prevlensize := zipDecodePrevlensize p
      let entry := zipDecodeLength (p.drop prevlensize)
      let q := p.drop (prevlensize + entry.2.1)
      if skipcnt = 0 then
        if zipIsStr entry.1 then
          if entry.2.2 = vstr.length ∧ q.take vstr.length = vstr then .ok (some p)
          else ziplistFindLoop vstr skip fuel (q.drop entry.2.2) skip vencoding vll
        else
          let number := findNumber vstr vencoding vll
          if number.1 ≠ UCHAR_MAX then
            match zipLoadInteger q entry.1 with
            | some ll =>
              if ll = number.2 then .ok (some p)
              else ziplistFindLoop vstr skip fuel (q.drop entry.2.2) skip number.1 number.2
            | none => .error "assert(NULL)"
          else ziplistFindLoop vstr skip fuel (q.drop entry.2.2) skip number.1 number.2
      else ziplistFindLoop vstr skip fuel (q.drop entry.2.2) (skipcnt - 1) vencoding vll

def ziplistFind (p vstr : Bytes) (skip : UInt32) : Except String (Option Bytes) :=
  ziplistFindLoop vstr skip (p.length + 1) p 0 0 0

/-! ## Entries -/

def IsIntEncoding (encoding : Nat) : Prop :=
  encoding ∈ [ZIP_INT_8B, ZIP_INT_16B, ZIP_INT_24B, ZIP_INT_32B, ZIP_INT_64B] ∨
    (ZIP_INT_IMM_MIN ≤ encoding ∧ encoding ≤ ZIP_INT_IMM_MAX)

/-- An entry: its fields are as long as their first bytes say. -/
structure Entry where
  prevlen : Bytes
  header : Bytes
  content : Bytes
  prevlen_size : prevlen.length = zipDecodePrevlensize prevlen
  prevlen_end : byteAt prevlen 0 ≠ ZIP_END
  header_size : header.length = (zipDecodeLength header).2.1
  content_size : content.length = (zipDecodeLength header).2.2
  encoding : zipIsStr (zipEntryEncoding header) = true ∨ IsIntEncoding (zipEntryEncoding header)

def Entry.bytes (e : Entry) : Bytes := e.prevlen ++ e.header ++ e.content

def entriesBytes (es : List Entry) : Bytes := es.flatMap Entry.bytes ++ [255]

def Entry.text (e : Entry) : Bytes :=
  if zipIsStr (zipEntryEncoding e.header) then e.content
  else ll2string ((zipLoadInteger e.content (zipEntryEncoding e.header)).getD 0)

/-- The first entry with the text at an index divisible by `skip + 1`. -/
def firstWithText (es : List Entry) (v : Bytes) (skip : UInt32) : Option Nat :=
  (List.range es.length).find? fun i => i % (skip.toNat + 1) = 0 ∧ (es[i]?).any fun e => e.text = v

end RedisCluster.Ziplist
