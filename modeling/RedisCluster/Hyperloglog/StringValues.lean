import RedisCluster.Hyperloglog.Proofs.CacheProofs

/-!
# HLL commands on any string value

`isHLLObjectOrReply` looks at the header and, for the dense encoding, at the length; what follows a
sparse header is whatever SET, SETRANGE or APPEND put there. The pointer of an integer encoded value
is the integer itself.
-/

namespace RedisCluster.Hyperloglog

open RedisCluster.Util

/-- A string value; raw and embedded strings are their bytes. -/
inductive StringObj where
  | int (value : Int)
  | str (bytes : Bytes)
  deriving DecidableEq, Repr

def stringObjectLen : StringObj → Nat
  | .int value => (toString value).length
  | .str bytes => bytes.length

/-- The header of a string that is accepted; `none` inside is an error reply. -/
def isHLLObjectOrReply (o : StringObj) : Option (Option Hll) :=
  if stringObjectLen o < HLL_HDR_SIZE then some none
  else
    match o with
    | .int _ => none
    | .str bytes =>
      if bytes.take 4 ≠ [72, 89, 76, 76] then some none
      else if byteAt bytes 4 > 1 then some none
      else
        let encoding := if byteAt bytes 4 = 0 then Encoding.dense else Encoding.sparse
        if encoding = .dense ∧ bytes.length ≠ HLL_HDR_SIZE + HLL_DENSE_BYTES then some none
        else
          some (some ⟨encoding, littleEndian ((bytes.drop 8).take 8), bytes.drop HLL_HDR_SIZE⟩)

/-- The command has to look at the registers of the value at `key`. -/
def Command.uses : Command → Bytes → Prop
  | .pfadd _ key eles, k => k = key ∧ eles ≠ []
  | .pfcount keys, k => k ∈ keys
  | .pfmerge dest sources, k => k ∈ dest :: sources

/-- Among valid values no command leaves the string, and it finds 16384 registers or says that the
string is invalid. -/
def SafeHll (h : Hll) : Prop :=
  ∀ (estimate : ℚ → Nat → UInt64) (db : Db) (key : Bytes), db key = some h →
    (∀ k, k ≠ key → ∀ h', db k = some h' → Valid h') → ∀ command : Command, command.uses key →
      ∃ db' reply, step estimate db command = some (db', reply) ∧
        (reply = .invalidHll ∨ (registersOf h).length = HLL_REGISTERS)

def SafeValue (o : StringObj) : Prop :=
  ∃ accepted, isHLLObjectOrReply o = some accepted ∧ ∀ h, accepted = some h → SafeHll h

/-- The value is refused without looking behind its pointer, or it is dense, or its opcodes are whole
and stand for 16384 registers, or there are none and the cached cardinality is marked as invalid. -/
def WellFormed (o : StringObj) : Prop :=
  ∃ accepted, isHLLObjectOrReply o = some accepted ∧ ∀ h, accepted = some h →
    h.encoding = .dense ∨
      (Whole h.registers ∧ (sparseRegisters h.registers).length = HLL_REGISTERS) ∨
      (h.registers = [] ∧ HLL_VALID_CACHE h = false)

end RedisCluster.Hyperloglog
