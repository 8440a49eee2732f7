import RedisCluster.Aof.Format
import RedisCluster.Lib.Bytes
import RedisCluster.Util.Sds

/-!
# `lzf_d.c`: decompression

The compressor is not modelled: it looks for earlier occurrences through a table on the stack that it does not
initialize, so what it writes is not a function of its input. What it promises is `LzfContract`.
-/

namespace RedisCluster.Rdb

open RedisCluster.Util

/-- `n` bytes are copied one after the other from the place `ref` of the output to its end. -/
def copyBack (op : Bytes) (ref : Nat) : Nat → Bytes
  | 0 => op
  | n + 1 => copyBack (op ++ [op.getD ref 0]) (ref + 1) n

/-- A run of `n` bytes that stand in the input. `none` is the result 0, or a read behind the input. -/
def literalRun (out_len : Nat) (op : Bytes) (n : Nat) (ip : Bytes) : Option (Bytes × Bytes) :=
  if op.length + n > out_len ∨ n > ip.length then none else some (op ++ ip.take n, ip.drop n)

/-- The length of a back reference; that of 7 goes on in the next byte. -/
def refLength (ctrl : Nat) (ip : Bytes) : Option (Nat × Bytes) :=
  if ctrl / 32 = 7 then ip.head?.map fun b => (7 + b.toNat, ip.tail) else some (ctrl / 32, ip)

def backReference (out_len : Nat) (op : Bytes) (ctrl len : Nat) (ip : Bytes) : Option (Bytes × Bytes) :=
  ip.head?.bind fun b =>
    let back := ctrl % 32 * 256 + 1 + b.toNat
    if op.length + len + 2 > out_len ∨ op.length < back then none
    else some (copyBack op (op.length - back) (len + 2), ip.tail)

/-- One turn of the loop of `lzf_decompress`, behind the control byte: the output and the rest of the input. -/
def lzfStep (out_len : Nat) (op : Bytes) (ctrl : Nat) (ip : Bytes) : Option (Bytes × Bytes) :=
  if ctrl < 32 then literalRun out_len op (ctrl + 1) ip
  else (refLength ctrl ip).bind fun r => backReference out_len op ctrl r.1 r.2

theorem lzfStep_length {out_len ctrl : Nat} {op ip : Bytes} {r : Bytes × Bytes}
    (h : lzfStep out_len op ctrl ip = some r) : r.2.length ≤ ip.length := by
  rw [lzfStep] at h
  by_cases hctrl : ctrl < 32
  · rw [if_pos hctrl, literalRun] at h
    split at h
    · cases h
    · cases h
      rw [List.length_drop]
      omega
  · rw [if_neg hctrl] at h
    obtain ⟨⟨len, ip'⟩, hlen, href⟩ := Option.bind_eq_some_iff.mp h
    obtain ⟨b, -, hcopy⟩ := Option.bind_eq_some_iff.mp href
    have hle : ip'.length ≤ ip.length := by
      rw [refLength] at hlen
      split at hlen
      · obtain ⟨b', -, heq⟩ := Option.map_eq_some_iff.mp hlen
        cases heq
        rw [List.length_tail]
        omega
      · cases hlen
        exact Nat.le_refl _
    dsimp only at hcopy
    split at hcopy
    · cases hcopy
    · cases hcopy
      rw [List.length_tail]
      omega

/-- The loop, which goes on as long as there is input. -/
def lzfLoop (out_len : Nat) (op ip : Bytes) : Option Bytes :=
  match ip with
  | [] => none
  | ctrl :: ip =>
    match _hstep : lzfStep out_len op ctrl.toNat ip with
    | none => none
    | some r => if r.2 = [] then some r.1 else lzfLoop out_len r.1 r.2
termination_by ip.length
decreasing_by
  have hle := lzfStep_length _hstep
  rw [List.length_cons]
  omega

/-- The output; a result of 0 bytes is an error. -/
def lzf_decompress (c : Bytes) (out_len : Nat) : Option Bytes :=
  (lzfLoop out_len [] c).bind fun op => if op = [] then none else some op

/-- What `lzf_compress` writes, if it writes anything, has room and is decompressed to what was compressed. -/
def LzfContract (lzf_compress : Bytes → Nat → Bytes) : Prop :=
  ∀ s out_len, lzf_compress s out_len ≠ [] →
    (lzf_compress s out_len).length ≤ out_len ∧ lzf_decompress (lzf_compress s out_len) s.length = some s

end RedisCluster.Rdb

/-!
## `rdb.c`: lengths and strings

What is saved is the bytes that are written, what is loaded is read from the bytes of the file, and the rest is
what is left of them. Results of type `int` are reduced to 32 bits.
-/

namespace RedisCluster.Rdb

open RedisCluster.Lib
open RedisCluster.Util

def REDIS_RDB_6BITLEN : Nat := 0
def REDIS_RDB_14BITLEN : Nat := 1
def REDIS_RDB_32BITLEN : Nat := 2
def REDIS_RDB_ENCVAL : Nat := 3
def REDIS_RDB_LENERR : Nat := 2 ^ 32 - 1

def REDIS_RDB_ENC_INT8 : Nat := 0
def REDIS_RDB_ENC_INT16 : Nat := 1
def REDIS_RDB_ENC_INT32 : Nat := 2
def REDIS_RDB_ENC_LZF : Nat := 3

/-- `rioRead` of `len` bytes: they and the rest. -/
def rioRead (rdb : Bytes) (len : Nat) : Option (Bytes × Bytes) :=
  if rdb.length < len then none else some (rdb.take len, rdb.drop len)

/-! ## Lengths -/

/-- The first byte, with the kind in its two high bits. -/
def kindByte (kind low : Nat) : UInt8 := UInt8.ofNat (low ||| kind <<< 6)

/-- `len` is an `uint32_t`; long ones are written in network order. -/
def rdbSaveLen (len : Nat) : Bytes :=
  let len := len % 2 ^ 32
  if len < 1 <<< 6 then [kindByte REDIS_RDB_6BITLEN (len % 256)]
  else if len < 1 <<< 14 then [kindByte REDIS_RDB_14BITLEN ((len >>> 8) % 256), UInt8.ofNat (len % 256)]
  else kindByte REDIS_RDB_32BITLEN 0 :: (leBytes 4 len).reverse

/-- The length, `isencoded`, and the rest. -/
def rdbLoadLen (rdb : Bytes) : Nat × Bool × Bytes :=
  match rdb with
  | [] => (REDIS_RDB_LENERR, false, [])
  | b :: rdb =>
    let type := (b.toNat &&& 0xC0) >>> 6
    if type = REDIS_RDB_ENCVAL then (b.toNat &&& 0x3F, true, rdb)
    else if type = REDIS_RDB_6BITLEN then (b.toNat &&& 0x3F, false, rdb)
    else if type = REDIS_RDB_14BITLEN then
      match rdb with
      | [] => (REDIS_RDB_LENERR, false, [])
      | c :: rdb => ((b.toNat &&& 0x3F) <<< 8 ||| c.toNat, false, rdb)
    else
      match rioRead rdb 4 with
      | none => (REDIS_RDB_LENERR, false, rdb)
      | some (len, rdb) => (leNat len.reverse, false, rdb)

/-! ## Objects -/

inductive Robj where
  /-- `REDIS_ENCODING_INT`. -/
  | int (value : Int)
  | raw (s : Bytes)
  deriving DecidableEq, Repr

def Robj.string : Robj → Bytes
  | .int value => ll2string value
  | .raw s => s

/-! ## Integers -/

/-- What is written into `enc`; nothing for the result 0. -/
def rdbEncodeInteger (value : Int) : Bytes :=
  if value ≥ -(2 ^ 7) ∧ value ≤ 2 ^ 7 - 1 then kindByte REDIS_RDB_ENCVAL REDIS_RDB_ENC_INT8 :: leBytes 1 value
  else if value ≥ -(2 ^ 15) ∧ value ≤ 2 ^ 15 - 1 then
    kindByte REDIS_RDB_ENCVAL REDIS_RDB_ENC_INT16 :: leBytes 2 value
  else if value ≥ -(2 ^ 31) ∧ value ≤ 2 ^ 31 - 1 then
    kindByte REDIS_RDB_ENCVAL REDIS_RDB_ENC_INT32 :: leBytes 4 value
  else []

def loadInteger (rdb : Bytes) (w : Nat) (encode : Bool) : Option (Robj × Bytes) :=
  (rioRead rdb w).map fun r =>
    let val := leInt r.1
    (if encode then .int val else .raw (ll2string val), r.2)

/-- The panic of an unknown type is `none` too. -/
def rdbLoadIntegerObject (rdb : Bytes) (enctype : Nat) (encode : Bool) : Option (Robj × Bytes) :=
  if enctype = REDIS_RDB_ENC_INT8 then loadInteger rdb 1 encode
  else if enctype = REDIS_RDB_ENC_INT16 then loadInteger rdb 2 encode
  else if enctype = REDIS_RDB_ENC_INT32 then loadInteger rdb 4 encode
  else none

/-- `memory` is what follows the bytes of `s`: a NUL after an sds string, anything after another block. -/
def rdbTryIntegerEncoding (s memory : Bytes) : Bytes :=
  let r := Aof.strtoll (s ++ memory)
  if r.eptr.headD 0 ≠ 0 then []
  else if ll2string r.value ≠ s then []
  else rdbEncodeInteger r.value

/-! ## Compressed strings -/

section Save

variable (lzf_compress : Bytes → Nat → Bytes)

/-- The four parts of a compressed string. -/
def lzfBytes (s out : Bytes) : Bytes :=
  kindByte REDIS_RDB_ENCVAL REDIS_RDB_ENC_LZF :: (rdbSaveLen out.length ++ (rdbSaveLen s.length ++ out))

def rdbSaveLzfStringObject (s : Bytes) : Int × Bytes :=
  if s.length ≤ 4 then (0, [])
  else
    let out := lzf_compress s (s.length - 4)
    if out.length = 0 then (0, [])
    else if narrowInt out.length = -1 then (-1, lzfBytes s out)
    else (narrowInt (lzfBytes s out).length, lzfBytes s out)

/-- `rdb_compression` is `server.rdb_compression`. -/
def rdbSaveRawString (rdb_compression : Bool) (s memory : Bytes) : Int × Bytes :=
  let enc := if s.length ≤ 11 then rdbTryIntegerEncoding s memory else []
  if enc.length > 0 then (enc.length, enc)
  else
    let lzf := if rdb_compression ∧ s.length > 20 then rdbSaveLzfStringObject lzf_compress s else (0, [])
    if lzf.1 = -1 then lzf
    else if lzf.1 > 0 then lzf
    else
      -- What the compression wrote stays written.
      let written := lzf.2 ++ (rdbSaveLen s.length ++ s)
      if narrowInt s.length = -1 then (-1, written)
      else (narrowInt ((rdbSaveLen s.length).length + s.length), written)

def rdbSaveLongLongAsStringObject (value : Int) : Int × Bytes :=
  let enc := rdbEncodeInteger value
  if enc.length > 0 then (enc.length, enc)
  else
    let buf := ll2string value
    ((rdbSaveLen buf.length).length + buf.length, rdbSaveLen buf.length ++ buf)

def rdbSaveStringObject (rdb_compression : Bool) (obj : Robj) (memory : Bytes) : Int × Bytes :=
  match obj with
  | .int value => rdbSaveLongLongAsStringObject value
  | .raw s => rdbSaveRawString lzf_compress rdb_compression s memory

end Save

/-- `sdsnewlen(NULL,len)` has set the bytes to 0 that the decompression does not write. -/
def rdbLoadLzfStringObject (rdb : Bytes) : Option (Robj × Bytes) :=
  let (clen, _, rdb) := rdbLoadLen rdb
  if clen = REDIS_RDB_LENERR then none
  else
    let (len, _, rdb) := rdbLoadLen rdb
    if len = REDIS_RDB_LENERR then none
    else
      (rioRead rdb clen).bind fun r =>
        (lzf_decompress r.1 len).map fun val => (.raw (val ++ List.replicate (len - val.length) 0), r.2)

/-- `none` is NULL, or the panic of an unknown type. -/
def rdbGenericLoadStringObject (rdb : Bytes) (encode : Bool) : Option (Robj × Bytes) :=
  let (len, isencoded, rdb) := rdbLoadLen rdb
  if isencoded then
    if len = REDIS_RDB_ENC_LZF then rdbLoadLzfStringObject rdb else rdbLoadIntegerObject rdb len encode
  else if len = REDIS_RDB_LENERR then none
  else (rioRead rdb len).map fun r => (.raw r.1, r.2)

/-! ## What the codec is for -/

/-- What was written is read back, up to its end, whatever follows. -/
def LoadsBack (written s : Bytes) : Prop :=
  ∀ (encode : Bool) (rest : Bytes), ∃ o, rdbGenericLoadStringObject (written ++ rest) encode = some (o, rest) ∧
    o.string = s

/-- The length of the compressed form, as the `int` that is tested, is neither positive nor -1. -/
def WrapsLzf (lzf_compress : Bytes → Nat → Bytes) (s : Bytes) : Prop :=
  lzf_compress s (s.length - 4) ≠ [] ∧
    narrowInt (lzfBytes s (lzf_compress s (s.length - 4))).length ≤ 0 ∧
    narrowInt (lzfBytes s (lzf_compress s (s.length - 4))).length ≠ -1

end RedisCluster.Rdb
