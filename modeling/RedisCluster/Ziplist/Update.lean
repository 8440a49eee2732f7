import RedisCluster.Ziplist.Ziplist

/-!
# `ziplist.c`: inserting and deleting

A ziplist is its bytes, and a pointer into it an offset. The bytes that `zrealloc` adds have no defined
content; they are 0 here. A `memmove` from or to a place behind the block is an error.
-/

namespace RedisCluster.Ziplist

open RedisCluster.Lib RedisCluster.Util

def ZIPLIST_HEADER_SIZE : Nat := 10
def UINT16_MAX : Nat := 65535

/-! ## Memory -/

def poke (zl : Bytes) (at_ : Nat) (bs : Bytes) : Bytes :=
  zl.take at_ ++ bs ++ zl.drop (at_ + bs.length)

def memmove (zl : Bytes) (dst src n : Nat) : Except String Bytes :=
  if src + n ≤ zl.length ∧ dst + n ≤ zl.length then .ok (poke zl dst ((zl.drop src).take n))
  else .error "out of bounds"

def byteOf (zl : Bytes) (p : Nat) : Nat := byteAt (zl.drop p) 0

/-! ## The header -/

def ziplistBytes (zl : Bytes) : Nat := leNat (zl.take 4)
def ziplistTailOffset (zl : Bytes) : Nat := leNat ((zl.drop 4).take 4)
def ziplistLength (zl : Bytes) : Nat := leNat ((zl.drop 8).take 2)

def setBytes (zl : Bytes) (n : Nat) : Bytes := poke zl 0 (leBytes 4 n)
def setTailOffset (zl : Bytes) (n : Int) : Bytes := poke zl 4 (leBytes 4 n)
def setLength (zl : Bytes) (n : Int) : Bytes := poke zl 8 (leBytes 2 n)

def incrLength (zl : Bytes) (incr : Int) : Bytes :=
  if ziplistLength zl < UINT16_MAX then setLength zl (ziplistLength zl + incr) else zl

def ziplistNew : Bytes := leBytes 4 11 ++ leBytes 4 10 ++ leBytes 2 0 ++ [255]

def ziplistResize (zl : Bytes) (len : Nat) : Bytes :=
  let len := len % 2 ^ 32
  poke (setBytes ((zl ++ List.replicate (len - zl.length) 0).take len) len) (len - 1) [255]

/-! ## Entries -/

def zipDecodePrevlen (p : Bytes) : Nat :=
  if zipDecodePrevlensize p = 1 then byteAt p 0 else leNat ((p.drop 1).take 4)

structure Zlentry where
  prevrawlensize : Nat
  prevrawlen : Nat
  lensize : Nat
  len : Nat
  headersize : Nat
  encoding : Nat

def zipEntry (p : Bytes) : Zlentry :=
  let prevrawlensize := zipDecodePrevlensize p
  let length := zipDecodeLength (p.drop prevrawlensize)
  { prevrawlensize := prevrawlensize, prevrawlen := zipDecodePrevlen p, lensize := length.2.1
    len := length.2.2, headersize := prevrawlensize + length.2.1, encoding := length.1 }

def zipRawEntryLength (p : Bytes) : Nat :=
  let prevlensize := zipDecodePrevlensize p
  let length := zipDecodeLength (p.drop prevlensize)
  prevlensize + length.2.1 + length.2.2

/-- The bytes that `zipPrevEncodeLength` writes; their number is what it returns. -/
def zipPrevEncodeLength (len : Nat) : Bytes :=
  if len < ZIP_BIGLEN then [UInt8.ofNat len] else 254 :: leBytes 4 len

def zipPrevEncodeLengthForceLarge (len : Nat) : Bytes := 254 :: leBytes 4 len

def zipPrevLenByteDiff (p : Bytes) (len : Nat) : Int :=
  ((zipPrevEncodeLength len).length : Int) - zipDecodePrevlensize p

/-- The bytes that `zipEncodeLength` writes. -/
def zipEncodeLength (encoding rawlen : Nat) : Bytes :=
  if zipIsStr encoding then
    if rawlen ≤ 0x3f then [UInt8.ofNat (ZIP_STR_06B ||| rawlen)]
    else if rawlen ≤ 0x3fff then
      [UInt8.ofNat (ZIP_STR_14B ||| (rawlen >>> 8 &&& 0x3f)), UInt8.ofNat (rawlen &&& 0xff)]
    else
      [UInt8.ofNat ZIP_STR_32B, UInt8.ofNat (rawlen >>> 24 &&& 0xff), UInt8.ofNat (rawlen >>> 16 &&& 0xff),
        UInt8.ofNat (rawlen >>> 8 &&& 0xff), UInt8.ofNat (rawlen &&& 0xff)]
  else [UInt8.ofNat encoding]

/-- The bytes that `zipSaveInteger` writes. -/
def zipSaveInteger (value : Int) (encoding : Nat) : Bytes := leBytes (zipIntSize encoding) value

/-! ## The cascade -/

def cascadeLoop : Nat → Bytes → Nat → Nat → Except String Bytes
  | 0, _, _, _ => .error "no end"
  | fuel + 1, zl, curlen, p =>
    if byteOf zl p = ZIP_END then .ok zl
    else
      let cur := zipEntry (zl.drop p)
      let rawlen := cur.headersize + cur.len
      let rawlensize := (zipPrevEncodeLength rawlen).length
      if byteOf zl (p + rawlen) = ZIP_END then .ok zl
      else
        let next := zipEntry (zl.drop (p + rawlen))
        if next.prevrawlen = rawlen then .ok zl
        else if next.prevrawlensize < rawlensize then do
          let extra := rawlensize - next.prevrawlensize
          let zl := ziplistResize zl (curlen + extra)
          let np := p + rawlen
          let zl := if ziplistTailOffset zl ≠ np then setTailOffset zl (ziplistTailOffset zl + extra) else zl
          let zl ← memmove zl (np + rawlensize) (np + next.prevrawlensize)
            (curlen - np - next.prevrawlensize - 1)
          cascadeLoop fuel (poke zl np (zipPrevEncodeLength rawlen)) (curlen + extra) np
        else if next.prevrawlensize > rawlensize then
          .ok (poke zl (p + rawlen) (zipPrevEncodeLengthForceLarge rawlen))
        else .ok (poke zl (p + rawlen) (zipPrevEncodeLength rawlen))

def ziplistCascadeUpdate (zl : Bytes) (p : Nat) : Except String Bytes :=
  cascadeLoop (zl.length + 1) zl (ziplistBytes zl) p

/-! ## `__ziplistInsert` -/

def insertPrevlen (zl : Bytes) (p : Nat) : Nat :=
  if byteOf zl p ≠ ZIP_END then zipDecodePrevlen (zl.drop p)
  else if byteOf zl (ziplistTailOffset zl) ≠ ZIP_END then zipRawEntryLength (zl.drop (ziplistTailOffset zl))
  else 0

/-- The encoding of a string and the content of its entry. -/
def insertContent (s : Bytes) : Nat × Bytes :=
  match zipTryEncoding s with
  | some (value, encoding) => (encoding, zipSaveInteger value encoding)
  | none => (0, s)

/-- The bytes of the new entry; their number is `reqlen`. -/
def insertEntry (prevlen : Nat) (s : Bytes) : Bytes :=
  zipPrevEncodeLength prevlen ++ zipEncodeLength (insertContent s).1 s.length ++ (insertContent s).2

/-- The entries behind the new one move, and the next one gets its length. -/
def insertShift (zl : Bytes) (p curlen reqlen : Nat) (nextdiff : Int) : Except String Bytes :=
  if byteOf zl p ≠ ZIP_END then do
    let zl ← memmove zl (p + reqlen) ((p : Int) - nextdiff).toNat ((curlen : Int) - p - 1 + nextdiff).toNat
    let zl := poke zl (p + reqlen) (zipPrevEncodeLength reqlen)
    let zl := setTailOffset zl (ziplistTailOffset zl + reqlen)
    let tail := zipEntry (zl.drop (p + reqlen))
    .ok (if byteOf zl (p + reqlen + tail.headersize + tail.len) ≠ ZIP_END then
      setTailOffset zl (ziplistTailOffset zl + nextdiff) else zl)
  else .ok (setTailOffset zl p)

def ziplistInsert (zl : Bytes) (p : Nat) (s : Bytes) : Except String Bytes := do
  let curlen := ziplistBytes zl
  let entry := insertEntry (insertPrevlen zl p) s
  let reqlen := entry.length
  let nextdiff := if byteOf zl p ≠ ZIP_END then zipPrevLenByteDiff (zl.drop p) reqlen else 0
  let zl := ziplistResize zl ((curlen : Int) + reqlen + nextdiff).toNat
  let zl ← insertShift zl p curlen reqlen nextdiff
  let zl ← if nextdiff ≠ 0 then ziplistCascadeUpdate zl (p + reqlen) else .ok zl
  .ok (incrLength (poke zl p entry) 1)

/-! ## `__ziplistDelete` -/

/-- The first loop: where `p` ends up, and how many entries it passed. -/
def deleteScan (zl : Bytes) : Nat → Nat → Nat → Nat × Nat
  | 0, p, deleted => (p, deleted)
  | num + 1, p, deleted =>
    if byteOf zl p = ZIP_END then (p, deleted)
    else deleteScan zl num (p + zipRawEntryLength (zl.drop p)) (deleted + 1)

/-- The entries behind the deleted ones move, and the next one gets the length before it. -/
def deleteShift (zl : Bytes) (first p totlen prevrawlen : Nat) (nextdiff : Int) : Except String Bytes :=
  if byteOf zl p ≠ ZIP_END then do
    let p := ((p : Int) - nextdiff).toNat
    let zl := poke zl p (zipPrevEncodeLength prevrawlen)
    let zl := setTailOffset zl (ziplistTailOffset zl - totlen)
    let tail := zipEntry (zl.drop p)
    let zl := if byteOf zl (p + tail.headersize + tail.len) ≠ ZIP_END then
      setTailOffset zl (ziplistTailOffset zl + nextdiff) else zl
    memmove zl first p (ziplistBytes zl - p - 1)
  else .ok (setTailOffset zl ((first : Int) - prevrawlen))

def ziplistDeleteAt (zl : Bytes) (p num : Nat) : Except String Bytes :=
  let first := zipEntry (zl.drop p)
  let scan := deleteScan zl num p 0
  let totlen := scan.1 - p
  if totlen > 0 then do
    let nextdiff := if byteOf zl scan.1 ≠ ZIP_END then zipPrevLenByteDiff (zl.drop scan.1) first.prevrawlen else 0
    let zl ← deleteShift zl p scan.1 totlen first.prevrawlen nextdiff
    let zl := ziplistResize zl ((ziplistBytes zl : Int) - totlen + nextdiff).toNat
    let zl := incrLength zl (-(scan.2 : Int))
    if nextdiff ≠ 0 then ziplistCascadeUpdate zl p else .ok zl
  else .ok zl

end RedisCluster.Ziplist
