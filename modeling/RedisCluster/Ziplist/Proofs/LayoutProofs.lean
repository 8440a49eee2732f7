import RedisCluster.Ziplist.Proofs.CascadeProofs

/-!
# Proofs: new entries

The bytes that an insert writes are an entry, and its text is the string.
-/

namespace RedisCluster.Ziplist

open RedisCluster.Lib RedisCluster.Util

theorem low_bits : ∀ x < 64, (0 ||| x) &&& 0xc0 = 0 ∧ (0 ||| x) &&& 0x3f = x := by decide

theorem middle_bits : ∀ x < 64, (64 ||| x) &&& 0xc0 = 64 ∧ (64 ||| x) &&& 0x3f = x ∧ (64 ||| x) < 256 := by
  decide

theorem toNat_ofNat {x : Nat} (h : x < 256) : (UInt8.ofNat x).toNat = x := by
  rw [UInt8.toNat_ofNat', Nat.mod_eq_of_lt (by omega)]

theorem shift_or_byte (hi lo : Nat) (h : lo < 256) : hi <<< 8 ||| lo = hi * 256 + lo := by
  have hadd := Nat.shiftLeft_add_eq_or_of_lt (i := 8) (b := lo) (by omega) hi
  rw [← hadd, Nat.shiftLeft_eq]

theorem or_bytes {b c d : Nat} (a : Nat) (hb : b < 256) (hc : c < 256) (hd : d < 256) :
    a <<< 24 ||| b <<< 16 ||| c <<< 8 ||| d = ((a * 256 + b) * 256 + c) * 256 + d := by
  have hb' : b <<< 16 < 2 ^ 24 := by
    rw [Nat.shiftLeft_eq]
    omega
  have hc' : c <<< 8 < 2 ^ 16 := by
    rw [Nat.shiftLeft_eq]
    omega
  have h1 : a <<< 24 + b <<< 16 = (a * 256 + b) <<< 16 := by
    simp only [Nat.shiftLeft_eq]
    omega
  have h2 : (a * 256 + b) <<< 16 + c <<< 8 = ((a * 256 + b) * 256 + c) <<< 8 := by
    simp only [Nat.shiftLeft_eq]
    omega
  rw [← Nat.shiftLeft_add_eq_or_of_lt hb' a, h1, ← Nat.shiftLeft_add_eq_or_of_lt hc', h2, shift_or_byte _ _ hd]

theorem encodeLength_string {len : Nat} (h : len < 2 ^ 32) :
    zipDecodeLength (zipEncodeLength 0 len) =
      (zipEntryEncoding (zipEncodeLength 0 len), (zipEncodeLength 0 len).length, len) ∧
      zipIsStr (zipEntryEncoding (zipEncodeLength 0 len)) = true := by
  have hstr : zipIsStr 0 = true := by decide
  rw [zipEncodeLength, if_pos hstr]
  split
  case isTrue hsmall =>
    obtain ⟨hc0, h3f⟩ := low_bits len (by omega)
    have hbyte : byteAt [UInt8.ofNat (ZIP_STR_06B ||| len)] 0 = 0 ||| len :=
      toNat_ofNat (by rw [show ZIP_STR_06B = 0 from rfl, Nat.zero_or]; omega)
    have hencoding : zipEntryEncoding [UInt8.ofNat (ZIP_STR_06B ||| len)] = 0 := by
      rw [zipEntryEncoding, hbyte, if_pos (by rw [Nat.zero_or]; exact lt_of_le_of_lt hsmall (by decide))]
      exact hc0
    rw [zipDecodeLength, hencoding, hbyte]
    exact ⟨Prod.ext rfl (Prod.ext rfl h3f), by decide⟩
  case isFalse hsmall =>
    split
    case isTrue hmiddle =>
      have hhi : len >>> 8 &&& 0x3f = len / 256 := by
        rw [Nat.shiftRight_eq_div_pow, show (0x3f : Nat) = 2 ^ 6 - 1 from rfl, Nat.and_two_pow_sub_one_eq_mod,
          Nat.mod_eq_of_lt (by omega)]
      have hlo : len &&& 0xff = len % 256 := Nat.and_two_pow_sub_one_eq_mod len 8
      rw [hhi, hlo]
      obtain ⟨hc0, h3f, hlt⟩ := middle_bits (len / 256) (by omega)
      have hbyte : byteAt [UInt8.ofNat (ZIP_STR_14B ||| len / 256), UInt8.ofNat (len % 256)] 0 = 64 ||| len / 256 :=
        toNat_ofNat hlt
      have hbyte1 : byteAt [UInt8.ofNat (ZIP_STR_14B ||| len / 256), UInt8.ofNat (len % 256)] 1 = len % 256 :=
        toNat_ofNat (by omega)
      have hencoding : zipEntryEncoding [UInt8.ofNat (ZIP_STR_14B ||| len / 256), UInt8.ofNat (len % 256)] = 64 := by
        have hmask : ∀ x < 64, (64 ||| x) < ZIP_STR_MASK := by decide
        rw [zipEntryEncoding, hbyte, if_pos (hmask (len / 256) (by omega))]
        exact hc0
      rw [zipDecodeLength, hencoding, hbyte, hbyte1]
      refine ⟨Prod.ext rfl (Prod.ext rfl ?_), by decide⟩
      show ((64 ||| len / 256) &&& 0x3f) <<< 8 ||| len % 256 = len
      rw [h3f, shift_or_byte _ _ (by omega)]
      omega
    case isFalse hmiddle =>
      have hb : ∀ k, len >>> k &&& 0xff = len / 2 ^ k % 256 := by
        intro k
        rw [Nat.shiftRight_eq_div_pow]
        exact Nat.and_two_pow_sub_one_eq_mod _ 8
      have hlo : len &&& 0xff = len % 256 := Nat.and_two_pow_sub_one_eq_mod len 8
      rw [hb, hb, hb, hlo]
      have hencoding : ∀ x, zipEntryEncoding (UInt8.ofNat ZIP_STR_32B :: x) = 128 := by
        intro x
        show (if (128 : Nat) < 192 then 128 &&& 192 else 128) = 128
        decide
      have hread : ∀ a b c d : UInt8, zipDecodeLength [UInt8.ofNat ZIP_STR_32B, a, b, c, d] =
          (128, 5, a.toNat <<< 24 ||| b.toNat <<< 16 ||| c.toNat <<< 8 ||| d.toNat) := by
        intro a b c d
        rw [zipDecodeLength, hencoding]
        rfl
      rw [hread, hencoding]
      refine ⟨Prod.ext rfl (Prod.ext rfl ?_), by decide⟩
      dsimp only
      rw [toNat_ofNat (Nat.mod_lt _ (by decide)), toNat_ofNat (Nat.mod_lt _ (by decide)),
        toNat_ofNat (Nat.mod_lt _ (by decide)), toNat_ofNat (Nat.mod_lt _ (by decide)),
        or_bytes _ (Nat.mod_lt _ (by decide)) (Nat.mod_lt _ (by decide)) (Nat.mod_lt _ (by decide))]
      omega

theorem encodeLength_int {encoding : Nat} (h : IsIntEncoding encoding) (len : Nat) :
    zipDecodeLength (zipEncodeLength encoding len) =
      (zipEntryEncoding (zipEncodeLength encoding len), (zipEncodeLength encoding len).length,
        zipIntSize encoding) ∧
      zipEntryEncoding (zipEncodeLength encoding len) = encoding ∧ zipIsStr encoding = false := by
  have hrange : ZIP_STR_MASK ≤ encoding ∧ encoding < 256 ∧ zipIsStr encoding = false := by
    rcases h with hmem | ⟨hmin, hmax⟩
    · have hall : ∀ e ∈ [ZIP_INT_8B, ZIP_INT_16B, ZIP_INT_24B, ZIP_INT_32B, ZIP_INT_64B],
          ZIP_STR_MASK ≤ e ∧ e < 256 ∧ zipIsStr e = false := by decide
      exact hall encoding hmem
    · have hall : ∀ k < 13, ZIP_STR_MASK ≤ ZIP_INT_IMM_MIN + k ∧ ZIP_INT_IMM_MIN + k < 256 ∧
          zipIsStr (ZIP_INT_IMM_MIN + k) = false := by decide
      obtain ⟨k, rfl⟩ := Nat.exists_eq_add_of_le hmin
      exact hall k (Nat.lt_succ_of_le (Nat.le_of_add_le_add_left hmax))
  obtain ⟨hmask, hlt, hstr⟩ := hrange
  have hheader : zipEncodeLength encoding len = [UInt8.ofNat encoding] := by
    rw [zipEncodeLength, hstr, if_neg Bool.false_ne_true]
  have hbyte : byteAt [UInt8.ofNat encoding] 0 = encoding := toNat_ofNat hlt
  have hencoding : zipEntryEncoding [UInt8.ofNat encoding] = encoding := by
    rw [zipEntryEncoding, hbyte, if_neg (Nat.not_lt.mpr hmask)]
  rw [hheader, hencoding, zipDecodeLength, hencoding, if_neg (Nat.not_lt.mpr hmask)]
  exact ⟨rfl, rfl, hstr⟩

theorem loadInteger_immediate : ∀ k < 13, ∀ p, zipLoadInteger p (ZIP_INT_IMM_MIN + k) = some (k : Int) := by
  have hall : ∀ k < 13, ZIP_INT_IMM_MIN + k ∉ [ZIP_INT_8B, ZIP_INT_16B, ZIP_INT_32B, ZIP_INT_24B, ZIP_INT_64B] ∧
      ZIP_INT_IMM_MIN + k ≤ ZIP_INT_IMM_MAX ∧ (ZIP_INT_IMM_MIN + k) &&& ZIP_INT_IMM_MASK = k + 1 := by decide
  intro k hk p
  obtain ⟨hnone, hmax, hmask⟩ := hall k hk
  simp only [List.mem_cons, List.not_mem_nil, or_false, not_or] at hnone
  obtain ⟨h8, h16, h32, h24, h64⟩ := hnone
  rw [zipLoadInteger, if_neg h8, if_neg h16, if_neg h32, if_neg h24, if_neg h64,
    if_pos ⟨Nat.le_add_right _ _, hmax⟩, hmask, Nat.cast_add, Nat.cast_one, Int.add_sub_cancel]

theorem leInt_three {n : Int} (h : FitsBytes 3 n) : leInt (0 :: (leBytes 3 n).take 3) / 256 = n := by
  have hfour : (0 : UInt8) :: leBytes 3 n = leBytes 4 (256 * n) := by
    rw [show (4 : Nat) = 3 + 1 from rfl, leBytes.eq_2 (256 * n) 3, Int.mul_emod_right,
      Int.mul_ediv_cancel_left n (by decide)]
    rfl
  have hfits : FitsBytes 4 (256 * n) := by
    unfold FitsBytes at *
    norm_num at *
    omega
  rw [List.take_of_length_le (by simp), hfour, leInt_leBytes hfits, Int.mul_ediv_cancel_left n (by decide)]

theorem tryEncoding_saved {s : Bytes} {value : Int} {encoding : Nat}
    (h : zipTryEncoding s = some (value, encoding)) : IsIntEncoding encoding ∧ ll2string value = s ∧
      zipLoadInteger (zipSaveInteger value encoding) encoding = some value := by
  rw [zipTryEncoding] at h
  split at h
  · cases h
  · obtain ⟨n, hn, heq⟩ := Option.map_eq_some_iff.mp h
    obtain ⟨hspell, hlong⟩ := string2ll_longLong.mp hn
    obtain ⟨rfl, rfl⟩ := Prod.mk.inj heq
    unfold Numbers.IsLongLong at hlong
    have hwhole : ∀ {w : Nat}, FitsBytes w n → leInt ((leBytes w n).take w) = n := by
      intro w hw
      rw [List.take_of_length_le (by simp), leInt_leBytes hw]
    refine ⟨?_, hspell, ?_⟩
    · split_ifs with h1 h2 h3 h4 h5
      · have hmin : ZIP_INT_IMM_MIN = 241 := rfl
        have hmax : ZIP_INT_IMM_MAX = 253 := rfl
        exact Or.inr ⟨Nat.le_add_right _ _, by omega⟩
      all_goals exact Or.inl (by decide)
    · split_ifs with h1 h2 h3 h4 h5
      · rw [loadInteger_immediate n.toNat (by omega), Int.toNat_of_nonneg h1.1]
      · exact congrArg some (hwhole ⟨by norm_num; omega, by norm_num; omega⟩)
      · exact congrArg some (hwhole ⟨by norm_num; omega, by norm_num; omega⟩)
      · exact congrArg some (leInt_three ⟨by norm_num; omega, by norm_num; omega⟩)
      · exact congrArg some (hwhole ⟨by norm_num; omega, by norm_num; omega⟩)
      · exact congrArg some (hwhole ⟨by norm_num; omega, by norm_num; omega⟩)

theorem insertContent_fits {s : Bytes} (h : s.length < 2 ^ 32) {header : Bytes}
    (hheader : header = zipEncodeLength (insertContent s).1 s.length) :
    zipDecodeLength header = (zipEntryEncoding header, header.length, (insertContent s).2.length) ∧
      (zipIsStr (zipEntryEncoding header) = true ∧ (insertContent s).2 = s ∨
        zipIsStr (zipEntryEncoding header) = false ∧ IsIntEncoding (zipEntryEncoding header) ∧
          ll2string ((zipLoadInteger (insertContent s).2 (zipEntryEncoding header)).getD 0) = s) := by
  subst hheader
  cases htry : zipTryEncoding s with
  | none =>
    have hcontent : insertContent s = (0, s) := by rw [insertContent, htry]
    obtain ⟨hdecode, hstr⟩ := encodeLength_string h
    rw [hcontent]
    exact ⟨hdecode, Or.inl ⟨hstr, rfl⟩⟩
  | some found =>
    obtain ⟨value, encoding⟩ := found
    have hcontent : insertContent s = (encoding, zipSaveInteger value encoding) := by rw [insertContent, htry]
    obtain ⟨hint, hspell, hload⟩ := tryEncoding_saved htry
    obtain ⟨hdecode, hencoding, hstr⟩ := encodeLength_int hint s.length
    rw [hcontent]
    refine ⟨?_, Or.inr ?_⟩
    · rw [hdecode, zipSaveInteger, length_leBytes]
    · rw [hencoding, hload]
      exact ⟨hstr, hint, hspell⟩

theorem insertPrevlen_size (prevlen : Nat) :
    (zipPrevEncodeLength prevlen).length = zipDecodePrevlensize (zipPrevEncodeLength prevlen) :=
  (prevEncode_size prevlen).1

theorem insertPrevlen_end (prevlen : Nat) : byteAt (zipPrevEncodeLength prevlen) 0 ≠ ZIP_END :=
  (prevEncode_size prevlen).2

theorem insertHeader_size (s : Text) :
    (zipEncodeLength (insertContent s.1).1 s.1.length).length =
      (zipDecodeLength (zipEncodeLength (insertContent s.1).1 s.1.length)).2.1 := by
  rw [(insertContent_fits s.2 rfl).1]

theorem insertContent_size (s : Text) :
    (insertContent s.1).2.length = (zipDecodeLength (zipEncodeLength (insertContent s.1).1 s.1.length)).2.2 := by
  rw [(insertContent_fits s.2 rfl).1]

theorem insertContent_encoding (s : Text) :
    zipIsStr (zipEntryEncoding (zipEncodeLength (insertContent s.1).1 s.1.length)) = true ∨
      IsIntEncoding (zipEntryEncoding (zipEncodeLength (insertContent s.1).1 s.1.length)) :=
  (insertContent_fits s.2 rfl).2.imp And.left fun h => h.2.1

def newEntry (prevlen : Nat) (s : Text) : Entry where
  prevlen := zipPrevEncodeLength prevlen
  header := zipEncodeLength (insertContent s.1).1 s.1.length
  content := (insertContent s.1).2
  prevlen_size := insertPrevlen_size prevlen
  prevlen_end := insertPrevlen_end prevlen
  header_size := insertHeader_size s
  content_size := insertContent_size s
  encoding := insertContent_encoding s

theorem newEntry_bytes (prevlen : Nat) (s : Text) : (newEntry prevlen s).bytes = insertEntry prevlen s.1 := rfl

@[simp] theorem newEntry_text (prevlen : Nat) (s : Text) : (newEntry prevlen s).text = s.1 := by
  rw [Entry.text]
  rcases (insertContent_fits s.2 rfl).2 with ⟨hstr, hcontent⟩ | ⟨hstr, -, hload⟩
  · exact (if_pos hstr).trans hcontent
  · exact (if_neg (by rw [newEntry, hstr]; decide)).trans hload

theorem newEntry_prevValue {prevlen : Nat} (h : prevlen < 2 ^ 32) (s : Text) :
    (newEntry prevlen s).prevValue = prevlen :=
  prevValue_withPrev (newEntry prevlen s) h

end RedisCluster.Ziplist

/-!
## Proofs: the layout of a ziplist

`Represents` is the invariant: the header says where the entries end and where the last one begins, each
entry holds the length of the one before it, and the counter is their number or stays at its maximum.
-/

namespace RedisCluster.Ziplist

open RedisCluster.Lib RedisCluster.Util

def layout (n : Nat) (es : List Entry) : Bytes :=
  blob (10 + (entriesBytes es).length) (10 + lastOffset es) n (entriesBytes es)

structure Represents (zl : Bytes) (n : Nat) (es : List Entry) : Prop where
  eq : zl = layout n es
  small : 10 + (entriesBytes es).length < 2 ^ 32
  chained : Chained 0 es
  count : n = es.length ∧ n ≤ 65535 ∨ n = 65535

theorem Represents.counter_lt {zl : Bytes} {n : Nat} {es : List Entry} (h : Represents zl n es) : n < 2 ^ 16 := by
  rcases h.count with ⟨-, hle⟩ | rfl <;> omega

theorem entriesBody_append (pre post : List Entry) :
    entriesBody (pre ++ post) = entriesBody pre ++ entriesBody post :=
  List.flatMap_append

theorem entriesBytes_append (pre post : List Entry) :
    entriesBytes (pre ++ post) = entriesBody pre ++ entriesBytes post := by
  rw [entriesBytes_eq, entriesBytes_eq, entriesBody_append, List.append_assoc]

theorem length_entriesBytes (es : List Entry) : (entriesBytes es).length = (entriesBody es).length + 1 := by
  rw [entriesBytes_eq, List.length_append, List.length_singleton]

theorem length_entriesBody_cons (e : Entry) (es : List Entry) :
    (entriesBody (e :: es)).length = e.rawlen + (entriesBody es).length := by
  rw [entriesBody_cons, List.length_append]
  rfl

theorem Entry.rawlen_pos (e : Entry) : 0 < e.rawlen := by
  rw [e.rawlen_eq]
  rcases e.prevlen_cases with h | h <;> omega

theorem Entry.prevValue_lt {e : Entry} (h : e.prevlen.length = 1) : e.prevValue < 254 := by
  have hsize := e.prevlen_size.symm.trans h
  rw [Entry.prevValue, zipDecodePrevlen, if_pos hsize]
  unfold zipDecodePrevlensize at hsize
  split at hsize
  · assumption
  · exact absurd hsize (by decide)

theorem length_lt_entriesBytes (es : List Entry) : es.length < (entriesBytes es).length := by
  induction es with
  | nil => exact Nat.one_pos
  | cons e es ih =>
    have hpos := e.rawlen_pos
    rw [length_entriesBytes_cons, List.length_cons]
    omega

theorem lastOffset_append (pre : List Entry) {post : List Entry} (h : post ≠ []) :
    lastOffset (pre ++ post) = (entriesBody pre).length + lastOffset post := by
  induction pre with
  | nil => exact (Nat.zero_add _).symm
  | cons e pre ih =>
    rw [List.cons_append, lastOffset_cons e (List.append_ne_nil_of_right_ne_nil pre h), ih,
      length_entriesBody_cons, Nat.add_assoc]

theorem lastOffset_concat (pre : List Entry) (e : Entry) : lastOffset (pre ++ [e]) = (entriesBody pre).length :=
  lastOffset_append pre (List.cons_ne_nil e [])

theorem lastOffset_endLen (pre : List Entry) : lastOffset pre + endLen 0 pre = (entriesBody pre).length := by
  have hall : ∀ (es : List Entry) (e : Entry), lastOffset (e :: es) + endLen e.rawlen es =
      (entriesBody (e :: es)).length := by
    intro es
    induction es with
    | nil => exact fun e => by rw [length_entriesBody_cons]; exact Nat.zero_add _
    | cons f es ih =>
      intro e
      have hf := ih f
      rw [lastOffset, endLen, length_entriesBody_cons, ← hf, Nat.add_assoc]
  cases pre with
  | nil => rfl
  | cons e pre => exact hall pre e

theorem chained_append {prev : Nat} {pre post : List Entry} :
    Chained prev (pre ++ post) ↔ Chained prev pre ∧ Chained (endLen prev pre) post := by
  induction pre generalizing prev with
  | nil => exact ⟨fun h => ⟨trivial, h⟩, And.right⟩
  | cons e pre ih => exact (and_congr_right fun _ => ih).trans and_assoc.symm

theorem endLen_concat (prev : Nat) (pre : List Entry) (e : Entry) : endLen prev (pre ++ [e]) = e.rawlen := by
  induction pre generalizing prev with
  | nil => rfl
  | cons f pre ih => exact ih f.rawlen

theorem prevrawlen_layout {n : Nat} {pre post : List Entry} {e : Entry} (hchained : Chained 0 (pre ++ e :: post)) :
    (zipEntry ((layout n (pre ++ e :: post)).drop (10 + (entriesBody pre).length))).prevrawlen = endLen 0 pre := by
  rw [layout, entriesBytes_append, entriesBytes_cons, drop_at, zipEntry_read]
  exact (chained_append.mp hchained).2.1

theorem settle_texts (prev : Nat) (es : List Entry) : (settle prev es).map Entry.text = es.map Entry.text := by
  cases es with
  | nil => rfl
  | cons e es => rw [settle, List.map_cons, List.map_cons, fixPrevlens_texts, text_withPrev]

theorem settle_chained {prev : Nat} {es : List Entry} (htail : ChainedTail es) (hprev : prev < 2 ^ 32)
    (hsmall : (entriesBytes (settle prev es)).length < 2 ^ 32) : Chained prev (settle prev es) := by
  cases es with
  | nil => trivial
  | cons e es =>
    rw [settle, length_entriesBytes_cons] at hsmall
    exact ⟨prevValue_withPrev e hprev, fixPrevlens_chained (Chained.tail htail) (by omega) (by omega)⟩

theorem prevLenByteDiff_read (e : Entry) (rest : Bytes) (len : Nat) :
    zipPrevLenByteDiff (e.bytes ++ rest) len =
      ((zipPrevEncodeLength len).length : Int) - (e.prevlen.length : Int) := by
  rw [zipPrevLenByteDiff, (entry_read e rest).2.1]

theorem cascade_settle {A : Bytes} {e : Entry} {es : List Entry} (n len : Nat) (htail : Chained e.rawlen es)
    (hsmall : 10 + A.length + (entriesBytes (settle len (e :: es))).length < 2 ^ 32) :
    (if ((zipPrevEncodeLength len).length : Int) - (e.prevlen.length : Int) ≠ 0 then
        ziplistCascadeUpdate (blob (10 + A.length + (entriesBytes (e.withPrev len :: es)).length)
          (10 + A.length + lastOffset (e.withPrev len :: es)) n (A ++ entriesBytes (e.withPrev len :: es)))
          (10 + A.length)
      else .ok (blob (10 + A.length + (entriesBytes (e.withPrev len :: es)).length)
        (10 + A.length + lastOffset (e.withPrev len :: es)) n (A ++ entriesBytes (e.withPrev len :: es)))) =
      .ok (blob (10 + A.length + (entriesBytes (settle len (e :: es))).length)
        (10 + A.length + lastOffset (settle len (e :: es))) n (A ++ entriesBytes (settle len (e :: es)))) := by
  rw [settle, length_entriesBytes_cons] at hsmall
  have hraw := rawlen_withPrev e len
  split
  case isTrue hne =>
    have hgrows := length_fixPrevlens (e.withPrev len).rawlen es
    have hcount := length_lt_entriesBytes es
    have hfuel : es.length < (blob (10 + A.length + (entriesBytes (e.withPrev len :: es)).length)
        (10 + A.length + lastOffset (e.withPrev len :: es)) n
        (A ++ entriesBytes (e.withPrev len :: es))).length + 1 := by
      rw [length_blob, List.length_append, length_entriesBytes_cons]
      omega
    have hrun := cascadeLoop_eq (n := n) es A (e.withPrev len) hfuel (by omega)
    rw [← entriesBytes_cons, Nat.add_assoc (10 + A.length), ← length_entriesBytes_cons] at hrun
    rw [ziplistCascadeUpdate, bytes_blob _ (by rw [length_entriesBytes_cons]; omega), hrun, settle,
      length_entriesBytes_cons, ← Nat.add_assoc, entriesBytes_cons]
  case isFalse heq =>
    have hsame : (e.withPrev len).rawlen = e.rawlen := by omega
    rw [settle, hsame, fixPrevlens_of_chained htail]

theorem tail_settles {b n T U : Nat} {M : Bytes} (e : Entry) (es : List Entry) (len : Nat) {x : Int}
    (hx : (T : Int) + x = U) (hsmall : U + lastOffset (e.withPrev len :: es) < 2 ^ 32) (zl : Bytes)
    (hzl : zl = setTailOffset (blob b (T + lastOffset (e :: es)) n (M ++ entriesBytes (e.withPrev len :: es)))
      (((T + lastOffset (e :: es) : Nat) : Int) + x)) :
    (if byteOf zl (10 + M.length + (zipEntry (zl.drop (10 + M.length))).headersize +
        (zipEntry (zl.drop (10 + M.length))).len) ≠ ZIP_END then
      setTailOffset zl (ziplistTailOffset zl + (((zipPrevEncodeLength len).length : Int) - (e.prevlen.length : Int)))
    else zl) = blob b (U + lastOffset (e.withPrev len :: es)) n (M ++ entriesBytes (e.withPrev len :: es)) := by
  have hraw := rawlen_withPrev e len
  have hblob : zl = blob b ((((T + lastOffset (e :: es) : Nat) : Int) + x) % 2 ^ 32).toNat n
      (M ++ entriesBytes (e.withPrev len :: es)) := by rw [hzl, setTailOffset_emod]
  have hdrop : zl.drop (10 + M.length) = (e.withPrev len).bytes ++ entriesBytes es := by
    rw [hblob, drop_at, entriesBytes_cons]
  have hnext : zl.drop (10 + M.length + (e.withPrev len).rawlen) = entriesBytes es := by
    rw [← List.drop_drop, hdrop]
    exact List.drop_left
  rw [hdrop, zipEntry_read]
  dsimp only
  rw [Nat.add_assoc, ← (e.withPrev len).rawlen_eq, byteOf, hnext]
  cases es with
  | nil =>
    rw [if_neg (show ¬ byteAt (entriesBytes []) 0 ≠ ZIP_END from not_not_intro rfl), hblob]
    congr 1
    have hzero : ∀ m : Entry, lastOffset [m] = 0 := fun _ => rfl
    rw [hzero] at hsmall ⊢
    rw [hzero]
    omega
  | cons f es =>
    rw [entriesBytes_cons, if_pos (entry_read f _).1, hzl, setTailOffset_twice _ hsmall]
    rw [lastOffset, lastOffset]
    omega

def counter (n : Nat) (incr : Int) : Nat := if n < 65535 then (n + incr).toNat else n

theorem incrLength_blob {b t n : Nat} (body : Bytes) (hn : n < 2 ^ 16) {k : Int}
    (hk : n < 65535 → 0 ≤ n + k) : incrLength (blob b t n body) k = blob b t (counter n k) body := by
  rw [incrLength, length_field_blob _ hn, counter]
  split
  · rename_i hlt
    rw [if_pos (show n < 65535 from hlt), setLength_blob _ (hk hlt)]
  · rename_i hge
    rw [if_neg (show ¬ n < 65535 from hge)]

theorem counter_count {n l l' : Nat} {k : Int} (h : n = l ∧ n ≤ 65535 ∨ n = 65535) (hl : (l' : Int) = l + k)
    (hk : k ≤ 1) : counter n k = l' ∧ counter n k ≤ 65535 ∨ counter n k = 65535 := by
  unfold counter
  split <;> omega

theorem counter_exact {n l : Nat} {k : Int} (hlt : n < 65535) (hl : (l : Int) = n + k) : counter n k = l := by
  rw [counter, if_pos hlt]
  omega

theorem counter_zero (n : Nat) : counter n 0 = n := by
  unfold counter
  split
  · exact Int.toNat_natCast n
  · rfl

end RedisCluster.Ziplist
