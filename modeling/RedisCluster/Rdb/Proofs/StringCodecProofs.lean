import RedisCluster.Rdb.StringCodec
import RedisCluster.Util.Proofs.StringProofs

/-!
# Proofs: lengths and strings are read back

Of each form, integer, compressed and verbatim, it is shown what the loader does with its bytes in front of
others; then which form is written.
-/

namespace RedisCluster.Rdb

open RedisCluster.Lib
open RedisCluster.Util

theorem toNat_kindByte {kind low : Nat} (hkind : kind < 4) (hlow : low < 64) :
    (kindByte kind low).toNat = 64 * kind + low := by
  have hor : low ||| kind <<< 6 = 64 * kind + low := by
    rw [Nat.shiftLeft_eq, Nat.or_comm, Nat.mul_comm]
    exact (Nat.two_pow_add_eq_or_of_lt hlow kind).symm
  rw [kindByte, hor, UInt8.toNat_ofNat', Nat.mod_eq_of_lt (by omega)]

theorem kindByte_fields {kind low : Nat} (hkind : kind < 4) (hlow : low < 64) :
    ((kindByte kind low).toNat &&& 0xC0) >>> 6 = kind ∧ (kindByte kind low).toNat &&& 0x3F = low := by
  have hfields : ∀ k < 4, ∀ l < 64, ((64 * k + l) &&& 0xC0) >>> 6 = k ∧ (64 * k + l) &&& 0x3F = l := by
    decide +kernel
  rw [toNat_kindByte hkind hlow]
  exact hfields kind hkind low hlow

theorem rioRead_append {bs : Bytes} {n : Nat} (h : bs.length = n) (rest : Bytes) :
    rioRead (bs ++ rest) n = some (bs, rest) := by
  subst h
  rw [rioRead, if_neg (by rw [List.length_append]; omega), List.take_left, List.drop_left]

theorem rdbLoadLen_saved {n : Nat} (h : n < 2 ^ 32) (rest : Bytes) :
    rdbLoadLen (rdbSaveLen n ++ rest) = (n, false, rest) := by
  simp only [rdbSaveLen, Nat.mod_eq_of_lt h]
  by_cases h6 : n < 1 <<< 6
  · have hlow : n % 256 = n := Nat.mod_eq_of_lt (Nat.lt_trans h6 (by decide))
    obtain ⟨htype, hbits⟩ := kindByte_fields (show REDIS_RDB_6BITLEN < 4 by decide) h6
    rw [if_pos h6, hlow, List.singleton_append]
    simp only [rdbLoadLen, htype, hbits]
    rw [if_neg (by decide), if_pos trivial]
  · rw [if_neg h6]
    by_cases h14 : n < 1 <<< 14
    · have h14' : n < 16384 := h14
      have hshift : n >>> 8 = n / 256 := Nat.shiftRight_eq_div_pow n 8
      have hhigh : (n >>> 8) % 256 = n / 256 := by
        rw [hshift]
        omega
      have hlow : (UInt8.ofNat (n % 256)).toNat = n % 256 := by
        rw [UInt8.toNat_ofNat']
        omega
      have hjoin : (n / 256) <<< 8 ||| n % 256 = n := by
        rw [← Nat.shiftLeft_add_eq_or_of_lt (Nat.mod_lt n (by decide)), Nat.shiftLeft_eq]
        omega
      obtain ⟨htype, hbits⟩ := kindByte_fields (show REDIS_RDB_14BITLEN < 4 by decide)
        (show n / 256 < 64 by omega)
      rw [if_pos h14, hhigh]
      simp only [List.cons_append, List.nil_append, rdbLoadLen, htype, hbits, hlow, hjoin]
      rw [if_neg (by decide), if_neg (by decide), if_pos trivial]
    · have hread := leNat_leBytes 4 n
      have hmod : (n : Int) % (256 ^ 4 : Nat) = n := by omega
      rw [hmod, Int.natCast_inj] at hread
      obtain ⟨htype, -⟩ := kindByte_fields (show REDIS_RDB_32BITLEN < 4 by decide) (show 0 < 64 by decide)
      have hlength : (leBytes 4 n).reverse.length = 4 := by rw [List.length_reverse, length_leBytes]
      rw [if_neg h14]
      simp only [List.cons_append, rdbLoadLen, htype, rioRead_append hlength, List.reverse_reverse, hread]
      rw [if_neg (by decide), if_neg (by decide), if_neg (by decide)]

theorem rdbSaveLen_prefixFree {m n : Nat} (hm : m < 2 ^ 32) (hn : n < 2 ^ 32)
    (h : rdbSaveLen m <+: rdbSaveLen n) : m = n := by
  obtain ⟨rest, hrest⟩ := h
  have hload := rdbLoadLen_saved hm rest
  have hload' := rdbLoadLen_saved hn []
  rw [List.append_nil, ← hrest, hload] at hload'
  exact congrArg Prod.fst hload'

theorem rdbLoadLen_encoded {enctype : Nat} (h : enctype < 64) (rest : Bytes) :
    rdbLoadLen (kindByte REDIS_RDB_ENCVAL enctype :: rest) = (enctype, true, rest) := by
  obtain ⟨htype, hbits⟩ := kindByte_fields (show REDIS_RDB_ENCVAL < 4 by decide) h
  simp only [rdbLoadLen, htype, hbits, if_pos]

def integerObject (value : Int) (encode : Bool) : Robj := if encode then .int value else .raw (ll2string value)

theorem integerObject_string (value : Int) (encode : Bool) : (integerObject value encode).string = ll2string value := by
  cases encode <;> rfl

theorem loadInteger_saved {value : Int} {w : Nat} (h : FitsBytes w value) (rest : Bytes) (encode : Bool) :
    loadInteger (leBytes w value ++ rest) w encode = some (integerObject value encode, rest) := by
  rw [loadInteger, rioRead_append (length_leBytes w value), Option.map_some, leInt_leBytes h]
  rfl

theorem load_encodedInteger {value : Int} (h : rdbEncodeInteger value ≠ []) (rest : Bytes) (encode : Bool) :
    rdbGenericLoadStringObject (rdbEncodeInteger value ++ rest) encode = some (integerObject value encode, rest) := by
  rw [rdbEncodeInteger] at h ⊢
  by_cases h8 : value ≥ -(2 ^ 7) ∧ value ≤ 2 ^ 7 - 1
  · have hfits : FitsBytes 1 value := by
      constructor <;> omega
    rw [if_pos h8, List.cons_append, rdbGenericLoadStringObject, rdbLoadLen_encoded (by decide)]
    exact loadInteger_saved hfits rest encode
  · rw [if_neg h8] at h ⊢
    by_cases h16 : value ≥ -(2 ^ 15) ∧ value ≤ 2 ^ 15 - 1
    · have hfits : FitsBytes 2 value := by
        constructor <;> omega
      rw [if_pos h16, List.cons_append, rdbGenericLoadStringObject, rdbLoadLen_encoded (by decide)]
      exact loadInteger_saved hfits rest encode
    · rw [if_neg h16] at h ⊢
      by_cases h32 : value ≥ -(2 ^ 31) ∧ value ≤ 2 ^ 31 - 1
      · have hfits : FitsBytes 4 value := by
          constructor <;> omega
        rw [if_pos h32, List.cons_append, rdbGenericLoadStringObject, rdbLoadLen_encoded (by decide)]
        exact loadInteger_saved hfits rest encode
      · rw [if_neg h32] at h
        exact absurd rfl h

theorem tryIntegerEncoding_text {s memory : Bytes} (h : rdbTryIntegerEncoding s memory ≠ []) :
    ∃ value, ll2string value = s ∧ rdbTryIntegerEncoding s memory = rdbEncodeInteger value := by
  simp only [rdbTryIntegerEncoding] at h ⊢
  by_cases hend : (Aof.strtoll (s ++ memory)).eptr.headD 0 ≠ 0
  · rw [if_pos hend] at h
    exact absurd rfl h
  · rw [if_neg hend] at h ⊢
    by_cases htext : ll2string (Aof.strtoll (s ++ memory)).value ≠ s
    · rw [if_pos htext] at h
      exact absurd rfl h
    · rw [if_neg htext]
      exact ⟨_, not_not.mp htext, rfl⟩

theorem loadsBack_integer {value : Int} (h : rdbEncodeInteger value ≠ []) :
    LoadsBack (rdbEncodeInteger value) (ll2string value) := fun encode rest =>
  ⟨_, load_encodedInteger h rest encode, integerObject_string value encode⟩

theorem loadsBack_verbatim {s : Bytes} (h : s.length < REDIS_RDB_LENERR) :
    LoadsBack (rdbSaveLen s.length ++ s) s := by
  intro encode rest
  have hlt : s.length < 2 ^ 32 := Nat.lt_trans h (by decide)
  refine ⟨.raw s, ?_, rfl⟩
  rw [List.append_assoc, rdbGenericLoadStringObject, rdbLoadLen_saved hlt]
  simp only [Bool.false_eq_true, if_false]
  rw [if_neg (by omega), rioRead_append rfl, Option.map_some]

theorem loadsBack_lzf {s out : Bytes} (h : s.length < REDIS_RDB_LENERR) (hout : out.length ≤ s.length - 4)
    (hlzf : lzf_decompress out s.length = some s) : LoadsBack (lzfBytes s out) s := by
  intro encode rest
  have hlt : s.length < 2 ^ 32 := Nat.lt_trans h (by decide)
  have hload : rdbLoadLzfStringObject (rdbSaveLen out.length ++ (rdbSaveLen s.length ++ (out ++ rest))) =
      some (.raw s, rest) := by
    rw [rdbLoadLzfStringObject, rdbLoadLen_saved (by omega)]
    dsimp only
    rw [if_neg (by omega), rdbLoadLen_saved hlt]
    dsimp only
    rw [if_neg (by omega), rioRead_append rfl, Option.bind_some, hlzf, Option.map_some, Nat.sub_self,
      List.replicate_zero, List.append_nil]
  refine ⟨.raw s, ?_, rfl⟩
  rw [lzfBytes, List.cons_append, List.append_assoc, List.append_assoc, rdbGenericLoadStringObject,
    rdbLoadLen_encoded (by decide)]
  simp only [if_true]
  exact hload

theorem LoadsBack.append_ne {written s extra s' : Bytes} (h : LoadsBack written s) (hextra : extra ≠ []) :
    ¬ LoadsBack (written ++ extra) s' := by
  intro h'
  obtain ⟨o, heq, -⟩ := h false extra
  obtain ⟨o', heq', -⟩ := h' false []
  rw [List.append_nil, heq, Option.some.injEq] at heq'
  exact hextra (congrArg Prod.snd heq')

theorem narrowInt_ne {n : Nat} (h : n < REDIS_RDB_LENERR) : narrowInt n ≠ -1 := by
  rw [REDIS_RDB_LENERR] at h
  rw [narrowInt, Int.bmod_def]
  split <;> omega

theorem rawString_plain (lzf_compress : Bytes → Nat → Bytes) (c : Bool) {s memory : Bytes}
    (henc : (if s.length ≤ 11 then rdbTryIntegerEncoding s memory else []) = [])
    (hs : s.length < REDIS_RDB_LENERR) (hlzf : LzfContract lzf_compress) :
    (LoadsBack (rdbSaveRawString lzf_compress c s memory).2 s ↔
      ¬ (c = true ∧ 20 < s.length ∧ WrapsLzf lzf_compress s)) := by
  have hverbatim := loadsBack_verbatim hs
  have hne : rdbSaveLen s.length ++ s ≠ [] := by
    intro hnil
    obtain ⟨o, heq, -⟩ := hverbatim false []
    rw [hnil] at heq
    cases heq
  simp only [rdbSaveRawString, henc, List.length_nil, Nat.lt_irrefl, gt_iff_lt, if_false]
  by_cases hc : c = true ∧ 20 < s.length
  · rw [if_pos hc]
    set out := lzf_compress s (s.length - 4) with hout
    by_cases hnone : out = []
    · have hsaved : rdbSaveLzfStringObject lzf_compress s = (0, []) := by
        simp only [rdbSaveLzfStringObject, ← hout, hnone, List.length_nil, if_true]
        exact ite_self _
      rw [hsaved, if_neg (by decide), if_neg (by decide), List.nil_append, if_neg (narrowInt_ne hs)]
      exact iff_of_true hverbatim fun h => h.2.2.1 hnone
    · obtain ⟨hfits, hback⟩ := hlzf s (s.length - 4) hnone
      have hload := loadsBack_lzf hs hfits hback
      have hsaved : rdbSaveLzfStringObject lzf_compress s =
          (narrowInt (lzfBytes s out).length, lzfBytes s out) := by
        have hlength : ¬ out.length = 0 := fun h => hnone (List.length_eq_zero_iff.mp h)
        simp only [rdbSaveLzfStringObject, ← hout]
        rw [if_neg (by omega), if_neg hlength, if_neg (narrowInt_ne (Nat.lt_of_le_of_lt hfits (by omega)))]
      rw [hsaved]
      dsimp only
      by_cases hminus : narrowInt (lzfBytes s out).length = -1
      · rw [if_pos hminus]
        exact iff_of_true hload fun h => h.2.2.2.2 hminus
      · rw [if_neg hminus]
        by_cases hpos : 0 < narrowInt (lzfBytes s out).length
        · rw [if_pos hpos]
          exact iff_of_true hload fun h => absurd h.2.2.2.1 (Int.not_le.mpr hpos)
        · rw [if_neg hpos, if_neg (narrowInt_ne hs)]
          exact iff_of_false (hload.append_ne hne) fun h => h ⟨hc.1, hc.2, hnone, Int.not_lt.mp hpos, hminus⟩
  · rw [if_neg hc, if_neg (by decide), if_neg (by decide), List.nil_append, if_neg (narrowInt_ne hs)]
    exact iff_of_true hverbatim fun h => hc ⟨h.1, h.2.1⟩

theorem rawString_right_iff (lzf_compress : Bytes → Nat → Bytes) (c : Bool) (s memory : Bytes)
    (hs : s.length < REDIS_RDB_LENERR) (hlzf : LzfContract lzf_compress) :
    (LoadsBack (rdbSaveRawString lzf_compress c s memory).2 s ↔
      ¬ (c = true ∧ 20 < s.length ∧ WrapsLzf lzf_compress s)) := by
  by_cases henc : (if s.length ≤ 11 then rdbTryIntegerEncoding s memory else []) = []
  · exact rawString_plain lzf_compress c henc hs hlzf
  · have hshort : s.length ≤ 11 := by
      by_contra hlong
      rw [if_neg hlong] at henc
      exact henc rfl
    rw [if_pos hshort] at henc
    obtain ⟨value, htext, hvalue⟩ := tryIntegerEncoding_text henc
    have hload : LoadsBack (rdbSaveRawString lzf_compress c s memory).2 s := by
      simp only [rdbSaveRawString, if_pos hshort]
      rw [if_pos (List.length_pos_iff.mpr henc), hvalue]
      rw [hvalue] at henc
      exact htext ▸ loadsBack_integer henc
    exact iff_of_true hload fun h => by omega

theorem longLong_right {value : Int} (hmin : -(2 ^ 63) ≤ value) (hmax : value < 2 ^ 63) :
    LoadsBack (rdbSaveLongLongAsStringObject value).2 (ll2string value) := by
  simp only [rdbSaveLongLongAsStringObject]
  by_cases henc : 0 < (rdbEncodeInteger value).length
  · rw [if_pos henc]
    exact loadsBack_integer (List.length_pos_iff.mp henc)
  · rw [if_neg henc]
    have hdigits : (decimal value.natAbs).length ≤ 19 := length_decimal_le (by decide) (by omega)
    have hlength : (ll2string value).length ≤ 20 := by
      rw [ll2string]
      split
      · rw [List.length_cons]
        omega
      · omega
    exact loadsBack_verbatim (by rw [REDIS_RDB_LENERR]; omega)

end RedisCluster.Rdb

/-!
## Proofs: a compressed string of more than 2 GB

Bytes of which no three come again within the reach of a back reference are compressed to runs of 32 bytes as they
stand, and zeros behind them to one zero and back references of the greatest length. With enough of both the
compressed form is shorter than the string and has more than 2^31 bytes.
-/

namespace RedisCluster.Rdb

open RedisCluster.Lib
open RedisCluster.Util

theorem lzfLoop_cons (out_len : Nat) (op : Bytes) (ctrl : UInt8) (ip : Bytes) :
    lzfLoop out_len op (ctrl :: ip) =
      (lzfStep out_len op ctrl.toNat ip).bind fun r => if r.2 = [] then some r.1 else lzfLoop out_len r.1 r.2 := by
  rw [lzfLoop]
  split
  · next hstep => rw [hstep, Option.bind_none]
  · next r hstep => rw [hstep, Option.bind_some]

def literalRuns : Nat → Bytes → Bytes
  | 0, _ => []
  | n + 1, s => 31 :: (s.take 32 ++ literalRuns n (s.drop 32))

def zeroRuns : Nat → Bytes
  | 0 => []
  | n + 1 => 224 :: 255 :: 0 :: zeroRuns n

theorem length_literalRuns {n : Nat} {s : Bytes} (h : s.length = 32 * n) : (literalRuns n s).length = 33 * n := by
  induction n generalizing s with
  | zero => rfl
  | succ n ih =>
    have hrest : (s.drop 32).length = 32 * n := by
      rw [List.length_drop]
      omega
    rw [literalRuns, List.length_cons, List.length_append, List.length_take, ih hrest]
    omega

theorem length_zeroRuns (n : Nat) : (zeroRuns n).length = 3 * n := by
  induction n with
  | zero => rfl
  | succ n ih =>
    rw [zeroRuns, List.length_cons, List.length_cons, List.length_cons, ih]
    omega

theorem literalRun_append {out_len : Nat} {op : Bytes} (run rest : Bytes) (h : op.length + run.length ≤ out_len) :
    literalRun out_len op run.length (run ++ rest) = some (op ++ run, rest) := by
  rw [literalRun, if_neg, List.take_left, List.drop_left]
  rw [List.length_append]
  omega

theorem lzfLoop_literalRuns {out_len n : Nat} {s : Bytes} (hs : s.length = 32 * n) {rest : Bytes} (hrest : rest ≠ [])
    (op : Bytes) (h : op.length + 32 * n ≤ out_len) :
    lzfLoop out_len op (literalRuns n s ++ rest) = lzfLoop out_len (op ++ s) rest := by
  induction n generalizing s op with
  | zero =>
    rw [List.length_eq_zero_iff.mp hs, List.append_nil]
    rfl
  | succ n ih =>
    have htake : (s.take 32).length = 32 := by
      rw [List.length_take]
      omega
    have hdrop : (s.drop 32).length = 32 * n := by
      rw [List.length_drop]
      omega
    have hfits : op.length + (s.take 32).length ≤ out_len := by omega
    have hrun := literalRun_append (s.take 32) (literalRuns n (s.drop 32) ++ rest) hfits
    rw [htake] at hrun
    have hstep : lzfStep out_len op (31 : UInt8).toNat (s.take 32 ++ (literalRuns n (s.drop 32) ++ rest)) =
        some (op ++ s.take 32, literalRuns n (s.drop 32) ++ rest) := hrun
    have hmore : literalRuns n (s.drop 32) ++ rest ≠ [] := List.append_ne_nil_of_right_ne_nil _ hrest
    rw [literalRuns, List.cons_append, List.append_assoc, lzfLoop_cons, hstep, Option.bind_some, if_neg hmore]
    rw [ih hdrop (op ++ s.take 32) (by rw [List.length_append]; omega), List.append_assoc, List.take_append_drop]

theorem copyBack_last (x : Bytes) (b : UInt8) (n : Nat) :
    copyBack (x ++ [b]) x.length n = x ++ [b] ++ List.replicate n b := by
  induction n generalizing x with
  | zero => rw [copyBack, List.replicate_zero, List.append_nil]
  | succ n ih =>
    have hget : (x ++ [b]).getD x.length 0 = b := by simp
    have hnext := ih (x ++ [b])
    rw [List.length_append, List.length_singleton] at hnext
    rw [copyBack, hget, hnext, List.replicate_succ, List.append_assoc (x ++ [b]), List.singleton_append]

theorem lzfLoop_zeroRuns {out_len n : Nat} {rest : Bytes} (hrest : rest ≠ []) (x : Bytes)
    (h : x.length + 1 + 264 * n ≤ out_len) :
    lzfLoop out_len (x ++ [0]) (zeroRuns n ++ rest) =
      lzfLoop out_len (x ++ [0] ++ List.replicate (264 * n) 0) rest := by
  induction n generalizing x with
  | zero => rw [Nat.mul_zero, List.replicate_zero, List.append_nil, zeroRuns, List.nil_append]
  | succ n ih =>
    have hlength : (x ++ [0]).length = x.length + 1 := by rw [List.length_append, List.length_singleton]
    have hcopy : backReference out_len (x ++ [0]) 224 262 (0 :: (zeroRuns n ++ rest)) =
        some (x ++ [0] ++ List.replicate 264 0, zeroRuns n ++ rest) := by
      have hback : x.length + 1 - 1 = x.length := rfl
      simp only [backReference, List.head?_cons, Option.bind_some, List.tail_cons, hlength, UInt8.toNat_zero,
        Nat.reduceMod, Nat.zero_mul, Nat.zero_add, Nat.add_zero, hback, copyBack_last]
      rw [if_neg (by omega)]
    have hstep : lzfStep out_len (x ++ [0]) (224 : UInt8).toNat (255 :: 0 :: (zeroRuns n ++ rest)) =
        some (x ++ [0] ++ List.replicate 264 0, zeroRuns n ++ rest) := hcopy
    have hmore : zeroRuns n ++ rest ≠ [] := List.append_ne_nil_of_right_ne_nil _ hrest
    have hshift : x ++ [0] ++ List.replicate 264 0 = (x ++ List.replicate 264 (0 : UInt8)) ++ [0] := by
      rw [List.append_assoc, List.append_assoc, List.singleton_append, ← List.replicate_succ, List.replicate_succ']
    rw [zeroRuns, List.cons_append, List.cons_append, List.cons_append, lzfLoop_cons, hstep, Option.bind_some,
      if_neg hmore]
    dsimp only
    rw [hshift, ih (x ++ List.replicate 264 0) (by rw [List.length_append, List.length_replicate]; omega), ← hshift,
      List.append_assoc, List.replicate_append_replicate]
    congr 3
    omega

def noiseByte (i : Nat) : UInt8 :=
  if i % 2 = 0 then UInt8.ofNat (128 + i / 2 % 16384 / 128) else UInt8.ofNat (i / 2 % 128)

def noise (n : Nat) : Bytes := (List.range (32 * n)).map noiseByte

def paddedNoise (n m : Nat) : Bytes := noise n ++ (0 :: List.replicate (264 * m) 0 ++ [0, 0])

def packedNoise (n m : Nat) : Bytes := literalRuns n (noise n) ++ (0 :: 0 :: (zeroRuns m ++ [1, 0, 0]))

theorem length_noise (n : Nat) : (noise n).length = 32 * n := by
  rw [noise, List.length_map, List.length_range]

theorem length_paddedNoise (n m : Nat) : (paddedNoise n m).length = 32 * n + 264 * m + 3 := by
  simp only [paddedNoise, List.length_append, List.length_cons, List.length_replicate, List.length_nil, length_noise]
  omega

theorem length_packedNoise (n m : Nat) : (packedNoise n m).length = 33 * n + 3 * m + 5 := by
  simp only [packedNoise, List.length_append, List.length_cons, List.length_nil, length_zeroRuns,
    length_literalRuns (length_noise n)]
  omega

theorem decompress_packedNoise (n m : Nat) :
    lzf_decompress (packedNoise n m) (paddedNoise n m).length = some (paddedNoise n m) := by
  have hlength := length_paddedNoise n m
  have hnoise := length_noise n
  have hzero : lzfStep (paddedNoise n m).length (noise n) (0 : UInt8).toNat (0 :: (zeroRuns m ++ [1, 0, 0])) =
      some (noise n ++ [0], zeroRuns m ++ [1, 0, 0]) :=
    literalRun_append [0] _ (by rw [List.length_singleton]; omega)
  have hend : lzfStep (paddedNoise n m).length (noise n ++ [0] ++ List.replicate (264 * m) 0) (1 : UInt8).toNat [0, 0] =
      some (noise n ++ [0] ++ List.replicate (264 * m) 0 ++ [0, 0], []) := by
    refine literalRun_append [0, 0] [] ?_
    simp only [List.length_append, List.length_cons, List.length_nil, List.length_replicate]
    omega
  have hpadded : noise n ++ [0] ++ List.replicate (264 * m) 0 ++ [0, 0] = paddedNoise n m := by
    simp only [paddedNoise, List.append_assoc, List.cons_append, List.nil_append]
  have hne : paddedNoise n m ≠ [] := by
    intro hnil
    rw [hnil, List.length_nil] at hlength
    omega
  rw [lzf_decompress, packedNoise, lzfLoop_literalRuns hnoise (List.cons_ne_nil _ _) [] (by
    rw [List.length_nil]
    omega), List.nil_append]
  rw [lzfLoop_cons, hzero, Option.bind_some, if_neg (List.append_ne_nil_of_right_ne_nil _ (List.cons_ne_nil _ _))]
  rw [lzfLoop_zeroRuns (List.cons_ne_nil _ _) (noise n) (by omega), lzfLoop_cons, hend, Option.bind_some, if_pos rfl,
    hpadded, Option.bind_some, if_neg hne]

def compressOne (s packed t : Bytes) (out_len : Nat) : Bytes :=
  if t = s ∧ packed.length ≤ out_len then packed else []

theorem compressOne_contract {s packed : Bytes} (h : lzf_decompress packed s.length = some s) :
    LzfContract (compressOne s packed) := by
  intro t out_len hne
  by_cases hone : t = s ∧ packed.length ≤ out_len
  · rw [compressOne, if_pos hone, hone.1]
    exact ⟨hone.2, h⟩
  · rw [compressOne, if_neg hone] at hne
    exact absurd rfl hne

theorem length_saveLen_long {n : Nat} (hmin : 2 ^ 14 ≤ n) (hmax : n < 2 ^ 32) : (rdbSaveLen n).length = 5 := by
  simp only [rdbSaveLen, Nat.mod_eq_of_lt hmax]
  rw [if_neg (by omega), if_neg (by omega), List.length_cons, List.length_reverse, length_leBytes]

end RedisCluster.Rdb
