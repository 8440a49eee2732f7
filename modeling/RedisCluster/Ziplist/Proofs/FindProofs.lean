import RedisCluster.Ziplist.Ziplist
import RedisCluster.Util.Proofs.NumberProofs

/-!
# Looking up a string in a ziplist: proofs

The fields of an entry are read back from the bytes, whatever follows them. A number is compared with the string by value,
and only the canonical spelling is read as one.
-/

namespace RedisCluster.Ziplist

open RedisCluster.Lib RedisCluster.Util

theorem byteAt_append {a : Bytes} {i : Nat} (hi : i < a.length) (b : Bytes) : byteAt (a ++ b) i = byteAt a i := by
  rw [byteAt, byteAt, List.getD_eq_getElem?_getD, List.getElem?_append_left hi, ← List.getD_eq_getElem?_getD]

theorem prevlensize_append {a : Bytes} (ha : 0 < a.length) (b : Bytes) :
    zipDecodePrevlensize (a ++ b) = zipDecodePrevlensize a := by
  rw [zipDecodePrevlensize, zipDecodePrevlensize, byteAt_append ha]

theorem decodeLength_append {a : Bytes} (ha : a.length = (zipDecodeLength a).2.1) (b : Bytes) :
    zipDecodeLength (a ++ b) = zipDecodeLength a := by
  have hpos : 0 < a.length := by
    rw [ha, zipDecodeLength]
    split_ifs <;> exact Nat.succ_pos _
  have hencoding : zipEntryEncoding (a ++ b) = zipEntryEncoding a := by
    rw [zipEntryEncoding, zipEntryEncoding, byteAt_append hpos]
  rw [zipDecodeLength] at ha
  rw [zipDecodeLength, zipDecodeLength, hencoding]
  split_ifs at ha ⊢
  · rw [byteAt_append hpos]
  · have hlen : a.length = 2 := ha
    rw [byteAt_append hpos, byteAt_append (by omega)]
  · have hlen : a.length = 5 := ha
    rw [byteAt_append (by omega), byteAt_append (by omega), byteAt_append (by omega), byteAt_append (by omega)]
  · rfl

theorem longLong_leInt {bs : Bytes} (h : bs.length ≤ 8) : Numbers.IsLongLong (leInt bs) := by
  have hfits := (fitsBytes_leInt bs).mono h
  unfold FitsBytes at hfits
  unfold Numbers.IsLongLong
  omega

theorem loadInteger_content {content : Bytes} {encoding : Nat} (hencoding : IsIntEncoding encoding)
    (hsize : content.length = zipIntSize encoding) :
    ∃ z, Numbers.IsLongLong z ∧ ∀ rest, zipLoadInteger (content ++ rest) encoding = some z := by
  have htake : ∀ n, content.length = n → ∀ rest, (content ++ rest).take n = content := by
    intro n hn rest
    rw [← hn, List.take_left]
  have hwhole : ∀ n, n ≤ 8 → content.length = n →
      ∃ z, Numbers.IsLongLong z ∧ ∀ rest, some (leInt ((content ++ rest).take n)) = some z := by
    intro n hle hn
    refine ⟨leInt content, longLong_leInt (hn ▸ hle), fun rest => ?_⟩
    rw [htake n hn rest]
  rcases hencoding with hmem | ⟨hmin, hmax⟩
  · simp only [List.mem_cons, List.not_mem_nil, or_false] at hmem
    rcases hmem with rfl | rfl | rfl | rfl | rfl
    · exact hwhole 1 (by decide) hsize
    · exact hwhole 2 (by decide) hsize
    · have h : content.length = 3 := hsize
      have hwide : Numbers.IsLongLong (leInt (0 :: content)) :=
        longLong_leInt (by rw [List.length_cons]; omega)
      refine ⟨leInt (0 :: content) / 256, ?_,
        fun rest => congrArg (fun bs => some (leInt (0 :: bs) / 256)) (htake 3 h rest)⟩
      unfold Numbers.IsLongLong at hwide ⊢
      omega
    · exact hwhole 4 (by decide) hsize
    · exact hwhole 8 (by decide) hsize
  · refine ⟨((encoding &&& ZIP_INT_IMM_MASK : Nat) : Int) - 1, ?_, fun rest => ?_⟩
    · have hand : encoding &&& ZIP_INT_IMM_MASK ≤ ZIP_INT_IMM_MASK := Nat.and_le_right
      have hmask : ZIP_INT_IMM_MASK = 15 := rfl
      unfold Numbers.IsLongLong
      omega
    · have hother : ∀ n, n < ZIP_INT_IMM_MIN ∨ ZIP_INT_IMM_MAX < n → encoding ≠ n := fun n hn => by omega
      rw [zipLoadInteger, if_neg (hother _ (by decide)), if_neg (hother _ (by decide)), if_neg (hother _ (by decide)),
        if_neg (hother _ (by decide)), if_neg (hother _ (by decide)), if_pos ⟨hmin, hmax⟩]

theorem length_ll2string {z : Int} (hz : Numbers.IsLongLong z) : 0 < (ll2string z).length ∧ (ll2string z).length < 32 := by
  constructor
  · have hspells := Numbers.spells_ll2string hz
    generalize ll2string z = s at hspells ⊢
    cases hspells <;> exact Nat.succ_pos _
  · obtain ⟨hmin, hmax⟩ := hz
    have hle : (decimal z.natAbs).length ≤ 19 := length_decimal_le (by decide) (by omega)
    rw [ll2string]
    split
    · rw [List.length_cons]
      omega
    · omega

theorem string2ll_longLong {v : Bytes} {n : Int} :
    Numbers.string2ll v = some n ↔ ll2string n = v ∧ Numbers.IsLongLong n := by
  rw [Numbers.string2ll_eq]
  constructor
  · intro h
    obtain ⟨rfl, hrange⟩ := string2ll_inv h
    exact ⟨rfl, hrange⟩
  · rintro ⟨rfl, hmin, hmax⟩
    exact string2ll_ll2string hmin hmax

theorem tryEncoding_spelled (v : Bytes) :
    (zipTryEncoding v = none ∧ ∀ z, Numbers.IsLongLong z → ll2string z ≠ v) ∨
      ∃ n encoding, zipTryEncoding v = some (n, encoding) ∧ encoding ≠ 0 ∧ encoding ≠ UCHAR_MAX ∧
        ∀ z, Numbers.IsLongLong z → (ll2string z = v ↔ z = n) := by
  rw [zipTryEncoding]
  split
  · rename_i hlen
    refine .inl ⟨rfl, fun z hz heq => ?_⟩
    have hbound := length_ll2string hz
    rw [heq] at hbound
    omega
  · cases hread : Numbers.string2ll v with
    | none =>
      refine .inl ⟨rfl, fun z hz heq => ?_⟩
      rw [string2ll_longLong.mpr ⟨heq, hz⟩] at hread
      cases hread
    | some n =>
      refine .inr ⟨n, _, rfl, ?_, ?_, fun z hz => ⟨fun heq => ?_, ?_⟩⟩
      · split_ifs
        · exact Nat.ne_of_gt (Nat.add_pos_left (by decide) _)
        all_goals decide
      · split_ifs with hsmall
        · have hmin : ZIP_INT_IMM_MIN = 241 := rfl
          have hmax : UCHAR_MAX = 255 := rfl
          omega
        all_goals decide
      · exact Option.some.inj ((string2ll_longLong.mpr ⟨heq, hz⟩).symm.trans hread)
      · rintro rfl
        exact (string2ll_longLong.mp hread).1

section

variable (e : Entry) (rest : Bytes)

theorem entry_read :
    byteAt (e.bytes ++ rest) 0 ≠ ZIP_END ∧
      zipDecodePrevlensize (e.bytes ++ rest) = e.prevlen.length ∧
      zipDecodeLength ((e.bytes ++ rest).drop e.prevlen.length) =
        (zipEntryEncoding e.header, e.header.length, e.content.length) ∧
      (e.bytes ++ rest).drop (e.prevlen.length + e.header.length) = e.content ++ rest := by
  have hpos : 0 < e.prevlen.length := by
    rw [e.prevlen_size, zipDecodePrevlensize]
    split <;> decide
  have hbytes : e.bytes ++ rest = e.prevlen ++ (e.header ++ (e.content ++ rest)) := by
    rw [Entry.bytes, List.append_assoc, List.append_assoc]
  have hdecode : (zipDecodeLength e.header).1 = zipEntryEncoding e.header := by
    rw [zipDecodeLength]
    split_ifs <;> rfl
  rw [hbytes]
  refine ⟨?_, ?_, ?_, ?_⟩
  · rw [byteAt_append hpos]
    exact e.prevlen_end
  · rw [prevlensize_append hpos, e.prevlen_size]
  · rw [List.drop_left, decodeLength_append e.header_size, e.header_size, e.content_size, ← hdecode]
  · rw [← List.drop_drop, List.drop_left, List.drop_left]

theorem string_matches (v : Bytes) :
    (e.content.length = v.length ∧ (e.content ++ rest).take v.length = v) ↔ e.content = v := by
  constructor
  · rintro ⟨hlen, htake⟩
    rwa [← hlen, List.take_left] at htake
  · rintro rfl
    exact ⟨rfl, List.take_left⟩

theorem int_loaded (hint : zipIsStr (zipEntryEncoding e.header) = false) :
    ∃ z, Numbers.IsLongLong z ∧ zipLoadInteger (e.content ++ rest) (zipEntryEncoding e.header) = some z ∧
      e.text = ll2string z := by
  have hencoding : IsIntEncoding (zipEntryEncoding e.header) := e.encoding.resolve_left (by rw [hint]; decide)
  have hsize : e.content.length = zipIntSize (zipEntryEncoding e.header) := by
    have hnot : ¬ zipEntryEncoding e.header < ZIP_STR_MASK := by
      intro hlt
      have hle : zipEntryEncoding e.header &&& ZIP_STR_MASK ≤ zipEntryEncoding e.header := Nat.and_le_left
      rw [zipIsStr, decide_eq_false_iff_not] at hint
      omega
    rw [e.content_size, zipDecodeLength, if_neg hnot]
  obtain ⟨z, hz, hload⟩ := loadInteger_content hencoding hsize
  refine ⟨z, hz, hload rest, ?_⟩
  have hself := hload []
  rw [List.append_nil] at hself
  rw [Entry.text, hint, if_neg Bool.false_ne_true, hself]
  rfl

theorem compare_entry (v : Bytes) : ziplistCompare (e.bytes ++ rest) v = .ok (decide (e.text = v)) := by
  obtain ⟨hend, hprevlen, hlength, hcontent⟩ := entry_read e rest
  simp only [ziplistCompare, if_neg hend, hprevlen, hlength, hcontent]
  cases hstr : zipIsStr (zipEntryEncoding e.header) with
  | true =>
    have hmatches := string_matches e rest v
    rw [if_pos rfl, Entry.text, if_pos hstr, ← Bool.decide_and]
    exact congrArg Except.ok (decide_eq_decide.mpr hmatches)
  | false =>
    obtain ⟨z, hz, hload, htext⟩ := int_loaded e rest hstr
    rw [if_neg Bool.false_ne_true, htext, hload]
    rcases tryEncoding_spelled v with ⟨htry, hnone⟩ | ⟨n, encoding, htry, -, -, hsome⟩
    · rw [htry, decide_eq_false (hnone z hz)]
    · rw [htry]
      exact congrArg Except.ok (decide_eq_decide.mpr (hsome z hz).symm)

end

section

variable {v : Bytes}

def Known (v : Bytes) (vencoding : Nat) (vll : Int) : Prop :=
  (vencoding = UCHAR_MAX ∧ ∀ z, Numbers.IsLongLong z → ll2string z ≠ v) ∨
    (vencoding ≠ 0 ∧ vencoding ≠ UCHAR_MAX ∧ ∀ z, Numbers.IsLongLong z → (ll2string z = v ↔ z = vll))

theorem findNumber_known {vencoding : Nat} {vll : Int} (h : vencoding = 0 ∨ Known v vencoding vll) :
    Known v (findNumber v vencoding vll).1 (findNumber v vencoding vll).2 := by
  unfold findNumber
  by_cases hzero : vencoding = 0
  · rw [if_pos hzero]
    rcases tryEncoding_spelled v with ⟨htry, hnone⟩ | ⟨n, encoding, htry, hne, hmax, hsome⟩
    · rw [htry]
      exact .inl ⟨rfl, hnone⟩
    · rw [htry]
      exact .inr ⟨hne, hmax, hsome⟩
  · rw [if_neg hzero]
    exact h.resolve_left hzero

theorem findLoop_entry (e : Entry) (rest : Bytes) (skip : UInt32) (fuel : Nat) {vencoding : Nat} {vll : Int}
    (h : vencoding = 0 ∨ Known v vencoding vll) :
    (∀ skipcnt, skipcnt ≠ 0 → ziplistFindLoop v skip (fuel + 1) (e.bytes ++ rest) skipcnt vencoding vll =
        ziplistFindLoop v skip fuel rest (skipcnt - 1) vencoding vll) ∧
      (e.text = v → ziplistFindLoop v skip (fuel + 1) (e.bytes ++ rest) 0 vencoding vll = .ok (some (e.bytes ++ rest))) ∧
      (e.text ≠ v → ∃ vencoding' vll', (vencoding' = 0 ∨ Known v vencoding' vll') ∧
        ziplistFindLoop v skip (fuel + 1) (e.bytes ++ rest) 0 vencoding vll =
          ziplistFindLoop v skip fuel rest skip vencoding' vll') := by
  obtain ⟨hend, hprevlen, hlength, hcontent⟩ := entry_read e rest
  have hknown := findNumber_known h
  simp only [ziplistFindLoop, if_neg hend, hprevlen, hlength, hcontent, List.drop_left]
  refine ⟨fun skipcnt hne => if_neg hne, fun htext => ?_, fun htext => ?_⟩
  · cases hstr : zipIsStr (zipEntryEncoding e.header) with
    | true =>
      rw [Entry.text, if_pos hstr] at htext
      rw [if_pos trivial, if_pos rfl, if_pos ((string_matches e rest v).mpr htext)]
    | false =>
      obtain ⟨z, hz, hload, heq⟩ := int_loaded e rest hstr
      rw [heq] at htext
      rcases hknown with ⟨-, hnone⟩ | ⟨-, hmax, hsome⟩
      · exact absurd htext (hnone z hz)
      · rw [if_pos trivial, if_neg Bool.false_ne_true, if_pos hmax, hload]
        exact if_pos ((hsome z hz).mp htext)
  · cases hstr : zipIsStr (zipEntryEncoding e.header) with
    | true =>
      rw [Entry.text, if_pos hstr] at htext
      rw [if_pos trivial, if_pos rfl, if_neg fun hmatch => htext ((string_matches e rest v).mp hmatch)]
      exact ⟨vencoding, vll, h, rfl⟩
    | false =>
      obtain ⟨z, hz, hload, heq⟩ := int_loaded e rest hstr
      rw [heq] at htext
      refine ⟨_, _, .inr hknown, ?_⟩
      rw [if_pos trivial, if_neg Bool.false_ne_true]
      rcases hknown with ⟨hmax, -⟩ | ⟨-, hmax, hsome⟩
      · exact if_neg (not_not.mpr hmax)
      · rw [if_pos hmax, hload]
        exact if_neg fun hz' => htext ((hsome z hz).mpr hz')

theorem entriesBytes_cons (e : Entry) (es : List Entry) : entriesBytes (e :: es) = e.bytes ++ entriesBytes es := by
  rw [entriesBytes, entriesBytes, List.flatMap_cons, List.append_assoc]

def firstFrom (v : Bytes) (k c : Nat) (es : List Entry) : Option Nat :=
  (List.range es.length).find? fun i => i % (k + 1) = c ∧ (es[i]?).any fun e => e.text = v

theorem succ_mod_eq {i k c : Nat} (hc : c ≤ k) :
    (i + 1) % (k + 1) = c ↔ i % (k + 1) = if c = 0 then k else c - 1 := by
  have hlt : i % (k + 1) < k + 1 := Nat.mod_lt i (Nat.succ_pos k)
  have hsplit : (i + 1) % (k + 1) = (i % (k + 1) + 1) % (k + 1) := (Nat.mod_add_mod i (k + 1) 1).symm
  rw [hsplit]
  rcases Nat.lt_or_ge (i % (k + 1)) k with h | h
  · rw [Nat.mod_eq_of_lt (by omega)]
    split <;> omega
  · have hk : i % (k + 1) + 1 = k + 1 := by omega
    rw [hk, Nat.mod_self]
    split <;> omega

theorem firstFrom_cons {k c : Nat} (hc : c ≤ k) (e : Entry) (es : List Entry) :
    firstFrom v k c (e :: es) =
      if c = 0 ∧ e.text = v then some 0
      else (firstFrom v k (if c = 0 then k else c - 1) es).map (· + 1) := by
  rw [firstFrom, List.length_cons, List.range_succ_eq_map, List.find?_cons, List.find?_map]
  have htail : ((fun i => decide (i % (k + 1) = c ∧ (((e :: es)[i]?).any fun e => decide (e.text = v)) = true)) ∘ Nat.succ) =
      fun i => decide (i % (k + 1) = (if c = 0 then k else c - 1) ∧ ((es[i]?).any fun e => decide (e.text = v)) = true) := by
    funext i
    rw [Function.comp_apply, Nat.succ_eq_add_one, List.getElem?_cons_succ]
    exact decide_eq_decide.mpr (and_congr_left' (succ_mod_eq hc))
  rw [htail]
  by_cases hfirst : c = 0 ∧ e.text = v
  · rw [if_pos hfirst]
    simp [hfirst.1, hfirst.2]
  · rw [if_neg hfirst, decide_eq_false]
    · rfl
    · rintro ⟨hzero, hany⟩
      rw [Nat.zero_mod] at hzero
      exact hfirst ⟨hzero.symm, by simpa using hany⟩

theorem findLoop_eq (skip : UInt32) (es : List Entry) (fuel : Nat) (hfuel : es.length < fuel) (skipcnt : UInt32)
    (hle : skipcnt ≤ skip) {vencoding : Nat} {vll : Int} (h : vencoding = 0 ∨ Known v vencoding vll) :
    ziplistFindLoop v skip fuel (entriesBytes es) skipcnt vencoding vll =
      .ok ((firstFrom v skip.toNat skipcnt.toNat es).map fun i => entriesBytes (es.drop i)) := by
  induction es generalizing fuel skipcnt vencoding vll with
  | nil =>
    obtain ⟨fuel, rfl⟩ : ∃ k, fuel = k + 1 := ⟨fuel - 1, by omega⟩
    rw [ziplistFindLoop]
    exact if_pos rfl
  | cons e es ih =>
    obtain ⟨fuel, rfl⟩ : ∃ k, fuel = k + 1 := ⟨fuel - 1, by omega⟩
    obtain ⟨hskip, hfound, hother⟩ := findLoop_entry e (entriesBytes es) skip fuel h
    have hdrop : ∀ r : Option Nat, (r.map (· + 1)).map (fun i => entriesBytes ((e :: es).drop i)) =
        r.map fun i => entriesBytes (es.drop i) := fun r => by
      rw [Option.map_map]
      rfl
    rw [firstFrom_cons (UInt32.le_iff_toNat_le.mp hle), entriesBytes_cons]
    by_cases hzero : skipcnt = 0
    · subst hzero
      by_cases htext : e.text = v
      · rw [hfound htext, if_pos ⟨rfl, htext⟩, ← entriesBytes_cons]
        rfl
      · obtain ⟨vencoding', vll', h', hnext⟩ := hother htext
        rw [hnext, ih fuel (Nat.lt_of_succ_lt_succ hfuel) skip (UInt32.le_refl skip) h', if_neg fun hc => htext hc.2,
          if_pos UInt32.toNat_zero, hdrop]
    · have hne : skipcnt.toNat ≠ 0 := fun heq => hzero (UInt32.toNat_inj.mp heq)
      have hpred : (skipcnt - 1).toNat = skipcnt.toNat - 1 := by
        rw [UInt32.toNat_sub_of_le skipcnt 1 (UInt32.le_iff_toNat_le.mpr (Nat.one_le_iff_ne_zero.mpr hne))]
        rfl
      have hle' : skipcnt - 1 ≤ skip := by
        rw [UInt32.le_iff_toNat_le] at hle ⊢
        omega
      rw [hskip skipcnt hzero, ih fuel (Nat.lt_of_succ_lt_succ hfuel) (skipcnt - 1) hle' h, if_neg fun hc => hne hc.1,
        if_neg hne, hpred, hdrop]

theorem length_le_entriesBytes (es : List Entry) : es.length < (entriesBytes es).length + 1 := by
  induction es with
  | nil => exact Nat.succ_pos _
  | cons e es ih =>
    have hpos : 0 < e.prevlen.length := by
      rw [e.prevlen_size, zipDecodePrevlensize]
      split <;> decide
    rw [entriesBytes_cons, List.length_append, List.length_cons, Entry.bytes, List.length_append, List.length_append]
    omega

/-- The first entry at an index divisible by `skip + 1` with the string as its text is found, and each entry is compared
with the string by its text. -/
theorem found_by_text (es : List Entry) (v : Bytes) (skip : UInt32) :
    ziplistFind (entriesBytes es) v skip = .ok ((firstWithText es v skip).map fun i => entriesBytes (es.drop i)) ∧
      ∀ i e, es[i]? = some e → ziplistCompare (entriesBytes (es.drop i)) v = .ok (decide (e.text = v)) := by
  refine ⟨findLoop_eq skip es _ (length_le_entriesBytes es) 0 (UInt32.le_iff_toNat_le.mpr (Nat.zero_le _)) (.inl rfl), ?_⟩
  intro i e he
  obtain ⟨hi, rfl⟩ := List.getElem?_eq_some_iff.mp he
  rw [List.drop_eq_getElem_cons hi, entriesBytes_cons]
  exact compare_entry es[i] _ v

end

end RedisCluster.Ziplist
