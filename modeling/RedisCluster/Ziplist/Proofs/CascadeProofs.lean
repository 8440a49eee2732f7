import RedisCluster.Ziplist.Operations
import RedisCluster.Ziplist.Proofs.MemoryProofs

/-!
# Proofs: the cascade

`cascadeLoop` on the bytes is `fixPrevlens` on the entries.
-/

namespace RedisCluster.Ziplist

open RedisCluster.Lib RedisCluster.Util

theorem entriesBytes_eq (es : List Entry) : entriesBytes es = entriesBody es ++ [255] := rfl

theorem entriesBody_cons (e : Entry) (es : List Entry) : entriesBody (e :: es) = e.bytes ++ entriesBody es :=
  List.flatMap_cons

theorem Entry.bytes_eq (e : Entry) : e.bytes = e.prevlen ++ (e.header ++ e.content) :=
  List.append_assoc _ _ _

theorem Entry.rawlen_eq (e : Entry) : e.rawlen = e.prevlen.length + e.header.length + e.content.length := by
  rw [Entry.rawlen, Entry.bytes, List.length_append, List.length_append]

theorem Entry.prevlen_cases (e : Entry) : e.prevlen.length = 1 ∨ e.prevlen.length = 5 := by
  rw [e.prevlen_size, zipDecodePrevlensize]
  split
  · exact Or.inl rfl
  · exact Or.inr rfl

theorem prevEncode_cases (len : Nat) : (zipPrevEncodeLength len).length = 1 ∧ len < 254 ∨
    (zipPrevEncodeLength len).length = 5 ∧ 254 ≤ len := by
  unfold zipPrevEncodeLength
  split
  · exact Or.inl ⟨rfl, by assumption⟩
  · rename_i hle
    refine Or.inr ⟨by rw [List.length_cons, length_leBytes], ?_⟩
    exact Nat.le_of_not_lt hle

theorem decodePrevlen_append (e : Entry) (rest : Bytes) :
    zipDecodePrevlen (e.bytes ++ rest) = e.prevValue := by
  have hpos : 0 < e.prevlen.length := by
    rcases e.prevlen_cases with h | h <;> omega
  rw [e.bytes_eq, List.append_assoc, Entry.prevValue, zipDecodePrevlen, zipDecodePrevlen,
    prevlensize_append hpos, byteAt_append hpos, ← e.prevlen_size]
  split
  · rfl
  · rename_i hne
    have hfive := e.prevlen_cases.resolve_left hne
    rw [List.drop_append_of_le_length (by omega), List.take_append_of_le_length (by rw [List.length_drop]; omega)]

theorem zipEntry_read (e : Entry) (rest : Bytes) : zipEntry (e.bytes ++ rest) =
    { prevrawlensize := e.prevlen.length, prevrawlen := e.prevValue, lensize := e.header.length
      len := e.content.length, headersize := e.prevlen.length + e.header.length
      encoding := zipEntryEncoding e.header } := by
  obtain ⟨-, hsize, hlength, -⟩ := entry_read e rest
  rw [zipEntry, hsize, hlength, decodePrevlen_append]

theorem rawEntryLength_read (e : Entry) (rest : Bytes) : zipRawEntryLength (e.bytes ++ rest) = e.rawlen := by
  obtain ⟨-, hsize, hlength, -⟩ := entry_read e rest
  rw [zipRawEntryLength, hsize, hlength, e.rawlen_eq]

theorem prevValue_withPrev (e : Entry) {len : Nat} (h : len < 2 ^ 32) : (e.withPrev len).prevValue = len := by
  show zipDecodePrevlen (zipPrevEncodeLength len) = len
  have hbig : ZIP_BIGLEN = 254 := rfl
  rw [zipDecodePrevlen, ← (prevEncode_size len).1]
  rcases prevEncode_cases len with ⟨hone, hlt⟩ | ⟨hfive, hle⟩
  · rw [if_pos hone, zipPrevEncodeLength, hbig, if_pos hlt]
    show (UInt8.ofNat len).toNat = len
    rw [UInt8.toNat_ofNat', Nat.mod_eq_of_lt (by omega)]
  · rw [if_neg (by omega), zipPrevEncodeLength, hbig, if_neg (Nat.not_lt.mpr hle)]
    show leNat ((leBytes 4 (len : Int)).take 4) = len
    rw [List.take_of_length_le (by simp), leNat_leBytes_of_lt (by omega)]

theorem prevValue_withLargePrev (e : Entry) {len : Nat} (h : len < 2 ^ 32) :
    (e.withLargePrev len).prevValue = len := by
  show leNat ((leBytes 4 (len : Int)).take 4) = len
  rw [List.take_of_length_le (by simp), leNat_leBytes_of_lt (by omega)]

theorem Entry.prevlen_five {e : Entry} {len : Nat} (h : (zipPrevEncodeLength len).length < e.prevlen.length) :
    e.prevlen.length = 5 := by
  have hcases := prevEncode_cases len
  rcases e.prevlen_cases with hone | hfive
  · omega
  · exact hfive

@[simp] theorem text_withPrev (e : Entry) (len : Nat) : (e.withPrev len).text = e.text := rfl

theorem withPrev_body (e : Entry) (len : Nat) (es : List Entry) :
    entriesBody (e.withPrev len :: es) =
      zipPrevEncodeLength len ++ (e.header ++ (e.content ++ entriesBody es)) := by
  rw [entriesBody_cons, (e.withPrev len).bytes_eq, List.append_assoc, List.append_assoc]
  rfl

theorem rawlen_withPrev (e : Entry) (len : Nat) :
    (e.withPrev len).rawlen + e.prevlen.length = e.rawlen + (zipPrevEncodeLength len).length := by
  rw [Entry.rawlen_eq, Entry.rawlen_eq]
  show (zipPrevEncodeLength len).length + e.header.length + e.content.length + e.prevlen.length = _
  omega

theorem rawlen_withLargePrev {e : Entry} (h : e.prevlen.length = 5) (len : Nat) :
    (e.withLargePrev len).rawlen = e.rawlen := by
  rw [Entry.rawlen_eq, Entry.rawlen_eq, h]
  rfl

theorem fixPrevlens_texts (prev : Nat) (es : List Entry) :
    (fixPrevlens prev es).map Entry.text = es.map Entry.text := by
  induction es generalizing prev with
  | nil => rfl
  | cons e es ih =>
    rw [fixPrevlens]
    split
    · rfl
    · split
      · rw [List.map_cons, ih]
        rfl
      · split <;> rfl

theorem Chained.tail {prev : Nat} {es : List Entry} (h : Chained prev es) : ChainedTail es := by
  cases es with
  | nil => trivial
  | cons e es => exact h.2

theorem length_entriesBytes_cons (e : Entry) (es : List Entry) :
    (entriesBytes (e :: es)).length = e.rawlen + (entriesBytes es).length := by
  rw [entriesBytes_cons, List.length_append]
  rfl

theorem fixPrevlens_chained {prev : Nat} {es : List Entry} (htail : ChainedTail es) (hprev : prev < 2 ^ 32)
    (hsmall : (entriesBytes (fixPrevlens prev es)).length < 2 ^ 32) : Chained prev (fixPrevlens prev es) := by
  induction es generalizing prev with
  | nil => trivial
  | cons e es ih =>
    rw [fixPrevlens] at hsmall ⊢
    split
    case isTrue heq => exact ⟨heq, htail⟩
    case isFalse hne =>
      rw [if_neg hne] at hsmall
      split
      case isTrue hlt =>
        rw [if_pos hlt, length_entriesBytes_cons] at hsmall
        exact ⟨prevValue_withPrev e hprev, ih (Chained.tail htail) (by omega) (by omega)⟩
      case isFalse hge =>
        split
        case isTrue hgt =>
          have hfive := Entry.prevlen_five hgt
          refine ⟨prevValue_withLargePrev e hprev, ?_⟩
          rw [rawlen_withLargePrev hfive]
          exact htail
        case isFalse hle =>
          refine ⟨prevValue_withPrev e hprev, ?_⟩
          have hraw := rawlen_withPrev e prev
          rw [show (e.withPrev prev).rawlen = e.rawlen by omega]
          exact htail

theorem fixPrevlens_of_chained {prev : Nat} {es : List Entry} (h : Chained prev es) :
    fixPrevlens prev es = es := by
  cases es with
  | nil => rfl
  | cons e es => rw [fixPrevlens, if_pos h.1]

theorem length_fixPrevlens (prev : Nat) (es : List Entry) :
    (entriesBytes es).length ≤ (entriesBytes (fixPrevlens prev es)).length := by
  induction es generalizing prev with
  | nil => exact Nat.le_refl _
  | cons e es ih =>
    have hraw := rawlen_withPrev e prev
    rw [fixPrevlens]
    split
    · exact Nat.le_refl _
    · split
      · have hrest := ih (e.withPrev prev).rawlen
        rw [length_entriesBytes_cons, length_entriesBytes_cons]
        omega
      · split
        · rename_i hgt
          have hfive := Entry.prevlen_five hgt
          rw [length_entriesBytes_cons, length_entriesBytes_cons, rawlen_withLargePrev hfive]
        · rw [length_entriesBytes_cons, length_entriesBytes_cons]
          omega

theorem lastOffset_lt (es : List Entry) : lastOffset es < (entriesBytes es).length := by
  induction es with
  | nil => exact Nat.one_pos
  | cons e es ih =>
    rw [length_entriesBytes_cons]
    cases es with
    | nil => exact Nat.lt_of_lt_of_le Nat.one_pos (Nat.le_add_left _ _)
    | cons f es =>
      rw [lastOffset]
      omega

theorem lastOffset_congr {e e' : Entry} (h : e'.rawlen = e.rawlen) (es : List Entry) :
    lastOffset (e' :: es) = lastOffset (e :: es) := by
  cases es with
  | nil => rfl
  | cons f es => rw [lastOffset, lastOffset, h]

theorem fixPrevlens_same {prev : Nat} {e : Entry} (es : List Entry)
    (hge : ¬ e.prevlen.length < (zipPrevEncodeLength prev).length) :
    ∃ e', fixPrevlens prev (e :: es) = e' :: es ∧ e'.rawlen = e.rawlen := by
  rw [fixPrevlens]
  split
  · exact ⟨e, rfl, rfl⟩
  · split
    · rename_i hgt
      have hfive := Entry.prevlen_five hgt
      exact ⟨_, rfl, rawlen_withLargePrev hfive prev⟩
    · have hraw := rawlen_withPrev e prev
      exact ⟨_, rfl, by omega⟩

section Loop

variable {t n : Nat} {b : Nat}

theorem drop_at (A X : Bytes) : (blob b t n (A ++ X)).drop (10 + A.length) = X := by
  rw [drop_blob, List.drop_left]

theorem pointer_append (A B : Bytes) : 10 + A.length + B.length = 10 + (A ++ B).length := by
  rw [List.length_append, Nat.add_assoc]

theorem byteOf_entry (A : Bytes) (e : Entry) (rest : Bytes) :
    byteOf (blob b t n (A ++ (e.bytes ++ rest))) (10 + A.length) ≠ ZIP_END := by
  rw [byteOf, drop_at]
  exact (entry_read e rest).1

theorem byteOf_end (A rest : Bytes) : byteOf (blob b t n (A ++ 255 :: rest)) (10 + A.length) = ZIP_END := by
  rw [byteOf, drop_at]
  rfl

theorem poke_prevlen (e e' : Entry) (hheader : e'.header = e.header) (hcontent : e'.content = e.content)
    (hsize : e'.prevlen.length = e.prevlen.length) (A rest : Bytes) :
    poke (blob b t n (A ++ (e.bytes ++ rest))) (10 + A.length) e'.prevlen =
      blob b t n (A ++ (e'.bytes ++ rest)) := by
  rw [poke_blob, e.bytes_eq, e'.bytes_eq, hheader, hcontent, List.append_assoc, List.append_assoc,
    List.append_assoc, List.append_assoc, poke_append rfl hsize.symm]

theorem widen_prevlen {M : Bytes} {e : Entry} (es : List Entry) {len : Nat} (hone : e.prevlen.length = 1)
    (hfive : (zipPrevEncodeLength len).length = 5)
    (hsmall : 10 + M.length + (entriesBytes (e :: es)).length + 4 < 2 ^ 32) :
    ∃ body, ziplistResize (blob b t n (M ++ entriesBytes (e :: es)))
        (10 + M.length + (entriesBytes (e :: es)).length + 4) =
          blob (10 + M.length + (entriesBytes (e :: es)).length + 4) t n body ∧
      ∀ b' t', ∃ moved, memmove (blob b' t' n body) (10 + M.length + 5) (10 + M.length + 1)
          ((entriesBytes (e :: es)).length - 1 - 1) = .ok moved ∧
        poke moved (10 + M.length) (zipPrevEncodeLength len) =
          blob b' t' n (M ++ entriesBytes (e.withPrev len :: es)) := by
  have hbody : (entriesBytes (e :: es)).length = (entriesBody (e :: es)).length + 1 := by
    rw [entriesBytes_eq, List.length_append, List.length_singleton]
  obtain ⟨z, hz, -, hresize⟩ := resize_grow (b := b) (t := t) (n := n) (M ++ entriesBody (e :: es)) 4
    (by rw [List.length_append]; omega)
  have hlen : 10 + (M ++ entriesBody (e :: es)).length + 1 + 4 =
      10 + M.length + (entriesBytes (e :: es)).length + 4 := by
    rw [List.length_append, hbody]
    omega
  rw [hlen, List.append_assoc, ← entriesBytes_eq] at hresize
  refine ⟨_, hresize, fun b' t' => ?_⟩
  set Y := e.header ++ (e.content ++ entriesBody es) with hY
  have hsplit : M ++ entriesBody (e :: es) ++ (z ++ [255]) = M ++ (e.prevlen ++ (Y ++ (z ++ [255]))) := by
    simp only [entriesBody_cons, e.bytes_eq, hY, List.append_assoc]
  have hYlen : Y.length = (entriesBytes (e :: es)).length - 1 - 1 := by
    rw [hbody, entriesBody_cons, e.bytes_eq]
    simp only [hY, List.length_append]
    omega
  obtain ⟨moved, hmove, hpoke⟩ := memmove_widen (P := blob b' t' n M) (Q := e.prevlen)
    (N := zipPrevEncodeLength len) (Y := Y) (z := z) (by omega)
  rw [length_blob, hfive, hone, ← blob_append, ← hsplit, hYlen] at hmove
  rw [length_blob, ← blob_append] at hpoke
  refine ⟨moved, hmove, hpoke.trans ?_⟩
  congr 2
  rw [entriesBytes_eq, withPrev_body]
  exact (List.append_assoc _ Y [255]).symm

theorem lastOffset_cons (e : Entry) {es : List Entry} (h : es ≠ []) :
    lastOffset (e :: es) = e.rawlen + lastOffset es := by
  cases es with
  | nil => exact absurd rfl h
  | cons f es => rfl

theorem cascadeLoop_entry (fuel : Nat) (A : Bytes) (cur e : Entry) (es : List Entry) (curlen : Nat) :
    cascadeLoop (fuel + 1) (blob b t n (A ++ (cur.bytes ++ entriesBytes (e :: es)))) curlen (10 + A.length) =
      if e.prevValue = cur.rawlen then .ok (blob b t n (A ++ (cur.bytes ++ entriesBytes (e :: es))))
      else if e.prevlen.length < (zipPrevEncodeLength cur.rawlen).length then do
        let extra := (zipPrevEncodeLength cur.rawlen).length - e.prevlen.length
        let zl := ziplistResize (blob b t n (A ++ (cur.bytes ++ entriesBytes (e :: es)))) (curlen + extra)
        let np := 10 + A.length + cur.rawlen
        let zl := if ziplistTailOffset zl ≠ np then setTailOffset zl (ziplistTailOffset zl + extra) else zl
        let zl ← memmove zl (np + (zipPrevEncodeLength cur.rawlen).length) (np + e.prevlen.length)
          (curlen - np - e.prevlen.length - 1)
        cascadeLoop fuel (poke zl np (zipPrevEncodeLength cur.rawlen)) (curlen + extra) np
      else .ok (blob b t n (A ++ (cur.bytes ++ entriesBytes (fixPrevlens cur.rawlen (e :: es))))) := by
  have hnext : A ++ (cur.bytes ++ entriesBytes (e :: es)) = (A ++ cur.bytes) ++ (e.bytes ++ entriesBytes es) := by
    rw [entriesBytes_cons, List.append_assoc]
  have hp : 10 + A.length + cur.rawlen = 10 + (A ++ cur.bytes).length := pointer_append A cur.bytes
  have hread : (blob b t n (A ++ (cur.bytes ++ entriesBytes (e :: es)))).drop (10 + A.length + cur.rawlen) =
      e.bytes ++ entriesBytes es := by rw [hnext, hp, drop_at]
  have hbyte : byteOf (blob b t n (A ++ (cur.bytes ++ entriesBytes (e :: es)))) (10 + A.length + cur.rawlen) ≠
      ZIP_END := by
    rw [hnext, hp]
    exact byteOf_entry _ e _
  rw [cascadeLoop, if_neg (byteOf_entry A cur _), drop_at, zipEntry_read]
  dsimp only
  rw [← cur.rawlen_eq, if_neg hbyte, hread, zipEntry_read]
  dsimp only
  by_cases heq : e.prevValue = cur.rawlen
  · rw [if_pos heq, if_pos heq]
  rw [if_neg heq, if_neg heq]
  by_cases hlt : e.prevlen.length < (zipPrevEncodeLength cur.rawlen).length
  · rw [if_pos hlt, if_pos hlt]
  rw [if_neg hlt, if_neg hlt, fixPrevlens, if_neg heq, if_neg hlt, hnext, hp]
  split
  · rename_i hgt
    have hfive := Entry.prevlen_five hgt
    have hsize : (e.withLargePrev cur.rawlen).prevlen.length = e.prevlen.length := by
      rw [hfive]
      show (254 :: leBytes 4 (cur.rawlen : Int)).length = 5
      rw [List.length_cons, length_leBytes]
    rw [entriesBytes_cons, ← List.append_assoc A cur.bytes]
    exact congrArg Except.ok
      (poke_prevlen e (e.withLargePrev cur.rawlen) rfl rfl hsize (A ++ cur.bytes) (entriesBytes es))
  · rename_i hle
    have hsize : (e.withPrev cur.rawlen).prevlen.length = e.prevlen.length := by
      show (zipPrevEncodeLength cur.rawlen).length = e.prevlen.length
      omega
    rw [entriesBytes_cons, ← List.append_assoc A cur.bytes]
    exact congrArg Except.ok (poke_prevlen e (e.withPrev cur.rawlen) rfl rfl hsize (A ++ cur.bytes) (entriesBytes es))

theorem cascadeLoop_eq (es : List Entry) {fuel : Nat} (A : Bytes) (cur : Entry) (hfuel : es.length < fuel)
    (hsmall : 10 + A.length + cur.rawlen + (entriesBytes (fixPrevlens cur.rawlen es)).length < 2 ^ 32) :
    cascadeLoop fuel (blob (10 + A.length + cur.rawlen + (entriesBytes es).length)
        (10 + A.length + lastOffset (cur :: es)) n (A ++ (cur.bytes ++ entriesBytes es)))
        (10 + A.length + cur.rawlen + (entriesBytes es).length) (10 + A.length) =
      .ok (blob (10 + A.length + cur.rawlen + (entriesBytes (fixPrevlens cur.rawlen es)).length)
        (10 + A.length + lastOffset (cur :: fixPrevlens cur.rawlen es)) n
        (A ++ (cur.bytes ++ entriesBytes (fixPrevlens cur.rawlen es)))) := by
  induction es generalizing fuel A cur with
  | nil =>
    cases fuel with
    | zero => exact absurd hfuel (Nat.lt_irrefl 0)
    | succ fuel =>
      have hp : 10 + A.length + cur.rawlen = 10 + (A ++ cur.bytes).length := pointer_append A cur.bytes
      have hend : byteOf (blob (10 + A.length + cur.rawlen + (entriesBytes []).length)
          (10 + A.length + lastOffset [cur]) n (A ++ (cur.bytes ++ entriesBytes [])))
          (10 + A.length + cur.rawlen) = ZIP_END := by
        rw [← List.append_assoc, hp]
        exact byteOf_end _ []
      rw [cascadeLoop, if_neg (byteOf_entry A cur _), drop_at, zipEntry_read]
      dsimp only
      rw [← cur.rawlen_eq, if_pos hend]
      rfl
  | cons e es ih =>
    cases fuel with
    | zero => exact absurd hfuel (Nat.not_lt_zero _)
    | succ fuel => 
      rw [cascadeLoop_entry]
      by_cases heq : e.prevValue = cur.rawlen
      · rw [if_pos heq, fixPrevlens, if_pos heq]
      have hraw := rawlen_withPrev e cur.rawlen
      by_cases hlt : e.prevlen.length < (zipPrevEncodeLength cur.rawlen).length
      case neg =>
        obtain ⟨e', hfix, hsame⟩ := fixPrevlens_same es hlt
        rw [if_neg heq, if_neg hlt, hfix, length_entriesBytes_cons, length_entriesBytes_cons, hsame, lastOffset,
          lastOffset, lastOffset_congr hsame]
      case pos =>
        have hone : e.prevlen.length = 1 := by
          rcases e.prevlen_cases with h | h
          · exact h
          · rcases prevEncode_cases cur.rawlen with h' | h' <;> omega
        have hfive : (zipPrevEncodeLength cur.rawlen).length = 5 := by
          rcases prevEncode_cases cur.rawlen with h' | h' <;> omega
        have hfix : fixPrevlens cur.rawlen (e :: es) =
            e.withPrev cur.rawlen :: fixPrevlens (e.withPrev cur.rawlen).rawlen es := by
          rw [fixPrevlens, if_neg heq, if_pos hlt]
        have hp : 10 + A.length + cur.rawlen = 10 + (A ++ cur.bytes).length := pointer_append A cur.bytes
        have hgrows := length_fixPrevlens (e.withPrev cur.rawlen).rawlen es
        have htail := lastOffset_lt (e :: es)
        rw [hfix, length_entriesBytes_cons] at hsmall
        have hcons := length_entriesBytes_cons e es
        obtain ⟨body, hresize, hmove⟩ := widen_prevlen
          (b := 10 + A.length + cur.rawlen + (entriesBytes (e :: es)).length)
          (t := 10 + A.length + lastOffset (cur :: e :: es)) (n := n) (M := A ++ cur.bytes) es hone hfive (by omega)
        have htail' : ∀ m ms, 10 + A.length + lastOffset (cur :: m :: ms) =
            10 + (A ++ cur.bytes).length + lastOffset (m :: ms) := by
          intro m ms
          rw [lastOffset, ← hp, Nat.add_assoc _ cur.rawlen]
        have ht : (if 10 + (A ++ cur.bytes).length + lastOffset (e :: es) ≠ 10 + (A ++ cur.bytes).length then
              setTailOffset (blob (10 + (A ++ cur.bytes).length + (entriesBytes (e :: es)).length + 4)
                (10 + (A ++ cur.bytes).length + lastOffset (e :: es)) n body)
                ((10 + (A ++ cur.bytes).length + lastOffset (e :: es) : Nat) + (4 : Nat))
            else blob (10 + (A ++ cur.bytes).length + (entriesBytes (e :: es)).length + 4)
                (10 + (A ++ cur.bytes).length + lastOffset (e :: es)) n body) =
            blob (10 + (A ++ cur.bytes).length + (entriesBytes (e :: es)).length + 4)
              (10 + (A ++ cur.bytes).length + lastOffset (e.withPrev cur.rawlen :: es)) n body := by
          cases es with
          | nil => exact if_neg (not_not_intro rfl)
          | cons f es =>
            have hpos : 0 < e.rawlen := by
              rw [e.rawlen_eq]
              omega
            rw [lastOffset, lastOffset, if_pos (by omega), setTailOffset_blob _ (by omega)]
            congr 1
            omega
        have hfour : 5 - 1 = 4 := rfl
        rw [if_neg heq, if_pos hlt, hfix]
        dsimp only
        rw [hfive, hone, hfour, ← List.append_assoc A cur.bytes (entriesBytes (e :: es)), htail', htail', hp]
        rw [htail', hp] at hresize
        rw [hresize, tailOffset_blob _ (by omega), ht, Nat.add_sub_cancel_left]
        obtain ⟨moved, hmoved, hpoke⟩ := hmove (10 + (A ++ cur.bytes).length + (entriesBytes (e :: es)).length + 4)
          (10 + (A ++ cur.bytes).length + lastOffset (e.withPrev cur.rawlen :: es))
        rw [hmoved]
        show cascadeLoop fuel _ _ _ = _
        have hlen : 10 + (A ++ cur.bytes).length + (entriesBytes (e :: es)).length + 4 =
            10 + (A ++ cur.bytes).length + (e.withPrev cur.rawlen).rawlen + (entriesBytes es).length := by omega
        rw [hpoke, hlen, entriesBytes_cons, ih _ _ (Nat.lt_of_succ_lt_succ hfuel) (by omega),
          length_entriesBytes_cons, entriesBytes_cons, ← Nat.add_assoc, List.append_assoc A]

end Loop

end RedisCluster.Ziplist
