import RedisCluster.Ziplist.Proofs.LayoutProofs

/-!
# Proofs: walking a ziplist

`offsetsFrom` lists where the entries begin. The walks, the indices and the length all follow it.
-/

namespace RedisCluster.Ziplist

open RedisCluster.Lib RedisCluster.Util

def offsetsFrom : Nat → List Entry → List Nat
  | _, [] => []
  | len, e :: es => (10 + len) :: offsetsFrom (len + e.rawlen) es

def offsets (es : List Entry) : List Nat := offsetsFrom 0 es

theorem offsetsFrom_append (len : Nat) (pre post : List Entry) :
    offsetsFrom len (pre ++ post) = offsetsFrom len pre ++ offsetsFrom (len + (entriesBody pre).length) post := by
  induction pre generalizing len with
  | nil => rfl
  | cons e pre ih =>
    rw [List.cons_append, offsetsFrom, offsetsFrom, ih, length_entriesBody_cons, Nat.add_assoc, List.cons_append]

theorem length_offsetsFrom (len : Nat) (es : List Entry) : (offsetsFrom len es).length = es.length := by
  induction es generalizing len with
  | nil => rfl
  | cons e es ih => rw [offsetsFrom, List.length_cons, List.length_cons, ih]

theorem offsets_concat (pre : List Entry) (e : Entry) :
    offsets (pre ++ [e]) = offsets pre ++ [10 + (entriesBody pre).length] := by
  rw [offsets, offsetsFrom_append, Nat.zero_add]
  rfl

theorem offsets_get (pre : List Entry) (e : Entry) (post : List Entry) :
    (offsets (pre ++ e :: post))[pre.length]? = some (10 + (entriesBody pre).length) := by
  rw [offsets, offsetsFrom_append, List.getElem?_append_right (Nat.le_of_eq (length_offsetsFrom 0 pre)),
    length_offsetsFrom, Nat.sub_self, offsetsFrom, Nat.zero_add]
  rfl

section Forward

variable {b t n : Nat}

theorem byteOf_entriesBytes (A : Bytes) (es : List Entry) :
    byteOf (blob b t n (A ++ entriesBytes es)) (10 + A.length) = ZIP_END ↔ es = [] := by
  cases es with
  | nil => exact iff_of_true (byteOf_end A []) rfl
  | cons e es =>
    rw [entriesBytes_cons]
    exact iff_of_false (byteOf_entry A e (entriesBytes es)) (List.cons_ne_nil e es)

theorem next_pointer (A : Bytes) (e : Entry) (es : List Entry) :
    10 + A.length + zipRawEntryLength ((blob b t n (A ++ entriesBytes (e :: es))).drop (10 + A.length)) =
      10 + (A ++ e.bytes).length ∧ A ++ entriesBytes (e :: es) = (A ++ e.bytes) ++ entriesBytes es := by
  rw [drop_at, entriesBytes_cons, rawEntryLength_read, List.length_append, List.append_assoc, Nat.add_assoc]
  exact ⟨rfl, rfl⟩

theorem indexForward_eq (index : Nat) (A : Bytes) (es : List Entry) :
    indexForward (blob b t n (A ++ entriesBytes es)) (10 + A.length) index =
      if index < es.length then (10 + A.length + (entriesBody (es.take index)).length, -1)
      else (10 + A.length + (entriesBody es).length, (index : Int) - es.length) := by
  induction index generalizing A es with
  | zero =>
    rw [indexForward]
    cases es with
    | nil => rw [if_neg (not_not_intro ((byteOf_entriesBytes A []).mpr rfl))]; rfl
    | cons e es =>
      rw [if_pos (mt (byteOf_entriesBytes A (e :: es)).mp (List.cons_ne_nil e es)),
        if_pos (show 0 < (e :: es).length from Nat.succ_pos _)]
      rfl
  | succ index ih =>
    rw [indexForward]
    cases es with
    | nil =>
      rw [if_neg (not_not_intro ((byteOf_entriesBytes A []).mpr rfl)),
        if_neg (show ¬ index + 1 < ([] : List Entry).length from Nat.not_lt_zero _)]
      exact Prod.ext rfl (Int.sub_zero _).symm
    | cons e es =>
      obtain ⟨hp, hbody⟩ := next_pointer (b := b) (t := t) (n := n) A e es
      have hlen : 10 + (A ++ e.bytes).length = 10 + A.length + e.rawlen := (pointer_append A e.bytes).symm
      rw [if_pos (mt (byteOf_entriesBytes A (e :: es)).mp (List.cons_ne_nil e es)), hp, hbody, ih, hlen,
        List.take_succ_cons, length_entriesBody_cons, length_entriesBody_cons, List.length_cons]
      simp only [Nat.add_lt_add_iff_right, Nat.add_assoc, Nat.cast_add, Nat.cast_one, add_sub_add_right_eq_sub]

theorem next_eq (A : Bytes) (e : Entry) (es : List Entry) :
    ziplistNext (blob b t n (A ++ entriesBytes (e :: es))) (10 + A.length) =
      if es = [] then none else some (10 + (A ++ e.bytes).length) := by
  obtain ⟨hp, hbody⟩ := next_pointer (b := b) (t := t) (n := n) A e es
  rw [ziplistNext, if_neg (mt (byteOf_entriesBytes A (e :: es)).mp (List.cons_ne_nil e es))]
  dsimp only
  rw [hp, hbody]
  exact if_congr (byteOf_entriesBytes (A ++ e.bytes) es) rfl rfl

theorem forwardFrom_eq (es : List Entry) (fuel : Nat) (hfuel : es.length < fuel) (A : Bytes) (e : Entry) :
    forwardFrom (blob b t n (A ++ entriesBytes (e :: es))) (fuel + 1) (some (10 + A.length)) =
      offsetsFrom A.length (e :: es) := by
  induction es generalizing fuel A e with
  | nil =>
    rw [forwardFrom, next_eq, if_pos rfl, forwardFrom.eq_def]
    cases fuel <;> rfl
  | cons f es ih =>
    cases fuel with
    | zero => exact absurd hfuel (Nat.not_lt_zero _)
    | succ fuel =>
      obtain ⟨-, hbody⟩ := next_pointer (b := b) (t := t) (n := n) A e (f :: es)
      rw [forwardFrom, next_eq, if_neg (List.cons_ne_nil f es), hbody, ih _ (Nat.lt_of_succ_lt_succ hfuel),
        offsetsFrom, List.length_append]
      rfl

theorem lenLoop_eq (es : List Entry) (fuel : Nat) (hfuel : es.length < fuel) (A : Bytes) (len : Nat) :
    lenLoop (blob b t n (A ++ entriesBytes es)) fuel (10 + A.length) len = .ok (len + es.length) := by
  induction es generalizing fuel A len with
  | nil =>
    cases fuel with
    | zero => exact absurd hfuel (Nat.not_lt_zero _)
    | succ fuel => rw [lenLoop, if_pos ((byteOf_entriesBytes A []).mpr rfl)]; rfl
  | cons e es ih =>
    cases fuel with
    | zero => exact absurd hfuel (Nat.not_lt_zero _)
    | succ fuel =>
      obtain ⟨hp, hbody⟩ := next_pointer (b := b) (t := t) (n := n) A e es
      rw [lenLoop, if_neg (mt (byteOf_entriesBytes A (e :: es)).mp (List.cons_ne_nil e es)), hp, hbody,
        ih _ (Nat.lt_of_succ_lt_succ hfuel), List.length_cons, Nat.add_assoc, Nat.add_comm 1]

theorem get_entry (A : Bytes) (e : Entry) (rest : Bytes) :
    ∃ v, ziplistGet (blob b t n (A ++ (e.bytes ++ rest))) (10 + A.length) = .ok (some v) ∧ spell v = e.text := by
  obtain ⟨-, -, -, hcontent⟩ := entry_read e rest
  have hdrop : (blob b t n (A ++ (e.bytes ++ rest))).drop (10 + A.length + (e.prevlen.length + e.header.length)) =
      e.content ++ rest := by rw [← List.drop_drop, drop_at, hcontent]
  rw [ziplistGet, if_neg (byteOf_entry A e rest), drop_at, zipEntry_read]
  dsimp only
  rw [hdrop]
  cases hstr : zipIsStr (zipEntryEncoding e.header) with
  | true => exact ⟨.inl e.content, by rw [if_pos rfl, List.take_left], by rw [Entry.text, if_pos hstr]; rfl⟩
  | false =>
    obtain ⟨z, -, hload, htext⟩ := int_loaded e rest hstr
    exact ⟨.inr z, by rw [if_neg Bool.false_ne_true, hload], htext.symm⟩

theorem decodeFrom_eq (es : List Entry) (fuel : Nat) (hfuel : es.length < fuel) (A : Bytes) :
    decodeFrom (blob b t n (A ++ entriesBytes es)) fuel (10 + A.length) = .ok (es.map Entry.text) := by
  induction es generalizing fuel A with
  | nil => 
    cases fuel with
    | zero => exact absurd hfuel (Nat.not_lt_zero _)
    | succ fuel =>
      rw [decodeFrom, ziplistGet, if_pos ((byteOf_entriesBytes A []).mpr rfl)]
      rfl
  | cons e es ih =>
    cases fuel with
    | zero => exact absurd hfuel (Nat.not_lt_zero _)
    | succ fuel =>
      obtain ⟨hp, hbody⟩ := next_pointer (b := b) (t := t) (n := n) A e es
      obtain ⟨v, hget, htext⟩ := get_entry (b := b) (t := t) (n := n) A e (entriesBytes es)
      rw [← entriesBytes_cons] at hget
      rw [decodeFrom, hget]
      show (do
        let rest ← decodeFrom _ fuel _
        Except.ok (spell v :: rest)) = _
      rw [hp, hbody, ih _ (Nat.lt_of_succ_lt_succ hfuel), htext]
      rfl

end Forward

section Backward

variable {n : Nat}

theorem byteOf_layout (pre post : List Entry) :
    byteOf (layout n (pre ++ post)) (10 + (entriesBody pre).length) = ZIP_END ↔ post = [] := by
  rw [layout, entriesBytes_append]
  exact byteOf_entriesBytes _ _

theorem endLen_pos (pre : List Entry) : 0 < endLen 0 pre ↔ pre ≠ [] := by
  rcases List.eq_nil_or_concat' pre with rfl | ⟨init, last, rfl⟩
  · exact iff_of_false (Nat.lt_irrefl 0) (not_not_intro rfl)
  · rw [endLen_concat]
    exact iff_of_true last.rawlen_pos (List.append_ne_nil_of_right_ne_nil init (List.cons_ne_nil last []))

theorem indexBack_eq (index : Nat) {pre post : List Entry} {e : Entry} (hchained : Chained 0 (pre ++ e :: post)) :
    indexBack (layout n (pre ++ e :: post)) (10 + (entriesBody pre).length) index =
      if index ≤ pre.length then
        (10 + (entriesBody (pre.take (pre.length - index))).length, if index < pre.length then -1 else 0)
      else (10, (index : Int) - pre.length) := by
  induction index generalizing pre e post with
  | zero =>
    rw [indexBack, prevrawlen_layout hchained, if_pos (Nat.zero_le _), Nat.sub_zero, List.take_length]
    exact Prod.ext rfl (if_congr ((endLen_pos pre).trans List.length_pos_iff.symm) rfl rfl)
  | succ index ih =>
    rw [indexBack, prevrawlen_layout hchained]
    rcases List.eq_nil_or_concat' pre with rfl | ⟨init, last, rfl⟩
    · rw [if_neg (mt (endLen_pos []).mp (not_not_intro rfl)),
        if_neg (show ¬ index + 1 ≤ ([] : List Entry).length from Nat.not_succ_le_zero index)]
      exact Prod.ext rfl (Int.sub_zero _).symm
    · have hsplit : init ++ [last] ++ e :: post = init ++ last :: (e :: post) := List.append_assoc _ _ _
      have hback : 10 + (entriesBody (init ++ [last])).length - last.rawlen = 10 + (entriesBody init).length := by
        rw [entriesBody_append, List.length_append, length_entriesBody_cons]
        show 10 + ((entriesBody init).length + (last.rawlen + 0)) - last.rawlen = _
        omega
      rw [hsplit] at hchained ⊢
      have htake : (init ++ [last]).take (init.length + 1 - (index + 1)) = init.take (init.length - index) := by
        rw [Nat.add_sub_add_right, List.take_append_of_le_length (Nat.sub_le _ _)]
      rw [endLen_concat, if_pos last.rawlen_pos, hback, ih hchained, List.length_append, List.length_singleton, htake]
      simp only [Nat.add_lt_add_iff_right, Nat.add_le_add_iff_right, Nat.cast_add, Nat.cast_one,
        add_sub_add_right_eq_sub]

theorem prev_eq {pre post : List Entry} (hchained : Chained 0 (pre ++ post))
    (hsmall : 10 + (entriesBytes (pre ++ post)).length < 2 ^ 32) :
    ziplistPrev (layout n (pre ++ post)) (10 + (entriesBody pre).length) =
      .ok (if pre = [] then none else some (10 + lastOffset pre)) := by
  cases post with
  | nil =>
    have htail := lastOffset_lt (pre ++ [])
    have hend := (byteOf_layout (n := n) pre []).mpr rfl
    have hoffset : ziplistTailOffset (layout n (pre ++ [])) = 10 + lastOffset (pre ++ []) :=
      tailOffset_blob _ (by omega)
    rw [ziplistPrev, if_pos hend]
    dsimp only
    rw [hoffset, List.append_nil]
    rcases List.eq_nil_or_concat' pre with rfl | ⟨init, last, rfl⟩
    · rfl
    · have hne : byteOf (layout n (init ++ [last])) (10 + lastOffset (init ++ [last])) ≠ ZIP_END := by
        rw [lastOffset_concat]
        exact mt (byteOf_layout init [last]).mp (List.cons_ne_nil last [])
      rw [if_neg hne, if_neg (List.append_ne_nil_of_right_ne_nil init (List.cons_ne_nil last []))]
  | cons e post =>
    have hne := mt (byteOf_layout (n := n) pre (e :: post)).mp (List.cons_ne_nil e post)
    have hback := lastOffset_endLen pre
    rw [ziplistPrev, if_neg hne]
    dsimp only
    rw [prevrawlen_layout hchained]
    rcases List.eq_nil_or_concat' pre with rfl | ⟨init, last, rfl⟩
    · rfl
    · have hpos : 0 < endLen 0 (init ++ [last]) := by
        rw [endLen_concat]
        exact last.rawlen_pos
      have hhead : 10 + (entriesBody (init ++ [last])).length ≠ entryHead := by
        show _ ≠ 10
        omega
      rw [if_neg hhead, if_pos hpos, if_neg (List.append_ne_nil_of_right_ne_nil init (List.cons_ne_nil last [])),
        ← hback, ← Nat.add_assoc, Nat.add_sub_cancel]

theorem backwardFrom_eq (pre post : List Entry) (fuel : Nat) (hfuel : pre.length < fuel)
    (hchained : Chained 0 (pre ++ post)) (hsmall : 10 + (entriesBytes (pre ++ post)).length < 2 ^ 32) :
    backwardFrom (layout n (pre ++ post)) fuel (10 + (entriesBody pre).length) = .ok (offsets pre).reverse := by
  induction pre using List.reverseRecOn generalizing post fuel with
  | nil =>
    cases fuel with
    | zero => exact absurd hfuel (Nat.not_lt_zero _)
    | succ fuel =>
      rw [backwardFrom, prev_eq hchained hsmall, if_pos rfl]
      rfl
  | append_singleton init last ih =>
    cases fuel with
    | zero => exact absurd hfuel (Nat.not_lt_zero _)
    | succ fuel =>
      have hsplit : init ++ [last] ++ post = init ++ last :: post := List.append_assoc _ _ _
      rw [List.length_append] at hfuel
      rw [backwardFrom, prev_eq hchained hsmall,
        if_neg (List.append_ne_nil_of_right_ne_nil init (List.cons_ne_nil last [])), lastOffset_concat,
        offsets_concat, List.reverse_append]
      rw [hsplit] at hchained hsmall ⊢
      show (do
        let rest ← backwardFrom _ fuel _
        Except.ok ((10 + (entriesBody init).length) :: rest)) = _
      rw [ih _ _ (Nat.lt_of_succ_lt_succ hfuel) hchained hsmall]
      rfl

end Backward

section Index

variable {n : Nat}

theorem split_at {es : List Entry} {i : Nat} (hi : i < es.length) :
    es = es.take i ++ es[i] :: es.drop (i + 1) ∧ (es.take i).length = i := by
  refine ⟨?_, List.length_take_of_le (Nat.le_of_lt hi)⟩
  rw [← List.drop_eq_getElem_cons hi, List.take_append_drop]

theorem offsets_getElem (es : List Entry) (i : Nat) :
    (offsets es)[i]? = if i < es.length then some (10 + (entriesBody (es.take i)).length) else none := by
  split
  case isTrue hi =>
    obtain ⟨hsplit, hlen⟩ := split_at hi
    have hget := offsets_get (es.take i) es[i] (es.drop (i + 1))
    rwa [← hsplit, hlen] at hget
  case isFalse hi =>
    exact List.getElem?_eq_none ((Nat.le_of_eq (length_offsetsFrom 0 es)).trans (Nat.le_of_not_lt hi))

theorem index_forward (es : List Entry) (i : Nat) : ziplistIndex (layout n es) (i : Int) = (offsets es)[i]? := by
  have hhead : entryHead = 10 + ([] : Bytes).length := rfl
  have hwalk := indexForward_eq (b := 10 + (entriesBytes es).length) (t := 10 + lastOffset es) (n := n) i [] es
  rw [← hhead] at hwalk
  change indexForward (layout n es) entryHead i = _ at hwalk
  rw [ziplistIndex, if_neg (show ¬ (i : Int) < 0 from Int.not_lt.mpr (Int.natCast_nonneg i)), Int.toNat_natCast,
    hwalk, offsets_getElem]
  split
  case isTrue hi =>
    obtain ⟨hsplit, -⟩ := split_at hi
    have hbyte := byteOf_layout (n := n) (es.take i) (es[i] :: es.drop (i + 1))
    rw [← hsplit] at hbyte
    rw [if_neg]
    · rfl
    · exact not_or.mpr ⟨mt hbyte.mp (List.cons_ne_nil _ _), show ¬ (-1 : Int) > 0 by decide⟩
  case isFalse hi =>
    have hbyte := byteOf_layout (n := n) es []
    rw [List.append_nil] at hbyte
    exact if_pos (Or.inl (hbyte.mpr rfl))

theorem index_back {es : List Entry} (hchained : Chained 0 es) (hsmall : 10 + (entriesBytes es).length < 2 ^ 32)
    (i : Nat) : ziplistIndex (layout n es) (-(i : Int) - 1) = (offsets es).reverse[i]? := by
  have htail := lastOffset_lt es
  have hoffset : ziplistTailOffset (layout n es) = 10 + lastOffset es := tailOffset_blob _ (by omega)
  have hindex : (-(-(i : Int) - 1) - 1).toNat = i := by omega
  rw [ziplistIndex, if_pos (show -(i : Int) - 1 < 0 by omega), hoffset, hindex]
  rcases List.eq_nil_or_concat' es with rfl | ⟨init, last, rfl⟩
  · rfl
  · have hlen : (offsets (init ++ [last])).length = init.length + 1 := by
      rw [offsets, length_offsetsFrom, List.length_append, List.length_singleton]
    have hne := mt (byteOf_layout (n := n) init [last]).mp (List.cons_ne_nil last [])
    rw [lastOffset_concat, if_pos hne, indexBack_eq i hchained]
    by_cases hi : i ≤ init.length
    · have hk : init.length - i < (init ++ [last]).length := by
        rw [List.length_append, List.length_singleton]
        omega
      obtain ⟨hsplit, -⟩ := split_at hk
      have htake : (init ++ [last]).take (init.length - i) = init.take (init.length - i) :=
        List.take_append_of_le_length (Nat.sub_le _ _)
      have hbyte := byteOf_layout (n := n) ((init ++ [last]).take (init.length - i))
        ((init ++ [last])[init.length - i] :: (init ++ [last]).drop (init.length - i + 1))
      rw [← hsplit, htake] at hbyte
      rw [if_pos hi, List.getElem?_reverse (by omega), hlen, show init.length + 1 - 1 - i = init.length - i by omega,
        offsets_getElem, if_pos hk, htake]
      rw [if_neg]
      refine not_or.mpr ⟨mt hbyte.mp (List.cons_ne_nil _ _), ?_⟩
      dsimp only
      split <;> decide
    · have hnone : (offsets (init ++ [last])).reverse[i]? = none := by
        rw [List.getElem?_eq_none_iff, List.length_reverse]
        omega
      rw [if_neg hi, hnone]
      refine if_pos (Or.inr ?_)
      dsimp only
      omega

end Index

end RedisCluster.Ziplist
