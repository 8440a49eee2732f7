import RedisCluster.Ziplist.Proofs.LayoutProofs

/-!
# Proofs: `__ziplistDelete`

The entries behind the deleted ones move down to the pointer, and settle.
-/

namespace RedisCluster.Ziplist

open RedisCluster.Lib RedisCluster.Util

def deleteBetween (pre mid post : List Entry) : List Entry :=
  if mid = [] then pre ++ post else pre ++ settle (endLen 0 pre) post

theorem delete_steps {zl moved cut settled : Bytes} {p num last deleted totlen prevrawlen : Nat} {nextdiff : Int}
    (hscan : deleteScan zl num p 0 = (last, deleted)) (htotlen : last - p = totlen) (hpos : 0 < totlen)
    (hprev : (zipEntry (zl.drop p)).prevrawlen = prevrawlen)
    (hdiff : (if byteOf zl last ≠ ZIP_END then zipPrevLenByteDiff (zl.drop last) prevrawlen else 0) = nextdiff)
    (hshift : deleteShift zl p last totlen prevrawlen nextdiff = .ok moved)
    (hcut : incrLength (ziplistResize moved ((ziplistBytes moved : Int) - totlen + nextdiff).toNat)
      (-(deleted : Int)) = cut)
    (hcascade : (if nextdiff ≠ 0 then ziplistCascadeUpdate cut p else .ok cut) = .ok settled) :
    ziplistDeleteAt zl p num = .ok settled := by
  rw [ziplistDeleteAt, hscan]
  dsimp only
  rw [htotlen, if_pos hpos, hprev, hdiff, hshift, ← hcascade, ← hcut]
  rfl

section Delete

variable {b t n : Nat}

theorem deleteScan_eq (num : Nat) (A : Bytes) (es : List Entry) (deleted : Nat) :
    deleteScan (blob b t n (A ++ entriesBytes es)) num (10 + A.length) deleted =
      (10 + A.length + (entriesBody (es.take num)).length, deleted + (es.take num).length) := by
  induction num generalizing A es deleted with
  | zero => rfl
  | succ num ih =>
    cases es with
    | nil =>
      have hend : byteOf (blob b t n (A ++ entriesBytes [])) (10 + A.length) = ZIP_END := byteOf_end A []
      rw [deleteScan, if_pos hend]
      rfl
    | cons e es =>
      have hnext : 10 + A.length + e.rawlen = 10 + (A ++ e.bytes).length := pointer_append A e.bytes
      rw [deleteScan, entriesBytes_cons, if_neg (byteOf_entry A e _), drop_at, rawEntryLength_read, hnext,
        ← List.append_assoc, ih, ← hnext, List.take_succ_cons, length_entriesBody_cons, List.length_cons]
      refine Prod.ext ?_ ?_
      · exact Nat.add_assoc _ _ _
      · exact Nat.add_right_comm deleted 1 _

theorem deleteShift_entry {A D : Bytes} {e : Entry} (es : List Entry) {len : Nat}
    (hfits : (zipPrevEncodeLength len).length ≤ D.length + e.prevlen.length)
    (hsmall : 10 + A.length + D.length + (entriesBytes (e :: es)).length < 2 ^ 32)
    (hroom : 10 + A.length + (entriesBytes (e.withPrev len :: es)).length < 2 ^ 32) :
    ∃ R, R ≠ [] ∧
      deleteShift (blob (10 + A.length + D.length + (entriesBytes (e :: es)).length)
          (10 + A.length + D.length + lastOffset (e :: es)) n (A ++ (D ++ entriesBytes (e :: es))))
          (10 + A.length) (10 + A.length + D.length) D.length len
          (((zipPrevEncodeLength len).length : Int) - (e.prevlen.length : Int)) =
        .ok (blob (10 + A.length + D.length + (entriesBytes (e :: es)).length)
          (10 + A.length + lastOffset (e.withPrev len :: es)) n
          (A ++ entriesBody (e.withPrev len :: es) ++ R)) := by
  set N := zipPrevEncodeLength len with hN
  set Y := e.header ++ (e.content ++ entriesBody es) with hY
  set T := (D ++ e.prevlen).take (D.length + e.prevlen.length - N.length) with hT
  set old := (D ++ e.prevlen).drop (D.length + e.prevlen.length - N.length) with hold
  have hTlen : T.length = D.length + e.prevlen.length - N.length := by
    rw [hT, List.length_take, List.length_append]
    omega
  have holdlen : old.length = N.length := by
    rw [hold, List.length_drop, List.length_append]
    omega
  have hbody : A ++ (D ++ entriesBytes (e :: es)) = (A ++ T) ++ (old ++ (Y ++ [255])) := by
    have hsplit : T ++ old = D ++ e.prevlen := List.take_append_drop _ _
    rw [List.append_assoc A T, ← List.append_assoc T old, hsplit, entriesBytes_eq, entriesBody_cons, e.bytes_eq, hY]
    simp only [List.append_assoc]
  have hbody' : entriesBody (e.withPrev len :: es) = N ++ Y := withPrev_body e len es
  have hpoked : entriesBytes (e.withPrev len :: es) = N ++ (Y ++ [255]) := by
    rw [entriesBytes_eq, hbody', List.append_assoc]
  have hbyte : byteOf (blob (10 + A.length + D.length + (entriesBytes (e :: es)).length)
      (10 + A.length + D.length + lastOffset (e :: es)) n (A ++ (D ++ entriesBytes (e :: es))))
      (10 + A.length + D.length) ≠ ZIP_END := by
    rw [← List.append_assoc, pointer_append, entriesBytes_cons]
    exact byteOf_entry (A ++ D) e _
  have hp : (((10 + A.length + D.length : Nat) : Int) - ((N.length : Int) - (e.prevlen.length : Int))).toNat =
      10 + (A ++ T).length := by
    rw [List.length_append, hTlen]
    omega
  have hraw := rawlen_withPrev e len
  rw [← hN] at hraw
  have hlast := lastOffset_lt (e.withPrev len :: es)
  have htail := lastOffset_lt (e :: es)
  have hcons := length_entriesBytes_cons e es
  have hcons' := length_entriesBytes_cons (e.withPrev len) es
  have hpoke : poke (blob (10 + A.length + D.length + (entriesBytes (e :: es)).length)
      (10 + A.length + D.length + lastOffset (e :: es)) n (A ++ (D ++ entriesBytes (e :: es))))
      (10 + (A ++ T).length) N =
      blob (10 + A.length + D.length + (entriesBytes (e :: es)).length)
        (10 + A.length + D.length + lastOffset (e :: es)) n (A ++ T ++ entriesBytes (e.withPrev len :: es)) := by
    rw [hbody, poke_blob, poke_append rfl holdlen, hpoked]
  have hsettle := tail_settles (b := 10 + A.length + D.length + (entriesBytes (e :: es)).length) (n := n)
    (T := 10 + A.length + D.length) (U := 10 + A.length) (M := A ++ T) e es len
    (x := -(D.length : Int)) (by omega) (by omega)
    (setTailOffset (blob (10 + A.length + D.length + (entriesBytes (e :: es)).length)
      (10 + A.length + D.length + lastOffset (e :: es)) n (A ++ T ++ entriesBytes (e.withPrev len :: es)))
        (((10 + A.length + D.length + lastOffset (e :: es) : Nat) : Int) - (D.length : Int)))
    (by rw [Int.sub_eq_add_neg])
  obtain ⟨R, hR, hmove⟩ := memmove_down (blob (10 + A.length + D.length + (entriesBytes (e :: es)).length)
    (10 + A.length + lastOffset (e.withPrev len :: es)) n A) T N Y
  refine ⟨R, hR, ?_⟩
  rw [deleteShift, if_pos hbyte]
  dsimp only
  rw [hp, hpoke, tailOffset_blob _ (by omega), hsettle, bytes_blob _ (by omega)]
  have hcount : 10 + A.length + D.length + (entriesBytes (e :: es)).length - (10 + (A ++ T).length) - 1 =
      N.length + Y.length := by
    have hbodylen := congrArg List.length hbody
    simp only [List.length_append, List.length_singleton] at hbodylen ⊢
    omega
  rw [length_blob] at hmove
  rw [hcount, hpoked, ← pointer_append, List.append_assoc A T, blob_append, hmove, List.append_assoc A, hbody',
    List.append_assoc N, blob_append]

theorem deleteScan_layout (num : Nat) (pre rest : List Entry) :
    deleteScan (layout n (pre ++ rest)) num (10 + (entriesBody pre).length) 0 =
      (10 + (entriesBody pre).length + (entriesBody (rest.take num)).length, (rest.take num).length) := by
  rw [layout, entriesBytes_append, deleteScan_eq, Nat.zero_add]

theorem delete_last {pre rest : List Entry} {f : Entry} {num : Nat} (hchained : Chained 0 (pre ++ f :: rest))
    (hsmall : 10 + (entriesBytes (pre ++ f :: rest)).length < 2 ^ 32) (hn : n < 2 ^ 16)
    (hcount : n < 65535 → n = (pre ++ f :: rest).length) (hall : (f :: rest).take num = f :: rest) :
    ziplistDeleteAt (layout n (pre ++ f :: rest)) (10 + (entriesBody pre).length) num =
      .ok (layout (counter n (-((f :: rest).length : Int))) pre) := by
  have hscan := deleteScan_layout (n := n) num pre (f :: rest)
  rw [hall] at hscan
  set A := entriesBody pre with hA
  set D := entriesBody (f :: rest) with hD
  have hbytes : entriesBytes (pre ++ f :: rest) = A ++ (D ++ [255]) := entriesBytes_append pre (f :: rest)
  have hD1 : 0 < D.length := by
    rw [hD, length_entriesBody_cons]
    exact Nat.add_pos_left f.rawlen_pos _
  have hlen : 10 + (entriesBytes (pre ++ f :: rest)).length = 10 + A.length + D.length + 1 := by
    rw [hbytes, List.length_append, List.length_append, List.length_singleton]
    omega
  rw [hlen] at hsmall
  have hend : byteOf (layout n (pre ++ f :: rest)) (10 + A.length + D.length) = ZIP_END := by
    rw [layout, hbytes, ← List.append_assoc, pointer_append]
    exact byteOf_end (A ++ D) []
  have hback := lastOffset_endLen pre
  rw [← hA] at hback
  have hshift : deleteShift (layout n (pre ++ f :: rest)) (10 + A.length) (10 + A.length + D.length) D.length
      (endLen 0 pre) 0 = .ok (blob (10 + A.length + D.length + 1) (10 + lastOffset pre) n (A ++ (D ++ [255]))) := by
    have htail : (((10 + A.length : Nat) : Int) - (endLen 0 pre : Int)).toNat = 10 + lastOffset pre := by omega
    rw [deleteShift, if_neg (not_not_intro hend), layout, setTailOffset_blob _ (by omega), htail, hlen, hbytes]
  have hresize := resize_cut (b := 10 + A.length + D.length + 1) (t := 10 + lastOffset pre) (n := n) A
    (R := D ++ [255]) (List.append_ne_nil_of_right_ne_nil D (List.cons_ne_nil 255 [])) (by omega)
  have hsize : (((10 + A.length + D.length + 1 : Nat) : Int) - (D.length : Int) + 0).toNat = 10 + A.length + 1 := by
    omega
  have hnonneg : n < 65535 → 0 ≤ (n : Int) + -((f :: rest).length : Int) := by
    intro hlt
    have hn' := hcount hlt
    rw [List.length_append] at hn'
    omega
  refine delete_steps hscan (Nat.add_sub_cancel_left _ _) hD1 (prevrawlen_layout hchained)
    (if_neg (not_not_intro hend)) hshift rfl ?_
  rw [if_neg (not_not_intro rfl), bytes_blob _ (by omega), hsize, hresize, incrLength_blob _ hn hnonneg, layout,
    length_entriesBytes, entriesBytes_eq, ← hA, Nat.add_assoc]

theorem delete_entry {pre mid post : List Entry} {f e : Entry} {num : Nat}
    (hchained : Chained 0 (pre ++ f :: (mid ++ e :: post)))
    (hsmall : 10 + (entriesBytes (pre ++ f :: (mid ++ e :: post))).length < 2 ^ 32) (hn : n < 2 ^ 16)
    (hcount : n < 65535 → n = (pre ++ f :: (mid ++ e :: post)).length)
    (hsome : (f :: (mid ++ e :: post)).take num = f :: mid)
    (hroom : 10 + (entriesBytes (pre ++ settle (endLen 0 pre) (e :: post))).length < 2 ^ 32) :
    ziplistDeleteAt (layout n (pre ++ f :: (mid ++ e :: post))) (10 + (entriesBody pre).length) num =
      .ok (layout (counter n (-((f :: mid).length : Int))) (pre ++ settle (endLen 0 pre) (e :: post))) := by
  have hscan := deleteScan_layout (n := n) num pre (f :: (mid ++ e :: post))
  rw [hsome] at hscan
  have hfirst := (chained_append.mp hchained).2
  have htail : Chained e.rawlen post := (chained_append.mp (show Chained f.rawlen (mid ++ e :: post) from hfirst.2)).2.2
  have hprev := prevrawlen_layout (n := n) hchained
  set A := entriesBody pre with hA
  set D := entriesBody (f :: mid) with hD
  set len := endLen 0 pre with hlen
  set N := zipPrevEncodeLength len with hN
  have hbytes : entriesBytes (pre ++ f :: (mid ++ e :: post)) = A ++ (D ++ entriesBytes (e :: post)) := by
    rw [entriesBytes_append, ← List.cons_append, entriesBytes_append]
  have hDlen : D.length = f.rawlen + (entriesBody mid).length := length_entriesBody_cons f mid
  have hzl : layout n (pre ++ f :: (mid ++ e :: post)) =
      blob (10 + A.length + D.length + (entriesBytes (e :: post)).length)
        (10 + A.length + D.length + lastOffset (e :: post)) n (A ++ (D ++ entriesBytes (e :: post))) := by
    have hoffset : lastOffset (f :: (mid ++ e :: post)) = D.length + lastOffset (e :: post) :=
      lastOffset_append (f :: mid) (List.cons_ne_nil e post)
    rw [layout, hbytes, lastOffset_append pre (List.cons_ne_nil _ _), hoffset, List.length_append,
      List.length_append]
    simp only [Nat.add_assoc]
    rfl
  rw [hbytes, List.length_append, List.length_append] at hsmall
  rw [entriesBytes_append, List.length_append, ← hA] at hroom
  -- the field of the first deleted entry is large when the new one is
  have hfits : N.length ≤ D.length + e.prevlen.length := by
    have hraw := f.rawlen_eq
    rcases prevEncode_cases len with ⟨hone, -⟩ | ⟨hfive, hle⟩
    · have hpos := f.rawlen_pos
      rw [hN, hone]
      omega
    · rcases f.prevlen_cases with h | h
      · have hlt := Entry.prevValue_lt h
        have hvalue : f.prevValue = len := hfirst.1
        omega
      · rw [hN, hfive]
        omega
  have hraw := rawlen_withPrev e len
  rw [← hN] at hraw
  have hcons := length_entriesBytes_cons e post
  have hcons' := length_entriesBytes_cons (e.withPrev len) post
  have hgrows := length_fixPrevlens (e.withPrev len).rawlen post
  have hsettle := length_entriesBytes_cons (e.withPrev len) (fixPrevlens (e.withPrev len).rawlen post)
  rw [← settle] at hsettle
  obtain ⟨R, hR, hshift⟩ := deleteShift_entry (n := n) (A := A) (D := D) (e := e) post hfits
    (by omega) (by omega)
  have hbody := length_entriesBytes (e.withPrev len :: post)
  have hbase : 10 + (A ++ entriesBody (e.withPrev len :: post)).length + 1 =
      10 + A.length + (entriesBytes (e.withPrev len :: post)).length := by
    rw [List.length_append]
    omega
  have hresize := resize_cut (b := 10 + A.length + D.length + (entriesBytes (e :: post)).length)
    (t := 10 + A.length + lastOffset (e.withPrev len :: post)) (n := n)
    (A ++ entriesBody (e.withPrev len :: post)) hR (by omega)
  rw [hbase, List.append_assoc A _ [255], ← entriesBytes_eq] at hresize
  have hsize : (((10 + A.length + D.length + (entriesBytes (e :: post)).length : Nat) : Int) - (D.length : Int) +
      ((N.length : Int) - (e.prevlen.length : Int))).toNat =
      10 + A.length + (entriesBytes (e.withPrev len :: post)).length := by omega
  have hnonneg : n < 65535 → 0 ≤ (n : Int) + -((f :: mid).length : Int) := by
    intro hlt
    have hn' := hcount hlt
    rw [← List.cons_append, List.length_append, List.length_append] at hn'
    omega
  have hcascade := cascade_settle (A := A) (counter n (-((f :: mid).length : Int))) len htail
    (by omega)
  have hdiff : (if byteOf (layout n (pre ++ f :: (mid ++ e :: post))) (10 + A.length + D.length) ≠ ZIP_END then
      zipPrevLenByteDiff ((layout n (pre ++ f :: (mid ++ e :: post))).drop (10 + A.length + D.length)) len else 0) =
      (N.length : Int) - (e.prevlen.length : Int) := by
    have hp := pointer_append A D
    rw [hzl, ← List.append_assoc, hp, entriesBytes_cons, if_pos (byteOf_entry (A ++ D) e _), drop_at,
      prevLenByteDiff_read]
  refine (delete_steps hscan (Nat.add_sub_cancel_left _ _) (by have := f.rawlen_pos; omega) hprev hdiff
    (by rw [hzl]; exact hshift) ?_ hcascade).trans ?_
  · rw [bytes_blob _ (by omega), hsize, hresize, incrLength_blob _ hn hnonneg]
  · rw [layout, entriesBytes_append, lastOffset_append pre (show settle len (e :: post) ≠ [] from List.cons_ne_nil _ _),
      ← hA, List.length_append]
    simp only [Nat.add_assoc]

theorem delete_layout {pre rest : List Entry} {num : Nat} (hchained : Chained 0 (pre ++ rest))
    (hsmall : 10 + (entriesBytes (pre ++ rest)).length < 2 ^ 32) (hn : n < 2 ^ 16)
    (hcount : n < 65535 → n = (pre ++ rest).length)
    (hroom : 10 + (entriesBytes (deleteBetween pre (rest.take num) (rest.drop num))).length < 2 ^ 32) :
    ziplistDeleteAt (layout n (pre ++ rest)) (10 + (entriesBody pre).length) num =
      .ok (layout (counter n (-((rest.take num).length : Int)))
        (deleteBetween pre (rest.take num) (rest.drop num))) := by
  have hsplit := List.take_append_drop num rest
  cases hmid : rest.take num with
  | nil =>
    have hscan := deleteScan_layout (n := n) num pre rest
    rw [hmid] at hscan hsplit
    have hsame : counter n (-(([] : List Entry).length : Int)) = n := counter_zero n
    rw [ziplistDeleteAt, hscan, deleteBetween, if_pos rfl, hsame, ← List.nil_append (rest.drop num), hsplit]
    dsimp only
    exact if_neg (by rw [show (entriesBody []).length = 0 from rfl]; omega)
  | cons f mid =>
    rw [hmid] at hsplit hroom
    rw [deleteBetween, if_neg (List.cons_ne_nil f mid)] at hroom ⊢
    cases hpost : rest.drop num with
    | nil =>
      rw [hpost, List.append_nil] at hsplit
      subst hsplit
      rw [settle, List.append_nil]
      exact delete_last hchained hsmall hn hcount hmid
    | cons e post =>
      rw [hpost] at hsplit hroom
      subst hsplit
      exact delete_entry hchained hsmall hn hcount hmid hroom

end Delete

end RedisCluster.Ziplist

/-!
## Proofs: `__ziplistInsert`

The new entry stands between the entries before and behind the pointer, and those behind it settle.
-/

namespace RedisCluster.Ziplist

open RedisCluster.Lib RedisCluster.Util

def insertBetween (pre post : List Entry) (s : Text) : List Entry :=
  pre ++ newEntry (endLen 0 pre) s :: settle (newEntry (endLen 0 pre) s).rawlen post

def CutsOff (reqlen : Nat) : List Entry → Prop
  | [] => False
  | e :: _ => e.prevlen.length = 5 ∧ reqlen < 4

theorem insert_steps (entry : Bytes) {zl moved settled s : Bytes} {p curlen : Nat} {nextdiff : Int}
    (hcurlen : ziplistBytes zl = curlen) (hentry : insertEntry (insertPrevlen zl p) s = entry)
    (hdiff : (if byteOf zl p ≠ ZIP_END then zipPrevLenByteDiff (zl.drop p) entry.length else 0) = nextdiff)
    (hshift : insertShift (ziplistResize zl ((curlen : Int) + entry.length + nextdiff).toNat) p curlen entry.length
      nextdiff = .ok moved)
    (hcascade : (if nextdiff ≠ 0 then ziplistCascadeUpdate moved (p + entry.length) else .ok moved) = .ok settled) :
    ziplistInsert zl p s = .ok (incrLength (poke settled p entry) 1) := by
  rw [ziplistInsert, hcurlen, hentry]
  dsimp only
  rw [hdiff, hshift]
  show (if nextdiff ≠ 0 then _ else _) = _
  split at hcascade
  case isTrue hne =>
    rw [if_pos hne, hcascade]
    rfl
  case isFalse heq =>
    rw [if_neg heq, hcascade]
    rfl

section Insert

variable {b n : Nat} {pre post : List Entry}

theorem pointer_at (b t : Nat) (rest : Bytes) :
    (blob b t n (entriesBody pre ++ rest)).drop (10 + (entriesBody pre).length) = rest :=
  drop_at _ _

theorem insertPrevlen_eq (n : Nat) {pre post : List Entry} (hchained : Chained 0 (pre ++ post))
    (hsmall : 10 + (entriesBytes (pre ++ post)).length < 2 ^ 32) :
    insertPrevlen (layout n (pre ++ post)) (10 + (entriesBody pre).length) = endLen 0 pre := by
  cases post with
  | cons e post =>
    rw [layout, entriesBytes_append, entriesBytes_cons, insertPrevlen, if_pos (byteOf_entry _ e _), pointer_at,
      decodePrevlen_append]
    exact (chained_append.mp hchained).2.1
  | nil =>
    have htail := lastOffset_lt (pre ++ [])
    have hend : byteOf (layout n (pre ++ [])) (10 + (entriesBody pre).length) = ZIP_END := by
      rw [layout, entriesBytes_append]
      exact byteOf_end _ []
    have hoffset : ziplistTailOffset (layout n (pre ++ [])) = 10 + lastOffset (pre ++ []) :=
      tailOffset_blob _ (by omega)
    rw [insertPrevlen, if_neg (not_not_intro hend), hoffset]
    rcases List.eq_nil_or_concat' pre with rfl | ⟨init, last, rfl⟩
    · exact if_neg (not_not_intro hend)
    · have hlast := lastOffset_concat init last
      have hbytes : entriesBytes (init ++ [last] ++ []) = entriesBody init ++ (last.bytes ++ [255]) := by
        rw [List.append_nil, entriesBytes_append, entriesBytes_cons]
        rfl
      have hraw := lastOffset_endLen (init ++ [last])
      rw [layout, List.append_nil, hlast, ← List.append_nil (init ++ [last]), hbytes, if_pos (byteOf_entry _ last _),
        drop_at, rawEntryLength_read]
      rw [hlast, entriesBody_append, List.length_append, length_entriesBody_cons] at hraw
      rw [List.append_nil]
      exact (Nat.add_left_cancel hraw).symm

theorem insertShift_entry {A z : Bytes} {e : Entry} (es : List Entry) (reqlen : Nat)
    (hz : z.length + e.prevlen.length = reqlen + (zipPrevEncodeLength reqlen).length)
    (hroom : 10 + A.length + reqlen + (entriesBytes (e.withPrev reqlen :: es)).length < 2 ^ 32) :
    ∃ G, G.length = reqlen ∧
      insertShift (blob b (10 + A.length + lastOffset (e :: es)) n (A ++ (entriesBody (e :: es) ++ (z ++ [255]))))
          (10 + A.length) (10 + A.length + (entriesBytes (e :: es)).length) reqlen
          (((zipPrevEncodeLength reqlen).length : Int) - (e.prevlen.length : Int)) =
        .ok (blob b (10 + (A ++ G).length + lastOffset (e.withPrev reqlen :: es)) n
          (A ++ G ++ entriesBytes (e.withPrev reqlen :: es))) := by
  set N := zipPrevEncodeLength reqlen with hN
  set Y := e.header ++ (e.content ++ entriesBody es) with hY
  have hbody : entriesBody (e :: es) = e.prevlen ++ Y := by
    rw [entriesBody_cons, e.bytes_eq, hY, List.append_assoc, List.append_assoc]
  have hYlen : (entriesBytes (e :: es)).length = e.prevlen.length + Y.length + 1 := by
    rw [length_entriesBytes, hbody, List.length_append]
  have hmoved : entriesBytes (e.withPrev reqlen :: es) = N ++ (Y ++ [255]) := by
    rw [entriesBytes_eq, withPrev_body, List.append_assoc]
  have hbyte : byteOf (blob b (10 + A.length + lastOffset (e :: es)) n
      (A ++ (entriesBody (e :: es) ++ (z ++ [255])))) (10 + A.length) ≠ ZIP_END := by
    rw [entriesBody_cons, List.append_assoc]
    exact byteOf_entry A e _
  have hshape : blob b (10 + A.length + lastOffset (e :: es)) n (A ++ (entriesBody (e :: es) ++ (z ++ [255]))) =
      blob b (10 + A.length + lastOffset (e :: es)) n A ++ (e.prevlen ++ (Y ++ (z ++ [255]))) := by
    rw [hbody, blob_append, List.append_assoc]
  have hsizes : (e.prevlen.length = 1 ∨ e.prevlen.length = 5) ∧ (N.length = 1 ∨ N.length = 5) := by
    refine ⟨e.prevlen_cases, ?_⟩
    rcases prevEncode_cases reqlen with h | h
    · exact Or.inl h.1
    · exact Or.inr h.1
  obtain ⟨G, moved, hG, hmove, hpoke⟩ := memmove_up (P := blob b (10 + A.length + lastOffset (e :: es)) n A)
    (Q := e.prevlen) (N := N) (Y := Y) (z := z) reqlen
    (((10 + A.length : Nat) : Int) - ((N.length : Int) - (e.prevlen.length : Int))).toNat hz
    (by rw [length_blob]; omega)
  have hcount : (((10 + A.length + (entriesBytes (e :: es)).length : Nat) : Int) - ((10 + A.length : Nat) : Int) - 1 +
      ((N.length : Int) - (e.prevlen.length : Int))).toNat = N.length + Y.length := by omega
  have hAG : 10 + A.length + reqlen = 10 + (A ++ G).length := by
    rw [← pointer_append, hG]
  rw [length_blob, ← hshape] at hmove
  rw [length_blob] at hpoke
  have hpoked : blob b (10 + A.length + lastOffset (e :: es)) n A ++ (G ++ (N ++ (Y ++ [255]))) =
      blob b (10 + A.length + lastOffset (e :: es)) n (A ++ G ++ entriesBytes (e.withPrev reqlen :: es)) := by
    rw [hmoved, List.append_assoc A, blob_append]
  refine ⟨G, hG, ?_⟩
  rw [insertShift, if_pos hbyte, hcount, hmove]
  have hlast := lastOffset_lt (e.withPrev reqlen :: es)
  have htail := lastOffset_lt (e :: es)
  have hraw := rawlen_withPrev e reqlen
  rw [← hN] at hraw
  have hcons := length_entriesBytes_cons e es
  have hcons' := length_entriesBytes_cons (e.withPrev reqlen) es
  refine congrArg Except.ok (Eq.trans ?_ (tail_settles (b := b) (n := n) (T := 10 + A.length)
    (U := 10 + (A ++ G).length) (M := A ++ G) e es reqlen (x := reqlen) (by omega) (by omega) _ rfl))
  rw [hpoke, hpoked, hAG, tailOffset_blob _ (by omega)]

theorem poke_entry {t : Nat} {A G : Bytes} (e : Entry) (hG : G.length = e.rawlen) (rest : Bytes) :
    poke (blob b t n (A ++ G ++ rest)) (10 + A.length) e.bytes = blob b t n (A ++ (e.bytes ++ rest)) := by
  rw [poke_blob, List.append_assoc, poke_append rfl hG]

theorem insert_last (s : Text) (hchained : Chained 0 pre) (hn : n < 2 ^ 16)
    (hroom : 10 + (entriesBytes (insertBetween pre [] s)).length < 2 ^ 32) :
    ziplistInsert (layout n pre) (10 + (entriesBody pre).length) s.1 =
      .ok (layout (counter n 1) (insertBetween pre [] s)) := by
  set new := newEntry (endLen 0 pre) s with hnew
  have hinsert : insertBetween pre [] s = pre ++ [new] := rfl
  have hlen : (entriesBytes (pre ++ [new])).length = (entriesBody pre).length + 1 + new.rawlen := by
    rw [length_entriesBytes, entriesBody_append, List.length_append, length_entriesBody_cons]
    show (entriesBody pre).length + (new.rawlen + 0) + 1 = _
    omega
  rw [hinsert, hlen] at hroom
  have hprev : insertPrevlen (layout n pre) (10 + (entriesBody pre).length) = endLen 0 pre := by
    rw [← List.append_nil pre] at hchained
    have h := insertPrevlen_eq n hchained (by rw [List.append_nil, length_entriesBytes]; omega)
    rwa [List.append_nil] at h
  have hend : byteOf (layout n pre) (10 + (entriesBody pre).length) = ZIP_END := byteOf_end _ []
  have hcurlen : ziplistBytes (layout n pre) = 10 + (entriesBody pre).length + 1 := by
    rw [layout, bytes_blob _ (by rw [length_entriesBytes]; omega), length_entriesBytes, Nat.add_assoc]
  obtain ⟨z, hz, hfirst, hresize⟩ := resize_grow (b := 10 + (entriesBytes pre).length) (t := 10 + lastOffset pre)
    (n := n) (entriesBody pre) new.rawlen (by omega)
  obtain ⟨z', rfl⟩ : ∃ z', z = 255 :: z' := by
    have hhead := hfirst new.rawlen_pos
    cases z with
    | nil => exact absurd hhead (by decide)
    | cons x z => exact ⟨z, by rw [Option.some.inj hhead]⟩
  have hstill : byteOf (blob (10 + (entriesBody pre).length + 1 + new.rawlen) (10 + lastOffset pre) n
      (entriesBody pre ++ ((255 :: z') ++ [255]))) (10 + (entriesBody pre).length) = ZIP_END := byteOf_end _ _
  have hsize : (((10 + (entriesBody pre).length + 1 : Nat) : Int) + (new.bytes.length : Int) + 0).toNat =
      10 + (entriesBody pre).length + 1 + new.rawlen := by
    rw [Entry.rawlen]
    omega
  change ziplistResize (layout n pre) _ = _ at hresize
  rw [insert_steps new.bytes hcurlen (by rw [hprev, ← newEntry_bytes]) (if_neg (not_not_intro hend))
    (by rw [hsize, hresize, insertShift, if_neg (not_not_intro hstill)]) (if_neg (not_not_intro rfl)),
    setTailOffset_blob _ (Int.natCast_nonneg _), Int.toNat_natCast, ← List.append_assoc, poke_entry new hz,
    incrLength_blob _ hn (by omega), hinsert, layout, hlen, lastOffset_concat, entriesBytes_append, entriesBytes_cons]
  congr 2
  omega

theorem insert_entry (s : Text) {e : Entry} {es : List Entry} (hchained : Chained 0 (pre ++ e :: es))
    (hsmall : 10 + (entriesBytes (pre ++ e :: es)).length < 2 ^ 32) (hn : n < 2 ^ 16)
    (hcut : ¬ CutsOff (newEntry (endLen 0 pre) s).rawlen (e :: es))
    (hroom : 10 + (entriesBytes (insertBetween pre (e :: es) s)).length < 2 ^ 32) :
    ziplistInsert (layout n (pre ++ e :: es)) (10 + (entriesBody pre).length) s.1 =
      .ok (layout (counter n 1) (insertBetween pre (e :: es) s)) := by
  have hprev := insertPrevlen_eq n hchained hsmall
  set new := newEntry (endLen 0 pre) s with hnew
  set A := entriesBody pre with hA
  set N := zipPrevEncodeLength new.rawlen with hN
  have hbytes : entriesBytes (pre ++ e :: es) = A ++ entriesBytes (e :: es) := entriesBytes_append _ _
  have htail : lastOffset (pre ++ e :: es) = A.length + lastOffset (e :: es) :=
    lastOffset_append pre (List.cons_ne_nil e es)
  rw [hbytes, List.length_append] at hsmall
  have hzl : layout n (pre ++ e :: es) = blob (10 + A.length + (entriesBytes (e :: es)).length)
      (10 + A.length + lastOffset (e :: es)) n (A ++ entriesBytes (e :: es)) := by
    rw [layout, htail, hbytes, List.length_append, Nat.add_assoc, Nat.add_assoc]
  have hinsert : insertBetween pre (e :: es) s = pre ++ new :: settle new.rawlen (e :: es) := rfl
  have hafter : entriesBytes (insertBetween pre (e :: es) s) =
      A ++ (new.bytes ++ entriesBytes (settle new.rawlen (e :: es))) := by
    rw [hinsert, entriesBytes_append, entriesBytes_cons]
  rw [hafter, List.length_append, List.length_append] at hroom
  -- the size of the ziplist after the move
  have hraw := rawlen_withPrev e new.rawlen
  rw [← hN] at hraw
  have hcons := length_entriesBytes_cons e es
  have hcons' := length_entriesBytes_cons (e.withPrev new.rawlen) es
  have hgrows := length_fixPrevlens (e.withPrev new.rawlen).rawlen es
  have hsettle := length_entriesBytes_cons (e.withPrev new.rawlen) (fixPrevlens (e.withPrev new.rawlen).rawlen es)
  rw [← settle] at hsettle
  have hlen : new.bytes.length = new.rawlen := rfl
  have hsizes := prevEncode_cases new.rawlen
  rw [← hN] at hsizes
  have hgives : e.prevlen.length ≤ new.rawlen + N.length := by
    have hcut' : ¬ (e.prevlen.length = 5 ∧ new.rawlen < 4) := hcut
    rcases e.prevlen_cases with h | h <;> omega
  obtain ⟨grown, hgrown⟩ := Nat.exists_eq_add_of_le hgives
  have hbody := length_entriesBytes (e :: es)
  obtain ⟨z, hz, -, hresize⟩ := resize_grow (b := 10 + A.length + (entriesBytes (e :: es)).length)
    (t := 10 + A.length + lastOffset (e :: es)) (n := n) (A ++ entriesBody (e :: es)) grown
    (by rw [List.length_append]; omega)
  have hsize : 10 + (A ++ entriesBody (e :: es)).length + 1 + grown =
      10 + A.length + new.rawlen + (entriesBytes (e.withPrev new.rawlen :: es)).length := by
    rw [List.length_append]
    omega
  rw [hsize, List.append_assoc, List.append_assoc, ← entriesBytes_eq, ← hzl] at hresize
  obtain ⟨G, hG, hshift⟩ := insertShift_entry (b := 10 + A.length + new.rawlen +
    (entriesBytes (e.withPrev new.rawlen :: es)).length) (n := n) (A := A) (z := z) (e := e) es new.rawlen
    (by rw [← hN]; omega) (by omega)
  have hAG : 10 + A.length + new.rawlen = 10 + (A ++ G).length := by
    rw [← pointer_append, hG]
  have hcascade := cascade_settle (A := A ++ G) n new.rawlen (chained_append.mp hchained).2.2
    (by rw [← hAG]; omega)
  have hcurlen : ziplistBytes (layout n (pre ++ e :: es)) = 10 + A.length + (entriesBytes (e :: es)).length := by
    rw [hzl, bytes_blob _ (by omega)]
  have hdiff : (if byteOf (layout n (pre ++ e :: es)) (10 + A.length) ≠ ZIP_END then
      zipPrevLenByteDiff ((layout n (pre ++ e :: es)).drop (10 + A.length)) new.bytes.length else 0) =
      (N.length : Int) - (e.prevlen.length : Int) := by
    rw [hzl, entriesBytes_cons, if_pos (byteOf_entry A e _), drop_at, prevLenByteDiff_read]
    rfl
  have htotal : (((10 + A.length + (entriesBytes (e :: es)).length : Nat) : Int) + (new.bytes.length : Int) +
      ((N.length : Int) - (e.prevlen.length : Int))).toNat =
      10 + A.length + new.rawlen + (entriesBytes (e.withPrev new.rawlen :: es)).length := by omega
  rw [insert_steps new.bytes hcurlen (by rw [hprev, ← newEntry_bytes]) hdiff
    (by rw [htotal, hresize]; exact hshift) (by rw [hlen, hAG]; exact hcascade), poke_entry new hG,
    incrLength_blob _ hn (by omega), layout, hafter, hinsert, lastOffset_append pre (List.cons_ne_nil _ _),
    lastOffset_cons new (show settle new.rawlen (e :: es) ≠ [] from List.cons_ne_nil _ _), ← hA, ← hAG,
    List.length_append, List.length_append, hlen]
  simp only [Nat.add_assoc]

end Insert

end RedisCluster.Ziplist
