import RedisCluster.Ziplist.Proofs.RunProofs

/-!
# Proofs: a ziplist as a list of strings

A safe run does on the decoded texts what it does on a plain list. An operation on a ziplist that is not large
always fits; an insert that shrinks the block first loses the last byte.
-/

namespace RedisCluster.Ziplist

open RedisCluster.Lib RedisCluster.Util

theorem length_encodeLength (encoding len : Nat) : (zipEncodeLength encoding len).length ≤ 5 := by
  unfold zipEncodeLength
  split_ifs <;> simp only [List.length_cons, List.length_nil] <;> omega

theorem length_newEntry (prevlen : Nat) (s : Text) : (newEntry prevlen s).rawlen ≤ s.1.length + 18 := by
  have hprev : (newEntry prevlen s).prevlen.length ≤ 5 := by
    rcases (newEntry prevlen s).prevlen_cases with h | h <;> omega
  have hheader : (newEntry prevlen s).header.length ≤ 5 := length_encodeLength _ _
  have hcontent : (insertContent s.1).2.length ≤ s.1.length + 8 := by
    cases htry : zipTryEncoding s.1 with
    | none =>
      rw [insertContent, htry]
      exact Nat.le_add_right _ _
    | some found =>
      have hsize : zipIntSize found.2 ≤ 8 := by
        unfold zipIntSize
        split_ifs <;> omega
      rw [insertContent, htry]
      show (leBytes (zipIntSize found.2) found.1).length ≤ _
      rw [length_leBytes]
      omega
  rw [Entry.rawlen_eq]
  show _ + (insertContent s.1).2.length ≤ _
  omega

theorem length_fixPrevlens_le (prev : Nat) (es : List Entry) :
    (entriesBytes (fixPrevlens prev es)).length ≤ (entriesBytes es).length + 4 * es.length := by
  induction es generalizing prev with
  | nil => exact Nat.le_refl _
  | cons e es ih =>
    have hraw := rawlen_withPrev e prev
    have hcons := length_entriesBytes_cons e es
    by_cases hlt : e.prevlen.length < (zipPrevEncodeLength prev).length
    case pos =>
      have hrest := ih (e.withPrev prev).rawlen
      rw [fixPrevlens]
      split
      · exact Nat.le_add_right _ _
      · have hsizes := prevEncode_cases prev
        rw [length_entriesBytes_cons, List.length_cons]
        rcases e.prevlen_cases with h | h <;> omega
    case neg =>
      obtain ⟨e', hfix, hsame⟩ := fixPrevlens_same es hlt
      rw [hfix, length_entriesBytes_cons, hsame, ← hcons]
      exact Nat.le_add_right _ _

theorem length_settle_le (prev : Nat) (es : List Entry) :
    (entriesBytes (settle prev es)).length ≤ (entriesBytes es).length + 4 * es.length := by
  cases es with
  | nil => exact Nat.le_refl _
  | cons e es =>
    have hraw := rawlen_withPrev e prev
    have hsizes := prevEncode_cases prev
    have hrest := length_fixPrevlens_le (e.withPrev prev).rawlen es
    rw [settle, length_entriesBytes_cons, length_entriesBytes_cons, List.length_cons]
    rcases e.prevlen_cases with h | h <;> omega

theorem length_insertBetween_le (pre post : List Entry) (s : Text) :
    (entriesBytes (insertBetween pre post s)).length ≤
      (entriesBytes (pre ++ post)).length + 4 * (pre ++ post).length + s.1.length + 18 := by
  have hnew := length_newEntry (endLen 0 pre) s
  have hpost := length_settle_le (newEntry (endLen 0 pre) s).rawlen post
  rw [insertBetween, entriesBytes_append, entriesBytes_append, List.length_append, length_entriesBytes_cons,
    List.length_append, List.length_append]
  omega

theorem length_deleteBetween_le (pre mid post : List Entry) :
    (entriesBytes (deleteBetween pre mid post)).length ≤
      (entriesBytes (pre ++ (mid ++ post))).length + 4 * (pre ++ (mid ++ post)).length := by
  have hpost := length_settle_le (endLen 0 pre) post
  have hmid : (entriesBytes post).length ≤ (entriesBytes (mid ++ post)).length := by
    rw [entriesBytes_append, List.length_append]
    exact Nat.le_add_left _ _
  unfold deleteBetween
  split <;> simp only [entriesBytes_append, List.length_append] at hmid ⊢ <;> omega

def Op.textLength : Op → Nat
  | .push s _ => s.1.length
  | .insert _ s => s.1.length
  | _ => 0

theorem Op.fits_of_small {zl : Bytes} {op : Op} (h : 5 * zl.length + op.textLength + 18 < 2 ^ 32) : op.Fits zl := by
  intro n es hes
  have hlen : zl.length = 10 + (entriesBytes es).length := by rw [hes.eq, layout, length_blob]
  have hcount := length_lt_entriesBytes es
  have hinsert : ∀ pre post : List Entry, ∀ s, pre ++ post = es → op.textLength = s.1.length →
      10 + (entriesBytes (insertBetween pre post s)).length < 2 ^ 32 := by
    rintro pre post s rfl hs
    have hle := length_insertBetween_le pre post s
    omega
  have hdelete : ∀ i num, 10 + (entriesBytes (deleteBetween (es.take i) ((es.drop i).take num)
      ((es.drop i).drop num))).length < 2 ^ 32 := by
    intro i num
    have hle := length_deleteBetween_le (es.take i) ((es.drop i).take num) ((es.drop i).drop num)
    rw [List.take_append_drop, List.take_append_drop] at hle
    omega
  cases op with
  | push s place =>
    cases place with
    | head => exact hinsert [] es s rfl rfl
    | tail => exact hinsert es [] s (List.append_nil es) rfl
  | insert index s => exact hinsert _ _ s (List.take_append_drop index es) rfl
  | delete index => exact hdelete index 1
  | deleteRange index num => exact hdelete _ _
  | len => exact hes.small

theorem SafeRun.cons {zl : Bytes} (zl' : Bytes) {op : Op} {ops : List Op} (hrun : op.run zl = .ok zl')
    (hshrink : ¬ op.ShrinksFirst zl) (hsmall : 5 * zl.length + op.textLength + 18 < 2 ^ 32) (hrest : SafeRun zl' ops) :
    SafeRun zl (op :: ops) := by
  refine ⟨⟨hshrink, Op.fits_of_small hsmall⟩, fun zl'' hrun' => ?_⟩
  rw [hrun] at hrun'
  cases hrun'
  exact hrest

def shortRun : List Op := [.push ⟨[97], by decide⟩ .tail, .insert 0 ⟨[49, 50], by decide⟩]

theorem shortRun_safe : SafeRun ziplistNew shortRun :=
  SafeRun.cons [14, 0, 0, 0, 10, 0, 0, 0, 1, 0, 0, 1, 97, 255] (by decide +kernel) not_false (by decide)
    (SafeRun.cons [16, 0, 0, 0, 12, 0, 0, 0, 2, 0, 0, 253, 2, 1, 97, 255] (by decide +kernel)
      (fun h => absurd h.2.1 (by decide +kernel)) (by decide) trivial)

/-- A run does on the texts what it does on a list. -/
theorem run_refines {ops : List Op} (hsafe : SafeRun ziplistNew ops) :
    ∃ zl, runOps ziplistNew ops = .ok zl ∧ decode zl = .ok (ops.foldl Op.onList []) := by
  obtain ⟨zl, n, hrun, h, -⟩ := represents_new.run hsafe
  exact ⟨zl, hrun, by rw [h.decode, entriesAfter_texts, List.map_nil]⟩

theorem shortRun_refines :
    ∃ zl, runOps ziplistNew shortRun = .ok zl ∧ decode zl = .ok [[49, 50], [97]] :=
  run_refines shortRun_safe

def filler (k : Nat) (h : k < 2 ^ 32) : Text := ⟨List.replicate k 97, by rwa [List.length_replicate]⟩

def cuttingRun : List Op :=
  [.push (filler 252 (by decide)) .tail, .push (filler 248 (by decide)) .tail, .push ⟨[98], by decide⟩ .tail,
    .delete 0, .insert 1 ⟨[99], by decide⟩]

/-- The last byte of the list is the end of the cut block when the entries move. -/
theorem cuttingRun_loses_byte :
    (runOps ziplistNew cuttingRun).bind decode = .ok [List.replicate 248 97, [99], [255]] ∧
      cuttingRun.foldl Op.onList [] = [List.replicate 248 97, [99], [98]] ∧
      (runOps ziplistNew cuttingRun).bind decode ≠ .ok (cuttingRun.foldl Op.onList []) := by
  decide +kernel

end RedisCluster.Ziplist

/-!
## Proofs: the metadata of a ziplist

After a safe run the header and the lengths between the entries are right, so that the backward walk meets the
entries of the forward walk. Only the counter stays at its maximum until the length is asked for.
-/

namespace RedisCluster.Ziplist

open RedisCluster.Lib RedisCluster.Util

/-- The header and the entries agree, and the walks do. -/
structure Exact (zl : Bytes) (es : List Entry) : Prop where
  entries : zl.drop ZIPLIST_HEADER_SIZE = entriesBytes es
  bytes : ziplistBytes zl = zl.length
  tail : ziplistTailOffset zl = (offsets es).getLast?.getD (entryEnd zl)
  prevlens : Chained 0 es
  length : ∃ zl', ziplistLen zl = .ok (es.length, zl') ∧ (es.length < 65535 → ziplistLength zl' = es.length)
  forward : forward zl = offsets es
  backward : backward zl = .ok (offsets es).reverse
  index : ∀ i : Nat, ziplistIndex zl i = (offsets es)[i]?
  index_back : ∀ i : Nat, ziplistIndex zl (-(i : Int) - 1) = (offsets es).reverse[i]?

theorem Represents.exact {zl : Bytes} {n : Nat} {es : List Entry} (h : Represents zl n es) : Exact zl es := by
  have hend := h.entryEnd
  obtain ⟨zl', n', hlen, h', hexact⟩ := h.len
  have hn' := h'.counter_lt
  obtain ⟨rfl, hsmall, hchained, -⟩ := h
  have hless := length_lt_entriesBytes es
  have htail := lastOffset_lt es
  have hsize : (layout n es).length = 10 + (entriesBytes es).length := length_blob _
  constructor
  case entries => exact drop_at [] (entriesBytes es)
  case bytes => rw [hsize, layout, bytes_blob _ hsmall]
  case tail =>
    rw [layout, tailOffset_blob _ (by omega), ← layout, hend]
    rcases List.eq_nil_or_concat' es with rfl | ⟨init, last, rfl⟩
    · rfl
    · rw [offsets_concat, List.getLast?_append, lastOffset_concat]
      rfl
  case prevlens => exact hchained
  case length =>
    refine ⟨zl', hlen, fun hshort => ?_⟩
    rw [h'.eq, layout, length_field_blob _ hn', hexact hshort]
  case forward =>
    have hfirst := index_forward (n := n) es 0
    rw [Nat.cast_zero] at hfirst
    rw [Ziplist.forward, hfirst]
    cases es with
    | nil => rfl
    | cons e es =>
      have hwalk := forwardFrom_eq (b := 10 + (entriesBytes (e :: es)).length) (t := 10 + lastOffset (e :: es)) (n := n)
        es (layout n (e :: es)).length (by rw [hsize]; rw [List.length_cons] at hless; omega) [] e
      exact hwalk
  case backward =>
    have hback := backwardFrom_eq (n := n) es [] ((layout n es).length + 1) (by rw [hsize]; omega)
      (by rwa [List.append_nil]) (by rwa [List.append_nil])
    rw [List.append_nil] at hback
    rw [Ziplist.backward, hend, hback]
  case index => exact index_forward es
  case index_back => exact Ziplist.index_back hchained hsmall

def emptyText : Text := ⟨[], by decide⟩

theorem runOps_concat (zl : Bytes) (ops : List Op) (op : Op) :
    runOps zl (ops ++ [op]) = (runOps zl ops).bind fun zl' => op.run zl' := by
  rw [runOps, List.foldlM_append]
  show (runOps zl ops).bind _ = _
  congr 1
  funext zl'
  rw [List.foldlM_cons]
  exact bind_pure _

theorem push_many {k : Nat} (hk : k ≤ 65535) :
    ∃ zl es, runOps ziplistNew (List.replicate k (.push emptyText .tail)) = .ok zl ∧ Represents zl k es ∧
      es.length = k ∧ (entriesBytes es).length ≤ 1 + 18 * k := by
  induction k with
  | zero => exact ⟨ziplistNew, [], rfl, represents_new, rfl, Nat.le_refl 1⟩
  | succ k ih =>
    obtain ⟨zl, es, hrun, h, hlen, hsize⟩ := ih (Nat.le_of_succ_le hk)
    have hend := h.entryEnd
    rw [← List.append_nil es] at h
    have hlast : byteOf zl (10 + (entriesBody es).length) = ZIP_END := by
      rw [h.eq]
      exact (byteOf_layout es []).mpr rfl
    have hnew := length_newEntry (endLen 0 es) emptyText
    have hgrown : (entriesBytes (insertBetween es [] emptyText)).length =
        (entriesBytes es).length + (newEntry (endLen 0 es) emptyText).rawlen := by
      rw [insertBetween, settle, length_entriesBytes, entriesBody_append, List.length_append, length_entriesBody_cons,
        length_entriesBytes]
      show _ + (_ + 0) + 1 = _
      omega
    have hbound : (newEntry (endLen 0 es) emptyText).rawlen ≤ 18 := by
      rwa [show emptyText.1.length = 0 from rfl, Nat.zero_add] at hnew
    obtain ⟨zl', hstep, h'⟩ := h.insert emptyText (fun hcut => hcut.1 hlast) (by omega)
    rw [show counter k 1 = k + 1 from counter_exact (by omega) (by push_cast; rfl)] at h'
    refine ⟨zl', insertBetween es [] emptyText, ?_, h', ?_, by omega⟩
    · rw [List.replicate_succ', runOps_concat, hrun]
      show ziplistInsert zl (Ziplist.entryEnd zl) _ = _
      rw [hend, hstep]
    · rw [insertBetween_length, List.append_nil, hlen]

end RedisCluster.Ziplist
