import RedisCluster.Ziplist.Proofs.InsertProofs
import RedisCluster.Ziplist.Proofs.WalkProofs

/-!
# Proofs: runs on a ziplist

Each operation keeps the invariant and does on the texts of the entries what it does on a list, unless an
insert shrinks the block before it moves the entries, or they do not fit into 32 bits.
-/

namespace RedisCluster.Ziplist

open RedisCluster.Lib RedisCluster.Util

def Op.onEntries (es : List Entry) : Op → List Entry
  | .push s .head => insertBetween [] es s
  | .push s .tail => insertBetween es [] s
  | .insert index s => insertBetween (es.take index) (es.drop index) s
  | .delete index => deleteBetween (es.take index) ((es.drop index).take 1) ((es.drop index).drop 1)
  | .deleteRange index num =>
    deleteBetween (es.take (rangeStart es.length index)) ((es.drop (rangeStart es.length index)).take num.toNat)
      ((es.drop (rangeStart es.length index)).drop num.toNat)
  | .len => es

theorem insertBetween_texts (pre post : List Entry) (s : Text) :
    (insertBetween pre post s).map Entry.text = pre.map Entry.text ++ s.1 :: post.map Entry.text := by
  rw [insertBetween, List.map_append, List.map_cons, newEntry_text, settle_texts]

theorem deleteBetween_texts (pre mid post : List Entry) :
    (deleteBetween pre mid post).map Entry.text = pre.map Entry.text ++ post.map Entry.text := by
  unfold deleteBetween
  split
  · exact List.map_append
  · rw [List.map_append, settle_texts]

theorem insertBetween_length (pre post : List Entry) (s : Text) :
    (insertBetween pre post s).length = (pre ++ post).length + 1 := by
  have h := congrArg List.length (insertBetween_texts pre post s)
  simp only [List.length_map, List.length_append, List.length_cons] at h ⊢
  omega

theorem deleteBetween_length (pre mid post : List Entry) :
    (deleteBetween pre mid post).length = pre.length + post.length := by
  have h := congrArg List.length (deleteBetween_texts pre mid post)
  rwa [List.length_append, List.length_map, List.length_map, List.length_map] at h

theorem onEntries_texts (es : List Entry) (op : Op) :
    (op.onEntries es).map Entry.text = op.onList (es.map Entry.text) := by
  cases op with
  | push s place =>
    cases place with
    | head => exact insertBetween_texts [] es s
    | tail => exact insertBetween_texts es [] s
  | insert index s =>
    rw [Op.onEntries, insertBetween_texts, List.map_take, List.map_drop]
    rfl
  | delete index =>
    rw [Op.onEntries, deleteBetween_texts, List.drop_drop, List.map_take, List.map_drop, Op.onList,
      List.eraseIdx_eq_take_drop_succ]
  | deleteRange index num =>
    rw [Op.onEntries, deleteBetween_texts, List.drop_drop, List.map_take, List.map_drop, Op.onList, List.length_map]
  | len => rfl

def ShrinksFirst (zl : Bytes) (p : Nat) (s : Bytes) : Prop :=
  byteOf zl p ≠ ZIP_END ∧ zipDecodePrevlensize (zl.drop p) = 5 ∧ (insertEntry (insertPrevlen zl p) s).length < 4

def Op.ShrinksFirst (zl : Bytes) : Op → Prop
  | .push s .head => Ziplist.ShrinksFirst zl entryHead s.1
  | .insert index s => Ziplist.ShrinksFirst zl (pointerTo zl index) s.1
  | _ => False

def Op.Fits (zl : Bytes) (op : Op) : Prop :=
  ∀ n es, Represents zl n es → 10 + (entriesBytes (op.onEntries es)).length < 2 ^ 32

def Op.Safe (zl : Bytes) (op : Op) : Prop := ¬ op.ShrinksFirst zl ∧ op.Fits zl

def SafeRun : Bytes → List Op → Prop
  | _, [] => True
  | zl, op :: ops => op.Safe zl ∧ ∀ zl', op.run zl = .ok zl' → SafeRun zl' ops

section Step

variable {zl : Bytes} {n : Nat} {es pre post : List Entry}

theorem Represents.insert (h : Represents zl n (pre ++ post)) (s : Text)
    (hsafe : ¬ ShrinksFirst zl (10 + (entriesBody pre).length) s.1)
    (hroom : 10 + (entriesBytes (insertBetween pre post s)).length < 2 ^ 32) :
    ∃ zl', ziplistInsert zl (10 + (entriesBody pre).length) s.1 = .ok zl' ∧
      Represents zl' (counter n 1) (insertBetween pre post s) := by
  refine ⟨layout (counter n 1) (insertBetween pre post s), ?_, rfl, hroom, ?_,
    counter_count h.count (by rw [insertBetween_length]; rfl) (Int.le_refl 1)⟩
  · have hn := h.counter_lt
    obtain ⟨rfl, hsmall, hchained, -⟩ := h
    cases post with
    | nil =>
      rw [List.append_nil] at hchained ⊢
      exact insert_last s hchained hn hroom
    | cons e post =>
      refine insert_entry s hchained hsmall hn ?_ hroom
      rintro ⟨hfive, hless⟩
      refine hsafe ⟨mt (byteOf_layout pre (e :: post)).mp (List.cons_ne_nil e post), ?_, ?_⟩
      · rw [layout, entriesBytes_append, entriesBytes_cons, drop_at, (entry_read e _).2.1]
        exact hfive
      · rw [insertPrevlen_eq n hchained hsmall]
        exact hless
  · have hbytes := hroom
    rw [insertBetween, entriesBytes_append, List.length_append, length_entriesBytes_cons] at hbytes
    have hback := lastOffset_endLen pre
    obtain ⟨hpre, hpost⟩ := chained_append.mp h.chained
    have htail : ChainedTail post := Chained.tail hpost
    exact chained_append.mpr ⟨hpre, newEntry_prevValue (by omega) s, settle_chained htail (by omega) (by omega)⟩

theorem Represents.delete (h : Represents zl n (pre ++ post)) (num : Nat)
    (hroom : 10 + (entriesBytes (deleteBetween pre (post.take num) (post.drop num))).length < 2 ^ 32) :
    ∃ zl', ziplistDeleteAt zl (10 + (entriesBody pre).length) num = .ok zl' ∧
      Represents zl' (counter n (-((post.take num).length : Int)))
        (deleteBetween pre (post.take num) (post.drop num)) := by
  have hsplit := congrArg List.length (List.take_append_drop num post)
  rw [List.length_append] at hsplit
  have hcount := h.count
  rw [List.length_append] at hcount
  refine ⟨_, ?_, rfl, hroom, ?_, counter_count hcount (by rw [deleteBetween_length]; omega) (by omega)⟩
  · have hn := h.counter_lt
    have hexact : n < 65535 → n = (pre ++ post).length := by
      intro hlt
      rw [List.length_append]
      omega
    obtain ⟨rfl, hsmall, hchained, -⟩ := h
    exact delete_layout hchained hsmall hn hexact hroom
  · unfold deleteBetween at hroom ⊢
    split
    case isTrue hnone =>
      have hall : post.drop num = post := by
        have happend := List.take_append_drop num post
        rwa [hnone, List.nil_append] at happend
      rw [hall]
      exact h.chained
    case isFalse hsome =>
      rw [if_neg hsome, entriesBytes_append, List.length_append] at hroom
      have hback := lastOffset_endLen pre
      obtain ⟨hpre, hpost⟩ := chained_append.mp h.chained
      rw [← List.take_append_drop num post] at hpost
      have htail : ChainedTail (post.drop num) := Chained.tail (chained_append.mp hpost).2
      exact chained_append.mpr ⟨hpre, settle_chained htail (by omega) (by omega)⟩

theorem Represents.entryEnd (h : Represents zl n es) : entryEnd zl = 10 + (entriesBody es).length := by
  obtain ⟨rfl, hsmall, -, -⟩ := h
  rw [Ziplist.entryEnd, layout, bytes_blob _ hsmall, length_entriesBytes]
  rfl

theorem Represents.pointerTo (h : Represents zl n es) (i : Nat) :
    pointerTo zl i = 10 + (entriesBody (es.take i)).length := by
  have hend := h.entryEnd
  obtain ⟨rfl, -, -, -⟩ := h
  rw [Ziplist.pointerTo, index_forward, offsets_getElem, hend]
  split
  case isTrue hi => rfl
  case isFalse hi =>
    rw [List.take_of_length_le (Nat.le_of_not_lt hi)]
    rfl

theorem Represents.range_index (h : Represents zl n es) (index : UInt32) :
    ziplistIndex zl index.toInt32.toInt = (offsets es)[rangeStart es.length index]? := by
  obtain ⟨rfl, hsmall, hchained, -⟩ := h
  have hlen : (offsets es).length = es.length := length_offsetsFrom 0 es
  unfold rangeStart
  split
  case isTrue hpos =>
    have hindex := index_forward (n := n) es index.toInt32.toInt.toNat
    rwa [Int.toNat_of_nonneg hpos] at hindex
  case isFalse hneg =>
    have hindex := index_back (n := n) hchained hsmall (-index.toInt32.toInt - 1).toNat
    have hself : -(((-index.toInt32.toInt - 1).toNat : Nat) : Int) - 1 = index.toInt32.toInt := by omega
    rw [hself] at hindex
    rw [hindex]
    split
    case isTrue hin =>
      have hlt : (-index.toInt32.toInt - 1).toNat < (offsets es).length := by omega
      rw [List.getElem?_reverse hlt, hlen]
      congr 1
      omega
    case isFalse hout =>
      have hfront : (offsets es)[es.length]? = none := List.getElem?_eq_none (Nat.le_of_eq hlen)
      have hback : (offsets es).reverse[(-index.toInt32.toInt - 1).toNat]? = none := by
        rw [List.getElem?_eq_none_iff, List.length_reverse]
        omega
      rw [hfront, hback]

theorem Represents.deleteFrom (h : Represents zl n es) (i num : Nat)
    (hroom : 10 + (entriesBytes (deleteBetween (es.take i) ((es.drop i).take num) ((es.drop i).drop num))).length <
      2 ^ 32) :
    ∃ zl', ((offsets es)[i]?.elim (.ok zl) fun p => ziplistDeleteAt zl p num) = .ok zl' ∧
      Represents zl' (counter n (-(((es.drop i).take num).length : Int)))
        (deleteBetween (es.take i) ((es.drop i).take num) ((es.drop i).drop num)) := by
  rw [offsets_getElem]
  by_cases hi : i < es.length
  case pos =>
    rw [if_pos hi]
    rw [← List.take_append_drop i es] at h
    exact h.delete num hroom
  case neg =>
    have hdrop : es.drop i = [] := List.drop_eq_nil_of_le (Nat.le_of_not_lt hi)
    have hsame : deleteBetween (es.take i) ((es.drop i).take num) ((es.drop i).drop num) = es := by
      rw [hdrop, List.take_nil, List.drop_nil, deleteBetween, if_pos rfl, List.append_nil,
        List.take_of_length_le (Nat.le_of_not_lt hi)]
    have hcounter : counter n (-(((es.drop i).take num).length : Int)) = n := by
      rw [hdrop, List.take_nil]
      exact counter_zero n
    rw [if_neg hi, hsame, hcounter]
    exact ⟨zl, rfl, h⟩

theorem Represents.counter_delete (h : Represents zl n es) (i num : Nat) (hlt : n < 65535) :
    counter n (-(((es.drop i).take num).length : Int)) =
      (deleteBetween (es.take i) ((es.drop i).take num) ((es.drop i).drop num)).length := by
  have hcount := h.count
  have hsplit := congrArg List.length (List.take_append_drop i es)
  have hrest := congrArg List.length (List.take_append_drop num (es.drop i))
  rw [List.length_append] at hsplit hrest
  refine counter_exact hlt ?_
  rw [deleteBetween_length]
  omega

theorem Represents.len (h : Represents zl n es) :
    ∃ zl' n', ziplistLen zl = .ok (es.length, zl') ∧ Represents zl' n' es ∧ (es.length < 65535 → n' = es.length) := by
  have hcount := h.count
  have hn := h.counter_lt
  have hrest := h
  obtain ⟨rfl, hsmall, hchained, -⟩ := h
  have hfield : ziplistLength (layout n es) = n := length_field_blob _ hn
  rw [ziplistLen, hfield]
  have hmax : UINT16_MAX = 65535 := rfl
  by_cases hlt : n < UINT16_MAX
  · have hexact : n = es.length := by omega
    rw [if_pos hlt]
    exact ⟨layout n es, n, by rw [← hexact], hrest, fun _ => hexact⟩
  · have hloop := lenLoop_eq (b := 10 + (entriesBytes es).length) (t := 10 + lastOffset es) (n := n) es
      ((layout n es).length + 1) (by
        have hless := length_lt_entriesBytes es
        rw [layout, length_blob]
        omega) [] 0
    change lenLoop (layout n es) _ ZIPLIST_HEADER_SIZE 0 = _ at hloop
    rw [if_neg hlt, hloop, Nat.zero_add]
    refine ⟨if es.length < UINT16_MAX then setLength (layout n es) es.length else layout n es,
      if es.length < UINT16_MAX then es.length else n, rfl, ?_, fun hshort => if_pos hshort⟩
    split
    · rename_i hshort
      exact ⟨setLength_blob _ (Int.natCast_nonneg _), hsmall, hchained, Or.inl ⟨rfl, Nat.le_of_lt hshort⟩⟩
    · exact hrest

theorem Represents.step (h : Represents zl n es) {op : Op} (hsafe : op.Safe zl) :
    ∃ zl' n', op.run zl = .ok zl' ∧ Represents zl' n' (op.onEntries es) ∧
      (n < 65535 → n' = (op.onEntries es).length) := by
  obtain ⟨hshrink, hfits⟩ := hsafe
  have hroom := hfits n es h
  have hinsert : ∀ pre post : List Entry, ∀ s, pre ++ post = es → n < 65535 →
      counter n 1 = (insertBetween pre post s).length := by
    intro pre post s hes hlt
    have hcount := h.count
    refine counter_exact hlt ?_
    rw [insertBetween_length, hes]
    omega
  cases op with
  | push s place =>
    cases place with
    | head =>
      rw [← List.nil_append es] at h
      obtain ⟨zl', hrun, h'⟩ := h.insert s hshrink hroom
      exact ⟨zl', _, hrun, h', hinsert [] es s rfl⟩
    | tail =>
      have hend := h.entryEnd
      have hexact := hinsert es [] s (List.append_nil es)
      rw [← List.append_nil es] at h
      have hlast : byteOf zl (10 + (entriesBody es).length) = ZIP_END := by
        rw [h.eq]
        exact (byteOf_layout es []).mpr rfl
      obtain ⟨zl', hrun, h'⟩ := h.insert s (fun hcut => hcut.1 hlast) hroom
      exact ⟨zl', _, by rw [Op.run, ziplistPush, hend, hrun], h', hexact⟩
  | insert index s =>
    have hp := h.pointerTo index
    have hexact := hinsert (es.take index) (es.drop index) s (List.take_append_drop index es)
    rw [Op.ShrinksFirst, hp] at hshrink
    rw [← List.take_append_drop index es] at h
    obtain ⟨zl', hrun, h'⟩ := h.insert s hshrink hroom
    exact ⟨zl', _, by rw [Op.run, hp, hrun], h', hexact⟩
  | delete index =>
    obtain ⟨zl', hrun, h'⟩ := h.deleteFrom index 1 hroom
    refine ⟨zl', _, ?_, h', h.counter_delete index 1⟩
    rw [Op.run, h.eq, index_forward, ← h.eq]
    exact hrun
  | deleteRange index num =>
    obtain ⟨zl', hrun, h'⟩ := h.deleteFrom (rangeStart es.length index) num.toNat hroom
    refine ⟨zl', _, ?_, h', h.counter_delete _ _⟩
    rw [Op.run, ziplistDeleteRange, h.range_index]
    exact hrun
  | len =>
    obtain ⟨zl', n', hrun, h', hexact⟩ := h.len
    have hcount := h.count
    refine ⟨zl', n', by rw [Op.run, hrun]; rfl, h', fun hlt => hexact ?_⟩
    omega

end Step

def entriesAfter (es : List Entry) (ops : List Op) : List Entry := ops.foldl Op.onEntries es

theorem entriesAfter_texts (es : List Entry) (ops : List Op) :
    (entriesAfter es ops).map Entry.text = ops.foldl Op.onList (es.map Entry.text) := by
  induction ops generalizing es with
  | nil => rfl
  | cons op ops ih =>
    rw [entriesAfter, List.foldl_cons, List.foldl_cons, ← onEntries_texts]
    exact ih (op.onEntries es)

theorem Represents.run {zl : Bytes} {n : Nat} {es : List Entry} (h : Represents zl n es) {ops : List Op}
    (hsafe : SafeRun zl ops) : ∃ zl' n', runOps zl ops = .ok zl' ∧ Represents zl' n' (entriesAfter es ops) ∧
      (n' = (entriesAfter es ops).length ∨
        n' = 65535 ∧ (65535 ≤ n ∨ ∃ k ≤ ops.length, 65535 ≤ (entriesAfter es (ops.take k)).length)) := by
  induction ops generalizing zl n es with
  | nil =>
    refine ⟨zl, n, rfl, h, ?_⟩
    rcases h.count with ⟨heq, -⟩ | heq
    · exact Or.inl heq
    · exact Or.inr ⟨heq, Or.inl (Nat.le_of_eq heq.symm)⟩
  | cons op ops ih =>
    obtain ⟨zl₁, n₁, hstep, h₁, hexact⟩ := h.step hsafe.1
    obtain ⟨zl', n', hrun, h', hcount⟩ := ih h₁ (hsafe.2 zl₁ hstep)
    refine ⟨zl', n', by rw [runOps, List.foldlM_cons, hstep]; exact hrun, h', hcount.imp id ?_⟩
    rintro ⟨hmax, hreached | ⟨k, hk, hreached⟩⟩
    · refine ⟨hmax, ?_⟩
      by_cases hlt : n < 65535
      · rw [hexact hlt] at hreached
        exact Or.inr ⟨1, Nat.succ_le_succ (Nat.zero_le _), hreached⟩
      · exact Or.inl (Nat.le_of_not_lt hlt)
    · exact ⟨hmax, Or.inr ⟨k + 1, Nat.succ_le_succ hk, hreached⟩⟩

theorem represents_new : Represents ziplistNew 0 [] := ⟨rfl, by decide, trivial, Or.inl ⟨rfl, Nat.zero_le _⟩⟩

theorem Represents.decode {zl : Bytes} {n : Nat} {es : List Entry} (h : Represents zl n es) :
    decode zl = .ok (es.map Entry.text) := by
  obtain ⟨rfl, -, -, -⟩ := h
  have hless := length_lt_entriesBytes es
  exact decodeFrom_eq (b := 10 + (entriesBytes es).length) (t := 10 + lastOffset es) (n := n) es
    ((layout n es).length + 1) (by rw [layout, length_blob]; omega) []

end RedisCluster.Ziplist
