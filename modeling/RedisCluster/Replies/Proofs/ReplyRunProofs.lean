import RedisCluster.Replies.Proofs.ReplyProofs

/-!
# Runs of a client's output: proofs

Deferred lengths go to their places, writes take bytes from the front, and every event keeps the
bytes written and pending equal to the stream that the peer should get.
-/

namespace RedisCluster.Replies

open RedisCluster.Util
open RedisCluster.Lib

/-! ## A reference given back -/

theorem HeldElsewhere.ne_value {s : State} {ln : ReplyNode} (hmem : ln ∈ s.reply)
    (hone : refcount s ln.value = 1) {o : Nat} (ho : HeldElsewhere s o) : o ≠ ln.value := by
  intro heq
  have hpos := held_of_mem hmem
  unfold HeldElsewhere at ho
  rw [heq] at ho
  omega

section Released

variable {s s' : State} {v o : Nat} (hheld : ∀ o, held s o = held s' o + if o = v then 1 else 0)
  (hrefcount : ∀ o, refcount s' o = if o = v then refcount s v - 1 else refcount s o)

include hrefcount

theorem zero_released (hzero : refcount s o = 0) : refcount s' o = 0 := by
  rw [hrefcount]
  split
  case isTrue heq => rw [← heq, hzero]
  case isFalse => exact hzero

include hheld

theorem heldElsewhere_released (o : Nat) : HeldElsewhere s' o ↔ HeldElsewhere s o := by
  unfold HeldElsewhere
  rw [hrefcount, hheld]
  by_cases heq : o = v
  · rw [if_pos heq, if_pos heq, heq]
    omega
  · rw [if_neg heq, if_neg heq, Nat.add_zero]

theorem counts_released (hcount : held s o ≤ refcount s o) : held s' o ≤ refcount s' o := by
  rw [hheld] at hcount
  rw [hrefcount]
  by_cases heq : o = v
  · rw [if_pos heq] at hcount
    rw [if_pos heq, ← heq]
    omega
  · rwa [if_neg heq] at hcount ⊢

end Released

/-! ## Places in a stream -/

theorem hole_notMem_syms (id : Nat) (bytes : Bytes) : Sym.hole id ∉ syms bytes := by
  intro h
  obtain ⟨b, -, hb⟩ := List.mem_map.mp h
  cases hb

@[simp] theorem fill_append (id : Nat) (bytes : Bytes) (a b : List Sym) :
    fill id bytes (a ++ b) = fill id bytes a ++ fill id bytes b := List.flatMap_append

theorem fill_of_notMem {id : Nat} (bytes : Bytes) {stream : List Sym} (h : Sym.hole id ∉ stream) :
    fill id bytes stream = stream := by
  induction stream with
  | nil => rfl
  | cons x stream ih =>
    have hx : x ≠ .hole id := fun hx => h (hx ▸ List.mem_cons_self)
    have ih' := ih (fun hmem => h (List.mem_cons_of_mem x hmem))
    unfold fill at ih' ⊢
    rw [List.flatMap_cons, if_neg hx, ih']
    rfl

theorem fill_hole (id : Nat) (bytes : Bytes) : fill id bytes [.hole id] = syms bytes := by
  unfold fill
  rw [List.flatMap_cons, if_pos rfl, List.flatMap_nil, List.append_nil]

theorem fill_drop {id : Nat} (bytes : Bytes) {k : Nat} {stream : List Sym}
    (hk : k ≤ stream.length) (h : Sym.hole id ∉ stream.take k) :
    (fill id bytes stream).drop k = fill id bytes (stream.drop k) := by
  conv_lhs => rw [← List.take_append_drop k stream]
  rw [fill_append, fill_of_notMem bytes h, List.drop_left']
  rw [List.length_take]
  exact Nat.min_eq_left hk

theorem SentBytes.take {s : State} (h : SentBytes s) (id : Nat) :
    Sym.hole id ∉ (syms s.buf ++ listSyms s s.reply).take s.sentlen := by
  rcases h with hle | ⟨hbuf, n, rest, hreply, hset, hlt⟩
  · rw [List.take_append_of_le_length (by rw [length_syms]; exact hle)]
    exact fun hmem => hole_notMem_syms id s.buf (List.mem_of_mem_take hmem)
  · rw [hbuf, syms_nil, List.nil_append, hreply, listSyms_cons, nodeSyms_set hset,
      List.take_append_of_le_length (by rw [length_syms]; exact Nat.le_of_lt hlt)]
    exact fun hmem => hole_notMem_syms id _ (List.mem_of_mem_take hmem)

theorem hole_mem_pending {s : State} (h : SentBytes s) {id : Nat} :
    Sym.hole id ∈ pending s ↔ ∃ n ∈ s.reply, n.id = id ∧ content s n.value = .raw none := by
  have hall : Sym.hole id ∈ pending s ↔ Sym.hole id ∈ syms s.buf ++ listSyms s s.reply := by
    refine ⟨List.mem_of_mem_drop, fun hmem => ?_⟩
    rw [← List.take_append_drop s.sentlen (syms s.buf ++ listSyms s s.reply)] at hmem
    exact (List.mem_append.mp hmem).resolve_left (h.take id)
  rw [hall, List.mem_append]
  constructor
  · rintro (hmem | hmem)
    · exact absurd hmem (hole_notMem_syms id s.buf)
    · obtain ⟨n, hn, hsym⟩ := List.mem_flatMap.mp hmem
      by_cases hnone : content s n.value = .raw none
      · rw [nodeSyms_hole hnone, List.mem_singleton, Sym.hole.injEq] at hsym
        exact ⟨n, hn, hsym.symm, hnone⟩
      · rw [nodeSyms_set hnone] at hsym
        exact absurd hsym (hole_notMem_syms id _)
  · rintro ⟨n, hn, rfl, hnone⟩
    refine Or.inr (List.mem_flatMap.mpr ⟨n, hn, ?_⟩)
    rw [nodeSyms_hole hnone]
    exact List.mem_singleton.mpr rfl

/-! ## Deferred lengths -/

theorem addDeferred_spec {w : World} {s : State} (h : Inv w s) :
    Inv w (addDeferredMultiBulkLength w s).1 ∧
      pending (addDeferredMultiBulkLength w s).1 = pending s ++ [.hole s.nextNode] ∧
      (addDeferredMultiBulkLength w s).1.written = s.written := by
  have hwf := h.wf
  obtain ⟨s', hs'⟩ : ∃ s' : State, s' = { createObject s (.raw none) with
      reply := s.reply ++ [{ id := s.nextNode, value := s.nextObj }]
      nextNode := s.nextNode + 1 } := ⟨_, rfl⟩
  have hresult : (addDeferredMultiBulkLength w s).1 = s' := by
    rw [addDeferredMultiBulkLength, if_pos hwf.prepare, hs']
  have hreply : s'.reply = s.reply ++ [{ id := s.nextNode, value := s.nextObj }] := by rw [hs']
  have hcontent : ∀ o, content s' o = if o = s.nextObj then .raw none else content s o := by
    intro o
    rw [hs']
    exact content_createObject s (.raw none) o
  have hrefcount : ∀ o, refcount s' o = if o = s.nextObj then 1 else refcount s o := by
    intro o
    rw [hs']
    exact refcount_createObject s (.raw none) o
  have hheld : ∀ o, held s' o = held s o + if o = s.nextObj then 1 else 0 := by
    intro o
    exact held_append hreply o
  have hnodes : ∀ n ∈ s.reply, content s' n.value = content s n.value := by
    intro n hn
    rw [hcontent, if_neg (hwf.mem_ne_fresh hn)]
  have hiff : ∀ o, HeldElsewhere s' o → HeldElsewhere s o ∧ o ≠ s.nextObj := by
    intro o ho
    unfold HeldElsewhere at ho
    rw [hheld, hrefcount] at ho
    by_cases heq : o = s.nextObj
    · rw [if_pos heq, if_pos heq] at ho
      omega
    · rw [if_neg heq, if_neg heq] at ho
      exact ⟨ho, heq⟩
  rw [hresult]
  refine ⟨⟨⟨by rw [hs']; exact hwf.ready, ?_, ?_, ?_, ?_, ?_, ?_, ?_, ?_, ?_⟩, ?_⟩, ?_, by rw [hs']; rfl⟩
  · intro o
    have hcount := hwf.counts o
    rw [hheld, hrefcount]
    split
    · rename_i heq
      rw [heq, hwf.held_fresh]
    · exact hcount
  · intro o hge
    have hge' : s.nextObj + 1 ≤ o := by rw [hs'] at hge; exact hge
    rw [hrefcount, if_neg (by omega)]
    exact hwf.fresh o (by omega)
  · rw [hreply]
    exact hwf.distinct_append _
  · intro n hn
    have hnode : s'.nextNode = s.nextNode + 1 := by rw [hs']
    rw [hnode]
    rw [hreply] at hn
    rcases List.mem_append.mp hn with hn | hn
    · exact Nat.lt_succ_of_lt (hwf.nodeIds n hn)
    · rw [List.mem_singleton.mp hn]
      exact Nat.lt_succ_self _
  · intro n hn hnone
    rw [hreply] at hn
    rcases List.mem_append.mp hn with hn | hn
    · rw [hnodes n hn] at hnone
      rw [hrefcount, if_neg (hwf.mem_ne_fresh hn)]
      exact hwf.places n hn hnone
    · rw [List.mem_singleton.mp hn, hrefcount]
      exact if_pos rfl
  · intro o ho
    obtain ⟨h1, h2⟩ := hiff o ho
    rw [hcontent, if_neg h2]
    exact hwf.strings o h1
  · rcases hwf.sent with hle | ⟨hbuf, n, rest, hcons, hn, hlt⟩
    · exact Or.inl (by rw [hs']; exact hle)
    · have hmem : n ∈ s.reply := hcons ▸ List.mem_cons_self
      refine Or.inr ⟨by rw [hs']; exact hbuf, n, rest ++ [{ id := s.nextNode, value := s.nextObj }],
        ?_, ?_, ?_⟩
      · rw [hreply, hcons, List.cons_append]
      · rw [hnodes n hmem]
        exact hn
      · rw [hnodes n hmem, hs']
        exact hlt
  · rw [hs']
    exact Nat.le_succ_of_le hwf.sharedEnd_le
  · intro o ho
    obtain ⟨h1, h2⟩ := hwf.shared o ho
    have hne : o ≠ s.nextObj := Nat.ne_of_lt (h1.lt_next hwf)
    refine ⟨?_, by rw [hcontent, if_neg hne]; exact h2⟩
    unfold HeldElsewhere at h1 ⊢
    rw [hheld, hrefcount, if_neg hne, if_neg hne]
    exact h1
  · have hbytes : s'.reply_bytes = s.reply_bytes := by rw [hs']; rfl
    have hnew : listMemory w s' [{ id := s.nextNode, value := s.nextObj }] = 0 := by
      rw [listMemory_cons, hcontent, if_pos rfl]
      rfl
    rw [hbytes, h.memory, hreply, listMemory_append, listMemory_congr hnodes, hnew, Int.add_zero]
  · refine pending_append hwf.sent (by rw [hs']; rfl) ?_
    have hbuf : s'.buf = s.buf := by rw [hs']; rfl
    have hnew : nodeSyms s' { id := s.nextNode, value := s.nextObj } = [.hole s.nextNode] :=
      nodeSyms_hole (by rw [hcontent]; exact if_pos rfl)
    rw [hbuf, hreply, listSyms_append, listSyms_congr hnodes, listSyms_cons, listSyms_nil,
      List.append_nil, hnew, List.append_assoc]

theorem span_place {nodes before rest : List ReplyNode} {ln : ReplyNode}
    (hsplit : nodes = before ++ ln :: rest) (hdistinct : (nodes.map ReplyNode.id).Nodup) :
    nodes.span (fun n => n.id ≠ ln.id) = (before, ln :: rest) := by
  have hbefore : ∀ n ∈ before, decide (n.id ≠ ln.id) = true := by
    intro n hn
    rw [hsplit, List.map_append, List.map_cons, List.nodup_append] at hdistinct
    have h := hdistinct.2.2 n.id (List.mem_map_of_mem hn) ln.id List.mem_cons_self
    exact decide_eq_true h
  rw [List.span_eq_takeWhile_dropWhile, hsplit, List.takeWhile_append_of_pos hbefore,
    List.dropWhile_append_of_pos hbefore]
  simp

theorem place_alone {w : World} {s : State} (hwf : Wf w s) {before rest : List ReplyNode} {ln : ReplyNode}
    (hsplit : s.reply = before ++ ln :: rest) (hone : refcount s ln.value = 1) :
    (∀ n ∈ before, n.value ≠ ln.value) ∧ ∀ n ∈ rest, n.value ≠ ln.value := by
  have hcount := hwf.counts ln.value
  unfold held at hcount
  rw [hsplit, List.map_append, List.map_cons, List.count_append, List.count_cons_self, hone] at hcount
  refine ⟨fun n hn heq => ?_, fun n hn heq => ?_⟩
  · have hpos : 0 < (before.map ReplyNode.value).count ln.value :=
      List.count_pos_iff.mpr (heq ▸ List.mem_map_of_mem hn)
    omega
  · have hpos : 0 < (rest.map ReplyNode.value).count ln.value :=
      List.count_pos_iff.mpr (heq ▸ List.mem_map_of_mem hn)
    omega

theorem setPlace_spec {w : World} {s : State} (h : Inv w s) {before rest : List ReplyNode}
    {ln : ReplyNode} (len : Sds) (hsplit : s.reply = before ++ ln :: rest)
    (hnone : content s ln.value = .raw none) :
    Inv w { setContent s ln.value (.raw (some len)) with
        reply_bytes := s.reply_bytes + zmalloc_size_sds w len } ∧
      pending { setContent s ln.value (.raw (some len)) with
        reply_bytes := s.reply_bytes + zmalloc_size_sds w len } = fill ln.id len.buf (pending s) := by
  have hwf := h.wf
  have hmem : ln ∈ s.reply := hsplit ▸ List.mem_append_right _ List.mem_cons_self
  have hone := hwf.places ln hmem hnone
  obtain ⟨hbefore, hrest⟩ := place_alone hwf hsplit hone
  obtain ⟨s', hs'⟩ : ∃ s' : State, s' = { setContent s ln.value (.raw (some len)) with
      reply_bytes := s.reply_bytes + zmalloc_size_sds w len } := ⟨_, rfl⟩
  rw [← hs']
  have hcontent : ∀ o, content s' o = if o = ln.value then .raw (some len) else content s o := by
    intro o
    rw [hs']
    exact content_setContent s ln.value o _
  have hrefcount : ∀ o, refcount s' o = refcount s o := by
    intro o
    rw [hs']
    exact refcount_setContent s ln.value o _
  have hheld : ∀ o, held s' o = held s o := by
    intro o
    rw [hs']
    rfl
  have hreply : s'.reply = s.reply := by rw [hs']; rfl
  have hbuf : s'.buf = s.buf := by rw [hs']; rfl
  have hlen : s'.sentlen = s.sentlen := by rw [hs']; rfl
  have hcb : ∀ n ∈ before, content s' n.value = content s n.value := by
    intro n hn
    rw [hcontent, if_neg (hbefore n hn)]
  have hcr : ∀ n ∈ rest, content s' n.value = content s n.value := by
    intro n hn
    rw [hcontent, if_neg (hrest n hn)]
  have hiff : ∀ o, HeldElsewhere s' o ↔ HeldElsewhere s o := by
    intro o
    unfold HeldElsewhere
    rw [hheld, hrefcount]
  have hnotheld := fun o => HeldElsewhere.ne_value (o := o) hmem hone
  -- No other node has this place.
  have hholes : ∀ n ∈ before ++ rest, Sym.hole ln.id ∉ nodeSyms s n := by
    intro n hn hsym
    by_cases hn0 : content s n.value = .raw none
    · rw [nodeSyms_hole hn0, List.mem_singleton, Sym.hole.injEq] at hsym
      have hd := hwf.distinct
      rw [hsplit, List.map_append, List.map_cons] at hd
      have hd' := (List.nodup_middle.mp hd)
      rw [List.nodup_cons] at hd'
      refine hd'.1 ?_
      rw [hsym, ← List.map_append]
      exact List.mem_map_of_mem hn
    · rw [nodeSyms_set hn0] at hsym
      exact hole_notMem_syms ln.id _ hsym
  have hfillb : fill ln.id len.buf (listSyms s before) = listSyms s before := by
    refine fill_of_notMem _ fun hsym => ?_
    obtain ⟨n, hn, hsym⟩ := List.mem_flatMap.mp hsym
    exact hholes n (List.mem_append_left _ hn) hsym
  have hfillr : fill ln.id len.buf (listSyms s rest) = listSyms s rest := by
    refine fill_of_notMem _ fun hsym => ?_
    obtain ⟨n, hn, hsym⟩ := List.mem_flatMap.mp hsym
    exact hholes n (List.mem_append_right _ hn) hsym
  have hnode : nodeSyms s' ln = syms len.buf := by
    rw [nodeSyms_set, hcontent, if_pos rfl]
    · rfl
    · rw [hcontent, if_pos rfl]
      exact fun hc => by cases hc
  refine ⟨⟨⟨by rw [hs']; exact hwf.ready, ?_, ?_, ?_, ?_, ?_, ?_, ?_, ?_, ?_⟩, ?_⟩, ?_⟩
  · intro o
    rw [hheld, hrefcount]
    exact hwf.counts o
  · intro o hge
    rw [hrefcount]
    rw [hs'] at hge
    exact hwf.fresh o hge
  · rw [hreply]
    exact hwf.distinct
  · intro n hn
    rw [hreply] at hn
    have hnode : s'.nextNode = s.nextNode := by rw [hs']; rfl
    rw [hnode]
    exact hwf.nodeIds n hn
  · intro n hn hn0
    rw [hreply] at hn
    rw [hrefcount]
    rw [hcontent] at hn0
    split at hn0
    · cases hn0
    · exact hwf.places n hn hn0
  · intro o ho
    have ho' := (hiff o).mp ho
    rw [hcontent, if_neg (hnotheld o ho')]
    exact hwf.strings o ho'
  · rcases hwf.sent with hle | ⟨hempty, n, tail, hcons, hn, hlt⟩
    · exact Or.inl (by rw [hbuf, hlen]; exact hle)
    · have hne : n.value ≠ ln.value := by
        cases before with
        | nil =>
          rw [hsplit, List.nil_append, List.cons.injEq] at hcons
          rw [← hcons.1] at hn
          exact absurd hnone hn
        | cons m before =>
          rw [hsplit, List.cons_append, List.cons.injEq] at hcons
          rw [← hcons.1]
          exact hbefore m List.mem_cons_self
      refine Or.inr ⟨hbuf.trans hempty, n, tail, hreply.trans hcons, ?_, ?_⟩
      · rw [hcontent, if_neg hne]
        exact hn
      · rw [hcontent, if_neg hne, hlen]
        exact hlt
  · rw [hs']
    exact hwf.sharedEnd_le
  · intro o ho
    obtain ⟨h1, h2⟩ := hwf.shared o ho
    refine ⟨(hiff o).mpr h1, ?_⟩
    rw [hcontent, if_neg (hnotheld o h1)]
    exact h2
  · have hbytes : s'.reply_bytes = s.reply_bytes + zmalloc_size_sds w len := by rw [hs']
    rw [hbytes, h.memory, hreply, hsplit, listMemory_append, listMemory_append, listMemory_cons,
      listMemory_cons, listMemory_congr hcb, listMemory_congr hcr, hnone, hcontent, if_pos rfl]
    simp only [getStringObjectSdsUsedMemory]
    omega
  · have htotal : syms s'.buf ++ listSyms s' s'.reply =
        fill ln.id len.buf (syms s.buf ++ listSyms s s.reply) := by
      rw [hbuf, hreply, hsplit, listSyms_append, listSyms_append, listSyms_cons, listSyms_cons,
        fill_append, fill_append, fill_append, fill_of_notMem _ (hole_notMem_syms ln.id s.buf), hfillb,
        hfillr, listSyms_congr hcb, listSyms_congr hcr, hnode, nodeSyms_hole hnone, fill_hole]
    rw [pending, pending, hlen, htotal, fill_drop _ hwf.sent.le (hwf.sent.take ln.id)]

theorem glueNext_spec {w : World} {s : State} (h : Inv w s) {before after : List ReplyNode}
    {ln next : ReplyNode} (len : Sds) (hsplit : s.reply = before ++ ln :: next :: after)
    (hset : content s ln.value = .raw (some len)) (hone : refcount s ln.value = 1)
    (hhead : before = [] → s.sentlen ≤ s.buf.length) :
    Inv w (glueNext w s before ln next after len) ∧
      pending (glueNext w s before ln next after len) = pending s ∧
      (glueNext w s before ln next after len).written = s.written := by
  have hwf := h.wf
  unfold glueNext
  by_cases hnull : content s next.value = .raw none
  · rw [if_pos hnull]
    exact ⟨h, rfl, rfl⟩
  rw [if_neg hnull]
  have hmem : ln ∈ s.reply := hsplit ▸ List.mem_append_right _ List.mem_cons_self
  obtain ⟨hbefore, hrest⟩ := place_alone hwf hsplit hone
  have hnextne : next.value ≠ ln.value := hrest next List.mem_cons_self
  obtain ⟨len', hlen'⟩ : ∃ len', len' = sdscatlen len (sdsBytes (content s next.value)) := ⟨_, rfl⟩
  have hlenbuf : len'.buf = len.buf ++ sdsBytes (content s next.value) := by rw [hlen', sdscatlen_buf]
  dsimp only
  rw [← hlen']
  obtain ⟨s', hs'⟩ : ∃ s' : State, s' = decrRefCount { setContent s ln.value (.raw (some len')) with
      reply_bytes := s.reply_bytes - zmalloc_size_sds w len -
        getStringObjectSdsUsedMemory w (content s next.value) + zmalloc_size_sds w len'
      reply := before ++ ln :: after } next.value := ⟨_, rfl⟩
  rw [← hs']
  have hreply : s'.reply = before ++ ln :: after := by rw [hs']; rfl
  have hbuf : s'.buf = s.buf := by rw [hs']; rfl
  have hlen : s'.sentlen = s.sentlen := by rw [hs']; rfl
  have hcontent : ∀ o, content s' o = if o = ln.value then .raw (some len') else content s o := by
    intro o
    rw [hs']
    exact (content_decrRefCount _ _ _).trans (content_setContent s ln.value o _)
  have hrefcount : ∀ o, refcount s' o = if o = next.value then refcount s next.value - 1
      else refcount s o := by
    intro o
    rw [hs']
    refine (refcount_decrRefCount _ _ _).trans ?_
    show (if o = next.value then refcount (setContent s ln.value _) next.value - 1
      else refcount (setContent s ln.value _) o) = _
    rw [refcount_setContent, refcount_setContent]
  have hheld : ∀ o, held s o = held s' o + if o = next.value then 1 else 0 := by
    intro o
    unfold held
    rw [hreply, hsplit]
    simp only [List.map_append, List.map_cons, List.count_append, List.count_cons, beq_iff_eq]
    by_cases heq : next.value = o
    · rw [if_pos heq, if_pos heq.symm]
      omega
    · rw [if_neg heq, if_neg (Ne.symm heq)]
      omega
  have hiff := heldElsewhere_released hheld hrefcount
  have hnotheld := fun o => HeldElsewhere.ne_value (o := o) hmem hone
  have hcb : ∀ n ∈ before, content s' n.value = content s n.value := by
    intro n hn
    rw [hcontent, if_neg (hbefore n hn)]
  have hca : ∀ n ∈ after, content s' n.value = content s n.value := by
    intro n hn
    rw [hcontent, if_neg (hrest n (List.mem_cons_of_mem _ hn))]
  have hln : content s' ln.value = .raw (some len') := by rw [hcontent, if_pos rfl]
  have hnode : nodeSyms s' ln = syms len.buf ++ syms (sdsBytes (content s next.value)) := by
    rw [nodeSyms_set (by rw [hln]; exact fun hc => by cases hc), hln, sdsBytes, hlenbuf, syms_append]
  have hnodeOld : nodeSyms s ln = syms len.buf := by
    rw [nodeSyms_set (by rw [hset]; exact fun hc => by cases hc), hset]
    rfl
  have hids : (s'.reply.map ReplyNode.id).Sublist (s.reply.map ReplyNode.id) := by
    rw [hreply, hsplit]
    refine List.Sublist.map _ (List.Sublist.append (List.Sublist.refl _) ?_)
    exact List.Sublist.cons_cons _ (List.sublist_cons_self next after)
  have hkept : ∀ n ∈ s'.reply, n ∈ s.reply := by
    intro n hn
    rw [hreply] at hn
    rw [hsplit]
    rcases List.mem_append.mp hn with hn | hn
    · exact List.mem_append_left _ hn
    · rcases List.mem_cons.mp hn with hn | hn
      · exact List.mem_append_right _ (hn ▸ List.mem_cons_self)
      · exact List.mem_append_right _ (List.mem_cons_of_mem _ (List.mem_cons_of_mem _ hn))
  refine ⟨⟨⟨by rw [hs']; exact hwf.ready, ?_, ?_, ?_, ?_, ?_, ?_, ?_, ?_, ?_⟩, ?_⟩, ?_, by rw [hs']; rfl⟩
  · exact fun o => counts_released hheld hrefcount (hwf.counts o)
  · intro o hge
    have hge' : s.nextObj ≤ o := by rw [hs'] at hge; exact hge
    exact zero_released hrefcount (hwf.fresh o hge')
  · exact hids.nodup hwf.distinct
  · intro n hn
    have hnodeid : s'.nextNode = s.nextNode := by rw [hs']; rfl
    rw [hnodeid]
    exact hwf.nodeIds n (hkept n hn)
  · intro n hn hn0
    have hne : n.value ≠ ln.value := by
      intro heq
      rw [heq, hln] at hn0
      cases hn0
    rw [hcontent, if_neg hne] at hn0
    have hnn : n.value ≠ next.value := by
      intro heq
      rw [heq] at hn0
      exact hnull hn0
    rw [hrefcount, if_neg hnn]
    exact hwf.places n (hkept n hn) hn0
  · intro o ho
    have ho' := (hiff o).mp ho
    rw [hcontent, if_neg (hnotheld o ho')]
    exact hwf.strings o ho'
  · cases before with
    | nil => exact Or.inl (by rw [hbuf, hlen]; exact hhead rfl)
    | cons m before =>
      rcases hwf.sent with hle | ⟨hempty, n, tail, hcons, hn, hlt⟩
      · exact Or.inl (by rw [hbuf, hlen]; exact hle)
      · rw [hsplit, List.cons_append, List.cons.injEq] at hcons
        obtain ⟨rfl, -⟩ := hcons
        have hm := hcb m List.mem_cons_self
        refine Or.inr ⟨hbuf.trans hempty, m, _, hreply, ?_, ?_⟩
        · rw [hm]
          exact hn
        · rw [hm, hlen]
          exact hlt
  · rw [hs']
    exact hwf.sharedEnd_le
  · intro o ho
    obtain ⟨h1, h2⟩ := hwf.shared o ho
    refine ⟨(hiff o).mpr h1, ?_⟩
    rw [hcontent, if_neg (hnotheld o h1)]
    exact h2
  · have hbytes : s'.reply_bytes = s.reply_bytes - zmalloc_size_sds w len -
        getStringObjectSdsUsedMemory w (content s next.value) + zmalloc_size_sds w len' := by
      rw [hs']
      rfl
    have hold := h.memory
    rw [hsplit, listMemory_append, listMemory_cons, listMemory_cons, hset] at hold
    rw [hbytes, hold, hreply, listMemory_append, listMemory_cons, listMemory_congr hcb,
      listMemory_congr hca, hln]
    simp only [getStringObjectSdsUsedMemory]
    omega
  · have htotal : syms s'.buf ++ listSyms s' s'.reply = syms s.buf ++ listSyms s s.reply := by
      rw [hbuf, hreply, hsplit, listSyms_append, listSyms_append, listSyms_cons, listSyms_cons,
        listSyms_cons, listSyms_congr hcb, listSyms_congr hca, hnode, hnodeOld, nodeSyms_set hnull,
        List.append_assoc (syms len.buf)]
    rw [pending, pending, hlen, htotal]

theorem setDeferred_spec {w : World} {s : State} (h : Inv w s) {id : Nat} (length : Int)
    (hplace : Sym.hole id ∈ pending s) :
    Inv w (setDeferredMultiBulkLength w s (some id) length) ∧
      pending (setDeferredMultiBulkLength w s (some id) length) =
        fill id (multiBulkLength length) (pending s) ∧
      (setDeferredMultiBulkLength w s (some id) length).written = s.written := by
  have hwf := h.wf
  obtain ⟨ln, hmem, rfl, hnone⟩ := (hole_mem_pending hwf.sent).mp hplace
  obtain ⟨before, rest, hsplit⟩ := List.append_of_mem hmem
  have hone := hwf.places ln hmem hnone
  have hspan := span_place hsplit hwf.distinct
  have hset := setPlace_spec h (sdscatlen (sdsnewlen []) (multiBulkLength length)) hsplit hnone
  have hbytes : (sdscatlen (sdsnewlen []) (multiBulkLength length)).buf = multiBulkLength length := by
    rw [sdscatlen_buf]
    rfl
  rw [hbytes] at hset
  unfold setDeferredMultiBulkLength
  simp only [hspan]
  cases rest with
  | nil => exact ⟨hset.1, hset.2, rfl⟩
  | cons next after =>
    have hhead : before = [] → s.sentlen ≤ s.buf.length := by
      intro hnil
      rcases hwf.sent with hle | ⟨-, n, tail, hcons, hn, -⟩
      · exact hle
      · rw [hsplit, hnil, List.nil_append, List.cons.injEq] at hcons
        rw [← hcons.1] at hn
        exact absurd hnone hn
    obtain ⟨h1, h2, h3⟩ := glueNext_spec hset.1 (sdscatlen (sdsnewlen []) (multiBulkLength length))
      hsplit ((content_setContent s ln.value ln.value _).trans (if_pos rfl))
      ((refcount_setContent s ln.value ln.value _).trans hone) hhead
    exact ⟨h1, h2.trans hset.2, h3⟩

/-! ## Writing -/

def AllSet (s : State) : Prop := ∀ n ∈ s.reply, content s n.value ≠ .raw none

/-- Bytes go from what is pending to what is written. -/
structure Sends (w : World) (s s' : State) : Prop where
  inv : Inv w s'
  stream : syms s'.written ++ pending s' = syms s.written ++ pending s
  set : AllSet s'

theorem Sends.trans {w : World} {s s' s'' : State} (h : Sends w s s') (h' : Sends w s' s'') :
    Sends w s s'' where
  inv := h'.inv
  stream := h'.stream.trans h.stream
  set := h'.set

theorem Sends.refl {w : World} {s : State} (h : Inv w s) (hset : AllSet s) : Sends w s s :=
  ⟨h, rfl, hset⟩

theorem delFirst_inv {w : World} {s : State} (h : Inv w s) (hset : AllSet s) {ln : ReplyNode}
    {rest : List ReplyNode} (hreply : s.reply = ln :: rest) (written : Bytes) :
    Inv w { delFirst w s ln rest with sentlen := 0, written := written } ∧
      AllSet { delFirst w s ln rest with sentlen := 0, written := written } ∧
      listSyms { delFirst w s ln rest with sentlen := 0, written := written } rest = listSyms s rest := by
  have hwf := h.wf
  obtain ⟨s', hs'⟩ : ∃ s' : State, s' = { delFirst w s ln rest with sentlen := 0, written := written } :=
    ⟨_, rfl⟩
  rw [← hs']
  have hreply' : s'.reply = rest := by rw [hs']; rfl
  have hcontent : ∀ o, content s' o = content s o := by
    intro o
    rw [hs']
    exact content_decrRefCount _ _ _
  have hrefcount : ∀ o, refcount s' o = if o = ln.value then refcount s ln.value - 1
      else refcount s o := by
    intro o
    rw [hs']
    exact refcount_decrRefCount _ _ _
  have hheld : ∀ o, held s o = held s' o + if o = ln.value then 1 else 0 := by
    intro o
    unfold held
    rw [hreply, hreply', List.map_cons, List.count_cons]
    simp only [beq_iff_eq]
    congr 1
    by_cases heq : o = ln.value
    · rw [if_pos heq, if_pos heq.symm]
    · rw [if_neg heq, if_neg (Ne.symm heq)]
  have hiff := heldElsewhere_released hheld hrefcount
  have hmem : ∀ n ∈ rest, n ∈ s.reply := fun n hn => hreply ▸ List.mem_cons_of_mem _ hn
  have hset' : ∀ n ∈ rest, content s' n.value ≠ .raw none := by
    intro n hn
    rw [hcontent]
    exact hset n (hmem n hn)
  refine ⟨⟨⟨by rw [hs']; exact hwf.ready, ?_, ?_, ?_, ?_, ?_, ?_, ?_, ?_, ?_⟩, ?_⟩, ?_, ?_⟩
  · exact fun o => counts_released hheld hrefcount (hwf.counts o)
  · intro o hge
    have hge' : s.nextObj ≤ o := by rw [hs'] at hge; exact hge
    exact zero_released hrefcount (hwf.fresh o hge')
  · have hd := hwf.distinct
    rw [hreply, List.map_cons, List.nodup_cons] at hd
    rw [hreply']
    exact hd.2
  · intro n hn
    rw [hreply'] at hn
    have hnode : s'.nextNode = s.nextNode := by rw [hs']; rfl
    rw [hnode]
    exact hwf.nodeIds n (hmem n hn)
  · intro n hn hnone
    rw [hreply'] at hn
    exact absurd hnone (hset' n hn)
  · intro o ho
    rw [hcontent]
    exact hwf.strings o ((hiff o).mp ho)
  · refine Or.inl ?_
    rw [hs']
    exact Nat.zero_le _
  · rw [hs']
    exact hwf.sharedEnd_le
  · intro o ho
    obtain ⟨h1, h2⟩ := hwf.shared o ho
    exact ⟨(hiff o).mpr h1, (hcontent o).trans h2⟩
  · have hbytes : s'.reply_bytes =
        s.reply_bytes - getStringObjectSdsUsedMemory w (content s ln.value) := by
      rw [hs']
      rfl
    have hold := h.memory
    rw [hreply, listMemory_cons] at hold
    rw [hbytes, hold, hreply', listMemory_congr fun n _ => hcontent n.value]
    omega
  · intro n hn
    rw [hreply'] at hn
    exact hset' n hn
  · exact listSyms_congr fun n _ => hcontent n.value

theorem dropEmpty_sends {w : World} (nodes : List ReplyNode) {s : State} (h : Inv w s) (hset : AllSet s)
    (hbuf : s.buf = []) (hreply : s.reply = nodes) : Sends w s (dropEmpty w nodes s) := by
  induction nodes generalizing s with
  | nil => exact Sends.refl h hset
  | cons ln rest ih =>
    rw [dropEmpty]
    split
    · rename_i hempty
      have hzero : s.sentlen = 0 := by
        rcases h.wf.sent with hle | ⟨-, n, tail, hcons, -, hlt⟩
        · rw [hbuf] at hle
          exact Nat.le_zero.mp hle
        · rw [hreply, List.cons.injEq] at hcons
          rw [← hcons.1, hempty] at hlt
          cases hlt
      have hsame : ({ delFirst w s ln rest with sentlen := 0, written := s.written } : State) =
          delFirst w s ln rest := by
        rw [← hzero]
        rfl
      obtain ⟨hinv, hset', hsyms⟩ := delFirst_inv h hset hreply s.written
      rw [hsame] at hinv hset' hsyms
      have hfirst : Sends w s (delFirst w s ln rest) := by
        refine ⟨hinv, ?_, hset'⟩
        have hln := hset ln (hreply ▸ List.mem_cons_self)
        have hpending : pending (delFirst w s ln rest) = pending s := by
          show (syms s.buf ++ listSyms (delFirst w s ln rest) rest).drop s.sentlen = _
          rw [pending, hsyms, hreply, listSyms_cons, nodeSyms_set hln, hempty, syms_nil, List.nil_append]
        rw [hpending]
        rfl
      exact hfirst.trans (ih hinv hset' hbuf rfl)
    · exact Sends.refl h hset

theorem writeOnce_sends {w : World} {s s' : State} {accepts : Nat} (h : Inv w s) (hset : AllSet s)
    (hwrite : writeOnce w s accepts = some s') : Sends w s s' := by
  have hwf := h.wf
  unfold writeOnce at hwrite
  by_cases hbuf : s.buf ≠ []
  · -- The static buffer.
    have hle : s.sentlen ≤ s.buf.length := by
      rcases hwf.sent with hle | ⟨hempty, -⟩
      · exact hle
      · exact absurd hempty hbuf
    rw [if_pos hbuf] at hwrite
    dsimp only at hwrite
    obtain ⟨out, hout⟩ : ∃ out, out = (s.buf.drop s.sentlen).take accepts := ⟨_, rfl⟩
    rw [← hout] at hwrite
    have hprefix : out ++ (s.buf.drop s.sentlen).drop out.length = s.buf.drop s.sentlen := by
      rw [hout]
      exact List.prefix_iff_eq_append.mp (List.take_prefix _ _)
    have houtlen : s.sentlen + out.length ≤ s.buf.length := by
      have h1 := congrArg List.length hprefix
      rw [List.length_append, List.length_drop, List.length_drop] at h1
      omega
    have hpending : pending s = syms out ++ (syms (s.buf.drop (s.sentlen + out.length)) ++
        listSyms s s.reply) := by
      rw [pending, List.drop_append_of_le_length (by rw [length_syms]; exact hle)]
      have h1 : (syms s.buf).drop s.sentlen = syms (s.buf.drop s.sentlen) := List.map_drop.symm
      rw [h1, ← hprefix, List.drop_drop, syms_append, List.append_assoc]
    split at hwrite
    · cases hwrite
    · split at hwrite
      · rename_i hall
        cases hwrite
        refine ⟨⟨⟨hwf.ready, hwf.counts, hwf.fresh, hwf.distinct, hwf.nodeIds, hwf.places, hwf.strings,
          Or.inl (Nat.zero_le _), hwf.sharedEnd_le, hwf.shared⟩, h.memory⟩, ?_, hset⟩
        show syms (s.written ++ out) ++ (syms [] ++ listSyms s s.reply).drop 0 = _
        rw [hpending, hall, List.drop_length, syms_append, List.drop_zero, List.append_assoc]
      · cases hwrite
        refine ⟨⟨⟨hwf.ready, hwf.counts, hwf.fresh, hwf.distinct, hwf.nodeIds, hwf.places, hwf.strings,
          Or.inl houtlen, hwf.sharedEnd_le, hwf.shared⟩, h.memory⟩, ?_, hset⟩
        show syms (s.written ++ out) ++ (syms s.buf ++ listSyms s s.reply).drop (s.sentlen + out.length)
          = _
        have h1 : (syms s.buf).drop (s.sentlen + out.length) =
            syms (s.buf.drop (s.sentlen + out.length)) := List.map_drop.symm
        rw [hpending, List.drop_append_of_le_length (by rw [length_syms]; exact houtlen), h1, syms_append,
          List.append_assoc]
  · -- The first node of the list.
    rw [if_neg hbuf] at hwrite
    have hempty : s.buf = [] := not_not.mp hbuf
    split at hwrite
    · cases hwrite
    · rename_i ln rest hreply
      dsimp only at hwrite
      have hln := hset ln (hreply ▸ List.mem_cons_self)
      obtain ⟨bytes, hbytes⟩ : ∃ bytes, bytes = sdsBytes (content s ln.value) := ⟨_, rfl⟩
      have hle : s.sentlen ≤ bytes.length := by
        rcases hwf.sent with hle | ⟨-, n, tail, hcons, -, hlt⟩
        · rw [hempty] at hle
          exact Nat.le_trans hle (Nat.zero_le _)
        · rw [hreply, List.cons.injEq] at hcons
          rw [hbytes, hcons.1]
          exact Nat.le_of_lt hlt
      obtain ⟨out, hout⟩ : ∃ out, out = (bytes.drop s.sentlen).take accepts := ⟨_, rfl⟩
      rw [← hbytes, ← hout] at hwrite
      have hprefix : out ++ (bytes.drop s.sentlen).drop out.length = bytes.drop s.sentlen := by
        rw [hout]
        exact List.prefix_iff_eq_append.mp (List.take_prefix _ _)
      have houtlen : s.sentlen + out.length ≤ bytes.length := by
        have h1 := congrArg List.length hprefix
        rw [List.length_append, List.length_drop, List.length_drop] at h1
        omega
      have hpending : pending s = syms out ++ (syms (bytes.drop (s.sentlen + out.length)) ++
          listSyms s rest) := by
        rw [pending, hempty, syms_nil, List.nil_append, hreply, listSyms_cons, nodeSyms_set hln, ← hbytes,
          List.drop_append_of_le_length (by rw [length_syms]; exact hle)]
        have h1 : (syms bytes).drop s.sentlen = syms (bytes.drop s.sentlen) := List.map_drop.symm
        rw [h1, ← hprefix, List.drop_drop, syms_append, List.append_assoc]
      split at hwrite
      · cases hwrite
      · rename_i hne
        split at hwrite
        · rename_i hall
          cases hwrite
          obtain ⟨hinv, hset', hsyms⟩ := delFirst_inv h hset hreply (s.written ++ out)
          refine ⟨hinv, ?_, hset'⟩
          show syms (s.written ++ out) ++ (syms s.buf ++ listSyms _ rest).drop 0 = _
          rw [hsyms, hpending, hall, List.drop_length, syms_append, hempty, List.drop_zero,
            List.append_assoc]
        · rename_i hnotall
          cases hwrite
          refine ⟨⟨⟨hwf.ready, hwf.counts, hwf.fresh, hwf.distinct, hwf.nodeIds, hwf.places, hwf.strings,
            ?_, hwf.sharedEnd_le, hwf.shared⟩, h.memory⟩, ?_, hset⟩
          · refine Or.inr ⟨hempty, ln, rest, hreply, hln, ?_⟩
            show s.sentlen + out.length < (sdsBytes (content s ln.value)).length
            rw [← hbytes]
            omega
          · show syms (s.written ++ out) ++
              (syms s.buf ++ listSyms s s.reply).drop (s.sentlen + out.length) = _
            have h1 : (syms bytes).drop (s.sentlen + out.length) =
                syms (bytes.drop (s.sentlen + out.length)) := List.map_drop.symm
            rw [hpending, hempty, syms_nil, List.nil_append, hreply, listSyms_cons, nodeSyms_set hln,
              ← hbytes, List.drop_append_of_le_length (by rw [length_syms]; exact houtlen), h1, syms_append,
              List.append_assoc]

theorem writeLoop_sends {w : World} (writes : List (Nat × Bool)) (totwritten : Nat) {s : State}
    (h : Inv w s) (hset : AllSet s) : Sends w s (writeLoop w writes totwritten s) := by
  have hdrop : ∀ {s : State}, Inv w s → AllSet s →
      Sends w s (if s.buf = [] then dropEmpty w s.reply s else s) := by
    intro s h hset
    split
    · rename_i hbuf
      exact dropEmpty_sends s.reply h hset hbuf rfl
    · exact Sends.refl h hset
  induction writes generalizing totwritten s with
  | nil => exact hdrop h hset
  | cons write more ih =>
    obtain ⟨accepts, mayEnd⟩ := write
    have hfirst := hdrop h hset
    rw [writeLoop]
    dsimp only
    generalize (if s.buf = [] then dropEmpty w s.reply s else s) = t at hfirst
    cases hwrite : writeOnce w t accepts with
    | none => exact hfirst
    | some s' =>
      have hsecond := hfirst.trans (writeOnce_sends hfirst.inv hfirst.set hwrite)
      dsimp only
      split
      · exact hsecond
      · exact hsecond.trans (ih _ hsecond.inv hsecond.set)

theorem sendReplyToClient_sends {w : World} {s : State} (writes : List (Nat × Bool)) (h : Inv w s)
    (hset : AllSet s) : Sends w s (sendReplyToClient w s writes) := by
  have hloop := writeLoop_sends writes 0 h hset
  unfold sendReplyToClient
  dsimp only
  split
  · rename_i hdone
    obtain ⟨hbuf, hreply⟩ := hdone
    have hwf := hloop.inv.wf
    refine hloop.trans ⟨⟨⟨hwf.ready, hwf.counts, hwf.fresh, hwf.distinct, hwf.nodeIds, hwf.places,
      hwf.strings, Or.inl (Nat.zero_le _), hwf.sharedEnd_le, hwf.shared⟩, hloop.inv.memory⟩, ?_, hloop.set⟩
    have hnil : ∀ t : State, t.buf = [] → t.reply = [] → pending t = [] := by
      intro t h1 h2
      rw [pending, h1, h2]
      exact List.drop_nil
    have h1 := hnil (writeLoop w writes 0 s) hbuf hreply
    have h2 := hnil { writeLoop w writes 0 s with sentlen := 0 } hbuf hreply
    rw [h1, h2]
  · exact hloop

/-! ## Runs -/

/-- What holds after each event. -/
structure Streams (w : World) (r : Output) : Prop where
  inv : Inv w r.state
  stream : syms r.state.written ++ pending r.state = r.expected

theorem Streams.of_appends {w : World} {r : Output} {s' : State} {bs : List Sym} (h : Streams w r)
    (happ : Appends w r.state s' bs) : Streams w ⟨s', r.expected ++ bs⟩ where
  inv := happ.inv
  stream := by rw [happ.pending, happ.written, ← List.append_assoc, h.stream]

theorem Streams.hole_iff {w : World} {r : Output} (h : Streams w r) {id : Nat} :
    Sym.hole id ∈ r.expected ↔ Sym.hole id ∈ pending r.state := by
  rw [← h.stream, List.mem_append]
  exact ⟨fun hmem => hmem.resolve_left (hole_notMem_syms id _), Or.inr⟩

theorem step_streams (w : World) (r : Output) (e : Event) (h : Streams w r) (hok : Allowed r e) :
    Streams w (step w r e) := by
  have hinv := h.inv
  have hsame : ∀ s' : State, Inv w s' → pending s' = pending r.state → s'.written = r.state.written →
      Streams w ⟨s', r.expected⟩ := by
    intro s' h1 h2 h3
    refine ⟨h1, ?_⟩
    rw [h2, h3]
    exact h.stream
  cases e with
  | createObject c =>
    obtain ⟨h1, -, -⟩ := createObject_inv hinv hok
    refine hsame (createObject r.state c) h1 (pending_congr rfl rfl rfl fun n hn => ?_) rfl
    rw [content_createObject, if_neg (hinv.wf.mem_ne_fresh hn)]
  | incrRefCount o =>
    exact hsame _ (incrRefCount_inv hinv hok).1
      (pending_congr rfl rfl rfl fun n _ => content_incrRefCount _ o n.value) rfl
  | decrRefCount o =>
    exact hsame _ (decrRefCount_inv hinv hok.1 hok.2)
      (pending_congr rfl rfl rfl fun n _ => content_decrRefCount _ o n.value) rfl
  | setContent o c =>
    obtain ⟨hshared, -, hzero, hc⟩ := hok
    refine hsame (setContent r.state o c) (setContent_inv hinv hshared hzero hc)
      (pending_congr rfl rfl rfl fun n hn => ?_) rfl
    have hne : n.value ≠ o := by
      intro heq
      have hpos := held_of_mem hn
      rw [heq] at hpos
      omega
    rw [content_setContent, if_neg hne]
  | addReply o => exact h.of_appends (addReply_appends hinv hok)
  | addReplySds str => exact h.of_appends (addReplySds_appends hinv str)
  | addReplyString bytes => exact h.of_appends (addReplyString_appends hinv bytes)
  | addReplyBulk o => exact h.of_appends (addReplyBulk_appends hinv hok)
  | addReplyLongLong n => exact h.of_appends (addReplyLongLong_appends hinv n)
  | addDeferredMultiBulkLength =>
    obtain ⟨h1, h2, h3⟩ := addDeferred_spec hinv
    refine ⟨h1, ?_⟩
    show syms (addDeferredMultiBulkLength w r.state).1.written ++
      pending (addDeferredMultiBulkLength w r.state).1 = r.expected ++ _
    rw [h2, h3, ← List.append_assoc, h.stream]
  | setDeferredMultiBulkLength node length =>
    cases node with
    | none => exact hsame _ hinv rfl rfl
    | some id =>
      have hplace := h.hole_iff.mp hok
      obtain ⟨h1, h2, h3⟩ := setDeferred_spec hinv length hplace
      refine ⟨h1, ?_⟩
      show syms (setDeferredMultiBulkLength w r.state (some id) length).written ++
        pending (setDeferredMultiBulkLength w r.state (some id) length) = fill id _ r.expected
      rw [h2, h3, ← h.stream, fill_append, fill_of_notMem _ (hole_notMem_syms id _)]
  | sendReplyToClient writes =>
    have hset : AllSet r.state := by
      intro n hn hnone
      exact hok n.id (h.hole_iff.mpr ((hole_mem_pending hinv.wf.sent).mpr ⟨n, hn, rfl, hnone⟩))
    have hsend := sendReplyToClient_sends writes hinv hset
    exact ⟨hsend.inv, hsend.stream.trans h.stream⟩

theorem connected_streams {w : World} {flags : ClientFlags} {fd : Int} {replica_ready : Bool}
    (h : TakesReplies w flags fd) : Streams w (connected flags fd replica_ready) := by
  have hzero : ∀ o, held (connected flags fd replica_ready).state o = 0 := fun _ => rfl
  refine ⟨⟨⟨h, ?_, ?_, List.nodup_nil, ?_, ?_, ?_, Or.inl (Nat.zero_le _), Nat.le_refl _, ?_⟩, rfl⟩, rfl⟩
  · intro o
    rw [hzero]
    exact Nat.zero_le _
  · intro o hge
    have hnot : ¬ o < sharedEnd := Nat.not_lt.mpr hge
    show (createSharedObjects o).refcount = 0
    rw [createSharedObjects, if_neg hnot]
  · intro n hn
    cases hn
  · intro n hn
    cases hn
  · intro o ho
    unfold HeldElsewhere at ho
    show (createSharedObjects o).content ≠ _
    by_cases hlt : o < sharedEnd
    · rw [createSharedObjects, if_pos hlt]
      exact fun hc => by cases hc
    · have hcount : refcount (connected flags fd replica_ready).state o = 0 := by
        show (createSharedObjects o).refcount = 0
        rw [createSharedObjects, if_neg hlt]
      omega
  · intro o hlt
    refine ⟨?_, ?_⟩
    · unfold HeldElsewhere
      rw [hzero]
      show 0 < (createSharedObjects o).refcount
      rw [createSharedObjects, if_pos hlt]
      exact Nat.one_pos
    · show (createSharedObjects o).content = _
      rw [createSharedObjects, if_pos hlt]

/-- The reply stream: after every run of appends, deferred lengths and writes, the bytes written and
those still buffered are the replies in call order with each deferred length in its place, and
`reply_bytes` is the memory of the nodes of the list. -/
theorem reply_stream (w : World) (flags : ClientFlags) (fd : Int) (replica_ready : Bool)
    (h : TakesReplies w flags fd) (es : List Event)
    (hes : RunMeets (step w) Allowed (connected flags fd replica_ready) es) :
    syms (run (step w) (connected flags fd replica_ready) es).state.written ++
        pending (run (step w) (connected flags fd replica_ready) es).state =
      (run (step w) (connected flags fd replica_ready) es).expected ∧
    (run (step w) (connected flags fd replica_ready) es).state.reply_bytes =
      listMemory w (run (step w) (connected flags fd replica_ready) es).state
        (run (step w) (connected flags fd replica_ready) es).state.reply := by
  have hall := run_inv (P := Streams w) (step_streams w) (connected_streams h) hes
  exact ⟨hall.stream, hall.inv.memory⟩

def plainWorld : World where
  zmalloc_size size := size
  aeCreateFileEvent _ := true

def plainFlags : ClientFlags where
  master := false
  master_force_reply := false
  lua := false
  close_after_reply := false

def arrayRun : List Event :=
  [.addReplyString (ascii "+OK\r\n"), .addDeferredMultiBulkLength, .addReplyLongLong 1,
    .setDeferredMultiBulkLength (some 0) 1, .sendReplyToClient [(7, false), (100, false)]]

/-- The array comes out with its length in front. -/
theorem reply_stream_array :
    syms (run (step plainWorld) (connected plainFlags 5 true) arrayRun).state.written ++
        pending (run (step plainWorld) (connected plainFlags 5 true) arrayRun).state =
      (run (step plainWorld) (connected plainFlags 5 true) arrayRun).expected ∧
    (run (step plainWorld) (connected plainFlags 5 true) arrayRun).state.reply_bytes =
      listMemory plainWorld (run (step plainWorld) (connected plainFlags 5 true) arrayRun).state
        (run (step plainWorld) (connected plainFlags 5 true) arrayRun).state.reply := by
  have htakes : TakesReplies plainWorld plainFlags 5 := by
    refine ⟨rfl, ?_, by decide, rfl⟩
    intro h
    cases h
  refine reply_stream plainWorld plainFlags 5 true htakes arrayRun ?_
  refine ⟨trivial, trivial, trivial, ?_, ?_, trivial⟩
  · show Sym.hole 0 ∈ _
    decide
  · intro id hid
    refine hole_notMem_syms id (ascii "+OK\r\n*1\r\n:1\r\n") ?_
    exact hid

end RedisCluster.Replies
