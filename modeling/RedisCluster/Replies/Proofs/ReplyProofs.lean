import RedisCluster.Util.Proofs.StringProofs
import RedisCluster.Replies.Reply

/-!
# Replies: proofs

The reply list holds a reference for each of its nodes, only objects that nobody else holds are
changed in place, and `reply_bytes` is the memory of the nodes. Under this invariant each append adds
its text to the end of what is pending.
-/

namespace RedisCluster.Replies

open RedisCluster.Util
open RedisCluster.Lib

/-! ## Strings -/

@[simp] theorem sdsMakeRoomFor_buf (s : Sds) (addlen : Nat) : (sdsMakeRoomFor s addlen).buf = s.buf := by
  unfold sdsMakeRoomFor
  split
  · rfl
  · dsimp only
    split <;> rfl

@[simp] theorem sdscatlen_buf (s : Sds) (bytes : Bytes) : (sdscatlen s bytes).buf = s.buf ++ bytes := by
  simp [sdscatlen]

@[simp] theorem sdsBytes_stringContent (bytes : Bytes) : sdsBytes (stringContent bytes) = bytes := by
  unfold stringContent
  split <;> rfl

theorem stringContent_ne (bytes : Bytes) : stringContent bytes ≠ .raw none := by
  unfold stringContent
  split
  · exact fun h => by cases h
  · exact fun h => by cases h

@[simp] theorem syms_nil : syms [] = [] := rfl

@[simp] theorem syms_append (a b : Bytes) : syms (a ++ b) = syms a ++ syms b := List.map_append

@[simp] theorem length_syms (bytes : Bytes) : (syms bytes).length = bytes.length := List.length_map _

/-! ## The store -/

@[simp] theorem content_setContent (s : State) (o o' : Nat) (c : Content) :
    content (setContent s o c) o' = if o' = o then c else content s o' := by
  simp only [content, setContent, Function.update_apply]
  split <;> rfl

@[simp] theorem refcount_setContent (s : State) (o o' : Nat) (c : Content) :
    refcount (setContent s o c) o' = refcount s o' := by
  simp only [refcount, setContent, Function.update_apply]
  split
  · rename_i h
    rw [h]
  · rfl

@[simp] theorem content_incrRefCount (s : State) (o o' : Nat) :
    content (incrRefCount s o) o' = content s o' := by
  simp only [content, incrRefCount, Function.update_apply]
  split
  · rename_i h
    rw [h]
  · rfl

@[simp] theorem refcount_incrRefCount (s : State) (o o' : Nat) :
    refcount (incrRefCount s o) o' = if o' = o then refcount s o + 1 else refcount s o' := by
  simp only [refcount, incrRefCount, Function.update_apply]
  split <;> rfl

@[simp] theorem content_decrRefCount (s : State) (o o' : Nat) :
    content (decrRefCount s o) o' = content s o' := by
  simp only [content, decrRefCount, Function.update_apply]
  split
  · rename_i h
    rw [h]
  · rfl

@[simp] theorem refcount_decrRefCount (s : State) (o o' : Nat) :
    refcount (decrRefCount s o) o' = if o' = o then refcount s o - 1 else refcount s o' := by
  simp only [refcount, decrRefCount, Function.update_apply]
  split <;> rfl

@[simp] theorem content_createObject (s : State) (c : Content) (o' : Nat) :
    content (createObject s c) o' = if o' = s.nextObj then c else content s o' := by
  simp only [content, createObject, Function.update_apply]
  split <;> rfl

@[simp] theorem refcount_createObject (s : State) (c : Content) (o' : Nat) :
    refcount (createObject s c) o' = if o' = s.nextObj then 1 else refcount s o' := by
  simp only [refcount, createObject, Function.update_apply]
  split <;> rfl

@[simp] theorem held_incrRefCount (s : State) (o o' : Nat) : held (incrRefCount s o) o' = held s o' :=
  rfl

@[simp] theorem held_decrRefCount (s : State) (o o' : Nat) : held (decrRefCount s o) o' = held s o' :=
  rfl

@[simp] theorem held_createObject (s : State) (c : Content) (o' : Nat) :
    held (createObject s c) o' = held s o' := rfl

theorem held_of_mem {s : State} {n : ReplyNode} (hn : n ∈ s.reply) : 0 < held s n.value :=
  List.count_pos_iff.mpr (List.mem_map_of_mem hn)

/-! ## What the nodes hold -/

theorem nodeSyms_congr {s s' : State} {n : ReplyNode}
    (h : content s' n.value = content s n.value) : nodeSyms s' n = nodeSyms s n := by
  rw [nodeSyms, nodeSyms, h]

theorem listSyms_congr {s s' : State} {nodes : List ReplyNode}
    (h : ∀ n ∈ nodes, content s' n.value = content s n.value) : listSyms s' nodes = listSyms s nodes := by
  unfold listSyms
  exact List.flatMap_congr fun n hn => nodeSyms_congr (h n hn)

theorem listMemory_congr {w : World} {s s' : State} {nodes : List ReplyNode}
    (h : ∀ n ∈ nodes, content s' n.value = content s n.value) :
    listMemory w s' nodes = listMemory w s nodes := by
  unfold listMemory
  rw [List.map_congr_left fun n hn => by rw [h n hn]]

@[simp] theorem listSyms_nil (s : State) : listSyms s [] = [] := rfl

@[simp] theorem listSyms_cons (s : State) (n : ReplyNode) (nodes : List ReplyNode) :
    listSyms s (n :: nodes) = nodeSyms s n ++ listSyms s nodes := rfl

@[simp] theorem listSyms_append (s : State) (a b : List ReplyNode) :
    listSyms s (a ++ b) = listSyms s a ++ listSyms s b := List.flatMap_append

@[simp] theorem listMemory_nil (w : World) (s : State) : listMemory w s [] = 0 := rfl

@[simp] theorem listMemory_cons (w : World) (s : State) (n : ReplyNode) (nodes : List ReplyNode) :
    listMemory w s (n :: nodes) =
      getStringObjectSdsUsedMemory w (content s n.value) + listMemory w s nodes := rfl

@[simp] theorem listMemory_append (w : World) (s : State) (a b : List ReplyNode) :
    listMemory w s (a ++ b) = listMemory w s a + listMemory w s b := by
  simp [listMemory]

theorem nodeSyms_set {s : State} {n : ReplyNode} (h : content s n.value ≠ .raw none) :
    nodeSyms s n = syms (sdsBytes (content s n.value)) := by
  unfold nodeSyms
  split
  · contradiction
  · rfl

theorem nodeSyms_hole {s : State} {n : ReplyNode} (h : content s n.value = .raw none) :
    nodeSyms s n = [.hole n.id] := by
  rw [nodeSyms, h]

/-! ## The invariant -/

def SentBytes (s : State) : Prop :=
  s.sentlen ≤ s.buf.length ∨
    (s.buf = [] ∧ ∃ n rest, s.reply = n :: rest ∧ content s n.value ≠ .raw none ∧
      s.sentlen < (sdsBytes (content s n.value)).length)

/-- The list and the store agree. -/
structure Wf (w : World) (s : State) : Prop where
  ready : TakesReplies w s.flags s.fd
  counts : ∀ o, held s o ≤ refcount s o
  fresh : ∀ o, s.nextObj ≤ o → refcount s o = 0
  distinct : (s.reply.map ReplyNode.id).Nodup
  nodeIds : ∀ n ∈ s.reply, n.id < s.nextNode
  /-- Nobody else holds a node whose length is still to come. -/
  places : ∀ n ∈ s.reply, content s n.value = .raw none → refcount s n.value = 1
  strings : ∀ o, HeldElsewhere s o → content s o ≠ .raw none
  sent : SentBytes s
  sharedEnd_le : sharedEnd ≤ s.nextObj
  shared : ∀ o, o < sharedEnd → HeldElsewhere s o ∧
    content s o = .raw (some (sdsnewlen (sharedBytes o)))

structure Inv (w : World) (s : State) : Prop where
  wf : Wf w s
  memory : s.reply_bytes = listMemory w s s.reply

theorem Wf.prepare {w : World} {s : State} (h : Wf w s) : prepareClientToWrite w s = true := by
  obtain ⟨-, hmaster, hfd, hevent⟩ := h.ready
  unfold prepareClientToWrite
  have hm : (s.flags.master && !s.flags.master_force_reply) = false := by
    cases hmas : s.flags.master with
    | false => rfl
    | true => rw [hmaster hmas]; rfl
  have hpos : ¬ s.fd ≤ 0 := by omega
  rw [hm, hevent]
  simp [hpos]

theorem Wf.open {w : World} {s : State} (h : Wf w s) : s.flags.close_after_reply = false := h.ready.1

theorem HeldElsewhere.lt_next {w : World} {s : State} {o : Nat} (hwf : Wf w s)
    (h : HeldElsewhere s o) : o < s.nextObj := by
  by_contra hge
  have h0 := hwf.fresh o (Nat.le_of_not_lt hge)
  unfold HeldElsewhere at h
  omega

theorem Wf.held_fresh {w : World} {s : State} (h : Wf w s) : held s s.nextObj = 0 := by
  have h1 := h.counts s.nextObj
  have h2 := h.fresh s.nextObj (Nat.le_refl _)
  omega

theorem Wf.mem_ne_fresh {w : World} {s : State} (h : Wf w s) {n : ReplyNode} (hn : n ∈ s.reply) :
    n.value ≠ s.nextObj := by
  intro heq
  have h1 := held_of_mem hn
  rw [heq, h.held_fresh] at h1
  omega

theorem SentBytes.le {s : State} (h : SentBytes s) :
    s.sentlen ≤ (syms s.buf ++ listSyms s s.reply).length := by
  rw [List.length_append, length_syms]
  rcases h with h | ⟨hbuf, n, rest, hreply, hset, hlt⟩
  · omega
  · rw [hreply, listSyms_cons, nodeSyms_set hset, List.length_append, length_syms]
    omega

def KeepsElsewhere (s s' : State) : Prop :=
  ∀ o, HeldElsewhere s o → HeldElsewhere s' o ∧ content s' o = content s o

theorem KeepsElsewhere.trans {s s' s'' : State} (h : KeepsElsewhere s s') (h' : KeepsElsewhere s' s'') :
    KeepsElsewhere s s'' := by
  intro o ho
  obtain ⟨h1, h2⟩ := h o ho
  obtain ⟨h3, h4⟩ := h' o h1
  exact ⟨h3, h4.trans h2⟩

/-- The text goes to the end of what is pending. -/
structure Appends (w : World) (s s' : State) (stream : List Sym) : Prop where
  inv : Inv w s'
  pending : pending s' = pending s ++ stream
  written : s'.written = s.written
  keeps : KeepsElsewhere s s'

theorem Appends.trans {w : World} {s s' s'' : State} {a b : List Sym} (h : Appends w s s' a)
    (h' : Appends w s' s'' b) : Appends w s s'' (a ++ b) where
  inv := h'.inv
  pending := by rw [h'.pending, h.pending, List.append_assoc]
  written := h'.written.trans h.written
  keeps := h.keeps.trans h'.keeps

theorem pending_append {s s' : State} {stream : List Sym} (hsent : SentBytes s)
    (hlen : s'.sentlen = s.sentlen)
    (h : syms s'.buf ++ listSyms s' s'.reply = syms s.buf ++ listSyms s s.reply ++ stream) :
    pending s' = pending s ++ stream := by
  rw [pending, pending, h, hlen, List.drop_append_of_le_length hsent.le]

/-! ## The store under the invariant -/

theorem SentBytes.congr {s s' : State} (h : SentBytes s) (hbuf : s'.buf = s.buf)
    (hlen : s'.sentlen = s.sentlen) (hreply : s'.reply = s.reply)
    (hcontent : ∀ n ∈ s.reply, content s' n.value = content s n.value) : SentBytes s' := by
  rcases h with h | ⟨hempty, n, rest, hcons, hset, hlt⟩
  · exact Or.inl (by rw [hbuf, hlen]; exact h)
  · have hn := hcontent n (hcons ▸ List.mem_cons_self)
    refine Or.inr ⟨hbuf.trans hempty, n, rest, hreply.trans hcons, ?_, ?_⟩
    · rw [hn]
      exact hset
    · rw [hn, hlen]
      exact hlt

theorem incrRefCount_inv {w : World} {s : State} {o : Nat} (h : Inv w s) (ho : HeldElsewhere s o) :
    Inv w (incrRefCount s o) ∧ KeepsElsewhere s (incrRefCount s o) := by
  have hwf := h.wf
  have hlt := ho.lt_next hwf
  have hkeeps : KeepsElsewhere s (incrRefCount s o) := by
    intro o' ho'
    refine ⟨?_, content_incrRefCount s o o'⟩
    unfold HeldElsewhere at ho' ⊢
    rw [held_incrRefCount, refcount_incrRefCount]
    split
    · rename_i heq
      rw [heq] at ho' ⊢
      omega
    · exact ho'
  refine ⟨⟨⟨hwf.ready, ?_, ?_, hwf.distinct, hwf.nodeIds, ?_, ?_, ?_, hwf.sharedEnd_le, ?_⟩, ?_⟩, hkeeps⟩
  · intro o'
    have hc := hwf.counts o'
    rw [held_incrRefCount, refcount_incrRefCount]
    split
    · rename_i heq
      rw [heq] at hc ⊢
      omega
    · exact hc
  · intro o' hge
    have hne : o' ≠ o := by
      intro heq
      have : s.nextObj ≤ o' := hge
      omega
    rw [refcount_incrRefCount, if_neg hne]
    exact hwf.fresh o' hge
  · intro n hn hnone
    rw [content_incrRefCount] at hnone
    have hone := hwf.places n hn hnone
    have hne : n.value ≠ o := by
      intro heq
      have h1 := held_of_mem (s := s) hn
      unfold HeldElsewhere at ho
      rw [heq] at hone h1
      omega
    rw [refcount_incrRefCount, if_neg hne]
    exact hone
  · intro o' ho'
    rw [content_incrRefCount]
    by_cases heq : o' = o
    · rw [heq]
      exact hwf.strings o ho
    · refine hwf.strings o' ?_
      unfold HeldElsewhere at ho' ⊢
      rw [refcount_incrRefCount, if_neg heq] at ho'
      exact ho'
  · exact hwf.sent.congr rfl rfl rfl fun n _ => content_incrRefCount s o n.value
  · intro o' ho'
    obtain ⟨h1, h2⟩ := hwf.shared o' ho'
    exact ⟨(hkeeps o' h1).1, (content_incrRefCount s o o').trans h2⟩
  · exact h.memory.trans (listMemory_congr fun n _ => content_incrRefCount s o n.value).symm

theorem decrRefCount_inv {w : World} {s : State} {o : Nat} (h : Inv w s) (ho : HeldElsewhere s o)
    (hshared : o < sharedEnd → held s o + 1 < refcount s o) : Inv w (decrRefCount s o) := by
  have hwf := h.wf
  unfold HeldElsewhere at ho
  refine ⟨⟨hwf.ready, ?_, ?_, hwf.distinct, hwf.nodeIds, ?_, ?_, ?_, hwf.sharedEnd_le, ?_⟩, ?_⟩
  · intro o'
    have hc := hwf.counts o'
    rw [held_decrRefCount, refcount_decrRefCount]
    split
    · rename_i heq
      rw [heq]
      omega
    · exact hc
  · intro o' hge
    have hzero := hwf.fresh o' hge
    rw [refcount_decrRefCount]
    split
    · rename_i heq
      rw [heq] at hzero
      omega
    · exact hzero
  · intro n hn hnone
    rw [content_decrRefCount] at hnone
    have hone := hwf.places n hn hnone
    have hne : n.value ≠ o := by
      intro heq
      have h1 := held_of_mem (s := s) hn
      rw [heq] at hone h1
      omega
    rw [refcount_decrRefCount, if_neg hne]
    exact hone
  · intro o' ho'
    rw [content_decrRefCount]
    refine hwf.strings o' ?_
    unfold HeldElsewhere at ho' ⊢
    rw [held_decrRefCount, refcount_decrRefCount] at ho'
    split at ho'
    · rename_i heq
      rw [heq] at ho' ⊢
      omega
    · exact ho'
  · exact hwf.sent.congr rfl rfl rfl fun n _ => content_decrRefCount s o n.value
  · intro o' ho'
    obtain ⟨h1, h2⟩ := hwf.shared o' ho'
    refine ⟨?_, (content_decrRefCount s o o').trans h2⟩
    unfold HeldElsewhere at h1 ⊢
    rw [held_decrRefCount, refcount_decrRefCount]
    split
    · rename_i heq
      have := hshared (heq ▸ ho')
      rw [heq]
      omega
    · exact h1
  · exact h.memory.trans (listMemory_congr fun n _ => content_decrRefCount s o n.value).symm

theorem createObject_inv {w : World} {s : State} {c : Content} (h : Inv w s) (hc : c ≠ .raw none) :
    Inv w (createObject s c) ∧ KeepsElsewhere s (createObject s c) ∧
      HeldElsewhere (createObject s c) s.nextObj := by
  have hwf := h.wf
  have hnodes : ∀ n ∈ s.reply, content (createObject s c) n.value = content s n.value := fun n hn => by
    rw [content_createObject, if_neg (hwf.mem_ne_fresh hn)]
  have hkeeps : KeepsElsewhere s (createObject s c) := by
    intro o ho
    have hne : o ≠ s.nextObj := Nat.ne_of_lt (ho.lt_next hwf)
    refine ⟨?_, by rw [content_createObject, if_neg hne]⟩
    unfold HeldElsewhere at ho ⊢
    rw [held_createObject, refcount_createObject, if_neg hne]
    exact ho
  have hnew : HeldElsewhere (createObject s c) s.nextObj := by
    unfold HeldElsewhere
    rw [held_createObject, hwf.held_fresh, refcount_createObject, if_pos rfl]
    exact Nat.one_pos
  refine ⟨⟨⟨hwf.ready, ?_, ?_, hwf.distinct, hwf.nodeIds, ?_, ?_, ?_, ?_, ?_⟩, ?_⟩, hkeeps, hnew⟩
  · intro o
    have hcount := hwf.counts o
    rw [held_createObject, refcount_createObject]
    split
    · rename_i heq
      rw [heq, hwf.held_fresh]
      exact Nat.zero_le 1
    · exact hcount
  · intro o hge
    have hge' : s.nextObj + 1 ≤ o := hge
    rw [refcount_createObject, if_neg (by omega)]
    exact hwf.fresh o (by omega)
  · intro n hn hnone
    rw [hnodes n hn] at hnone
    rw [refcount_createObject, if_neg (hwf.mem_ne_fresh hn)]
    exact hwf.places n hn hnone
  · intro o ho
    rw [content_createObject]
    split
    · exact hc
    · rename_i hne
      refine hwf.strings o ?_
      unfold HeldElsewhere at ho ⊢
      rw [refcount_createObject, if_neg hne] at ho
      exact ho
  · exact hwf.sent.congr rfl rfl rfl hnodes
  · exact Nat.le_succ_of_le hwf.sharedEnd_le
  · intro o ho
    obtain ⟨h1, h2⟩ := hwf.shared o ho
    exact ⟨(hkeeps o h1).1, (hkeeps o h1).2.trans h2⟩
  · exact h.memory.trans (listMemory_congr hnodes).symm

theorem setContent_inv {w : World} {s : State} {o : Nat} {c : Content} (h : Inv w s)
    (hshared : sharedEnd ≤ o) (hzero : held s o = 0) (hc : c ≠ .raw none) :
    Inv w (setContent s o c) := by
  have hwf := h.wf
  have hnodes : ∀ n ∈ s.reply, content (setContent s o c) n.value = content s n.value := by
    intro n hn
    have hne : n.value ≠ o := by
      intro heq
      have h1 := held_of_mem hn
      rw [heq] at h1
      omega
    rw [content_setContent, if_neg hne]
  refine ⟨⟨hwf.ready, ?_, ?_, hwf.distinct, hwf.nodeIds, ?_, ?_, ?_, hwf.sharedEnd_le, ?_⟩, ?_⟩
  · intro o'
    rw [refcount_setContent]
    exact hwf.counts o'
  · intro o' hge
    rw [refcount_setContent]
    exact hwf.fresh o' hge
  · intro n hn hnone
    rw [hnodes n hn] at hnone
    rw [refcount_setContent]
    exact hwf.places n hn hnone
  · intro o' ho'
    rw [content_setContent]
    split
    · exact hc
    · refine hwf.strings o' ?_
      unfold HeldElsewhere at ho' ⊢
      rw [refcount_setContent] at ho'
      exact ho'
  · exact hwf.sent.congr rfl rfl rfl hnodes
  · intro o' ho'
    obtain ⟨h1, h2⟩ := hwf.shared o' ho'
    refine ⟨?_, ?_⟩
    · unfold HeldElsewhere at h1 ⊢
      rw [refcount_setContent]
      exact h1
    · rw [content_setContent, if_neg (by omega)]
      exact h2
  · exact h.memory.trans (listMemory_congr hnodes).symm

theorem pending_congr {s s' : State} (hbuf : s'.buf = s.buf) (hlen : s'.sentlen = s.sentlen)
    (hreply : s'.reply = s.reply)
    (hcontent : ∀ n ∈ s.reply, content s' n.value = content s n.value) : pending s' = pending s := by
  rw [pending, pending, hbuf, hlen, hreply, listSyms_congr hcontent]

/-! ## New nodes -/

theorem held_append {s : State} {init : List ReplyNode} {tail : ReplyNode} (hreply : s.reply = init ++ [tail])
    (o : Nat) : held s o = (init.map ReplyNode.value).count o + if o = tail.value then 1 else 0 := by
  unfold held
  rw [hreply, List.map_append, List.count_append]
  simp only [List.map_cons, List.map_nil, List.count_singleton, beq_iff_eq]
  congr 1
  by_cases heq : o = tail.value
  · rw [if_pos heq, if_pos heq.symm]
  · rw [if_neg heq, if_neg (Ne.symm heq)]

theorem held_listAddNodeTail (w : World) (s : State) (o o' : Nat) :
    held (listAddNodeTail w s o) o' = held s o' + if o' = o then 1 else 0 :=
  @held_append (listAddNodeTail w s o) s.reply { id := s.nextNode, value := o } rfl o'

theorem Wf.distinct_append {w : World} {s : State} (h : Wf w s) (value : Nat) :
    ((s.reply ++ [(⟨s.nextNode, value⟩ : ReplyNode)]).map ReplyNode.id).Nodup := by
  rw [List.map_append, List.nodup_append]
  refine ⟨h.distinct, List.nodup_singleton _, ?_⟩
  intro id hid id' hid' heq
  obtain ⟨n, hn, rfl⟩ := List.mem_map.mp hid
  have hlt := h.nodeIds n hn
  have hid'' : id' = s.nextNode := by simpa using hid'
  omega

theorem listAddNodeTail_appends {w : World} {s : State} {o : Nat} (h : Inv w s)
    (ho : HeldElsewhere s o) (hshared : sharedEnd ≤ o ∨ held s o + 1 < refcount s o) :
    Inv w (listAddNodeTail w s o) ∧
      pending (listAddNodeTail w s o) = pending s ++ syms (sdsBytes (content s o)) := by
  have hwf := h.wf
  have hset := hwf.strings o ho
  have hheld := held_listAddNodeTail w s o
  have hsyms : listSyms (listAddNodeTail w s o) (listAddNodeTail w s o).reply =
      listSyms s s.reply ++ syms (sdsBytes (content s o)) := by
    have h1 : listSyms (listAddNodeTail w s o) s.reply = listSyms s s.reply :=
      listSyms_congr fun _ _ => rfl
    have h2 : nodeSyms (listAddNodeTail w s o) { id := s.nextNode, value := o } =
        syms (sdsBytes (content s o)) := nodeSyms_set hset
    show listSyms _ (s.reply ++ _) = _
    rw [listSyms_append, h1, listSyms_cons, listSyms_nil, List.append_nil, h2]
  refine ⟨⟨⟨hwf.ready, ?_, hwf.fresh, ?_, ?_, ?_, ?_, ?_, hwf.sharedEnd_le, ?_⟩, ?_⟩, ?_⟩
  · intro o'
    have hcount := hwf.counts o'
    unfold HeldElsewhere at ho
    rw [hheld]
    show held s o' + _ ≤ refcount s o'
    split
    · rename_i heq
      rw [heq]
      omega
    · exact hcount
  · exact hwf.distinct_append o
  · intro n hn
    show n.id < s.nextNode + 1
    rcases List.mem_append.mp hn with hn | hn
    · exact Nat.lt_succ_of_lt (hwf.nodeIds n hn)
    · rw [List.mem_singleton.mp hn]
      exact Nat.lt_succ_self _
  · intro n hn hnone
    rcases List.mem_append.mp hn with hn | hn
    · exact hwf.places n hn hnone
    · rw [List.mem_singleton.mp hn] at hnone
      exact absurd hnone hset
  · intro o' ho'
    refine hwf.strings o' ?_
    unfold HeldElsewhere at ho' ⊢
    rw [hheld] at ho'
    exact Nat.lt_of_le_of_lt (Nat.le_add_right _ _) ho'
  · rcases hwf.sent with hle | ⟨hbuf, n, rest, hreply, hn, hlt⟩
    · exact Or.inl hle
    · refine Or.inr ⟨hbuf, n, rest ++ [{ id := s.nextNode, value := o }], ?_, hn, hlt⟩
      show s.reply ++ _ = _
      rw [hreply, List.cons_append]
  · intro o' ho'
    obtain ⟨h1, h2⟩ := hwf.shared o' ho'
    refine ⟨?_, h2⟩
    unfold HeldElsewhere at h1 ⊢
    rw [hheld]
    show held s o' + _ < refcount s o'
    split
    · rename_i heq
      rw [heq] at ho' ⊢
      rcases hshared with hge | hlt
      · omega
      · exact hlt
    · exact h1
  · have h1 : listMemory w (listAddNodeTail w s o) s.reply = listMemory w s s.reply :=
      listMemory_congr fun _ _ => rfl
    have h2 : listMemory w (listAddNodeTail w s o) [{ id := s.nextNode, value := o }] =
        getStringObjectSdsUsedMemory w (content s o) := Int.add_zero _
    show s.reply_bytes + _ = listMemory w _ (s.reply ++ _)
    rw [listMemory_append, h1, h2, h.memory]
  · refine pending_append hwf.sent rfl ?_
    rw [hsyms]
    show syms s.buf ++ _ = _
    rw [List.append_assoc]

/-! ## The last node -/

theorem replaceTail_appends {w : World} {s s' : State} {init : List ReplyNode} {tail : ReplyNode}
    {ptr ptr' : Sds} {o : Nat} {bytes : Bytes} (h : Inv w s) (hreply : s.reply = init ++ [tail])
    (hold : content s tail.value = .raw (some ptr))
    (hreply' : s'.reply = init ++ [{ tail with value := o }])
    (hnew : content s' o = .raw (some ptr')) (hbytes : ptr'.buf = ptr.buf ++ bytes)
    (hinit : ∀ n ∈ init, content s' n.value = content s n.value)
    (hclient : s'.buf = s.buf ∧ s'.sentlen = s.sentlen ∧ s'.written = s.written ∧ s'.flags = s.flags ∧
      s'.fd = s.fd ∧ s'.nextNode = s.nextNode)
    (hmemory : s'.reply_bytes = s.reply_bytes - zmalloc_size_sds w ptr + zmalloc_size_sds w ptr')
    (hcounts : ∀ o, held s' o ≤ refcount s' o) (hfresh : ∀ o, s'.nextObj ≤ o → refcount s' o = 0)
    (hnext : s.nextObj ≤ s'.nextObj)
    (hplaces : ∀ n ∈ init, content s n.value = .raw none → refcount s' n.value = 1)
    (hstrings : ∀ o, HeldElsewhere s' o → content s' o ≠ .raw none) (hkeeps : KeepsElsewhere s s') :
    Appends w s s' (syms bytes) := by
  have hwf := h.wf
  obtain ⟨hbuf, hlen, hwritten, hflags, hfd, hnode⟩ := hclient
  have hset : content s' ({ tail with value := o } : ReplyNode).value ≠ .raw none := by
    rw [hnew]
    exact fun h => by cases h
  have hids : s'.reply.map ReplyNode.id = s.reply.map ReplyNode.id := by
    rw [hreply, hreply', List.map_append, List.map_append]
    rfl
  have hsyms : listSyms s' s'.reply = listSyms s s.reply ++ syms bytes := by
    have h1 : nodeSyms s' { tail with value := o } = syms ptr.buf ++ syms bytes := by
      rw [nodeSyms_set hset]
      show syms (sdsBytes (content s' o)) = _
      rw [hnew, sdsBytes, hbytes, syms_append]
    have h2 : nodeSyms s tail = syms ptr.buf := by
      rw [nodeSyms_set (by rw [hold]; exact fun h => by cases h), hold]
      rfl
    rw [hreply, hreply', listSyms_append, listSyms_append, listSyms_cons, listSyms_cons, listSyms_nil,
      listSyms_nil, List.append_nil, List.append_nil, h1, h2, listSyms_congr hinit, List.append_assoc]
  refine ⟨⟨⟨?_, hcounts, hfresh, ?_, ?_, ?_, hstrings, ?_, Nat.le_trans hwf.sharedEnd_le hnext, ?_⟩, ?_⟩,
    ?_, hwritten, hkeeps⟩
  · rw [hflags, hfd]
    exact hwf.ready
  · rw [hids]
    exact hwf.distinct
  · intro n hn
    rw [hnode]
    rw [hreply'] at hn
    rcases List.mem_append.mp hn with hn | hn
    · exact hwf.nodeIds n (hreply ▸ List.mem_append_left _ hn)
    · rw [List.mem_singleton.mp hn]
      exact hwf.nodeIds tail (hreply ▸ List.mem_append_right _ (List.mem_singleton.mpr rfl))
  · intro n hn hnone
    rw [hreply'] at hn
    rcases List.mem_append.mp hn with hn | hn
    · exact hplaces n hn ((hinit n hn).symm.trans hnone)
    · rw [List.mem_singleton.mp hn] at hnone
      exact absurd hnone hset
  · rcases hwf.sent with hle | ⟨hempty, n, rest, hcons, hn, hlt⟩
    · exact Or.inl (by rw [hbuf, hlen]; exact hle)
    · cases init with
      | nil =>
        rw [List.nil_append] at hreply hreply'
        rw [hreply, List.cons.injEq] at hcons
        obtain ⟨rfl, -⟩ := hcons
        refine Or.inr ⟨hbuf.trans hempty, _, [], hreply', hset, ?_⟩
        rw [hold] at hlt
        show _ < (sdsBytes (content s' o)).length
        rw [hnew, sdsBytes, hbytes, hlen, List.length_append]
        exact Nat.lt_of_lt_of_le hlt (Nat.le_add_right _ _)
      | cons m init =>
        rw [hreply, List.cons_append, List.cons.injEq] at hcons
        obtain ⟨rfl, -⟩ := hcons
        have hm := hinit m List.mem_cons_self
        refine Or.inr ⟨hbuf.trans hempty, m, _, hreply', ?_, ?_⟩
        · rw [hm]
          exact hn
        · rw [hm, hlen]
          exact hlt
  · intro o' ho'
    obtain ⟨h1, h2⟩ := hwf.shared o' ho'
    exact ⟨(hkeeps o' h1).1, (hkeeps o' h1).2.trans h2⟩
  · have h1 : listMemory w s [tail] = zmalloc_size_sds w ptr := by
      rw [listMemory_cons, listMemory_nil, hold, Int.add_zero]
      rfl
    have h2 : listMemory w s' [{ tail with value := o }] = zmalloc_size_sds w ptr' := by
      rw [listMemory_cons, listMemory_nil, Int.add_zero]
      show getStringObjectSdsUsedMemory w (content s' o) = _
      rw [hnew]
      rfl
    have h3 := h.memory
    rw [hreply, listMemory_append, h1] at h3
    rw [hmemory, h3, hreply', listMemory_append, listMemory_congr hinit, h2]
    omega
  · refine pending_append hwf.sent hlen ?_
    rw [hbuf, hsyms, List.append_assoc]

theorem dupLast_spec {w : World} {s : State} {init : List ReplyNode} {tail : ReplyNode} {ptr : Sds}
    (hwf : Wf w s) (hreply : s.reply = init ++ [tail]) (hold : content s tail.value = .raw (some ptr)) :
    ∃ s2 o p, dupLastObjectIfNeeded s init tail = (s2, o) ∧ content s2 o = .raw (some p) ∧
      p.buf = ptr.buf ∧ s2.reply = init ++ [{ tail with value := o }] ∧ refcount s2 o = 1 ∧
      (s2.buf = s.buf ∧ s2.sentlen = s.sentlen ∧ s2.written = s.written ∧ s2.flags = s.flags ∧
        s2.fd = s.fd ∧ s2.nextNode = s.nextNode) ∧ s2.reply_bytes = s.reply_bytes ∧
      (∀ o', held s2 o' ≤ refcount s2 o') ∧ (∀ o', s2.nextObj ≤ o' → refcount s2 o' = 0) ∧
      s.nextObj ≤ s2.nextObj ∧ (∀ o', o' ≠ o → o' < s.nextObj → content s2 o' = content s o') ∧
      (∀ n ∈ init, content s n.value = .raw none → refcount s2 n.value = 1) ∧
      ∀ o', HeldElsewhere s2 o' ↔ HeldElsewhere s o' := by
  have hmem : tail ∈ s.reply := hreply ▸ List.mem_append_right _ (List.mem_singleton.mpr rfl)
  have hfresh := hwf.mem_ne_fresh hmem
  have hheld := held_append hreply
  have hplaces : ∀ n ∈ init, content s n.value = .raw none → n.value ≠ tail.value := by
    intro n hn hnone heq
    rw [heq, hold] at hnone
    cases hnone
  by_cases hshared : 1 < refcount s tail.value
  · -- The last object is shared: a copy takes its place.
    obtain ⟨s2, hs2⟩ : ∃ s2 : State, s2 = { decrRefCount (createObject s (.raw (some (sdsnewlen ptr.buf))))
        tail.value with reply := init ++ [{ tail with value := s.nextObj }] } := ⟨_, rfl⟩
    have hcontent : ∀ o', content s2 o' =
        if o' = s.nextObj then .raw (some (sdsnewlen ptr.buf)) else content s o' := by
      intro o'
      rw [hs2]
      exact (content_decrRefCount _ _ _).trans (content_createObject _ _ _)
    have hrefcount : ∀ o', refcount s2 o' = if o' = tail.value then refcount s tail.value - 1
        else if o' = s.nextObj then 1 else refcount s o' := by
      intro o'
      rw [hs2]
      refine (refcount_decrRefCount _ _ _).trans ?_
      rw [refcount_createObject, refcount_createObject, if_neg hfresh]
    have hheld2 : ∀ o', held s2 o' = (init.map ReplyNode.value).count o' +
        if o' = s.nextObj then 1 else 0 := by
      intro o'
      refine @held_append s2 init { tail with value := s.nextObj } ?_ o'
      rw [hs2]
    have hiff : ∀ o', HeldElsewhere s2 o' ↔ HeldElsewhere s o' := by
      intro o'
      have hf := hwf.fresh s.nextObj (Nat.le_refl _)
      have hc := hwf.counts o'
      unfold HeldElsewhere
      rw [hheld2, hheld, hrefcount]
      rw [hheld] at hc
      by_cases h1 : o' = tail.value
      · have h2 : ¬ o' = s.nextObj := h1 ▸ hfresh
        rw [if_pos h1, if_neg h2, if_pos h1, h1]
        omega
      · by_cases h2 : o' = s.nextObj
        · rw [h2, hf] at hc
          rw [if_neg h1, if_pos h2, if_pos h2, if_neg h1, h2, hf]
          omega
        · rw [if_neg h1, if_neg h2, if_neg h2, if_neg h1]
    refine ⟨s2, s.nextObj, sdsnewlen ptr.buf, ?_, ?_, rfl, by rw [hs2], ?_, ?_, by rw [hs2]; rfl, ?_, ?_,
      ?_, ?_, ?_, hiff⟩
    · rw [dupLastObjectIfNeeded, if_pos hshared, hold, hs2]
      rfl
    · rw [hcontent, if_pos rfl]
    · rw [hrefcount, if_neg (Ne.symm hfresh), if_pos rfl]
    · rw [hs2]
      exact ⟨rfl, rfl, rfl, rfl, rfl, rfl⟩
    · intro o'
      have hc := hwf.counts o'
      have h0 := hwf.held_fresh
      rw [hheld] at hc h0
      rw [hheld2, hrefcount]
      by_cases h1 : o' = tail.value
      · have h2 : ¬ o' = s.nextObj := h1 ▸ hfresh
        rw [h1] at hc h2
        rw [if_pos rfl] at hc
        rw [h1, if_neg h2, if_pos rfl]
        omega
      · by_cases h2 : o' = s.nextObj
        · rw [if_neg h1, if_pos h2, if_pos h2, h2]
          omega
        · rw [if_neg h1] at hc
          rw [if_neg h1, if_neg h2, if_neg h2]
          exact hc
    · intro o' hge
      have hge' : s.nextObj + 1 ≤ o' := by rw [hs2] at hge; exact hge
      have hlt : tail.value < s.nextObj := by
        by_contra hnot
        have := hwf.fresh tail.value (Nat.le_of_not_lt hnot)
        omega
      rw [hrefcount, if_neg (by omega), if_neg (by omega)]
      exact hwf.fresh o' (by omega)
    · rw [hs2]
      exact Nat.le_succ _
    · intro o' hne hlt
      rw [hcontent, if_neg hne]
    · intro n hn hnone
      have hn' : n ∈ s.reply := hreply ▸ List.mem_append_left _ hn
      rw [hrefcount, if_neg (hplaces n hn hnone), if_neg (hwf.mem_ne_fresh hn')]
      exact hwf.places n hn' hnone
  · -- The list holds it alone.
    have hone : refcount s tail.value = 1 := by
      have h1 := hwf.counts tail.value
      have h2 := held_of_mem hmem
      omega
    refine ⟨s, tail.value, ptr, if_neg hshared, hold, rfl, hreply, hone, ⟨rfl, rfl, rfl, rfl, rfl, rfl⟩, rfl,
      hwf.counts, hwf.fresh, Nat.le_refl _, fun _ _ _ => rfl, ?_, fun _ => Iff.rfl⟩
    exact fun n hn hnone => hwf.places n (hreply ▸ List.mem_append_left _ hn) hnone

theorem glueToTail_appends {w : World} {s : State} {init : List ReplyNode} {tail : ReplyNode} {ptr : Sds}
    (h : Inv w s) (hreply : s.reply = init ++ [tail]) (hold : content s tail.value = .raw (some ptr))
    (bytes : Bytes) : Appends w s (glueToTail w s init tail ptr bytes) (syms bytes) := by
  have hwf1 : Wf w { s with reply_bytes := s.reply_bytes - zmalloc_size_sds w ptr } := by
    obtain ⟨h1, h2, h3, h4, h5, h6, h7, h8, h9, h10⟩ := h.wf
    exact ⟨h1, h2, h3, h4, h5, h6, h7, h8, h9, h10⟩
  obtain ⟨s2, o, p, hdup, hnew, hbuf, hreply2, hone, hclient, hbytes, hcounts, hfresh, hnext, hcontent,
    hplaces, hiff⟩ := dupLast_spec hwf1 hreply hold
  have hiff' : ∀ o', HeldElsewhere s2 o' ↔ HeldElsewhere s o' := hiff
  have hcontent' : ∀ o', o' ≠ o → o' < s.nextObj → content s2 o' = content s o' := hcontent
  have hnotheld : ¬ HeldElsewhere s2 o := by
    have hpos : 0 < held s2 o := held_of_mem (n := { tail with value := o })
      (hreply2 ▸ List.mem_append_right _ (List.mem_singleton.mpr rfl))
    unfold HeldElsewhere
    omega
  have hglue : glueToTail w s init tail ptr bytes =
      { setContent s2 o (.raw (some (sdscatlen p bytes))) with
        reply_bytes := s2.reply_bytes + zmalloc_size_sds w (sdscatlen p bytes) } := by
    rw [glueToTail, hdup]
    simp only [hnew]
    rfl
  obtain ⟨s3, hs3⟩ : ∃ s3 : State, s3 = { setContent s2 o (.raw (some (sdscatlen p bytes))) with
        reply_bytes := s2.reply_bytes + zmalloc_size_sds w (sdscatlen p bytes) } := ⟨_, rfl⟩
  have hcontent3 : ∀ o', content s3 o' =
      if o' = o then .raw (some (sdscatlen p bytes)) else content s2 o' := by
    intro o'
    rw [hs3]
    exact content_setContent _ _ _ _
  have hrefcount3 : ∀ o', refcount s3 o' = refcount s2 o' := by
    intro o'
    rw [hs3]
    exact refcount_setContent _ _ _ _
  have hheld3 : ∀ o', held s3 o' = held s2 o' := by
    intro o'
    rw [hs3]
    rfl
  have hiff3 : ∀ o', HeldElsewhere s3 o' ↔ HeldElsewhere s o' := by
    intro o'
    rw [← hiff']
    unfold HeldElsewhere
    rw [hrefcount3, hheld3]
  have hkeeps : KeepsElsewhere s s3 := by
    intro o' ho'
    have hne : o' ≠ o := by
      intro heq
      exact hnotheld (heq ▸ (hiff' o').mpr ho')
    refine ⟨(hiff3 o').mpr ho', ?_⟩
    rw [hcontent3, if_neg hne]
    exact hcontent' o' hne (ho'.lt_next h.wf)
  have hinit : ∀ n ∈ init, n.value ≠ o ∧ n.value < s.nextObj := by
    intro n hn
    refine ⟨fun heq => ?_, ?_⟩
    · have hcount := hcounts o
      rw [held_append hreply2, if_pos rfl, hone] at hcount
      have hpos : 0 < (init.map ReplyNode.value).count o :=
        List.count_pos_iff.mpr (heq ▸ List.mem_map_of_mem hn)
      omega
    · have hn' : n ∈ s.reply := hreply ▸ List.mem_append_left _ hn
      by_contra hge
      have h0 := h.wf.fresh n.value (Nat.le_of_not_lt hge)
      have h1 := h.wf.counts n.value
      have h2 := held_of_mem hn'
      omega
  obtain ⟨c1, c2, c3, c4, c5, c6⟩ := hclient
  rw [hglue, ← hs3]
  refine replaceTail_appends (o := o) h hreply hold (by rw [hs3]; exact hreply2) (by rw [hcontent3, if_pos rfl])
    (by rw [sdscatlen_buf, hbuf]) ?_ ?_ ?_ ?_ ?_ ?_ ?_ ?_ hkeeps
  · intro n hn
    rw [hcontent3, if_neg (hinit n hn).1]
    exact hcontent' n.value (hinit n hn).1 (hinit n hn).2
  · rw [hs3]
    exact ⟨c1, c2, c3, c4, c5, c6⟩
  · rw [hs3]
    show s2.reply_bytes + _ = _
    rw [hbytes]
  · intro o'
    rw [hheld3, hrefcount3]
    exact hcounts o'
  · intro o' hge
    rw [hrefcount3]
    rw [hs3] at hge
    exact hfresh o' hge
  · rw [hs3]
    exact hnext
  · intro n hn hnone
    rw [hrefcount3]
    exact hplaces n hn hnone
  · intro o' ho'
    have hs := (hiff3 o').mp ho'
    rw [(hkeeps o' hs).2]
    exact h.wf.strings o' hs

/-! ## The functions that append -/

theorem addReplyToList_appends {w : World} {s : State} (h : Inv w s) (bytes : Bytes)
    {append : State → State} (happend : Appends w s (append s) (syms bytes)) :
    Appends w s (addReplyToList w s bytes append) (syms bytes) := by
  have hopen : ¬ s.flags.close_after_reply = true := by
    rw [h.wf.open]
    exact Bool.false_ne_true
  rw [addReplyToList, if_neg hopen]
  cases hlast : s.reply.getLast? with
  | none => exact happend
  | some tail =>
    have hreply : s.reply = s.reply.dropLast ++ [tail] := by
      obtain ⟨init, hinit⟩ := List.getLast?_eq_some_iff.mp hlast
      rw [hinit, List.dropLast_concat]
    dsimp only
    split
    · rename_i ptr hold
      split
      · exact glueToTail_appends h hreply hold bytes
      · exact happend
    · exact happend

theorem appendObject_appends {w : World} {s : State} {o : Nat} (h : Inv w s) (ho : HeldElsewhere s o) :
    Appends w s (listAddNodeTail w (incrRefCount s o) o) (syms (sdsBytes (content s o))) := by
  obtain ⟨hinv, hkeeps⟩ := incrRefCount_inv h ho
  have hroom : held (incrRefCount s o) o + 1 < refcount (incrRefCount s o) o := by
    unfold HeldElsewhere at ho
    rw [held_incrRefCount, refcount_incrRefCount, if_pos rfl]
    omega
  obtain ⟨hinv', hpending⟩ := listAddNodeTail_appends hinv (hkeeps o ho).1 (Or.inr hroom)
  rw [content_incrRefCount] at hpending
  refine ⟨hinv', hpending.trans ?_, rfl, fun o' ho' => ⟨?_, (hkeeps o' ho').2⟩⟩
  · have hsame : pending (incrRefCount s o) = pending s :=
      pending_congr rfl rfl rfl fun n _ => content_incrRefCount s o n.value
    rw [hsame]
  · have h1 := (hkeeps o' ho').1
    unfold HeldElsewhere at h1 ⊢
    rw [held_listAddNodeTail]
    show _ < refcount (incrRefCount s o) o'
    split
    · rename_i heq
      rw [heq]
      exact hroom
    · exact h1

theorem appendNew_appends {w : World} {s : State} {c : Content} (h : Inv w s) (hc : c ≠ .raw none) :
    Appends w s (listAddNodeTail w (createObject s c) s.nextObj) (syms (sdsBytes c)) := by
  obtain ⟨hinv, hkeeps, hnew⟩ := createObject_inv h hc
  obtain ⟨hinv', hpending⟩ := listAddNodeTail_appends hinv hnew (Or.inl h.wf.sharedEnd_le)
  rw [content_createObject, if_pos rfl] at hpending
  refine ⟨hinv', hpending.trans ?_, rfl, fun o' ho' => ⟨?_, (hkeeps o' ho').2⟩⟩
  · have hsame : pending (createObject s c) = pending s := pending_congr rfl rfl rfl fun n hn => by
      rw [content_createObject, if_neg (h.wf.mem_ne_fresh hn)]
    rw [hsame]
  · have h1 := (hkeeps o' ho').1
    have hne : o' ≠ s.nextObj := Nat.ne_of_lt (ho'.lt_next h.wf)
    unfold HeldElsewhere at h1 ⊢
    rw [held_listAddNodeTail, if_neg hne]
    exact h1

theorem addReplyToBuffer_spec {w : World} {s : State} (h : Inv w s) (bytes : Bytes) :
    ((_addReplyToBuffer s bytes).1 = true ∧ Appends w s (_addReplyToBuffer s bytes).2 (syms bytes)) ∨
      (_addReplyToBuffer s bytes).1 = false := by
  have hwf := h.wf
  have hopen : ¬ s.flags.close_after_reply = true := by
    rw [hwf.open]
    exact Bool.false_ne_true
  unfold _addReplyToBuffer
  rw [if_neg hopen]
  by_cases hreply : s.reply = []
  · rw [if_neg (by simpa using hreply)]
    split
    · exact Or.inr rfl
    · refine Or.inl ⟨rfl, ⟨⟨?_, h.memory⟩, ?_, rfl, fun o ho => ⟨ho, rfl⟩⟩⟩
      · refine ⟨hwf.ready, hwf.counts, hwf.fresh, hwf.distinct, hwf.nodeIds, hwf.places, hwf.strings, ?_,
          hwf.sharedEnd_le, hwf.shared⟩
        rcases hwf.sent with hle | ⟨-, n, rest, hcons, -⟩
        · refine Or.inl ?_
          show s.sentlen ≤ (s.buf ++ bytes).length
          rw [List.length_append]
          exact Nat.le_trans hle (Nat.le_add_right _ _)
        · rw [hreply] at hcons
          cases hcons
      · refine pending_append hwf.sent rfl ?_
        show syms (s.buf ++ bytes) ++ listSyms _ s.reply = _
        rw [hreply]
        simp
  · rw [if_pos hreply]
    exact Or.inr rfl

theorem addReplySdsEncoded_appends {w : World} {s : State} {o : Nat} (h : Inv w s)
    (ho : HeldElsewhere s o) :
    Appends w s (addReplySdsEncoded w s o) (syms (sdsBytes (content s o))) := by
  unfold addReplySdsEncoded
  rcases addReplyToBuffer_spec h (sdsBytes (content s o)) with ⟨hok, happ⟩ | hno
  · simp only [if_pos hok]
    exact happ
  · simp only [hno, Bool.false_eq_true, if_false]
    exact addReplyToList_appends h _ (appendObject_appends h ho)

theorem addReplyDecoded_appends {w : World} {s : State} (h : Inv w s) (n : Int) :
    Appends w s (addReplyDecoded w s n) (syms (ll2string n)) := by
  obtain ⟨hinv, hkeeps, hnew⟩ := createObject_inv h (stringContent_ne (ll2string n))
  have happ := addReplySdsEncoded_appends hinv hnew
  rw [content_createObject, if_pos rfl, sdsBytes_stringContent] at happ
  have hnew' := (happ.keeps s.nextObj hnew).1
  have hge : ¬ s.nextObj < sharedEnd := Nat.not_lt.mpr h.wf.sharedEnd_le
  have hcreate : pending (createObject s (stringContent (ll2string n))) = pending s :=
    pending_congr rfl rfl rfl fun m hm => by
      rw [content_createObject, if_neg (h.wf.mem_ne_fresh hm)]
  refine ⟨decrRefCount_inv happ.inv hnew' fun hlt => absurd hlt hge, ?_, ?_, ?_⟩
  · rw [← hcreate, ← happ.pending]
    exact pending_congr rfl rfl rfl fun m _ => content_decrRefCount _ s.nextObj m.value
  · exact happ.written
  · intro o ho
    have hne : o ≠ s.nextObj := Nat.ne_of_lt (ho.lt_next h.wf)
    obtain ⟨h1, h2⟩ := hkeeps.trans happ.keeps o ho
    refine ⟨?_, (content_decrRefCount _ _ _).trans h2⟩
    unfold HeldElsewhere at h1 ⊢
    rw [addReplyDecoded, held_decrRefCount, refcount_decrRefCount, if_neg hne]
    exact h1

theorem addReply_appends {w : World} {s : State} {o : Nat} (h : Inv w s) (ho : HeldElsewhere s o) :
    Appends w s (addReply w s o) (syms (objectText (content s o))) := by
  unfold addReply
  rw [if_pos h.wf.prepare]
  cases hc : content s o with
  | int n =>
    simp only [objectText]
    split
    · rcases addReplyToBuffer_spec h (ll2string n) with ⟨hok, happ⟩ | hno
      · simp only [if_pos hok]
        exact happ
      · simp only [hno, Bool.false_eq_true, if_false]
        exact addReplyDecoded_appends h n
    · exact addReplyDecoded_appends h n
  | raw ptr =>
    have happ := addReplySdsEncoded_appends h ho
    rw [hc] at happ
    exact happ
  | embstr buf =>
    have happ := addReplySdsEncoded_appends h ho
    rw [hc] at happ
    exact happ

theorem addReplySds_appends {w : World} {s : State} (h : Inv w s) (str : Sds) :
    Appends w s (addReplySds w s str) (syms str.buf) := by
  unfold addReplySds
  rw [if_pos h.wf.prepare]
  rcases addReplyToBuffer_spec h str.buf with ⟨hok, happ⟩ | hno
  · simp only [if_pos hok]
    exact happ
  · simp only [hno, Bool.false_eq_true, if_false]
    exact addReplyToList_appends h _ (appendNew_appends (c := .raw (some str)) h fun hc => by cases hc)

theorem addReplyString_appends {w : World} {s : State} (h : Inv w s) (bytes : Bytes) :
    Appends w s (addReplyString w s bytes) (syms bytes) := by
  unfold addReplyString
  rw [if_pos h.wf.prepare]
  rcases addReplyToBuffer_spec h bytes with ⟨hok, happ⟩ | hno
  · simp only [if_pos hok]
    exact happ
  · simp only [hno, Bool.false_eq_true, if_false]
    have hnew := appendNew_appends h (stringContent_ne bytes)
    rw [sdsBytes_stringContent] at hnew
    exact addReplyToList_appends h _ hnew

/-! ## Bulk and integer replies -/

theorem addReply_shared {w : World} {s : State} {o : Nat} (h : Inv w s) (ho : o < sharedEnd) :
    Appends w s (addReply w s o) (syms (sharedBytes o)) := by
  obtain ⟨hheld, hc⟩ := h.wf.shared o ho
  have happ := addReply_appends h hheld
  rw [hc] at happ
  exact happ

theorem addReplyLongLong_appends {w : World} {s : State} (h : Inv w s) (n : Int) :
    Appends w s (addReplyLongLong w s n) (syms (58 :: ll2string n ++ crlf)) := by
  unfold addReplyLongLong
  split
  · rename_i hn
    subst hn
    exact addReply_shared h (by decide)
  · split
    · rename_i hn
      subst hn
      exact addReply_shared h (by decide)
    · rw [addReplyLongLongWithPrefix, if_neg (fun hb => absurd hb.1 (by decide)),
        if_neg (fun hb => absurd hb.1 (by decide))]
      exact addReplyString_appends h _

theorem sharedBulkhdr_bytes {len : Nat} (hlen : len < REDIS_SHARED_BULKHDR_LEN) :
    sharedBulkhdr len < sharedEnd ∧ sharedBytes (sharedBulkhdr len) = 36 :: ll2string len ++ crlf := by
  have hlt : len < 32 := hlen
  have hid : sharedBulkhdr len = 3 + len := rfl
  refine ⟨?_, ?_⟩
  · rw [hid]
    unfold sharedEnd
    omega
  · have hcast : (((3 + len : Nat) : Int) - 3) = (len : Int) := by omega
    rw [sharedBytes, hid, if_neg (by unfold sharedCrlf; omega), if_neg (by unfold sharedCzero; omega),
      if_neg (by unfold sharedCone; omega), if_pos (by omega), hcast]

theorem digitCount_eq (n : Nat) : digitCount n = (decimal n).length := by
  induction n using Nat.strongRecOn with
  | ind n ih =>
    rw [digitCount]
    split
    · rename_i hzero
      by_cases hn : n = 0
      · rw [hn]
        rfl
      · rw [decimal_pos hn, List.length_map, List.length_reverse, Nat.digits_def' (by decide) (by omega),
          hzero, Nat.digits_zero]
        rfl
    · rename_i hpos
      have hn : n ≠ 0 := by omega
      rw [ih (n / 10) (by omega), decimal_pos hn, decimal_pos hpos, List.length_map, List.length_map,
        List.length_reverse, List.length_reverse, Nat.digits_def' (n := n) (by decide) (by omega),
        List.length_cons]

theorem bulkLength_eq (c : Content) : bulkLength c = (objectText c).length := by
  cases c with
  | int n =>
    rw [bulkLength, objectText, digitCount_eq, ll2string]
    split
    · rw [List.length_cons]
      omega
    · omega
  | raw ptr => rfl
  | embstr buf => rfl

theorem addReplyBulkLen_appends {w : World} {s : State} (h : Inv w s) (o : Nat) :
    Appends w s (addReplyBulkLen w s o)
      (syms (36 :: ll2string (objectText (content s o)).length ++ crlf)) := by
  unfold addReplyBulkLen
  rw [bulkLength_eq]
  dsimp only
  split
  · rename_i hlen
    obtain ⟨hid, hbytes⟩ := sharedBulkhdr_bytes hlen
    rw [← hbytes]
    exact addReply_shared h hid
  · rename_i hlen
    have hbig : ¬ (((objectText (content s o)).length : Int) < REDIS_SHARED_BULKHDR_LEN) := by omega
    rw [addReplyLongLongWithPrefix, if_neg (fun hc => hbig hc.2), if_neg (fun hc => hbig hc.2)]
    exact addReplyString_appends h _

theorem addReplyBulk_appends {w : World} {s : State} {o : Nat} (h : Inv w s) (ho : HeldElsewhere s o) :
    Appends w s (addReplyBulk w s o) (syms (bulkText (objectText (content s o)))) := by
  have hlen := addReplyBulkLen_appends h o
  obtain ⟨ho', hc⟩ := hlen.keeps o ho
  have hbody := addReply_appends hlen.inv ho'
  rw [hc] at hbody
  have hend := addReply_shared (o := sharedCrlf) hbody.inv (by decide)
  have hall := (hlen.trans hbody).trans hend
  rw [bulkText, syms_append, syms_append]
  exact hall

end RedisCluster.Replies
