import RedisCluster.Zset.Proofs.InsertProofs

/-!
# Deleting from a skip list

`zslDeleteNode` takes one node out of the sequence and keeps the invariant. The `update` array stays
valid for the node that comes next, so a whole range can be deleted with one search.
-/

namespace RedisCluster

open RedisCluster.Lib

variable {S M : Type}

section

variable {pre post : List Nat}

theorem Backs.remove {back back' : Nat → Option Nat} {x : Nat} (h : Backs back (pre ++ x :: post))
    (hnodup : (pre ++ x :: post).Nodup) (hhead : ∀ f, post.head? = some f → back' f = back x)
    (hother : ∀ y, post.head? ≠ some y → back' y = back y) : Backs back' (pre ++ post) := by
  intro a y b hab
  obtain ⟨-, hxpost, hdisj⟩ := List.nodup_append.mp hnodup
  have hpostnd : post.Nodup := (List.nodup_cons.mp hxpost).2
  rcases List.append_eq_append_iff.mp hab with ⟨d, rfl, hd⟩ | ⟨d, rfl, hd⟩
  · cases d with
    | nil =>
      rw [List.nil_append] at hd
      rw [hhead y (by rw [hd]; rfl), h pre x post rfl, List.append_nil]
    | cons w d =>
      rw [List.cons_append] at hd
      have hnh : post.head? ≠ some y := by
        intro hc
        rw [hd, List.head?_cons, Option.some.injEq] at hc
        rw [hd, hc] at hpostnd
        simp at hpostnd
      rw [hother y hnh, h (pre ++ x :: w :: d) y b (by simp [hd])]
      simp [List.getLast?_append, List.getLast?_cons]
  · cases d with
    | nil =>
      rw [List.nil_append] at hd
      have hxpre := h a x post (by simp)
      rw [hhead y (by rw [← hd]; rfl), hxpre]
    | cons w d =>
      simp only [List.cons_append, List.cons.injEq] at hd
      obtain ⟨rfl, rfl⟩ := hd
      have hyp : y ∉ post := fun hc => hdisj y (by simp) y (List.mem_cons_of_mem _ hc) rfl
      have hnh : post.head? ≠ some y := fun hc => hyp (List.mem_of_head? hc)
      rw [hother y hnh, h a y (d ++ x :: post) (by simp)]

end

section

variable {z : Zskiplist S M}

theorem lowerLevel_spec : ∀ n, 1 ≤ n →
    1 ≤ lowerLevel z n ∧ lowerLevel z n ≤ n ∧
      (lowerLevel z n = 1 ∨ (z.link zslHeader (lowerLevel z n - 1)).forward ≠ none) ∧
      ∀ i, lowerLevel z n ≤ i → i < n → (z.link zslHeader i).forward = none := by
  intro n
  induction n with
  | zero => intro h; omega
  | succ n ih =>
    intro _
    rw [lowerLevel]
    by_cases hcond : n + 1 > 1 ∧ (z.link zslHeader n).forward = none
    · rw [if_pos hcond]
      obtain ⟨h1, h2, h3, h4⟩ := ih (by omega)
      refine ⟨h1, by omega, h3, fun i hi hin => ?_⟩
      by_cases heq : i = n
      · rw [heq]
        exact hcond.2
      · exact h4 i hi (by omega)
    · rw [if_neg hcond]
      refine ⟨by omega, le_rfl, ?_, fun i hi hin => by omega⟩
      rw [not_and_or] at hcond
      rcases hcond with h | h
      · left
        omega
      · right
        simpa using h

theorem header_forward_eq_none {ns : List Nat} (hlinks : LinksOk z (zslHeader :: ns))
    (hheader : (z.node zslHeader).height = ZSKIPLIST_MAXLEVEL) (hmax : z.level ≤ ZSKIPLIST_MAXLEVEL)
    {i : Nat} (hi : i < z.level) :
    (z.link zslHeader i).forward = none ↔ ∀ x ∈ ns, (z.node x).height ≤ i := by
  have htall : tall z i zslHeader = true := by
    rw [tall, decide_eq_true_eq, hheader]
    omega
  have hlink : z.link zslHeader i = _ := hlinks i hi zslHeader ns ⟨[], rfl⟩ htall
  rw [hlink, nextMark_eq_none]
  refine forall₂_congr fun x _ => ?_
  rw [tall, decide_eq_false_iff_not, not_lt]

end

section

variable {z : Zskiplist S M} {pre post : List Nat} {x : Nat} {update : Nat → Nat}

def UpdateLast (z : Zskiplist S M) (pre : List Nat) (update : Nat → Nat) : Prop :=
  ∀ j < z.level, ∃ rest, LastMark (tall z j) (zslHeader :: pre) (update j) rest

theorem unlink_spec (hlinks : LinksOk z (zslHeader :: (pre ++ x :: post)))
    (hnodup : (zslHeader :: (pre ++ x :: post)).Nodup) (hu : UpdateLast z pre update) :
    SameButLinks z (forLevels (unlinkLevel x update) z.level z) ∧
      LinksOk (forLevels (unlinkLevel x update) z.level z) (zslHeader :: (pre ++ post)) ∧
      (∀ i, (forLevels (unlinkLevel x update) z.level z).link x i = z.link x i) ∧
      ∀ y i, z.level ≤ i → (forLevels (unlinkLevel x update) z.level z).link y i = z.link y i := by
  obtain ⟨hsame, hlink⟩ := forLevels_spec (unlinkLevel_onLevel x update) z z.level
  set z1 := forLevels (unlinkLevel x update) z.level z with hz1
  have hsplit : zslHeader :: (pre ++ x :: post) = (zslHeader :: pre) ++ x :: post := rfl
  have hupdate : ∀ j < z.level, update j ≠ x := by
    intro j hj
    obtain ⟨rest, hmark⟩ := hu j hj
    rw [hsplit, List.nodup_append] at hnodup
    exact hnodup.2.2 _ hmark.mem x (List.mem_cons_self ..)
  refine ⟨hsame, ?_, fun i => ?_, fun y i hi => ?_⟩
  · intro j hj
    rw [hsame.level] at hj
    obtain ⟨rest, hmark⟩ := hu j hj
    have hfun : ∀ y, z1.link y j = _ := fun y => by rw [hlink y j, if_pos hj]
    have hold : LevelOk (tall z j) (fun y => z.link y j) ((zslHeader :: pre) ++ x :: post) :=
      hlinks j hj
    have hremove : LevelOk (tall z j) (fun y => z1.link y j) ((zslHeader :: pre) ++ post) := by
      apply hold.remove hnodup hmark
      · simp only [hfun, if_true]
      · intro y hy
        simp only [hfun, if_neg hy]
    exact hremove.congr (fun y _ => hsame.tall_eq j y) fun _ _ _ => rfl
  · rw [hlink x i]
    by_cases hi : i < z.level
    · simp only [if_pos hi, if_neg (Ne.symm (hupdate i hi))]
    · rw [if_neg hi]
  · rw [hlink y i, if_neg (by omega)]

end

section

variable [LinearOrder S] [LinearOrder M] {z : Zskiplist S M} {pre post : List Nat} {x : Nat}
  {ep eq : List (S ×ₗ M)} {e : S ×ₗ M} {update : Nat → Nat}

theorem zslDeleteNode_spec (h : ZslInv z (pre ++ x :: post) (ep ++ e :: eq))
    (hlen : pre.length = ep.length) (hu : UpdateLast z pre update) :
    ZslInv (zslDeleteNode z x update) (pre ++ post) (ep ++ eq) ∧
      UpdateLast (zslDeleteNode z x update) pre update ∧
      ∀ y, ((zslDeleteNode z x update).node y).score = (z.node y).score ∧
        ((zslDeleteNode z x update).node y).obj = (z.node y).obj ∧
        ((zslDeleteNode z x update).node y).height = (z.node y).height := by
  obtain ⟨hsame, hlinks1, hx1, habove1⟩ := unlink_spec h.links h.nodup hu
  set z1 := forLevels (unlinkLevel x update) z.level z with hz1
  have hsub : (zslHeader :: (pre ++ post)).Sublist (zslHeader :: (pre ++ x :: post)) :=
    ((List.sublist_cons_self x post).append_left pre).cons_cons zslHeader
  have htall : ∀ y ∈ zslHeader :: (pre ++ x :: post), tall z 0 y = true := fun y hy =>
    h.levels.tall_zero hy
  have hforward : (z1.link x 0).forward = post.head? := by
    have hlink : z.link x 0 = _ :=
      h.links 0 h.levels.pos x post ⟨zslHeader :: pre, rfl⟩ (htall x (by simp))
    rw [hx1, hlink, nextMark_zero fun y hy => htall y (by simp [hy])]
  -- the back pointers and `tail`
  set z2 := unlinkBackward z1 x with hz2
  have hfields : ∀ y, (z2.node y).score = (z.node y).score ∧ (z2.node y).obj = (z.node y).obj ∧
      (z2.node y).height = (z.node y).height ∧
      (z2.node y).backward = if post.head? = some y then (z.node x).backward
        else (z.node y).backward := by
    intro y
    rw [hz2, unlinkBackward, hforward, hsame.backward]
    cases hp : post.head? with
    | none => simp [hsame.score, hsame.obj, hsame.height, hsame.backward]
    | some f =>
      simp only [Zskiplist.setBackward, setNode_node, Option.some.injEq]
      by_cases hy : y = f
      · subst hy
        simp [hsame.score, hsame.obj, hsame.height]
      · have hy' : ¬ f = y := fun hc => hy hc.symm
        simp [hy, hy', hsame.score, hsame.obj, hsame.height, hsame.backward]
  have hlink2 : ∀ y i, z2.link y i = z1.link y i := by
    intro y i
    rw [hz2, unlinkBackward]
    split
    · exact link_setBackward ..
    · rfl
  have hrest2 : z2.tail = (if post = [] then (z.node x).backward else z.tail) ∧
      z2.length = z.length ∧ z2.level = z.level ∧ z2.fresh = z.fresh := by
    rw [hz2, unlinkBackward, hforward]
    cases post with
    | nil => exact ⟨by simp [hsame.backward], hsame.length, hsame.level, hsame.fresh⟩
    | cons f post =>
      refine ⟨?_, hsame.length, hsame.level, hsame.fresh⟩
      rw [if_neg (by simp)]
      exact hsame.tail
  obtain ⟨htail2, hlength2, hlevel2, hfresh2⟩ := hrest2
  have hdel : zslDeleteNode z x update =
      { z2 with level := lowerLevel z2 z2.level, length := z2.length - 1 } := rfl
  have hheader2 : (z2.node zslHeader).height = ZSKIPLIST_MAXLEVEL := by
    rw [(hfields zslHeader).2.2.1, h.levels.header]
  have hlinks2 : LinksOk z2 (zslHeader :: (pre ++ post)) := by
    intro j hj
    refine (hlinks1 j (by rw [hsame.level, ← hlevel2]; exact hj)).congr (fun y _ => ?_)
      fun y _ _ => hlink2 y j
    rw [tall, tall, (hfields y).2.2.1, hsame.height]
  have hmax2 : z2.level ≤ ZSKIPLIST_MAXLEVEL := by
    rw [hlevel2]
    exact h.levels.le_max
  obtain ⟨hlow1, hlow2, hlow3, hlow4⟩ := lowerLevel_spec (z := z2) z2.level
    (by rw [hlevel2]; exact h.levels.pos)
  have hheights : ∀ y ∈ pre ++ post, 1 ≤ (z2.node y).height ∧
      (z2.node y).height ≤ lowerLevel z2 z2.level := by
    intro y hy
    have hy' : y ∈ pre ++ x :: post := by
      simp only [List.mem_append, List.mem_cons] at hy ⊢
      tauto
    obtain ⟨hpos, hle⟩ := h.levels.heights y hy'
    rw [(hfields y).2.2.1]
    refine ⟨hpos, ?_⟩
    by_contra hgt
    have hlt : lowerLevel z2 z2.level < z2.level := by rw [hlevel2] at *; omega
    have hnone := hlow4 _ le_rfl hlt
    rw [header_forward_eq_none hlinks2 hheader2 hmax2 hlt] at hnone
    have hyle := hnone y hy
    rw [(hfields y).2.2.1] at hyle
    omega
  rw [hdel]
  refine ⟨?_, ?_, fun y => ⟨(hfields y).1, (hfields y).2.1, (hfields y).2.2.1⟩⟩
  · refine { nodup := h.nodup.sublist hsub, fresh := ?_, levels := ?_, links := ?_, backs := ?_,
             tail_eq := ?_, length_eq := ?_, elems := ?_, sorted := ?_ }
    · intro y hy
      show y < z2.fresh
      rw [hfresh2]
      exact h.fresh y (hsub.subset hy)
    · refine { header := hheader2, heights := hheights, pos := hlow1,
               le_max := le_trans hlow2 hmax2, top := ?_, above := ?_ }
      · rcases hlow3 with h1 | h1
        · exact Or.inl h1
        · right
          have hlt : lowerLevel z2 z2.level - 1 < z2.level := by omega
          rw [Ne, header_forward_eq_none hlinks2 hheader2 hmax2 hlt] at h1
          simp only [not_forall] at h1
          obtain ⟨y, hy, hyh⟩ := h1
          have hyle := (hheights y hy).2
          refine ⟨y, hy, ?_⟩
          show (z2.node y).height = lowerLevel z2 z2.level
          omega
      · intro i hi
        by_cases hlt : i < z2.level
        · exact hlow4 i hi hlt
        · show (z2.link zslHeader i).forward = none
          rw [hlink2, habove1 _ _ (by omega)]
          exact h.levels.above i (by omega)
    · intro j hj
      exact hlinks2 j (lt_of_lt_of_le hj hlow2)
    · apply (h.backs).remove (List.nodup_cons.mp h.nodup).2
      · intro f hf
        show (z2.node f).backward = _
        rw [(hfields f).2.2.2, if_pos hf]
      · intro y hy
        show (z2.node y).backward = _
        rw [(hfields y).2.2.2, if_neg hy]
    · show z2.tail = _
      rw [htail2]
      cases post with
      | nil =>
        have hback : (z.node x).backward = _ := h.backs pre x [] rfl
        rw [if_pos rfl, hback, List.append_nil]
      | cons f post =>
        rw [if_neg (by simp), h.tail_eq]
        simp [List.getLast?_append, List.getLast?_cons]
    · show z2.length - 1 = _
      rw [hlength2, h.length_eq]
      simp only [List.length_append, List.length_cons]
      omega
    · have helem : ∀ y, nodeElem { z2 with level := lowerLevel z2 z2.level, length := z2.length - 1 } y =
          nodeElem z y := by
        intro y
        show Option.map _ (z2.node y).obj = _
        rw [(hfields y).2.1, (hfields y).1, nodeElem]
      have helems := h.elems
      rw [List.map_append, List.map_append] at helems
      obtain ⟨h1, h2⟩ := List.append_inj helems (by simpa using hlen)
      rw [List.map_cons, List.map_cons, List.cons.injEq] at h2
      rw [List.map_congr_left fun y _ => helem y, List.map_append, List.map_append, h1, h2.2]
    · exact h.sorted.sublist ((List.sublist_cons_self e eq).append_left ep)
  · intro j hj
    obtain ⟨rest, hmark⟩ := hu j (by rw [← hlevel2]; exact lt_of_lt_of_le hj hlow2)
    refine ⟨rest, hmark.congr fun y _ => ?_⟩
    show decide (j < (z2.node y).height) = _
    rw [(hfields y).2.2.1, tall]

def countFront (cond : S ×ₗ M → Nat → Bool) : List (S ×ₗ M) → Nat → Nat
  | [], _ => 0
  | e :: es, k => if cond e k then countFront cond es (k + 1) + 1 else 0

theorem zslDeleteFrom_spec {cond : ZskiplistNode S M → Nat → Bool} {condE : S ×ₗ M → Nat → Bool}
    (hcond : ∀ (n : ZskiplistNode S M) m, n.obj = some m →
      ∀ k, cond n k = condE (toLex (n.score, m)) k) :
    ∀ (fuel : Nat) (z : Zskiplist S M) (post : List Nat) (eq : List (S ×ₗ M)) (k : Nat),
      ZslInv z (pre ++ post) (ep ++ eq) → pre.length = ep.length → UpdateLast z pre update →
      post.length ≤ fuel →
      ∃ z', zslDeleteFrom update cond fuel z post.head? k =
          (z', (eq.take (countFront condE eq k)).map fun e => (ofLex e).2) ∧
        ZslInv z' (pre ++ post.drop (countFront condE eq k))
          (ep ++ eq.drop (countFront condE eq k)) ∧
        ∀ y, (z'.node y).height = (z.node y).height := by
  intro fuel
  induction fuel with
  | zero =>
    intro z post eq k h hlen _ hfuel
    obtain rfl : post = [] := List.length_eq_zero_iff.mp (by omega)
    have hes := congrArg List.length h.elems
    simp only [List.length_map, List.length_append, List.length_nil] at hes
    obtain rfl : eq = [] := List.length_eq_zero_iff.mp (by omega)
    exact ⟨z, rfl, h, fun _ => rfl⟩
  | succ fuel ih =>
    intro z post eq k h hlen hu hfuel
    have hes := h.elems
    rw [List.map_append, List.map_append] at hes
    obtain ⟨-, hpost⟩ := List.append_inj hes (by simpa using hlen)
    cases post with
    | nil =>
      obtain rfl : eq = [] := by simpa using hpost
      exact ⟨z, rfl, h, fun _ => rfl⟩
    | cons x post =>
      cases eq with
      | nil => simp at hpost
      | cons e eq =>
        rw [List.map_cons, List.map_cons, List.cons.injEq] at hpost
        obtain ⟨m, hm, he⟩ : ∃ m, (z.node x).obj = some m ∧ toLex ((z.node x).score, m) = e := by
          have helem := hpost.1
          rw [nodeElem, Option.map_eq_some_iff] at helem
          exact helem
        have hnext : (z.link x 0).forward = post.head? := by
          have htall : ∀ y ∈ zslHeader :: (pre ++ x :: post), tall z 0 y = true := fun y hy =>
            h.levels.tall_zero hy
          have hlink : z.link x 0 = _ :=
            h.links 0 h.levels.pos x post ⟨zslHeader :: pre, rfl⟩ (htall x (by simp))
          rw [hlink, nextMark_zero fun y hy => htall y (by simp [hy])]
        rw [List.head?_cons, zslDeleteFrom, hcond _ m hm, he, countFront]
        by_cases hc : condE e k = true
        · obtain ⟨hinv, hu', hsame⟩ := zslDeleteNode_spec h hlen hu
          obtain ⟨z', hz', hinv', hheight⟩ := ih (zslDeleteNode z x update) post eq (k + 1) hinv hlen
            hu' (by simpa using hfuel)
          refine ⟨z', ?_, ?_, fun y => (hheight y).trans (hsame y).2.2⟩
          · rw [if_pos hc, if_pos hc, hnext]
            simp only [hz', hm]
            rw [← he]
            rfl
          · rw [if_pos hc]
            exact hinv'
        · refine ⟨z, ?_, ?_, fun _ => rfl⟩
          · rw [if_neg hc, if_neg hc]
            rfl
          · rw [if_neg hc]
            exact h

theorem ZslInv.search {ns : List Nat} {es : List (S ×ₗ M)} (h : ZslInv z ns es)
    {acc : Nat → Nat} {go : Nat → Nat → Bool} {goNode : Nat → Bool}
    (htrack : Tracks z (zslHeader :: ns) acc go goNode) (hzero : acc 0 = 0) :
    ∃ pre post ep eq, ns = pre ++ post ∧ es = ep ++ eq ∧ pre.length = ep.length ∧
      PlaceFound z acc goNode (zslSearch z acc go) pre post ∧
      UpdateLast z pre (zslSearch z acc go).1 ∧
      (z.link ((zslSearch z acc go).1 0) 0).forward = post.head? ∧
      (zslSearch z acc go).2 0 = acc pre.length := by
  obtain ⟨pre, post, rfl, hplace⟩ := zslSearch_spec h.links htrack h.length_eq hzero h.levels.pos
    (by rw [h.levels.header]; exact h.levels.le_max)
  have hes := h.elems
  rw [List.map_append] at hes
  obtain ⟨ep, eq, rfl, hep, heq⟩ := List.map_eq_append_iff.mp hes.symm
  have hlast : UpdateLast z pre (zslSearch z acc go).1 := by
    intro j hj
    obtain ⟨rest, hmark, -⟩ := hplace.last j hj
    exact ⟨rest, hmark⟩
  obtain ⟨rest, hmark, hrank⟩ := hplace.last 0 h.levels.pos
  obtain ⟨rfl, -⟩ := h.levels.last_zero (fun y hy => List.mem_append_left _ hy) hmark
  refine ⟨pre, post, ep, eq, rfl, rfl, ?_, hplace, hlast, ?_, by simpa using hrank⟩
  · have := congrArg List.length hep
    simpa using this.symm
  · have hlevel : LevelOk (tall z 0) (fun y => z.link y 0) ((zslHeader :: pre) ++ post) :=
      h.links 0 h.levels.pos
    have hlink := hlevel.last hmark
    simp only [List.length_nil, Nat.zero_add] at hlink
    rw [hlink, nextMark_zero fun y hy => h.levels.tall_zero (by simp [hy])]

end

end RedisCluster
