import RedisCluster.Zset.Proofs.HeapProofs

/-!
# Inserting into a skip list

`zslInsert` puts the pair at its place in the sequence and keeps the invariant, whatever level the
new node gets.
-/

namespace RedisCluster

open RedisCluster.Lib

variable {S M : Type}

section

variable [LinearOrder S] [LinearOrder M] {z : Zskiplist S M}

theorem nodeBefore_eq {x : Nat} {e : S ×ₗ M} (h : nodeElem z x = some e) (score : S) (obj : M) :
    nodeBefore z score obj x = decide (e < toLex (score, obj)) := by
  unfold nodeElem at h
  cases hobj : (z.node x).obj with
  | none => rw [hobj] at h; exact absurd h (by simp)
  | some m =>
    rw [hobj, Option.map_some, Option.some.injEq] at h
    subst h
    rw [nodeBefore, hobj, Bool.eq_iff_iff]
    simp [Prod.Lex.toLex_lt_toLex]

theorem place_of_pair {pre post : List Nat} {es : List (S ×ₗ M)} {score : S} {obj : M}
    (helems : (pre ++ post).map (nodeElem z) = es.map some) (hsorted : es.Pairwise (· < ·))
    (hlevels : LevelsOk z (pre ++ post)) (hblock : Blocked z (nodeBefore z score obj) 0 post)
    (hwent : pre = [] ∨ ∃ y, pre.getLast? = some y ∧ nodeBefore z score obj y = true) :
    ∃ ep eq, es = ep ++ eq ∧ pre.map (nodeElem z) = ep.map some ∧
      post.map (nodeElem z) = eq.map some ∧ (∀ e ∈ ep, e < toLex (score, obj)) ∧
      ∀ e ∈ eq, toLex (score, obj) ≤ e := by
  rw [List.map_append] at helems
  obtain ⟨ep, eq, rfl, hep, heq⟩ := List.map_eq_append_iff.mp helems.symm
  obtain ⟨hsp, hsq, -⟩ := List.pairwise_append.mp hsorted
  refine ⟨ep, eq, rfl, hep.symm, heq.symm, ?_, ?_⟩
  · rcases hwent with rfl | ⟨y, hy, hgo⟩
    · have : ep = [] := by simpa using hep
      simp [this]
    · obtain ⟨pre', rfl⟩ := List.getLast?_eq_some_iff.mp hy
      rw [List.map_append] at hep
      obtain ⟨ep', e', rfl, -, he'⟩ := List.map_eq_append_iff.mp hep
      obtain ⟨e, rfl⟩ : ∃ e, e' = [e] := by
        cases e' with
        | nil => simp at he'
        | cons e t =>
          refine ⟨e, ?_⟩
          simp only [List.map_cons, List.map_nil, List.cons.injEq, List.map_eq_nil_iff] at he'
          rw [he'.2]
      have hey : nodeElem z y = some e := by simpa using he'.symm
      rw [nodeBefore_eq hey, decide_eq_true_eq] at hgo
      intro w hw
      rcases List.mem_append.mp hw with hw | hw
      · exact lt_trans ((List.pairwise_append.mp hsp).2.2 w hw e (by simp)) hgo
      · rw [List.mem_singleton.mp hw]
        exact hgo
  · cases post with
    | nil =>
      have : eq = [] := by simpa using heq
      simp [this]
    | cons f post =>
      cases eq with
      | nil => simp at heq
      | cons e eq =>
        have hef : nodeElem z f = some e := by
          simp only [List.map_cons, List.cons.injEq] at heq
          exact heq.1.symm
        have htall : tall z 0 f = true := hlevels.tall_zero (by simp)
        have hnot := hblock f (nextMark_cons_of_mark htall post)
        rw [nodeBefore_eq hef, decide_eq_false_iff_not, not_lt] at hnot
        intro w hw
        rcases List.mem_cons.mp hw with rfl | hw
        · exact hnot
        · exact le_of_lt (lt_of_le_of_lt hnot ((List.pairwise_cons.mp hsq).1 w hw))

end

def UpdateOk (z : Zskiplist S M) (pre : List Nat) (update rank : Nat → Nat) (n : Nat) : Prop :=
  ∀ j < n, ∃ rest, LastMark (tall z j) (zslHeader :: pre) (update j) rest ∧
    rank j = uint (pre.length - rest.length)

section

variable {z : Zskiplist S M} {pre post : List Nat}

theorem raiseLevel_spec {level : Nat} {update rank : Nat → Nat}
    (hlevels : LevelsOk z (pre ++ post)) (hlinks : LinksOk z (zslHeader :: (pre ++ post)))
    (hnodup : (zslHeader :: (pre ++ post)).Nodup) (hlen : z.length = (pre ++ post).length)
    (hmax : level ≤ ZSKIPLIST_MAXLEVEL) (hu : UpdateOk z pre update rank z.level) :
    ∃ z1 update1 rank1, raiseLevel level z update rank = (z1, update1, rank1) ∧
      SameButLinks z { z1 with level := z.level } ∧ z1.level = max level z.level ∧
      LinksOk z1 (zslHeader :: (pre ++ post)) ∧ UpdateOk z pre update1 rank1 z1.level ∧
      update1 0 = update 0 ∧ ∀ i, z1.level ≤ i → (z1.link zslHeader i).forward = none := by
  have hpos := hlevels.pos
  by_cases hraise : level > z.level
  · obtain ⟨hsame, hlink⟩ := forLevels_spec (raiseHeader_onLevel z.level z.length) z level
    set z1 := raiseHeader z level with hz1
    have hlow : ∀ x i, i < z.level → z1.link x i = z.link x i := by
      intro x i hi
      have h := hlink x i
      rw [if_pos (show i < level by omega), if_pos hi] at h
      exact h
    have hnotall : ∀ j, z.level ≤ j → ∀ x ∈ pre ++ post, tall z j x = false := by
      intro j hj x hx
      have := (hlevels.heights x hx).2
      rw [tall, decide_eq_false_iff_not]
      omega
    refine ⟨{ z1 with level := level }, _, _, by rw [raiseLevel, if_pos hraise], ?_, ?_, ?_, ?_, ?_, ?_⟩
    · exact ⟨hsame.score, hsame.obj, hsame.backward, hsame.height, hsame.tail, hsame.length, rfl,
        hsame.fresh⟩
    · simp only
      omega
    · intro i hi
      have htall : ∀ y, tall ({ z1 with level := level } : Zskiplist S M) i y = tall z i y :=
        fun y => hsame.tall_eq i y
      by_cases hil : i < z.level
      · exact (hlinks i hil).congr (fun y _ => htall y) (fun y _ _ => hlow y i hil)
      · -- only the header is on a new level
        intro y after hy hty
        rw [htall] at hty
        have hyh : y = zslHeader := by
          rcases List.mem_cons.mp (hy.subset (List.mem_cons_self ..)) with h | h
          · exact h
          · rw [hnotall i (by omega) y h] at hty
            exact absurd hty (by simp)
        subst hyh
        have hafter : after = pre ++ post :=
          suffix_cons_unique hnodup hy (List.suffix_refl _)
        subst hafter
        have hnone : nextMark (tall ({ z1 with level := level } : Zskiplist S M) i) (pre ++ post)
            = none := by
          rw [nextMark_eq_none]
          intro x hx
          rw [htall]
          exact hnotall i (by omega) x hx
        have h := hlink zslHeader i
        rw [if_pos hi, if_neg hil, if_pos rfl] at h
        have h' : z1.link zslHeader i = _ := h
        rw [stepsTo_of_none hnone, hnone, ← hlen]
        show z1.link zslHeader i = _
        rw [h']
        simp only [hlevels.above i (by omega)]
    · intro j hj
      by_cases hjl : j < z.level
      · obtain ⟨rest, h1, h2⟩ := hu j hjl
        exact ⟨rest, by simpa only [if_pos hjl] using h1, by simp only [if_pos hjl, h2]⟩
      · refine ⟨pre, ?_, by simp [if_neg hjl, uint]⟩
        simp only [if_neg hjl]
        refine ⟨⟨[], rfl⟩, hlevels.tall_header ?_, fun y hy => ?_⟩
        · simp only at hj
          omega
        · exact hnotall j (by omega) y (List.mem_append_left _ hy)
    · rw [if_pos (by omega)]
    · intro i hi
      simp only at hi
      have h : z1.link zslHeader i = _ := hlink zslHeader i
      rw [if_neg (by omega)] at h
      show (z1.link zslHeader i).forward = none
      rw [h]
      exact hlevels.above i (by omega)
  · refine ⟨z, update, rank, by rw [raiseLevel, if_neg hraise], SameButLinks.refl z, ?_, hlinks, hu,
      rfl, hlevels.above⟩
    omega

theorem linkNode_spec {x level : Nat} {update rank : Nat → Nat}
    (hlinks : LinksOk z (zslHeader :: (pre ++ post)))
    (hnodup : (zslHeader :: (pre ++ x :: post)).Nodup) (hheight : (z.node x).height = level)
    (hlevel : level ≤ z.level) (hu : UpdateOk z pre update rank z.level)
    (hrank : rank 0 = uint pre.length) :
    SameButLinks z (linkNode z x level update rank) ∧
      LinksOk (linkNode z x level update rank) (zslHeader :: (pre ++ x :: post)) ∧
      ∀ y i, z.level ≤ i → (linkNode z x level update rank).link y i = z.link y i := by
  obtain ⟨hsame1, hlink1⟩ := forLevels_spec (linkLevel_onLevel x update rank) z level
  obtain ⟨hsame2, hlink2⟩ := forLevels_spec (bumpLevel_onLevel level update)
    (forLevels (linkLevel x update rank) level z) (forLevels (linkLevel x update rank) level z).level
  have hsame := hsame1.trans hsame2
  set z1 := forLevels (linkLevel x update rank) level z with hz1
  have hz2 : linkNode z x level update rank = forLevels (bumpLevel level update) z1.level z1 := rfl
  rw [hsame1.level] at hsame hlink2 hz2
  refine ⟨hz2 ▸ hsame, ?_, ?_⟩
  · intro j hj
    rw [hz2, hsame.level] at hj
    obtain ⟨rest, hmark, hr⟩ := hu j hj
    have htall : ∀ y, tall (linkNode z x level update rank) j y = tall z j y :=
      fun y => hz2 ▸ hsame.tall_eq j y
    have hold := hlinks j hj
    rw [← List.cons_append] at hold hnodup ⊢
    have hne : x ≠ update j := by
      intro hc
      exact (List.nodup_append.mp hnodup).2.2 _ hmark.mem x (List.mem_cons_self ..) hc.symm
    have hrestlen : rest.length ≤ pre.length := by
      obtain ⟨⟨before, hb⟩, -, -⟩ := hmark
      have := congrArg List.length hb
      simp only [List.length_append, List.length_cons] at this
      omega
    -- the skipped steps: from `update[j]` to the place
    have hskip : uint (rank 0 + (2 ^ 32 - rank j)) = uint rest.length := by
      rw [hrank, hr, uint_sub (by omega)]
      congr 1
      omega
    by_cases hlt : j < level
    · have hfun : ∀ y, (linkNode z x level update rank).link y j = z1.link y j := by
        intro y
        rw [hz2, hlink2, if_pos hj, if_pos hlt]
      have hfun1 : ∀ y, z1.link y j = _ := fun y => by rw [hlink1 y j, if_pos hlt]
      have hnew : tall z j x = true := by
        rw [tall, decide_eq_true_eq, hheight]
        exact hlt
      have hins : LevelOk (tall z j) (fun y => (linkNode z x level update rank).link y j)
          ((zslHeader :: pre) ++ x :: post) := by
        apply hold.insert_mark hnodup hmark hnew
        · simp only [hfun, hfun1, if_neg hne, if_true, hskip]
        · simp only [hfun, hfun1, if_true, hskip]
        · intro y hyu hyx
          simp only [hfun, hfun1, if_neg hyu, if_neg hyx]
      exact hins.congr (fun y _ => htall y) fun _ _ _ => rfl
    · have hfun : ∀ y, (linkNode z x level update rank).link y j = _ := fun y => by
        rw [hz2, hlink2 y j, if_pos hj, if_neg hlt]
      have hfun1 : ∀ y, z1.link y j = z.link y j := fun y => by rw [hlink1 y j, if_neg hlt]
      have hnew : tall z j x = false := by
        rw [tall, decide_eq_false_iff_not, hheight]
        exact hlt
      have hins : LevelOk (tall z j) (fun y => (linkNode z x level update rank).link y j)
          ((zslHeader :: pre) ++ x :: post) := by
        apply hold.insert_unmarked hnodup hmark hnew
        · simp only [hfun, hfun1, if_true]
        · intro y hyu _
          simp only [hfun, hfun1, if_neg hyu]
      exact hins.congr (fun y _ => htall y) fun _ _ _ => rfl
  · intro y i hi
    rw [hz2, hlink2, if_neg (by omega), hlink1, if_neg (by omega)]

theorem Backs.insert {back back' : Nat → Option Nat} {x : Nat} (h : Backs back (pre ++ post))
    (hnodup : (pre ++ x :: post).Nodup) (hx : back' x = pre.getLast?)
    (hhead : ∀ f, post.head? = some f → back' f = some x)
    (hother : ∀ y, y ≠ x → post.head? ≠ some y → back' y = back y) :
    Backs back' (pre ++ x :: post) := by
  intro a y b hab
  obtain ⟨hpre, hxpost, hdisj⟩ := List.nodup_append.mp hnodup
  have hxnot : x ∉ post := (List.nodup_cons.mp hxpost).1
  have hpostnd : post.Nodup := (List.nodup_cons.mp hxpost).2
  rcases List.append_eq_append_iff.mp hab with ⟨d, rfl, hd⟩ | ⟨d, rfl, hd⟩
  · cases d with
    | nil =>
      simp only [List.nil_append, List.cons.injEq] at hd
      rw [← hd.1, List.append_nil, hx]
    | cons w d =>
      simp only [List.cons_append, List.cons.injEq] at hd
      obtain ⟨rfl, rfl⟩ := hd
      cases d with
      | nil =>
        rw [hhead y rfl]
        simp
      | cons v d =>
        have hyx : y ≠ x := by
          rintro rfl
          exact hxnot (by simp)
        have hnh : (v :: d ++ y :: b).head? ≠ some y := by
          intro hc
          simp only [List.cons_append, List.head?_cons, Option.some.injEq] at hc
          subst hc
          simp at hpostnd
        rw [hother y hyx hnh, h (pre ++ v :: d) y b (by simp)]
        simp [List.getLast?_append, List.getLast?_cons]
  · cases d with
    | nil =>
      simp only [List.nil_append, List.cons.injEq] at hd
      rw [hd.1, hx]
      simp
    | cons w d =>
      simp only [List.cons_append, List.cons.injEq] at hd
      obtain ⟨rfl, rfl⟩ := hd
      have hyx : y ≠ x := hdisj y (by simp) x (by simp)
      have hyp : y ∉ post := fun hc => hdisj y (by simp) y (List.mem_cons_of_mem _ hc) rfl
      have hnh : post.head? ≠ some y := fun hc => hyp (List.mem_of_head? hc)
      rw [hother y hyx hnh, h a y (d ++ post) (by simp)]

theorem linkBackward_spec (z : Zskiplist S M) (x u : Nat) (hx : (z.link x 0).forward ≠ some x) :
    (∀ y, ((linkBackward z x u).node y).score = (z.node y).score ∧
      ((linkBackward z x u).node y).obj = (z.node y).obj ∧
      ((linkBackward z x u).node y).height = (z.node y).height ∧
      ((linkBackward z x u).node y).backward =
        if (z.link x 0).forward = some y then some x
        else if y = x then (if u = zslHeader then none else some u) else (z.node y).backward) ∧
    (∀ y i, (linkBackward z x u).link y i = z.link y i) ∧
    (linkBackward z x u).tail = (if (z.link x 0).forward = none then some x else z.tail) ∧
    (linkBackward z x u).length = z.length + 1 ∧ (linkBackward z x u).level = z.level ∧
    (linkBackward z x u).fresh = z.fresh := by
  unfold linkBackward
  simp only [link_setBackward]
  cases hf : (z.link x 0).forward with
  | none =>
    refine ⟨fun y => ?_, fun y i => link_setBackward .., by simp, rfl, rfl, rfl⟩
    simp only [Zskiplist.setBackward, setNode_node]
    by_cases hy : y = x
    · subst hy
      simp
    · simp [hy]
  | some f =>
    have hfx : f ≠ x := fun hc => hx (by rw [hf, hc])
    refine ⟨fun y => ?_, fun y i => ?_, by simp [Zskiplist.setBackward, Zskiplist.setNode], rfl, rfl,
      rfl⟩
    · simp only [Zskiplist.setBackward, setNode_node]
      by_cases hyf : y = f
      · subst hyf
        simp [hfx]
      · have hyf' : ¬ f = y := fun hc => hyf hc.symm
        by_cases hy : y = x
        · subst hy
          simp [hyf, hyf']
        · simp [hy, hyf, hyf']
    · exact (link_setBackward ..).trans (link_setBackward ..)

end

section

variable [LinearOrder S] [LinearOrder M] {z : Zskiplist S M} {ns : List Nat} {es : List (S ×ₗ M)}

theorem zslInsert_spec (h : ZslInv z ns es) (score : S) (obj : M) {level : Nat}
    (hlevel : 1 ≤ level ∧ level ≤ ZSKIPLIST_MAXLEVEL) (hnew : toLex (score, obj) ∉ es) :
    ∃ pre post ep eq z', zslInsert z score obj level = (z', z.fresh) ∧
      ns = pre ++ post ∧ es = ep ++ eq ∧ pre.length = ep.length ∧
      (∀ e ∈ ep, e < toLex (score, obj)) ∧ (∀ e ∈ eq, toLex (score, obj) < e) ∧
      ZslInv z' (pre ++ z.fresh :: post) (ep ++ toLex (score, obj) :: eq) ∧
      (z'.node z.fresh).height = level ∧
      ∀ y, y ≠ z.fresh → (z'.node y).height = (z.node y).height := by
  obtain ⟨pre, post, rfl, hplace⟩ := zslSearch_spec h.links
    (tracks_node z _ (nodeBefore z score obj)) h.length_eq rfl h.levels.pos
    (by rw [h.levels.header]; exact h.levels.le_max)
  set found := zslSearch z uint fun f _ => nodeBefore z score obj f with hfound
  obtain ⟨ep, eq, rfl, hep, heq, hbefore, hafter⟩ :=
    place_of_pair h.elems h.sorted h.levels hplace.stop hplace.went
  have hafter' : ∀ e ∈ eq, toLex (score, obj) < e := by
    intro e he
    refine lt_of_le_of_ne (hafter e he) ?_
    rintro rfl
    exact hnew (List.mem_append_right _ he)
  obtain ⟨z1, update, rank, hraise, hsame1, hlevel1, hlinks1, hu, hu0, habove1⟩ :=
    raiseLevel_spec h.levels h.links h.nodup h.length_eq hlevel.2 hplace.last
  set x := z.fresh with hxdef
  have hxnot : x ∉ zslHeader :: (pre ++ post) := fun hc => lt_irrefl _ (h.fresh x hc)
  have hxh : zslHeader ≠ x := fun hc => hxnot (hc ▸ List.mem_cons_self ..)
  have hnodup : (zslHeader :: (pre ++ x :: post)).Nodup := by
    have hperm : (zslHeader :: (pre ++ x :: post)).Perm (x :: zslHeader :: (pre ++ post)) :=
      (List.Perm.cons _ List.perm_middle).trans (List.Perm.swap ..)
    rw [hperm.nodup_iff, List.nodup_cons]
    exact ⟨hxnot, h.nodup⟩
  -- the list with the new node, not linked yet
  set z2 : Zskiplist S M := { z1.setNode x (zslCreateNode level score (some obj)) with fresh := x + 1 }
    with hz2
  have hnode2 : ∀ y, y ≠ x → z2.node y = z1.node y := by
    intro y hy
    rw [hz2]
    simp only [setNode_node, if_neg hy]
  have hnew2 : z2.node x = zslCreateNode level score (some obj) := by
    rw [hz2]
    simp only [setNode_node, if_true]
  have hmem : ∀ y ∈ zslHeader :: (pre ++ post), y ≠ x := fun y hy hc => hxnot (hc ▸ hy)
  have htall2 : ∀ j, ∀ y ∈ zslHeader :: (pre ++ post), tall z2 j y = tall z1 j y := by
    intro j y hy
    rw [tall, tall, hnode2 y (hmem y hy)]
  have htall1 : ∀ j y, tall z1 j y = tall z j y := fun j y => hsame1.tall_eq j y
  have hlinks2 : LinksOk z2 (zslHeader :: (pre ++ post)) := by
    intro j hj
    refine (hlinks1 j hj).congr (htall2 j) fun y hy _ => ?_
    simp only [Zskiplist.link, hnode2 y (hmem y hy)]
  have hu2 : UpdateOk z2 pre update rank z2.level := by
    intro j hj
    obtain ⟨rest, hmark, hr⟩ := hu j hj
    refine ⟨rest, hmark.congr fun y hy => ?_, hr⟩
    rw [htall2 j y (by
      rcases List.mem_cons.mp hy with rfl | hy
      · exact List.mem_cons_self ..
      · exact List.mem_cons_of_mem _ (List.mem_append_left _ hy)), htall1]
  have hlast0 : rank 0 = uint pre.length ∧
      (if update 0 = zslHeader then none else some (update 0)) = pre.getLast? := by
    have hpos1 : 0 < z1.level := by rw [hlevel1]; omega
    obtain ⟨rest, hmark, hr⟩ := hu 0 hpos1
    obtain ⟨rfl, hlast⟩ := h.levels.last_zero (fun y hy => List.mem_append_left _ hy) hmark
    refine ⟨by simpa using hr, ?_⟩
    rw [← hlast]
    by_cases hpre : pre = []
    · obtain ⟨⟨before, hbefore'⟩, -, -⟩ := hmark
      have : update 0 = zslHeader := by
        subst hpre
        have := congrArg List.getLast? hbefore'
        simpa using this.symm
      simp [this, hpre]
    · have hne : update 0 ≠ zslHeader := by
        intro hc
        rw [if_neg (by simp [hpre]), hc] at hlast
        have hmem' : zslHeader ∈ pre := List.mem_of_getLast? hlast.symm
        exact (List.nodup_cons.mp h.nodup).1 (List.mem_append_left _ hmem')
      simp [hne]
  have hle2 : level ≤ z2.level := by
    show level ≤ z1.level
    rw [hlevel1]
    exact le_max_left ..
  obtain ⟨hsame3, hlinks3, hhigh3⟩ := linkNode_spec (z := z2) hlinks2 hnodup
    (by rw [hnew2, zslCreateNode]) hle2 hu2 hlast0.1
  set z3 := linkNode z2 x level update rank with hz3
  have hlevel3 : z3.level = max level z.level := hsame3.level.trans hlevel1
  have hheight3 : ∀ y, y ≠ x → (z3.node y).height = (z.node y).height := fun y hy => by
    rw [hsame3.height, hnode2 y hy]
    exact hsame1.height y
  have hheightx : (z3.node x).height = level := by
    rw [hsame3.height, hnew2]
    rfl
  have htallpost : ∀ y ∈ post, tall z3 0 y = true := by
    intro y hy
    have hmem' : y ∈ zslHeader :: (pre ++ post) := by simp [hy]
    rw [tall, hheight3 y (hmem y hmem')]
    exact h.levels.tall_zero hmem'
  have htallx : tall z3 0 x = true := by
    rw [tall, decide_eq_true_eq, hheightx]
    omega
  have hforward : (z3.link x 0).forward = post.head? := by
    have hpos3 : 0 < z3.level := by rw [hlevel3]; omega
    have hlink : z3.link x 0 = _ :=
      hlinks3 0 hpos3 x post ⟨zslHeader :: pre, by simp⟩ htallx
    rw [hlink, nextMark_zero htallpost]
  have hxpost : x ∉ post := fun hc => hxnot (by simp [hc])
  have hfx : (z3.link x 0).forward ≠ some x := by
    rw [hforward]
    exact fun hc => hxpost (List.mem_of_head? hc)
  obtain ⟨hfields, hlink4, htail4, hlength4, hlevel4, hfresh4⟩ :=
    linkBackward_spec z3 x (update 0) hfx
  set z4 := linkBackward z3 x (update 0) with hz4
  have hinsert : zslInsert z score obj level = (z4, x) := by
    have hfr : z1.fresh = x := hsame1.fresh
    simp only [zslInsert, ← hfound, hraise, hfr]
    rfl
  have helem : ∀ y ∈ pre ++ post, nodeElem z4 y = nodeElem z y := by
    intro y hy
    have hne := hmem y (List.mem_cons_of_mem _ hy)
    obtain ⟨h1, h2, -⟩ := hfields y
    rw [nodeElem, nodeElem, h1, h2, hsame3.score, hsame3.obj, hnode2 y hne]
    show Option.map _ (z1.node y).obj = _
    rw [show (z1.node y).obj = (z.node y).obj from hsame1.obj y,
      show (z1.node y).score = (z.node y).score from hsame1.score y]
  have helemx : nodeElem z4 x = some (toLex (score, obj)) := by
    obtain ⟨h1, h2, -⟩ := hfields x
    rw [nodeElem, h1, h2, hsame3.score, hsame3.obj, hnew2]
    rfl
  have hlength : pre.length = ep.length := by simpa using congrArg List.length hep
  refine ⟨pre, post, ep, eq, z4, hinsert, rfl, rfl, hlength, hbefore, hafter', ?_, ?_, ?_⟩
  · refine { nodup := hnodup, fresh := ?_, levels := ?_, links := ?_, backs := ?_, tail_eq := ?_,
             length_eq := ?_, elems := ?_, sorted := ?_ }
    · intro y hy
      have hfr : z4.fresh = x + 1 := hfresh4.trans hsame3.fresh
      rw [hfr]
      by_cases hyx : y = x
      · omega
      · have hy' : y ∈ zslHeader :: (pre ++ post) := by
          simp only [List.mem_cons, List.mem_append] at hy ⊢
          tauto
        have := h.fresh y hy'
        omega
    · refine { header := ?_, heights := ?_, pos := ?_, le_max := ?_, top := ?_, above := ?_ }
      · rw [(hfields zslHeader).2.2.1, hheight3 _ hxh, h.levels.header]
      · intro y hy
        rw [(hfields y).2.2.1, hlevel4, hlevel3]
        by_cases hyx : y = x
        · rw [hyx, hheightx]
          omega
        · have hy' : y ∈ pre ++ post := by
            simp only [List.mem_cons, List.mem_append] at hy ⊢
            tauto
          rw [hheight3 y hyx]
          have := h.levels.heights y hy'
          omega
      · rw [hlevel4, hlevel3]
        omega
      · rw [hlevel4, hlevel3]
        exact max_le hlevel.2 h.levels.le_max
      · rw [hlevel4, hlevel3]
        by_cases hle : z.level ≤ level
        · right
          exact ⟨x, by simp, by rw [(hfields x).2.2.1, hheightx, max_eq_left hle]⟩
        · rw [max_eq_right (by omega)]
          rcases h.levels.top with h1 | ⟨y, hy, hyh⟩
          · exact Or.inl h1
          · right
            have hne := hmem y (List.mem_cons_of_mem _ hy)
            refine ⟨y, ?_, by rw [(hfields y).2.2.1, hheight3 y hne, hyh]⟩
            simp only [List.mem_cons, List.mem_append] at hy ⊢
            tauto
      · intro i hi
        have hi2 : z2.level ≤ i := by rw [← hsame3.level]; rwa [hlevel4] at hi
        rw [hlink4, hhigh3 _ _ hi2]
        have : z2.link zslHeader i = z1.link zslHeader i := by
          simp only [Zskiplist.link, hnode2 _ hxh]
        rw [this]
        exact habove1 i hi2
    · intro j hj
      rw [hlevel4] at hj
      refine (hlinks3 j hj).congr (fun y _ => ?_) fun y _ _ => hlink4 y j
      rw [tall, tall, (hfields y).2.2.1]
    · have hback : Backs (fun y => (z.node y).backward) (pre ++ post) := h.backs
      apply hback.insert (List.nodup_cons.mp hnodup).2
      · show (z4.node x).backward = _
        rw [(hfields x).2.2.2, if_neg hfx, if_pos rfl, hlast0.2]
      · intro f hf
        show (z4.node f).backward = _
        rw [(hfields f).2.2.2, hforward, if_pos hf]
      · intro y hyx hyh
        show (z4.node y).backward = _
        rw [(hfields y).2.2.2, hforward, if_neg hyh, if_neg hyx, hsame3.backward, hnode2 y hyx]
        exact hsame1.backward y
    · rw [htail4, hforward]
      cases post with
      | nil => simp
      | cons f post =>
        simp only [List.head?_cons, reduceCtorEq, if_false]
        have h1 : z3.tail = z.tail := hsame3.tail.trans hsame1.tail
        rw [h1, h.tail_eq]
        simp [List.getLast?_append, List.getLast?_cons]
    · have h1 : z3.length = z.length := hsame3.length.trans hsame1.length
      rw [hlength4, h1, h.length_eq]
      simp only [List.length_append, List.length_cons]
      omega
    · rw [List.map_append, List.map_append, List.map_cons, List.map_cons, helemx, ← hep, ← heq]
      congr 1
      · exact List.map_congr_left fun y hy => helem y (List.mem_append_left _ hy)
      · congr 1
        exact List.map_congr_left fun y hy => helem y (List.mem_append_right _ hy)
    · obtain ⟨h1, h2, h3⟩ := List.pairwise_append.mp h.sorted
      rw [List.pairwise_append, List.pairwise_cons]
      refine ⟨h1, ⟨hafter', h2⟩, fun a ha b hb => ?_⟩
      rcases List.mem_cons.mp hb with rfl | hb
      · exact hbefore a ha
      · exact h3 a ha b hb
  · rw [(hfields x).2.2.1, hheightx]
  · intro y hy
    rw [(hfields y).2.2.1, hheight3 y hy]

end

end RedisCluster
