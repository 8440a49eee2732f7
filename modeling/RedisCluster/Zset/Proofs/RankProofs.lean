import RedisCluster.Zset.Proofs.RangeProofs

/-!
# Ranks in a skip list: proofs

On each level the search for a rank stands at the last node of that level before the place, at its true rank. The
search by member stops at a node with the member, whatever its score.
-/

namespace RedisCluster

open RedisCluster.Lib

section

variable {S M : Type} (z : Zskiplist S M) (go found : Nat → Nat → Bool)

theorem zslDescendUntil_cases (n x rank : Nat) :
    (zslDescendUntil z go found n x rank = none ∧
        ∀ j < n, found ((zslDescend z id go n x rank).1 j) ((zslDescend z id go n x rank).2 j) = false) ∨
      ∃ j < n, zslDescendUntil z go found n x rank =
          some ((zslDescend z id go n x rank).1 j, (zslDescend z id go n x rank).2 j) ∧
        found ((zslDescend z id go n x rank).1 j) ((zslDescend z id go n x rank).2 j) = true := by
  induction n generalizing x rank with
  | zero => exact .inl ⟨rfl, fun j hj => absurd hj (Nat.not_lt_zero j)⟩
  | succ n ih =>
    rw [zslDescendUntil, zslDescend]
    generalize zslWalk z id go n (z.length + 1) x rank = r
    have htop : ∀ (f : Nat → Nat) (v : Nat), Function.update f n v n = v := fun f v => Function.update_self n v f
    have hlow : ∀ (f : Nat → Nat) (v : Nat) {j : Nat}, j < n → Function.update f n v j = f j :=
      fun f v j hj => Function.update_of_ne (by omega) v f
    by_cases hfound : found r.1 r.2 = true
    · refine .inr ⟨n, Nat.lt_succ_self n, ?_, ?_⟩
      · simp only [if_pos hfound, htop]
      · simp only [htop]
        exact hfound
    · have hnot : found r.1 r.2 = false := by simpa using hfound
      simp only [if_neg hfound]
      rcases ih r.1 r.2 with ⟨hnone, hall⟩ | ⟨j, hj, hsome, hj'⟩
      · refine .inl ⟨hnone, fun j hj => ?_⟩
        rcases Nat.lt_succ_iff_lt_or_eq.mp hj with hj | rfl
        · rw [hlow _ _ hj, hlow _ _ hj]
          exact hall j hj
        · rw [htop, htop]
          exact hnot
      · refine .inr ⟨j, Nat.lt_succ_of_lt hj, ?_, ?_⟩
        · rw [hlow _ _ hj, hlow _ _ hj]
          exact hsome
        · rw [hlow _ _ hj, hlow _ _ hj]
          exact hj'

theorem zslSearchUntil_cases :
    (zslDescendUntil z go found z.level zslHeader 0 = none ∧
        ∀ j < z.level, found ((zslSearch z id go).1 j) ((zslSearch z id go).2 j) = false) ∨
      ∃ j < z.level, zslDescendUntil z go found z.level zslHeader 0 =
          some ((zslSearch z id go).1 j, (zslSearch z id go).2 j) ∧
        found ((zslSearch z id go).1 j) ((zslSearch z id go).2 j) = true :=
  zslDescendUntil_cases z go found z.level zslHeader 0

end

section

variable {S M : Type} [LinearOrder S] [LinearOrder M] {z : Zskiplist S M} {ns : List Nat} {es : List (S ×ₗ M)}

/-- A list with exact spans whose header is no element and that has each member once. -/
structure ZslWellFormed (z : Zskiplist S M) (ns : List Nat) (es : List (S ×ₗ M)) : Prop where
  inv : ZslInv z ns es
  gaps : GapsFit z
  header : (z.node zslHeader).obj = none
  members : (es.map fun e => (ofLex e).2).Nodup

theorem ZslInv.tracks_long (h : ZslInv z ns es) (hfit : GapsFit z) (goNode : Nat → Bool) :
    Tracks z (zslHeader :: ns) id (fun f _ => goNode f) goNode := by
  intro i hi c x post f hsplit htall _
  have hlt := hfit i hi c x post (by rw [h.levelNodes_zero]; exact hsplit) htall
  rw [uint_of_lt hlt]
  exact ⟨rfl, rfl⟩

/-- Where a search for a rank stands on each level. -/
structure Stands (z : Zskiplist S M) (go : Nat → Nat → Bool) (pre : List Nat) : Prop where
  level : ∀ j < z.level, ∃ rest, LastMark (tall z j) (zslHeader :: pre) ((zslSearch z id go).1 j) rest ∧
    (zslSearch z id go).2 j + rest.length = pre.length
  bottom : (zslSearch z id go).2 0 = pre.length

theorem ZslInv.stands (h : ZslInv z ns es) {go : Nat → Nat → Bool} {goNode : Nat → Bool}
    (htrack : Tracks z (zslHeader :: ns) id go goNode) (hclosed : DownClosed goNode ns) :
    Stands z go (ns.takeWhile goNode) := by
  obtain ⟨pre, post, ep, eq, rfl, -, -, hplace, -, -, hrank⟩ := h.search htrack rfl
  have hpost : ∀ y, post.head? = some y → goNode y = false := fun y hy => hplace.stop y (by
    rw [nextMark_zero fun x hx => h.levels.tall_zero (List.mem_cons_of_mem _ (List.mem_append_right _ hx)), hy])
  obtain ⟨hpre, -⟩ := place_eq hclosed hplace.went hpost
  rw [← hpre]
  refine ⟨fun j hj => ?_, hrank⟩
  obtain ⟨rest, hmark, hrank⟩ := hplace.last j hj
  refine ⟨rest, hmark, ?_⟩
  obtain ⟨before, hbefore⟩ := hmark.1
  have hlen := congrArg List.length hbefore
  simp only [List.length_cons, List.length_append] at hlen
  rw [hrank]
  show pre.length - rest.length + rest.length = pre.length
  omega

omit [LinearOrder S] [LinearOrder M] in
theorem Stands.getElem {go : Nat → Nat → Bool} {pre : List Nat} (h : Stands z go pre) {j : Nat} (hj : j < z.level) :
    (zslHeader :: pre)[(zslSearch z id go).2 j]? = some ((zslSearch z id go).1 j) := by
  obtain ⟨rest, hmark, hrank⟩ := h.level j hj
  obtain ⟨before, hbefore⟩ := hmark.1
  have hlen := congrArg List.length hbefore
  simp only [List.length_cons, List.length_append] at hlen
  have hbefore' : before.length = (zslSearch z id go).2 j := by omega
  rw [hbefore, ← hbefore', List.getElem?_append_right (Nat.le_refl _), Nat.sub_self]
  rfl

theorem Stands.at_iff {go : Nat → Nat → Bool} {pre before behind : List Nat} {x : Nat} (h : Stands z go pre)
    (hinv : ZslInv z ns es) (hsub : pre.Sublist ns) (hpre : pre = before ++ x :: behind) :
    (∃ j < z.level, (zslSearch z id go).1 j = x) ↔ ∀ y ∈ behind, (z.node y).height < (z.node x).height := by
  have hnodup : (zslHeader :: pre).Nodup := hinv.nodup.sublist (hsub.cons_cons zslHeader)
  have hsuffix : (x :: behind) <:+ (zslHeader :: pre) := ⟨zslHeader :: before, by rw [hpre]; rfl⟩
  have hx : x ∈ ns := hsub.subset (by rw [hpre]; simp)
  constructor
  · rintro ⟨j, hj, rfl⟩ y hy
    obtain ⟨rest, hmark, -⟩ := h.level j hj
    obtain ⟨before', hbefore'⟩ := hmark.1
    rw [suffix_cons_unique hnodup hsuffix ⟨before', hbefore'.symm⟩] at hy
    have hlow := hmark.2.2 y hy
    have hhigh := hmark.2.1
    simp only [tall, decide_eq_false_iff_not, decide_eq_true_eq] at hlow hhigh
    omega
  · intro hall
    obtain ⟨hpos, hle⟩ := hinv.levels.heights x hx
    obtain ⟨rest, hmark, -⟩ := h.level ((z.node x).height - 1) (by omega)
    have htall : tall z ((z.node x).height - 1) x = true := by
      rw [tall, decide_eq_true_eq]
      omega
    refine ⟨(z.node x).height - 1, by omega, ?_⟩
    rcases hmark.cases hnodup hsuffix htall with ⟨heq, -⟩ | ⟨-, y, hy, htally⟩
    · exact heq.symm
    · rw [tall, decide_eq_true_eq] at htally
      have := hall y hy
      omega

theorem takeWhile_idxOf (k : Nat) (c l : List Nat) (hnodup : (c ++ l).Nodup) :
    l.takeWhile (fun f => decide ((c ++ l).idxOf f < k)) = l.take (k - c.length) := by
  induction l generalizing c with
  | nil => rw [List.take_nil]; rfl
  | cons x l ih =>
    have hx : x ∉ c := fun hc => (List.nodup_append.mp hnodup).2.2 x hc x List.mem_cons_self rfl
    have hidx : (c ++ x :: l).idxOf x = c.length := by
      rw [List.idxOf_append_of_notMem hx, List.idxOf_cons_self, Nat.add_zero]
    have hassoc : c ++ x :: l = (c ++ [x]) ++ l := by simp
    by_cases hlt : c.length < k
    · have hrest := ih (c ++ [x]) (hassoc ▸ hnodup)
      rw [← hassoc, List.length_append, List.length_singleton] at hrest
      have hsucc : k - c.length = (k - (c.length + 1)) + 1 := by omega
      rw [List.takeWhile_cons_of_pos (by rw [hidx]; exact decide_eq_true hlt), hrest, hsucc, List.take_succ_cons]
    · have hzero : k - c.length = 0 := by omega
      rw [List.takeWhile_cons_of_neg (by rw [hidx]; exact fun h => hlt (of_decide_eq_true h)), hzero, List.take_zero]

theorem downClosed_idxOf (k a : Nat) (l : List Nat) (hnodup : (a :: l).Nodup) :
    DownClosed (fun f => decide ((a :: l).idxOf f < k)) l := by
  rw [DownClosed, List.pairwise_iff_getElem]
  intro i j hi hj hij hlt
  have hidx : ∀ n (hn : n < l.length), (a :: l).idxOf l[n] = n + 1 := fun n hn =>
    hnodup.idxOf_getElem (n + 1) (by rw [List.length_cons]; omega)
  rw [hidx] at hlt ⊢
  have := of_decide_eq_true hlt
  exact decide_eq_true (by omega)

theorem ZslInv.stands_rank (h : ZslInv z ns es) (hfit : GapsFit z) (start : Nat) :
    Stands z (fun _ traversed => decide (traversed < start)) (ns.take (start - 1)) := by
  have hstands := h.stands (h.tracks_rank hfit start) (downClosed_idxOf start zslHeader ns h.nodup)
  have htake := takeWhile_idxOf start [zslHeader] ns h.nodup
  rw [List.singleton_append] at htake
  rw [htake] at hstands
  exact hstands

theorem elementByRank_eq (h : ZslInv z ns es) (hfit : GapsFit z) {rank : Nat} (hrank : 1 ≤ rank) :
    zslGetElementByRank z rank = ns[rank - 1]? := by
  have hstands := h.stands_rank hfit (rank + 1)
  have hgo : (fun (_ traversed : Nat) => decide (traversed ≤ rank)) = fun _ traversed => decide (traversed < rank + 1) := by
    funext _ traversed
    exact decide_eq_decide.mpr Nat.lt_succ_iff.symm
  rw [Nat.add_sub_cancel] at hstands
  rw [zslGetElementByRank, hgo]
  have hlen : (ns.take rank).length = min rank ns.length := List.length_take
  rcases zslSearchUntil_cases z (fun _ traversed => decide (traversed < rank + 1))
    (fun _ traversed => decide (traversed = rank)) with ⟨hnone, hall⟩ | ⟨j, hj, hsome, hfound⟩
  · have hbottom : (zslSearch z id fun _ traversed => decide (traversed < rank + 1)).2 0 ≠ rank := fun heq =>
      absurd (decide_eq_true heq) (by
        rw [hall 0 h.levels.pos]
        exact Bool.false_ne_true)
    rw [hstands.bottom, hlen] at hbottom
    rw [hnone, Option.map_none, List.getElem?_eq_none (by omega)]
  · have hat := hstands.getElem hj
    have heq : (zslSearch z id fun _ traversed => decide (traversed < rank + 1)).2 j = rank := of_decide_eq_true hfound
    obtain ⟨k, rfl⟩ : ∃ k, rank = k + 1 := ⟨rank - 1, by omega⟩
    rw [heq, List.getElem?_cons_succ, List.getElem?_take, if_pos (Nat.lt_succ_self k)] at hat
    rw [hsome, Option.map_some, Nat.add_sub_cancel]
    exact hat.symm

theorem ZslWellFormed.node_unique (h : ZslWellFormed z ns es) {x y : Nat} (hx : x ∈ ns) (hy : y ∈ ns) {o : M}
    (hxo : (z.node x).obj = some o) (hyo : (z.node y).obj = some o) : x = y := by
  have hnodup : (ns.map fun x => (z.node x).obj).Nodup := by
    rw [h.inv.node_members]
    exact h.members.map (Option.some_injective M)
  exact List.inj_on_of_nodup_map hnodup hx hy (hxo.trans hyo.symm)

theorem nodeNotBehind_eq {score : S} {o : M} {x : Nat} {e : S ×ₗ M} (he : nodeElem z x = some e) :
    nodeNotBehind z score o x = decide (e ≤ toLex (score, o)) := by
  obtain ⟨m, hm, rfl⟩ := Option.map_eq_some_iff.mp he
  rw [nodeNotBehind, hm]
  simp only [Prod.Lex.toLex_le_toLex, Bool.decide_or, Bool.decide_and]

theorem ZslInv.nodeElem_getElem (h : ZslInv z ns es) (i : Nat) : (ns[i]?).map (nodeElem z) = (es[i]?).map some := by
  rw [← List.getElem?_map, ← List.getElem?_map, h.elems]

theorem ZslInv.downClosed_nodeNotBehind (h : ZslInv z ns es) (score : S) (o : M) :
    DownClosed (nodeNotBehind z score o) ns := by
  refine h.ordered.imp_of_mem fun {x y} _ _ hxy hy => ?_
  obtain ⟨e, e', he, he', hlt⟩ := hxy
  rw [nodeNotBehind_eq he'] at hy
  rw [nodeNotBehind_eq he]
  exact decide_eq_true (hlt.le.trans (of_decide_eq_true hy))

theorem ZslWellFormed.rank_absent (h : ZslWellFormed z ns es) {score : S} {o : M}
    (habsent : ∀ x ∈ ns.takeWhile (nodeNotBehind z score o), (z.node x).obj ≠ some o) :
    zslGetRank z score o = 0 := by
  have hstands := h.inv.stands (h.inv.tracks_long h.gaps _) (h.inv.downClosed_nodeNotBehind score o)
  rw [zslGetRank]
  rcases zslSearchUntil_cases z (fun f _ => nodeNotBehind z score o f)
    (fun x _ => decide ((z.node x).obj = some o)) with ⟨hnone, -⟩ | ⟨j, hj, -, hfound⟩
  · rw [hnone]
    rfl
  · have hmem := List.mem_of_getElem? (hstands.getElem hj)
    have hobj := of_decide_eq_true hfound
    rcases List.mem_cons.mp hmem with hheader | hmem
    · rw [hheader, h.header] at hobj
      cases hobj
    · exact absurd hobj (habsent _ hmem)

theorem ZslWellFormed.rank_present (h : ZslWellFormed z ns es) {score : S} {o : M} {before behind : List Nat} {x : Nat}
    (hsplit : ns.takeWhile (nodeNotBehind z score o) = before ++ x :: behind) (hx : (z.node x).obj = some o) :
    zslGetRank z score o =
      if ∀ y ∈ behind, (z.node y).height < (z.node x).height then before.length + 1 else 0 := by
  have hstands := h.inv.stands (h.inv.tracks_long h.gaps _) (h.inv.downClosed_nodeNotBehind score o)
  have hsub := List.takeWhile_sublist (l := ns) (nodeNotBehind z score o)
  have hat := hstands.at_iff h.inv hsub hsplit
  have hxns : x ∈ ns := hsub.subset (by rw [hsplit]; simp)
  rw [zslGetRank]
  rcases zslSearchUntil_cases z (fun f _ => nodeNotBehind z score o f)
    (fun x _ => decide ((z.node x).obj = some o)) with ⟨hnone, hall⟩ | ⟨j, hj, hsome, hfound⟩
  · rw [hnone, if_neg]
    · rfl
    · intro hlow
      obtain ⟨j, hj, hxj⟩ := hat.mpr hlow
      have hnot := of_decide_eq_false (hall j hj)
      rw [hxj] at hnot
      exact hnot hx
  · have hstood := hstands.getElem hj
    have hobj := of_decide_eq_true hfound
    have hmem : (zslSearch z id fun f _ => nodeNotBehind z score o f).1 j ∈ ns := by
      rcases List.mem_cons.mp (List.mem_of_getElem? hstood) with hheader | hmem
      · rw [hheader, h.header] at hobj
        cases hobj
      · exact hsub.subset hmem
    have hxj := h.node_unique hmem hxns hobj hx
    rw [hsome, if_pos (hat.mp ⟨j, hj, hxj⟩), Option.map_some, Option.getD_some]
    have hnodup : (zslHeader :: ns.takeWhile (nodeNotBehind z score o)).Nodup :=
      h.inv.nodup.sublist (hsub.cons_cons zslHeader)
    have hplace : (zslHeader :: ns.takeWhile (nodeNotBehind z score o))[before.length + 1]? = some x := by
      rw [List.getElem?_cons_succ, hsplit, List.getElem?_append_right (Nat.le_refl _), Nat.sub_self]
      rfl
    rw [hxj, ← hplace] at hstood
    exact (List.getElem?_inj (List.getElem?_eq_some_iff.mp (hstood.trans hplace)).1 hnodup).mp hstood

theorem ZslWellFormed.rank_mem (h : ZslWellFormed z ns es) {score : S} {o : M} {k : Nat} {x : Nat} (hx : ns[k]? = some x)
    (he : nodeElem z x = some (toLex (score, o))) : zslGetRank z score o = k + 1 := by
  obtain ⟨hk, hxk⟩ := List.getElem?_eq_some_iff.mp hx
  have hsplit : ns = ns.take (k + 1) ++ ns.drop (k + 1) := (List.take_append_drop (k + 1) ns).symm
  have htake : ns.take (k + 1) = ns.take k ++ [x] := by rw [← hxk, List.take_append_getElem hk]
  have hclosed := h.inv.downClosed_nodeNotBehind score o
  have hordered := h.inv.ordered
  rw [hsplit] at hclosed hordered
  obtain ⟨hpre, -⟩ := place_eq hclosed
    (.inr ⟨x, by rw [htake, List.getLast?_concat], by rw [nodeNotBehind_eq he]; exact decide_eq_true le_rfl⟩)
    (fun y hy => by
      have hxy := (List.pairwise_append.mp hordered).2.2 x (by rw [htake]; simp) y (List.mem_of_mem_head? hy)
      obtain ⟨e, e', hxe, hye, hlt⟩ := hxy
      rw [he, Option.some.injEq] at hxe
      rw [nodeNotBehind_eq hye, hxe]
      exact decide_eq_false (not_le_of_gt hlt))
  rw [← hsplit, htake] at hpre
  obtain ⟨m, hm, heq⟩ := Option.map_eq_some_iff.mp he
  rw [toLex_inj, Prod.mk.injEq] at heq
  rw [h.rank_present hpre.symm (by rw [hm, heq.2]), if_pos fun y hy => absurd hy List.not_mem_nil,
    List.length_take, Nat.min_eq_left (Nat.le_of_lt hk)]

theorem ZslWellFormed.rank_not_mem (h : ZslWellFormed z ns es) {score : S} {o : M} (hnot : toLex (score, o) ∉ es) :
    zslGetRank z score o = 0 ↔ StalePassed z ns score o := by
  have hother : ∀ x ∈ ns, (z.node x).obj = some o → (z.node x).score ≠ score := by
    intro x hx hobj hscore
    have helem : nodeElem z x ∈ es.map some := by
      rw [← h.inv.elems]
      exact List.mem_map_of_mem hx
    obtain ⟨e, he, heq⟩ := List.mem_map.mp helem
    rw [nodeElem, hobj, Option.map_some, hscore, Option.some.injEq] at heq
    exact hnot (heq ▸ he)
  have hsub := List.takeWhile_sublist (l := ns) (nodeNotBehind z score o)
  constructor
  · intro hrank before x behind hsplit hobj _
    by_contra hnone
    rw [h.rank_present hsplit hobj, if_pos] at hrank
    · exact absurd hrank (Nat.succ_ne_zero _)
    · intro y hy
      by_contra hle
      exact hnone ⟨y, hy, Nat.le_of_not_lt hle⟩
  · intro hpassed
    by_cases habsent : ∀ x ∈ ns.takeWhile (nodeNotBehind z score o), (z.node x).obj ≠ some o
    · exact h.rank_absent habsent
    · obtain ⟨x, hx, hobj⟩ : ∃ x ∈ ns.takeWhile (nodeNotBehind z score o), (z.node x).obj = some o := by
        simpa using habsent
      obtain ⟨before, behind, hsplit⟩ := List.append_of_mem hx
      obtain ⟨y, hy, hle⟩ := hpassed before x behind hsplit hobj (hother x (hsub.subset hx) hobj)
      rw [h.rank_present hsplit hobj, if_neg fun hlow => absurd (hlow y hy) (Nat.not_lt.mpr hle)]

theorem ZslWellFormed.rank_iff (h : ZslWellFormed z ns es) (score : S) (o : M) :
    zslGetRank z score o = rankOf es (toLex (score, o)) ↔ StalePassed z ns score o := by
  by_cases hmem : toLex (score, o) ∈ es
  · have hk := List.getElem?_idxOf hmem
    have hnode := h.inv.nodeElem_getElem (es.idxOf (toLex (score, o)))
    rw [hk, Option.map_some] at hnode
    obtain ⟨x, hx, he⟩ := Option.map_eq_some_iff.mp hnode
    rw [rankOf, if_pos hmem, h.rank_mem hx he]
    refine ⟨fun _ before x' behind hsplit hobj hne => ?_, fun _ => rfl⟩
    have hx' : x' ∈ ns := (List.takeWhile_sublist _).subset (by rw [hsplit]; simp)
    obtain ⟨m, hm, heq⟩ := Option.map_eq_some_iff.mp he
    rw [toLex_inj, Prod.mk.injEq] at heq
    rw [h.node_unique hx' (List.mem_of_getElem? hx) hobj (by rw [hm, heq.2])] at hne
    exact absurd heq.1 hne
  · rw [rankOf, if_neg hmem]
    exact h.rank_not_mem hmem

omit [LinearOrder S] [LinearOrder M] in
theorem countFront_rank (c stop : Nat) (l : List (S ×ₗ M)) (k : Nat) :
    countFront (fun _ removed => decide (c + 1 + removed ≤ stop)) l k = min l.length (stop - c - k) := by
  induction l generalizing k with
  | nil => simp [countFront]
  | cons e l ih =>
    rw [countFront, ih, List.length_cons]
    by_cases hle : c + 1 + k ≤ stop
    · rw [if_pos (decide_eq_true hle)]
      omega
    · rw [if_neg (by simpa using hle)]
      omega

theorem take_drop_ranks {α : Type} (start stop : Nat) (l : List α) {c : Nat} (hc : c = min (start - 1) l.length) :
    (l.drop (start - 1)).take (min (l.drop (start - 1)).length (stop - c)) = atRanks start stop l ∧
      l.take (start - 1) ++ (l.drop (start - 1)).drop (min (l.drop (start - 1)).length (stop - c)) =
        notAtRanks start stop l := by
  rw [atRanks, notAtRanks, List.drop_take, List.drop_drop, List.length_drop]
  have hdrop : l.drop (start - 1 + min (l.length - (start - 1)) (stop - c)) = l.drop (max stop (start - 1)) :=
    List.drop_eq_drop_iff.mpr (by omega)
  exact ⟨List.take_eq_take_iff.mpr (by rw [List.length_drop]; omega), by rw [hdrop]⟩

theorem ZslInv.deleteRangeByRank (h : ZslInv z ns es) (hfit : GapsFit z) (start stop : Nat) :
    (zslDeleteRangeByRank z start stop).2 = (atRanks start stop es).map (fun e => (ofLex e).2) ∧
      ZslInv (zslDeleteRangeByRank z start stop).1 (notAtRanks start stop ns) (notAtRanks start stop es) := by
  obtain ⟨pre, post, ep, eq, hns, hes, hlen, hplace, hlast, hforward, hrank⟩ :=
    h.search (h.tracks_rank hfit start) rfl
  have hstop : ∀ y, post.head? = some y → decide ((zslHeader :: ns).idxOf y < start) = false := fun y hy =>
    hplace.stop y (by
      rw [nextMark_zero fun x hx => h.levels.tall_zero (List.mem_cons_of_mem _
        (hns ▸ List.mem_append_right _ hx)), hy])
  have hclosed := downClosed_idxOf start zslHeader ns h.nodup
  have htake := takeWhile_idxOf start [zslHeader] ns h.nodup
  rw [List.singleton_append, List.length_singleton] at htake
  obtain ⟨hpre, -⟩ := place_eq (by rw [← hns]; exact hclosed) hplace.went hstop
  rw [← hns, htake] at hpre
  have hlength := congrArg List.length h.elems
  rw [List.length_map, List.length_map] at hlength
  have hc : pre.length = min (start - 1) es.length := by rw [hpre, List.length_take, hlength]
  have hpost : post = ns.drop (start - 1) :=
    (List.append_inj (hns.symm.trans (List.take_append_drop (start - 1) ns).symm) (congrArg List.length hpre)).2
  obtain ⟨hep, heq⟩ : ep = es.take (start - 1) ∧ eq = es.drop (start - 1) :=
    List.append_inj (hes.symm.trans (List.take_append_drop (start - 1) es).symm) (by rw [← hlen, hc, List.length_take])
  have hplaced : ZslInv z (pre ++ post) (ep ++ eq) := by
    rw [← hns, ← hes]
    exact h
  obtain ⟨z', hz', hinv⟩ := hplaced.deleteBehind hlen hlast (fun _ removed => decide (pre.length + 1 + removed ≤ stop))
    (fun _ removed => decide (pre.length + 1 + removed ≤ stop)) fun _ _ _ _ => rfl
  have helems := take_drop_ranks start stop es hc
  have hnodes := take_drop_ranks start stop ns (hc.trans (by rw [hlength]))
  have hcount : (es.drop (start - 1)).length = (ns.drop (start - 1)).length := by
    rw [List.length_drop, List.length_drop, hlength]
  have hkept : pre ++ post.drop (min (es.drop (start - 1)).length (stop - pre.length)) = notAtRanks start stop ns := by
    rw [← hnodes.2, hcount, ← hpost, ← hpre]
  rw [countFront_rank, Nat.sub_zero, heq] at hz'
  rw [countFront_rank, Nat.sub_zero, hep, heq, helems.2, hkept] at hinv
  have hrun : zslDeleteRangeByRank z start stop = (z', (atRanks start stop es).map fun e => (ofLex e).2) := by
    rw [zslDeleteRangeByRank, hforward, hrank, ← helems.1]
    exact hz'
  rw [hrun]
  exact ⟨rfl, hinv⟩

/-- The rank of the pair, the node of every rank and the deletion of every range of ranks are right, and the two lookups
are inverse to each other. -/
structure RanksRight (z : Zskiplist S M) (ns : List Nat) (es : List (S ×ₗ M)) (score : S) (o : M) : Prop where
  rank : zslGetRank z score o = rankOf es (toLex (score, o))
  element : ∀ k, 1 ≤ k → zslGetElementByRank z k = ns[k - 1]?
  delete : ∀ start stop,
    (zslDeleteRangeByRank z start stop).2 = (atRanks start stop es).map (fun e => (ofLex e).2) ∧
      ZslInv (zslDeleteRangeByRank z start stop).1 (notAtRanks start stop ns) (notAtRanks start stop es)
  rank_element : ∀ k x e, 1 ≤ k → zslGetElementByRank z k = some x → nodeElem z x = some e →
    zslGetRank z (ofLex e).1 (ofLex e).2 = k
  element_rank : ∀ x ∈ ns, ∀ e, nodeElem z x = some e →
    zslGetElementByRank z (zslGetRank z (ofLex e).1 (ofLex e).2) = some x

/-- They are right exactly if the list does not have the member with a lower score at a node where the search stands. -/
theorem ranks_right_iff (z : Zskiplist S M) (ns : List Nat) (es : List (S ×ₗ M)) (h : ZslWellFormed z ns es) (score : S)
    (o : M) : RanksRight z ns es score o ↔ StalePassed z ns score o := by
  refine ⟨fun hright => (h.rank_iff score o).mp hright.rank, fun hpassed => ?_⟩
  have helement : ∀ k, 1 ≤ k → zslGetElementByRank z k = ns[k - 1]? := fun k hk => elementByRank_eq h.inv h.gaps hk
  refine
    { rank := (h.rank_iff score o).mpr hpassed
      element := helement
      delete := h.inv.deleteRangeByRank h.gaps
      rank_element := ?_
      element_rank := ?_ }
  · intro k x e hk hx he
    rw [helement k hk] at hx
    have hrank : zslGetRank z (ofLex e).1 (ofLex e).2 = k - 1 + 1 := h.rank_mem hx he
    rw [hrank, Nat.sub_add_cancel hk]
  · intro x hx e he
    obtain ⟨k, hk, hxk⟩ := List.getElem_of_mem hx
    have hat : ns[k]? = some x := List.getElem?_eq_some_iff.mpr ⟨hk, hxk⟩
    have hrank : zslGetRank z (ofLex e).1 (ofLex e).2 = k + 1 := h.rank_mem hat he
    rw [hrank, helement (k + 1) (Nat.le_add_left 1 k), Nat.add_sub_cancel]
    exact hat

end

theorem oneMember_wellFormed : ZslWellFormed oneMember [1] [toLex (1, 7)] :=
  { inv := oneMember_inv
    gaps := oneMember_inv.gapsFit_of_length (by rw [oneMember_inv.length_eq]; decide)
    header := by decide
    members := by decide }

theorem ranks_right_one : RanksRight oneMember [1] [toLex (1, 7)] 1 7 := by
  refine (ranks_right_iff oneMember [1] [toLex (1, 7)] oneMember_wellFormed 1 7).mpr ?_
  intro before x behind hsplit _ hscore
  have hpre : [1].takeWhile (nodeNotBehind oneMember 1 7) = [1] := by decide
  have hx : x ∈ [1] := by
    rw [← hpre, hsplit]
    simp
  rw [List.mem_singleton.mp hx] at hscore
  exact absurd (by decide) hscore

/-- Asked for the member with score 2, the search returns the rank it has with score 1. -/
theorem rank_of_stale_score :
    ZslWellFormed oneMember [1] [toLex (1, 7)] ∧ zslGetRank oneMember 2 7 = 1 ∧
      ¬ RanksRight oneMember [1] [toLex (1, 7)] 2 7 :=
  ⟨oneMember_wellFormed, by decide, fun h => absurd h.rank (by decide)⟩

end RedisCluster
