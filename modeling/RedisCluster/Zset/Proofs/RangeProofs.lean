import RedisCluster.Lib.Segments
import RedisCluster.Zset.Proofs.RepresentationProofs
import RedisCluster.Zset.Ranges

/-!
# Ranges of scores

A search whose test holds of an initial segment of the list ends behind that segment. The elements of a range are a
segment, so its first and last are found and a deletion takes out exactly them.
-/

namespace RedisCluster

open RedisCluster.Lib

section

variable {S M : Type} [LinearOrder S] [LinearOrder M] {z : Zskiplist S M} {ns : List Nat} {es : List (S ×ₗ M)}

theorem ZslInv.ordered (h : ZslInv z ns es) :
    ns.Pairwise fun x y => ∃ e e', nodeElem z x = some e ∧ nodeElem z y = some e' ∧ e < e' := by
  have hsome : (es.map some).Pairwise fun a b => ∃ e e', a = some e ∧ b = some e' ∧ e < e' := by
    rw [List.pairwise_map]
    exact h.sorted.imp fun {e e'} hlt => ⟨e, e', rfl, rfl, hlt⟩
  rw [← h.elems, List.pairwise_map] at hsome
  exact hsome

theorem ZslInv.node_members (h : ZslInv z ns es) :
    ns.map (fun x => (z.node x).obj) = (es.map fun e => (ofLex e).2).map some := by
  have hsnd := congrArg (List.map (Option.map fun e : S ×ₗ M => (ofLex e).2)) h.elems
  rw [List.map_map, List.map_map] at hsnd
  rw [List.map_map]
  refine Eq.trans (List.map_congr_left fun x _ => ?_) hsnd
  simp only [Function.comp_apply, nodeElem, Option.map_map]
  cases (z.node x).obj <;> rfl

theorem ZslInv.first (h : ZslInv z ns es) : (z.link zslHeader 0).forward = ns.head? := by
  have htall : ∀ y ∈ zslHeader :: ns, tall z 0 y = true := fun y hy => h.levels.tall_zero hy
  have hlink : z.link zslHeader 0 = _ := h.links 0 h.levels.pos zslHeader ns ⟨[], rfl⟩ (htall _ List.mem_cons_self)
  rw [hlink, nextMark_zero fun y hy => htall y (List.mem_cons_of_mem _ hy)]

theorem ZslInv.stop (h : ZslInv z ns es) {go : Nat → Bool} (hgo : DownClosed go ns) :
    zslStop z go = (ns.takeWhile go).getLast?.getD zslHeader ∧
      (z.link (zslStop z go) 0).forward = (ns.dropWhile go).head? := by
  obtain ⟨pre, post, ep, eq, rfl, -, -, hplace, -, hforward, -⟩ := h.search (tracks_node z _ go) rfl
  obtain ⟨rest, hmark, -⟩ := hplace.last 0 h.levels.pos
  obtain ⟨-, hlast⟩ := h.levels.last_zero (fun y hy => List.mem_append_left _ hy) hmark
  have hpost : ∀ y, post.head? = some y → go y = false := fun y hy => hplace.stop y (by
    rw [nextMark_zero fun x hx => h.levels.tall_zero (List.mem_cons_of_mem _ (List.mem_append_right _ hx)), hy])
  obtain ⟨hpre, hpost⟩ := place_eq hgo hplace.went hpost
  rw [← hpre, ← hpost]
  refine ⟨?_, hforward⟩
  show (zslSearch z uint fun f _ => go f).1 0 = _
  rw [← hlast]
  split
  · rename_i hheader
    exact hheader.1
  · rfl

theorem ZslInv.isIn (h : ZslInv z ns es) (gteMin lteMax : Nat → Bool) :
    zslIsIn z false gteMin lteMax = (ns.getLast?.any gteMin && ns.head?.any lteMax) := by
  rw [zslIsIn, if_neg Bool.false_ne_true, h.first, h.tail_eq]
  cases ns.getLast? with
  | none => rfl
  | some x =>
    cases hx : gteMin x with
    | false => simp [hx]
    | true =>
      cases ns.head? with
      | none => simp [hx]
      | some y => simp [hx]

theorem ZslInv.firstIn (h : ZslInv z ns es) {gteMin lteMax : Nat → Bool} (hmin : DownClosed (fun x => !gteMin x) ns)
    (hmax : DownClosed lteMax ns) :
    zslFirstIn z false gteMin lteMax = .ok (ns.filter fun x => gteMin x && lteMax x).head? := by
  rw [zslFirstIn, h.isIn]
  cases hin : ns.getLast?.any gteMin && ns.head?.any lteMax with
  | false =>
    rw [filter_of_not_in hmin hmax hin]
    rfl
  | true =>
    have hsegment := filter_segment hmin hmax
    simp only [Bool.not_not] at hsegment
    rw [hsegment, (h.stop hmin).2]
    rw [Bool.and_eq_true] at hin
    cases hdrop : ns.dropWhile fun x => !gteMin x with
    | nil =>
      obtain ⟨last, hlast, hgte⟩ := (Option.any_eq_true _ _).mp hin.1
      have hbelow := List.dropWhile_eq_nil_iff.mp hdrop last (List.mem_of_getLast? hlast)
      rw [hgte] at hbelow
      cases hbelow
    | cons x post =>
      cases hx : lteMax x with
      | false => simp [hx]
      | true => simp [hx]

theorem ZslInv.lastIn (h : ZslInv z ns es) {gteMin lteMax : Nat → Bool} (hmin : DownClosed (fun x => !gteMin x) ns)
    (hmax : DownClosed lteMax ns) :
    zslLastIn z false gteMin lteMax = (ns.filter fun x => gteMin x && lteMax x).getLast? := by
  rw [zslLastIn, h.isIn]
  cases hin : ns.getLast?.any gteMin && ns.head?.any lteMax with
  | false =>
    rw [filter_of_not_in hmin hmax hin]
    rfl
  | true =>
    have hfilter : (ns.filter fun x => gteMin x && lteMax x) = (ns.takeWhile lteMax).filter gteMin := by
      rw [← filter_eq_takeWhile hmax, List.filter_filter]
    rw [Bool.and_eq_true] at hin
    rw [hfilter, (h.stop hmax).1]
    have hmin' : DownClosed (fun x => !gteMin x) (ns.takeWhile lteMax) := hmin.sublist (List.takeWhile_sublist _)
    have hne : ns.takeWhile lteMax ≠ [] := by
      obtain ⟨first, hfirst, hlte⟩ := (Option.any_eq_true _ _).mp hin.2
      cases ns with
      | nil => cases hfirst
      | cons x ns =>
        obtain rfl : x = first := Option.some.inj hfirst
        rw [List.takeWhile_cons_of_pos hlte]
        exact List.cons_ne_nil _ _
    obtain ⟨before, last, hsplit⟩ : ∃ before last, ns.takeWhile lteMax = before ++ [last] :=
      ⟨_, _, (List.dropLast_append_getLast hne).symm⟩
    rw [hsplit] at hmin' ⊢
    rw [List.getLast?_append, List.getLast?_singleton, Option.some_or, Option.getD_some, List.filter_append]
    cases hlast : gteMin last with
    | false =>
      have hnone : before.filter gteMin = [] := List.filter_eq_nil_iff.mpr fun x hx hgte => by
        have hbelow : (!gteMin x) = true :=
          (List.pairwise_append.mp hmin').2.2 x hx last (List.mem_singleton_self _) (by simp [hlast])
        rw [hgte] at hbelow
        cases hbelow
      simp [hlast, hnone]
    | true => simp [hlast]

omit [LinearOrder S] [LinearOrder M] in
theorem countFront_eq (p : S ×ₗ M → Bool) (l : List (S ×ₗ M)) (k : Nat) :
    countFront (fun e _ => p e) l k = (l.takeWhile p).length := by
  induction l generalizing k with
  | nil => rfl
  | cons e l ih =>
    rw [countFront]
    by_cases he : p e = true
    · rw [if_pos he, List.takeWhile_cons_of_pos he, List.length_cons, ih]
    · rw [if_neg he, List.takeWhile_cons_of_neg he]
      rfl

theorem take_length_takeWhile {α : Type*} (p : α → Bool) (l : List α) :
    l.take (l.takeWhile p).length = l.takeWhile p ∧ l.drop (l.takeWhile p).length = l.dropWhile p := by
  conv =>
    enter [1, 1, 2]
    rw [← List.takeWhile_append_dropWhile (p := p) (l := l)]
  conv =>
    enter [2, 1, 2]
    rw [← List.takeWhile_append_dropWhile (p := p) (l := l)]
  exact ⟨List.take_left, List.drop_left⟩

theorem ZslInv.deleteBehind {pre post : List Nat} {ep eq : List (S ×ₗ M)} {update : Nat → Nat}
    (h : ZslInv z (pre ++ post) (ep ++ eq)) (hlen : pre.length = ep.length) (hlast : UpdateLast z pre update)
    (cond : ZskiplistNode S M → Nat → Bool) (condE : S ×ₗ M → Nat → Bool)
    (hcond : ∀ (n : ZskiplistNode S M) m, n.obj = some m → ∀ k, cond n k = condE (toLex (n.score, m)) k) :
    ∃ z', zslDeleteFrom update cond z.length z post.head? 0 =
        (z', (eq.take (countFront condE eq 0)).map fun e => (ofLex e).2) ∧
      ZslInv z' (pre ++ post.drop (countFront condE eq 0)) (ep ++ eq.drop (countFront condE eq 0)) := by
  have hfuel : post.length ≤ z.length := by
    rw [h.length_eq, List.length_append]
    omega
  obtain ⟨z', hz', hinv, -⟩ := zslDeleteFrom_spec hcond z.length z post eq 0 h hlen hlast hfuel
  exact ⟨z', hz', hinv⟩

theorem ZslInv.deleteRange (h : ZslInv z ns es) (q p : S ×ₗ M → Bool) (go : Nat → Bool)
    (cond : ZskiplistNode S M → Bool) (hgo : ∀ x ∈ ns, ∀ e, nodeElem z x = some e → go x = q e)
    (hcond : ∀ (n : ZskiplistNode S M) m, n.obj = some m → cond n = p (toLex (n.score, m)))
    (hq : DownClosed q es) (hp : DownClosed p es) :
    ∃ z', zslDeleteRange z uint (fun f _ => go f) (fun n _ => cond n) =
        (z', (es.filter fun e => !q e && p e).map fun e => (ofLex e).2) ∧
      ZslInv z' (ns.filter fun x => !(!go x && cond (z.node x))) (es.filter fun e => !(!q e && p e)) := by
  have hnode : ∀ x ∈ ns, ∀ e, nodeElem z x = some e → cond (z.node x) = p e := by
    intro x _ e he
    obtain ⟨m, hm, rfl⟩ := Option.map_eq_some_iff.mp he
    exact hcond _ m hm
  have hgo' := DownClosed.of_map h.elems hgo hq
  have hcond' := DownClosed.of_map h.elems hnode hp
  obtain ⟨pre, post, ep, eq, hns, hes, hlen, hplace, hlast, hforward, -⟩ := h.search (tracks_node z _ go) rfl
  have hstop : ∀ y, post.head? = some y → go y = false := fun y hy => hplace.stop y (by
    rw [nextMark_zero fun x hx => h.levels.tall_zero (List.mem_cons_of_mem _
      (hns ▸ List.mem_append_right _ hx)), hy])
  obtain ⟨hpre, hpost⟩ := place_eq (hns ▸ hgo') hplace.went hstop
  rw [← hns] at hpre hpost
  have hlens : ep.length = (es.takeWhile q).length := by
    rw [← hlen, hpre, length_takeWhile_congr h.elems hgo]
  obtain ⟨hep, heq⟩ : ep = es.takeWhile q ∧ eq = es.dropWhile q :=
    List.append_inj (hes.symm.trans List.takeWhile_append_dropWhile.symm) hlens
  have helems : post.map (nodeElem z) = eq.map some := by
    have := h.elems
    rw [hns, hes, List.map_append, List.map_append] at this
    exact (List.append_inj this (by simpa using hlen)).2
  have hplaced : ZslInv z (pre ++ post) (ep ++ eq) := by
    rw [← hns, ← hes]
    exact h
  obtain ⟨z', hz', hinv⟩ := hplaced.deleteBehind hlen hlast (fun n _ => cond n) (fun e _ => p e)
    fun n m hm _ => hcond n m hm
  rw [countFront_eq] at hz' hinv
  have hcount : (eq.takeWhile p).length = (post.takeWhile fun x => cond (z.node x)).length :=
    (length_takeWhile_congr helems fun x hx e he => hnode x (by rw [hns]; exact List.mem_append_right _ hx) e he).symm
  rw [(take_length_takeWhile p eq).2, hcount, (take_length_takeWhile _ post).2] at hinv
  rw [(take_length_takeWhile p eq).1] at hz'
  refine ⟨z', ?_, ?_⟩
  · rw [zslDeleteRange, hforward, hz', filter_segment hq hp, heq]
  · rw [filter_not_segment hq hp, filter_not_segment hgo' hcond', ← hpre, ← hpost, ← hep, ← heq]
    exact hinv

theorem contains_iff (range : Zrangespec S) (score : S) :
    (zslValueGteMin score range && zslValueLteMax score range) = decide (range.Contains score) := by
  rw [Bool.eq_iff_iff, Bool.and_eq_true, decide_eq_true_iff, Zrangespec.Contains, zslValueGteMin, zslValueLteMax]
  cases range.minex <;> cases range.maxex <;> simp [le_iff_lt_or_eq]

theorem not_contains_of_isEmpty {range : Zrangespec S} (h : range.isEmpty = true) (score : S) : ¬ range.Contains score := by
  rintro ⟨hmin, hmax⟩
  have hle : range.min ≤ score := hmin.elim le_of_lt fun h => h.1.le
  have hle' : score ≤ range.max := hmax.elim le_of_lt fun h => h.1.le
  rcases of_decide_eq_true h with hlt | ⟨heq, hex⟩
  · exact absurd (hle.trans hle') (not_le.mpr hlt)
  · have hscore : score = range.min := le_antisymm (heq ▸ hle') hle
    subst hscore
    rcases hex with hex | hex
    · rcases hmin with hmin | ⟨-, hmin⟩
      · exact lt_irrefl _ hmin
      · rw [hex] at hmin
        cases hmin
    · rcases hmax with hmax | ⟨-, hmax⟩
      · rw [heq] at hmax
        exact lt_irrefl _ hmax
      · rw [hex] at hmax
        cases hmax

theorem gteMin_mono {range : Zrangespec S} {a b : S} (hab : a ≤ b) (h : zslValueGteMin a range = true) :
    zslValueGteMin b range = true := by
  unfold zslValueGteMin at h ⊢
  split at h
  · rename_i hex
    rw [if_pos hex]
    exact decide_eq_true (lt_of_lt_of_le (of_decide_eq_true h) hab)
  · rename_i hex
    rw [if_neg hex]
    exact decide_eq_true (le_trans (of_decide_eq_true h) hab)

theorem lteMax_mono {range : Zrangespec S} {a b : S} (hab : a ≤ b) (h : zslValueLteMax b range = true) :
    zslValueLteMax a range = true := by
  unfold zslValueLteMax at h ⊢
  split at h
  · rename_i hex
    rw [if_pos hex]
    exact decide_eq_true (lt_of_le_of_lt hab (of_decide_eq_true h))
  · rename_i hex
    rw [if_neg hex]
    exact decide_eq_true (le_trans hab (of_decide_eq_true h))

theorem downClosed_gteMin {α : Type*} {f : α → S} {l : List α} (h : l.Pairwise fun x y => f x ≤ f y)
    (range : Zrangespec S) : DownClosed (fun x => !zslValueGteMin (f x) range) l := by
  refine h.imp fun {x y} hxy hy => ?_
  rw [Bool.not_eq_true'] at hy ⊢
  by_contra hx
  rw [gteMin_mono hxy (by simpa using hx)] at hy
  cases hy

theorem downClosed_lteMax {α : Type*} {f : α → S} {l : List α} (h : l.Pairwise fun x y => f x ≤ f y)
    (range : Zrangespec S) : DownClosed (fun x => zslValueLteMax (f x) range) l :=
  h.imp fun hxy hy => lteMax_mono hxy hy

theorem ZslInv.elem_scores (h : ZslInv z ns es) : es.Pairwise fun e e' => (ofLex e).1 ≤ (ofLex e').1 :=
  h.sorted.imp fun hlt => Prod.Lex.monotone_fst _ _ hlt.le

theorem ZslInv.scores (h : ZslInv z ns es) : ns.Pairwise fun x y => (z.node x).score ≤ (z.node y).score := by
  refine h.ordered.imp ?_
  rintro x y ⟨e, e', he, he', hlt⟩
  obtain ⟨m, -, rfl⟩ := Option.map_eq_some_iff.mp he
  obtain ⟨m', -, rfl⟩ := Option.map_eq_some_iff.mp he'
  exact Prod.Lex.monotone_fst _ _ hlt.le

/-- A list with the invariant, and in the dict the members of it with their scores. -/
structure Zset.Ok (s : Zset S M) (ns : List Nat) (es : List (S ×ₗ M)) : Prop where
  zsl : ZslInv s.zsl ns es
  dict : ∀ m score, s.dict m = some score ↔ toLex (score, m) ∈ es

omit [LinearOrder S] in
theorem dictDelete_all (ms : List M) (dict : M → Option S) (m : M) :
    ms.foldl (fun dict obj => Function.update dict obj none) dict m = if m ∈ ms then none else dict m := by
  induction ms generalizing dict with
  | nil => rfl
  | cons obj ms ih =>
    rw [List.foldl_cons, ih]
    by_cases hm : m ∈ ms
    · rw [if_pos hm, if_pos (List.mem_cons_of_mem _ hm)]
    · rw [if_neg hm]
      by_cases hobj : m = obj
      · rw [hobj, Function.update_self, if_pos List.mem_cons_self]
      · rw [Function.update_of_ne hobj, if_neg fun h => (List.mem_cons.mp h).elim hobj hm]

theorem deleteRangeByScore_ok {s : Zset S M} (h : s.Ok ns es) (range : Zrangespec S) :
    (s.deleteRangeByScore range).1.Ok (ns.filter fun x => ¬ range.Contains (s.zsl.node x).score)
        (es.filter fun e => ¬ range.Contains (ofLex e).1) ∧
      (s.deleteRangeByScore range).2 = (es.filter fun e => range.Contains (ofLex e).1).length := by
  have hin : ∀ score, (!!zslValueGteMin score range && zslValueLteMax score range) = decide (range.Contains score) :=
    fun score => by rw [Bool.not_not, contains_iff]
  have hout : ∀ score, (!(!!zslValueGteMin score range && zslValueLteMax score range)) =
      decide (¬ range.Contains score) := fun score => by rw [hin, ← decide_not]
  have hgo : (fun (f _ : Nat) => if range.minex then decide ((s.zsl.node f).score ≤ range.min)
      else decide ((s.zsl.node f).score < range.min)) = fun f _ => !zslValueGteMin (s.zsl.node f).score range := by
    funext f _
    unfold zslValueGteMin
    cases range.minex with
    | false => simp only [Bool.false_eq_true, if_false, ← decide_not, ge_iff_le, not_le]
    | true => simp only [if_true, ← decide_not, gt_iff_lt, not_lt]
  obtain ⟨z', hz', hinv⟩ := h.zsl.deleteRange (fun e => !zslValueGteMin (ofLex e).1 range)
    (fun e => zslValueLteMax (ofLex e).1 range) (fun f => !zslValueGteMin (s.zsl.node f).score range)
    (fun n => zslValueLteMax n.score range)
    (fun x _ e he => by
      obtain ⟨m, -, rfl⟩ := Option.map_eq_some_iff.mp he
      rfl)
    (fun n m _ => rfl) (downClosed_gteMin h.zsl.elem_scores range) (downClosed_lteMax h.zsl.elem_scores range)
  have hdelete : zslDeleteRangeByScore s.zsl range =
      (z', (es.filter fun e => range.Contains (ofLex e).1).map fun e => (ofLex e).2) := by
    simp only [hin] at hz'
    rw [← hz']
    show zslDeleteRange s.zsl uint _ _ = _
    rw [hgo]
    rfl
  simp only [hout] at hinv
  rw [Zset.deleteRangeByScore, hdelete]
  refine ⟨⟨hinv, fun m score => ?_⟩, List.length_map _⟩
  dsimp only
  rw [dictDelete_all, List.mem_filter, decide_eq_true_iff, ← h.dict]
  by_cases hm : m ∈ (es.filter fun e => range.Contains (ofLex e).1).map fun e => (ofLex e).2
  · rw [if_pos hm]
    obtain ⟨e, he, rfl⟩ := List.mem_map.mp hm
    obtain ⟨hmem, hcontains⟩ := List.mem_filter.mp he
    have hold : s.dict (ofLex e).2 = some (ofLex e).1 := (h.dict _ _).mpr hmem
    refine ⟨fun hnone => absurd hnone (by simp), ?_⟩
    rintro ⟨hscore, hnot⟩
    rw [hold, Option.some.injEq] at hscore
    rw [← hscore] at hnot
    exact absurd (of_decide_eq_true hcontains) hnot
  · rw [if_neg hm]
    refine ⟨fun hscore => ⟨hscore, fun hcontains => hm ?_⟩, And.left⟩
    exact List.mem_map.mpr ⟨toLex (score, m), List.mem_filter.mpr ⟨(h.dict m score).mp hscore,
      decide_eq_true hcontains⟩, rfl⟩

/-- The first and the last node of the scores of a range are found, and a deletion takes out exactly its elements. -/
theorem score_ranges (s : Zset S M) (ns : List Nat) (es : List (S ×ₗ M)) (h : s.Ok ns es) (range : Zrangespec S) :
    zslFirstInRange s.zsl range = .ok (ns.filter fun x => range.Contains (s.zsl.node x).score).head? ∧
      zslLastInRange s.zsl range = (ns.filter fun x => range.Contains (s.zsl.node x).score).getLast? ∧
      (s.deleteRangeByScore range).1.Ok (ns.filter fun x => ¬ range.Contains (s.zsl.node x).score)
        (es.filter fun e => ¬ range.Contains (ofLex e).1) ∧
      (s.deleteRangeByScore range).2 = (es.filter fun e => range.Contains (ofLex e).1).length := by
  have hmin := downClosed_gteMin h.zsl.scores range
  have hmax := downClosed_lteMax h.zsl.scores range
  refine ⟨?_, ?_, deleteRangeByScore_ok h range⟩
  · unfold zslFirstInRange
    cases hempty : range.isEmpty with
    | false =>
      rw [h.zsl.firstIn hmin hmax]
      simp only [contains_iff]
    | true =>
      rw [List.filter_eq_nil_iff.mpr fun x _ hx => not_contains_of_isEmpty hempty _ (of_decide_eq_true hx)]
      rfl
  · unfold zslLastInRange
    cases hempty : range.isEmpty with
    | false =>
      rw [h.zsl.lastIn hmin hmax]
      simp only [contains_iff]
    | true =>
      rw [List.filter_eq_nil_iff.mpr fun x _ hx => not_contains_of_isEmpty hempty _ (of_decide_eq_true hx)]
      rfl

end

def oneMember : Zskiplist Nat Nat := (zslInsert zslCreate 1 7 1).1

theorem oneMember_inv : ZslInv oneMember [1] [toLex (1, 7)] := by
  have hlt : ∀ e ∈ ([] : List (Nat ×ₗ Nat)), e < toLex (1, 7) := fun e he => absurd he List.not_mem_nil
  exact (zslCreate_inv.insert_last (by decide : 1 ≤ 1 ∧ 1 ≤ ZSKIPLIST_MAXLEVEL) hlt).1

theorem oneMember_ok : Zset.Ok { zsl := oneMember, dict := fun m => if m = 7 then some 1 else none } [1] [toLex (1, 7)] :=
  { zsl := oneMember_inv
    dict := fun m score => by
      rw [List.mem_singleton, toLex_inj, Prod.mk.injEq]
      show (if m = 7 then some 1 else none) = some score ↔ _
      split <;> rename_i hm
      · simp [hm, eq_comm]
      · simp [hm] }

/-- The scores from 0 up to 1, without 0. -/
theorem score_ranges_one :
    zslFirstInRange oneMember { min := 0, max := 1, minex := true, maxex := false } = .ok (some 1) :=
  (score_ranges { zsl := oneMember, dict := fun m => if m = 7 then some 1 else none } [1] [toLex (1, 7)] oneMember_ok
    { min := 0, max := 1, minex := true, maxex := false }).1

end RedisCluster
