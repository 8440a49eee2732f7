import RedisCluster.Zset.Proofs.DeleteProofs

/-!
# The representation invariant of a skip list

Every operation keeps `ZslInv` on a list whose links fit, and there `ZslInv` gives the representation
invariant. A link that passes `2 ^ 32` steps has a wrong span.
-/

namespace RedisCluster

open RedisCluster.Lib

variable {S M : Type}

section

variable {z : Zskiplist S M} {l : List Nat}

theorem followLinks_eq (hlinks : LinksOk z l) {i : Nat} (hi : i < z.level) :
    ∀ (fuel : Nat) (x : Nat) (post : List Nat), (x :: post) <:+ l → tall z i x = true →
      post.length < fuel → followLinks z i fuel x = post.filter (tall z i) := by
  intro fuel
  induction fuel with
  | zero => intro x post _ _ h; omega
  | succ fuel ih =>
    intro x post hx htall hfuel
    have hlink : z.link x i = _ := hlinks i hi x post hx htall
    rw [followLinks, hlink]
    cases hnext : nextMark (tall z i) post with
    | none =>
      rw [nextMark_eq_none] at hnext
      exact (List.filter_eq_nil_iff.mpr fun y hy => by simp [hnext y hy]).symm
    | some f =>
      obtain ⟨a, b, rfl, hmarks, -⟩ := nextMark_split hnext
      have hf : (f :: b) <:+ l := by
        obtain ⟨c, hc⟩ := hx
        exact ⟨c ++ x :: a, by rw [← hc]; simp⟩
      have hnone : a.filter (tall z i) = [] :=
        List.filter_eq_nil_iff.mpr fun y hy => by simp [hmarks y hy]
      have hftall := (nextMark_mem hnext).2
      simp only [List.length_append, List.length_cons] at hfuel
      show f :: followLinks z i fuel f = _
      rw [List.filter_append, hnone, List.nil_append, List.filter_cons_of_pos hftall,
        ih f b hf hftall (by omega)]

end

section

variable [LinearOrder S] [LinearOrder M] {z : Zskiplist S M} {ns : List Nat} {es : List (S ×ₗ M)}

theorem ZslInv.levelNodes_eq (h : ZslInv z ns es) {i : Nat} (hi : i < z.level) :
    levelNodes z i = ns.filter (tall z i) := by
  have hle := h.levels.le_max
  have hlen := h.length_eq
  exact followLinks_eq h.links hi _ _ _ ⟨[], rfl⟩ (h.levels.tall_header (by omega)) (by omega)

theorem ZslInv.levelNodes_zero (h : ZslInv z ns es) : levelNodes z 0 = ns := by
  rw [h.levelNodes_eq h.levels.pos, List.filter_eq_self]
  exact fun x hx => h.levels.tall_zero (List.mem_cons_of_mem _ hx)

theorem ZslInv.levelNodes_above (h : ZslInv z ns es) {i : Nat} (hi : z.level ≤ i) :
    levelNodes z i = [] := by
  rw [levelNodes, followLinks, h.levels.above i hi]

theorem ZslInv.ok (h : ZslInv z ns es) (hfit : GapsFit z) : ZslOk z := by
  have hzero := h.levelNodes_zero
  refine { sorted := ⟨es, by rw [hzero, h.elems], h.sorted⟩, sublist := ?_, spans := ?_,
           backs := by rw [hzero]; exact h.backs, tail_eq := by rw [hzero, h.tail_eq],
           length_eq := by rw [hzero, h.length_eq], level_pos := h.levels.pos, level_top := ?_,
           level_above := fun i hi => h.levelNodes_above hi }
  · intro i
    by_cases hi : i + 1 < z.level
    · rw [h.levelNodes_eq hi, h.levelNodes_eq (by omega)]
      have hsub : ns.filter (tall z (i + 1)) = (ns.filter (tall z i)).filter (tall z (i + 1)) := by
        rw [List.filter_filter]
        refine List.filter_congr fun x _ => ?_
        cases hx : tall z (i + 1) x with
        | false => rfl
        | true => simp [tall_mono (Nat.le_succ i) hx]
      rw [hsub]
      exact List.filter_sublist
    · rw [h.levelNodes_above (by omega)]
      exact List.nil_sublist _
  · intro i hi before x post hsplit hx
    have hmax := h.levels.le_max
    have htall : tall z i x = true := by
      rcases List.mem_cons.mp hx with rfl | hx
      · exact h.levels.tall_header (by omega)
      · rw [h.levelNodes_eq hi] at hx
        exact (List.mem_filter.mp hx).2
    have hlt := hfit i hi before x post hsplit htall
    rw [hzero] at hsplit
    have hlink : z.link x i = _ := h.links i hi x post ⟨before, hsplit.symm⟩ htall
    rw [SpanCounts, hlink, uint_of_lt hlt]
    cases hnext : nextMark (tall z i) post with
    | none => exact stepsTo_of_none hnext
    | some f =>
      obtain ⟨a, b, hpost, -, hsteps⟩ := nextMark_split hnext
      exact ⟨a, b, hpost, hsteps⟩
  · rcases h.levels.top with h1 | ⟨x, hx, hheight⟩
    · exact Or.inl h1
    · right
      have hpos := h.levels.pos
      rw [h.levelNodes_eq (by omega)]
      intro hnil
      have hmem : x ∈ ns.filter (tall z (z.level - 1)) :=
        List.mem_filter.mpr ⟨hx, by rw [tall, decide_eq_true_eq]; omega⟩
      rw [hnil] at hmem
      exact absurd hmem (List.not_mem_nil)

theorem ZslInv.gapsFit (h : ZslInv z ns es) (hok : ZslOk z) : GapsFit z := by
  intro i hi before x post hsplit htall
  have hx : x ∈ zslHeader :: levelNodes z i := by
    have hmem : x ∈ zslHeader :: levelNodes z 0 := by rw [hsplit]; simp
    rw [h.levelNodes_zero] at hmem
    rcases List.mem_cons.mp hmem with rfl | hmem
    · exact List.mem_cons_self ..
    · rw [h.levelNodes_eq hi]
      exact List.mem_cons_of_mem _ (List.mem_filter.mpr ⟨hmem, htall⟩)
  have hspan := hok.spans i hi before x post hsplit hx
  rw [h.levelNodes_zero] at hsplit
  have hlink : z.link x i = _ := h.links i hi x post ⟨before, hsplit.symm⟩ htall
  have hlt : uint (stepsTo (tall z i) post) < 2 ^ 32 := Nat.mod_lt _ (by decide)
  rw [SpanCounts, hlink] at hspan
  cases hnext : nextMark (tall z i) post with
  | none =>
    rw [hnext, stepsTo_of_none hnext] at hspan
    rw [stepsTo_of_none hnext] at hlt ⊢
    simp only at hspan
    omega
  | some f =>
    obtain ⟨a, b, hpost, -, hsteps⟩ := nextMark_split hnext
    rw [hnext] at hspan
    obtain ⟨a', b', hpost', hspan⟩ := hspan
    have hnodup : post.Nodup := by
      have hnd := h.nodup
      rw [hsplit, List.nodup_append] at hnd
      exact (List.nodup_cons.mp hnd.2.1).2
    have hsame : b' = b :=
      suffix_cons_unique hnodup ⟨a', hpost'.symm⟩ ⟨a, hpost.symm⟩
    have hlen : a'.length = a.length := by
      have h1 := congrArg List.length hpost
      have h2 := congrArg List.length hpost'
      rw [hsame] at h2
      simp only [List.length_append, List.length_cons] at h1 h2
      omega
    simp only at hspan
    omega

theorem ZslInv.gapsFit_of_length (h : ZslInv z ns es) (hlen : z.length < 2 ^ 32) : GapsFit z := by
  intro i _ before x post hsplit _
  rw [h.levelNodes_zero] at hsplit
  have hle := stepsTo_le_length (p := tall z i) post
  have hcount := congrArg List.length hsplit
  have hlength := h.length_eq
  simp only [List.length_append, List.length_cons] at hcount
  omega

theorem ZslInv.tracks_rank (h : ZslInv z ns es) (hfit : GapsFit z) (start : Nat) :
    Tracks z (zslHeader :: ns) id (fun _ traversed => decide (traversed < start))
      fun f => decide ((zslHeader :: ns).idxOf f < start) := by
  intro i hi c x post f hsplit htall hnext
  have hlt := hfit i hi c x post (by rw [h.levelNodes_zero]; exact hsplit) htall
  rw [uint_of_lt hlt]
  refine ⟨rfl, ?_⟩
  obtain ⟨a, b, rfl, -, hsteps⟩ := nextMark_split hnext
  have hindex : (zslHeader :: ns).idxOf f = c.length + stepsTo (tall z i) (a ++ f :: b) := by
    have hnd := h.nodup
    have hassoc : c ++ x :: (a ++ f :: b) = (c ++ x :: a) ++ f :: b := by simp
    rw [hsplit, hassoc] at hnd
    have hnot : f ∉ c ++ x :: a := fun hc =>
      (List.nodup_append.mp hnd).2.2 f hc f (List.mem_cons_self ..) rfl
    rw [hsplit, hassoc, List.idxOf_append_of_notMem hnot, List.idxOf_cons_self, hsteps,
      List.length_append, List.length_cons]
    omega
  show _ = decide ((zslHeader :: ns).idxOf f < start)
  rw [hindex]
  rfl

theorem zslDelete_inv (h : ZslInv z ns es) (score : S) (obj : M) :
    ∃ ns' es', ZslInv (zslDelete z score obj).1 ns' es' := by
  obtain ⟨pre, post, ep, eq, rfl, rfl, hlen, -, hlast, hforward, -⟩ :=
    h.search (tracks_node z _ (nodeBefore z score obj)) rfl
  simp only [zslDelete]
  rw [hforward]
  cases post with
  | nil => exact ⟨_, _, h⟩
  | cons x post =>
    simp only [List.head?_cons]
    by_cases hfound : score = (z.node x).score ∧ (z.node x).obj = some obj
    · rw [if_pos hfound]
      cases eq with
      | nil =>
        have hes := congrArg List.length h.elems
        simp only [List.length_map, List.length_append, List.length_cons, List.length_nil] at hes
        omega
      | cons e eq => exact ⟨_, _, (zslDeleteNode_spec h hlen hlast).1⟩
    · rw [if_neg hfound]
      exact ⟨_, _, h⟩

theorem ZslInv.insert_last (h : ZslInv z ns es) {score : S} {obj : M} {level : Nat}
    (hlevel : 1 ≤ level ∧ level ≤ ZSKIPLIST_MAXLEVEL) (hlt : ∀ e ∈ es, e < toLex (score, obj)) :
    ZslInv (zslInsert z score obj level).1 (ns ++ [z.fresh]) (es ++ [toLex (score, obj)]) ∧
      ((zslInsert z score obj level).1.node z.fresh).height = level ∧
      ∀ y, y ≠ z.fresh → ((zslInsert z score obj level).1.node y).height = (z.node y).height := by
  obtain ⟨pre, post, ep, eq, z', hz', rfl, rfl, hlen, -, hafter, hinv, hheight, hother⟩ :=
    zslInsert_spec h score obj hlevel fun hc => lt_irrefl _ (hlt _ hc)
  have heq : eq = [] := by
    rw [List.eq_nil_iff_forall_not_mem]
    intro e he
    exact lt_asymm (hafter e he) (hlt e (List.mem_append_right _ he))
  subst heq
  have hpost : post = [] := by
    have h1 := congrArg List.length h.elems
    simp only [List.length_map, List.length_append, List.length_nil] at h1
    exact List.length_eq_zero_iff.mp (by omega)
  subst hpost
  rw [hz', List.append_nil, List.append_nil]
  exact ⟨hinv, hheight, hother⟩

theorem zslDeleteFrom_inv (h : ZslInv z ns es) {acc : Nat → Nat} {go : Nat → Nat → Bool}
    {goNode : Nat → Bool} (htrack : Tracks z (zslHeader :: ns) acc go goNode) (hzero : acc 0 = 0)
    {cond : ZskiplistNode S M → Nat → Bool} {C : S ×ₗ M → Nat → Bool}
    (hcond : ∀ (n : ZskiplistNode S M) m, n.obj = some m →
      ∀ k, cond n k = C (toLex (n.score, m)) k) :
    ∃ ns' es', ZslInv (zslDeleteFrom (zslSearch z acc go).1 cond z.length z
      (z.link ((zslSearch z acc go).1 0) 0).forward 0).1 ns' es' := by
  obtain ⟨pre, post, ep, eq, rfl, rfl, hlen, -, hlast, hforward, -⟩ := h.search htrack hzero
  have hlength := h.length_eq
  rw [List.length_append] at hlength
  obtain ⟨z', hz', hinv, -⟩ := zslDeleteFrom_spec hcond z.length z post eq 0 h hlen hlast (by omega)
  rw [hforward, hz']
  exact ⟨_, _, hinv⟩

theorem zslStep_inv (h : ZslInv z ns es) (hfit : GapsFit z) {op : ZslOp S M} (hop : ZslOpOk z op) :
    ∃ ns' es', ZslInv (zslStep z op) ns' es' := by
  cases op with
  | insert score obj level =>
    obtain ⟨hlevel, habsent⟩ := hop
    have hnew : toLex (score, obj) ∉ es := by
      intro hmem
      have hmem' : some (toLex (score, obj)) ∈ ns.map (nodeElem z) := by
        rw [h.elems]
        exact List.mem_map_of_mem hmem
      obtain ⟨x, hx, helem⟩ := List.mem_map.mp hmem'
      obtain ⟨m, hm, hpair⟩ := Option.map_eq_some_iff.mp helem
      rw [toLex_inj, Prod.mk.injEq] at hpair
      rw [← h.levelNodes_zero] at hx
      exact habsent x hx (by rw [hm, hpair.2])
    obtain ⟨pre, post, ep, eq, z', hz', -, -, -, -, -, hinv, -⟩ :=
      zslInsert_spec h score obj hlevel hnew
    rw [zslStep, hz']
    exact ⟨_, _, hinv⟩
  | delete score obj => exact zslDelete_inv h score obj
  | deleteRangeByScore range =>
    exact zslDeleteFrom_inv h (tracks_node z _ _) rfl
      (C := fun e _ => if range.maxex then decide ((ofLex e).1 < range.max)
        else decide ((ofLex e).1 ≤ range.max)) fun _ _ _ _ => rfl
  | deleteRangeByLex range =>
    exact zslDeleteFrom_inv h (tracks_node z _ _) rfl
      (C := fun e _ => zslLexValueLteMax (ofLex e).2 range) fun n m hm _ => by simp [hm]
  | deleteRangeByRank start stop =>
    exact zslDeleteFrom_inv h (h.tracks_rank hfit start) rfl
      (C := fun _ removed => decide ((zslSearch z id fun _ traversed =>
        decide (traversed < start)).2 0 + 1 + removed ≤ stop)) fun _ _ _ _ => rfl

end

section

variable [LinearOrder S] [LinearOrder M] [Zero S]

theorem zslRun_inv {ops : List (ZslOp S M)} (hops : RunMeets zslStep ZslOpOk zslCreate ops)
    (hfit : ∀ as, as <+: ops → GapsFit (run zslStep zslCreate as)) :
    ∀ as, as <+: ops → ∃ ns es, ZslInv (run zslStep zslCreate as) ns es :=
  run_inv_prefix (P := fun z => ∃ ns es, ZslInv z ns es) (G := GapsFit)
    (fun _ _ ⟨_, _, h⟩ hz hop => zslStep_inv h hz hop) ⟨[], [], zslCreate_inv⟩ hops hfit

/-- The representation invariant holds all along a run exactly if the links fit all along it. -/
theorem zsl_representation (ops : List (ZslOp S M))
    (hops : RunMeets zslStep ZslOpOk zslCreate ops) :
    (∀ as, as <+: ops → ZslOk (run zslStep zslCreate as)) ↔
      ∀ as, as <+: ops → GapsFit (run zslStep zslCreate as) := by
  constructor
  · intro hok as has
    have hinv : ∀ bs, bs <+: ops → ∃ ns es, ZslInv (run zslStep zslCreate bs) ns es :=
      run_inv_prefix (P := fun z => ∃ ns es, ZslInv z ns es) (G := ZslOk)
        (fun _ _ ⟨_, _, h⟩ hz hop => zslStep_inv h (h.gapsFit hz) hop)
        ⟨[], [], zslCreate_inv⟩ hops hok
    obtain ⟨ns, es, h⟩ := hinv as has
    exact h.gapsFit (hok as has)
  · intro hfit as has
    obtain ⟨ns, es, h⟩ := zslRun_inv hops hfit as has
    exact h.ok (hfit as has)

def rankRun : List (ZslOp Nat Nat) :=
  [.insert 5 0 3, .insert 2 1 1, .insert 5 2 2, .deleteRangeByRank 2 2]

theorem zsl_representation_rank :
    RunMeets zslStep ZslOpOk (zslCreate : Zskiplist Nat Nat) rankRun ∧
      ((∀ as, as <+: rankRun → ZslOk (run zslStep zslCreate as)) ↔
        ∀ as, as <+: rankRun → GapsFit (run zslStep zslCreate as)) := by
  have hmeets : RunMeets zslStep ZslOpOk (zslCreate : Zskiplist Nat Nat) rankRun :=
    ⟨⟨by decide, by decide⟩, ⟨by decide, by decide⟩, ⟨by decide, by decide⟩, trivial, trivial⟩
  exact ⟨hmeets, zsl_representation rankRun hmeets⟩

end

def ascendingInserts (n : Nat) : List (ZslOp Nat Nat) := (List.range n).map fun i => .insert i i 1

def towerInserts (n : Nat) : List (ZslOp Nat Nat) := ascendingInserts n ++ [.insert n n 2]

theorem insert_at_end {z : Zskiplist Nat Nat} {ns : List Nat} {n : Nat}
    (h : ZslInv z ns ((List.range n).map fun i => toLex (i, i))) {level : Nat}
    (hlevel : 1 ≤ level ∧ level ≤ ZSKIPLIST_MAXLEVEL) :
    ZslOpOk z (.insert n n level) ∧
      ZslInv (zslStep z (.insert n n level)) (ns ++ [z.fresh])
        ((List.range (n + 1)).map fun i => toLex (i, i)) ∧
      ((zslStep z (.insert n n level)).node z.fresh).height = level ∧
      ∀ y, y ≠ z.fresh → ((zslStep z (.insert n n level)).node y).height = (z.node y).height := by
  have hlt : ∀ e ∈ (List.range n).map fun i => toLex (i, i), e < toLex (n, n) := by
    intro e he
    obtain ⟨i, hi, rfl⟩ := List.mem_map.mp he
    rw [Prod.Lex.toLex_lt_toLex]
    exact Or.inl (List.mem_range.mp hi)
  have habsent : ∀ x ∈ levelNodes z 0, (z.node x).obj ≠ some n := by
    intro x hx hobj
    rw [h.levelNodes_zero] at hx
    have hmem : nodeElem z x ∈ ((List.range n).map fun i => toLex (i, i)).map some := by
      rw [← h.elems]
      exact List.mem_map_of_mem hx
    obtain ⟨e, he, helem⟩ := List.mem_map.mp hmem
    obtain ⟨i, hi, rfl⟩ := List.mem_map.mp he
    rw [nodeElem, hobj, Option.map_some, Option.some.injEq, toLex_inj, Prod.mk.injEq] at helem
    have := List.mem_range.mp hi
    omega
  obtain ⟨hinv, hheight, hother⟩ := h.insert_last hlevel hlt
  rw [List.range_succ, List.map_append]
  exact ⟨⟨hlevel, habsent⟩, hinv, hheight, hother⟩

theorem ascendingInserts_inv (n : Nat) :
    RunMeets zslStep ZslOpOk (zslCreate : Zskiplist Nat Nat) (ascendingInserts n) ∧
      ∃ ns, ZslInv (run zslStep zslCreate (ascendingInserts n)) ns
        ((List.range n).map fun i => toLex (i, i)) ∧
        ∀ x ∈ ns, ((run zslStep zslCreate (ascendingInserts n)).node x).height = 1 := by
  induction n with
  | zero => exact ⟨trivial, [], zslCreate_inv, by simp⟩
  | succ n ih =>
    obtain ⟨hmeets, ns, h, hheights⟩ := ih
    obtain ⟨hok, hinv, hheight, hother⟩ := insert_at_end h (by decide : 1 ≤ 1 ∧ 1 ≤ ZSKIPLIST_MAXLEVEL)
    have hsucc : ascendingInserts (n + 1) = ascendingInserts n ++ [.insert n n 1] := by
      rw [ascendingInserts, List.range_succ, List.map_append]
      rfl
    rw [hsucc, run_append]
    refine ⟨hmeets.append ⟨hok, trivial⟩, _, hinv, fun x hx => ?_⟩
    rcases List.mem_append.mp hx with hx | hx
    · have hne : x ≠ (run zslStep zslCreate (ascendingInserts n)).fresh := by
        have := h.fresh x (List.mem_cons_of_mem _ hx)
        omega
      exact (hother x hne).trans (hheights x hx)
    · rw [List.mem_singleton.mp hx]
      exact hheight

theorem towerInserts_gap (n : Nat) (hn : 2 ^ 32 ≤ n + 1) :
    RunMeets zslStep ZslOpOk (zslCreate : Zskiplist Nat Nat) (towerInserts n) ∧
      ¬ ZslOk (run zslStep (zslCreate : Zskiplist Nat Nat) (towerInserts n)) := by
  obtain ⟨hmeets, ns, h, hheights⟩ := ascendingInserts_inv n
  set z := run zslStep (zslCreate : Zskiplist Nat Nat) (ascendingInserts n) with hz
  obtain ⟨hok, hinv, hheight, hother⟩ := insert_at_end h (by decide : 1 ≤ 2 ∧ 2 ≤ ZSKIPLIST_MAXLEVEL)
  rw [towerInserts, run_append]
  refine ⟨hmeets.append ⟨hok, trivial⟩, fun hrep => ?_⟩
  rw [run_cons, run_nil, ← hz] at hrep
  set z' := zslStep z (.insert n n 2) with hz'
  have hlevel : 1 < z'.level := by
    have := (hinv.levels.heights z.fresh (by simp)).2
    omega
  have hsteps : stepsTo (tall z' 1) (ns ++ [z.fresh]) = ns.length + 1 := by
    have hlow : ∀ x ∈ ns, tall z' 1 x = false := by
      intro x hx
      have hne : x ≠ z.fresh := by
        have := h.fresh x (List.mem_cons_of_mem _ hx)
        omega
      rw [tall, hother x hne, hheights x hx]
      decide
    rw [stepsTo_append_of_none hlow, stepsTo_cons_of_mark (by rw [tall, hheight]; decide)]
  have hfit := hinv.gapsFit hrep 1 hlevel [] zslHeader (ns ++ [z.fresh])
    (by rw [hinv.levelNodes_zero]; rfl) (hinv.levels.tall_header (by decide))
  have hlen := congrArg List.length h.elems
  simp only [List.length_map, List.length_range] at hlen
  omega

/-- `2 ^ 32 - 1` nodes of level 1 and one of level 2: the span of the header on level 1 is stored
as 0. -/
theorem zsl_span_wraps :
    RunMeets zslStep ZslOpOk (zslCreate : Zskiplist Nat Nat) (towerInserts (2 ^ 32 - 1)) ∧
      ¬ ZslOk (run zslStep (zslCreate : Zskiplist Nat Nat) (towerInserts (2 ^ 32 - 1))) :=
  towerInserts_gap (2 ^ 32 - 1) (by decide)

end RedisCluster
