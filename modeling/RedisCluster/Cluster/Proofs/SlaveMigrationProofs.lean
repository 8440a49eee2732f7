import RedisCluster.Cluster.SlaveMigration

/-!
# Which slave moves

Every slave decides alone. The loops of `clusterCron` and `clusterHandleSlaveMigration` are reduced to
what they find, and from that to the slave with the smallest name at the largest masters, failing or not.
-/

namespace RedisCluster.Bus

variable {ν : Type}

/-! ## The counts -/

def Counted (c : BusState ν) (m : Addr) : Prop :=
  cronSkips c m = false ∧ c.nodeIsMaster m = true ∧ c.nodeFailed m = false

/-- What the loop has found in the nodes `ns`, starting with nothing. -/
structure CountsOf (c : BusState ν) (ns : List Addr) (r : CronScan ν) : Prop where
  cluster : r.cluster = c
  orphaned : r.orphaned_masters ≠ 0 ↔
    ∃ m ∈ ns, Counted c m ∧ clusterCountNonFailingSlaves c m = 0 ∧ (c.node m).numslots > 0
  le_max : ∀ m ∈ ns, Counted c m → clusterCountNonFailingSlaves c m ≤ r.max_slaves
  max_found : r.max_slaves = 0 ∨
    ∃ m ∈ ns, Counted c m ∧ clusterCountNonFailingSlaves c m = r.max_slaves
  this_found : r.this_slaves = 0 ∨
    ∃ m ∈ ns, Counted c m ∧ (c.node c.myself).slaveof = some m ∧
      clusterCountNonFailingSlaves c m = r.this_slaves
  this_of : ∀ m ∈ ns, Counted c m → (c.node c.myself).slaveof = some m →
    r.this_slaves = clusterCountNonFailingSlaves c m

theorem CountsOf.nil (c : BusState ν) : CountsOf c [] ⟨c, 0, 0, 0, false⟩ where
  cluster := rfl
  orphaned := by simp
  le_max := by simp
  max_found := Or.inl rfl
  this_found := Or.inl rfl
  this_of := by simp

theorem CountsOf.skip {c : BusState ν} {ns : List Addr} {r : CronScan ν} (h : CountsOf c ns r)
    {n : Addr} (hn : ¬ Counted c n) : CountsOf c (ns ++ [n]) r := by
  have hmem : ∀ m ∈ ns ++ [n], Counted c m → m ∈ ns := by
    intro m hm hc
    rcases List.mem_append.mp hm with hm | hm
    · exact hm
    · exact absurd (List.mem_singleton.mp hm ▸ hc) hn
  have hleft : ∀ m ∈ ns, m ∈ ns ++ [n] := fun m hm => List.mem_append_left [n] hm
  constructor
  case cluster => exact h.cluster
  case orphaned =>
    rw [h.orphaned]
    constructor
    · rintro ⟨m, hm, hc, hrest⟩
      exact ⟨m, hleft m hm, hc, hrest⟩
    · rintro ⟨m, hm, hc, hrest⟩
      exact ⟨m, hmem m hm hc, hc, hrest⟩
  case le_max => exact fun m hm hc => h.le_max m (hmem m hm hc) hc
  case max_found =>
    refine h.max_found.imp_right ?_
    rintro ⟨m, hm, hrest⟩
    exact ⟨m, hleft m hm, hrest⟩
  case this_found =>
    refine h.this_found.imp_right ?_
    rintro ⟨m, hm, hrest⟩
    exact ⟨m, hleft m hm, hrest⟩
  case this_of => exact fun m hm hc => h.this_of m (hmem m hm hc) hc

theorem CountsOf.count {c : BusState ν} {ns : List Addr} {r : CronScan ν} (h : CountsOf c ns r)
    (hslave : c.nodeIsSlave c.myself = true) {n : Addr} (hn : Counted c n) :
    CountsOf c (ns ++ [n]) (cronCount n r) := by
  obtain ⟨-, hmaster, hfail⟩ := id hn
  have hr : cronCount n r =
      { r with
        orphaned_masters :=
          if clusterCountNonFailingSlaves c n = 0 ∧ (c.node n).numslots > 0 then
            r.orphaned_masters + 1
          else r.orphaned_masters
        max_slaves := max r.max_slaves (clusterCountNonFailingSlaves c n)
        this_slaves :=
          if (c.node c.myself).slaveof = some n then clusterCountNonFailingSlaves c n
          else r.this_slaves } := by
    unfold cronCount
    rw [h.cluster]
    simp only [hslave, hmaster, hfail, Bool.not_false, Bool.and_self, if_true]
  have hlast : n ∈ ns ++ [n] := by simp
  have hleft : ∀ m ∈ ns, m ∈ ns ++ [n] := fun m hm => List.mem_append_left [n] hm
  rw [hr]
  constructor
  case cluster => exact h.cluster
  case orphaned =>
    show (if _ then _ else _) ≠ 0 ↔ _
    split
    case isTrue horphan =>
      exact ⟨fun _ => ⟨n, hlast, hn, horphan⟩, fun _ => Nat.succ_ne_zero _⟩
    case isFalse horphan =>
      rw [h.orphaned]
      constructor
      · rintro ⟨m, hm, hrest⟩
        exact ⟨m, hleft m hm, hrest⟩
      · rintro ⟨m, hm, hc, hrest⟩
        rcases List.mem_append.mp hm with hm | hm
        · exact ⟨m, hm, hc, hrest⟩
        · exact absurd (List.mem_singleton.mp hm ▸ hrest) horphan
  case le_max =>
    intro m hm hc
    rcases List.mem_append.mp hm with hm | hm
    · exact (h.le_max m hm hc).trans (le_max_left _ _)
    · rw [List.mem_singleton.mp hm]
      exact le_max_right _ _
  case max_found =>
    show max _ _ = 0 ∨ ∃ m ∈ ns ++ [n], _ ∧ _ = max _ _
    rcases le_total r.max_slaves (clusterCountNonFailingSlaves c n) with hle | hle
    · rw [max_eq_right hle]
      exact Or.inr ⟨n, hlast, hn, rfl⟩
    · rw [max_eq_left hle]
      refine h.max_found.imp_right ?_
      rintro ⟨m, hm, hrest⟩
      exact ⟨m, hleft m hm, hrest⟩
  case this_found =>
    by_cases hthis : (c.node c.myself).slaveof = some n
    · simp only [if_pos hthis]
      exact Or.inr ⟨n, hlast, hn, hthis, rfl⟩
    · simp only [if_neg hthis]
      refine h.this_found.imp_right ?_
      rintro ⟨m, hm, hrest⟩
      exact ⟨m, hleft m hm, hrest⟩
  case this_of =>
    intro m hm hc hthis
    show (if _ then _ else _) = _
    split
    case isTrue hsame =>
      rw [Option.some.inj (hsame.symm.trans hthis)]
    case isFalse hother =>
      rcases List.mem_append.mp hm with hm | hm
      · exact h.this_of m hm hc hthis
      · exact absurd (List.mem_singleton.mp hm ▸ hthis) hother

theorem cronCounts_countsOf {c : BusState ν} (hslave : c.nodeIsSlave c.myself = true) :
    CountsOf c c.nodes (cronCounts c) := by
  suffices hfold : ∀ (ns seen : List Addr) (r : CronScan ν), CountsOf c seen r →
      CountsOf c (seen ++ ns)
        (ns.foldl (fun r n => if cronSkips c n then r else cronCount n r) r) from
    hfold c.nodes [] _ (CountsOf.nil c)
  intro ns
  induction ns with
  | nil =>
    intro seen r h
    rw [List.append_nil]
    exact h
  | cons n ns ih =>
    intro seen r h
    rw [List.foldl_cons, List.append_cons]
    refine ih _ _ ?_
    by_cases hskip : cronSkips c n = true
    · rw [if_pos hskip]
      exact h.skip fun hc => by rw [hc.1] at hskip; cases hskip
    · rw [if_neg hskip]
      by_cases hn : c.nodeIsMaster n = true ∧ c.nodeFailed n = false
      · exact h.count hslave ⟨by simpa using hskip, hn.1, hn.2⟩
      · have hsame : cronCount n r = r := by
          unfold cronCount
          rw [h.cluster, if_neg (by simpa [hslave] using hn)]
        rw [hsame]
        exact h.skip fun hc => hn hc.2

/-! ## The candidate and the target -/

section Candidate

variable [LinearOrder ν]

def rivals (max_slaves : Nat) (c : BusState ν) : List Addr :=
  c.nodes.flatMap fun n =>
    if c.nodeIsSlave n || c.nodeFailed n then []
    else if clusterCountNonFailingSlaves c n = max_slaves then c.slavesOf n else []

theorem migrationCandidate_eq_foldl (max_slaves : Nat) (c : BusState ν) :
    migrationCandidate max_slaves c =
      (rivals max_slaves c).foldl (fun candidate s =>
        if (c.info s).name < (c.info candidate).name then s else candidate) c.myself := by
  unfold migrationCandidate rivals
  generalize c.myself = start
  induction c.nodes generalizing start with
  | nil => rfl
  | cons n ns ih =>
    rw [List.foldl_cons, ih, List.flatMap_cons, List.foldl_append]
    congr 1
    split
    · rfl
    · split <;> rfl

theorem foldl_smaller_le {α : Type} (f : α → ν) (l : List α) (a : α) :
    f (l.foldl (fun best x => if f x < f best then x else best) a) ≤ f a ∧
      ∀ x ∈ l, f (l.foldl (fun best x => if f x < f best then x else best) a) ≤ f x := by
  induction l generalizing a with
  | nil => exact ⟨le_refl _, by simp⟩
  | cons y l ih =>
    obtain ⟨hhead, htail⟩ := ih (if f y < f a then y else a)
    have hboth : f (if f y < f a then y else a) ≤ f a ∧ f (if f y < f a then y else a) ≤ f y := by
      split
      case isTrue hlt => exact ⟨hlt.le, le_refl _⟩
      case isFalse hlt => exact ⟨le_refl _, not_lt.mp hlt⟩
    refine ⟨hhead.trans hboth.1, fun x hx => ?_⟩
    rcases List.mem_cons.mp hx with rfl | hx
    · exact hhead.trans hboth.2
    · exact htail x hx

theorem foldl_smaller_eq_iff {α : Type} (f : α → ν) (l : List α) (a : α) :
    l.foldl (fun best x => if f x < f best then x else best) a = a ↔ ∀ x ∈ l, f a ≤ f x := by
  constructor
  · intro heq x hx
    have hle := (foldl_smaller_le f l a).2 x hx
    rwa [heq] at hle
  · intro hall
    induction l with
    | nil => rfl
    | cons y l ih =>
      rw [List.foldl_cons, if_neg (not_lt.mpr (hall y List.mem_cons_self))]
      exact ih fun x hx => hall x (List.mem_cons_of_mem y hx)

theorem migrationCandidate_eq_myself_iff (max_slaves : Nat) (c : BusState ν) :
    migrationCandidate max_slaves c = c.myself ↔
      ∀ m ∈ c.nodes, c.nodeIsSlave m = false → c.nodeFailed m = false →
        clusterCountNonFailingSlaves c m = max_slaves →
        ∀ s ∈ c.slavesOf m, (c.info c.myself).name ≤ (c.info s).name := by
  rw [migrationCandidate_eq_foldl,
    foldl_smaller_eq_iff (fun s => (c.info s).name) (rivals max_slaves c) c.myself]
  constructor
  · intro h m hm hslave hfail hmax s hs
    refine h s (List.mem_flatMap.mpr ⟨m, hm, ?_⟩)
    simpa [hslave, hfail, hmax] using hs
  · intro h s hs
    obtain ⟨m, hm, hsm⟩ := List.mem_flatMap.mp hs
    by_cases hskip : (c.nodeIsSlave m || c.nodeFailed m) = true
    · rw [if_pos hskip] at hsm
      exact absurd hsm List.not_mem_nil
    · rw [if_neg hskip] at hsm
      split at hsm
      case isTrue hmax =>
        rw [Bool.or_eq_true, not_or, Bool.not_eq_true, Bool.not_eq_true] at hskip
        exact h m hm hskip.1 hskip.2 hmax s hsm
      case isFalse => exact absurd hsm List.not_mem_nil

end Candidate

theorem migrationTarget_some {c : BusState ν} {t : Addr} (h : migrationTarget c = some t) :
    t ∈ c.nodes ∧ c.nodeIsSlave t = false ∧ c.nodeFailed t = false ∧
      clusterCountNonFailingSlaves c t = 0 ∧ (c.node t).numslots > 0 := by
  have hp := List.find?_some h
  simp only [Bool.and_eq_true, Bool.not_eq_true', Bool.or_eq_false_iff, decide_eq_true_eq] at hp
  exact ⟨List.mem_of_find?_eq_some h, hp.1.1, hp.1.2, hp.2⟩

theorem exists_migrationTarget {c : BusState ν} {m : Addr} (hm : m ∈ c.nodes)
    (hslave : c.nodeIsSlave m = false) (hfail : c.nodeFailed m = false)
    (hok : clusterCountNonFailingSlaves c m = 0) (hslots : (c.node m).numslots > 0) :
    ∃ t, migrationTarget c = some t := by
  rw [← Option.isSome_iff_exists]
  unfold migrationTarget
  rw [List.find?_isSome]
  exact ⟨m, hm, by simp [hslave, hfail, hok, hslots]⟩

/-! ## One node of a shared view -/

namespace SharedView

variable (v : SharedView ν) {cfg : BusConfig} {n m t : Addr} {k : Nat}

@[simp] theorem seenBy_myself : (v.seenBy n).myself = n := rfl

@[simp] theorem seenBy_nodeIsMaster : (v.seenBy n).nodeIsMaster m = v.cluster.nodeIsMaster m := rfl

@[simp] theorem seenBy_nodeFailed : (v.seenBy n).nodeFailed m = v.cluster.nodeFailed m := rfl

@[simp] theorem seenBy_slaveof : ((v.seenBy n).node m).slaveof = (v.cluster.node m).slaveof := rfl

theorem mem_seenBy_nodes : m ∈ (v.seenBy n).nodes ↔ m ∈ v.cluster.nodes :=
  (v.order_perm n).mem_iff

theorem counted_iff (hslave : v.cluster.nodeIsSlave n = true) (hm : m ∈ v.cluster.nodes) :
    Counted (v.seenBy n) m ↔ v.Working m ∧ (v.cluster.info m).noaddr = false := by
  have hskip : cronSkips (v.seenBy n) m = ((m == n) || (v.cluster.info m).noaddr) := by
    unfold cronSkips
    have hhand : (v.seenBy n).nodeInHandshake m = false := v.no_handshake m hm
    rw [hhand, Bool.or_false]
    rfl
  unfold Counted Working
  rw [hskip, seenBy_nodeIsMaster, seenBy_nodeFailed, v.master_iff m hm]
  constructor
  · rintro ⟨hs, hmaster, hfail⟩
    simp only [Bool.or_eq_false_iff] at hs
    exact ⟨⟨hm, by simpa using hmaster, hfail⟩, hs.2⟩
  · rintro ⟨⟨-, hmaster, hfail⟩, haddr⟩
    have hne : (m == n) = false := by
      rw [beq_eq_false_iff_ne]
      rintro rfl
      rw [hslave] at hmaster
      cases hmaster
    exact ⟨by rw [hne, haddr]; rfl, by rw [hmaster]; rfl, hfail⟩

theorem okslaves_eq (hm : m ∈ v.cluster.nodes) :
    ((v.seenBy n).slavesOf m).countP
        (fun s => !(v.seenBy n).nodeFailed s && !(v.seenBy n).nodeTimedOut s) = v.okslaves m := by
  refine List.countP_congr fun s hs => ?_
  have htimed : (v.seenBy n).nodeTimedOut s = false :=
    v.no_pfail s ((v.slaves_iff m hm s).mp hs).1
  rw [htimed, seenBy_nodeFailed]
  simp

theorem slave_of_mem {s : Addr} (hw : v.Working m) (hs : s ∈ v.cluster.slavesOf m) :
    s ∈ v.cluster.nodes ∧ v.cluster.nodeIsSlave s = true ∧ (v.cluster.node s).slaveof = some m :=
  (v.slaves_iff m hw.1 s).mp hs

theorem countP_erase_slave {s : Addr} (hs : s ∈ v.cluster.slavesOf m)
    (hfail : v.cluster.nodeFailed s = false) :
    ((v.cluster.slavesOf m).erase s).countP (fun s => !v.cluster.nodeFailed s) =
      v.okslaves m - 1 := by
  rw [List.countP_erase, if_pos ⟨hs, by simp [hfail]⟩]
  rfl

variable [LinearOrder ν]

/-- The master whose slave `n` is, with `k` non-failing slaves, and all that holds if `n` moves. -/
structure MoveOf (v : SharedView ν) (cfg : BusConfig) (n m : Addr) (k : Nat) : Prop where
  working : v.Working m
  address : (v.cluster.info m).noaddr = false
  slaveof : (v.cluster.node n).slaveof = some m
  count : v.okslaves m = k
  two_le : 2 ≤ k
  largest : ∀ m', v.Working m' → (v.cluster.info m').noaddr = false → v.okslaves m' ≤ k
  barrier : cfg.cluster_migration_barrier < k
  orphan : ∃ o, v.Orphaned o ∧ (v.cluster.info o).noaddr = false
  smallest : ∀ m' s', v.Working m' → v.okslaves m' = k → s' ∈ v.cluster.slavesOf m' →
    (v.cluster.info n).name ≤ (v.cluster.info s').name

theorem candidate_iff : migrationCandidate k (v.seenBy n) = n ↔
    ∀ m' s', v.Working m' → v.okslaves m' = k → s' ∈ v.cluster.slavesOf m' →
      (v.cluster.info n).name ≤ (v.cluster.info s').name := by
  refine (migrationCandidate_eq_myself_iff k (v.seenBy n)).trans ?_
  constructor
  · intro h m' s' hw hk hs
    exact h m' (v.mem_seenBy_nodes.mpr hw.1) hw.2.1 hw.2.2 hk s' hs
  · intro h m' hm hslave hfail hk s' hs
    exact h m' s' ⟨v.mem_seenBy_nodes.mp hm, hslave, hfail⟩ hk hs

theorem moveOf_of_moves (h : v.Moves cfg n t) :
    v.Orphaned t ∧ ∃ m k, v.MoveOf cfg n m k := by
  obtain ⟨hn, hslave, hfail, hmoves⟩ := h
  have hcounts := cronCounts_countsOf (c := v.seenBy n) hslave
  simp only [cronMigratesTo] at hmoves
  set r := cronCounts (v.seenBy n)
  have hcounted : ∀ m ∈ (v.seenBy n).nodes,
      (Counted (v.seenBy n) m ↔ v.Working m ∧ (v.cluster.info m).noaddr = false) :=
    fun m hm => v.counted_iff hslave (v.mem_seenBy_nodes.mp hm)
  split at hmoves
  case isFalse => cases hmoves
  case isTrue hgate =>
    obtain ⟨-, horphans, htwo, hthis⟩ := hgate
    obtain ⟨m, hm, hcm, hof, hcount⟩ : ∃ m ∈ (v.seenBy n).nodes, Counted (v.seenBy n) m ∧
        ((v.seenBy n).node n).slaveof = some m ∧ v.okslaves m = r.this_slaves := by
      refine hcounts.this_found.resolve_left ?_
      omega
    obtain ⟨o, ho, hco, hozero, hoslots⟩ := hcounts.orphaned.mp horphans
    obtain ⟨hw, haddr⟩ := (hcounted m hm).mp hcm
    obtain ⟨hwo, haddro⟩ := (hcounted o ho).mp hco
    unfold migratesTo at hmoves
    rw [seenBy_myself, hof] at hmoves
    simp only [v.okslaves_eq hw.1] at hmoves
    split at hmoves
    case isTrue => cases hmoves
    case isFalse hbarrier =>
      split at hmoves
      case isFalse => cases hmoves
      case isTrue hcandidate =>
        obtain ⟨htmem, htslave, htfail, htzero, htslots⟩ := migrationTarget_some hmoves
        have hbar : ¬ v.okslaves m ≤ cfg.cluster_migration_barrier := by
          intro hle
          exact hbarrier (by simp [hle])
        refine ⟨⟨⟨v.mem_seenBy_nodes.mp htmem, htslave, htfail⟩, htzero, htslots⟩,
          m, r.max_slaves, ?_⟩
        constructor
        case working => exact hw
        case address => exact haddr
        case slaveof => exact hof
        case count => exact hcount.trans hthis
        case two_le => exact htwo
        case largest =>
          intro m' hw' haddr'
          have hm' := v.mem_seenBy_nodes (n := n).mpr hw'.1
          exact hcounts.le_max m' hm' ((hcounted m' hm').mpr ⟨hw', haddr'⟩)
        case barrier => omega
        case orphan => exact ⟨o, ⟨hwo, hozero, hoslots⟩, haddro⟩
        case smallest => exact v.candidate_iff.mp hcandidate

theorem moves_of_moveOf (hn : n ∈ v.cluster.nodes) (hslave : v.cluster.nodeIsSlave n = true)
    (hfail : v.cluster.nodeFailed n = false) (h : v.MoveOf cfg n m k) :
    ∃ t, v.Moves cfg n t := by
  have hcounts := cronCounts_countsOf (c := v.seenBy n) hslave
  have hcounted : ∀ m ∈ v.cluster.nodes,
      (Counted (v.seenBy n) m ↔ v.Working m ∧ (v.cluster.info m).noaddr = false) :=
    fun m hm => v.counted_iff hslave hm
  obtain ⟨o, ho, haddro⟩ := h.orphan
  have hm := v.mem_seenBy_nodes (n := n).mpr h.working.1
  have ho' := v.mem_seenBy_nodes (n := n).mpr ho.1.1
  have hcm := (hcounted m h.working.1).mpr ⟨h.working, h.address⟩
  have horphans : (cronCounts (v.seenBy n)).orphaned_masters ≠ 0 :=
    hcounts.orphaned.mpr ⟨o, ho', (hcounted o ho.1.1).mpr ⟨ho.1, haddro⟩, ho.2.1, ho.2.2⟩
  have hthis : (cronCounts (v.seenBy n)).this_slaves = k :=
    (hcounts.this_of m hm hcm h.slaveof).trans h.count
  have hmax : (cronCounts (v.seenBy n)).max_slaves = k := by
    refine le_antisymm ?_ ?_
    · rcases hcounts.max_found with hzero | ⟨m', hm', hcm', hk'⟩
      · omega
      · have hw' := (hcounted m' (v.mem_seenBy_nodes.mp hm')).mp hcm'
        rw [← hk']
        exact h.largest m' hw'.1 hw'.2
    · rw [← h.count]
      exact hcounts.le_max m hm hcm
  obtain ⟨t, ht⟩ := exists_migrationTarget (c := v.seenBy n) ho' ho.1.2.1 ho.1.2.2 ho.2.1 ho.2.2
  refine ⟨t, hn, hslave, hfail, ?_⟩
  unfold cronMigratesTo
  rw [if_pos ⟨hslave, horphans, by rw [hmax]; exact h.two_le, by rw [hthis, hmax]⟩, hmax]
  unfold migratesTo
  rw [seenBy_myself, seenBy_slaveof, h.slaveof]
  have hbar : ¬ v.okslaves m ≤ cfg.cluster_migration_barrier := by
    have := h.barrier
    have := h.count
    omega
  have hok : (v.seenBy n).ok = true := v.ok
  simp only [v.okslaves_eq h.working.1, hok, hbar, decide_false, Bool.not_true, Bool.or_self,
    Bool.false_eq_true, if_false]
  rw [if_pos (v.candidate_iff.mpr h.smallest)]
  exact ht

theorem moveOf_unique {n' m' : Addr} {k' : Nat} (h : v.MoveOf cfg n m k) (h' : v.MoveOf cfg n' m' k')
    (hn : n ∈ v.cluster.nodes ∧ v.cluster.nodeIsSlave n = true)
    (hn' : n' ∈ v.cluster.nodes ∧ v.cluster.nodeIsSlave n' = true) : n' = n := by
  have hk : k' = k := by
    refine le_antisymm ?_ ?_
    · rw [← h'.count]
      exact h.largest m' h'.working h'.address
    · rw [← h.count]
      exact h'.largest m h.working h.address
  subst hk
  have hs := (v.slaves_iff m h.working.1 n).mpr ⟨hn.1, hn.2, h.slaveof⟩
  have hs' := (v.slaves_iff m' h'.working.1 n').mpr ⟨hn'.1, hn'.2, h'.slaveof⟩
  exact v.names n' hn'.1 n hn.1 (le_antisymm (h'.smallest m n h.working h.count hs)
    (h.smallest m' n' h'.working h'.count hs'))

theorem oneMoves_iff (hcalls : v.CallsFor cfg k) : v.OneMoves cfg k ↔ v.SmallestCanMove k := by
  obtain ⟨-, ⟨-, hlargest⟩, htwo, hbarrier⟩ := hcalls
  constructor
  · rintro ⟨n, t, hmoves, -, -, m, hw, hof, hk, -⟩
    obtain ⟨-, m₁, k₁, h⟩ := v.moveOf_of_moves hmoves
    obtain rfl : m = m₁ := Option.some.inj (hof.symm.trans h.slaveof)
    obtain rfl : k = k₁ := hk.symm.trans h.count
    exact ⟨h.orphan, m, n, hw, hk, h.address,
      (v.slaves_iff m hw.1 n).mpr ⟨hmoves.1, hmoves.2.1, hof⟩, hmoves.2.2.1, h.smallest⟩
  · rintro ⟨horphan, m, s, hw, hk, haddr, hs, hfail, hsmallest⟩
    obtain ⟨hmem, hslave, hof⟩ := v.slave_of_mem hw hs
    have hmove : v.MoveOf cfg s m k :=
      ⟨hw, haddr, hof, hk, htwo, fun m' hw' _ => hlargest m' hw', hbarrier, horphan, hsmallest⟩
    obtain ⟨t, ht⟩ := v.moves_of_moveOf hmem hslave hfail hmove
    refine ⟨s, t, ht, ?_, (v.moveOf_of_moves ht).1, m, hw, hof, hk, ?_⟩
    · intro n' t' h'
      obtain ⟨-, m', k', hmove'⟩ := v.moveOf_of_moves h'
      exact v.moveOf_unique hmove hmove' ⟨hmem, hslave⟩ ⟨h'.1, h'.2.1⟩
    · rw [v.countP_erase_slave hs hfail, hk]
      omega

end SharedView

/-! ## The counts of `clusterCron` -/

/-- What the counts read stays the same. -/
structure SameCounts (c c' : BusState ν) : Prop where
  myself : c'.myself = c.myself
  flags : ∀ n, (c'.node n).flags = (c.node n).flags
  slaveof : ∀ n, (c'.node n).slaveof = (c.node n).slaveof
  numslots : ∀ n, (c'.node n).numslots = (c.node n).numslots
  noaddr : ∀ n, (c'.info n).noaddr = (c.info n).noaddr
  slaves : ∀ n, c'.slavesOf n = c.slavesOf n

theorem SameCounts.refl (c : BusState ν) : SameCounts c c :=
  ⟨rfl, fun _ => rfl, fun _ => rfl, fun _ => rfl, fun _ => rfl, fun _ => rfl⟩

theorem SameCounts.trans {a b c : BusState ν} (h : SameCounts a b) (h' : SameCounts b c) :
    SameCounts a c where
  myself := h'.myself.trans h.myself
  flags n := (h'.flags n).trans (h.flags n)
  slaveof n := (h'.slaveof n).trans (h.slaveof n)
  numslots n := (h'.numslots n).trans (h.numslots n)
  noaddr n := (h'.noaddr n).trans (h.noaddr n)
  slaves n := (h'.slaves n).trans (h.slaves n)

theorem SameCounts.modInfo (c : BusState ν) (n : Addr) {f : NodeInfo ν → NodeInfo ν}
    (hf : ∀ x, (f x).noaddr = x.noaddr ∧ (f x).slaves = x.slaves ∧ (f x).numslaves = x.numslaves) :
    SameCounts c (c.modInfo n f) := by
  have hinfo : ∀ m, ((c.modInfo n f).info m).noaddr = (c.info m).noaddr ∧
      ((c.modInfo n f).info m).slaves = (c.info m).slaves ∧
      ((c.modInfo n f).info m).numslaves = (c.info m).numslaves := by
    intro m
    by_cases hm : m = n
    · subst hm
      simpa [BusState.modInfo, BusState.setInfo] using hf (c.info m)
    · simp [BusState.modInfo, BusState.setInfo, hm]
  refine ⟨rfl, fun _ => rfl, fun _ => rfl, fun _ => rfl, fun m => (hinfo m).1, fun m => ?_⟩
  rw [BusState.slavesOf, (hinfo m).2.1, (hinfo m).2.2, BusState.slavesOf]

theorem SameCounts.freeNodeLink (c : BusState ν) (n : Addr) : SameCounts c (freeNodeLink n c) := by
  have hnode : ∀ m, ((Bus.freeNodeLink n c).node m).flags = (c.node m).flags ∧
      ((Bus.freeNodeLink n c).node m).slaveof = (c.node m).slaveof ∧
      ((Bus.freeNodeLink n c).node m).numslots = (c.node m).numslots := by
    intro m
    by_cases hm : m = n
    · subst hm
      simp [Bus.freeNodeLink, BusState.modNode, BusState.lift, ClusterState.setNode]
    · simp [Bus.freeNodeLink, BusState.modNode, BusState.lift, ClusterState.setNode, hm]
  exact ⟨rfl, fun m => (hnode m).1, fun m => (hnode m).2.1, fun m => (hnode m).2.2, fun _ => rfl,
    fun _ => rfl⟩

theorem SameCounts.sendPing [DecidableEq ν] (cfg : BusConfig) (env : BusEnv ν) (link : Option Addr)
    (type : PingType) (c : BusState ν) : SameCounts c (clusterSendPing cfg env link type c) := by
  have hnote : SameCounts c (notePing env link type c) := by
    unfold notePing
    split
    · exact SameCounts.modInfo c _ fun x => ⟨rfl, rfl, rfl⟩
    · exact SameCounts.refl c
  exact hnote.trans ⟨rfl, fun _ => rfl, fun _ => rfl, fun _ => rfl, fun _ => rfl, fun _ => rfl⟩

def CronScan.counts (r : CronScan ν) : Nat × Nat × Nat :=
  (r.orphaned_masters, r.max_slaves, r.this_slaves)

theorem SameCounts.failing {c c' : BusState ν} (h : SameCounts c c') (n : Addr) :
    clusterCountNonFailingSlaves c' n = clusterCountNonFailingSlaves c n := by
  unfold clusterCountNonFailingSlaves
  rw [h.slaves]
  refine List.countP_congr fun s _ => ?_
  simp only [ClusterState.nodeFailed, h.flags]

theorem counts_cronCount (n : Addr) (r : CronScan ν) : (cronCount n r).counts =
    if r.cluster.nodeIsSlave r.cluster.myself && r.cluster.nodeIsMaster n && !r.cluster.nodeFailed n
    then
      (if clusterCountNonFailingSlaves r.cluster n = 0 ∧ (r.cluster.node n).numslots > 0 then
          r.orphaned_masters + 1
        else r.orphaned_masters,
        max r.max_slaves (clusterCountNonFailingSlaves r.cluster n),
        if (r.cluster.node r.cluster.myself).slaveof = some n then
          clusterCountNonFailingSlaves r.cluster n
        else r.this_slaves)
    else r.counts := by
  unfold cronCount
  dsimp only
  split <;> rfl

theorem SameCounts.cronCount {r q : CronScan ν} (h : SameCounts q.cluster r.cluster)
    (hcounts : r.counts = q.counts) (n : Addr) :
    (cronCount n r).counts = (cronCount n q).counts := by
  obtain ⟨hr₁, hr₂, hr₃⟩ : r.orphaned_masters = q.orphaned_masters ∧ r.max_slaves = q.max_slaves ∧
      r.this_slaves = q.this_slaves := by simpa [CronScan.counts] using hcounts
  rw [counts_cronCount, counts_cronCount]
  simp only [ClusterState.nodeIsSlave, ClusterState.nodeIsMaster, ClusterState.nodeFailed, h.flags,
    h.myself, h.failing, h.slaveof, h.numslots, hr₁, hr₂, hr₃, hcounts]
  congr

theorem cronCount_cluster (n : Addr) (r : CronScan ν) : (cronCount n r).cluster = r.cluster := by
  unfold cronCount
  dsimp only
  split <;> rfl

theorem cronCheck_counts [DecidableEq ν] (cfg : BusConfig) (env : BusEnv ν) {r q : CronScan ν}
    (h : SameCounts q.cluster r.cluster) (hcounts : r.counts = q.counts) (n : Addr) :
    SameCounts q.cluster (cronCheck cfg env r n).cluster ∧
      (cronCheck cfg env r n).counts =
        (if cronSkips q.cluster n then q else cronCount n q).counts := by
  have hskip : ((r.cluster.node n).flags.myself || (r.cluster.info n).noaddr ||
      r.cluster.nodeInHandshake n) = cronSkips q.cluster n := by
    simp only [cronSkips, ClusterState.nodeInHandshake, h.flags, h.noaddr]
  have hcount := SameCounts.cronCount h hcounts n
  have hlink : SameCounts q.cluster
      (if linkIsStuck cfg env r.cluster n then freeNodeLink n r.cluster else r.cluster) := by
    split
    · exact h.trans (SameCounts.freeNodeLink _ n)
    · exact h
  unfold cronCheck
  simp only [hskip]
  generalize (if linkIsStuck cfg env r.cluster n then freeNodeLink n r.cluster
    else r.cluster) = c at hlink ⊢
  split
  · exact ⟨h, hcounts⟩
  · split
    · exact ⟨hlink.trans (SameCounts.sendPing cfg env _ _ _), hcount⟩
    · split
      · exact ⟨hlink.trans (SameCounts.modInfo c n (f := fun x => { x with pfail := true })
          fun x => ⟨rfl, rfl, rfl⟩), hcount⟩
      · exact ⟨hlink, hcount⟩

theorem cronScan_counts [DecidableEq ν] (cfg : BusConfig) (env : BusEnv ν) (c : BusState ν) :
    (cronScan cfg env c).counts = (cronCounts c).counts := by
  suffices hfold : ∀ (ns : List Addr) (r q : CronScan ν), q.cluster = c → SameCounts c r.cluster →
      r.counts = q.counts → (ns.foldl (cronCheck cfg env) r).counts =
        (ns.foldl (fun q n => if cronSkips c n then q else cronCount n q) q).counts from
    hfold c.nodes _ _ rfl (SameCounts.refl c) rfl
  intro ns
  induction ns with
  | nil => exact fun r q _ _ hcounts => hcounts
  | cons n ns ih =>
    intro r q hq h hcounts
    obtain ⟨hsame, hnext⟩ := cronCheck_counts cfg env (q := q) (by rw [hq]; exact h) hcounts n
    rw [hq] at hsame hnext
    refine ih _ (if cronSkips c n then q else Bus.cronCount n q) ?_ hsame hnext
    split
    · exact hq
    · rw [cronCount_cluster, hq]

theorem cronSlave_eq [LinearOrder ν] (cfg : BusConfig) (env : BusEnv ν) (r : CronScan ν)
    (c : BusState ν) (hr : r.counts = (cronCounts c).counts)
    (hfailover : clusterHandleSlaveFailover cfg env (clusterHandleManualFailover env c) = c) :
    cronSlave cfg env r c = match cronMigratesTo cfg c with
      | none => c
      | some t => clusterSetMaster t c := by
  obtain ⟨hr₁, hr₂, hr₃⟩ : r.orphaned_masters = (cronCounts c).orphaned_masters ∧
      r.max_slaves = (cronCounts c).max_slaves ∧ r.this_slaves = (cronCounts c).this_slaves := by
    simpa [CronScan.counts] using hr
  unfold cronSlave cronMigratesTo
  simp only [hfailover, hr₁, hr₂, hr₃]
  by_cases hslave : c.nodeIsSlave c.myself = true
  · by_cases hgate : (cronCounts c).orphaned_masters ≠ 0 ∧ (cronCounts c).max_slaves ≥ 2 ∧
        (cronCounts c).this_slaves = (cronCounts c).max_slaves
    · rw [if_pos hslave, if_pos hgate, if_pos ⟨hslave, hgate⟩]
      rfl
    · rw [if_pos hslave, if_neg hgate, if_neg fun h => hgate h.2]
  · rw [if_neg hslave, if_neg fun h => hslave h.1]

/-! ## All nodes together -/

/-- In every shared view migration does what it is for, exactly if the slave with the smallest name at
the largest masters is able to move where a move is called for. -/
theorem migratesWell_iff [LinearOrder ν] (v : SharedView ν) (cfg : BusConfig) :
    v.MigratesWell cfg ↔ ∀ k, v.CallsFor cfg k → v.SmallestCanMove k := by
  constructor
  · rintro ⟨hone, -⟩ k hcalls
    exact (v.oneMoves_iff hcalls).mp (hone k hcalls)
  · intro h
    refine ⟨fun k hcalls => (v.oneMoves_iff hcalls).mpr (h k hcalls), fun hnone n t hmoves => ?_⟩
    exact hnone ⟨t, (v.moveOf_of_moves hmoves).1⟩

theorem failingCandidate_slaves (m s : Nat) :
    s ∈ (if m = 1 then [3, 4, 5] else []).take (if m = 1 then 3 else 0) ↔
      s ∈ [1, 2, 3, 4, 5] ∧ decide (2 < s) = true ∧
        (if 2 < s ∧ s ≤ 5 then some 1 else none) = some m := by
  by_cases hm : m = 1
  · subst hm
    simp
    omega
  · have hne : ¬ 1 = m := fun e => hm e.symm
    simp [hm, hne]

def failingCandidate : SharedView Nat where
  cluster :=
    { myself := 0, currentEpoch := 0, size := 1, nodes := [1, 2, 3, 4, 5]
      node := fun a =>
        { flags := ⟨decide (a ≤ 2), decide (2 < a), a == 3, false, false⟩
          slaveof := if 2 < a ∧ a ≤ 5 then some 1 else none
          slots := ∅, numslots := if a = 2 then 1 else 0
          configEpoch := 0, voted_time := 0, link := true }
      slots := fun _ => none
      failover_auth_time := 0, failover_auth_count := 0, failover_auth_sent := false
      failover_auth_rank := 0, failover_auth_epoch := 0, mf_end := 0, mf_can_start := false
      lastVoteEpoch := 0, todo_before_sleep := ⟨false, false, false, false⟩
      info := fun a =>
        { ctime := 0, name := a, pfail := false, noaddr := false, meet := false
          numslaves := if a = 1 then 3 else 0
          slaves := if a = 1 then [3, 4, 5] else []
          ping_sent := 0, pong_received := 0, fail_time := 0, repl_offset_time := 0
          repl_offset := 0, ip := "", port := 0, link_ctime := 0, fail_reports := [] }
      ok := true, nodes_black_list := [], migrating_slots_to := fun _ => none
      importing_slots_from := fun _ => none, mf_slave := none, mf_master_offset := 0
      first_call_time := 0, among_minority_time := 0, crashed := none, sent := []
      deletedSlots := [] }
  order _ := [1, 2, 3, 4, 5]
  order_perm _ := List.Perm.refl _
  ok := rfl
  no_pfail _ _ := rfl
  no_handshake _ _ := rfl
  master_iff n _ := by
    show decide (n ≤ 2) = !decide (2 < n)
    rw [Bool.eq_iff_iff]
    simp
  slaves_iff m _ s := failingCandidate_slaves m s
  slaves_nodup m _ := by
    show ((if m = 1 then [3, 4, 5] else []).take (if m = 1 then 3 else 0)).Nodup
    split <;> decide
  names _ _ _ _ h := h

/-- The failing slave has the smallest name, so that no slave moves. -/
theorem failingCandidate_stays :
    ¬ failingCandidate.MigratesWell ⟨⟨15000, 10⟩, 1, 7000⟩ := by
  rintro ⟨hone, -⟩
  have hlargest : failingCandidate.Largest 2 := by
    refine ⟨⟨1, ⟨by decide, by decide, by decide⟩, by decide⟩, fun m hm => ?_⟩
    have hall : ∀ m ∈ failingCandidate.cluster.nodes, failingCandidate.okslaves m ≤ 2 := by decide
    exact hall m hm.1
  obtain ⟨n, t, ⟨hn, hslave, hfail, hmoves⟩, -⟩ := hone 2
    ⟨⟨2, ⟨by decide, by decide, by decide⟩, by decide, by decide⟩, hlargest, le_refl 2, by decide⟩
  have hstay : ∀ n ∈ failingCandidate.cluster.nodes,
      failingCandidate.cluster.nodeIsSlave n = true →
      failingCandidate.cluster.nodeFailed n = false →
      cronMigratesTo ⟨⟨15000, 10⟩, 1, 7000⟩ (failingCandidate.seenBy n) = none := by decide
  rw [hstay n hn hslave hfail] at hmoves
  cases hmoves

end RedisCluster.Bus
