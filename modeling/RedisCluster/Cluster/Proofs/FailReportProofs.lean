import RedisCluster.Cluster.Proofs.ChangeRunProofs

/-!
# Proofs: the failure reports are what was said

Each report in the table is the last word of a node of the table, and no node has two of the same
reporter. A call of `markNodeAsFailingIfNeeded` counts the entries of such a list, so that its votes
are those of different nodes.
-/

namespace RedisCluster.Bus

open RedisCluster.Lib

variable {ν : Type}

/-! ## The last word -/

theorem lastWord_cons_of_ne {x : Statement} {log : List Statement} {s n : Addr}
    (h : ¬ (x.reporter = s ∧ x.about = n)) : lastWord (x :: log) s n = lastWord log s n := by
  unfold lastWord
  exact List.find?_cons_of_neg (by simpa using h)

theorem lastWord_cons_self (x : Statement) (log : List Statement) :
    lastWord (x :: log) x.reporter x.about = some x := by
  unfold lastWord
  exact List.find?_cons_of_pos (by simp)

theorem lastWord_filter {ns : List Addr} {s n : Addr} (hs : s ∈ ns) (hn : n ∈ ns)
    (log : List Statement) :
    lastWord (log.filter fun x => x.reporter ∈ ns ∧ x.about ∈ ns) s n = lastWord log s n := by
  induction log with
  | nil => rfl
  | cons x log ih =>
    by_cases hx : x.reporter = s ∧ x.about = n
    · obtain ⟨rfl, rfl⟩ := hx
      rw [List.filter_cons_of_pos (by simpa using ⟨hs, hn⟩), lastWord_cons_self, lastWord_cons_self]
    · rw [lastWord_cons_of_ne hx, ← ih]
      by_cases hkeep : x.reporter ∈ ns ∧ x.about ∈ ns
      · rw [List.filter_cons_of_pos (by simpa using hkeep), lastWord_cons_of_ne hx]
      · rw [List.filter_cons_of_neg (by simpa using hkeep)]

/-! ## The invariant -/

def ReportKnown (c : BusState ν) (log : List Statement) (n : Addr) (r : FailReport) : Prop :=
  r.node ∈ c.nodes ∧ lastWord log r.node n = some ⟨r.node, n, true, r.time⟩

structure ReportsOk (c : BusState ν) (log : List Statement) : Prop extends DictOk c where
  distinct : DistinctReporters c
  known : ∀ n ∈ c.nodes, ∀ r ∈ (c.info n).fail_reports, ReportKnown c log n r

theorem ReportsOk.forgets {c c' : BusState ν} {log : List Statement} (h : ReportsOk c log)
    (hk : KeepsDict c c')
    (hr : ∀ n, List.Sublist (c'.info n).fail_reports (c.info n).fail_reports) : ReportsOk c' log := by
  refine ⟨hk.dictOk h.toDictOk, fun n hn => ?_, fun n hn r hrn => ?_⟩
  · rw [hk.nodes] at hn
    exact ((hr n).map FailReport.node).nodup (h.distinct n hn)
  · rw [hk.nodes] at hn
    obtain ⟨h1, h2⟩ := h.known n hn r ((hr n).subset hrn)
    exact ⟨hk.nodes ▸ h1, h2⟩

theorem ReportsOk.sameReports {c c' : BusState ν} {log : List Statement} (h : ReportsOk c log)
    (hd : DictOk c') (hmem : ∀ n, n ∈ c'.nodes ↔ n ∈ c.nodes)
    (hr : ∀ n, (c'.info n).fail_reports = (c.info n).fail_reports) : ReportsOk c' log := by
  refine ⟨hd, fun n hn => ?_, fun n hn r hrn => ?_⟩
  · rw [hr]
    exact h.distinct n ((hmem n).mp hn)
  · rw [hr] at hrn
    obtain ⟨h1, h2⟩ := h.known n ((hmem n).mp hn) r hrn
    exact ⟨(hmem _).mpr h1, h2⟩

theorem ReportsOk.create {P : ν → Prop} {c c' : BusState ν} {a : Addr} {log : List Statement}
    (h : ReportsOk c log) (hc : Creates P a c c') : ReportsOk c' log := by
  have hother : ∀ n ∈ c.nodes, (c'.info n).fail_reports = (c.info n).fail_reports :=
    fun n hn => (hc.other n fun he => hc.fresh (he ▸ hn)).2.2.2
  refine ⟨hc.dictOk h.toDictOk, fun n hn => ?_, fun n hn r hr => ?_⟩
  · rw [hc.nodes] at hn
    rcases List.mem_cons.mp hn with rfl | hn
    · rw [hc.reports]
      exact List.nodup_nil
    · rw [hother n hn]
      exact h.distinct n hn
  · rw [hc.nodes] at hn
    rcases List.mem_cons.mp hn with rfl | hn
    · rw [hc.reports] at hr
      cases hr
    · rw [hother n hn] at hr
      obtain ⟨h1, h2⟩ := h.known n hn r hr
      exact ⟨hc.nodes ▸ List.mem_cons_of_mem _ h1, h2⟩

theorem ReportsOk.remove {c c' : BusState ν} {n : Addr} {log : List Statement}
    (h : ReportsOk c log) (hr : Removes n c c') (hme : n ≠ c.myself) (hno : NoReportBy c' n) :
    ReportsOk c' log := by
  refine ⟨hr.dictOk h.toDictOk hme, fun k hk => ?_, fun k hk r hrk => ?_⟩
  · rw [hr.nodes] at hk
    exact ((hr.reports k).map FailReport.node).nodup (h.distinct k (List.mem_of_mem_erase hk))
  · have hne := hno k hk r hrk
    rw [hr.nodes] at hk
    obtain ⟨h1, h2⟩ := h.known k (List.mem_of_mem_erase hk) r ((hr.reports k).subset hrk)
    refine ⟨?_, h2⟩
    rw [hr.nodes]
    exact h.nodup.mem_erase_iff.mpr ⟨hne, h1⟩

theorem NoReportBy.sublist {c c' : BusState ν} {n : Addr} (h : NoReportBy c n)
    (hn : ∀ k ∈ c'.nodes, k ∈ c.nodes)
    (hr : ∀ k, List.Sublist (c'.info k).fail_reports (c.info k).fail_reports) : NoReportBy c' n :=
  fun k hk r hrk => h k (hn k hk) r ((hr k).subset hrk)

theorem NoReportBy.calm {c c' : BusState ν} {n : Addr} (h : NoReportBy c n) (hc : Calm c c') :
    NoReportBy c' n :=
  h.sublist (fun _ hk => hc.nodes ▸ hk) fun k => hc.reports k ▸ List.Sublist.refl _

theorem NoReportBy.create {P : ν → Prop} {c c' : BusState ν} {a n : Addr} (h : NoReportBy c n)
    (hc : Creates P a c c') : NoReportBy c' n := by
  intro k hk r hr
  rw [hc.nodes] at hk
  rcases List.mem_cons.mp hk with rfl | hk
  · rw [hc.reports] at hr
    cases hr
  · rw [(hc.other k fun he => hc.fresh (he ▸ hk)).2.2.2] at hr
    exact h k hk r hr

section Changes

variable [DecidableEq ν] {P : ν → Prop} {e : BusEvent ν}

theorem ReportsOk.change {c c' : BusState ν} {log : List Statement} (h : ReportsOk c log)
    (hc : Change P NoReportBy e c c') : ReportsOk c' log := by
  have hd := hc.dictOk h.toDictOk
  have hsets : ∀ {x y : Nat} {f : Addr → Nat}, SetsEpochs c c' x y f → ReportsOk c' log :=
    fun hs => h.sameReports hd (fun _ => by rw [hs.nodes]) hs.reports
  cases hc with
  | calm hc => exact h.sameReports hd (fun _ => by rw [hc.nodes]) hc.reports
  | create a hc => exact h.create hc
  | free n hn hhs hno hr =>
    exact h.remove hr (h.ne_myself hhs)
      (hno.sublist (fun k hk => List.mem_of_mem_erase (hr.nodes ▸ hk)) hr.reports)
  | delete n hn hme hno hr => exact h.remove hr hme (hno h.distinct)
  | answer n hdr _ hn _ _ hr =>
    exact h.sameReports hd (fun m => hr.nodes ▸ mem_cons_erase h.toDictOk hn m) hr.reports
  | rehash order hp he => exact h.sameReports hd (fun _ => he ▸ hp.mem_iff) fun _ => he ▸ rfl
  | header _ _ _ _ _ _ hs => exact hsets hs
  | update _ _ _ _ _ _ _ _ _ _ _ hs => exact hsets hs
  | claim hs => exact hsets hs
  | ask hs => exact hsets hs
  | win hs => exact hsets hs
  | setConfigEpoch _ _ hs => exact hsets hs
  | identity name _ _ hr =>
    exact h.sameReports hd (fun m => hr.nodes ▸ mem_cons_erase h.toDictOk h.me m) hr.reports

theorem ReportsOk.changes {c c' : BusState ν} {log : List Statement} (h : ReportsOk c log)
    (hc : Changes P NoReportBy e c c') : ReportsOk c' log := by
  induction hc with
  | refl => exact h
  | tail _ hc ih => exact ih.change hc

end Changes

/-! ## One report -/

theorem addReport_spec (now : Int) (s : Addr) (rs : List FailReport)
    (hnd : (rs.map FailReport.node).Nodup) :
    ((addReport now s rs).map FailReport.node).Nodup ∧
      ∀ r ∈ addReport now s rs, r = ⟨s, now⟩ ∨ (r ∈ rs ∧ r.node ≠ s) := by
  induction rs with
  | nil => exact ⟨List.nodup_singleton s, fun r hr => Or.inl (List.mem_singleton.mp hr)⟩
  | cons q rs ih =>
    obtain ⟨hq, hnd⟩ := List.nodup_cons.mp hnd
    unfold addReport
    split
    case isTrue he =>
      refine ⟨List.nodup_cons.mpr ⟨he ▸ hq, hnd⟩, fun r hr => ?_⟩
      rcases List.mem_cons.mp hr with rfl | hr
      · exact Or.inl rfl
      · refine Or.inr ⟨List.mem_cons_of_mem _ hr, fun hrs => hq ?_⟩
        rw [he, ← hrs]
        exact List.mem_map_of_mem hr
    case isFalse hne =>
      obtain ⟨h1, h2⟩ := ih hnd
      refine ⟨List.nodup_cons.mpr ⟨fun hmem => ?_, h1⟩, fun r hr => ?_⟩
      · obtain ⟨r, hr, hrq⟩ := List.mem_map.mp hmem
        rcases h2 r hr with rfl | ⟨hr, -⟩
        · exact hne hrq.symm
        · exact hq (hrq ▸ List.mem_map_of_mem hr)
      · rcases List.mem_cons.mp hr with rfl | hr
        · exact Or.inr ⟨List.mem_cons_self, hne⟩
        · rcases h2 r hr with h | ⟨h, hn⟩
          · exact Or.inl h
          · exact Or.inr ⟨List.mem_cons_of_mem _ h, hn⟩

theorem ReportsOk.hear {c c' : BusState ν} {log : List Statement} {x : Statement}
    (h : ReportsOk c log) (hk : KeepsDict c c') (hs : x.reporter ∈ c.nodes)
    (hnd : ((c'.info x.about).fail_reports.map FailReport.node).Nodup)
    (hself : ∀ r ∈ (c'.info x.about).fail_reports, (x.bad ∧ r = ⟨x.reporter, x.time⟩) ∨
      (r ∈ (c.info x.about).fail_reports ∧ r.node ≠ x.reporter))
    (hother : ∀ n, n ≠ x.about → (c'.info n).fail_reports = (c.info n).fail_reports) :
    ReportsOk c' (x :: log) := by
  refine ⟨hk.dictOk h.toDictOk, fun n hn => ?_, fun n hn r hr => ?_⟩
  · by_cases hnx : n = x.about
    · exact hnx ▸ hnd
    · rw [hother n hnx]
      rw [hk.nodes] at hn
      exact h.distinct n hn
  · rw [hk.nodes] at hn
    unfold ReportKnown
    rw [hk.nodes]
    by_cases hnx : n = x.about
    · rw [hnx] at hr hn ⊢
      rcases hself r hr with ⟨hbad, rfl⟩ | ⟨hr, hne⟩
      · refine ⟨hs, (lastWord_cons_self x log).trans ?_⟩
        rw [← hbad]
      · obtain ⟨h1, h2⟩ := h.known _ hn r hr
        exact ⟨h1, (lastWord_cons_of_ne fun he => hne he.1.symm).trans h2⟩
    · rw [hother n hnx] at hr
      obtain ⟨h1, h2⟩ := h.known n hn r hr
      exact ⟨h1, (lastWord_cons_of_ne fun he => hnx he.2.symm).trans h2⟩

theorem ReportsOk.addReport (env : BusEnv ν) {c : BusState ν} {log : List Statement} {s n : Addr}
    (h : ReportsOk c log) (hs : s ∈ c.nodes) (hn : n ∈ c.nodes) :
    ReportsOk (clusterNodeAddFailureReport env n s c) (⟨s, n, true, env.mstime⟩ :: log) := by
  obtain ⟨h1, h2⟩ := addReport_spec env.mstime s (c.info n).fail_reports (h.distinct n hn)
  refine h.hear (mild_addReport env n s c).keepsDict hs ?_ (fun r hr => ?_) fun k hk => ?_
  · simpa [clusterNodeAddFailureReport, BusState.modInfo, BusState.setInfo] using h1
  · rcases h2 r (by simpa [clusterNodeAddFailureReport, BusState.modInfo, BusState.setInfo]
      using hr) with h | h
    · exact Or.inl ⟨rfl, h⟩
    · exact Or.inr h
  · simp [clusterNodeAddFailureReport, BusState.modInfo, BusState.setInfo, Function.update_of_ne hk]

theorem ReportsOk.delReport {cfg : BusConfig} {env : BusEnv ν} {c : BusState ν}
    {log : List Statement} {s n : Addr} (h : ReportsOk c log) (hs : s ∈ c.nodes) (hn : n ∈ c.nodes) :
    ReportsOk (clusterNodeDelFailureReport cfg env n s c) (⟨s, n, false, env.mstime⟩ :: log) := by
  have hf := forgets_delReport cfg env n s c
  refine h.hear hf.toKeepsDict hs (((hf.reports n).map FailReport.node).nodup (h.distinct n hn))
    (fun r hr => Or.inr ⟨(hf.reports n).subset hr, delReport_gone cfg env (h.distinct n hn) r hr⟩)
    fun k hk => ?_
  unfold clusterNodeDelFailureReport clusterNodeCleanupFailureReports
  split
  · simp [BusState.modInfo, BusState.setInfo, Function.update_of_ne (show k ≠ n from hk)]
  · rfl

theorem forgets_markNode (cfg : BusConfig) (env : BusEnv ν) (n : Addr) (c : BusState ν) (k : Addr) :
    List.Sublist ((markNodeAsFailingIfNeeded cfg env n c).info k).fail_reports
      (c.info k).fail_reports := by
  unfold markNodeAsFailingIfNeeded
  split
  · exact List.Sublist.refl _
  · have h1 := (forgets_modReports c n (fun rs =>
      rs.filter fun r => !decide (env.mstime - r.time > reportMaxTime cfg))
      fun rs => List.filter_sublist).reports k
    have h2 := soft_setFailFlag env n (clusterNodeCleanupFailureReports cfg env n c)
    dsimp only
    split
    · have h3 : Soft (clusterNodeCleanupFailureReports cfg env n c)
          (clusterDoBeforeSleep (orTodo todoUpdate todoSave)
            (if (setFailFlag env n (clusterNodeCleanupFailureReports cfg env n c)).nodeIsMaster
                (setFailFlag env n (clusterNodeCleanupFailureReports cfg env n c)).myself then
              clusterSendFail cfg env
                ((setFailFlag env n (clusterNodeCleanupFailureReports cfg env n c)).info n).name
                (setFailFlag env n (clusterNodeCleanupFailureReports cfg env n c))
            else setFailFlag env n (clusterNodeCleanupFailureReports cfg env n c))) :=
        Soft.trans (Soft.ite (fun _ => h2.trans (soft_sendFail _ _ _ _)) fun _ => h2) (soft_todo _ _)
      rw [h3.reports]
      exact h1
    · exact h1

/-! ## Gossip -/

structure HeardOk (h : Heard ν) : Prop where
  reports : ReportsOk h.cluster h.log
  calls : ∀ call ∈ h.calls, ReportsOk call.cluster call.log ∧ call.node ∈ call.cluster.nodes

theorem HeardOk.cluster {h : Heard ν} (ho : HeardOk h) {c : BusState ν}
    (hc : ReportsOk h.cluster h.log → ReportsOk c h.log) : HeardOk { h with cluster := c } :=
  ⟨hc ho.reports, ho.calls⟩

section Gossip

variable [LinearOrder ν] {P : ν → Prop} {cfg : BusConfig} {env : BusEnv ν}

variable (cfg env) in
omit [LinearOrder ν] in
theorem ReportsOk.gossipReport {c : BusState ν} {log : List Statement} (h : ReportsOk c log)
    {s n : Addr} (hs : s ∈ c.nodes) (hn : n ∈ c.nodes) (hmaster : c.nodeIsMaster s)
    (hme : n ≠ c.myself) (g : MsgGossip ν) :
    ReportsOk (gossipReport cfg env (some s) n g c)
        (⟨s, n, g.flags.node.fail || g.flags.pfail, env.mstime⟩ :: log) ∧
      ((g.flags.node.fail || g.flags.pfail) → ReportsOk (clusterNodeAddFailureReport env n s c)
        (⟨s, n, g.flags.node.fail || g.flags.pfail, env.mstime⟩ :: log)) := by
  unfold Bus.gossipReport
  dsimp only
  rw [if_pos ⟨hmaster, hme⟩]
  cases g.flags.node.fail || g.flags.pfail with
  | false =>
    rw [if_neg Bool.false_ne_true]
    exact ⟨h.delReport hs hn, fun hbad => by cases hbad⟩
  | true =>
    rw [if_pos rfl]
    have h1 := h.addReport env hs hn
    exact ⟨h1.forgets (mild_markNode cfg env n _).keepsDict (forgets_markNode cfg env n _), fun _ => h1⟩

theorem ReportsOk.afterReport (henv : FreshEnv P env) {c : BusState ν} {log : List Statement}
    (h : ReportsOk c log) (n : Addr) (g : MsgGossip ν) :
    ReportsOk (if (c.nodeFailed n || c.nodeTimedOut n) &&
        ((c.info n).ip.toLower != g.ip.toLower || (c.info n).port != g.port) then
      (clusterStartHandshake env g.ip g.port c).1 else c) log := by
  split
  · exact h.changes (e := .cron) (changes_startHandshake henv g.ip g.port c)
  · exact h

theorem heardOk_gossip (henv : FreshEnv P env) {sender : Option Addr} {h : Heard ν}
    (ho : HeardOk h) (hs : ∀ s, sender = some s → s ∈ h.cluster.nodes) (g : MsgGossip ν) :
    HeardOk (hearGossip cfg env sender h g) := by
  unfold hearGossip processGossip statement
  cases hlook : clusterLookupNode h.cluster g.nodename with
  | none =>
    refine ho.cluster fun hr => ?_
    have hclean : ReportsOk (clusterBlacklistCleanup env h.cluster) h.log :=
      hr.changes (e := .cron) (P := P) (soft_blacklistCleanup env h.cluster).calm.changes
    dsimp only
    split
    · split
      · exact hclean
      · exact hclean.changes (e := .cron) (changes_startHandshake henv g.ip g.port _)
    · exact hr
  | some n =>
    have hn := (lookup_some hlook).1
    cases sender with
    | none => exact ho.cluster fun hr => hr.afterReport henv n g
    | some s =>
      dsimp only
      by_cases htaken : h.cluster.nodeIsMaster s ∧ n ≠ h.cluster.myself
      · obtain ⟨h1, h2⟩ := ho.reports.gossipReport cfg env (hs s rfl) hn htaken.1
          htaken.2 g
        rw [if_pos htaken]
        refine ⟨h1.afterReport henv n g, fun call hcall => ?_⟩
        dsimp only at hcall
        split at hcall
        case isTrue hbad =>
          rcases List.mem_cons.mp hcall with rfl | hcall
          · exact ⟨h2 hbad, (mild_addReport env n s _).nodes ▸ hn⟩
          · exact ho.calls call hcall
        case isFalse => exact ho.calls call hcall
      · rw [if_neg htaken]
        refine ho.cluster fun hr => ?_
        have hsame : gossipReport cfg env (some s) n g h.cluster = h.cluster := by
          unfold gossipReport
          exact if_neg htaken
        rw [hsame]
        exact hr.afterReport henv n g

omit [LinearOrder ν] in
theorem hearGossip_cluster [LinearOrder ν] (sender : Option Addr) (h : Heard ν) (g : MsgGossip ν) :
    (hearGossip cfg env sender h g).cluster = processGossip cfg env sender h.cluster g := by
  unfold hearGossip
  dsimp only
  split <;> rfl

theorem foldl_hearGossip_cluster (sender : Option Addr) (gossip : List (MsgGossip ν)) (h : Heard ν) :
    (gossip.foldl (hearGossip cfg env sender) h).cluster =
      gossip.foldl (processGossip cfg env sender) h.cluster := by
  induction gossip generalizing h with
  | nil => rfl
  | cons g gossip ih =>
    rw [List.foldl_cons, List.foldl_cons, ih, hearGossip_cluster]

theorem hearGossipSection_cluster (via : Option Addr) (hdr : BusMsg ν) (gossip : List (MsgGossip ν))
    (h : Heard ν) : (hearGossipSection cfg env via hdr gossip h).cluster =
      clusterProcessGossipSection cfg env via hdr gossip h.cluster :=
  foldl_hearGossip_cluster _ gossip h

theorem heardOk_gossips (henv : FreshEnv P env) {sender : Option Addr}
    (gossip : List (MsgGossip ν)) {h : Heard ν} (ho : HeardOk h)
    (hs : ∀ s, sender = some s → s ∈ h.cluster.nodes) :
    HeardOk (gossip.foldl (hearGossip cfg env sender) h) := by
  induction gossip generalizing h with
  | nil => exact ho
  | cons g gossip ih =>
    rw [List.foldl_cons]
    have hgrow : Grows P h.cluster (hearGossip cfg env sender h g).cluster :=
      (hearGossip_cluster sender h g) ▸
        grows_processGossip henv cfg sender h.cluster g
    exact ih (heardOk_gossip henv ho hs g) fun s hsender => (hgrow.node s (hs s hsender)).1

theorem heardOk_gossipSection (henv : FreshEnv P env) {via : Option Addr} {hdr : BusMsg ν}
    (gossip : List (MsgGossip ν)) {h : Heard ν} (ho : HeardOk h)
    (hvia : ∀ n, via = some n → n ∈ h.cluster.nodes) :
    HeardOk (hearGossipSection cfg env via hdr gossip h) := by
  refine heardOk_gossips henv gossip ho fun s hs => ?_
  cases via with
  | some n => exact hvia s hs
  | none => exact (lookup_some hs).1

theorem noReport_gossipSection (henv : FreshEnv P env) {n : Addr} {hdr : BusMsg ν}
    (gossip : List (MsgGossip ν)) {c : BusState ν} (hn : n ∈ c.nodes)
    (hmaster : c.nodeIsMaster n = false) (hno : NoReportBy c n) :
    NoReportBy (clusterProcessGossipSection cfg env (some n) hdr gossip c) n := by
  unfold clusterProcessGossipSection
  dsimp only
  induction gossip generalizing c with
  | nil => exact hno
  | cons g gossip ih =>
    rw [List.foldl_cons]
    obtain ⟨h1, h2⟩ := (grows_processGossip henv cfg (some n) c g).node n hn
    refine ih h1 ((congrArg NodeView.master h2).trans hmaster) ?_
    have hstart : ∀ d : BusState ν, NoReportBy d n →
        NoReportBy (clusterStartHandshake env g.ip g.port d).1 n := by
      intro d hd
      rcases startHandshake_cases henv g.ip g.port d with he | he
      · rw [he]
        exact hd
      · exact hd.create he
    have hreport : ∀ m, gossipReport cfg env (some n) m g c = c := by
      intro m
      unfold gossipReport
      exact if_neg fun hm => by simp [hmaster] at hm
    unfold processGossip
    split
    · rw [hreport]
      dsimp only
      split
      · exact hstart c hno
      · exact hno
    · split
      · have hclean := hno.calm (soft_blacklistCleanup env c).calm
        dsimp only
        split
        · exact hclean
        · exact hstart _ hclean
      · exact hno

/-! ## Heartbeats -/

theorem keepsDict_processSlots (s : Addr) (epoch : Nat) (hdr : BusMsg ν) (c : BusState ν) :
    KeepsDict c (processSlots cfg env s epoch hdr c) := by
  unfold processSlots
  dsimp only
  have h1 := calm_adoptSlots env s epoch hdr c
  generalize adoptSlots env s epoch hdr c = d at h1 ⊢
  have h2 : Calm c (if dirtySlots s hdr c then sendStaleUpdate cfg env s epoch hdr d else d) :=
    Calm.ite (fun _ => h1.trans (soft_sendStaleUpdate cfg env s epoch hdr d).calm) fun _ => h1
  refine h2.toKeepsDict.trans (KeepsRoles.toKeepsDict ?_)
  exact KeepsRoles.ite (fun _ => keepsRoles_collision s _) fun _ => KeepsRoles.refl _

theorem heartbeatBody_nodes {c : BusState ν} (h : DictOk c) {via sender : Option Addr}
    {type : PingType} {epoch : Nat} {hdr : BusMsg ν} (hvia : ∀ n, via = some n → n ∈ c.nodes)
    (hnew : ∀ n, via = some n → c.nodeInHandshake n → clusterLookupNode c hdr.sender = none)
    {m : Addr} (hm : m ∈ c.nodes) :
    m ∈ (heartbeatBody cfg env via sender type epoch hdr c).nodes := by
  have h1 : m ∈ (heartbeatHandshake via hdr c).nodes := by
    unfold heartbeatHandshake
    split
    case h_1 n =>
      split
      case isTrue hhs =>
        have hn := hvia n rfl
        have hunknown : ∀ k ∈ c.nodes, k ≠ n → (c.info k).name ≠ hdr.sender :=
          fun k hk _ => lookup_eq_none.mp (hnew n rfl hhs) k hk
        unfold completeHandshake clusterRenameNode
        rw [dictDelete_of_mem h hn, readd_spec h hunknown]
        exact (mem_cons_erase h hn m).mpr hm
      case isFalse => exact hm
    case h_2 => exact hm
  unfold heartbeatBody heartbeatSender
  dsimp only
  have h2 := ((soft_heartbeatAddress env via sender type hdr (heartbeatHandshake via hdr c)).trans
    (soft_heartbeatPong cfg env via type _)).keepsDict
  cases sender with
  | none =>
    rw [h2.nodes]
    exact h1
  | some s =>
    dsimp only
    rw [((h2.trans (calm_processRole s hdr _).toKeepsDict).trans
      (keepsDict_processSlots s epoch hdr _)).nodes]
    exact h1

theorem hearAnswerPing_cluster (via sender : Option Addr) (type : PingType) (hdr : BusMsg ν)
    (gossip : List (MsgGossip ν)) (h : Heard ν) :
    (hearAnswerPing cfg env via sender type hdr gossip h).cluster =
      answerPing cfg env via sender type hdr gossip h.cluster := by
  unfold hearAnswerPing answerPing
  split
  · rfl
  · dsimp only
    rw [hearGossipSection_cluster]

theorem hearPing_cluster (via sender : Option Addr) (type : PingType) (epoch : Nat) (hdr : BusMsg ν)
    (gossip : List (MsgGossip ν)) (h : Heard ν) :
    (hearPing cfg env via sender type epoch hdr gossip h).cluster =
      processPing cfg env via sender type epoch hdr gossip h.cluster := by
  unfold hearPing processPing
  dsimp only
  rw [← hearAnswerPing_cluster]
  split
  · split <;> rfl
  · rw [hearGossipSection_cluster]

theorem heardOk_answerPing (henv : FreshEnv P env) {via sender : Option Addr} {type : PingType}
    {hdr : BusMsg ν} {gossip : List (MsgGossip ν)} {h : Heard ν} (ho : HeardOk h)
    (hvia : ∀ n, via = some n → n ∈ h.cluster.nodes) :
    HeardOk (hearAnswerPing cfg env via sender type hdr gossip h) := by
  unfold hearAnswerPing
  split
  · exact ho
  · have h1 : HeardOk { h with cluster := pingBody env sender type hdr h.cluster } :=
      ho.cluster fun hr => hr.changes (e := .cron) (changes_pingBody henv sender type hdr _)
    have hgrow := grows_pingBody henv sender type hdr h.cluster
    have h2 : HeardOk (hearGossipSection cfg env via hdr gossip
        { h with cluster := pingBody env sender type hdr h.cluster }) :=
      heardOk_gossipSection henv gossip h1 fun n hn => (hgrow.node n (hvia n hn)).1
    exact h2.cluster fun hr =>
      hr.changes (e := .cron) (P := P) (soft_sendPing cfg env via .pong _).calm.changes

theorem noReport_answerPing (henv : FreshEnv P env) {n s : Addr} {type : PingType}
    {hdr : BusMsg ν} {gossip : List (MsgGossip ν)} {c : BusState ν} (hn : n ∈ c.nodes)
    (hmaster : c.nodeIsMaster n = false) (hno : NoReportBy c n) :
    NoReportBy (answerPing cfg env (some n) (some s) type hdr gossip c) n := by
  unfold answerPing
  split
  · exact hno
  · exact (noReport_gossipSection henv gossip hn hmaster hno).calm
      (soft_sendPing cfg env (some n) .pong _).calm

theorem heardOk_ping {hdr : BusMsg ν} (henv : FreshEnv (fun name => name ≠ hdr.sender) env)
    {via : Option Addr} {type : PingType} {epoch : Nat} {gossip : List (MsgGossip ν)} {h : Heard ν}
    (ho : HeardOk h) (hvia : ∀ n, via = some n → n ∈ h.cluster.nodes)
    (hhs : HandshakesReportNothing h.cluster) :
    HeardOk (hearPing cfg env via (clusterLookupNode h.cluster hdr.sender) type epoch hdr gossip h) := by
  unfold hearPing
  have h1 : HeardOk (hearAnswerPing cfg env via (clusterLookupNode h.cluster hdr.sender) type hdr
    gossip h) := heardOk_answerPing henv ho hvia
  have hcluster : (hearAnswerPing cfg env via (clusterLookupNode h.cluster hdr.sender) type hdr
      gossip h).cluster = answerPing cfg env via (clusterLookupNode h.cluster hdr.sender) type hdr
      gossip h.cluster := hearAnswerPing_cluster via _ type hdr gossip h
  have hgrow := grows_answerPing henv cfg via (clusterLookupNode h.cluster hdr.sender) type hdr gossip
    h.cluster
  rw [← hcluster] at hgrow
  generalize hd : hearAnswerPing cfg env via (clusterLookupNode h.cluster hdr.sender) type hdr gossip h
    = d at h1 hcluster hgrow ⊢
  have hmem : ∀ n, via = some n → n ∈ d.cluster.nodes := fun n hn => (hgrow.node n (hvia n hn)).1
  dsimp only
  split
  case isTrue hdrop =>
    cases via with
    | none => exact h1
    | some n =>
      refine h1.cluster fun hr => hr.changes (P := fun _ => True) (e := .cron) ?_
      refine changes_dropPacket hr.toDictOk (hmem n rfl) (fun _ _ hc hno => hno.calm hc)
        fun s hs hshake => ?_
      have hview := (hgrow.node n (hvia n rfl)).2
      have hshake0 : h.cluster.nodeInHandshake n = true :=
        (congrArg NodeView.handshake hview).symm.trans hshake
      obtain ⟨hmaster, hno⟩ := hhs n (hvia n rfl) hshake0
      rw [hcluster, hs]
      exact noReport_answerPing henv (hvia n rfl) hmaster hno
  case isFalse hdrop =>
    have hnew : ∀ n, via = some n → d.cluster.nodeInHandshake n →
        clusterLookupNode d.cluster hdr.sender = none := by
      intro n hn hshake
      exact hgrow.lookup (fun hne => hne rfl) (sender_of_not_drops hdrop hn hshake)
    have h2 : HeardOk { d with
        cluster := heartbeatBody cfg env via (clusterLookupNode h.cluster hdr.sender) type epoch hdr
          d.cluster } := h1.cluster fun hr => hr.changes (P := fun _ => True)
        (changes_heartbeatBody hr.toDictOk rfl hmem hnew)
    exact heardOk_gossipSection henv gossip h2 fun n hn =>
      heartbeatBody_nodes h1.reports.toDictOk hmem hnew (hmem n hn)

/-! ## Packets -/

variable (env) in
omit [LinearOrder ν] in
theorem senderHeader_reports [DecidableEq ν] (sender : Option Addr) (hdr : BusMsg ν)
    (c : BusState ν) (n : Addr) :
    ((senderHeader env sender hdr c).info n).fail_reports = (c.info n).fail_reports := by
  unfold senderHeader
  cases sender with
  | none => rfl
  | some s =>
    have hinfo : ∀ d : BusState ν, ((d.modInfo s fun x => { x with
        repl_offset := hdr.offset, repl_offset_time := env.mstime }).info n).fail_reports =
        (d.info n).fail_reports :=
      fun d => modInfo_proj (fun x => x.fail_reports) d s (fun x => { x with
        repl_offset := hdr.offset, repl_offset_time := env.mstime }) (fun _ => rfl) n
    dsimp only
    unfold processHeader
    split
    · rfl
    · dsimp only
      split <;> exact hinfo _

variable (env) in
theorem HandshakesReportNothing.senderHeader {c : BusState ν} (h : HandshakesReportNothing c)
    (sender : Option Addr) (hdr : BusMsg ν) :
    HandshakesReportNothing (senderHeader env sender hdr c) := by
  have hk := keepsRoles_senderHeader env sender hdr c
  have hr := senderHeader_reports env sender hdr c
  generalize Bus.senderHeader env sender hdr c = d at hk hr ⊢
  intro n hn hshake
  rw [hk.nodes] at hn
  rw [hk.handshake] at hshake
  obtain ⟨h1, h2⟩ := h n hn hshake
  refine ⟨?_, h2.sublist (fun k hk' => hk.nodes ▸ hk') fun k => hr k ▸ List.Sublist.refl _⟩
  exact (congrArg Prod.fst (congrFun (congrArg RoleView.role hk.role) n)).trans h1

theorem hearPacket_cluster (via : Option Addr) (hdr : BusMsg ν) (h : Heard ν) :
    (hearPacket cfg env via hdr h).cluster = clusterProcessPacket cfg env via hdr h.cluster := by
  unfold hearPacket
  dsimp only
  split
  case h_1 gossip hdata =>
    rw [hearPing_cluster]
    simp only [clusterProcessPacket, processData, hdata]
  case h_2 gossip hdata =>
    rw [hearPing_cluster]
    simp only [clusterProcessPacket, processData, hdata]
  case h_3 gossip hdata =>
    rw [hearPing_cluster]
    simp only [clusterProcessPacket, processData, hdata]
  case h_4 => rfl

theorem heardOk_packet {hdr : BusMsg ν} (henv : FreshEnv (fun name => name ≠ hdr.sender) env)
    {via : Option Addr} {h : Heard ν} (ho : HeardOk h) (hvia : ∀ n, via = some n → n ∈ h.cluster.nodes)
    (hhs : HandshakesReportNothing h.cluster) : HeardOk (hearPacket cfg env via hdr h) := by
  have hd : HeardOk { h with
      cluster := senderHeader env (clusterLookupNode h.cluster hdr.sender) hdr h.cluster } :=
    ho.cluster fun hr => hr.changes (P := fun _ => True) (e := .packet via hdr)
      (changes_senderHeader rfl h.cluster)
  have hk := keepsRoles_senderHeader env (clusterLookupNode h.cluster hdr.sender) hdr h.cluster
  have hhs := hhs.senderHeader env (clusterLookupNode h.cluster hdr.sender) hdr
  unfold hearPacket
  dsimp only
  generalize (if knownSender (clusterLookupNode h.cluster hdr.sender) h.cluster then hdr.configEpoch
    else 0) = epoch
  have hlook := hk.lookup hdr.sender
  generalize hd' : senderHeader env (clusterLookupNode h.cluster hdr.sender) hdr h.cluster = d
    at hd hk hhs hlook ⊢
  have hping : ∀ type gossip, HeardOk (hearPing cfg env via (clusterLookupNode h.cluster hdr.sender)
      type epoch hdr gossip { h with cluster := d }) := by
    intro type gossip
    rw [← hlook]
    exact heardOk_ping (h := { h with cluster := d }) henv hd
      (fun n hn => hk.nodes ▸ hvia n hn) hhs
  split
  · exact hping _ _
  · exact hping _ _
  · exact hping _ _
  · rename_i h1 h2 h3
    exact ho.cluster fun hr => hr.changes (P := fun _ => True) (changes_plainPacket rfl h1 h2 h3)

/-! ## Runs -/

theorem hearEvent_cluster (event : BusEvent ν) (h : Heard ν) :
    (hearEvent cfg env event h).cluster = busEvent cfg env event h.cluster := by
  cases event with
  | packet via hdr =>
    unfold hearEvent busEvent
    dsimp only
    split
    · exact hearPacket_cluster via hdr h
    · rfl
  | linkError n => rfl
  | command cmd => rfl
  | cron => rfl
  | beforeSleep => rfl
  | verifyData => rfl
  | rehash order => rfl

theorem hearStep_cluster (h : Heard ν) (a : BusAct ν) :
    (hearStep cfg h a).cluster = busStep cfg h.cluster a := by
  unfold hearStep busStep
  split
  · rfl
  · exact hearEvent_cluster a.event _

theorem noReport_cronConnect {hs : List Addr} (ns : List Addr) {c : BusState ν} (h : DictOk c)
    (hnd : ns.Nodup) (hmem : ∀ n ∈ ns, n ∈ c.nodes) (hsub : ∀ n ∈ ns, n ∈ hs)
    (hno : ∀ n ∈ hs, c.nodeInHandshake n → NoReportBy c n) :
    RunMeets (cronConnect cfg env) (fun c n => handshakeExpired cfg env c n → NoReportBy c n) c ns := by
  induction ns generalizing c with
  | nil => trivial
  | cons n ns ih =>
    obtain ⟨hnot, hnd⟩ := List.nodup_cons.mp hnd
    have hn := hmem n List.mem_cons_self
    have hexp : handshakeExpired cfg env c n → c.nodeInHandshake n = true := by
      intro hexp
      simp only [handshakeExpired, Bool.and_eq_true] at hexp
      exact hexp.1.2
    have hkeep := cronConnect_nodes cfg env h hn
    refine ⟨fun he => hno n (hsub n List.mem_cons_self) (hexp he), ?_⟩
    have hstep : DictOk (cronConnect cfg env c n) ∧
        ∀ m ∈ hs, (cronConnect cfg env c n).nodeInHandshake m → NoReportBy (cronConnect cfg env c n) m := by
      unfold cronConnect
      split
      case isTrue => exact ⟨h, hno⟩
      case isFalse =>
        split
        case isTrue he =>
          have hr := removes_freeNode h hn
          refine ⟨hr.dictOk h (h.ne_myself (hexp he)), fun m hm hshake => ?_⟩
          rw [hr.handshake] at hshake
          exact (hno m hm hshake).sublist (fun k hk => List.mem_of_mem_erase (hr.nodes ▸ hk)) hr.reports
        case isFalse =>
          split
          case isTrue =>
            have hc := (soft_connectNode cfg env n c).calm
            refine ⟨hc.dictOk h, fun m hm hshake => (hno m hm ?_).calm hc⟩
            rw [← hc.handshake]
            exact hshake
          case isFalse => exact ⟨h, hno⟩
    exact ih hstep.1 hnd
      (fun m hm => hkeep m (hmem m (List.mem_cons_of_mem _ hm)) fun he => hnot (he ▸ hm))
      (fun m hm => hsub m (List.mem_cons_of_mem _ hm)) hstep.2

theorem heardOk_other {event : BusEvent ν} (henv : FreshEnv P env) {h : Heard ν}
    (ho : HeardOk h) (hhs : HandshakesReportNothing h.cluster)
    (hpacket : ∀ via hdr, event ≠ .packet via hdr) : HeardOk (hearEvent cfg env event h) := by
  have hsame : hearEvent cfg env event h = { h with cluster := busEvent cfg env event h.cluster } := by
    unfold hearEvent
    split
    · exact absurd rfl (hpacket _ _)
    · rfl
  rw [hsame]
  refine ho.cluster fun hr => hr.changes (changes_event henv hr.toDictOk hpacket fun _ => ?_)
  exact noReport_cronConnect h.cluster.nodes hr.toDictOk hr.nodup (fun _ hn => hn)
    (fun _ hn => hn) fun n hn hshake => (hhs n hn hshake).2

theorem heardOk_event {event : BusEvent ν} (henv : FreshEnv (notSender event) env) {h : Heard ν}
    (ho : HeardOk h) (hhs : HandshakesReportNothing h.cluster) :
    HeardOk (hearEvent cfg env event h) := by
  cases event with
  | packet via hdr =>
    unfold hearEvent
    dsimp only
    split
    case isTrue hlink =>
      refine heardOk_packet henv ho (fun n hn => ?_) hhs
      rw [hn] at hlink
      simp only [linkExists, Bool.and_eq_true, decide_eq_true_eq] at hlink
      exact hlink.1
    case isFalse => exact ho
  | linkError n => exact heardOk_other henv ho hhs (by rintro _ _ ⟨⟩)
  | command cmd => exact heardOk_other henv ho hhs (by rintro _ _ ⟨⟩)
  | cron => exact heardOk_other henv ho hhs (by rintro _ _ ⟨⟩)
  | beforeSleep => exact heardOk_other henv ho hhs (by rintro _ _ ⟨⟩)
  | verifyData => exact heardOk_other henv ho hhs (by rintro _ _ ⟨⟩)
  | rehash order => exact heardOk_other henv ho hhs (by rintro _ _ ⟨⟩)

theorem heardOk_step {h : Heard ν} {a : BusAct ν} (ho : HeardOk h) (hfresh : FreshNodes a)
    (hhs : HandshakesReportNothing h.cluster) : HeardOk (hearStep cfg h a) := by
  unfold hearStep
  split
  case isTrue => exact ⟨ho.reports, fun call hcall => by cases hcall⟩
  case isFalse =>
    have hs : Soft h.cluster { h.cluster with sent := [], deletedSlots := [] } :=
      ⟨⟨rfl, rfl, rfl, id, fun _ hm => by cases hm⟩, fun _ => rfl⟩
    have hstart : HeardOk ⟨{ h.cluster with sent := [], deletedSlots := [] }, h.log, []⟩ :=
      ⟨ho.reports.changes (P := fun _ => True) (e := .cron) hs.calm.changes,
        fun call hcall => by cases hcall⟩
    have hevent : HeardOk (hearEvent cfg a.env a.event
        ⟨{ h.cluster with sent := [], deletedSlots := [] }, h.log, []⟩) :=
      heardOk_event hfresh hstart hhs
    obtain ⟨h1, h2⟩ := hevent
    generalize hearEvent cfg a.env a.event
      ⟨{ h.cluster with sent := [], deletedSlots := [] }, h.log, []⟩ = d at h1 h2 ⊢
    refine ⟨⟨h1.toDictOk, h1.distinct, fun n hn r hr => ?_⟩, h2⟩
    obtain ⟨h3, h4⟩ := h1.known n hn r hr
    exact ⟨h3, (lastWord_filter h3 hn d.log).trans h4⟩

/-! ## The quorum -/

omit [LinearOrder ν] in
theorem majority_of_counts {call : MarkCall ν} (h : ReportsOk call.cluster call.log)
    (hn : call.node ∈ call.cluster.nodes) (hcount : CountsMasters cfg call)
    (hmarks : marksAsFailing cfg call.env call.node call.cluster) : Majority cfg call := by
  simp only [marksAsFailing, Bool.and_eq_true, Bool.not_eq_true', decide_eq_true_eq] at hmarks
  obtain ⟨⟨htimedout, hfailed⟩, hvotes⟩ := hmarks
  obtain ⟨hsize, hme, hothers⟩ := hcount htimedout hfailed
  let fresh := (call.cluster.info call.node).fail_reports.filter fun r =>
    !decide (call.env.mstime - r.time > reportMaxTime cfg)
  have hfresh : ∀ r ∈ fresh, r ∈ (call.cluster.info call.node).fail_reports ∧
      call.env.mstime - r.time ≤ reportMaxTime cfg := by
    intro r hr
    obtain ⟨h1, h2⟩ := List.mem_filter.mp hr
    exact ⟨h1, by simpa using h2⟩
  have hnodup : (fresh.map FailReport.node).Nodup :=
    (List.filter_sublist.map FailReport.node).nodup (h.distinct call.node hn)
  have hmyself : call.cluster.myself ∉ (fresh.map FailReport.node).toFinset := by
    intro hmem
    obtain ⟨r, hr, he⟩ := List.mem_map.mp (List.mem_toFinset.mp hmem)
    exact (hothers r (hfresh r hr).1 (hfresh r hr).2).1 he
  have hreporters : ∀ s ∈ (fresh.map FailReport.node).toFinset, s ∈ call.cluster.nodes ∧
      servesSlots call.cluster s ∧ Considers cfg call s := by
    intro s hs
    obtain ⟨r, hr, rfl⟩ := List.mem_map.mp (List.mem_toFinset.mp hs)
    obtain ⟨h1, h2⟩ := hfresh r hr
    obtain ⟨h3, h4⟩ := h.known call.node hn r h1
    exact ⟨h3, (hothers r h1 h2).2, Or.inr ⟨_, h4, rfl, h2⟩⟩
  have hlength : failureVotes (clusterNodeCleanupFailureReports cfg call.env call.node call.cluster)
      call.node = fresh.length + if call.cluster.nodeIsMaster call.cluster.myself then 1 else 0 := by
    simp only [failureVotes, clusterNodeCleanupFailureReports, BusState.modInfo, BusState.setInfo,
      Function.update_self]
    rfl
  rw [hlength, hsize] at hvotes
  by_cases hmaster : call.cluster.nodeIsMaster call.cluster.myself
  · rw [if_pos hmaster] at hvotes
    refine ⟨insert call.cluster.myself (fresh.map FailReport.node).toFinset, ?_, fun s hs => ?_⟩
    · rw [Finset.card_insert_of_notMem hmyself, List.toFinset_card_of_nodup hnodup, List.length_map]
      exact hvotes
    · rcases Finset.mem_insert.mp hs with rfl | hs
      · exact ⟨h.me, hme hmaster, Or.inl ⟨rfl, htimedout⟩⟩
      · exact hreporters s hs
  · rw [if_neg hmaster] at hvotes
    refine ⟨(fresh.map FailReport.node).toFinset, ?_, hreporters⟩
    rw [List.toFinset_card_of_nodup hnodup, List.length_map]
    exact hvotes

omit [LinearOrder ν] in
theorem heardOk_init (a : Addr) (name : ν) (now : Int) (sent : Bool) :
    HeardOk (hearInit a name now sent) := by
  refine ⟨⟨dictOk_init a name now sent, fun n _ => List.nodup_nil, fun n _ r hr => ?_⟩,
    fun call hcall => by cases hcall⟩
  cases hr

theorem run_hearStep_cluster (acts : List (BusAct ν)) (h : Heard ν) :
    (run (hearStep cfg) h acts).cluster = run (busStep cfg) h.cluster acts := by
  induction acts generalizing h with
  | nil => rfl
  | cons a acts ih =>
    rw [run_cons, run_cons, ih, hearStep_cluster]

end Gossip

def shortTimeout : BusConfig := { busConfig with cluster_node_timeout := 1000 }

def pfailGossip (mstime : Int) : BusAct Nat :=
  ⟨idleEnv 20 mstime, .packet none { plainPong 11 none with
    data := .ping [⟨10, "10.0.0.2", 7000, ⟨⟨true, false, false, false, false⟩, true, false, false⟩⟩] }⟩

def twoMasters : List (BusAct Nat) :=
  [meetNode "10.0.0.2", meetNode "10.0.0.3", ⟨idleEnv 20 1000, .cron⟩, pongFrom 1 10 none,
    pongFrom 2 11 none]

/-- In every run the reports of a node are from different nodes of the table, each the last that its
reporter has said of the node. -/
theorem failReports_run [LinearOrder ν] (cfg : BusConfig) (a : Addr) (name : ν) (now : Int)
    (sent : Bool) (acts : List (BusAct ν))
    (hok : RunMeets (hearStep cfg) (fun h act => FreshNodes act ∧ HandshakesReportNothing h.cluster)
      (hearInit a name now sent) acts) :
    ReportsOk (run (busStep cfg) (busInit a name now sent) acts)
      (run (hearStep cfg) (hearInit a name now sent) acts).log := by
  have hrun : HeardOk (run (hearStep cfg) (hearInit a name now sent) acts) :=
    run_inv (fun _ _ h hact => heardOk_step h hact.1 hact.2) (heardOk_init a name now sent) hok
  have hcluster : (run (hearStep cfg) (hearInit a name now sent) acts).cluster =
      run (busStep cfg) (busInit a name now sent) acts := run_hearStep_cluster acts _
  exact hcluster ▸ hrun.reports

theorem failReports_run_pfail :
    ReportsOk (run (busStep shortTimeout) (busInit 0 0 0 false) (twoMasters ++ [pfailGossip 1000]))
      (run (hearStep shortTimeout) (hearInit 0 0 0 false) (twoMasters ++ [pfailGossip 1000])).log := by
  refine failReports_run shortTimeout 0 0 0 false _
    ⟨⟨freshNodes_meet _, ?_⟩, ⟨freshNodes_meet _, ?_⟩, ⟨freshNodes_idle _ fun _ _ => trivial, ?_⟩,
      ⟨freshNodes_pong (by decide), ?_⟩, ⟨freshNodes_pong (by decide), ?_⟩,
      ⟨freshNodes_idle _ fun name (hlt : 20 < name) => (by omega : name ≠ 11), ?_⟩, trivial⟩
  all_goals decide +kernel

end RedisCluster.Bus
