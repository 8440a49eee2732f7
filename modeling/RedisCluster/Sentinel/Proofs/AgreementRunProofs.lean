import RedisCluster.Sentinel.Proofs.ConfigProofs
import RedisCluster.Sentinel.Proofs.ElectionRunProofs
import RedisCluster.Lib.Newest

/-!
# Sentinels agree on the configuration

The invariant of every master is kept by every step of a run in which no Sentinel hears of an old address under
a newer epoch. What hello messages leave is the newest of the configurations that they bring.
-/

namespace RedisCluster.Sentinel

open RedisCluster.Util
open RedisCluster.Lib (newer Agree foldl_newer_congr)

/-! ## The world -/

structure ConfigInv (g : Group) (numeric : Bytes → Prop) (w : World) (leaders : List Leader)
    (configs : Set Config) : Prop where
  agree : SameAddress configs
  valid : ∀ c ∈ configs, c.addr.Valid numeric
  made : ∀ c ∈ configs, c.config_epoch = 0 ∨ ∃ u, (⟨u, c.master, c.config_epoch⟩ : Leader) ∈ leaders
  hellos : ∀ h ∈ w.hellos, h.config ∈ configs ∧ h.master_config_epoch ≤ h.current_epoch
  epochs : ∀ x ∈ leaders, x.epoch ≤ (w.sentinel x.sentinel).current_epoch
  masters : ∀ v ∈ g.members, ∀ name m, (w.sentinel v).masters name = some m →
    MasterInv numeric v name (w.sentinel v).current_epoch leaders configs m

def Onward (g : Group) (w w' : World) : Prop :=
  ∀ v ∈ g.members, ∀ name m', (w'.sentinel v).masters name = some m' →
    ∃ m, (w.sentinel v).masters name = some m ∧ m.config_epoch ≤ m'.config_epoch

theorem Onward.refl (g : Group) (w : World) : Onward g w w := fun _ _ _ m' hm' => ⟨m', hm', le_refl _⟩

theorem Onward.trans {g : Group} {w₁ w₂ w₃ : World} (h : Onward g w₁ w₂) (h' : Onward g w₂ w₃) :
    Onward g w₁ w₃ := by
  intro v hv name m₃ hm₃
  obtain ⟨m₂, hm₂, hle'⟩ := h' v hv name m₃ hm₃
  obtain ⟨m₁, hm₁, hle⟩ := h v hv name m₂ hm₂
  exact ⟨m₁, hm₁, hle.trans hle'⟩

theorem ConfigInv.update {g : Group} {numeric : Bytes → Prop} {w w' : World} {leaders leaders' : List Leader}
    {configs configs' : Set Config} (h : ConfigInv g numeric w leaders configs) {v : Addr} {name : Bytes}
    {s' : SentinelState} (hsentinel : w'.sentinel = Function.update w.sentinel v s') (hhellos : w'.hellos = w.hellos)
    (hepoch : (w.sentinel v).current_epoch ≤ s'.current_epoch)
    (hothers : ∀ other, other ≠ name → s'.masters other = (w.sentinel v).masters other)
    (hgrowth : Growth numeric v name s'.current_epoch leaders leaders' configs configs') (hone : OneLeader leaders')
    (hmaster : ∀ m', s'.masters name = some m' → ∃ m, (w.sentinel v).masters name = some m ∧
      MasterInv numeric v name s'.current_epoch leaders' configs' m' ∧ m.config_epoch ≤ m'.config_epoch) :
    ConfigInv g numeric w' leaders' configs' ∧ Onward g w w' := by
  have hself : w'.sentinel v = s' := by
    rw [hsentinel]
    exact Function.update_self ..
  have hne : ∀ u, u ≠ v → w'.sentinel u = w.sentinel u := fun u hu => by
    rw [hsentinel]
    exact Function.update_of_ne hu ..
  have hge : ∀ u, (w.sentinel u).current_epoch ≤ (w'.sentinel u).current_epoch := fun u => by
    by_cases hu : u = v
    · rw [hu, hself]
      exact hepoch
    · rw [hne u hu]
  refine ⟨⟨hgrowth.agree, fun c hc => ?_, fun c hc => ?_, fun x hx => ?_, fun x hx => ?_, fun u hu n m' hm' => ?_⟩,
    fun u hu n m' hm' => ?_⟩
  · rcases hgrowth.new_configs c hc with hold | ⟨-, -, hvalid⟩
    · exact h.valid c hold
    · exact hvalid
  · rcases hgrowth.new_configs c hc with hold | ⟨hname, hlead, -⟩
    · exact (h.made c hold).imp id fun ⟨u, hu⟩ => ⟨u, hgrowth.old_leaders _ hu⟩
    · rw [← hname] at hlead
      exact .inr ⟨v, hlead⟩
  · rw [hhellos] at hx
    exact ⟨hgrowth.old_configs _ (h.hellos x hx).1, (h.hellos x hx).2⟩
  · rcases hgrowth.new_leaders x hx with hold | ⟨hv, -, hle⟩
    · exact (h.epochs x hold).trans (hge _)
    · rw [hv, hself]
      exact hle
  · by_cases hsame : u = v ∧ n = name
    · obtain ⟨rfl, rfl⟩ := hsame
      rw [hself] at hm' ⊢
      obtain ⟨m, -, hinv, -⟩ := hmaster m' hm'
      exact hinv
    · have hm : (w.sentinel u).masters n = some m' := by
        by_cases hu' : u = v
        · rw [hu', hself, hothers n fun hn => hsame ⟨hu', hn⟩] at hm'
          rw [hu']
          exact hm'
        · rw [hne u hu'] at hm'
          exact hm'
      exact (h.masters u hu n m' hm).grow hgrowth hone hsame (hge u)
  · by_cases hsame : u = v ∧ n = name
    · obtain ⟨rfl, rfl⟩ := hsame
      rw [hself] at hm'
      obtain ⟨m, hm, -, hle⟩ := hmaster m' hm'
      exact ⟨m, hm, hle⟩
    · by_cases hu' : u = v
      · rw [hu', hself, hothers n fun hn => hsame ⟨hu', hn⟩] at hm'
        rw [hu']
        exact ⟨m', hm', le_refl _⟩
      · rw [hne u hu'] at hm'
        exact ⟨m', hm', le_refl _⟩

theorem ConfigInv.goesAt {g : Group} {numeric : Bytes → Prop} {w w' : World} {leaders : List Leader}
    {configs : Set Config} (h : ConfigInv g numeric w leaders configs) {v : Addr} (hv : v ∈ g.members) {name : Bytes}
    {s' : SentinelState} (hsentinel : w'.sentinel = Function.update w.sentinel v s') (hhellos : w'.hellos = w.hellos)
    (hgoes : GoesAt numeric name (w.sentinel v) s') (hinv : SentinelInv s')
    (hone : OneLeader (leaders ++ leadersAt v name (w.sentinel v) s')) :
    ∃ configs', ConfigInv g numeric w' (leaders ++ leadersAt v name (w.sentinel v) s') configs' ∧
      Onward g w w' := by
  cases hm' : s'.masters name with
  | none =>
    have hnone : leadersAt v name (w.sentinel v) s' = [] := by
      unfold leadersAt
      rw [hm']
      cases (w.sentinel v).masters name with
      | none => rfl
      | some m => rfl
    rw [hnone] at hone ⊢
    refine ⟨configs, h.update hsentinel hhellos hgoes.epoch hgoes.others
      (.of_leaders h.agree fun x hx => absurd hx List.not_mem_nil) hone fun m hm => ?_⟩
    rw [hm'] at hm
    cases hm
  | some m' =>
    obtain ⟨m, hm, hstep⟩ := hgoes.master m' hm'
    have hnew : leadersAt v name (w.sentinel v) s' = newLeaders v name m m' := by
      unfold leadersAt
      rw [hm, hm']
      rfl
    rw [hnew] at hone ⊢
    obtain ⟨configs', hgrowth, hmaster, hle⟩ := (h.masters v hv name m hm).goes hstep (hinv name m' hm') h.agree hone
      (fun x hx hxv => by rw [← hxv]; exact h.epochs x hx) h.made
    refine ⟨configs', h.update hsentinel hhellos hgoes.epoch hgoes.others hgrowth hone fun m'' hm'' => ?_⟩
    rw [hm', Option.some.injEq] at hm''
    subst hm''
    exact ⟨m, hm, hmaster, hle⟩

/-! ## One step of the world -/

/-- The messages for votes are between the Sentinels of the group. -/
structure InGroup (g : Group) (w : World) : Prop where
  requests : ∀ r ∈ w.requests, r.sender ∈ g.members ∧ r.receiver ∈ g.members
  replies : ∀ r ∈ w.replies, r.receiver ∈ g.members

theorem InGroup.of_eq {g : Group} {w w' : World} (h : InGroup g w) (hrequests : w'.requests = w.requests)
    (hreplies : w'.replies = w.replies) : InGroup g w' :=
  ⟨by rw [hrequests]; exact h.requests, by rw [hreplies]; exact h.replies⟩

theorem answer_inGroup {g : Group} {w w' : World} {o : Outside} {r : Request} {found : Option Bytes}
    (h : InGroup g w) (hr : r ∈ w.requests) (hact : answer w o r found = .ok w') : InGroup g w' := by
  have hreply : ∀ x : Reply, x.receiver = r.sender → ∀ y ∈ w.replies ++ [x], y.receiver ∈ g.members := by
    intro x hx y hy
    rcases List.mem_append.mp hy with hy | hy
    · exact h.replies y hy
    · rw [List.mem_singleton.mp hy, hx]
      exact (h.requests r hr).1
  have herase : ∀ x ∈ w.requests.erase r, x.sender ∈ g.members ∧ x.receiver ∈ g.members := fun x hx =>
    h.requests x (List.mem_of_mem_erase hx)
  unfold answer at hact
  dsimp only at hact
  split at hact
  · rw [← Except.ok.inj hact]
    exact ⟨herase, h.replies⟩
  · split at hact
    · obtain ⟨w₁, hat, hact⟩ := bind_ok hact
      obtain ⟨s', -, rfl⟩ := at_ok hat
      rw [← Except.ok.inj hact]
      exact ⟨herase, hreply _ rfl⟩
    · rw [← Except.ok.inj hact]
      exact ⟨herase, hreply _ rfl⟩

theorem act_inGroup {g : Group} {w w' : World} {o : Outside} {a : Act} (h : InGroup g w)
    (hpossible : PossibleAct g w o a) (hact : act w o a = .ok w') : InGroup g w' := by
  cases a with
  | own v e =>
    obtain ⟨w₁, hat, rfl⟩ := map_ok hact
    obtain ⟨s', -, rfl⟩ := at_ok hat
    exact h.of_eq rfl rfl
  | ask v name receiver =>
    obtain ⟨hv, hreceiver, -⟩ := hpossible
    simp only [act] at hact
    split at hact
    · rw [← Except.ok.inj hact]
      exact h
    · split at hact
      · rw [← Except.ok.inj hact]
        exact h
      · rw [← Except.ok.inj hact]
        refine ⟨fun r hr => ?_, h.replies⟩
        rcases List.mem_append.mp hr with hr | hr
        · exact h.requests r hr
        · rw [List.mem_singleton.mp hr]
          exact ⟨hv, hreceiver⟩
  | request r found => exact answer_inGroup h hpossible.1 hact
  | reply r =>
    have hless : InGroup g { w with replies := w.replies.erase r } :=
      ⟨h.requests, fun x hx => h.replies x (List.mem_of_mem_erase hx)⟩
    simp only [act, receiveReply] at hact
    split at hact
    · rw [← Except.ok.inj hact]
      exact hless
    · obtain ⟨s', -, rfl⟩ := at_ok hact
      exact hless.of_eq rfl rfl
  | forget v name sender =>
    obtain ⟨s', -, rfl⟩ := at_ok hact
    exact h.of_eq rfl rfl
  | publish v name =>
    simp only [act] at hact
    split at hact
    · rw [← Except.ok.inj hact]
      exact h
    · rw [← Except.ok.inj hact]
      exact h.of_eq rfl rfl
  | hear v hello =>
    obtain ⟨s', -, rfl⟩ := at_ok hact
    exact h.of_eq rfl rfl
  | restart v s =>
    rw [← Except.ok.inj hact]
    exact ⟨fun r hr => h.requests r (List.mem_filter.mp hr).1, fun r hr => h.replies r (List.mem_filter.mp hr).1⟩

theorem ConfigInv.still {g : Group} {numeric : Bytes → Prop} {w w' : World} {leaders : List Leader}
    {configs : Set Config} (h : ConfigInv g numeric w leaders configs) (hone : OneLeader leaders) {v : Addr}
    (hv : v ∈ g.members) {name : Bytes} {f : Master → Except Fault (Nat × Master)} {s' : SentinelState}
    (hs : onMaster (w.sentinel v) name f = .ok s')
    (hf : ∀ m r, f m = .ok r → (w.sentinel v).current_epoch ≤ r.1 ∧
      ∃ leader leader_epoch time sentinels, r.2 = { m with
        leader := leader, leader_epoch := leader_epoch, failover_start_time := time, sentinels := sentinels })
    (hsentinel : w'.sentinel = Function.update w.sentinel v s') (hhellos : w'.hellos = w.hellos) :
    ∃ configs', ConfigInv g numeric w' leaders configs' ∧ Onward g w w' := by
  have hgoes : GoesAt numeric name (w.sentinel v) s' := by
    refine onMaster_goesAt (fun m r _ hr => ?_) hs
    obtain ⟨hle, leader, leader_epoch, time, sentinels, hsame⟩ := hf m r hr
    rw [hsame]
    exact .moves (moves_of_samePlace rfl rfl rfl (.inr (.inl rfl)) (samePlace_refl _) fun _ => rfl) hle
  have hinv : SentinelInv (w.sentinel v) := fun n m hm => (h.masters v hv n m hm).inv
  have hnone : leadersAt v name (w.sentinel v) s' = [] := by
    rcases onMaster_cases hs with ⟨hm, -⟩ | ⟨m, r, hm, hr, rfl⟩
    · unfold leadersAt
      rw [hm]
    · obtain ⟨-, leader, leader_epoch, time, sentinels, hsame⟩ := hf m r hr
      unfold leadersAt
      rw [hm, setMaster_self, hsame]
      exact if_neg fun hcase => hcase.1 hcase.2
  have hinv' : SentinelInv s' := by
    rcases onMaster_cases hs with ⟨-, rfl⟩ | ⟨m, r, hm, hr, rfl⟩
    · exact hinv
    · obtain ⟨-, leader, leader_epoch, time, sentinels, hsame⟩ := hf m r hr
      refine SentinelInv.set (s := { w.sentinel v with current_epoch := r.1 }) hinv ?_
      rw [hsame]
      exact (hinv name m hm).slaves rfl rfl rfl (like_refl _ _)
  have hstep := h.goesAt hv hsentinel hhellos hgoes hinv' (by rw [hnone, List.append_nil]; exact hone)
  rw [hnone, List.append_nil] at hstep
  exact hstep

theorem ConfigInv.of_eq {g : Group} {numeric : Bytes → Prop} {w w' : World} {leaders : List Leader}
    {configs : Set Config} (h : ConfigInv g numeric w leaders configs) (hsentinel : w'.sentinel = w.sentinel)
    (hhellos : ∀ x ∈ w'.hellos, x ∈ w.hellos ∨ (x.config ∈ configs ∧ x.master_config_epoch ≤ x.current_epoch)) :
    ConfigInv g numeric w' leaders configs ∧ Onward g w w' := by
  refine ⟨⟨h.agree, h.valid, h.made, fun x hx => ?_, ?_, ?_⟩, fun v hv name m' hm' => ⟨m', ?_, le_refl _⟩⟩
  · rcases hhellos x hx with hx | hx
    · exact h.hellos x hx
    · exact hx
  · rw [hsentinel]
    exact h.epochs
  · rw [hsentinel]
    exact h.masters
  · rw [← hsentinel]
    exact hm'

theorem answer_config {g : Group} {numeric : Bytes → Prop} {w w' : World} {leaders : List Leader}
    {configs : Set Config} (h : ConfigInv g numeric w leaders configs) (hgroup : InGroup g w)
    (hone : OneLeader leaders) {o : Outside} {r : Request} {found : Option Bytes} (hr : r ∈ w.requests)
    (hact : answer w o r found = .ok w') : ∃ configs', ConfigInv g numeric w' leaders configs' ∧ Onward g w w' := by
  unfold answer at hact
  dsimp only at hact
  split at hact
  · rw [← Except.ok.inj hact]
    exact ⟨configs, h.of_eq rfl fun _ hx => .inl hx⟩
  · split at hact
    · rename_i name req_runid _
      obtain ⟨w₁, hat, hact⟩ := bind_ok hact
      obtain ⟨s', hstep, rfl⟩ := at_ok hat
      rw [← Except.ok.inj hact]
      refine h.still hone (hgroup.requests r hr).2 hstep (fun m r' hr' => ?_) rfl rfl
      rw [← Except.ok.inj hr']
      obtain ⟨leader, leader_epoch, time, hsame⟩ := vote_same o (w.sentinel r.receiver).runid
        (w.sentinel r.receiver).current_epoch m r.req_epoch req_runid
      exact ⟨vote_epoch_le o _ _ m _ _, leader, leader_epoch, time, m.sentinels, hsame⟩
    · rw [← Except.ok.inj hact]
      exact ⟨configs, h.of_eq rfl fun _ hx => .inl hx⟩

theorem hear_config {g : Group} {numeric : Bytes → Prop} {w w' : World} {leaders : List Leader}
    {configs : Set Config} (h : ConfigInv g numeric w leaders configs) (hone : OneLeader leaders) {o : Outside}
    (ho : SoundResolve numeric o) {v : Addr} (hv : v ∈ g.members) {hello : Hello} (hhello : hello ∈ w.hellos)
    (hfine : (Act.hear v hello).FineConfig w o)
    (hact : w.at v hello.master_name (step o (w.sentinel v) (.hello hello)) = .ok w') :
    ConfigInv g numeric w' leaders configs ∧ Onward g w w' := by
  obtain ⟨hconfig, hepoch⟩ := h.hellos hello hhello
  obtain ⟨s', hstep, rfl⟩ := at_ok hact
  have hinv : SentinelInv (w.sentinel v) := fun n m hm => (h.masters v hv n m hm).inv
  have hinv' : SentinelInv s' := step_inv (e := .hello hello) hinv trivial hstep
  have hgrowth : ∀ name, Growth numeric v name s'.current_epoch leaders leaders configs configs := fun name =>
    ⟨fun _ hx => hx, fun _ hx => .inl hx, fun _ hc => hc, fun _ hc => .inl hc, h.agree⟩
  have hstep' : sentinelProcessHelloMessage o hello (w.sentinel v) = .ok s' := hstep
  rw [processHello_eq] at hstep'
  rcases onMaster_cases hstep' with ⟨hnone, rfl⟩ | ⟨m, r, hm, hr, rfl⟩
  · refine h.update rfl rfl (le_refl _) (fun _ _ => rfl) (hgrowth hello.master_name) hone fun m' hm' => ?_
    rw [hnone] at hm'
    cases hm'
  · obtain ⟨m', hm', rfl⟩ := map_ok hr
    refine h.update rfl rfl (le_max_left _ _) (fun other hne => setMaster_of_ne _ hne _) (hgrowth hello.master_name)
      hone fun m'' hm'' => ⟨m, hm, ?_⟩
    rw [setMaster_self, Option.some.injEq] at hm''
    subst hm''
    obtain ⟨hmoves, hstate, hflag⟩ : Moves numeric m (helloSender o hello m).2 ∧ _ := helloSender_moves o hello m
    have hsender : Inv (helloSender o hello m).2 := (helloSender_keeps o hello (hinv _ m hm)).1
    -- the sender is entered first, and then the configuration is compared
    have hentered := (h.masters v hv _ m hm).moved hmoves hstate hsender
    have hheard := hentered.heard ho hconfig (h.valid _ hconfig) hepoch (fun hon haddr => ?_)
      (hinv' _ _ (setMaster_self _ _ _)) hm'
    · exact ⟨hheard.1, hmoves.config_epoch.ge.trans hheard.2⟩
    · rw [hflag] at hon
      rw [hmoves.addr] at haddr
      rw [hmoves.failover_epoch]
      exact hfine m hm hon haddr

theorem act_config {g : Group} {numeric : Bytes → Prop} {w w' : World} {leaders : List Leader}
    {configs : Set Config} (h : ConfigInv g numeric w leaders configs) (hgroup : InGroup g w) {o : Outside}
    (ho : SoundResolve numeric o) {a : Act} (hno : ∀ v s, a ≠ .restart v s) (hpossible : PossibleAct g w o a)
    (hfine : a.FineConfig w o) (hact : act w o a = .ok w') (hone : OneLeader (leaders ++ a.leaders w w')) :
    ∃ configs', ConfigInv g numeric w' (leaders ++ a.leaders w w') configs' ∧ Onward g w w' := by
  cases a with
  | own v e =>
    obtain ⟨hv, hown, hevent⟩ := hpossible
    obtain ⟨w₁, hat, rfl⟩ := map_ok hact
    obtain ⟨s', hstep, rfl⟩ := at_ok hat
    have hinv : SentinelInv (w.sentinel v) := fun n m hm => (h.masters v hv n m hm).inv
    have hplaces : ∀ name m, (w.sentinel v).masters name = some m → Places numeric m := fun n m hm =>
      (h.masters v hv n m hm).places
    have hself : Function.update w.sentinel v s' v = s' := Function.update_self ..
    simp only [Act.leaders, hself] at hone ⊢
    exact h.goesAt hv rfl rfl (own_goesAt ho hinv hplaces hown hevent hfine hstep) (step_inv hinv hevent hstep) hone
  | ask v name receiver =>
    rw [show Act.leaders w w' (.ask v name receiver) = [] from rfl, List.append_nil]
    simp only [act] at hact
    split at hact
    · rw [← Except.ok.inj hact]
      exact ⟨configs, h, .refl g w⟩
    · split at hact
      · rw [← Except.ok.inj hact]
        exact ⟨configs, h, .refl g w⟩
      · rw [← Except.ok.inj hact]
        exact ⟨configs, h.of_eq rfl fun _ hx => .inl hx⟩
  | request r found =>
    rw [show Act.leaders w w' (.request r found) = [] from rfl, List.append_nil] at hone ⊢
    exact answer_config h hgroup hone hpossible.1 hact
  | reply r =>
    rw [show Act.leaders w w' (.reply r) = [] from rfl, List.append_nil] at hone ⊢
    simp only [act, receiveReply] at hact
    split at hact
    · rw [← Except.ok.inj hact]
      exact ⟨configs, h.of_eq rfl fun _ hx => .inl hx⟩
    · obtain ⟨s', hstep, rfl⟩ := at_ok hact
      refine h.still hone (hgroup.replies r hpossible) hstep (fun m r' hr' => ?_) rfl rfl
      rw [← Except.ok.inj hr']
      exact ⟨le_refl _, m.leader, m.leader_epoch, m.failover_start_time, _, rfl⟩
  | forget v name sender =>
    rw [show Act.leaders w w' (.forget v name sender) = [] from rfl, List.append_nil] at hone ⊢
    obtain ⟨s', hstep, rfl⟩ := at_ok hact
    refine h.still hone hpossible hstep (fun m r' hr' => ?_) rfl rfl
    rw [← Except.ok.inj hr']
    exact ⟨le_refl _, m.leader, m.leader_epoch, m.failover_start_time, _, rfl⟩
  | publish v name =>
    rw [show Act.leaders w w' (.publish v name) = [] from rfl, List.append_nil]
    simp only [act] at hact
    split at hact
    · rw [← Except.ok.inj hact]
      exact ⟨configs, h, .refl g w⟩
    · rename_i m hm
      have hmaster := h.masters v hpossible name m hm
      rw [← Except.ok.inj hact]
      refine ⟨configs, h.of_eq rfl fun x hx => ?_⟩
      rcases List.mem_append.mp hx with hx | hx
      · exact .inl hx
      · rw [List.mem_singleton.mp hx]
        exact .inr ⟨hmaster.config, hmaster.epoch⟩
  | hear v hello =>
    rw [show Act.leaders w w' (.hear v hello) = [] from rfl, List.append_nil] at hone ⊢
    obtain ⟨hv, hhello, -⟩ := hpossible
    exact ⟨configs, hear_config h hone ho hv hhello hfine hact⟩
  | restart v s => exact absurd rfl (hno v s)

/-! ## A run -/

theorem OneLeader.left {a b : List Leader} (h : OneLeader (a ++ b)) : OneLeader a := fun x hx y hy =>
  h x (List.mem_append_left _ hx) y (List.mem_append_left _ hy)

theorem leadersOf_cons {w w' : World} {o : Outside} {a : Act} {acts : List (Outside × Act)}
    (h : act w o a = .ok w') : leadersOf w ((o, a) :: acts) = a.leaders w w' ++ leadersOf w' acts := by
  rw [leadersOf, h]

theorem actRun_config {g : Group} {numeric : Bytes → Prop} {acts : List (Outside × Act)} {w w' : World}
    {leaders : List Leader} {configs : Set Config} (h : ConfigInv g numeric w leaders configs) (hgroup : InGroup g w)
    (hpossible : PossibleConfigActs g numeric w acts) (hfine : FineConfigActs w acts)
    (hone : OneLeader (leaders ++ leadersOf w acts)) (hrun : actRun w acts = .ok w') :
    InGroup g w' ∧ ∃ configs', ConfigInv g numeric w' (leaders ++ leadersOf w acts) configs' ∧ Onward g w w' := by
  induction acts generalizing w leaders configs with
  | nil =>
    rw [← Except.ok.inj hrun]
    rw [leadersOf, List.append_nil]
    exact ⟨hgroup, configs, h, .refl g w⟩
  | cons a acts ih =>
    obtain ⟨o, a⟩ := a
    obtain ⟨w₁, hact, hrun⟩ := bind_ok hrun
    obtain ⟨ho, hno, hpossible, hpossibles⟩ := hpossible
    rw [leadersOf_cons hact, ← List.append_assoc] at hone ⊢
    obtain ⟨configs₁, h₁, honward⟩ := act_config h hgroup ho hno hpossible hfine.1 hact hone.left
    obtain ⟨hgroup', configs₂, h₂, honward'⟩ := ih h₁ (act_inGroup hgroup hpossible hact) (hpossibles w₁ hact)
      (hfine.2 w₁ hact) hone hrun
    exact ⟨hgroup', configs₂, h₂, honward.trans honward'⟩

theorem config_rest {g : Group} {numeric : Bytes → Prop} {before after : List (Outside × Act)} {w w₁ : World}
    (hpossible : PossibleConfigActs g numeric w (before ++ after)) (hfine : FineConfigActs w (before ++ after))
    (hrun : actRun w before = .ok w₁) :
    PossibleConfigActs g numeric w before ∧ FineConfigActs w before ∧ PossibleConfigActs g numeric w₁ after ∧
      FineConfigActs w₁ after ∧ leadersOf w (before ++ after) = leadersOf w before ++ leadersOf w₁ after := by
  induction before generalizing w with
  | nil =>
    rw [← Except.ok.inj hrun]
    exact ⟨trivial, trivial, hpossible, hfine, rfl⟩
  | cons a before ih =>
    obtain ⟨o, a⟩ := a
    obtain ⟨w₂, hact, hrun⟩ := bind_ok hrun
    obtain ⟨ho, hno, hpossible, hpossibles⟩ := hpossible
    obtain ⟨hbefore, hfine', hrest, hfine'', hleaders⟩ := ih (hpossibles w₂ hact) (hfine.2 w₂ hact) hrun
    have honly : ∀ w', act w o a = .ok w' → w' = w₂ := fun w' hw' => Except.ok.inj (hw'.symm.trans hact)
    refine ⟨⟨ho, hno, hpossible, fun w' hw' => ?_⟩, ⟨hfine.1, fun w' hw' => ?_⟩, hrest, hfine'', ?_⟩
    · rw [honly w' hw']
      exact hbefore
    · rw [honly w' hw']
      exact hfine'
    · rw [List.cons_append, leadersOf_cons hact, leadersOf_cons hact, hleaders, List.append_assoc]

theorem begins_config {g : Group} {numeric : Bytes → Prop} {w : World} (h : BeginsAgreed g numeric w) :
    ConfigInv g numeric w [] { c | ∃ v ∈ g.members, ∃ m, (w.sentinel v).masters c.master = some m ∧
      advertises c.master m = c } := by
  have haddress : ∀ v ∈ g.members, ∀ name m, (w.sentinel v).masters name = some m →
      advertises name m = ⟨name, 0, m.addr⟩ := fun v hv name m hm => by
    obtain ⟨hepoch, -, -, hstate, -⟩ := h.fresh v hv name m hm
    unfold advertises
    rw [hepoch, currentAddress_early (by rw [hstate]; decide)]
  refine ⟨?_, ?_, ?_, fun x hx => ?_, fun x hx => absurd hx List.not_mem_nil, fun v hv name m hm => ?_⟩
  · rintro c ⟨u, hu, m, hm, hc⟩ d ⟨v, hv, m', hm', hd⟩ hmaster -
    rw [← hc, ← hd, haddress u hu _ m hm, haddress v hv _ m' hm']
    rw [← hmaster] at hm'
    exact h.same u hu v hv _ m m' hm hm'
  · rintro c ⟨v, hv, m, hm, hc⟩
    rw [← hc, haddress v hv _ m hm]
    exact (h.fresh v hv _ m hm).2.2.2.2.2
  · rintro c ⟨v, hv, m, hm, hc⟩
    rw [← hc, haddress v hv _ m hm]
    exact .inl rfl
  · rw [h.hellos] at hx
    exact absurd hx List.not_mem_nil
  · obtain ⟨hepoch, hslaves, hflag, hstate, hprom, hvalid⟩ := h.fresh v hv name m hm
    have hzero : m.failover_state.code = 0 := code_none.mp hstate
    refine ⟨inv_idle hslaves hflag hstate hprom, ⟨hvalid, fun slave hslave => ?_⟩, ⟨v, hv, m, hm, rfl⟩, ?_,
      fun hcode => ?_, fun hcode => ?_, fun hcode _ => ?_, fun hcode => ?_⟩
    · rw [hslaves] at hslave
      exact absurd hslave List.not_mem_nil
    · rw [hepoch]
      exact Nat.zero_le _
    · omega
    · omega
    · omega
    · omega

theorem ConfigInv.advertised {g : Group} {numeric : Bytes → Prop} {w : World} {leaders : List Leader}
    {configs : Set Config} (h : ConfigInv g numeric w leaders configs) {c : Config} (hc : Advertised g w c) :
    c ∈ configs := by
  rcases hc with ⟨x, hx, rfl⟩ | ⟨v, hv, m, hm, hc⟩
  · exact (h.hellos x hx).1
  · rw [← hc]
    exact (h.masters v hv _ m hm).config

/-! ## Any order -/

def brought (name : Bytes) (hs : List Hello) : List (Nat × Addr) :=
  hs.filterMap fun h => if h.master_name = name then some (h.master_config_epoch, h.config.addr) else none

theorem hear_newer {numeric : Bytes → Prop} {o : Outside} (ho : SoundResolve numeric o) {h : Hello} {name : Bytes}
    (hvalid : h.config.addr.Valid numeric) {s s' : SentinelState} {m : Master} (hm : s.masters name = some m)
    (hidle : m.failover_in_progress = false) (hstep : step o s (.hello h) = .ok s') :
    ∃ m', s'.masters name = some m' ∧ m'.failover_in_progress = false ∧
      (m'.config_epoch, m'.addr) = (brought name [h]).foldl newer (m.config_epoch, m.addr) := by
  have hstep' : sentinelProcessHelloMessage o h s = .ok s' := hstep
  rw [processHello_eq] at hstep'
  by_cases hname : h.master_name = name
  · have hbrought : brought name [h] = [(h.master_config_epoch, h.config.addr)] := by
      unfold brought
      rw [List.filterMap_cons, if_pos hname]
      rfl
    rw [hbrought, List.foldl_cons, List.foldl_nil]
    rw [← hname] at hm
    rcases onMaster_cases hstep' with ⟨hnone, -⟩ | ⟨m₁, r, hm₁, hr, rfl⟩
    · rw [hm] at hnone
      cases hnone
    · rw [hm, Option.some.injEq] at hm₁
      subst hm₁
      obtain ⟨m', hm', rfl⟩ := map_ok hr
      obtain ⟨hmoves, -, hflag⟩ : Moves numeric m (helloSender o h m).2 ∧ _ := helloSender_moves o h m
      refine ⟨m', by rw [← hname]; exact setMaster_self _ _ _, ?_⟩
      unfold newer
      rw [← hmoves.config_epoch, ← hmoves.addr]
      rw [← hflag] at hidle
      rcases helloConfig_cases ho hvalid hm' with ⟨hold, rfl⟩ | ⟨hnewer, haddr, rfl⟩ | ⟨hnewer, hsame, haddr, -, hoff, -⟩
      · rw [if_neg (Nat.not_lt.mpr hold)]
        exact ⟨hidle, rfl⟩
      · rw [if_pos hnewer]
        exact ⟨hidle, by rw [← haddr]⟩
      · rw [if_pos hnewer, hsame, haddr]
        exact ⟨hoff, rfl⟩
  · have hbrought : brought name [h] = [] := by
      unfold brought
      rw [List.filterMap_cons, if_neg hname]
      rfl
    rw [hbrought, List.foldl_nil]
    rcases onMaster_cases hstep' with ⟨-, rfl⟩ | ⟨m₁, r, -, -, rfl⟩
    · exact ⟨m, hm, hidle, rfl⟩
    · refine ⟨m, ?_, hidle, rfl⟩
      rw [setMaster_of_ne _ fun heq => hname heq.symm]
      exact hm

theorem hearAll_newest {numeric : Bytes → Prop} {hs : List (Outside × Hello)} {name : Bytes}
    (hsound : ∀ x ∈ hs, SoundResolve numeric x.1 ∧ x.2.config.addr.Valid numeric) {s s' : SentinelState} {m : Master}
    (hm : s.masters name = some m) (hidle : m.failover_in_progress = false) (hrun : hearAll s hs = .ok s') :
    ∃ m', s'.masters name = some m' ∧ m'.failover_in_progress = false ∧
      (m'.config_epoch, m'.addr) = (brought name (hs.map Prod.snd)).foldl newer (m.config_epoch, m.addr) := by
  induction hs generalizing s m with
  | nil =>
    have heq : s = s' := Except.ok.inj hrun
    rw [← heq]
    exact ⟨m, hm, hidle, rfl⟩
  | cons x hs ih =>
    obtain ⟨o, h⟩ := x
    obtain ⟨ho, hvalid⟩ := hsound _ List.mem_cons_self
    obtain ⟨s₁, hstep, hrun⟩ := bind_ok hrun
    obtain ⟨m₁, hm₁, hidle₁, hnewer⟩ := hear_newer ho hvalid hm hidle hstep
    obtain ⟨m', hm', hidle', hnewest⟩ := ih (fun x hx => hsound x (List.mem_cons_of_mem _ hx)) hm₁ hidle₁ hrun
    refine ⟨m', hm', hidle', ?_⟩
    have hbrought : brought name (((o, h) :: hs).map Prod.snd) = brought name [h] ++ brought name (hs.map Prod.snd) := by
      unfold brought
      rw [← List.filterMap_append]
      rfl
    rw [hbrought, List.foldl_append, ← hnewer]
    exact hnewest

theorem mem_brought {name : Bytes} {hs : List Hello} {e : Nat × Addr} :
    e ∈ brought name hs ↔ ∃ h ∈ hs, h.master_name = name ∧ (h.master_config_epoch, h.config.addr) = e := by
  unfold brought
  rw [List.mem_filterMap]
  constructor
  · rintro ⟨h, hh, heq⟩
    split at heq
    · rename_i hname
      exact ⟨h, hh, hname, Option.some.inj heq⟩
    · cases heq
  · rintro ⟨h, hh, hname, rfl⟩
    exact ⟨h, hh, if_pos hname⟩

theorem any_order_of_inv {g : Group} {numeric : Bytes → Prop} {w : World} {leaders : List Leader}
    {configs : Set Config} (h : ConfigInv g numeric w leaders configs) {v : Addr} (hv : v ∈ g.members) {name : Bytes}
    {m : Master} (hm : (w.sentinel v).masters name = some m) (hidle : m.failover_in_progress = false)
    {hs hs' : List (Outside × Hello)} (hsound : ∀ x ∈ hs ++ hs', SoundResolve numeric x.1 ∧ x.2 ∈ w.hellos)
    (hsame : ∀ x, x ∈ hs.map Prod.snd ↔ x ∈ hs'.map Prod.snd) {s s' : SentinelState}
    (hrun : hearAll (w.sentinel v) hs = .ok s) (hrun' : hearAll (w.sentinel v) hs' = .ok s') :
    (s.masters name).map (advertises name) = (s'.masters name).map (advertises name) := by
  have hvalid : ∀ x ∈ hs ++ hs', SoundResolve numeric x.1 ∧ x.2.config.addr.Valid numeric := fun x hx =>
    ⟨(hsound x hx).1, h.valid _ (h.hellos _ (hsound x hx).2).1⟩
  obtain ⟨m₁, hm₁, hidle₁, hnewest₁⟩ := hearAll_newest (fun x hx => hvalid x (List.mem_append_left _ hx)) hm hidle hrun
  obtain ⟨m₂, hm₂, hidle₂, hnewest₂⟩ :=
    hearAll_newest (fun x hx => hvalid x (List.mem_append_right _ hx)) hm hidle hrun'
  have hoff : ∀ m : Master, m.failover_in_progress = false → sentinelGetCurrentMasterAddress m = m.addr :=
    fun m hm => by
      unfold sentinelGetCurrentMasterAddress
      split
      · exact if_neg fun hon => by rw [hm] at hon; cases hon.1
      · rfl
  -- what is known and what the messages bring are configurations that agree
  have hmade : ∀ e ∈ (m.config_epoch, m.addr) :: brought name (hs.map Prod.snd),
      (⟨name, e.1, e.2⟩ : Config) ∈ configs := by
    intro e he
    rcases List.mem_cons.mp he with rfl | he
    · have hconfig := (h.masters v hv name m hm).config
      unfold advertises at hconfig
      rw [hoff m hidle] at hconfig
      exact hconfig
    · obtain ⟨x, hx, rfl, rfl⟩ := mem_brought.mp he
      obtain ⟨y, hy, rfl⟩ := List.mem_map.mp hx
      exact (h.hellos _ (hsound y (List.mem_append_left _ hy)).2).1
  have hagree : Agree ((m.config_epoch, m.addr) :: brought name (hs.map Prod.snd)) := fun a ha b hb heq =>
    Prod.ext heq (h.agree _ (hmade a ha) _ (hmade b hb) rfl heq)
  have hbrought : ∀ e, e ∈ brought name (hs.map Prod.snd) ↔ e ∈ brought name (hs'.map Prod.snd) := fun e => by
    rw [mem_brought, mem_brought]
    exact exists_congr fun x => and_congr_left' (hsame x)
  have hreg : (m₁.config_epoch, m₁.addr) = (m₂.config_epoch, m₂.addr) := by
    rw [hnewest₁, hnewest₂]
    exact foldl_newer_congr hagree hbrought
  rw [hm₁, hm₂]
  show some (advertises name m₁) = some (advertises name m₂)
  unfold advertises
  rw [hoff m₁ hidle₁, hoff m₂ hidle₂, (Prod.mk.inj hreg).1, (Prod.mk.inj hreg).2]

/-- With one leader for each epoch, Sentinels agree in every run in which no Sentinel hears, in a failover, of a
newer configuration with the address that its master still has. -/
theorem config_agreement {g : Group} {numeric : Bytes → Prop} {w : World} {acts : List (Outside × Act)}
    (hbegins : BeginsAgreed g numeric w) (hpossible : PossibleConfigActs g numeric w acts)
    (hone : OneLeader (leadersOf w acts)) (hfine : FineConfigActs w acts) : Agreement g numeric w acts := by
  have hgroup : InGroup g w := by
    refine ⟨fun r hr => ?_, fun r hr => ?_⟩
    · rw [hbegins.requests] at hr
      exact absurd hr List.not_mem_nil
    · rw [hbegins.replies] at hr
      exact absurd hr List.not_mem_nil
  have hinv := begins_config hbegins
  refine ⟨fun w' hrun c d hc hd => ?_, fun before after w₁ w₂ hacts hbefore hafter v hv name m₁ m₂ hm₁ hm₂ => ?_,
    fun w' hrun v hv name m hm hidle hs hs' hsound hsame s s' hrun₁ hrun₂ => ?_⟩
  · obtain ⟨-, configs', h', -⟩ := actRun_config hinv hgroup hpossible hfine hone hrun
    exact h'.agree c (h'.advertised hc) d (h'.advertised hd)
  · subst hacts
    obtain ⟨hp, hf, hp', hf', hleaders⟩ := config_rest hpossible hfine hbefore
    rw [hleaders] at hone
    obtain ⟨hgroup', configs', h', -⟩ := actRun_config hinv hgroup hp hf hone.left hbefore
    obtain ⟨-, configs'', h'', honward⟩ := actRun_config h' hgroup' hp' hf' hone hafter
    obtain ⟨m, hm, hle⟩ := honward v hv name m₂ hm₂
    rw [hm₁, Option.some.injEq] at hm
    rw [hm]
    exact hle
  · obtain ⟨-, configs', h', -⟩ := actRun_config hinv hgroup hpossible hfine hone hrun
    exact any_order_of_inv h' hv hm hidle hsound hsame hrun₁ hrun₂

/-! ## The old address under a new epoch -/

def backOutside : Outside := { quietOutside with selected := some (localAddr 6379) }

def freshSentinels : World :=
  { sentinel := fun v =>
      { runid := if v.port = 26379 then ascii "a" else if v.port = 26380 then ascii "b" else ascii "c"
        current_epoch := 0
        tilt := false
        masters := fun name => if name = ascii "m" then createMaster quietOutside (ascii "127.0.0.1") 6379 2 else none }
    requests := []
    replies := []
    hellos := []
    grants := []
    elected := [] }

def handFailoverTo (v slave : Int) : List Act :=
  ([.slaveLink (ascii "m") (localAddr slave)
      { s_down := false, o_down := false, disconnected := false, last_avail_time := 0 },
    .failover (ascii "m"), .timer (ascii "m") false false, .timer (ascii "m") false false,
    .timer (ascii "m") false false, .slaveInfo (ascii "m") (localAddr slave) [.role .master]].map fun e =>
    .own (sentinelAddr v) e) ++ [.publish (sentinelAddr v) (ascii "m")]

def helloFrom (v : Int) (runid : Bytes) (epoch : Nat) (port : Int) : Hello :=
  { ip := ascii "127.0.0.1"
    port := v
    runid := runid
    current_epoch := epoch
    master_name := ascii "m"
    master_ip := ascii "127.0.0.1"
    master_port := port
    master_config_epoch := epoch }

def thereAndBack : List (Outside × Act) :=
  ([Act.own (sentinelAddr 26379) (.masterInfo (ascii "m") [.role .master, .slave (ascii "127.0.0.1") 6380])] ++
    handFailoverTo 26379 6380).map (fun a => (quietOutside, a)) ++
  ([Act.hear (sentinelAddr 26380) (helloFrom 26379 (ascii "a") 1 6380)] ++
    handFailoverTo 26380 6379).map fun a => (backOutside, a)

def hearBack : List (Outside × Act) :=
  [(quietOutside, .hear (sentinelAddr 26379) (helloFrom 26380 (ascii "b") 2 6379))]

theorem quietOutside_sound : SoundResolve (fun _ => True) quietOutside := ⟨fun _ _ _ => trivial, fun _ _ => rfl⟩

theorem backOutside_sound : SoundResolve (fun _ => True) backOutside := ⟨fun _ _ _ => trivial, fun _ _ => rfl⟩

theorem freshSentinels_begins : BeginsAgreed threeGroup (fun _ => True) freshSentinels := by
  have hmaster : ∀ v name m, (freshSentinels.sentinel v).masters name = some m →
      createMaster quietOutside (ascii "127.0.0.1") 6379 2 = some m := by
    intro v name m hm
    unfold freshSentinels at hm
    simp only at hm
    split at hm
    · exact hm
    · cases hm
  refine ⟨rfl, rfl, rfl, fun v _ name m hm => ?_, fun u _ v _ name m m' hm hm' => ?_⟩
  · cases hmaster v name m hm
    exact ⟨rfl, rfl, rfl, rfl, rfl, trivial, by decide, by decide⟩
  · have heq := (hmaster u name m hm).symm.trans (hmaster v name m' hm')
    rw [Option.some.inj heq]

theorem possible_thereAndBack :
    PossibleConfigActs threeGroup (fun _ => True) freshSentinels (thereAndBack ++ hearBack) := by
  refine ⟨quietOutside_sound, fun _ _ h => (by cases h), ⟨by decide, rfl, trivial⟩, fun w₁ h₁ => ?_⟩
  cases h₁
  refine ⟨quietOutside_sound, fun _ _ h => (by cases h), ⟨by decide, rfl, trivial⟩, fun w₂ h₂ => ?_⟩
  cases h₂
  refine ⟨quietOutside_sound, fun _ _ h => (by cases h), ⟨by decide, rfl, fun m hm => ?_⟩, fun w₃ h₃ => ?_⟩
  · cases hm
    exact selects_only (localAddr 6380) rfl rfl
  cases h₃
  refine ⟨quietOutside_sound, fun _ _ h => (by cases h), ⟨by decide, rfl, fun m hm => ?_⟩, fun w₄ h₄ => ?_⟩
  · cases hm
    exact selects_only (localAddr 6380) rfl rfl
  cases h₄
  refine ⟨quietOutside_sound, fun _ _ h => (by cases h), ⟨by decide, rfl, fun m hm => ?_⟩, fun w₅ h₅ => ?_⟩
  · cases hm
    exact selects_only (localAddr 6380) rfl rfl
  cases h₅
  refine ⟨quietOutside_sound, fun _ _ h => (by cases h), ⟨by decide, rfl, fun m hm => ?_⟩, fun w₆ h₆ => ?_⟩
  · cases hm
    exact selects_only (localAddr 6380) rfl rfl
  cases h₆
  refine ⟨quietOutside_sound, fun _ _ h => (by cases h), ⟨by decide, rfl, trivial⟩, fun w₇ h₇ => ?_⟩
  cases h₇
  refine ⟨quietOutside_sound, fun _ _ h => (by cases h), (by decide : _ ∈ threeGroup.members), fun w₈ h₈ => ?_⟩
  cases h₈
  refine ⟨backOutside_sound, fun _ _ h => (by cases h),
    ⟨by decide, List.mem_append_right _ (List.mem_singleton.mpr rfl), by decide⟩, fun w₉ h₉ => ?_⟩
  cases h₉
  refine ⟨backOutside_sound, fun _ _ h => (by cases h), ⟨by decide, rfl, trivial⟩, fun w₁₀ h₁₀ => ?_⟩
  cases h₁₀
  refine ⟨backOutside_sound, fun _ _ h => (by cases h), ⟨by decide, rfl, fun m hm => ?_⟩, fun w₁₁ h₁₁ => ?_⟩
  · cases hm
    exact selects_only (localAddr 6379) rfl rfl
  cases h₁₁
  refine ⟨backOutside_sound, fun _ _ h => (by cases h), ⟨by decide, rfl, fun m hm => ?_⟩, fun w₁₂ h₁₂ => ?_⟩
  · cases hm
    exact selects_only (localAddr 6379) rfl rfl
  cases h₁₂
  refine ⟨backOutside_sound, fun _ _ h => (by cases h), ⟨by decide, rfl, fun m hm => ?_⟩, fun w₁₃ h₁₃ => ?_⟩
  · cases hm
    exact selects_only (localAddr 6379) rfl rfl
  cases h₁₃
  refine ⟨backOutside_sound, fun _ _ h => (by cases h), ⟨by decide, rfl, fun m hm => ?_⟩, fun w₁₄ h₁₄ => ?_⟩
  · cases hm
    exact selects_only (localAddr 6379) rfl rfl
  cases h₁₄
  refine ⟨backOutside_sound, fun _ _ h => (by cases h), ⟨by decide, rfl, trivial⟩, fun w₁₅ h₁₅ => ?_⟩
  cases h₁₅
  refine ⟨backOutside_sound, fun _ _ h => (by cases h), (by decide : _ ∈ threeGroup.members), fun w₁₆ h₁₆ => ?_⟩
  cases h₁₆
  refine ⟨quietOutside_sound, fun _ _ h => (by cases h),
    ⟨by decide, List.mem_append_right _ (List.mem_singleton.mpr rfl), by decide⟩, fun _ _ => trivial⟩

theorem possibleConfigActs_left {g : Group} {numeric : Bytes → Prop} {w : World} {as bs : List (Outside × Act)}
    (h : PossibleConfigActs g numeric w (as ++ bs)) : PossibleConfigActs g numeric w as := by
  induction as generalizing w with
  | nil => exact trivial
  | cons a as ih =>
    obtain ⟨o, a⟩ := a
    exact ⟨h.1, h.2.1, h.2.2.1, fun w' hw' => ih (h.2.2.2 w' hw')⟩

theorem fine_thereAndBack : FineConfigActs freshSentinels thereAndBack := by
  refine ⟨trivial, fun w₁ h₁ => ?_⟩
  cases h₁
  refine ⟨trivial, fun w₂ h₂ => ?_⟩
  cases h₂
  refine ⟨fun _ _ _ _ => by decide, fun w₃ h₃ => ?_⟩
  cases h₃
  refine ⟨fun _ _ _ _ => .inr (by decide), fun w₄ h₄ => ?_⟩
  cases h₄
  refine ⟨fun _ _ _ _ => .inr (by decide), fun w₅ h₅ => ?_⟩
  cases h₅
  refine ⟨fun _ _ _ _ => .inr (by decide), fun w₆ h₆ => ?_⟩
  cases h₆
  refine ⟨trivial, fun w₇ h₇ => ?_⟩
  cases h₇
  refine ⟨trivial, fun w₈ h₈ => ?_⟩
  cases h₈
  refine ⟨fun m hm hon => ?_, fun w₉ h₉ => ?_⟩
  · cases hm
    cases hon
  cases h₉
  refine ⟨trivial, fun w₁₀ h₁₀ => ?_⟩
  cases h₁₀
  refine ⟨fun _ _ _ _ => by decide, fun w₁₁ h₁₁ => ?_⟩
  cases h₁₁
  refine ⟨fun _ _ _ _ => .inr (by decide), fun w₁₂ h₁₂ => ?_⟩
  cases h₁₂
  refine ⟨fun _ _ _ _ => .inr (by decide), fun w₁₃ h₁₃ => ?_⟩
  cases h₁₃
  refine ⟨fun _ _ _ _ => .inr (by decide), fun w₁₄ h₁₄ => ?_⟩
  cases h₁₄
  refine ⟨trivial, fun w₁₅ h₁₅ => ?_⟩
  cases h₁₅
  refine ⟨trivial, fun _ _ => trivial⟩

theorem oneLeader_back : OneLeader [⟨sentinelAddr 26379, ascii "m", 1⟩, ⟨sentinelAddr 26380, ascii "m", 2⟩] := by
  unfold OneLeader
  decide

theorem config_agreement_back :
    leadersOf freshSentinels thereAndBack ≠ [] ∧
      Agreement threeGroup (fun _ => True) freshSentinels thereAndBack :=
  ⟨by decide, config_agreement freshSentinels_begins (possibleConfigActs_left possible_thereAndBack)
    oneLeader_back fine_thereAndBack⟩

/-- The first Sentinel takes the new epoch, and goes on to advertise the slave it promoted. -/
theorem old_address_new_epoch :
    BeginsAgreed threeGroup (fun _ => True) freshSentinels ∧
      PossibleConfigActs threeGroup (fun _ => True) freshSentinels (thereAndBack ++ hearBack) ∧
      OneLeader (leadersOf freshSentinels (thereAndBack ++ hearBack)) ∧
      ¬ Agreement threeGroup (fun _ => True) freshSentinels (thereAndBack ++ hearBack) := by
  refine ⟨freshSentinels_begins, possible_thereAndBack, oneLeader_back, fun h => ?_⟩
  obtain ⟨w, hrun, hfirst, hsecond⟩ : ∃ w, actRun freshSentinels (thereAndBack ++ hearBack) = .ok w ∧
      Advertised threeGroup w ⟨ascii "m", 2, localAddr 6380⟩ ∧
      Advertised threeGroup w ⟨ascii "m", 2, localAddr 6379⟩ :=
    ⟨_, rfl, .inr ⟨sentinelAddr 26379, by decide, _, rfl, rfl⟩, .inr ⟨sentinelAddr 26380, by decide, _, rfl, rfl⟩⟩
  exact absurd (h.same_address w hrun _ _ hfirst hsecond rfl rfl) (by decide)

end RedisCluster.Sentinel
