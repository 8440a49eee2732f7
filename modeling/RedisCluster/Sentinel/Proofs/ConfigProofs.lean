import RedisCluster.Sentinel.Proofs.AgreementProofs

/-!
# What a Sentinel advertises was made by a leader

Every configuration was made by the leader of its epoch when it saw the promotion. What a Sentinel has for a
master is one that was made; while it leads a failover none has been made for the epoch of that failover.
-/

namespace RedisCluster.Sentinel

open RedisCluster.Util

/-- A master of the Sentinel `v` at the epoch `e`, with the leaders and the configurations there have been. -/
structure MasterInv (numeric : Bytes → Prop) (v : Addr) (name : Bytes) (e : Nat) (leaders : List Leader)
    (configs : Set Config) (m : Master) : Prop where
  inv : Inv m
  places : Places numeric m
  config : advertises name m ∈ configs
  epoch : m.config_epoch ≤ e
  running : 0 < m.failover_state.code →
    m.config_epoch ≤ m.failover_epoch ∧ 0 < m.failover_epoch ∧ m.failover_epoch ≤ e
  waiting : m.failover_state.code = 1 → (⟨v, name, m.failover_epoch⟩ : Leader) ∉ leaders
  leading : 2 ≤ m.failover_state.code → m.failover_state.code ≤ 4 →
    (⟨v, name, m.failover_epoch⟩ : Leader) ∈ leaders ∧
      ∀ addr, (⟨name, m.failover_epoch, addr⟩ : Config) ∉ configs
  promoted : 5 ≤ m.failover_state.code → m.config_epoch = m.failover_epoch

def SameAddress (configs : Set Config) : Prop :=
  ∀ c ∈ configs, ∀ d ∈ configs, c.master = d.master → c.config_epoch = d.config_epoch → c.addr = d.addr

/-- The leaders and configurations grow by those of one Sentinel and one master. -/
structure Growth (numeric : Bytes → Prop) (v : Addr) (name : Bytes) (e : Nat) (leaders leaders' : List Leader)
    (configs configs' : Set Config) : Prop where
  old_leaders : ∀ x ∈ leaders, x ∈ leaders'
  new_leaders : ∀ x ∈ leaders', x ∈ leaders ∨ (x.sentinel = v ∧ x.master = name ∧ x.epoch ≤ e)
  old_configs : ∀ c ∈ configs, c ∈ configs'
  new_configs : ∀ c ∈ configs', c ∈ configs ∨
    (c.master = name ∧ (⟨v, name, c.config_epoch⟩ : Leader) ∈ leaders' ∧ c.addr.Valid numeric)
  agree : SameAddress configs'

theorem MasterInv.grow {numeric : Bytes → Prop} {u v : Addr} {n name : Bytes} {e e' : Nat}
    {leaders leaders' : List Leader} {configs configs' : Set Config} {m : Master}
    (h : MasterInv numeric u n e leaders configs m) {b : Nat}
    (hgrowth : Growth numeric v name b leaders leaders' configs configs') (hone : OneLeader leaders')
    (hne : ¬(u = v ∧ n = name)) (he : e ≤ e') : MasterInv numeric u n e' leaders' configs' m where
  inv := h.inv
  places := h.places
  config := hgrowth.old_configs _ h.config
  epoch := h.epoch.trans he
  running hcode := ⟨(h.running hcode).1, (h.running hcode).2.1, (h.running hcode).2.2.trans he⟩
  waiting hcode hmem := by
    rcases hgrowth.new_leaders _ hmem with hold | ⟨hu, hn, -⟩
    · exact h.waiting hcode hold
    · exact hne ⟨hu, hn⟩
  leading hcode hcode' := by
    obtain ⟨hlead, hfresh⟩ := h.leading hcode hcode'
    refine ⟨hgrowth.old_leaders _ hlead, fun addr hmem => ?_⟩
    rcases hgrowth.new_configs _ hmem with hold | ⟨hn, hother, -⟩
    · exact hfresh addr hold
    · -- the other Sentinel leads in the same epoch
      have hu := hone _ (hgrowth.old_leaders _ hlead) _ hother hn rfl
      exact hne ⟨hu, hn⟩
  promoted := h.promoted

theorem fresh_of_leader {leaders new : List Leader} {configs : Set Config} {v : Addr} {name : Bytes} {e : Nat}
    (hmade : ∀ c ∈ configs, c.config_epoch = 0 ∨ ∃ u, (⟨u, c.master, c.config_epoch⟩ : Leader) ∈ leaders)
    (hone : OneLeader (leaders ++ new)) (hlead : (⟨v, name, e⟩ : Leader) ∈ new)
    (hnot : (⟨v, name, e⟩ : Leader) ∉ leaders) (hpos : 0 < e) (addr : Addr) :
    (⟨name, e, addr⟩ : Config) ∉ configs := by
  intro hmem
  rcases hmade _ hmem with hzero | ⟨u, hu⟩
  · have hzero' : e = 0 := hzero
    omega
  · have hsame : u = v := hone _ (List.mem_append_left _ hu) _ (List.mem_append_right _ hlead) rfl rfl
    rw [hsame] at hu
    exact hnot hu

theorem Growth.of_leaders {numeric : Bytes → Prop} {v : Addr} {name : Bytes} {e : Nat} {leaders new : List Leader}
    {configs : Set Config} (hagree : SameAddress configs)
    (hnew : ∀ x ∈ new, x.sentinel = v ∧ x.master = name ∧ x.epoch ≤ e) :
    Growth numeric v name e leaders (leaders ++ new) configs configs where
  old_leaders _ hx := List.mem_append_left _ hx
  new_leaders x hx := (List.mem_append.mp hx).imp id (hnew x)
  old_configs _ hc := hc
  new_configs _ hc := .inl hc
  agree := hagree

def newLeaders (v : Addr) (name : Bytes) (m m' : Master) : List Leader :=
  if m.failover_state ≠ .select_slave ∧ m'.failover_state = .select_slave then
    [{ sentinel := v, master := name, epoch := m'.failover_epoch }]
  else []

theorem code_select {st : FailoverState} : st = .select_slave ↔ st.code = 2 := by
  cases st <;> decide

theorem mem_newLeaders {v : Addr} {name : Bytes} {m m' : Master} {x : Leader} (h : x ∈ newLeaders v name m m') :
    x = ⟨v, name, m'.failover_epoch⟩ ∧ m'.failover_state.code = 2 := by
  unfold newLeaders at h
  split at h
  · rename_i hcase
    exact ⟨List.mem_singleton.mp h, code_select.mp hcase.2⟩
  · exact absurd h List.not_mem_nil

theorem newLeaders_of_enters {v : Addr} {name : Bytes} {m m' : Master} (h : m.failover_state.code ≠ 2)
    (h' : m'.failover_state.code = 2) : newLeaders v name m m' = [⟨v, name, m'.failover_epoch⟩] := by
  unfold newLeaders
  rw [if_pos ⟨fun hs => h (code_select.mp hs), code_select.mpr h'⟩]

theorem newLeaders_of_ne {v : Addr} {name : Bytes} {m m' : Master}
    (h : m'.failover_state.code ≠ 2 ∨ m.failover_state.code = 2) : newLeaders v name m m' = [] := by
  unfold newLeaders
  refine if_neg fun hcase => ?_
  rcases h with h | h
  · exact h (code_select.mp hcase.2)
  · exact hcase.1 (code_select.mpr h)

theorem MasterInv.moved {numeric : Bytes → Prop} {v : Addr} {name : Bytes} {e : Nat} {leaders : List Leader}
    {configs : Set Config} {m m' : Master} (h : MasterInv numeric v name e leaders configs m)
    (hmoves : Moves numeric m m') (hstate : m'.failover_state = m.failover_state) (hinv : Inv m') :
    MasterInv numeric v name e leaders configs m' := by
  have hadvertises : advertises name m' = advertises name m := by
    unfold advertises
    rw [hmoves.config_epoch, hmoves.currentAddress h.inv hinv]
  refine ⟨hinv, hmoves.places h.places, ?_, ?_, ?_, ?_, ?_, ?_⟩
  · rw [hadvertises]
    exact h.config
  · rw [hmoves.config_epoch]
    exact h.epoch
  · rw [hstate, hmoves.config_epoch, hmoves.failover_epoch]
    exact h.running
  · rw [hstate, hmoves.failover_epoch]
    exact h.waiting
  · rw [hstate, hmoves.failover_epoch]
    exact h.leading
  · rw [hstate, hmoves.config_epoch, hmoves.failover_epoch]
    exact h.promoted

theorem MasterInv.goes {numeric : Bytes → Prop} {v : Addr} {name : Bytes} {e e' : Nat} {leaders : List Leader}
    {configs : Set Config} {m m' : Master} (h : MasterInv numeric v name e leaders configs m)
    (hgoes : Goes numeric e e' m m') (hinv : Inv m') (hagree : SameAddress configs)
    (hone : OneLeader (leaders ++ newLeaders v name m m'))
    (hle : ∀ x ∈ leaders, x.sentinel = v → x.epoch ≤ e)
    (hmade : ∀ c ∈ configs, c.config_epoch = 0 ∨ ∃ u, (⟨u, c.master, c.config_epoch⟩ : Leader) ∈ leaders) :
    ∃ configs', Growth numeric v name e' leaders (leaders ++ newLeaders v name m m') configs configs' ∧
      MasterInv numeric v name e' (leaders ++ newLeaders v name m m') configs' m' ∧
      m.config_epoch ≤ m'.config_epoch := by
  have hold : ∀ x ∈ leaders, x ∈ leaders ++ newLeaders v name m m' := fun x hx => List.mem_append_left _ hx
  cases hgoes with
  | moves hmoves he =>
    have hstate := hmoves.state
    unfold Progress at hstate
    have hadvertises : advertises name m' = advertises name m := by
      unfold advertises
      rw [hmoves.config_epoch, hmoves.currentAddress h.inv hinv]
    have hrunning : 0 < m'.failover_state.code → m'.config_epoch ≤ m'.failover_epoch ∧ 0 < m'.failover_epoch ∧
        m'.failover_epoch ≤ e' := fun hcode => by
      have hrun := h.running (by omega)
      rw [hmoves.config_epoch, hmoves.failover_epoch]
      exact ⟨hrun.1, hrun.2.1, hrun.2.2.trans he⟩
    refine ⟨configs, .of_leaders hagree fun x hx => ?_, ⟨hinv, hmoves.places h.places, ?_, ?_, hrunning,
      fun hcode => ?_, fun hcode hcode' => ?_, fun hcode => ?_⟩, hmoves.config_epoch.ge⟩
    · obtain ⟨rfl, hcode⟩ := mem_newLeaders hx
      exact ⟨rfl, rfl, (hrunning (by omega)).2.2⟩
    · rw [hadvertises]
      exact h.config
    · rw [hmoves.config_epoch]
      exact h.epoch.trans he
    · rw [newLeaders_of_ne (.inl (by omega)), List.append_nil, hmoves.failover_epoch]
      exact h.waiting (by omega)
    · rcases Nat.lt_or_ge m.failover_state.code 2 with hearly | hlate
      · -- the Sentinel becomes the leader
        have hwait : m.failover_state.code = 1 := by omega
        have henters : newLeaders v name m m' = _ := newLeaders_of_enters (by omega) (by omega)
        rw [henters] at hone ⊢
        refine ⟨List.mem_append_right _ List.mem_cons_self, fresh_of_leader hmade hone List.mem_cons_self ?_
          (hrunning (by omega)).2.1⟩
        rw [hmoves.failover_epoch]
        exact h.waiting hwait
      · obtain ⟨hlead, hfresh⟩ := h.leading hlate (by omega)
        rw [hmoves.failover_epoch]
        exact ⟨hold _ hlead, hfresh⟩
    · rw [hmoves.config_epoch, hmoves.failover_epoch]
      exact h.promoted (by omega)
  | starts hstarts =>
    have hzero : m.failover_state.code = 0 := code_none.mp hstarts.idle
    have hcode := hstarts.state
    have hnot : (⟨v, name, m'.failover_epoch⟩ : Leader) ∉ leaders := fun hmem =>
      absurd (hle _ hmem rfl) (Nat.not_le.mpr hstarts.failover_epoch.1)
    have hpos : 0 < m'.failover_epoch := Nat.lt_of_le_of_lt (Nat.zero_le e) hstarts.failover_epoch.1
    have hadvertises : advertises name m' = advertises name m := by
      unfold advertises
      rw [hstarts.config_epoch, currentAddress_early (m := m') (by omega), currentAddress_early (m := m) (by omega),
        hstarts.addr]
    have hge : e ≤ e' := (hstarts.failover_epoch.1.trans_le hstarts.failover_epoch.2).le
    refine ⟨configs, .of_leaders hagree fun x hx => ?_, ⟨hinv, hstarts.places h.places, ?_, ?_, fun _ => ?_,
      fun hcode => ?_, fun hcode hcode' => ?_, fun hcode => ?_⟩, hstarts.config_epoch.ge⟩
    · obtain ⟨rfl, -⟩ := mem_newLeaders hx
      exact ⟨rfl, rfl, hstarts.failover_epoch.2⟩
    · rw [hadvertises]
      exact h.config
    · rw [hstarts.config_epoch]
      exact h.epoch.trans hge
    · rw [hstarts.config_epoch]
      exact ⟨h.epoch.trans hstarts.failover_epoch.1.le, hpos, hstarts.failover_epoch.2⟩
    · rw [newLeaders_of_ne (.inl (by omega)), List.append_nil]
      exact hnot
    · have henters : newLeaders v name m m' = _ := newLeaders_of_enters (by omega) (by omega)
      rw [henters] at hone ⊢
      exact ⟨List.mem_append_right _ List.mem_cons_self,
        fresh_of_leader hmade hone List.mem_cons_self hnot hpos⟩
    · omega
  | promotes hpromotes he =>
    have hfour := hpromotes.waiting
    have hfive := hpromotes.state
    obtain ⟨hconfig, hpos, hepoch⟩ := h.running (by omega)
    obtain ⟨hlead, hfresh⟩ := h.leading (by omega) (by omega)
    have hplaces := hpromotes.places h.places
    have hnone : newLeaders v name m m' = [] := newLeaders_of_ne (.inl (by omega))
    rw [hnone, List.append_nil]
    have hnew : ∀ c ∈ configs, c.master = name → c.config_epoch ≠ m.failover_epoch := fun c hc hname heq => by
      refine hfresh c.addr ?_
      rw [← hname, ← heq]
      exact hc
    refine ⟨insert (advertises name m') configs, ⟨fun _ hx => hx, fun _ hx => .inl hx,
      fun c hc => Set.mem_insert_of_mem _ hc, fun c hc => ?_, ?_⟩,
      ⟨hinv, hplaces, Set.mem_insert _ _, ?_, fun _ => ?_, fun _ => ?_, fun _ _ => ?_, fun _ => ?_⟩, ?_⟩
    · rcases Set.mem_insert_iff.mp hc with rfl | hc
      · refine .inr ⟨rfl, ?_, currentAddress_valid hinv hplaces⟩
        show (⟨v, name, m'.config_epoch⟩ : Leader) ∈ leaders
        rw [hpromotes.config_epoch]
        exact hlead
      · exact .inl hc
    · intro c hc d hd hmaster hsame
      rcases Set.mem_insert_iff.mp hc with rfl | hc
      · rcases Set.mem_insert_iff.mp hd with rfl | hd
        · rfl
        · exact absurd (hsame.symm.trans hpromotes.config_epoch) (hnew d hd hmaster.symm)
      · rcases Set.mem_insert_iff.mp hd with rfl | hd
        · exact absurd (hsame.trans hpromotes.config_epoch) (hnew c hc hmaster)
        · exact hagree c hc d hd hmaster hsame
    · rw [hpromotes.config_epoch]
      exact hepoch.trans he
    · rw [hpromotes.config_epoch, hpromotes.failover_epoch]
      exact ⟨le_refl _, hpos, hepoch.trans he⟩
    · omega
    · omega
    · rw [hpromotes.config_epoch, hpromotes.failover_epoch]
    · rw [hpromotes.config_epoch]
      exact hconfig
  | switches hswitches he =>
    have hzero : m'.failover_state.code = 0 := code_none.mp hswitches.state
    have hadvertises : advertises name m' = advertises name m := by
      unfold advertises
      rw [hswitches.config_epoch, currentAddress_early (m := m') (by omega), hswitches.addr]
    refine ⟨configs, .of_leaders hagree fun x hx => ?_, ⟨hinv, hswitches.places, ?_, ?_, fun hcode => ?_,
      fun hcode => ?_, fun hcode _ => ?_, fun hcode => ?_⟩, hswitches.config_epoch.ge⟩
    · obtain ⟨-, hcode⟩ := mem_newLeaders hx
      omega
    · rw [hadvertises]
      exact h.config
    · rw [hswitches.config_epoch]
      exact h.epoch.trans he
    · omega
    · omega
    · omega
    · omega

theorem helloSender_moves {numeric : Bytes → Prop} (o : Outside) (h : Hello) (m : Master) :
    Moves numeric m (helloSender o h m).2 ∧ (helloSender o h m).2.failover_state = m.failover_state ∧
      (helloSender o h m).2.failover_in_progress = m.failover_in_progress := by
  have hmoves : ∀ sentinels, Moves numeric m { m with sentinels := sentinels } := fun sentinels =>
    moves_of_samePlace rfl rfl rfl (.inr (.inl rfl)) (samePlace_refl _) fun _ => rfl
  unfold helloSender
  extract_lets addr sentinels
  split
  · exact ⟨.refl numeric m, rfl, rfl⟩
  · split
    · exact ⟨hmoves _, rfl, rfl⟩
    · split
      · exact ⟨hmoves _, rfl, rfl⟩
      · exact ⟨hmoves _, rfl, rfl⟩

theorem helloConfig_cases {numeric : Bytes → Prop} {o : Outside} (ho : SoundResolve numeric o) {h : Hello}
    (hvalid : h.config.addr.Valid numeric) {sender : Bool} {m m' : Master}
    (hm' : helloConfig o h sender m = .ok m') :
    (h.master_config_epoch ≤ m.config_epoch ∧ m' = m) ∨
      (m.config_epoch < h.master_config_epoch ∧ m.addr = h.config.addr ∧
        m' = { m with config_epoch := h.master_config_epoch }) ∨
      (m.config_epoch < h.master_config_epoch ∧ m'.config_epoch = h.master_config_epoch ∧
        m'.addr = h.config.addr ∧ m'.failover_state = .none ∧ m'.failover_in_progress = false ∧
        Places numeric m') := by
  unfold helloConfig at hm'
  split at hm'
  · rename_i hnewer
    dsimp only at hm'
    split at hm'
    · rename_i hsame
      refine .inr (.inl ⟨hnewer, ?_, (Except.ok.inj hm').symm⟩)
      show m.addr = (⟨h.master_ip, h.master_port⟩ : Addr)
      rw [hsame.1, ← hsame.2]
    · split at hm'
      · cases hm'
      · have hmoves := changeAddress_movesTo ho hvalid { m with config_epoch := h.master_config_epoch }
        rw [← Except.ok.inj hm']
        exact .inr (.inr ⟨hnewer, hmoves.config_epoch, hmoves.addr, hmoves.state, hmoves.in_progress,
          hmoves.places⟩)
  · rename_i hnewer
    exact .inl ⟨Nat.not_lt.mp hnewer, (Except.ok.inj hm').symm⟩

theorem MasterInv.epoch_le {numeric : Bytes → Prop} {v : Addr} {name : Bytes} {e e' : Nat} {leaders : List Leader}
    {configs : Set Config} {m : Master} (h : MasterInv numeric v name e leaders configs m) (he : e ≤ e') :
    MasterInv numeric v name e' leaders configs m :=
  { h with
    epoch := h.epoch.trans he
    running := fun hcode => ⟨(h.running hcode).1, (h.running hcode).2.1, (h.running hcode).2.2.trans he⟩ }

theorem MasterInv.heard {numeric : Bytes → Prop} {o : Outside} (ho : SoundResolve numeric o) {v : Addr} {h : Hello}
    {e : Nat} {leaders : List Leader} {configs : Set Config} {sender : Bool} {m m' : Master}
    (hm : MasterInv numeric v h.master_name e leaders configs m) (hconfig : h.config ∈ configs)
    (hvalid : h.config.addr.Valid numeric) (hepoch : h.master_config_epoch ≤ h.current_epoch)
    (hfine : m.failover_in_progress = true → m.addr = h.config.addr →
      h.master_config_epoch ≤ m.failover_epoch)
    (hinv : Inv m') (hm' : helloConfig o h sender m = .ok m') :
    MasterInv numeric v h.master_name (max e h.current_epoch) leaders configs m' ∧
      m.config_epoch ≤ m'.config_epoch := by
  have hbound : h.master_config_epoch ≤ max e h.current_epoch := hepoch.trans (le_max_right _ _)
  rcases helloConfig_cases ho hvalid hm' with ⟨-, rfl⟩ | ⟨hnewer, haddr, rfl⟩ | ⟨hnewer, hsame, haddr, hstate, -, hplaces⟩
  · exact ⟨hm.epoch_le (le_max_left _ _), le_refl _⟩
  · have hrun : 0 < m.failover_state.code → h.master_config_epoch ≤ m.failover_epoch := fun hcode =>
      hfine (hm.inv.in_progress.mpr fun hnone => by rw [code_none.mp hnone] at hcode; omega) haddr
    -- after the promotion the failover has the newest configuration itself
    have hearly : m.failover_state.code ≤ 4 := by
      by_contra hlate
      have hpromoted := hm.promoted (by omega)
      have hle := hrun (by omega)
      omega
    refine ⟨⟨hinv, ⟨hm.places.addr, hm.places.slaves⟩, ?_, hbound, fun hcode => ?_, hm.waiting, hm.leading,
      fun hcode => ?_⟩, hnewer.le⟩
    · have hadvertises : advertises h.master_name { m with config_epoch := h.master_config_epoch } = h.config := by
        unfold advertises
        have haddress : sentinelGetCurrentMasterAddress { m with config_epoch := h.master_config_epoch } = m.addr :=
          currentAddress_early (m := { m with config_epoch := h.master_config_epoch }) hearly
        rw [haddress, haddr]
        rfl
      rw [hadvertises]
      exact hconfig
    · exact ⟨hrun hcode, (hm.running hcode).2.1, (hm.running hcode).2.2.trans (le_max_left _ _)⟩
    · have hcode' : 5 ≤ m.failover_state.code := hcode
      omega
  · have hzero : m'.failover_state.code = 0 := code_none.mp hstate
    refine ⟨⟨hinv, hplaces, ?_, by rw [hsame]; exact hbound, fun hcode => ?_, fun hcode => ?_, fun hcode _ => ?_,
      fun hcode => ?_⟩, by rw [hsame]; exact hnewer.le⟩
    · have hadvertises : advertises h.master_name m' = h.config := by
        unfold advertises
        rw [hsame, currentAddress_early (m := m') (by omega), haddr]
        rfl
      rw [hadvertises]
      exact hconfig
    · omega
    · omega
    · omega
    · omega

end RedisCluster.Sentinel
