import RedisCluster.Sentinel.Proofs.ElectionProofs
import RedisCluster.Sentinel.Proofs.FailoverRunProofs

/-!
# The configuration that one Sentinel advertises

No function but the reply to INFO that shows a promotion changes what a Sentinel advertises for a master: before
the promotion it is the address of the master, after it the address of the promoted slave, up to the switch and
beyond.
-/

namespace RedisCluster.Sentinel

open RedisCluster.Util

/-! ## Slaves and their addresses -/

structure Places (numeric : Bytes → Prop) (m : Master) : Prop where
  addr : m.addr.Valid numeric
  slaves : ∀ slave ∈ m.slaves, slave.addr.Valid numeric

def Found (l l' : List Slave) : Prop :=
  ∀ name a, (l.find? fun slave => slave.name = name) = some a →
    ∃ b, (l'.find? fun slave => slave.name = name) = some b ∧ b.addr = a.addr

def SamePlace (a b : Slave) : Prop := b.name = a.name ∧ b.addr = a.addr

theorem SamePlace.refl (a : Slave) : SamePlace a a := ⟨rfl, rfl⟩

theorem samePlace_refl (l : List Slave) : List.Forall₂ SamePlace l l :=
  List.forall₂_same.mpr fun a _ => SamePlace.refl a

theorem found_refl (l : List Slave) : Found l l := fun _ a h => ⟨a, h, rfl⟩

theorem found_of_samePlace {l l' : List Slave} (h : List.Forall₂ SamePlace l l') : Found l l' := by
  intro name a ha
  induction h with
  | nil => cases ha
  | @cons x y l l' hxy _ ih =>
    by_cases hname : x.name = name
    · have hyname : y.name = name := hxy.1.trans hname
      simp only [List.find?_cons, decide_eq_true hname, Option.some.injEq] at ha
      subst ha
      simp only [List.find?_cons, decide_eq_true hyname]
      exact ⟨y, rfl, hxy.2⟩
    · have hyname : ¬ y.name = name := fun h => hname (hxy.1.symm.trans h)
      simp only [List.find?_cons, decide_eq_false hname] at ha
      simp only [List.find?_cons, decide_eq_false hyname]
      exact ih ha

theorem found_of_perm {l l' : List Slave} (hnodup : (l.map Slave.name).Nodup) (h : l'.Perm l) : Found l l' := by
  intro name a ha
  have hp := List.find?_some ha
  have hname : a.name = name := of_decide_eq_true hp
  have hmem : a ∈ l' := h.mem_iff.mpr (List.mem_of_find?_eq_some ha)
  cases hb : l'.find? fun slave => slave.name = name with
  | none => exact absurd (decide_eq_true hname) (List.find?_eq_none.mp hb a hmem)
  | some b =>
    have hbp := List.find?_some hb
    have hbname : b.name = name := of_decide_eq_true hbp
    have hbmem : b ∈ l := h.mem_iff.mp (List.mem_of_find?_eq_some hb)
    rw [List.inj_on_of_nodup_map hnodup hbmem (List.mem_of_find?_eq_some ha) (hbname.trans hname.symm)]
    exact ⟨a, rfl, rfl⟩

theorem samePlace_map {f : Slave → Slave} (hf : ∀ a, SamePlace a (f a)) (l : List Slave) :
    List.Forall₂ SamePlace l (l.map f) := by
  induction l with
  | nil => exact .nil
  | cons a l ih => exact .cons (hf a) ih

theorem samePlace_updateSlave {f : Slave → Slave} (hf : ∀ a, SamePlace a (f a)) (name : Addr) (l : List Slave) :
    List.Forall₂ SamePlace l (updateSlave name f l) := by
  refine samePlace_map (fun a => ?_) l
  split
  · exact hf a
  · exact .refl a

theorem valid_of_samePlace {numeric : Bytes → Prop} {l l' : List Slave} (h : List.Forall₂ SamePlace l l')
    (hl : ∀ slave ∈ l, slave.addr.Valid numeric) : ∀ slave ∈ l', slave.addr.Valid numeric := by
  induction h with
  | nil => exact hl
  | cons hxy _ ih =>
    intro slave hslave
    rcases List.mem_cons.mp hslave with rfl | hslave
    · rw [hxy.2]
      exact hl _ List.mem_cons_self
    · exact ih (fun a ha => hl a (List.mem_cons_of_mem _ ha)) slave hslave

/-! ## Moves of a failover -/

def Progress (c c' : Nat) : Prop :=
  (c' = 0 ∧ c ≤ 4) ∨ c' = c ∨ (c = 1 ∧ c' = 2) ∨ (2 ≤ c ∧ c ≤ c' ∧ c' ≤ 4) ∨ (c = 5 ∧ c' = 6)

theorem progress_within {p q : FailoverState} (h : 2 ≤ p.code ∧ p.code ≤ q.code ∧ q.code ≤ 4) :
    Progress p.code q.code := .inr (.inr (.inr (.inl h)))

/-- A step of a failover that neither starts it nor ends the wait for the promotion. -/
structure Moves (numeric : Bytes → Prop) (m m' : Master) : Prop where
  config_epoch : m'.config_epoch = m.config_epoch
  failover_epoch : m'.failover_epoch = m.failover_epoch
  addr : m'.addr = m.addr
  state : Progress m.failover_state.code m'.failover_state.code
  found : Found m.slaves m'.slaves
  places : Places numeric m → Places numeric m'
  promoted : 5 ≤ m.failover_state.code → m'.promoted_slave = m.promoted_slave

theorem moves_of_samePlace {numeric : Bytes → Prop} {m m' : Master} (hconfig : m'.config_epoch = m.config_epoch)
    (hfailover : m'.failover_epoch = m.failover_epoch) (haddr : m'.addr = m.addr)
    (hstate : Progress m.failover_state.code m'.failover_state.code)
    (hslaves : List.Forall₂ SamePlace m.slaves m'.slaves)
    (hpromoted : 5 ≤ m.failover_state.code → m'.promoted_slave = m.promoted_slave) : Moves numeric m m' where
  config_epoch := hconfig
  failover_epoch := hfailover
  addr := haddr
  state := hstate
  found := found_of_samePlace hslaves
  places h := ⟨by rw [haddr]; exact h.addr, valid_of_samePlace hslaves h.slaves⟩
  promoted := hpromoted

theorem Moves.refl (numeric : Bytes → Prop) (m : Master) : Moves numeric m m :=
  moves_of_samePlace rfl rfl rfl (.inr (.inl rfl)) (samePlace_refl _) fun _ => rfl

theorem Moves.after {numeric : Bytes → Prop} {m₁ m₂ m₃ : Master} (h : Moves numeric m₁ m₂)
    (hstate : m₂.failover_state = m₁.failover_state) (h' : Moves numeric m₂ m₃) : Moves numeric m₁ m₃ where
  config_epoch := h'.config_epoch.trans h.config_epoch
  failover_epoch := h'.failover_epoch.trans h.failover_epoch
  addr := h'.addr.trans h.addr
  state := by
    have := h'.state
    rw [hstate] at this
    exact this
  found name a ha := by
    obtain ⟨b, hb, hbaddr⟩ := h.found name a ha
    obtain ⟨c, hc, hcaddr⟩ := h'.found name b hb
    exact ⟨c, hc, hcaddr.trans hbaddr⟩
  places hm := h'.places (h.places hm)
  promoted hcode := by
    have hcode' : 5 ≤ m₂.failover_state.code := by
      rw [hstate]
      exact hcode
    exact (h'.promoted hcode').trans (h.promoted hcode)

/-! ## The address -/

theorem currentAddress_early {m : Master} (h : m.failover_state.code ≤ 4) :
    sentinelGetCurrentMasterAddress m = m.addr := by
  unfold sentinelGetCurrentMasterAddress
  split
  · rw [if_neg fun hlate => absurd (Nat.le_trans hlate.2 h) (by decide)]
  · rfl

theorem currentAddress_late {m : Master} (hinv : Inv m) (h : 5 ≤ m.failover_state.code) :
    ∃ name slave, m.promoted_slave = some name ∧ slave ∈ m.slaves ∧
      sentinelRedisInstanceLookupSlave m name = some slave ∧ promotedSlave m = .ok slave ∧
      sentinelGetCurrentMasterAddress m = slave.addr := by
  obtain ⟨slave, hslave, hname, hpromoted⟩ := promotedSlave_ok hinv (by omega)
  have hlookup := lookup_of_mem hinv hslave
  have hflag : m.failover_in_progress = true := by
    refine hinv.in_progress.mpr fun hnone => ?_
    rw [code_none.mp hnone] at h
    omega
  refine ⟨slave.name, slave, hname, hslave, hlookup, hpromoted, ?_⟩
  unfold sentinelGetCurrentMasterAddress
  rw [hname, Option.bind_some, hlookup]
  exact if_pos ⟨hflag, h⟩

theorem currentAddress_valid {numeric : Bytes → Prop} {m : Master} (hinv : Inv m) (hplaces : Places numeric m) :
    (sentinelGetCurrentMasterAddress m).Valid numeric := by
  rcases Nat.lt_or_ge 4 m.failover_state.code with hlate | hearly
  · obtain ⟨-, slave, -, hslave, -, -, haddr⟩ := currentAddress_late hinv hlate
    rw [haddr]
    exact hplaces.slaves slave hslave
  · rw [currentAddress_early hearly]
    exact hplaces.addr

theorem Moves.currentAddress {numeric : Bytes → Prop} {m m' : Master} (h : Moves numeric m m') (hinv : Inv m)
    (hinv' : Inv m') : sentinelGetCurrentMasterAddress m' = sentinelGetCurrentMasterAddress m := by
  have hstate := h.state
  unfold Progress at hstate
  rcases Nat.lt_or_ge 4 m.failover_state.code with hlate | hearly
  · obtain ⟨name, slave, hname, -, hlookup, -, haddr⟩ := currentAddress_late hinv hlate
    obtain ⟨name', slave', hname', -, hlookup', -, haddr'⟩ := currentAddress_late (m := m') hinv' (by omega)
    rw [h.promoted hlate, hname, Option.some.injEq] at hname'
    subst hname'
    obtain ⟨found, hfound, hsame⟩ := h.found name slave hlookup
    have heq : found = slave' := Option.some.inj (hfound.symm.trans hlookup')
    rw [haddr', haddr, ← heq, hsame]
  · rw [currentAddress_early hearly, currentAddress_early (m := m') (by omega), h.addr]

/-! ## The functions of the failover -/

theorem vote_epoch_le (o : Outside) (runid : Bytes) (current_epoch : Nat) (m : Master) (req_epoch : Nat)
    (req_runid : Bytes) :
    current_epoch ≤ (sentinelVoteLeader o runid current_epoch m req_epoch req_runid).1 := by
  unfold sentinelVoteLeader
  extract_lets epoch
  have hle : current_epoch ≤ epoch := by
    simp only [epoch]
    split
    · omega
    · exact Nat.le_refl _
  split
  · exact hle
  · exact hle

theorem abort_moves {numeric : Bytes → Prop} {o : Outside} {m m' : Master} (h : sentinelAbortFailover o m = .ok m') :
    Moves numeric m m' := by
  unfold sentinelAbortFailover at h
  split at h
  · cases h
  · split at h
    · cases h
    · rename_i hcode
      have hle : m.failover_state.code ≤ 4 := Nat.not_lt.mp hcode
      rw [← Except.ok.inj h]
      refine moves_of_samePlace rfl rfl rfl (.inl ⟨rfl, hle⟩) ?_ fun hlate => absurd hlate (by omega)
      cases m.promoted_slave with
      | none => exact samePlace_refl _
      | some name =>
        exact samePlace_updateSlave (f := fun slave => { slave with promoted := false }) (fun _ => ⟨rfl, rfl⟩)
          name m.slaves

theorem waitStart_moves {numeric : Bytes → Prop} {o : Outside} {runid : Bytes} {current_epoch : Nat} {m : Master}
    {r : Nat × Master} (hstate : m.failover_state = .wait_start)
    (h : sentinelFailoverWaitStart o runid current_epoch m = .ok r) : Moves numeric m r.2 ∧ current_epoch ≤ r.1 := by
  unfold sentinelFailoverWaitStart at h
  obtain ⟨⟨leader, epoch, voted⟩, hleader, h⟩ := bind_ok h
  have hvoted : (Moves numeric m voted ∧ voted.failover_state = m.failover_state) ∧ current_epoch ≤ epoch := by
    unfold sentinelGetLeader at hleader
    split at hleader
    · cases hleader
    · extract_lets counters best vote at hleader
      have heq : vote = (epoch, voted) := (Prod.mk.inj (Except.ok.inj hleader)).2
      have hvoted : vote.2 = voted := by rw [heq]
      have hepoch : vote.1 = epoch := by rw [heq]
      obtain ⟨_, _, _, hsame⟩ := vote_same o runid current_epoch m m.failover_epoch (best.1.getD runid)
      rw [← hvoted, ← hepoch]
      refine ⟨?_, ?_⟩
      · show Moves numeric m (sentinelVoteLeader _ _ _ _ _ _).2 ∧ (sentinelVoteLeader _ _ _ _ _ _).2.failover_state = _
        rw [hsame]
        exact ⟨moves_of_samePlace rfl rfl rfl (.inr (.inl rfl)) (samePlace_refl _) fun _ => rfl, rfl⟩
      · show current_epoch ≤ (sentinelVoteLeader _ _ _ _ _ _).1
        exact vote_epoch_le o runid current_epoch m _ _
  obtain ⟨⟨hmoves, hsame⟩, hle⟩ := hvoted
  dsimp only at h
  split at h
  · split at h
    · obtain ⟨m', habort, h⟩ := bind_ok h
      rw [← Except.ok.inj h]
      exact ⟨hmoves.after hsame (abort_moves habort), hle⟩
    · rw [← Except.ok.inj h]
      exact ⟨hmoves, hle⟩
  · rw [← Except.ok.inj h]
    refine ⟨hmoves.after hsame (moves_of_samePlace rfl rfl rfl (.inr (.inr (.inl ⟨?_, rfl⟩))) (samePlace_refl _)
      fun _ => rfl), hle⟩
    rw [hsame, hstate]
    rfl

theorem selectSlave_moves {numeric : Bytes → Prop} {o : Outside} {m m' : Master}
    (hstate : m.failover_state = .select_slave) (h : sentinelFailoverSelectSlave o m = .ok m') :
    Moves numeric m m' := by
  unfold sentinelFailoverSelectSlave at h
  split at h
  · exact abort_moves h
  · rename_i name _
    rw [← Except.ok.inj h]
    refine moves_of_samePlace rfl rfl rfl ?_ (samePlace_updateSlave
      (f := fun slave => { slave with promoted := true }) (fun _ => ⟨rfl, rfl⟩) name m.slaves) fun hlate => ?_
    · rw [hstate]
      exact progress_within (p := .select_slave) (q := .send_slaveof_noone) (by decide)
    · rw [hstate] at hlate
      exact absurd hlate (by decide)

theorem sendSlaveOfNoOne_moves {numeric : Bytes → Prop} {o : Outside} {m m' : Master}
    (hstate : m.failover_state = .send_slaveof_noone) (h : sentinelFailoverSendSlaveOfNoOne o m = .ok m') :
    Moves numeric m m' := by
  unfold sentinelFailoverSendSlaveOfNoOne at h
  obtain ⟨promoted, -, h⟩ := bind_ok h
  split at h
  · split at h
    · exact abort_moves h
    · rw [← Except.ok.inj h]
      exact .refl numeric m
  · split at h
    · rw [← Except.ok.inj h]
      refine moves_of_samePlace rfl rfl rfl ?_ (samePlace_refl _) fun _ => rfl
      rw [hstate]
      exact progress_within (p := .send_slaveof_noone) (q := .wait_promotion) (by decide)
    · rw [← Except.ok.inj h]
      exact .refl numeric m

theorem waitPromotion_moves {numeric : Bytes → Prop} {o : Outside} {m m' : Master}
    (h : sentinelFailoverWaitPromotion o m = .ok m') : Moves numeric m m' := by
  unfold sentinelFailoverWaitPromotion at h
  split at h
  · exact abort_moves h
  · rw [← Except.ok.inj h]
    exact .refl numeric m

theorem samePlace_reconfTimeout (now : Int) (a : Slave) : SamePlace a (reconfTimeout now a) := by
  unfold reconfTimeout
  split
  · exact ⟨rfl, rfl⟩
  · exact .refl a

theorem reconfLoop_samePlace {o : Outside} {m : Master} {in_progress : Nat} {l l' : List Slave}
    (h : reconfLoop o m in_progress l = .ok l') : List.Forall₂ SamePlace l l' := by
  induction l generalizing in_progress l' with
  | nil =>
    rw [← Except.ok.inj h]
    exact .nil
  | cons a l ih =>
    have htimeout := samePlace_reconfTimeout o.now a
    rw [reconfLoop] at h
    simp only [bind, pure, Except.pure] at h
    split at h
    · rw [← Except.ok.inj h]
      exact samePlace_refl _
    · split at h
      · obtain ⟨rest, hrest, h⟩ := bind_ok h
        rw [← Except.ok.inj h]
        exact .cons (.refl a) (ih hrest)
      · split at h
        · obtain ⟨rest, hrest, h⟩ := bind_ok h
          rw [← Except.ok.inj h]
          exact .cons htimeout (ih hrest)
        · obtain ⟨_, -, h⟩ := bind_ok h
          split at h
          · obtain ⟨rest, hrest, h⟩ := bind_ok h
            rw [← Except.ok.inj h]
            exact .cons htimeout (ih hrest)
          · obtain ⟨rest, hrest, h⟩ := bind_ok h
            rw [← Except.ok.inj h]
            exact .cons htimeout (ih hrest)

theorem reconfEnd_moves {numeric : Bytes → Prop} (o : Outside) {m : Master}
    (hstate : m.failover_state = .reconf_slaves) : Moves numeric m (reconfEnd o m) := by
  unfold reconfEnd
  extract_lets
  split
  · refine moves_of_samePlace rfl rfl rfl ?_ (samePlace_refl _) fun _ => rfl
    rw [hstate]
    exact .inr (.inr (.inr (.inr ⟨rfl, rfl⟩)))
  · exact .refl numeric m

theorem detectEnd_moves {numeric : Bytes → Prop} {o : Outside} {m m' : Master}
    (hstate : m.failover_state = .reconf_slaves) (h : sentinelFailoverDetectEnd o m = .ok m') :
    Moves numeric m m' := by
  have hend : Moves numeric m (reconfEnd o m) := reconfEnd_moves o hstate
  unfold sentinelFailoverDetectEnd at h
  split at h
  · rw [← Except.ok.inj h]
    exact .refl numeric m
  · obtain ⟨promoted, -, h⟩ := bind_ok h
    split at h
    · rw [← Except.ok.inj h]
      exact .refl numeric m
    · split at h
      · rw [← Except.ok.inj h]
        refine moves_of_samePlace hend.config_epoch hend.failover_epoch hend.addr hend.state
          (samePlace_map (fun a => ?_) m.slaves) hend.promoted
        split
        · exact ⟨rfl, rfl⟩
        · exact .refl a
      · rw [← Except.ok.inj h]
        exact hend

theorem reconfNextSlave_moves {numeric : Bytes → Prop} {o : Outside} {m m' : Master}
    (hstate : m.failover_state = .reconf_slaves) (h : sentinelFailoverReconfNextSlave o m = .ok m') :
    Moves numeric m m' := by
  unfold sentinelFailoverReconfNextSlave at h
  obtain ⟨slaves, hloop, h⟩ := bind_ok h
  have hslaves : Moves numeric m { m with slaves := slaves } :=
    moves_of_samePlace rfl rfl rfl (.inr (.inl rfl)) (reconfLoop_samePlace hloop) fun _ => rfl
  exact hslaves.after rfl (detectEnd_moves (m := { m with slaves := slaves }) hstate h)

theorem stateMachine_moves {numeric : Bytes → Prop} {o : Outside} {runid : Bytes} {current_epoch : Nat}
    {m : Master} {r : Nat × Master} (h : sentinelFailoverStateMachine o runid current_epoch m = .ok r) :
    Moves numeric m r.2 ∧ current_epoch ≤ r.1 := by
  unfold sentinelFailoverStateMachine at h
  split at h
  · rw [← Except.ok.inj h]
    exact ⟨.refl numeric m, Nat.le_refl _⟩
  · split at h
    · exact waitStart_moves ‹_› h
    · obtain ⟨m', hm', rfl⟩ := map_ok h
      exact ⟨selectSlave_moves ‹_› hm', Nat.le_refl _⟩
    · obtain ⟨m', hm', rfl⟩ := map_ok h
      exact ⟨sendSlaveOfNoOne_moves ‹_› hm', Nat.le_refl _⟩
    · obtain ⟨m', hm', rfl⟩ := map_ok h
      exact ⟨waitPromotion_moves hm', Nat.le_refl _⟩
    · obtain ⟨m', hm', rfl⟩ := map_ok h
      exact ⟨reconfNextSlave_moves ‹_› hm', Nat.le_refl _⟩
    · rw [← Except.ok.inj h]
      exact ⟨.refl numeric m, Nat.le_refl _⟩

/-! ## New addresses -/

theorem createSentinelAddr_valid {numeric : Bytes → Prop} {o : Outside} (ho : SoundResolve numeric o)
    {hostname : Bytes} {port : Int} {a : Addr} (h : createSentinelAddr o hostname port = some a) :
    a.Valid numeric := by
  unfold createSentinelAddr at h
  split at h
  · cases h
  · rename_i hport
    obtain ⟨ip, hip, rfl⟩ := Option.map_eq_some_iff.mp h
    obtain ⟨hpos, hle⟩ := not_or.mp hport
    exact ⟨ho.1 hostname ip hip, not_le.mp hpos, not_lt.mp hle⟩

theorem createSentinelAddr_self {numeric : Bytes → Prop} {o : Outside} (ho : SoundResolve numeric o) {a : Addr}
    (h : a.Valid numeric) : createSentinelAddr o a.ip a.port = some a := by
  obtain ⟨hip, hpos, hle⟩ := h
  unfold createSentinelAddr
  rw [if_neg (not_or.mpr ⟨not_le.mpr hpos, not_lt.mpr hle⟩), ho.2 a.ip hip]
  rfl

/-- More slaves at valid addresses, and the same configuration. -/
structure Extends (numeric : Bytes → Prop) (m m' : Master) : Prop where
  config_epoch : m'.config_epoch = m.config_epoch
  failover_epoch : m'.failover_epoch = m.failover_epoch
  addr : m'.addr = m.addr
  state : m'.failover_state = m.failover_state
  in_progress : m'.failover_in_progress = m.failover_in_progress
  promoted : m'.promoted_slave = m.promoted_slave
  found : Found m.slaves m'.slaves
  places : Places numeric m → Places numeric m'

theorem Extends.refl (numeric : Bytes → Prop) (m : Master) : Extends numeric m m :=
  ⟨rfl, rfl, rfl, rfl, rfl, rfl, found_refl _, id⟩

theorem addSlave_extends {numeric : Bytes → Prop} {o : Outside} (ho : SoundResolve numeric o) (m : Master)
    (name : Addr) : Extends numeric m (addSlave o m name) := by
  unfold addSlave createSlave
  split
  · exact .refl numeric m
  · rename_i addr haddr
    split
    · exact .refl numeric m
    · refine ⟨rfl, rfl, rfl, rfl, rfl, rfl, fun n a ha => ⟨a, ?_, rfl⟩, fun h => ⟨h.addr, fun slave hslave => ?_⟩⟩
      · show (m.slaves ++ _).find? _ = some a
        rw [List.find?_append, ha]
        rfl
      · rcases List.mem_append.mp hslave with hslave | hslave
        · exact h.slaves slave hslave
        · rw [List.mem_singleton.mp hslave]
          exact createSentinelAddr_valid ho haddr

theorem foldl_addSlave_extends {numeric : Bytes → Prop} {o : Outside} (ho : SoundResolve numeric o)
    (names : List Addr) (m : Master) : Extends numeric m (names.foldl (addSlave o) m) := by
  induction names generalizing m with
  | nil => exact .refl numeric m
  | cons name names ih =>
    have h := addSlave_extends ho m name
    have h' := ih (addSlave o m name)
    refine ⟨h'.config_epoch.trans h.config_epoch, h'.failover_epoch.trans h.failover_epoch, h'.addr.trans h.addr,
      h'.state.trans h.state, h'.in_progress.trans h.in_progress, h'.promoted.trans h.promoted,
      fun n a ha => ?_, fun hm => h'.places (h.places hm)⟩
    obtain ⟨b, hb, hbaddr⟩ := h.found n a ha
    obtain ⟨c, hc, hcaddr⟩ := h'.found n b hb
    exact ⟨c, hc, hcaddr.trans hbaddr⟩

/-- The master at another address, with no failover. -/
structure MovesTo (numeric : Bytes → Prop) (a : Addr) (m m' : Master) : Prop where
  config_epoch : m'.config_epoch = m.config_epoch
  addr : m'.addr = a
  state : m'.failover_state = .none
  in_progress : m'.failover_in_progress = false
  places : Places numeric m'

theorem changeAddress_movesTo {numeric : Bytes → Prop} {o : Outside} (ho : SoundResolve numeric o) {a : Addr}
    (ha : a.Valid numeric) (m : Master) :
    MovesTo numeric a m ((sentinelResetMasterAndChangeAddress o a.ip a.port m).getD m) := by
  have hfold : ∀ names, MovesTo numeric a m (List.foldl (addSlave o)
      { sentinelResetMaster o.now true m with addr := a, s_down_since_time := 0 } names) := fun names => by
    have hext := foldl_addSlave_extends ho names
      { sentinelResetMaster o.now true m with addr := a, s_down_since_time := 0 }
    exact ⟨hext.config_epoch, hext.addr, hext.state, hext.in_progress,
      hext.places ⟨ha, fun slave hslave => absurd hslave List.not_mem_nil⟩⟩
  unfold sentinelResetMasterAndChangeAddress
  rw [createSentinelAddr_self ho ha]
  exact hfold _

/-! ## One step of one Sentinel -/

/-- The failover starts, and may have come to its end or to the choice of a slave. -/
structure Starts (numeric : Bytes → Prop) (e e' : Nat) (m m' : Master) : Prop where
  idle : m.failover_state = .none
  config_epoch : m'.config_epoch = m.config_epoch
  addr : m'.addr = m.addr
  state : m'.failover_state.code ≤ 2
  failover_epoch : e < m'.failover_epoch ∧ m'.failover_epoch ≤ e'
  places : Places numeric m → Places numeric m'

/-- The promotion was seen. -/
structure Promotes (numeric : Bytes → Prop) (m m' : Master) : Prop where
  waiting : m.failover_state.code = 4
  state : m'.failover_state.code = 5
  config_epoch : m'.config_epoch = m.failover_epoch
  failover_epoch : m'.failover_epoch = m.failover_epoch
  places : Places numeric m → Places numeric m'

inductive Goes (numeric : Bytes → Prop) (e e' : Nat) (m m' : Master) : Prop where
  | moves (h : Moves numeric m m') (he : e ≤ e')
  | starts (h : Starts numeric e e' m m')
  | promotes (h : Promotes numeric m m') (he : e ≤ e')
  | switches (h : MovesTo numeric (sentinelGetCurrentMasterAddress m) m m') (he : e ≤ e')

theorem Goes.same {numeric : Bytes → Prop} {e : Nat} {m m' : Master} (h : Moves numeric m m') :
    Goes numeric e e m m' := .moves h (Nat.le_refl e)

theorem Extends.goes {numeric : Bytes → Prop} {e : Nat} {m m' : Master} (h : Extends numeric m m') :
    Goes numeric e e m m' :=
  .same ⟨h.config_epoch, h.failover_epoch, h.addr, .inr (.inl (by rw [h.state])), h.found, h.places,
    fun _ => h.promoted⟩

theorem idle_of_not_in_progress {m : Master} (hinv : Inv m) (h : ¬ m.failover_in_progress = true) :
    m.failover_state = .none := by
  by_contra hstate
  exact h (hinv.in_progress.mpr hstate)

theorem startFailover_starts {numeric : Bytes → Prop} {o : Outside} {e : Nat} {m : Master}
    (hidle : m.failover_state = .none) (hepoch : e + 1 < 2 ^ 64) :
    Starts numeric e (sentinelStartFailover o e m).1 m (sentinelStartFailover o e m).2 := by
  have hmod : (e + 1) % 2 ^ 64 = e + 1 := Nat.mod_eq_of_lt hepoch
  unfold sentinelStartFailover
  rw [hmod]
  exact ⟨hidle, rfl, rfl, Nat.le_succ 1, ⟨Nat.lt_succ_self e, Nat.le_refl _⟩, fun h => ⟨h.addr, h.slaves⟩⟩

theorem handleMaster_goes {numeric : Bytes → Prop} {o : Outside} {s_down o_down : Bool} {s : SentinelState}
    {m : Master} {r : Nat × Master} (hinv : Inv m)
    (hfine : s.tilt = false → (atStateMachine o s_down o_down s m).2.failover_in_progress = true →
      m.failover_in_progress = true ∨ s.current_epoch + 1 < 2 ^ 64)
    (h : handleMaster o s_down o_down s m = .ok r) : Goes numeric s.current_epoch r.1 m r.2 := by
  unfold handleMaster at h
  split at h
  · rw [← Except.ok.inj h]
    exact .same (.refl numeric m)
  · rename_i htilt
    have hdown : Moves numeric m (setDown o.now s_down o_down m) :=
      moves_of_samePlace rfl rfl rfl (.inr (.inl rfl)) (samePlace_refl _) fun _ => rfl
    dsimp only at h
    by_cases hstart : sentinelStartFailoverIfNeeded o s.current_epoch (setDown o.now s_down o_down m) =
        (s.current_epoch, setDown o.now s_down o_down m)
    · rw [hstart] at h
      obtain ⟨hmoves, hle⟩ : Moves numeric _ r.2 ∧ _ := stateMachine_moves h
      exact .moves (hdown.after rfl hmoves) hle
    · have hstarted : sentinelStartFailoverIfNeeded o s.current_epoch (setDown o.now s_down o_down m) =
          sentinelStartFailover o s.current_epoch (setDown o.now s_down o_down m) ∧
          ¬ m.failover_in_progress = true := by
        unfold sentinelStartFailoverIfNeeded at hstart ⊢
        split at hstart
        · exact absurd rfl hstart
        · split at hstart
          · exact absurd rfl hstart
          · rename_i hdown' hidle
            split at hstart
            · exact absurd rfl hstart
            · rename_i htime
              rw [if_neg hdown', if_neg hidle, if_neg htime]
              exact ⟨rfl, hidle⟩
      obtain ⟨hr', hidle⟩ := hstarted
      have hepoch : s.current_epoch + 1 < 2 ^ 64 := by
        have hprogress : (atStateMachine o s_down o_down s m).2.failover_in_progress = true := by
          unfold atStateMachine
          rw [hr']
          rfl
        exact (hfine (Bool.eq_false_iff.mpr htilt) hprogress).resolve_left hidle
      have hstarts : Starts numeric s.current_epoch _ (setDown o.now s_down o_down m) _ := startFailover_starts
        (o := o) (idle_of_not_in_progress (setDown_inv hinv o.now s_down o_down) hidle) hepoch
      rw [hr'] at h
      obtain ⟨hmoves, hle⟩ : Moves numeric _ r.2 ∧ _ := stateMachine_moves h
      have hcode := hmoves.state
      have hone : (sentinelStartFailover o s.current_epoch
        (setDown o.now s_down o_down m)).2.failover_state.code = 1 := rfl
      unfold Progress at hcode
      refine .starts ⟨hstarts.idle, hmoves.config_epoch.trans hstarts.config_epoch,
        hmoves.addr.trans hstarts.addr, by omega, ?_, fun h => hmoves.places (hstarts.places (hdown.places h))⟩
      rw [hmoves.failover_epoch]
      exact ⟨hstarts.failover_epoch.1, hstarts.failover_epoch.2.trans hle⟩

theorem failoverCommand_goes {numeric : Bytes → Prop} {o : Outside} {e : Nat} {m : Master} (hinv : Inv m)
    (hfine : m.failover_in_progress = false → o.selected ≠ none → e + 1 < 2 ^ 64) :
    Goes numeric e (failoverCommand o e m).1 m (failoverCommand o e m).2 := by
  unfold failoverCommand
  split
  · exact .same (.refl numeric m)
  · rename_i hidle
    split
    · exact .same (.refl numeric m)
    · rename_i hselected
      have hstarts : Starts numeric e _ m _ := startFailover_starts (o := o) (idle_of_not_in_progress hinv hidle)
        (hfine (Bool.eq_false_iff.mpr hidle) hselected)
      exact .starts ⟨hstarts.idle, hstarts.config_epoch, hstarts.addr, hstarts.state, hstarts.failover_epoch,
        fun h => ⟨(hstarts.places h).addr, (hstarts.places h).slaves⟩⟩

theorem switch_goes {numeric : Bytes → Prop} {o : Outside} (ho : SoundResolve numeric o) {e : Nat} {m m' : Master}
    (hinv : Inv m) (hplaces : Places numeric m) (hstate : m.failover_state = .update_config)
    (h : sentinelFailoverSwitchToPromotedSlave o m = .ok m') : Goes numeric e e m m' := by
  obtain ⟨name, slave, hname, hslave, -, hpromoted, haddr⟩ := currentAddress_late hinv (by rw [hstate]; decide)
  unfold sentinelFailoverSwitchToPromotedSlave at h
  rw [hname, hpromoted] at h
  rw [← Except.ok.inj h]
  have hmoves := changeAddress_movesTo ho (hplaces.slaves slave hslave) m
  refine .switches ?_ (Nat.le_refl e)
  rw [haddr]
  exact hmoves

/-! ## Replies to INFO -/

theorem samePlace_replace {m : Master} (hinv : Inv m) {name : Addr} {ri slave : Slave}
    (hlookup : sentinelRedisInstanceLookupSlave m name = some ri) (hslave : SamePlace ri slave) :
    List.Forall₂ SamePlace m.slaves (updateSlave name (fun _ => slave) m.slaves) := by
  obtain ⟨hri, hname⟩ := lookup_mem hlookup
  unfold updateSlave
  rw [List.forall₂_map_right_iff, List.forall₂_same]
  intro a ha
  show SamePlace a (if a.name = name then slave else a)
  by_cases hsame : a.name = name
  · rw [if_pos hsame, List.inj_on_of_nodup_map hinv.names ha hri (hsame.trans hname.symm)]
    exact hslave
  · rw [if_neg hsame]
    exact .refl a

theorem reconfInprog_samePlace {m : Master} {slave slave' : Slave} (h : reconfInprog m slave = .ok slave') :
    SamePlace slave (reconfDone slave') := by
  have hdone : ∀ a, SamePlace a (reconfDone a) := fun a => by
    unfold reconfDone
    split
    · exact ⟨rfl, rfl⟩
    · exact .refl a
  unfold reconfInprog at h
  split at h
  · rw [← Except.ok.inj h]
    exact hdone slave
  · split at h
    · rw [← Except.ok.inj h]
      exact hdone slave
    · obtain ⟨promoted, -, rfl⟩ := map_ok h
      split
      · exact hdone { slave with reconf_sent := false, reconf_inprog := true }
      · exact hdone slave

theorem actOnRole_inv {o : Outside} {tilt : Bool} {role : Option Role} {slave : Slave} {m m' : Master}
    (hinv : Inv m) (hslave : slave ∈ m.slaves) (h : actOnRole o tilt role slave m = .ok m') : Inv m' := by
  obtain ⟨m'', hm'', hinv', -⟩ := actOnRole_keeps o tilt role hinv hslave fun htilt hrole hport hhost => by
    unfold actOnRole at h
    rw [htilt, hrole] at h
    simp only [Bool.false_eq_true, if_false, hport, hhost, and_self, if_true] at h
    cases h
  rw [hm''] at h
  rw [← Except.ok.inj h]
  exact hinv'

theorem actOnRole_goes {numeric : Bytes → Prop} {o : Outside} {tilt : Bool} {role : Option Role} {slave : Slave}
    {m m' : Master} (hinv : Inv m) (hslave : slave ∈ m.slaves) (h : actOnRole o tilt role slave m = .ok m') :
    Moves numeric m m' ∨ Promotes numeric m m' := by
  unfold actOnRole at h
  split at h
  · rw [← Except.ok.inj h]
    exact .inl (.refl numeric m)
  · split at h
    · rw [← Except.ok.inj h]
      exact .inl (.refl numeric m)
    · split at h
      · rename_i hwait
        rw [← Except.ok.inj h]
        exact .inr ⟨by rw [hwait.2]; rfl, rfl, rfl, rfl, fun h => ⟨h.addr, h.slaves⟩⟩
      · rw [← Except.ok.inj h]
        exact .inl (.refl numeric m)
    · split at h
      · cases h
      · split at h
        · obtain ⟨slave', hslave', rfl⟩ := map_ok h
          exact .inl (moves_of_samePlace rfl rfl rfl (.inr (.inl rfl))
            (samePlace_replace hinv (lookup_of_mem hinv hslave) (reconfInprog_samePlace hslave')) fun _ => rfl)
        · rw [← Except.ok.inj h]
          exact .inl (.refl numeric m)

theorem refreshSlave_inv {o : Outside} {tilt : Bool} {lines : List InfoLine} {name : Addr} {m m' : Master}
    (hinv : Inv m) (h : refreshSlave o tilt lines name m = .ok m') : Inv m' := by
  unfold refreshSlave at h
  split at h
  · rw [← Except.ok.inj h]
    exact hinv
  · rename_i ri hlookup
    extract_lets r slave at h
    have hreplied := replied hinv o lines hlookup r.1
    exact actOnRole_inv hreplied.inv hreplied.mem h

theorem refreshSlave_goes {numeric : Bytes → Prop} {o : Outside} {tilt : Bool} {lines : List InfoLine}
    {name : Addr} {e : Nat} {m m' : Master} (hinv : Inv m) (h : refreshSlave o tilt lines name m = .ok m') :
    Goes numeric e e m m' := by
  unfold refreshSlave at h
  split at h
  · rw [← Except.ok.inj h]
    exact .same (.refl numeric m)
  · rename_i ri hlookup
    extract_lets r slave at h
    have hreplied := replied hinv o lines hlookup r.1
    have hmoves : Moves numeric m { m with slaves := updateSlave name (fun _ => slave) m.slaves } :=
      moves_of_samePlace rfl rfl rfl (.inr (.inl rfl)) (samePlace_replace hinv hlookup ⟨rfl, rfl⟩) fun _ => rfl
    have hcase : Moves numeric _ m' ∨ Promotes numeric _ m' := actOnRole_goes hreplied.inv hreplied.mem h
    rcases hcase with hmoves' | hpromotes
    · exact .same (hmoves.after rfl hmoves')
    · exact .promotes ⟨hpromotes.waiting, hpromotes.state, hpromotes.config_epoch, hpromotes.failover_epoch,
        fun h => hpromotes.places (hmoves.places h)⟩ (Nat.le_refl e)

/-! ## Every event -/

structure GoesAt (numeric : Bytes → Prop) (name : Bytes) (s s' : SentinelState) : Prop where
  epoch : s.current_epoch ≤ s'.current_epoch
  others : ∀ other, other ≠ name → s'.masters other = s.masters other
  master : ∀ m', s'.masters name = some m' →
    ∃ m, s.masters name = some m ∧ Goes numeric s.current_epoch s'.current_epoch m m'

theorem GoesAt.same {numeric : Bytes → Prop} (name : Bytes) {s s' : SentinelState}
    (hepoch : s'.current_epoch = s.current_epoch) (hmasters : s'.masters = s.masters) :
    GoesAt numeric name s s' := by
  refine ⟨hepoch.ge, fun other _ => congrFun hmasters other, fun m' hm' => ?_⟩
  rw [hmasters] at hm'
  rw [hepoch]
  exact ⟨m', hm', .same (.refl numeric m')⟩

theorem Goes.le {numeric : Bytes → Prop} {e e' : Nat} {m m' : Master} (h : Goes numeric e e' m m') : e ≤ e' := by
  cases h with
  | moves _ he => exact he
  | starts h => exact (h.failover_epoch.1.trans_le h.failover_epoch.2).le
  | promotes _ he => exact he
  | switches _ he => exact he

theorem onMaster_goesAt {numeric : Bytes → Prop} {s s' : SentinelState} {name : Bytes}
    {f : Master → Except Fault (Nat × Master)}
    (hf : ∀ m r, s.masters name = some m → f m = .ok r → Goes numeric s.current_epoch r.1 m r.2)
    (h : onMaster s name f = .ok s') : GoesAt numeric name s s' := by
  rcases onMaster_cases h with ⟨-, rfl⟩ | ⟨m, r, hm, hr, rfl⟩
  · exact .same name rfl rfl
  · have hgoes := hf m r hm hr
    refine ⟨hgoes.le, fun other hne => setMaster_of_ne _ hne _, fun m' hm' => ⟨m, hm, ?_⟩⟩
    rw [setMaster_self, Option.some.injEq] at hm'
    rw [← hm']
    exact hgoes

theorem own_goesAt {numeric : Bytes → Prop} {o : Outside} {v : Addr} {w : World} {s' : SentinelState} {e : Event}
    (ho : SoundResolve numeric o) (hinv : SentinelInv (w.sentinel v))
    (hplaces : ∀ name m, (w.sentinel v).masters name = some m → Places numeric m) (hown : e.isOwn = true)
    (hpossible : Possible o (w.sentinel v) e) (hfine : (Act.own v e).FineConfig w o)
    (h : step o (w.sentinel v) e = .ok s') : GoesAt numeric e.master (w.sentinel v) s' := by
  have hlike : ∀ m m' : Master, m'.config_epoch = m.config_epoch → m'.failover_epoch = m.failover_epoch →
      m'.addr = m.addr → m'.failover_state = m.failover_state → m'.promoted_slave = m.promoted_slave →
      List.Forall₂ SamePlace m.slaves m'.slaves →
      Goes numeric (w.sentinel v).current_epoch (w.sentinel v).current_epoch m m' :=
    fun m m' hconfig hfailover haddr hstate hpromoted hslaves => .same (moves_of_samePlace hconfig hfailover haddr
      (.inr (.inl (by rw [hstate]))) hslaves fun _ => hpromoted)
  cases e with
  | failover name =>
    refine onMaster_goesAt (fun m r hm hr => ?_) h
    rw [← Except.ok.inj hr]
    exact failoverCommand_goes (hinv name m hm) (hfine m hm)
  | set name quorum down_after_period failover_timeout parallel_syncs =>
    refine onMaster_goesAt (fun m r _ hr => ?_) h
    rw [← Except.ok.inj hr]
    exact hlike m _ rfl rfl rfl rfl rfl (samePlace_refl _)
  | timer name s_down o_down =>
    exact onMaster_goesAt (fun m r hm hr => handleMaster_goes (hinv name m hm) (hfine m hm) hr) h
  | switch name =>
    refine onMaster_goesAt (fun m r hm hr => ?_) h
    split at hr
    · obtain ⟨m', hm', rfl⟩ := map_ok hr
      exact switch_goes ho (hinv name m hm) (hplaces name m hm) ‹_› hm'
    · rw [← Except.ok.inj hr]
      exact .same (.refl numeric m)
  | tilt on =>
    rw [← Except.ok.inj h]
    exact .same _ rfl rfl
  | masterInfo name lines =>
    refine onMaster_goesAt (fun m r _ hr => ?_) h
    rw [← Except.ok.inj hr]
    unfold refreshMaster
    extract_lets r slaves
    have hext := foldl_addSlave_extends ho slaves m
    exact Extends.goes ⟨hext.config_epoch, hext.failover_epoch, hext.addr, hext.state, hext.in_progress,
      hext.promoted, hext.found, fun h => ⟨(hext.places h).addr, (hext.places h).slaves⟩⟩
  | slaveInfo name slave lines =>
    refine onMaster_goesAt (fun m r hm hr => ?_) h
    obtain ⟨m', hm', rfl⟩ := map_ok hr
    exact refreshSlave_goes (hinv name m hm) hm'
  | slaveLink name slave link =>
    refine onMaster_goesAt (fun m r _ hr => ?_) h
    rw [← Except.ok.inj hr]
    refine hlike m _ rfl rfl rfl rfl rfl (samePlace_map (fun a => ?_) m.slaves)
    split
    · exact ⟨rfl, rfl⟩
    · exact .refl a
  | rehash name slaves =>
    refine onMaster_goesAt (fun m r hm hr => ?_) h
    have hperm := hpossible m hm
    rw [← Except.ok.inj hr]
    exact .same ⟨rfl, rfl, rfl, .inr (.inl rfl), found_of_perm (hinv name m hm).names hperm,
      fun h => ⟨h.addr, fun slave hslave => h.slaves slave (hperm.subset hslave)⟩, fun _ => rfl⟩
  | monitor name ip port quorum => cases hown
  | remove name => cases hown
  | reset name => cases hown
  | hello h => cases hown
  | isMasterDown name req_epoch req_runid => cases hown
  | vote name sentinel leader leader_epoch => cases hown

theorem step_inv {o : Outside} {s s' : SentinelState} {e : Event} (hinv : SentinelInv s)
    (hpossible : Possible o s e) (h : step o s e = .ok s') : SentinelInv s' := by
  have hok : e.Fine o s → SentinelInv s' := fun hfine => by
    rcases step_ok o hinv hpossible hfine with herr | ⟨s'', hs'', hinv', -⟩
    · rw [herr] at h
      cases h
    · rw [hs''] at h
      rw [← Except.ok.inj h]
      exact hinv'
  cases e with
  | slaveInfo name slave lines =>
    rcases onMaster_cases h with ⟨-, rfl⟩ | ⟨m, r, hm, hr, rfl⟩
    · exact hinv
    · obtain ⟨m', hm', rfl⟩ := map_ok hr
      exact SentinelInv.set (s := { s with current_epoch := s.current_epoch }) hinv
        (refreshSlave_inv (hinv name m hm) hm')
  | _ => exact hok trivial

end RedisCluster.Sentinel
