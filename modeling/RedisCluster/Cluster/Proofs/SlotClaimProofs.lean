import RedisCluster.Cluster.SlotClaims
import RedisCluster.Cluster.Proofs.ChangeRunProofs

/-!
# Proofs: claims to slots

The loop of `clusterUpdateSlotsConfigWith` looks at each slot once, so the round of a slot finds it as it
was before the call. `Rebound` is what holds after the first rounds. The order of two heartbeats does not
matter because a heartbeat is a claim to an `EpochRegister`.
-/

namespace RedisCluster.Bus

open RedisCluster.Lib

variable {ν : Type}

def slotMarks (c : BusState ν) : (Nat → Option Addr) × List Nat :=
  (c.importing_slots_from, c.deletedSlots)

@[simp] theorem slotMarks_assert (cond : Bool) (what : Crash) (c : BusState ν) :
    slotMarks (redisAssert cond what c) = slotMarks c := by
  unfold redisAssert
  split <;> rfl

@[simp] theorem slotMarks_leaveMaster (n : Addr) (c : BusState ν) :
    slotMarks (leaveMaster n c) = slotMarks c := by
  unfold leaveMaster
  split
  · rfl
  · unfold clusterNodeRemoveSlave
    dsimp only
    split <;> rfl

@[simp] theorem slotMarks_addSlave (m s : Addr) (c : BusState ν) :
    slotMarks (clusterNodeAddSlave m s c) = slotMarks c := by
  unfold clusterNodeAddSlave
  split <;> rfl

@[simp] theorem slotMarks_delSlot (j : Nat) (c : BusState ν) :
    slotMarks (clusterDelSlot j c) = slotMarks c :=
  slotMarks_assert _ _ c

theorem crashed_assert (cond : Bool) (what : Crash) (c : BusState ν) :
    (redisAssert cond what c).crashed = c.crashed ∨ (redisAssert cond what c).crashed = some what := by
  unfold redisAssert
  split
  · exact Or.inl rfl
  · cases h : c.crashed with
    | none => exact Or.inr rfl
    | some x => exact Or.inl rfl

/-- What holds after the rounds of the slots below `n`. -/
structure Rebound (env : BusEnv ν) (sender : Addr) (epoch : Nat) (slots : Finset Nat) (c : BusState ν)
    (n : Nat) (r : Rebinding ν) : Prop where
  owner : ∀ j, r.cluster.slots j =
    if j < n ∧ slotGoes c epoch slots j then some sender else c.slots j
  dirty : r.dirty_slots = (List.range n).filter fun j =>
    c.slots j = some c.myself ∧ slotGoes c epoch slots j ∧ env.countKeysInSlot j ≠ 0
  only : OnlySlots c r.cluster
  marks : slotMarks r.cluster = slotMarks c
  crash : r.cluster.crashed = c.crashed ∨ r.cluster.crashed = some .clusterDelSlot

variable {env : BusEnv ν} {cur : Option Addr} {sender : Addr} {epoch : Nat} {slots : Finset Nat}
  {c : BusState ν}

theorem moveSlot_slots (sender : Addr) (j : Nat) (c : BusState ν) :
    (clusterAddSlot sender j (clusterDelSlot j c)).slots = Function.update c.slots j (some sender) := by
  have hfree : (clusterDelSlot j c).slots j = none := by
    rw [delSlot_slots, Function.update_self]
  rw [(addSlot_spec hfree).1, delSlot_slots, Function.update_idem]

theorem Rebound.sees {n : Nat} {r : Rebinding ν} (h : Rebound env sender epoch slots c n r) :
    r.cluster.slots n = c.slots n ∧ r.cluster.importing_slots_from = c.importing_slots_from ∧
      slotIsOlder r.cluster epoch n = slotIsOlder c epoch n := by
  have hslot : r.cluster.slots n = c.slots n := by
    rw [h.owner, if_neg fun hn => Nat.lt_irrefl n hn.1]
  refine ⟨hslot, congrArg Prod.fst h.marks, ?_⟩
  unfold slotIsOlder
  rw [hslot]
  split
  · rfl
  · rw [(h.only.node _).2.2]

theorem Rebound.stays {n : Nat} {r : Rebinding ν} (h : Rebound env sender epoch slots c n r)
    (hstay : slotGoes c epoch slots n = true → c.slots n = some sender) (hme : sender ≠ c.myself) :
    Rebound env sender epoch slots c (n + 1) r := by
  refine ⟨fun j => ?_, ?_, h.only, h.marks, h.crash⟩
  · rw [h.owner]
    by_cases hj : j = n
    · subst hj
      by_cases hgoes : slotGoes c epoch slots j = true
      · rw [if_neg fun hlt => Nat.lt_irrefl j hlt.1, if_pos ⟨Nat.lt_succ_self j, hgoes⟩, hstay hgoes]
      · rw [if_neg fun hlt => hgoes hlt.2, if_neg fun hlt => hgoes hlt.2]
    · have hiff : j < n ↔ j < n + 1 := by omega
      simp only [hiff]
  · have hnone : ¬ (c.slots n = some c.myself ∧ slotGoes c epoch slots n ∧ env.countKeysInSlot n ≠ 0) := by
      rintro ⟨hown, hgoes, -⟩
      rw [hstay hgoes] at hown
      exact hme (Option.some.inj hown)
    rw [h.dirty, List.range_succ, List.filter_append, List.filter_singleton, decide_eq_false hnone]
    exact (List.append_nil _).symm

theorem Rebound.moves {n : Nat} {r : Rebinding ν} (h : Rebound env sender epoch slots c n r)
    (hgoes : slotGoes c epoch slots n = true) (hme : sender ≠ c.myself) (newmaster : Bool) :
    Rebound env sender epoch slots c (n + 1)
      { cluster := clusterDoBeforeSleep (orTodo todoSave (orTodo todoUpdate todoFsync))
          (clusterAddSlot sender n (clusterDelSlot n r.cluster))
        newmaster := newmaster
        dirty_slots := if r.cluster.slots n = some r.cluster.myself ∧ env.countKeysInSlot n ≠ 0 ∧
          sender ≠ r.cluster.myself then r.dirty_slots ++ [n] else r.dirty_slots } := by
  obtain ⟨hslot, -, -⟩ := h.sees
  refine ⟨fun j => ?_, ?_, ?_, ?_, ?_⟩
  · show (clusterAddSlot sender n (clusterDelSlot n r.cluster)).slots j = _
    rw [moveSlot_slots]
    by_cases hj : j = n
    · rw [hj, Function.update_self, if_pos ⟨Nat.lt_succ_self n, hgoes⟩]
    · have hiff : j < n ↔ j < n + 1 := by omega
      rw [Function.update_of_ne hj, h.owner]
      simp only [hiff]
  · rw [hslot, h.only.myself, h.dirty, List.range_succ, List.filter_append, List.filter_singleton]
    by_cases hmine : c.slots n = some c.myself ∧ env.countKeysInSlot n ≠ 0
    · rw [if_pos ⟨hmine.1, hmine.2, hme⟩, decide_eq_true ⟨hmine.1, hgoes, hmine.2⟩]
      rfl
    · rw [if_neg fun hd => hmine ⟨hd.1, hd.2.1⟩, decide_eq_false fun hd => hmine ⟨hd.1, hd.2.2⟩]
      exact (List.append_nil _).symm
  · exact h.only.trans (((onlySlots_delSlot n _).trans (onlySlots_addSlot sender n _)).trans
      (onlySlots_todo _ _))
  · exact (slotMarks_delSlot n r.cluster).trans h.marks
  · rcases crashed_assert (slotBitSet r.cluster n) .clusterDelSlot r.cluster with hsame | hdel
    · exact h.crash.imp hsame.trans hsame.trans
    · exact Or.inr hdel

theorem Rebound.round {n : Nat} {r : Rebinding ν} (h : Rebound env sender epoch slots c n r)
    (hn : n < REDIS_CLUSTER_SLOTS) (hme : sender ≠ c.myself) :
    Rebound env sender epoch slots c (n + 1) (rebindSlot env cur sender epoch slots r n) := by
  obtain ⟨hslot, himport, holder⟩ := h.sees
  unfold rebindSlot
  dsimp only
  split
  case isTrue hskip =>
    refine h.stays (fun hgoes => ?_) hme
    simp only [slotGoes, Bool.and_eq_true, decide_eq_true_eq, Option.isNone_iff_eq_none] at hgoes
    rw [hslot, himport] at hskip
    rcases hskip with hout | hown | hsome
    · exact absurd hgoes.1.1.2 hout
    · exact hown
    · rw [hgoes.1.2] at hsome
      cases hsome
  case isFalse hskip =>
    rw [holder]
    rw [hslot, himport] at hskip
    push Not at hskip
    split
    case isTrue hold =>
      refine h.moves ?_ hme _
      simp only [slotGoes, Bool.and_eq_true, decide_eq_true_eq, Option.isNone_iff_eq_none]
      exact ⟨⟨⟨hn, hskip.1⟩, by simpa using hskip.2.2⟩, hold⟩
    case isFalse hnew =>
      refine h.stays (fun hgoes => absurd ?_ hnew) hme
      simp only [slotGoes, Bool.and_eq_true] at hgoes
      exact hgoes.2

theorem rebound_slots (env : BusEnv ν) (epoch : Nat) (slots : Finset Nat) (hme : sender ≠ c.myself) :
    Rebound env sender epoch slots c REDIS_CLUSTER_SLOTS (rebindSlots env sender epoch slots c) := by
  suffices hfold : ∀ n ≤ REDIS_CLUSTER_SLOTS, Rebound env sender epoch slots c n
      ((List.range n).foldl (rebindSlot env (curmaster c) sender epoch slots) ⟨c, false, []⟩) from
    hfold _ (Nat.le_refl _)
  intro n hn
  induction n with
  | zero =>
    refine ⟨fun j => ?_, rfl, OnlySlots.refl c, rfl, Or.inl rfl⟩
    exact (if_neg fun hj => Nat.not_lt_zero j hj.1).symm
  | succ n ih =>
    rw [List.range_succ, List.foldl_append]
    exact (ih (Nat.le_of_succ_le hn)).round hn hme

theorem setMaster_marks (n : Addr) (c : BusState ν) :
    (clusterSetMaster n c).deletedSlots = c.deletedSlots ∧
      ∀ j, c.importing_slots_from j = none → (clusterSetMaster n c).importing_slots_from j = none := by
  have hmarks : slotMarks (clusterSetMaster n c) = slotMarks c ∨
      slotMarks (clusterSetMaster n c) = (fun _ => none, c.deletedSlots) := by
    unfold clusterSetMaster
    dsimp only
    have h1 := slotMarks_assert (n ≠ c.myself) .clusterSetMaster c
    generalize redisAssert (n ≠ c.myself) .clusterSetMaster c = c1 at h1 ⊢
    have h2 := (slotMarks_assert ((c1.node c1.myself).numslots = 0) .clusterSetMaster c1).trans h1
    generalize redisAssert ((c1.node c1.myself).numslots = 0) .clusterSetMaster c1 = c2 at h2 ⊢
    show slotMarks (clusterNodeAddSlave n _ _) = _ ∨ slotMarks (clusterNodeAddSlave n _ _) = _
    rw [slotMarks_addSlave]
    split
    · exact Or.inr (congrArg (Prod.mk _) (congrArg Prod.snd h2))
    · exact Or.inl ((slotMarks_leaveMaster c2.myself c2).trans h2)
  generalize clusterSetMaster n c = d at hmarks ⊢
  rcases hmarks with h | h
  · exact ⟨congrArg Prod.snd h, fun j hj => (congrFun (congrArg Prod.fst h) j).trans hj⟩
  · exact ⟨congrArg Prod.snd h, fun j _ => congrFun (congrArg Prod.fst h) j⟩

theorem mem_addSlave (m s : Addr) (c : BusState ν) : s ∈ (clusterNodeAddSlave m s c).slavesOf m := by
  unfold clusterNodeAddSlave
  split
  · assumption
  · rw [slavesOf_modInfo_self]
    dsimp only
    rw [List.take_of_length_le]
    · exact List.mem_append_right _ (List.mem_singleton_self s)
    · rw [List.length_append, List.length_take, List.length_singleton]
      exact Nat.add_le_add_right (Nat.min_le_left _ _) 1

theorem isSlaveOf_setMaster (n : Addr) (c : BusState ν) : IsSlaveOf (clusterSetMaster n c) n := by
  unfold clusterSetMaster
  dsimp only
  generalize redisAssert _ _ (redisAssert (n ≠ c.myself) .clusterSetMaster c) = b
  have hrole : ∃ d : BusState ν, d = (if b.nodeIsMaster b.myself then
        clusterCloseAllSlots (setSlaveFlag b.myself b) else leaveMaster b.myself b) ∧
      (d.node d.myself).flags.master = false := by
    refine ⟨_, rfl, ?_⟩
    split
    case isTrue hmaster =>
      simp [setSlaveFlag, clusterCloseAllSlots, BusState.modNode, BusState.lift, ClusterState.setNode]
    case isFalse hmaster =>
      have hfalse : b.nodeIsMaster b.myself = false := by simpa using hmaster
      rw [leaveMaster_node, (keepsDict_leaveMaster _ b).myself]
      exact hfalse
  obtain ⟨d, hdef, hrole⟩ := hrole
  rw [← hdef]
  set e := d.modNode d.myself fun x => { x with slaveof := some n } with he
  have hnode : (clusterNodeAddSlave n e.myself e).node = e.node := addSlave_node n _ e
  have hmy : (clusterNodeAddSlave n e.myself e).myself = e.myself := (keepsDict_addSlave _ _ e).myself
  have hself : e.node e.myself = { d.node d.myself with slaveof := some n } := by
    simp [he, BusState.modNode, BusState.lift, ClusterState.setNode]
  refine ⟨?_, ?_, ?_⟩
  · show ((clusterNodeAddSlave n e.myself e).node (clusterNodeAddSlave n e.myself e).myself).flags.master = false
    rw [hmy, hnode, hself]
    exact hrole
  · show ((clusterNodeAddSlave n e.myself e).node (clusterNodeAddSlave n e.myself e).myself).slaveof = some n
    rw [hmy, hnode, hself]
  · show (clusterNodeAddSlave n e.myself e).myself ∈ (clusterNodeAddSlave n e.myself e).slavesOf n
    rw [hmy]
    exact mem_addSlave n _ e

theorem crashed_setMaster {n : Addr} {c : BusState ν} (hne : n ≠ c.myself)
    (hnone : (c.node c.myself).numslots = 0) : (clusterSetMaster n c).crashed = c.crashed := by
  have h1 : redisAssert (n ≠ c.myself) .clusterSetMaster c = c := by
    unfold redisAssert
    rw [if_pos (decide_eq_true hne)]
  have h2 : redisAssert ((c.node c.myself).numslots = 0) .clusterSetMaster c = c := by
    unfold redisAssert
    rw [if_pos (decide_eq_true hnone)]
  unfold clusterSetMaster
  dsimp only
  rw [h1, h2]
  have hadd : ∀ d : BusState ν, (clusterNodeAddSlave n d.myself d).crashed = d.crashed := by
    intro d
    unfold clusterNodeAddSlave
    split <;> rfl
  show (clusterNodeAddSlave n _ _).crashed = c.crashed
  rw [hadd]
  split
  · rfl
  · show (leaveMaster c.myself c).crashed = c.crashed
    unfold leaveMaster
    split
    · rfl
    · unfold clusterNodeRemoveSlave
      dsimp only
      split <;> rfl

theorem base_assert (cond : Bool) (what : Crash) (c : BusState ν) :
    (redisAssert cond what c).toClusterState = c.toClusterState := by
  unfold redisAssert
  split <;> rfl

theorem assert_true (what : Crash) (c : BusState ν) : redisAssert true what c = c := if_pos rfl

theorem slotGoes_iff {j : Nat} : slotGoes c epoch slots j = true ↔ j < REDIS_CLUSTER_SLOTS ∧ j ∈ slots ∧
    c.importing_slots_from j = none ∧ slotIsOlder c epoch j = true := by
  simp only [slotGoes, Bool.and_eq_true, decide_eq_true_eq, Option.isNone_iff_eq_none, and_assoc]

theorem Rebound.final {r : Rebinding ν} (h : Rebound env sender epoch slots c REDIS_CLUSTER_SLOTS r)
    (j : Nat) : r.cluster.slots j = if slotGoes c epoch slots j then some sender else c.slots j := by
  rw [h.owner]
  by_cases hgoes : slotGoes c epoch slots j = true
  · rw [if_pos ⟨(slotGoes_iff.mp hgoes).1, hgoes⟩, if_pos hgoes]
  · rw [if_neg fun hlt => hgoes hlt.2, if_neg hgoes]

theorem Rebound.dirty_eq {r : Rebinding ν} (h : Rebound env sender epoch slots c REDIS_CLUSTER_SLOTS r)
    (hme : sender ≠ c.myself) {c' : BusState ν} (hc' : c'.slots = r.cluster.slots) :
    r.dirty_slots = lostSlots env c c' := by
  rw [h.dirty]
  refine List.filter_congr fun j _ => decide_eq_decide.mpr ?_
  rw [hc', h.final]
  refine and_congr_right fun hown => and_congr_left fun _ => ?_
  by_cases hgoes : slotGoes c epoch slots j = true
  · rw [if_pos hgoes]
    exact ⟨fun _ hsame => hme (Option.some.inj hsame), fun _ => hgoes⟩
  · rw [if_neg hgoes]
    exact ⟨fun h => absurd h hgoes, fun hne => absurd hown hne⟩

theorem slotsUpdated (env : BusEnv ν) (epoch : Nat) (slots : Finset Nat) (hme : sender ≠ c.myself) :
    SlotsUpdated env sender epoch slots c (clusterUpdateSlotsConfigWith env sender epoch slots c) := by
  have hloop := rebound_slots env epoch slots hme
  unfold clusterUpdateSlotsConfigWith
  rw [if_neg hme]
  dsimp only
  generalize rebindSlots env sender epoch slots c = r at hloop ⊢
  have hbase := base_assert (!(r.newmaster && (curmaster c).isNone)) .nullPointer r.cluster
  have hmarks := slotMarks_assert (!(r.newmaster && (curmaster c).isNone)) .nullPointer r.cluster
  generalize redisAssert (!(r.newmaster && (curmaster c).isNone)) .nullPointer r.cluster = d at hbase hmarks ⊢
  have hslots : d.slots = r.cluster.slots := congrArg ClusterState.slots hbase
  have hdel : d.deletedSlots = c.deletedSlots := congrArg Prod.snd (hmarks.trans hloop.marks)
  split
  case isTrue =>
    have hset := isSlaveOf_setMaster sender d
    have htable := (keepsSlots_setMaster sender d).slots
    have hdeleted := (setMaster_marks sender d).1
    generalize clusterSetMaster sender d = e at hset htable hdeleted ⊢
    refine ⟨fun j => ?_, Or.inl ⟨⟨hset.role, hset.slaveof, hset.listed⟩, ?_⟩⟩
    · rw [← hloop.final, ← hslots]
      exact congrFun htable j
    · exact hdeleted.trans hdel
  case isFalse =>
    refine ⟨fun j => ?_, Or.inr ?_⟩
    · rw [← hloop.final, ← hslots]
    · show d.deletedSlots ++ r.dirty_slots = _
      rw [hdel]
      exact congrArg (c.deletedSlots ++ ·) (hloop.dirty_eq hme hslots)

theorem Rebound.numslots_myself {r : Rebinding ν}
    (h : Rebound env sender epoch slots c REDIS_CLUSTER_SLOTS r) (hme : sender ≠ c.myself) (hc : TableOk c)
    (hr : TableOk r.cluster) (hnone : (c.node c.myself).numslots = 0) :
    (r.cluster.node c.myself).numslots = 0 := by
  have hmem : c.myself ∈ r.cluster.nodes := h.only.nodes ▸ hc.me
  have hempty : (c.node c.myself).slots = ∅ := Finset.card_eq_zero.mp ((hc.count _ hc.me).symm.trans hnone)
  rw [hr.count _ hmem, Finset.card_eq_zero, Finset.eq_empty_iff_forall_notMem]
  intro j hj
  have hown := (hr.owner j c.myself).mpr ⟨hmem, hj⟩
  rw [h.final] at hown
  split at hown
  · exact hme (Option.some.inj hown)
  · have hin := ((hc.owner j c.myself).mp hown).2
    rw [hempty] at hin
    exact Finset.notMem_empty j hin

theorem crashed_updateSlotsConfig (env : BusEnv ν) (epoch : Nat) (slots : Finset Nat)
    (hme : sender ≠ c.myself) (hc : TableOk c) (hs : sender ∈ c.nodes) (hdemote : CanBeDemoted c) :
    (clusterUpdateSlotsConfigWith env sender epoch slots c).crashed = c.crashed := by
  have hloop := rebound_slots env epoch slots hme
  have htable := (slotStep_rebindSlots env epoch slots hs).table hc
  unfold clusterUpdateSlotsConfigWith
  rw [if_neg hme]
  dsimp only
  generalize rebindSlots env sender epoch slots c = r at hloop htable ⊢
  have hcrash : r.cluster.crashed = c.crashed := hloop.crash.resolve_right htable.alive
  have hsome : (curmaster c).isNone = false := by
    unfold curmaster
    split
    · rfl
    · rename_i hslave
      have hmaster := (hdemote.resolve_left hslave).1
      cases hup : (c.node c.myself).slaveof with
      | none => exact absurd hup hmaster
      | some m => rfl
  rw [hsome, Bool.and_false, Bool.not_false, assert_true]
  split
  case isTrue hlast =>
    have hzero : (r.cluster.node r.cluster.myself).numslots = 0 := by
      rw [hloop.only.myself]
      by_cases hmaster : c.nodeIsMaster c.myself = true
      · have hcur : curmaster c = some c.myself := if_pos hmaster
        rw [hcur] at hlast
        simp only [losesLastSlot, Bool.and_eq_true, decide_eq_true_eq] at hlast
        exact hlast.2
      · exact hloop.numslots_myself hme hc htable (hdemote.resolve_left hmaster).2
    have hset := crashed_setMaster (hloop.only.myself ▸ hme) hzero
    generalize clusterSetMaster sender r.cluster = d at hset ⊢
    exact hset.trans hcrash
  case isFalse => exact hcrash

theorem importing_updateSlotsConfig (env : BusEnv ν) (epoch : Nat) (slots : Finset Nat)
    (hme : sender ≠ c.myself) {j : Nat} (hfree : c.importing_slots_from j = none) :
    (clusterUpdateSlotsConfigWith env sender epoch slots c).importing_slots_from j = none := by
  have hloop := rebound_slots env epoch slots hme
  unfold clusterUpdateSlotsConfigWith
  rw [if_neg hme]
  dsimp only
  generalize rebindSlots env sender epoch slots c = r at hloop ⊢
  have hmarks := slotMarks_assert (!(r.newmaster && (curmaster c).isNone)) .nullPointer r.cluster
  generalize redisAssert (!(r.newmaster && (curmaster c).isNone)) .nullPointer r.cluster = d at hmarks ⊢
  have hd : d.importing_slots_from j = none :=
    (congrFun (congrArg Prod.fst (hmarks.trans hloop.marks)) j).trans hfree
  split
  · have hset := (setMaster_marks sender d).2 j hd
    generalize clusterSetMaster sender d = e at hset ⊢
    exact hset
  · exact hd

theorem slotRegister_heartbeat (env : BusEnv ν) (hdr : BusMsg ν) {j : Nat} (hj : j < REDIS_CLUSTER_SLOTS)
    (hme : sender ≠ c.myself) (hfree : c.importing_slots_from j = none) :
    slotRegister (heartbeat env sender hdr c) j = (slotRegister c j).hear (slotClaim sender hdr j) := by
  have hepochs := setsEpochs_updateEpochs sender (hdr.request sender) c
  have hkeeps := keepsSlots_updateEpochs sender (hdr.request sender) c
  unfold heartbeat
  have hfree : (c.lift (updateEpochs sender (hdr.request sender))).importing_slots_from j = none := hfree
  generalize c.lift (updateEpochs sender (hdr.request sender)) = b at hepochs hkeeps hfree ⊢
  have hme : sender ≠ b.myself := hkeeps.myself ▸ hme
  have hlearn : (fun n => (b.node n).configEpoch) = (slotRegister c j).learn (slotClaim sender hdr j) :=
    funext hepochs.configEpoch
  have hslot : b.slots j = c.slots j := congrFun hkeeps.slots j
  have hold : slotIsOlder b hdr.configEpoch j = EpochRegister.isOlder (c.slots j)
      ((slotRegister c j).learn (slotClaim sender hdr j)) hdr.configEpoch := by
    rw [← hlearn, ← hslot]
    unfold slotIsOlder
    cases b.slots j <;> rfl
  have hgoes : slotGoes b hdr.configEpoch hdr.myslots j =
      (decide (j ∈ hdr.myslots) && slotIsOlder b hdr.configEpoch j) := by
    rw [slotGoes, decide_eq_true hj, hfree, Bool.true_and, Option.isNone_none, Bool.and_true]
  have howner := (slotsUpdated env hdr.configEpoch hdr.myslots hme).owner j
  have hsame := (calm_updateSlotsConfig env sender hdr.configEpoch hdr.myslots b).configEpoch
  refine EpochRegister.ext ?_ ?_
  · rw [hgoes, hold, hslot] at howner
    exact howner
  · exact (funext hsame).trans hlearn

theorem importing_heartbeat (env : BusEnv ν) (hdr : BusMsg ν) {j : Nat} (hme : sender ≠ c.myself)
    (hfree : c.importing_slots_from j = none) :
    (heartbeat env sender hdr c).importing_slots_from j = none := by
  have hmy : (c.lift (updateEpochs sender (hdr.request sender))).myself = c.myself :=
    (keepsSlots_updateEpochs sender (hdr.request sender) c).myself
  exact importing_updateSlotsConfig env hdr.configEpoch hdr.myslots (hmy ▸ hme) hfree

theorem myself_heartbeat (env : BusEnv ν) (sender : Addr) (hdr : BusMsg ν) (c : BusState ν) :
    (heartbeat env sender hdr c).myself = c.myself :=
  (calm_updateSlotsConfig env sender hdr.configEpoch hdr.myslots _).myself.trans
    (keepsSlots_updateEpochs sender (hdr.request sender) c).myself

theorem owner_heartbeats (env env' : BusEnv ν) {a b : Addr} (x y : BusMsg ν) {j : Nat}
    (hj : j < REDIS_CLUSTER_SLOTS) (ha : a ≠ c.myself) (hb : b ≠ c.myself)
    (hfree : c.importing_slots_from j = none) :
    (heartbeat env' b y (heartbeat env a x c)).slots j =
      (((slotRegister c j).hear (slotClaim a x j)).hear (slotClaim b y j)).owner := by
  have hb : b ≠ (heartbeat env a x c).myself := (myself_heartbeat env a x c).symm ▸ hb
  have hnext := slotRegister_heartbeat env' y hj hb (importing_heartbeat env x ha hfree)
  rw [slotRegister_heartbeat env x hj ha hfree] at hnext
  exact congrArg EpochRegister.owner hnext

/-- A call gives a claimed slot to the sender exactly when the slot is not imported and unassigned or older,
and this node becomes a slave of the sender or loses the keys of the lost slots. The order of two heartbeats
that are not older than what is known does not matter. -/
theorem slots_config_updated (env : BusEnv ν) (sender : Addr) (c : BusState ν) (hme : sender ≠ c.myself) :
    (∀ epoch slots,
      SlotsUpdated env sender epoch slots c (clusterUpdateSlotsConfigWith env sender epoch slots c) ∧
        (TableOk c → sender ∈ c.nodes → CanBeDemoted c →
          (clusterUpdateSlotsConfigWith env sender epoch slots c).crashed = c.crashed)) ∧
    ∀ (other : Addr) (hdr hdr' : BusMsg ν) (env1 env2 env3 : BusEnv ν), ∀ j < REDIS_CLUSTER_SLOTS,
      other ≠ c.myself → sender ≠ other → hdr.configEpoch ≠ hdr'.configEpoch →
      c.importing_slots_from j = none → (slotRegister c j).Newer (slotClaim sender hdr j) →
      (slotRegister c j).Newer (slotClaim other hdr' j) →
      (heartbeat env1 other hdr' (heartbeat env sender hdr c)).slots j =
        (heartbeat env3 sender hdr (heartbeat env2 other hdr' c)).slots j := by
  refine ⟨fun epoch slots => ⟨slotsUpdated env epoch slots hme,
    crashed_updateSlotsConfig env epoch slots hme⟩, ?_⟩
  intro other hdr hdr' env1 env2 env3 j hj hother hne hepoch hfree hnew hnew'
  rw [owner_heartbeats env env1 hdr hdr' hj hme hother hfree,
    owner_heartbeats env2 env3 hdr' hdr hj hother hme hfree]
  exact EpochRegister.owner_hear_comm hne hepoch hnew hnew'

def threeMasters (epoch1 epoch2 : Nat) (owner : Option Addr) : BusState Nat :=
  { busInit 0 0 0 false with
    nodes := [0, 1, 2]
    info := fun n => { (busInit 0 0 0 false).info n with name := n }
    node := fun n =>
      { flags := { master := true, slave := false, fail := false, myself := n = 0, handshake := false }
        slaveof := none, slots := if owner = some n then {0} else ∅
        numslots := if owner = some n then 1 else 0
        configEpoch := if n = 1 then epoch1 else if n = 2 then epoch2 else 0
        voted_time := 0, link := true }
    slots := fun j => if j = 0 then owner else none }

def slotHeartbeat (n epoch : Nat) (slots : Finset Nat) : BusMsg Nat :=
  { sender := n, myslots := slots, slaveof := none, port := 7000
    flags := ⟨⟨true, false, false, false, false⟩, false, false, false⟩
    currentEpoch := 10, configEpoch := epoch, offset := 0, paused := false, forceack := false
    data := .ping [] }

theorem slots_config_updated_three :
    SlotsUpdated (idleEnv 0 0) 1 5 {0} (threeMasters 5 4 none)
        (clusterUpdateSlotsConfigWith (idleEnv 0 0) 1 5 {0} (threeMasters 5 4 none)) ∧
      (heartbeat (idleEnv 0 0) 2 (slotHeartbeat 2 4 {0})
          (heartbeat (idleEnv 0 0) 1 (slotHeartbeat 1 5 {0}) (threeMasters 5 4 none))).slots 0 =
        (heartbeat (idleEnv 0 0) 1 (slotHeartbeat 1 5 {0})
          (heartbeat (idleEnv 0 0) 2 (slotHeartbeat 2 4 {0}) (threeMasters 5 4 none))).slots 0 := by
  have h := slots_config_updated (idleEnv 0 0) 1 (threeMasters 5 4 none) (by decide)
  exact ⟨(h.1 5 {0}).1, h.2 2 (slotHeartbeat 1 5 {0}) (slotHeartbeat 2 4 {0}) (idleEnv 0 0) (idleEnv 0 0)
    (idleEnv 0 0) 0 (by decide) (by decide) (by decide) (by decide) rfl ⟨by decide, by decide⟩
    ⟨by decide, by decide⟩⟩

/-- A claim of this node itself is discarded. The order matters if a heartbeat is older than the epoch this
node knows, and if one with a new epoch no longer claims a slot of its sender. -/
theorem claims_not_always_taken :
    (¬ SlotsUpdated (idleEnv 0 0) 0 1 {0} (threeMasters 5 4 none)
      (clusterUpdateSlotsConfigWith (idleEnv 0 0) 0 1 {0} (threeMasters 5 4 none))) ∧
    ((heartbeat (idleEnv 0 0) 2 (slotHeartbeat 2 4 {0})
          (heartbeat (idleEnv 0 0) 1 (slotHeartbeat 1 3 {0}) (threeMasters 5 4 none))).slots 0 = some 1 ∧
      (heartbeat (idleEnv 0 0) 1 (slotHeartbeat 1 3 {0})
          (heartbeat (idleEnv 0 0) 2 (slotHeartbeat 2 4 {0}) (threeMasters 5 4 none))).slots 0 = some 2) ∧
    ((heartbeat (idleEnv 0 0) 2 (slotHeartbeat 2 4 {0})
          (heartbeat (idleEnv 0 0) 1 (slotHeartbeat 1 5 ∅) (threeMasters 3 4 (some 1)))).slots 0 = some 1 ∧
      (heartbeat (idleEnv 0 0) 1 (slotHeartbeat 1 5 ∅)
          (heartbeat (idleEnv 0 0) 2 (slotHeartbeat 2 4 {0}) (threeMasters 3 4 (some 1)))).slots 0 =
        some 2) := by
  have horder : ∀ {c : BusState Nat} {a b : Addr} {x y : BusMsg Nat}, a ≠ c.myself → b ≠ c.myself →
      c.importing_slots_from 0 = none →
      (heartbeat (idleEnv 0 0) b y (heartbeat (idleEnv 0 0) a x c)).slots 0 =
        (((slotRegister c 0).hear (slotClaim a x 0)).hear (slotClaim b y 0)).owner :=
    fun ha hb hfree => owner_heartbeats _ _ _ _ (by decide) ha hb hfree
  refine ⟨fun h => ?_, ⟨?_, ?_⟩, ?_, ?_⟩
  · have hslot := h.owner 0
    have hdiscard : clusterUpdateSlotsConfigWith (idleEnv 0 0) 0 1 {0} (threeMasters 5 4 none) =
        threeMasters 5 4 none := if_pos rfl
    have hgoes : slotGoes (threeMasters 5 4 none) 1 {0} 0 = true := by decide
    rw [hdiscard, if_pos hgoes] at hslot
    cases hslot
  · exact (horder (by decide) (by decide) rfl).trans (by decide)
  · exact (horder (by decide) (by decide) rfl).trans (by decide)
  · exact (horder (by decide) (by decide) rfl).trans (by decide)
  · exact (horder (by decide) (by decide) rfl).trans (by decide)

end RedisCluster.Bus
