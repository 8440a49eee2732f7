import RedisCluster.Cluster.Proofs.SlotTableProofs

/-!
# Proofs: masters and slaves

`TopologyOk` adds to `Topology` the dict and that `myself` follows nobody while it is a master. Only
the functions that edit `slaveof` and the lists of slaves touch it; each of them is one edit of the
two-way relation, if the slave it removes is the last of its list.
-/

namespace RedisCluster.Bus

open RedisCluster.Lib

variable {ν : Type}

structure TopologyOk (c : BusState ν) : Prop extends Topology c, DictOk c where
  mine : c.nodeIsMaster c.myself = true → (c.node c.myself).slaveof = none

structure KeepsRoles (c c' : BusState ν) : Prop extends KeepsDict c c' where
  role : roleView c' = roleView c

namespace KeepsRoles

variable {a b c c' : BusState ν}

theorem refl (c : BusState ν) : KeepsRoles c c := ⟨KeepsDict.refl c, rfl⟩

theorem trans (h1 : KeepsRoles a b) (h2 : KeepsRoles b c) : KeepsRoles a c :=
  ⟨h1.toKeepsDict.trans h2.toKeepsDict, h2.role.trans h1.role⟩

theorem ite {p : Prop} [Decidable p] {x y : BusState ν} (hx : p → KeepsRoles c x)
    (hy : ¬ p → KeepsRoles c y) : KeepsRoles c (if p then x else y) := by
  split
  · exact hx ‹_›
  · exact hy ‹_›

theorem slaveof (h : KeepsRoles c c') (n : Addr) : (c'.node n).slaveof = (c.node n).slaveof :=
  congrFun (congrArg RoleView.slaveof h.role) n

theorem slaves (h : KeepsRoles c c') (n : Addr) :
    (c'.info n).slaves = (c.info n).slaves ∧ (c'.info n).numslaves = (c.info n).numslaves :=
  Prod.mk.inj (congrFun (congrArg RoleView.slaves h.role) n)

theorem slavesOf (h : KeepsRoles c c') (n : Addr) : c'.slavesOf n = c.slavesOf n := by
  unfold BusState.slavesOf
  rw [(h.slaves n).1, (h.slaves n).2]

theorem isMaster (h : KeepsRoles c c') (n : Addr) : c'.nodeIsMaster n = c.nodeIsMaster n :=
  (Prod.mk.inj (congrFun (congrArg RoleView.role h.role) n)).1

theorem isSlave (h : KeepsRoles c c') (n : Addr) : c'.nodeIsSlave n = c.nodeIsSlave n :=
  (Prod.mk.inj (congrFun (congrArg RoleView.role h.role) n)).2

theorem topologyOk (h : KeepsRoles c c') (hc : TopologyOk c) : TopologyOk c' := by
  refine ⟨⟨hc.toTwoWay.congr (fun n => by rw [h.nodes]) (fun n _ => h.slaveof n)
    fun n _ => h.slavesOf n, fun m hm => ?_⟩, h.dictOk hc.toDictOk, fun hmaster => ?_⟩
  · rw [h.nodes] at hm
    rw [h.slavesOf, (h.slaves m).2]
    exact hc.length m hm
  · rw [h.myself, h.isMaster] at hmaster
    rw [h.myself, h.slaveof]
    exact hc.mine hmaster

theorem leavesLast (h : KeepsRoles c c') {n : Addr} (hl : LeavesLast c n) : LeavesLast c' n := by
  intro m hm
  rw [h.slaveof] at hm
  rw [h.slavesOf]
  exact hl m hm

theorem turnOk (h : KeepsRoles c c') {n : Addr} (hl : TurnOk c n) : TurnOk c' n := by
  intro hm
  rw [h.isMaster] at hm
  exact h.leavesLast (hl hm)

theorem freeOk (h : KeepsRoles c c') {n : Addr} (hf : FreeOk c n) : FreeOk c' n := by
  refine ⟨h.leavesLast hf.1, fun s hs hsn => ?_⟩
  rw [h.nodes] at hs
  rw [h.slaveof]
  exact hf.2 s hs hsn

end KeepsRoles

theorem Mild.keepsRoles {c c' : BusState ν} (h : Mild c c') : KeepsRoles c c' :=
  ⟨h.keepsDict, h.role⟩

theorem OnlySlots.keepsRoles {c c' : BusState ν} (h : OnlySlots c c') : KeepsRoles c c' := by
  refine ⟨h.keepsDict, ?_⟩
  have h1 : (fun n => (c'.node n).slaveof) = fun n => (c.node n).slaveof :=
    funext fun n => (h.node n).2.1
  have h2 : (fun n => (c'.nodeIsMaster n, c'.nodeIsSlave n)) =
      fun n => (c.nodeIsMaster n, c.nodeIsSlave n) := by
    funext n
    simp only [ClusterState.nodeIsMaster, ClusterState.nodeIsSlave, (h.node n).1]
  simp only [roleView, h.nodes, h.myself, h.info, h1, h2]

theorem TopologyOk.soft {c c' : BusState ν} (h : TopologyOk c) (hs : Soft c c') : TopologyOk c' :=
  hs.keepsRoles.topologyOk h

theorem keepsRoles_modNode (c : BusState ν) (n : Addr) (f : ClusterNode Addr → ClusterNode Addr)
    (h : ∀ x, ((f x).slaveof, (f x).flags) = (x.slaveof, x.flags)) :
    KeepsRoles c (c.modNode n f) := by
  simp only [Prod.mk.injEq] at h
  have h1 := comp_update_eq (fun x : ClusterNode Addr => x.slaveof) c.node n _ (h (c.node n)).1
  have h2 := comp_update_eq (fun x : ClusterNode Addr => (x.flags.master, x.flags.slave)) c.node n
    (f (c.node n)) (by rw [(h (c.node n)).2])
  refine ⟨keepsDict_modNode c n f fun x => by rw [(h x).2], ?_⟩
  simp only [roleView, BusState.modNode, BusState.lift, ClusterState.setNode,
    ClusterState.nodeIsMaster, ClusterState.nodeIsSlave, h1, h2]

theorem keepsRoles_lift (c : BusState ν) (f : ClusterState Addr → ClusterState Addr)
    (h : ∀ s, ((f s).nodes, (f s).myself, (f s).node) = (s.nodes, s.myself, s.node)) :
    KeepsRoles c (c.lift f) := by
  simp only [Prod.mk.injEq] at h
  obtain ⟨h1, h2, h3⟩ := h c.toClusterState
  refine ⟨⟨h1, h2, fun _ => rfl, fun n => ?_⟩, ?_⟩
  · simp only [ClusterState.nodeInHandshake, BusState.lift, h3]
  · simp only [roleView, BusState.lift, ClusterState.nodeIsMaster, ClusterState.nodeIsSlave, h1, h2,
      h3]

theorem moveSlaves_zero (slaves : List Addr) (j : Nat) : moveSlaves slaves j 0 = slaves := by
  simp [moveSlaves, pointers]

/-- The lists of the slaves of the nodes in `N`. -/
structure Lists (N : List Addr) (c : BusState ν) : Prop where
  length : ∀ k ∈ N, (c.slavesOf k).length = (c.info k).numslaves
  nodup : ∀ k ∈ N, (c.slavesOf k).Nodup

/-- The node is on no list but that of its master, and there at the end. -/
structure CanLeave (N : List Addr) (n : Addr) (c : BusState ν) : Prop where
  master : ∀ m, (c.node n).slaveof = some m → m ∈ N
  other : ∀ k ∈ N, (c.node n).slaveof ≠ some k → n ∉ c.slavesOf k
  last : ∀ m, (c.node n).slaveof = some m → n ∈ c.slavesOf m → (c.slavesOf m).getLast? = some n

theorem Lists.congr {N : List Addr} {c c' : BusState ν} (hl : Lists N c) (h : c'.info = c.info) :
    Lists N c' := by
  have hs : c'.slavesOf = c.slavesOf := by
    funext k
    simp only [BusState.slavesOf, h]
  exact ⟨hs ▸ h ▸ hl.length, hs ▸ hl.nodup⟩

theorem TopologyOk.lists {c : BusState ν} (h : TopologyOk c) : Lists c.nodes c :=
  ⟨h.length, fun _ hk => h.toTwoWay.nodup hk⟩

theorem TopologyOk.canLeave {c : BusState ν} (h : TopologyOk c) {n : Addr} (hn : n ∈ c.nodes)
    (hl : LeavesLast c n) : CanLeave c.nodes n c :=
  ⟨h.up_mem n hn, fun _ hk hne hmem => hne ((h.mem_down hk hn).mp hmem), fun m hm _ => hl m hm⟩

theorem slavesOf_modInfo_self (c : BusState ν) (m : Addr) (f : NodeInfo ν → NodeInfo ν) :
    (c.modInfo m f).slavesOf m = (f (c.info m)).slaves.take (f (c.info m)).numslaves := by
  simp [BusState.slavesOf, BusState.modInfo, BusState.setInfo]

theorem info_modInfo_of_ne (c : BusState ν) {m k : Addr} (hk : k ≠ m)
    (f : NodeInfo ν → NodeInfo ν) : (c.modInfo m f).info k = c.info k := by
  simp [BusState.modInfo, BusState.setInfo, Function.update_of_ne hk]

theorem Lists.modInfo {N : List Addr} {c : BusState ν} (hl : Lists N c) {m : Addr}
    {f : NodeInfo ν → NodeInfo ν}
    (hlen : ((c.modInfo m f).slavesOf m).length = (f (c.info m)).numslaves)
    (hnodup : ((c.modInfo m f).slavesOf m).Nodup) :
    Lists N (c.modInfo m f) ∧ ∀ k, k ≠ m → (c.modInfo m f).slavesOf k = c.slavesOf k := by
  have hother : ∀ k, k ≠ m → (c.modInfo m f).info k = c.info k :=
    fun k hk => info_modInfo_of_ne c hk _
  have hsame : ∀ k, k ≠ m → (c.modInfo m f).slavesOf k = c.slavesOf k := by
    intro k hk
    unfold BusState.slavesOf
    rw [hother k hk]
  refine ⟨⟨fun k hk => ?_, fun k hk => ?_⟩, hsame⟩
  · by_cases hkm : k = m
    · have hnum : ((c.modInfo m f).info m).numslaves = (f (c.info m)).numslaves := by
        simp [BusState.modInfo, BusState.setInfo]
      rw [hkm, hlen, hnum]
    · rw [hsame k hkm, hother k hkm]
      exact hl.length k hk
  · by_cases hkm : k = m
    · rw [hkm]
      exact hnodup
    · rw [hsame k hkm]
      exact hl.nodup k hk

theorem removeSlave_spec {N : List Addr} {c : BusState ν} (hl : Lists N c) {m s : Addr}
    (hm : m ∈ N) (hlast : s ∈ c.slavesOf m → (c.slavesOf m).getLast? = some s) :
    Lists N (clusterNodeRemoveSlave m s c) ∧
      (clusterNodeRemoveSlave m s c).slavesOf m = (c.slavesOf m).erase s ∧
      ∀ k, k ≠ m → (clusterNodeRemoveSlave m s c).slavesOf k = c.slavesOf k := by
  unfold clusterNodeRemoveSlave
  dsimp only
  split
  case isFalse hnot =>
    have hmem : s ∉ c.slavesOf m := fun h => hnot (List.idxOf_lt_length_of_mem h)
    rw [List.erase_of_not_mem hmem]
    exact ⟨hl, rfl, fun _ _ => rfl⟩
  case isTrue hlt =>
    have hmem : s ∈ c.slavesOf m := List.idxOf_lt_length_iff.mp hlt
    have hnum := hl.length m hm
    obtain ⟨init, hinit⟩ := List.getLast?_eq_some_iff.mp (hlast hmem)
    have hnd := hl.nodup m hm
    rw [hinit, List.nodup_append] at hnd
    have hnot : s ∉ init := fun hs => hnd.2.2 s hs s List.mem_cons_self rfl
    have hidx : (c.slavesOf m).idxOf s = init.length := by
      rw [hinit, List.idxOf_append_of_notMem hnot]
      simp
    have hlen : (c.info m).numslaves = init.length + 1 := by
      rw [← hnum, hinit]
      simp
    have herase : (c.slavesOf m).erase s = init := by
      rw [hinit, List.erase_append_right _ hnot]
      simp
    have hzero : (c.info m).numslaves - 1 - (c.slavesOf m).idxOf s = 0 := by
      rw [hidx, hlen]
      omega
    have hpre : (c.info m).slaves.take ((c.info m).numslaves - 1) = init := by
      have htake : (c.slavesOf m).take init.length = init := by
        rw [hinit]
        simp
      rw [← htake]
      unfold BusState.slavesOf
      rw [List.take_take, hlen]
      congr 1
      omega
    have hself : (c.modInfo m fun x => { x with
        slaves := moveSlaves x.slaves ((c.slavesOf m).idxOf s)
          (x.numslaves - 1 - (c.slavesOf m).idxOf s)
        numslaves := x.numslaves - 1 }).slavesOf m = init := by
      rw [slavesOf_modInfo_self]
      dsimp only
      rw [hzero, moveSlaves_zero, hpre]
    obtain ⟨hlists, hsame⟩ := hl.modInfo (m := m) (by rw [hself, hlen]; rfl) (by rw [hself]; exact hnd.1)
    exact ⟨hlists, hself.trans herase.symm, hsame⟩


theorem leaveMaster_spec {N : List Addr} {n : Addr} {c : BusState ν} (hl : Lists N c)
    (hc : CanLeave N n c) :
    Lists N (leaveMaster n c) ∧
      ∀ k ∈ N, (leaveMaster n c).slavesOf k = (c.slavesOf k).erase n := by
  unfold leaveMaster
  split
  case h_1 hnone =>
    refine ⟨hl, fun k hk => (List.erase_of_not_mem (hc.other k hk ?_)).symm⟩
    rw [hnone]
    exact Option.some_ne_none k ∘ Eq.symm
  case h_2 m hm =>
    obtain ⟨h1, h2, h3⟩ := removeSlave_spec hl (hc.master m hm) (hc.last m hm)
    refine ⟨h1, fun k hk => ?_⟩
    by_cases hkm : k = m
    · rw [hkm, h2]
    · rw [h3 k hkm, List.erase_of_not_mem (hc.other k hk ?_)]
      rw [hm]
      exact fun he => hkm (Option.some.inj he).symm

theorem addSlave_spec {N : List Addr} {c : BusState ν} (hl : Lists N c) {m s : Addr} (hm : m ∈ N)
    (hnot : s ∉ c.slavesOf m) :
    Lists N (clusterNodeAddSlave m s c) ∧
      (clusterNodeAddSlave m s c).slavesOf m = c.slavesOf m ++ [s] ∧
      ∀ k, k ≠ m → (clusterNodeAddSlave m s c).slavesOf k = c.slavesOf k := by
  unfold clusterNodeAddSlave
  rw [if_neg hnot]
  have hnum := hl.length m hm
  have hself : (c.modInfo m fun x => { x with
      slaves := x.slaves.take x.numslaves ++ [s], numslaves := x.numslaves + 1 }).slavesOf m =
      c.slavesOf m ++ [s] := by
    rw [slavesOf_modInfo_self]
    refine List.take_of_length_le ?_
    show (c.slavesOf m ++ [s]).length ≤ _
    rw [List.length_append, hnum]
    rfl
  obtain ⟨hlists, hsame⟩ := hl.modInfo (m := m) (by rw [hself, List.length_append, hnum]; rfl) (by
    rw [hself, ← List.concat_eq_append]
    exact (hl.nodup m hm).concat hnot)
  exact ⟨hlists, hself, hsame⟩

theorem TopologyOk.edit (c : BusState ν) {c' : BusState ν} (hd : DictOk c')
    (hnodes : c'.nodes = c.nodes) (hmy : c'.myself = c.myself) (hl : Lists c.nodes c')
    (ht : TwoWay c.nodes (fun n => (c'.node n).slaveof) c'.slavesOf)
    (hm : c'.nodeIsMaster c.myself = true → (c'.node c.myself).slaveof = none) : TopologyOk c' := by
  refine ⟨⟨?_, fun m hm => ?_⟩, hd, ?_⟩
  · rw [hnodes]
    exact ht
  · rw [hnodes] at hm
    exact hl.length m hm
  · rw [hmy]
    exact hm

theorem topologyOk_flags {c : BusState ν} (h : TopologyOk c) (n : Addr)
    (f : ClusterNode Addr → ClusterNode Addr)
    (hf : ∀ x, (f x).slaveof = x.slaveof) (hd : DictOk (c.modNode n f))
    (hm : n = c.myself → (f (c.node n)).flags.master = true → (c.node n).slaveof = none) :
    TopologyOk (c.modNode n f) := by
  have hup : ∀ s, ((c.modNode n f).node s).slaveof = (c.node s).slaveof :=
    modNode_proj (fun x => x.slaveof) c n f hf
  refine TopologyOk.edit c hd rfl rfl (h.lists.congr rfl)
    (h.toTwoWay.congr (fun _ => Iff.rfl) (fun s _ => hup s) fun _ _ => rfl) fun hmaster => ?_
  rw [hup]
  by_cases hme : n = c.myself
  · rw [← hme] at hmaster ⊢
    refine hm hme ?_
    simpa [ClusterState.nodeIsMaster, BusState.modNode, BusState.lift, ClusterState.setNode]
      using hmaster
  · refine h.mine ?_
    simpa [ClusterState.nodeIsMaster, BusState.modNode, BusState.lift, ClusterState.setNode,
      Function.update_of_ne (Ne.symm hme)] using hmaster

theorem leaveMaster_node (n : Addr) (c : BusState ν) : (leaveMaster n c).node = c.node := by
  unfold leaveMaster clusterNodeRemoveSlave
  split
  · rfl
  · dsimp only
    split <;> rfl

theorem topologyOk_setNodeAsMaster {c : BusState ν} (h : TopologyOk c) {n : Addr} (hn : n ∈ c.nodes)
    (hl : TurnOk c n) : TopologyOk (clusterSetNodeAsMaster n c) := by
  unfold clusterSetNodeAsMaster
  split
  case isTrue => exact h
  case isFalse hmaster =>
    have hfalse : c.nodeIsMaster n = false := by simpa using hmaster
    obtain ⟨hlists, hdown⟩ := leaveMaster_spec h.lists (h.canLeave hn (hl hfalse))
    have hdict := keepsDict_leaveMaster n c
    have hnode := leaveMaster_node n c
    generalize leaveMaster n c = d at hlists hdown hdict hnode
    have heq : d.lift (RedisCluster.clusterSetNodeAsMaster n) =
        (d.modNode n fun x => { x with
          flags := { x.flags with slave := false, master := true }, slaveof := none }).lift
          fun s => { s with todo_before_sleep := { s.todo_before_sleep with
            saveConfig := true, updateState := true } } := by
      have hd : d.toClusterState.nodeIsMaster n = false := by
        rw [← hfalse]
        simp only [ClusterState.nodeIsMaster, hnode]
      unfold BusState.modNode BusState.lift RedisCluster.clusterSetNodeAsMaster
      rw [hd]
      rfl
    rw [heq]
    refine TopologyOk.soft ?_ (soft_lift _ _ (by intro x; rfl))
    set e := d.modNode n fun x => { x with
      flags := { x.flags with slave := false, master := true }, slaveof := none } with he
    have hself : (e.node n).slaveof = none := by
      simp [he, BusState.modNode, BusState.lift, ClusterState.setNode]
    have hother : ∀ s, s ≠ n → e.node s = c.node s := by
      intro s hs
      simp [he, BusState.modNode, BusState.lift, ClusterState.setNode, Function.update_of_ne hs,
        hnode]
    have hkeep := hdict.trans (keepsDict_modNode d n (fun x => { x with
      flags := { x.flags with slave := false, master := true }, slaveof := none }) fun _ => rfl)
    refine TopologyOk.edit c (hkeep.dictOk h.toDictOk) hkeep.nodes hkeep.myself (hlists.congr rfl) ?_
      fun hm => ?_
    · exact h.toTwoWay.detach hself (fun s _ hs => congrArg _ (hother s hs)) hdown
    · by_cases hme : c.myself = n
      · rw [hme]
        exact hself
      · rw [hother _ hme]
        refine h.mine ?_
        unfold ClusterState.nodeIsMaster at hm ⊢
        rw [hother _ hme] at hm
        exact hm

theorem TopologyOk.follow {c e : BusState ν} (h : TopologyOk c) {n k : Addr} (hn : n ∈ c.nodes)
    (hk : k ∈ c.nodes) (hd : KeepsDict c e) (hl : Lists c.nodes e)
    (hset : (e.node n).slaveof = some k) (hup : ∀ s, s ≠ n → (e.node s).slaveof = (c.node s).slaveof)
    (hlist : e.slavesOf k = (c.slavesOf k).erase n ++ [n])
    (hdown : ∀ m ∈ c.nodes, m ≠ k → e.slavesOf m = (c.slavesOf m).erase n)
    (hm : e.nodeIsMaster c.myself = true → c.myself ≠ n ∧ c.nodeIsMaster c.myself = true) :
    TopologyOk e := by
  have htwo := h.toTwoWay.follow hn hk hset (fun s _ hs => hup s hs) hlist hdown
  refine TopologyOk.edit c (hd.dictOk h.toDictOk) hd.nodes hd.myself hl htwo fun hme => ?_
  obtain ⟨h1, h2⟩ := hm hme
  rw [hup _ h1]
  exact h.mine h2

theorem TopologyOk.rejoin {c d e : BusState ν} (h : TopologyOk c) {n k : Addr} (hn : n ∈ c.nodes)
    (hk : k ∈ c.nodes) (hl : Lists c.nodes d)
    (hdown : ∀ m ∈ c.nodes, d.slavesOf m = (c.slavesOf m).erase n) (hd : KeepsDict c e)
    (hinfo : e.info = (clusterNodeAddSlave k n d).info) (hset : (e.node n).slaveof = some k)
    (hup : ∀ s, s ≠ n → (e.node s).slaveof = (c.node s).slaveof)
    (hm : e.nodeIsMaster c.myself = true → c.myself ≠ n ∧ c.nodeIsMaster c.myself = true) :
    TopologyOk e := by
  have hnot : n ∉ d.slavesOf k := by
    rw [hdown k hk]
    exact (h.toTwoWay.nodup hk).not_mem_erase
  obtain ⟨hlists, hself, hother⟩ := addSlave_spec hl hk hnot
  have hslaves : ∀ m, e.slavesOf m = (clusterNodeAddSlave k n d).slavesOf m := by
    intro m
    simp only [BusState.slavesOf, hinfo]
  refine h.follow hn hk hd (hlists.congr hinfo) hset hup ?_ (fun m hm hmk => ?_) hm
  · rw [hslaves, hself, hdown k hk]
  · rw [hslaves, hother m hmk, hdown m hm]

theorem keepsDict_addSlave (m s : Addr) (c : BusState ν) :
    KeepsDict c (clusterNodeAddSlave m s c) := by
  unfold clusterNodeAddSlave
  split
  · exact KeepsDict.refl c
  · exact keepsDict_modInfo c m _ (by intro x; rfl)

theorem addSlave_node (m s : Addr) (c : BusState ν) : (clusterNodeAddSlave m s c).node = c.node := by
  unfold clusterNodeAddSlave
  split <;> rfl

theorem addSlave_congr {c d : BusState ν} (h : c.info = d.info) (m s : Addr) :
    (clusterNodeAddSlave m s c).info = (clusterNodeAddSlave m s d).info := by
  have hs : c.slavesOf m = d.slavesOf m := by simp only [BusState.slavesOf, h]
  unfold clusterNodeAddSlave
  rw [hs]
  split
  · exact h
  · simp only [BusState.modInfo, BusState.setInfo, h]

theorem topologyOk_changeMaster {c : BusState ν} (h : TopologyOk c) {s m : Addr} (hs : s ∈ c.nodes)
    (hm : m ∈ c.nodes) (hrole : c.nodeIsMaster s = false)
    (hl : (c.node s).slaveof ≠ some m → LeavesLast c s) : TopologyOk (changeMaster s m c) := by
  unfold changeMaster
  split
  case isFalse => exact h
  case isTrue hne =>
    refine TopologyOk.soft ?_ (soft_todo _ _)
    obtain ⟨hlists, hdown⟩ := leaveMaster_spec h.lists (h.canLeave hs (hl hne))
    have hdict := (keepsDict_leaveMaster s c).trans (keepsDict_addSlave m s _)
    have hnode : (clusterNodeAddSlave m s (leaveMaster s c)).node = c.node :=
      (addSlave_node m s _).trans (leaveMaster_node s c)
    set e := (clusterNodeAddSlave m s (leaveMaster s c)).modNode s fun x =>
      { x with slaveof := some m } with he
    have hmaster : ∀ k, e.nodeIsMaster k = c.nodeIsMaster k := by
      intro k
      unfold ClusterState.nodeIsMaster
      rw [← hnode]
      exact modNode_proj (fun x => x.flags.master) _ s (fun x => { x with slaveof := some m })
        (fun _ => rfl) k
    refine h.rejoin hs hm hlists hdown (hdict.trans (keepsDict_modNode _ s _ (by intro x; rfl))) rfl ?_
      (fun k hk => ?_) fun hme => ?_
    · simp [he, BusState.modNode, BusState.lift, ClusterState.setNode]
    · simp [he, BusState.modNode, BusState.lift, ClusterState.setNode, Function.update_of_ne hk,
        hnode]
    · rw [hmaster] at hme
      refine ⟨fun heq => ?_, hme⟩
      rw [heq, hrole] at hme
      cases hme

theorem keepsRoles_assert (cond : Bool) (what : Crash) (c : BusState ν) :
    KeepsRoles c (redisAssert cond what c) := (onlySlots_assert cond what c).keepsRoles

theorem topologyOk_setMaster {c : BusState ν} (h : TopologyOk c) {n : Addr} (hn : n ∈ c.nodes)
    (hl : TurnOk c c.myself) : TopologyOk (clusterSetMaster n c) := by
  unfold clusterSetMaster
  dsimp only
  have h1 := keepsRoles_assert (n ≠ c.myself) .clusterSetMaster c
  generalize redisAssert (n ≠ c.myself) .clusterSetMaster c = c1 at h1 ⊢
  have h2 := h1.trans (keepsRoles_assert ((c1.node c1.myself).numslots = 0) .clusterSetMaster c1)
  generalize redisAssert ((c1.node c1.myself).numslots = 0) .clusterSetMaster c1 = b at h2 ⊢
  have hb := h2.topologyOk h
  have hnb : n ∈ b.nodes := h2.nodes ▸ hn
  have hlb : TurnOk b b.myself := by
    rw [h2.myself]
    exact h2.turnOk hl
  clear h1 h2 h hn hl
  refine TopologyOk.soft ?_ (soft_resetManualFailover _)
  -- this node is on no list: as a master it follows nobody
  have hleave : ∃ d : BusState ν, d = (if b.nodeIsMaster b.myself then
        clusterCloseAllSlots (setSlaveFlag b.myself b) else leaveMaster b.myself b) ∧
      Lists b.nodes d ∧ (∀ m ∈ b.nodes, d.slavesOf m = (b.slavesOf m).erase b.myself) ∧
      KeepsDict b d ∧ d.nodeIsMaster b.myself = false ∧
      ∀ s, (d.node s).slaveof = (b.node s).slaveof := by
    refine ⟨_, rfl, ?_⟩
    split
    case isTrue hmaster =>
      have hnone := hb.mine hmaster
      have hnot : ∀ m ∈ b.nodes, b.myself ∉ b.slavesOf m := by
        intro m hm
        rw [hb.mem_down hm hb.me, hnone]
        exact (Option.some_ne_none m).symm
      refine ⟨hb.lists.congr rfl, fun m hm => (List.erase_of_not_mem (hnot m hm)).symm,
        (keepsDict_modNode b b.myself _ (by intro x; rfl)).trans (soft_closeAllSlots _).keepsDict, ?_, ?_⟩
      · simp [setSlaveFlag, clusterCloseAllSlots, ClusterState.nodeIsMaster, BusState.modNode,
          BusState.lift, ClusterState.setNode]
      · exact modNode_proj (fun x => x.slaveof) b b.myself
          (fun x => { x with flags := { x.flags with master := false, slave := true } }) fun _ => rfl
    case isFalse hmaster =>
      have hfalse : b.nodeIsMaster b.myself = false := by simpa using hmaster
      obtain ⟨h3, h4⟩ := leaveMaster_spec hb.lists (hb.canLeave hb.me (hlb hfalse))
      refine ⟨h3, h4, keepsDict_leaveMaster _ b, ?_, fun s => by rw [leaveMaster_node]⟩
      rw [← hfalse]
      simp only [ClusterState.nodeIsMaster, leaveMaster_node]
  obtain ⟨d, hdef, hlists, hdown, hdict, hrole, hup⟩ := hleave
  rw [← hdef]
  have hmy : d.myself = b.myself := hdict.myself
  rw [hmy]
  set e := d.modNode b.myself fun x => { x with slaveof := some n } with he
  have hnode : (clusterNodeAddSlave n e.myself e).node = e.node := addSlave_node n _ e
  have hmye : e.myself = b.myself := hmy
  rw [hmye] at hnode ⊢
  refine hb.rejoin hb.me hnb hlists hdown
    ((hdict.trans (keepsDict_modNode d _ _ (by intro x; rfl))).trans (keepsDict_addSlave _ _ e))
    (addSlave_congr (c := e) (d := d) rfl n b.myself) ?_ (fun s hs => ?_) fun hm => ?_
  · rw [hnode, he]
    simp [BusState.modNode, BusState.lift, ClusterState.setNode]
  · rw [hnode, he, ← hup s]
    simp [BusState.modNode, BusState.lift, ClusterState.setNode, Function.update_of_ne hs]
  · unfold ClusterState.nodeIsMaster at hm hrole
    rw [hnode, he] at hm
    simp [BusState.modNode, BusState.lift, ClusterState.setNode, hrole] at hm

theorem onlySlots_delNodeSlots (n : Addr) (c : BusState ν) :
    OnlySlots c (clusterDelNodeSlots n c) :=
  OnlySlots.foldl (fun x j => OnlySlots.ite (fun _ => onlySlots_delSlot j x)
    fun _ => OnlySlots.refl x) _ c

def demoteFlags (s : Addr) (d : BusState ν) : BusState ν :=
  clusterDoBeforeSleep (orTodo todoSave todoUpdate)
    (if ((setSlaveFlag s d).info s).numslaves ≠ 0 then clusterNodeResetSlaves s (setSlaveFlag s d)
      else setSlaveFlag s d)

theorem demoteSender_of_master {s : Addr} {c : BusState ν} (h : c.nodeIsMaster s = true) :
    demoteSender s c = demoteFlags s (clusterDelNodeSlots s c) := by
  unfold demoteSender
  rw [if_pos h]
  rfl

/-- What a demotion keeps: only flags change, if there are no slaves. -/
structure Demoted (s : Addr) (c e : BusState ν) : Prop where
  topology : TopologyOk e
  dict : KeepsDict c e
  slave : e.nodeIsMaster s = false
  slaveof : ∀ k, (e.node k).slaveof = (c.node k).slaveof
  slavesOf : ∀ k, e.slavesOf k = c.slavesOf k

theorem demoted_flags {d : BusState ν} (h : TopologyOk d) {s : Addr} (hs : s ∈ d.nodes)
    (hnone : d.slavesOf s = []) : Demoted s d (demoteFlags s d) := by
  have hzero : (d.info s).numslaves = 0 := by
    rw [← h.length s hs, hnone]
    rfl
  have heq : demoteFlags s d = clusterDoBeforeSleep (orTodo todoSave todoUpdate)
      (setSlaveFlag s d) := by
    unfold demoteFlags
    rw [if_neg]
    exact fun hne => hne hzero
  rw [heq]
  have hkeep := keepsDict_modNode d s
    (fun x => { x with flags := { x.flags with master := false, slave := true } }) fun _ => rfl
  refine ⟨TopologyOk.soft ?_ (soft_todo _ _), hkeep.trans (soft_todo _ _).keepsDict, ?_,
    fun k => ?_, fun k => rfl⟩
  · refine topologyOk_flags h s _ (fun _ => rfl) (hkeep.dictOk h.toDictOk) fun _ hm => ?_
    cases hm
  · simp [setSlaveFlag, clusterDoBeforeSleep, ClusterState.nodeIsMaster, BusState.modNode,
      BusState.lift, ClusterState.setNode]
  · exact modNode_proj (fun x => x.slaveof) d s
      (fun x => { x with flags := { x.flags with master := false, slave := true } })
      (fun _ => rfl) k

theorem demoted_sender {c : BusState ν} (h : TopologyOk c) {s : Addr} (hs : s ∈ c.nodes)
    (hnone : c.nodeIsMaster s → c.slavesOf s = []) : Demoted s c (demoteSender s c) := by
  by_cases hmaster : c.nodeIsMaster s = true
  case neg =>
    have hsame : demoteSender s c = c := by
      unfold demoteSender
      rw [if_neg hmaster]
    rw [hsame]
    exact ⟨h, KeepsDict.refl c, by simpa using hmaster, fun _ => rfl, fun _ => rfl⟩
  case pos =>
    have h1 := (onlySlots_delNodeSlots s c).keepsRoles
    have hsd : s ∈ (clusterDelNodeSlots s c).nodes := by
      rw [h1.nodes]
      exact hs
    have h2 := demoted_flags (h1.topologyOk h) hsd ((h1.slavesOf s).trans (hnone hmaster))
    rw [demoteSender_of_master hmaster]
    exact ⟨h2.topology, h1.toKeepsDict.trans h2.dict, h2.slave,
      fun k => (h2.slaveof k).trans (h1.slaveof k), fun k => (h2.slavesOf k).trans (h1.slavesOf k)⟩

theorem topologyOk_processRole [LinearOrder ν] {c : BusState ν} (h : TopologyOk c) {s : Addr}
    (hs : s ∈ c.nodes) {hdr : BusMsg ν} (hok : RoleOk s hdr c) : TopologyOk (processRole s hdr c) := by
  unfold RoleOk at hok
  unfold processRole
  cases hmaster : hdr.slaveof with
  | none =>
    rw [hmaster] at hok
    exact topologyOk_setNodeAsMaster h hs hok
  | some name =>
    rw [hmaster] at hok
    obtain ⟨h1, h2, h3, h4, h5⟩ := demoted_sender h hs hok.1
    dsimp only
    cases hlook : clusterLookupNode c name with
    | none => exact h1
    | some m =>
      dsimp only
      refine topologyOk_changeMaster h1 (h2.nodes ▸ hs) (h2.nodes ▸ (lookup_some hlook).1) h3
        fun hne k hk => ?_
      rw [h4] at hne hk
      rw [h5]
      exact hok.2 m hlook hne k hk

end RedisCluster.Bus
