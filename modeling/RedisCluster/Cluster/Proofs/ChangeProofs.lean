import RedisCluster.Cluster.FailReports
import RedisCluster.Cluster.Proofs.CalmProofs

/-!
# Proofs: the changes that a step is made of

Everything an event does to the names, the handshakes, the epochs and the failure reports is a chain
of `Change`s, the gossip sections apart. An invariant about these is proved change by change.
-/

namespace RedisCluster.Bus

open RedisCluster.Lib

variable {ν : Type}

/-- A new node at the address `a`, whose name meets `P`. -/
structure Creates (P : ν → Prop) (a : Addr) (c c' : BusState ν) : Prop where
  fresh : a ∉ c.nodes
  nodes : c'.nodes = a :: c.nodes
  allowed : P (c'.info a).name
  unknown : ∀ n ∈ c.nodes, (c.info n).name ≠ (c'.info a).name
  handshake : c'.nodeInHandshake a = true
  configEpoch : (c'.node a).configEpoch = 0
  reports : (c'.info a).fail_reports = []
  other : ∀ n, n ≠ a → (c'.info n).name = (c.info n).name ∧
    c'.nodeInHandshake n = c.nodeInHandshake n ∧ (c'.node n).configEpoch = (c.node n).configEpoch ∧
    (c'.info n).fail_reports = (c.info n).fail_reports
  rest : c'.myself = c.myself ∧ c'.currentEpoch = c.currentEpoch ∧
    c'.failover_auth_epoch = c.failover_auth_epoch ∧ c'.sent = c.sent

/-- The node leaves the table; reports may go with it. -/
structure Removes (n : Addr) (c c' : BusState ν) : Prop where
  nodes : c'.nodes = c.nodes.erase n
  name : ∀ k, (c'.info k).name = (c.info k).name
  handshake : ∀ k, c'.nodeInHandshake k = c.nodeInHandshake k
  configEpoch : ∀ k, (c'.node k).configEpoch = (c.node k).configEpoch
  reports : ∀ k, List.Sublist (c'.info k).fail_reports (c.info k).fail_reports
  rest : c'.myself = c.myself ∧ c'.currentEpoch = c.currentEpoch ∧
    c'.failover_auth_epoch = c.failover_auth_epoch ∧ c'.sent = c.sent

def DistinctReporters (c : BusState ν) : Prop :=
  ∀ k ∈ c.nodes, ((c.info k).fail_reports.map FailReport.node).Nodup

/-- The node is put back under another name. -/
structure Renames (n : Addr) (name : ν) (c c' : BusState ν) : Prop where
  nodes : c'.nodes = n :: c.nodes.erase n
  unknown : ∀ k ∈ c.nodes, k ≠ n → (c.info k).name ≠ name
  self : (c'.info n).name = name
  other : ∀ k, k ≠ n → (c'.info k).name = (c.info k).name ∧
    c'.nodeInHandshake k = c.nodeInHandshake k
  reports : ∀ k, (c'.info k).fail_reports = (c.info k).fail_reports
  myself : c'.myself = c.myself
  sent : c'.sent = c.sent

/-- Nothing but epochs changes. -/
structure SetsEpochs (c c' : BusState ν) (currentEpoch failover_auth_epoch : Nat)
    (configEpoch : Addr → Nat) : Prop extends KeepsDict c c' where
  reports : ∀ n, (c'.info n).fail_reports = (c.info n).fail_reports
  currentEpoch : c'.currentEpoch = currentEpoch
  failover_auth_epoch : c'.failover_auth_epoch = failover_auth_epoch
  configEpoch : ∀ n, (c'.node n).configEpoch = configEpoch n
  sent : c'.sent = c.sent

def configEpochs (c : BusState ν) (n : Addr) : Nat := (c.node n).configEpoch

def nextEpoch (c : BusState ν) : Nat := (c.currentEpoch + 1) % 2 ^ 64

variable [DecidableEq ν]

/-- One change. New nodes have names that meet `P`, and a node in handshake is freed only in states
that meet `F`. -/
inductive Change (P : ν → Prop) (F : BusState ν → Addr → Prop) (event : BusEvent ν) :
    BusState ν → BusState ν → Prop where
  | calm {c c' : BusState ν} : Calm c c' → Change P F event c c'
  | create {c c' : BusState ν} (a : Addr) : Creates P a c c' → Change P F event c c'
  | free {c c' : BusState ν} (n : Addr) : n ∈ c.nodes → c.nodeInHandshake n = true → F c n →
      Removes n c c' → Change P F event c c'
  | delete {c c' : BusState ν} (n : Addr) : n ∈ c.nodes → n ≠ c.myself →
      (DistinctReporters c → NoReportBy c' n) → Removes n c c' → Change P F event c c'
  /-- A node in handshake answers. -/
  | answer {c c' : BusState ν} (n : Addr) (hdr : BusMsg ν) : event = .packet (some n) hdr →
      n ∈ c.nodes → c.nodeInHandshake n = true → c'.nodeInHandshake n = false →
      Renames n hdr.sender c c' → c'.currentEpoch = c.currentEpoch →
      c'.failover_auth_epoch = c.failover_auth_epoch → configEpochs c' = configEpochs c →
      Change P F event c c'
  | rehash {c c' : BusState ν} (order : List Addr) : order.Perm c.nodes →
      c' = c.lift (fun s => { s with nodes := order }) → Change P F event c c'
  /-- The header of a packet from a known node. -/
  | header {c c' : BusState ν} (via : Option Addr) (hdr : BusMsg ν) (s : Addr) :
      event = .packet via hdr → clusterLookupNode c hdr.sender = some s →
      c.nodeInHandshake s = false →
      SetsEpochs c c' (max c.currentEpoch hdr.currentEpoch) c.failover_auth_epoch
        (Function.update (configEpochs c) s (max (configEpochs c s) hdr.configEpoch)) →
      Change P F event c c'
  | update {c c' : BusState ν} (via : Option Addr) (hdr : BusMsg ν) (name : ν) (epoch : Nat)
      (slots : Finset Nat) (s n : Addr) : event = .packet via hdr → hdr.data = .update name epoch slots →
      clusterLookupNode c hdr.sender = some s →
      (c.nodeInHandshake s = false → hdr.currentEpoch ≤ c.currentEpoch) →
      SetsEpochs c c' c.currentEpoch c.failover_auth_epoch
        (Function.update (configEpochs c) n epoch) → Change P F event c c'
  /-- A new `configEpoch` without a vote. -/
  | claim {c c' : BusState ν} : SetsEpochs c c' (nextEpoch c) c.failover_auth_epoch
      (Function.update (configEpochs c) c.myself (nextEpoch c)) → Change P F event c c'
  | ask {c c' : BusState ν} : SetsEpochs c c' (nextEpoch c) (nextEpoch c) (configEpochs c) →
      Change P F event c c'
  | win {c c' : BusState ν} : SetsEpochs c c' c.currentEpoch c.failover_auth_epoch
      (Function.update (configEpochs c) c.myself c.failover_auth_epoch) → Change P F event c c'
  | setConfigEpoch {c c' : BusState ν} (epoch : Int) : event = .command (.setConfigEpoch epoch) →
      SetsEpochs c c' c.currentEpoch c.failover_auth_epoch
        (Function.update (configEpochs c) c.myself epoch.toNat) → Change P F event c c'
  /-- `CLUSTER RESET HARD`. -/
  | identity {c c' : BusState ν} (name : ν) : event = .command (.reset true) → P name →
      Renames c.myself name c c' → c'.nodeInHandshake c.myself = c.nodeInHandshake c.myself →
      Change P F event c c'

/-- A chain of changes. -/
abbrev Changes (P : ν → Prop) (F : BusState ν → Addr → Prop) (event : BusEvent ν) :
    BusState ν → BusState ν → Prop :=
  Relation.ReflTransGen (Change P F event)

omit [DecidableEq ν] in
theorem Creates.dictOk {P : ν → Prop} {a : Addr} {c c' : BusState ν} (h : Creates P a c c')
    (hc : DictOk c) : DictOk c' := by
  have hne : ∀ n ∈ c.nodes, n ≠ a := fun n hn he => h.fresh (he ▸ hn)
  obtain ⟨hmy, -⟩ := h.rest
  refine ⟨?_, fun n hn m hm hnm => ?_, ?_, ?_⟩
  · rw [h.nodes]
    exact List.nodup_cons.mpr ⟨h.fresh, hc.nodup⟩
  · rw [h.nodes] at hn hm
    rcases List.mem_cons.mp hn with hn | hn <;> rcases List.mem_cons.mp hm with hm | hm
    · rw [hn, hm]
    · rw [hn, (h.other m (hne m hm)).1] at hnm
      exact absurd hnm.symm (h.unknown m hm)
    · rw [hm, (h.other n (hne n hn)).1] at hnm
      exact absurd hnm (h.unknown n hn)
    · rw [(h.other n (hne n hn)).1, (h.other m (hne m hm)).1] at hnm
      exact hc.names n hn m hm hnm
  · rw [h.nodes, hmy]
    exact List.mem_cons_of_mem _ hc.me
  · rw [hmy, (h.other _ (hne _ hc.me)).2.1]
    exact hc.handshake

omit [DecidableEq ν] in
theorem Removes.dictOk {n : Addr} {c c' : BusState ν} (h : Removes n c c') (hc : DictOk c)
    (hme : n ≠ c.myself) : DictOk c' := by
  obtain ⟨hmy, -⟩ := h.rest
  refine ⟨?_, fun k hk m hm hkm => ?_, ?_, ?_⟩
  · rw [h.nodes]
    exact hc.nodup.erase n
  · rw [h.nodes] at hk hm
    rw [h.name, h.name] at hkm
    exact hc.names k (List.mem_of_mem_erase hk) m (List.mem_of_mem_erase hm) hkm
  · rw [h.nodes, hmy]
    exact hc.nodup.mem_erase_iff.mpr ⟨hme.symm, hc.me⟩
  · rw [hmy, h.handshake]
    exact hc.handshake

omit [DecidableEq ν] in
theorem Renames.dictOk {n : Addr} {name : ν} {c c' : BusState ν} (h : Renames n name c c')
    (hc : DictOk c) (hn : n ∈ c.nodes) (hme : c'.nodeInHandshake c.myself = false) : DictOk c' := by
  have hcons : ∀ m, m ∈ c'.nodes ↔ m ∈ c.nodes := by
    intro m
    rw [h.nodes]
    exact mem_cons_erase hc hn m
  refine ⟨?_, fun a ha b hb hab => ?_, ?_, ?_⟩
  · rw [h.nodes]
    exact List.nodup_cons.mpr ⟨fun hmn => (hc.nodup.mem_erase_iff.mp hmn).1 rfl, hc.nodup.erase n⟩
  · have ha := (hcons a).mp ha
    have hb := (hcons b).mp hb
    by_cases han : a = n <;> by_cases hbn : b = n
    · rw [han, hbn]
    · rw [han, h.self, (h.other b hbn).1] at hab
      exact absurd hab.symm (h.unknown b hb hbn)
    · rw [hbn, h.self, (h.other a han).1] at hab
      exact absurd hab (h.unknown a ha han)
    · rw [(h.other a han).1, (h.other b hbn).1] at hab
      exact hc.names a ha b hb hab
  · rw [h.myself]
    exact (hcons _).mpr hc.me
  · rw [h.myself]
    exact hme

variable {P : ν → Prop} {F : BusState ν → Addr → Prop} {event : BusEvent ν}

omit [DecidableEq ν] in
theorem DictOk.ne_myself {c : BusState ν} (h : DictOk c) {n : Addr}
    (hhs : c.nodeInHandshake n = true) : n ≠ c.myself := by
  rintro rfl
  rw [h.handshake] at hhs
  cases hhs

theorem Change.dictOk {c c' : BusState ν} (h : Change P F event c c') (hc : DictOk c) :
    DictOk c' := by
  cases h with
  | calm h => exact h.dictOk hc
  | create a h => exact h.dictOk hc
  | free n hn hhs _ h => exact h.dictOk hc (hc.ne_myself hhs)
  | delete n hn hme _ h => exact h.dictOk hc hme
  | answer n hdr _ hn hhs _ h =>
    refine h.dictOk hc hn ?_
    rw [(h.other _ (hc.ne_myself hhs).symm).2]
    exact hc.handshake
  | rehash order hp h => exact h ▸ hc.rehash hp
  | header via hdr s _ _ _ h => exact h.dictOk hc
  | update via hdr name epoch slots s n _ _ _ _ h => exact h.dictOk hc
  | claim h => exact h.dictOk hc
  | ask h => exact h.dictOk hc
  | win h => exact h.dictOk hc
  | setConfigEpoch epoch _ h => exact h.dictOk hc
  | identity name _ _ h hhs => exact h.dictOk hc hc.me (hhs.trans hc.handshake)

theorem Changes.dictOk {c c' : BusState ν} (h : Changes P F event c c') (hc : DictOk c) :
    DictOk c' := by
  induction h with
  | refl => exact hc
  | tail _ h ih => exact h.dictOk ih

theorem Calm.changes {c c' : BusState ν} (h : Calm c c') : Changes P F event c c' :=
  .single (.calm h)

theorem Changes.ite {p : Prop} [Decidable p] {c x y : BusState ν} (hx : p → Changes P F event c x)
    (hy : ¬ p → Changes P F event c y) : Changes P F event c (if p then x else y) := by
  split
  · exact hx ‹_›
  · exact hy ‹_›

end RedisCluster.Bus
