import RedisCluster.Cluster.BusRun

/-!
# Replica migration

What `clusterCron` and `clusterHandleSlaveMigration` decide at one node, and a view of the cluster that
all its nodes share: besides who it is itself, a node has only the order of its `nodes` dict to itself.
-/

namespace RedisCluster.Bus

variable {ν : Type}

/-- The nodes that the second loop of `clusterCron` does not look at. -/
def cronSkips (c : BusState ν) (n : Addr) : Bool :=
  (c.node n).flags.myself || (c.info n).noaddr || c.nodeInHandshake n

/-- What the second loop of `clusterCron` counts. -/
def cronCounts (c : BusState ν) : CronScan ν :=
  c.nodes.foldl (fun r n => if cronSkips c n then r else cronCount n r) ⟨c, 0, 0, 0, false⟩

/-- The master this node decides to move to in `clusterCron`. -/
def cronMigratesTo [LinearOrder ν] (cfg : BusConfig) (c : BusState ν) : Option Addr :=
  let r := cronCounts c
  if c.nodeIsSlave c.myself ∧ r.orphaned_masters ≠ 0 ∧ r.max_slaves ≥ 2 ∧
      r.this_slaves = r.max_slaves then
    migratesTo cfg r.max_slaves c
  else none

/-- A view that all nodes of a cluster share, with names of type `ν`: the cluster state is OK, no node
is in PFAIL or still in the handshake, and the `slaves` arrays hold the slaves that `slaveof` names. -/
structure SharedView (ν : Type) where
  cluster : BusState ν
  /-- The order in which the iterators of a node visit the nodes. -/
  order : Addr → List Addr
  order_perm : ∀ n, (order n).Perm cluster.nodes
  ok : cluster.ok = true
  no_pfail : ∀ n ∈ cluster.nodes, cluster.nodeTimedOut n = false
  no_handshake : ∀ n ∈ cluster.nodes, cluster.nodeInHandshake n = false
  master_iff : ∀ n ∈ cluster.nodes, cluster.nodeIsMaster n = !cluster.nodeIsSlave n
  slaves_iff : ∀ m ∈ cluster.nodes, ∀ s, s ∈ cluster.slavesOf m ↔
    s ∈ cluster.nodes ∧ cluster.nodeIsSlave s = true ∧ (cluster.node s).slaveof = some m
  slaves_nodup : ∀ m ∈ cluster.nodes, (cluster.slavesOf m).Nodup
  names : ∀ a ∈ cluster.nodes, ∀ b ∈ cluster.nodes,
    (cluster.info a).name = (cluster.info b).name → a = b

namespace SharedView

def seenBy (v : SharedView ν) (n : Addr) : BusState ν :=
  { v.cluster with
    myself := n
    nodes := v.order n
    node := fun a =>
      { v.cluster.node a with flags := { (v.cluster.node a).flags with myself := a == n } } }

def Working (v : SharedView ν) (m : Addr) : Prop :=
  m ∈ v.cluster.nodes ∧ v.cluster.nodeIsSlave m = false ∧ v.cluster.nodeFailed m = false

/-- The number of non-failing slaves of a master. -/
def okslaves (v : SharedView ν) (m : Addr) : Nat := clusterCountNonFailingSlaves v.cluster m

/-- A working master with slots and without a non-failing slave. -/
def Orphaned (v : SharedView ν) (m : Addr) : Prop :=
  v.Working m ∧ v.okslaves m = 0 ∧ (v.cluster.node m).numslots > 0

/-- `k` is the largest number of non-failing slaves of one working master. -/
def Largest (v : SharedView ν) (k : Nat) : Prop :=
  (∃ m, v.Working m ∧ v.okslaves m = k) ∧ ∀ m, v.Working m → v.okslaves m ≤ k

/-- A slave is to move: there is an orphaned master, and slaves to spare. -/
def CallsFor (v : SharedView ν) (cfg : BusConfig) (k : Nat) : Prop :=
  (∃ m, v.Orphaned m) ∧ v.Largest k ∧ 2 ≤ k ∧ cfg.cluster_migration_barrier < k

variable [LinearOrder ν]

/-- The non-failing slave `n` decides to move to `t`. -/
def Moves (v : SharedView ν) (cfg : BusConfig) (n t : Addr) : Prop :=
  n ∈ v.cluster.nodes ∧ v.cluster.nodeIsSlave n = true ∧ v.cluster.nodeFailed n = false ∧
    cronMigratesTo cfg (v.seenBy n) = some t

/-- Exactly one slave moves, from a master with `k` non-failing slaves, which keeps as many as the
migration barrier demands, to an orphaned master. -/
def OneMoves (v : SharedView ν) (cfg : BusConfig) (k : Nat) : Prop :=
  ∃ n t, v.Moves cfg n t ∧ (∀ n' t', v.Moves cfg n' t' → n' = n) ∧ v.Orphaned t ∧
    ∃ m, v.Working m ∧ (v.cluster.node n).slaveof = some m ∧ v.okslaves m = k ∧
      cfg.cluster_migration_barrier ≤
        ((v.cluster.slavesOf m).erase n).countP fun s => !v.cluster.nodeFailed s

def MigratesWell (v : SharedView ν) (cfg : BusConfig) : Prop :=
  (∀ k, v.CallsFor cfg k → v.OneMoves cfg k) ∧
    ((¬ ∃ m, v.Orphaned m) → ∀ n t, ¬ v.Moves cfg n t)

/-- An orphaned master has a known address, and of all slaves of the working masters with `k`
non-failing ones that with the smallest name is not failing and its master has a known address. -/
def SmallestCanMove (v : SharedView ν) (k : Nat) : Prop :=
  (∃ m, v.Orphaned m ∧ (v.cluster.info m).noaddr = false) ∧
    ∃ m s, v.Working m ∧ v.okslaves m = k ∧ (v.cluster.info m).noaddr = false ∧
      s ∈ v.cluster.slavesOf m ∧ v.cluster.nodeFailed s = false ∧
      ∀ m' s', v.Working m' → v.okslaves m' = k → s' ∈ v.cluster.slavesOf m' →
        (v.cluster.info s).name ≤ (v.cluster.info s').name

end SharedView

end RedisCluster.Bus
