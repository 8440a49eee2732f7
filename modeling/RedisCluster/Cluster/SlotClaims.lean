import RedisCluster.Cluster.BusRun
import RedisCluster.Lib.EpochRegister

/-!
# Claims to slots

What one call of `clusterUpdateSlotsConfigWith` does to the slot table, to the role of this node and to
its keys; and the heartbeats of two masters, of which either can arrive first. To them each slot is a
register that is owned by the greatest epoch.
-/

namespace RedisCluster.Bus

open RedisCluster.Lib

/-! ## One call -/

section Call

variable {ν : Type}

/-- The slot goes to the node that claims the slots with this epoch. -/
def slotGoes (c : BusState ν) (epoch : Nat) (slots : Finset Nat) (j : Nat) : Bool :=
  decide (j < REDIS_CLUSTER_SLOTS) && decide (j ∈ slots) && (c.importing_slots_from j).isNone &&
    slotIsOlder c epoch j

/-- The slots with keys that this node has in `c` and not in `c'`. -/
def lostSlots (env : BusEnv ν) (c c' : BusState ν) : List Nat :=
  (List.range REDIS_CLUSTER_SLOTS).filter fun j =>
    c.slots j = some c.myself ∧ c'.slots j ≠ some c.myself ∧ env.countKeysInSlot j ≠ 0

/-- This node is a slave of `n`, and `n` knows it. -/
structure IsSlaveOf (c : BusState ν) (n : Addr) : Prop where
  role : c.nodeIsMaster c.myself = false
  slaveof : (c.node c.myself).slaveof = some n
  listed : c.myself ∈ c.slavesOf n

/-- A master, or a slave that has a master and no slots of its own. -/
def CanBeDemoted (c : BusState ν) : Prop :=
  c.nodeIsMaster c.myself ∨ (c.node c.myself).slaveof ≠ none ∧ (c.node c.myself).numslots = 0

/-- A node claims slots, and `c` becomes `c'`. -/
structure SlotsUpdated (env : BusEnv ν) (sender : Addr) (epoch : Nat) (slots : Finset Nat)
    (c c' : BusState ν) : Prop where
  owner : ∀ j, c'.slots j = if slotGoes c epoch slots j then some sender else c.slots j
  keys : (IsSlaveOf c' sender ∧ c'.deletedSlots = c.deletedSlots) ∨
    c'.deletedSlots = c.deletedSlots ++ lostSlots env c c'

end Call

/-! ## Two heartbeats -/

section Heartbeats

variable {ν : Type}

/-- A heartbeat of a master: the epoch in its header, and the slots it claims. -/
def heartbeat (env : BusEnv ν) (sender : Addr) (hdr : BusMsg ν) (c : BusState ν) : BusState ν :=
  clusterUpdateSlotsConfigWith env sender hdr.configEpoch hdr.myslots
    (c.lift (updateEpochs sender (hdr.request sender)))

def slotRegister (c : BusState ν) (j : Nat) : EpochRegister Addr :=
  ⟨c.slots j, fun n => (c.node n).configEpoch⟩

def slotClaim (sender : Addr) (hdr : BusMsg ν) (j : Nat) : EpochClaim Addr :=
  ⟨sender, hdr.configEpoch, decide (j ∈ hdr.myslots)⟩

end Heartbeats

end RedisCluster.Bus
