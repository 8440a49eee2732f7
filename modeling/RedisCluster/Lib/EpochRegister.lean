import Mathlib.Order.Lattice

/-!
# A register owned by the greatest epoch

The owner of one thing, with the epochs of those that can own it. A claim with an epoch greater than that of
the owner takes the register over. Claims of different nodes with different epochs commute, if none is older
than what is known of its node.
-/

namespace RedisCluster.Lib

@[ext]
structure EpochRegister (α : Type) where
  owner : Option α
  epoch : α → Nat

/-- A message of `node`: its epoch, and whether it claims the register. -/
structure EpochClaim (α : Type) where
  node : α
  epoch : Nat
  claimed : Bool

namespace EpochRegister

variable {α : Type} [DecidableEq α]

/-- The greatest epoch known of a node is kept. -/
def learn (v : EpochRegister α) (m : EpochClaim α) : α → Nat :=
  Function.update v.epoch m.node (max (v.epoch m.node) m.epoch)

/-- The register is free, or its owner has a smaller epoch. -/
def isOlder (owner : Option α) (epoch : α → Nat) (e : Nat) : Bool :=
  owner.all fun n => decide (epoch n < e)

omit [DecidableEq α] in
@[simp] theorem isOlder_none (epoch : α → Nat) (e : Nat) : isOlder none epoch e = true := rfl

omit [DecidableEq α] in
@[simp] theorem isOlder_some (n : α) (epoch : α → Nat) (e : Nat) :
    isOlder (some n) epoch e = decide (epoch n < e) := rfl

def hear (v : EpochRegister α) (m : EpochClaim α) : EpochRegister α :=
  { owner := if m.claimed && isOlder v.owner (v.learn m) m.epoch then some m.node else v.owner
    epoch := v.learn m }

/-- A message that is not older than what is known of its node; with a new epoch it claims the register if
the node owns it. -/
structure Newer (v : EpochRegister α) (m : EpochClaim α) : Prop where
  epoch : v.epoch m.node ≤ m.epoch
  claims : v.owner = some m.node → v.epoch m.node < m.epoch → m.claimed = true

theorem Newer.learn {v : EpochRegister α} {m : EpochClaim α} (h : v.Newer m) :
    v.learn m = Function.update v.epoch m.node m.epoch := by
  rw [EpochRegister.learn, max_eq_right h.epoch]

theorem hear_epoch_of_ne (v : EpochRegister α) {m : EpochClaim α} {n : α} (h : n ≠ m.node) :
    (v.hear m).epoch n = v.epoch n :=
  Function.update_of_ne h _ _

theorem owner_hear_hear {v : EpochRegister α} {a b : EpochClaim α} (hne : a.node ≠ b.node) (ha : v.Newer a)
    (hb : v.Newer b) :
    ((v.hear a).hear b).owner =
      if b.claimed && isOlder (v.hear a).owner
          (Function.update (Function.update v.epoch a.node a.epoch) b.node b.epoch) b.epoch then
        some b.node
      else if a.claimed && isOlder v.owner (Function.update v.epoch a.node a.epoch) a.epoch then some a.node
      else v.owner := by
  have hlearn : (v.hear a).learn b =
      Function.update (Function.update v.epoch a.node a.epoch) b.node b.epoch := by
    rw [EpochRegister.learn, v.hear_epoch_of_ne hne.symm, max_eq_right hb.epoch]
    show Function.update (v.learn a) _ _ = _
    rw [ha.learn]
  show (if b.claimed && isOlder (v.hear a).owner ((v.hear a).learn b) b.epoch then some b.node
    else if a.claimed && isOlder v.owner (v.learn a) a.epoch then some a.node else v.owner) = _
  rw [hlearn, ha.learn]

theorem owner_hear_comm {v : EpochRegister α} {a b : EpochClaim α} (hne : a.node ≠ b.node)
    (hepoch : a.epoch ≠ b.epoch) (ha : v.Newer a) (hb : v.Newer b) :
    ((v.hear a).hear b).owner = ((v.hear b).hear a).owner := by
  rw [owner_hear_hear hne ha hb, owner_hear_hear hne.symm hb ha]
  have hhear : ∀ {m : EpochClaim α}, v.Newer m → (v.hear m).owner =
      if m.claimed && isOlder v.owner (Function.update v.epoch m.node m.epoch) m.epoch then some m.node
      else v.owner := by
    intro m hm
    show (if m.claimed && isOlder v.owner (v.learn m) m.epoch then some m.node else v.owner) = _
    rw [hm.learn]
  rw [hhear ha, hhear hb]
  have hea := ha.epoch
  have heb := hb.epoch
  have hca := ha.claims
  have hcb := hb.claims
  cases hv : v.owner with
  | none => grind [isOlder_none, isOlder_some, Function.update_apply]
  | some n =>
    rw [hv] at hca hcb
    grind [isOlder_some, Function.update_apply]

end EpochRegister

end RedisCluster.Lib
