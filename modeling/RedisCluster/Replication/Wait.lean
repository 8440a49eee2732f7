import RedisCluster.Replication.Sync
import RedisCluster.Util.Sds

/-!
# `replication.c`: clients blocked in WAIT

The slaves with the offsets that they have acknowledged, and the clients that wait for such
acknowledgements, each one at most once in the list.
-/

namespace RedisCluster.Replication.Wait

structure Slave where
  replstate : ReplState
  repl_ack_off : Int
  deriving DecidableEq, Repr

/-- A client that executes WAIT, with `bpop.reploffset` and `bpop.numreplicas`. -/
structure Client where
  id : Nat
  reploffset : Int
  numreplicas : Int
  deriving DecidableEq, Repr

structure Server where
  slaves : List Slave
  clients_waiting_acks : List Client
  unblocked_clients : List Client
  bpop_blocked_clients : Int
  get_ack_from_slaves : Bool
  /-- The numbers sent with `addReplyLongLong`, oldest first. -/
  replies : List (Client × Int)
  waiting_nodup : (clients_waiting_acks.map Client.id).Nodup

def replicationCountAcksByOffset (s : Server) (offset : Int) : Int :=
  s.slaves.foldl (fun count slave =>
    if slave.replstate ≠ .online then count
    else if slave.repl_ack_off ≥ offset then count + 1 else count) 0

def addReplyLongLong (s : Server) (c : Client) (n : Int) : Server := { s with replies := s.replies ++ [(c, n)] }

def unblockClientWaitingReplicas (s : Server) (c : Client) : Server :=
  { s with
    clients_waiting_acks := s.clients_waiting_acks.erase c
    waiting_nodup := s.waiting_nodup.sublist (List.erase_sublist.map Client.id) }

def unblockClient (s : Server) (c : Client) : Server :=
  let s := unblockClientWaitingReplicas s c
  { s with
    bpop_blocked_clients := s.bpop_blocked_clients - 1
    unblocked_clients := s.unblocked_clients ++ [c] }

theorem nodup_ids_concat (s : Server) (id : Nat) (offset numreplicas : Int)
    (h : ∀ x ∈ s.clients_waiting_acks, x.id ≠ id) :
    ((s.clients_waiting_acks ++ [({
        id := id, reploffset := offset, numreplicas := Util.narrowInt numreplicas } : Client)]).map
      Client.id).Nodup := by
  rw [List.map_append]
  refine List.nodup_append.mpr ⟨s.waiting_nodup, List.nodup_singleton _, ?_⟩
  intro x hx y hy
  obtain ⟨client, hclient, rfl⟩ := List.mem_map.mp hx
  rw [List.mem_singleton.mp hy]
  exact h client hclient

/-- `numreplicas` is a `long` and `bpop.numreplicas` an `int`; `multi` is the flag `REDIS_MULTI`. A client
that is blocked executes nothing, so it is not in the list yet. -/
def waitCommand (s : Server) (id : Nat) (offset numreplicas : Int) (multi : Bool)
    (h : ∀ x ∈ s.clients_waiting_acks, x.id ≠ id) : Server :=
  let ackreplicas := replicationCountAcksByOffset s offset
  let c : Client := { id := id, reploffset := offset, numreplicas := Util.narrowInt numreplicas }
  if ackreplicas ≥ numreplicas ∨ multi then addReplyLongLong s c ackreplicas
  else
    { s with
      clients_waiting_acks := s.clients_waiting_acks ++ [c]
      bpop_blocked_clients := s.bpop_blocked_clients + 1
      get_ack_from_slaves := true
      waiting_nodup := nodup_ids_concat s id offset numreplicas h }

/-- The variables of the loop of `processClientsWaitingReplicas`. -/
structure Loop where
  server : Server
  last_offset : Int
  last_numreplicas : Int

def waitingRound (l : Loop) (c : Client) : Loop :=
  if l.last_offset ≠ 0 ∧ l.last_offset > c.reploffset ∧ l.last_numreplicas > c.numreplicas then
    { l with server := addReplyLongLong (unblockClient l.server c) c l.last_numreplicas }
  else
    let numreplicas := replicationCountAcksByOffset l.server c.reploffset
    if numreplicas ≥ c.numreplicas then
      { server := addReplyLongLong (unblockClient l.server c) c numreplicas
        last_offset := c.reploffset
        last_numreplicas := numreplicas }
    else l

/-- The iterator holds the next node, so a round may delete the node that it is at. -/
def processClientsWaitingReplicas (s : Server) : Server :=
  (s.clients_waiting_acks.foldl waitingRound { server := s, last_offset := 0, last_numreplicas := 0 }).server

/-! ## What WAIT is for -/

/-- The slave is online and has acknowledged the offset. -/
def Acknowledged (offset : Int) (slave : Slave) : Prop := slave.replstate = .online ∧ offset ≤ slave.repl_ack_off

instance decidableAcknowledged (offset : Int) (slave : Slave) : Decidable (Acknowledged offset slave) :=
  inferInstanceAs (Decidable (_ ∧ _))

/-- The slaves that have acknowledged the offset. -/
def acknowledging (slaves : List Slave) (offset : Int) : List Slave :=
  slaves.filter fun slave => Acknowledged offset slave

/-- Enough slaves have acknowledged the offset of the client. -/
def Satisfied (slaves : List Slave) (c : Client) : Prop :=
  c.numreplicas ≤ ((acknowledging slaves c.reploffset).length : Int)

instance decidableSatisfied (slaves : List Slave) (c : Client) : Decidable (Satisfied slaves c) :=
  inferInstanceAs (Decidable (_ ≤ _))

end RedisCluster.Replication.Wait
