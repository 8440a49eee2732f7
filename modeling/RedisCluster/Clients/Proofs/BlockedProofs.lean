import Mathlib.Data.List.Nodup
import Mathlib.Data.List.Count
import RedisCluster.Clients.BlockedClients

/-!
# Proofs: blocked clients

The invariant: every client that waits for a key, for replicas, for its input to be looked at or for
being freed is in the list for it, and nobody else is. Each function keeps it, as long as no pause
ends with clients that are no slaves and no client blocks that still is in the queue.
-/

namespace RedisCluster.Clients

open RedisCluster.Lib

variable {κ : Type}

/-! ## The invariant -/

def WaitsFor (x : Client κ) (db : Nat) (key : κ) : Prop :=
  x.blocked ∧ x.btype = .list ∧ x.db = db ∧ key ∈ x.keys

/-- A blocked client waits for keys or for replicas, and is not in the queue of unblocked clients. -/
structure ClientOk (x : Client κ) : Prop where
  idle : x.blocked = false → x.keys = []
  nodup : x.keys.Nodup
  kind : x.blocked → (x.btype = .list ∧ x.keys ≠ []) ∨ (x.btype = .wait ∧ x.keys = [])
  once : x.blocked → x.unblocked = false

structure ServerOk (s : Server κ) : Prop extends BlockedOk s where
  live_nodup : s.live.Nodup
  client : ∀ c, s.Live c → ClientOk (s.client c)
  fd : ∀ c, s.Live c → ((s.client c).hasFd ↔ c ∈ s.clients)
  cached : ∀ m, s.cached_master = some m → (s.client m).blocked = false ∧
    (s.client m).unblocked = false ∧ (s.client m).close_asap = false ∧ s.master = none ∧
    (s.client m).master
  keys_mem : ∀ db key c, c ∈ s.blocking_keys db key ↔ s.Live c ∧ WaitsFor (s.client c) db key
  keys_nodup : ∀ db key, (s.blocking_keys db key).Nodup
  acks_mem : ∀ c, c ∈ s.clients_waiting_acks ↔
    s.Live c ∧ (s.client c).blocked ∧ (s.client c).btype = .wait
  acks_nodup : s.clients_waiting_acks.Nodup
  close_mem : ∀ c, c ∈ s.clients_to_close ↔ s.Live c ∧ (s.client c).close_asap
  close_nodup : s.clients_to_close.Nodup
  master_flag : ∀ c, s.Live c → (s.client c).master → s.master = some c ∨ s.cached_master = some c
  master_mem : ∀ m, s.master = some m → m ∈ s.clients ∧ (s.client m).master

theorem mem_live {s : Server κ} {c : ClientId} : c ∈ s.live ↔ s.Live c := by
  simp [Server.live, Server.Live, Option.mem_toList, or_comm]

theorem live_of_mem {s : Server κ} {c : ClientId} (h : c ∈ s.clients) : s.Live c := Or.inl h

theorem ServerOk.clients_nodup {s : Server κ} (h : ServerOk s) : s.clients.Nodup :=
  (List.nodup_append.mp h.live_nodup).2.1

theorem ServerOk.cached_notMem {s : Server κ} (h : ServerOk s) {m : ClientId}
    (hm : s.cached_master = some m) : m ∉ s.clients := by
  intro hmem
  exact (List.nodup_append.mp h.live_nodup).2.2 m (by simp [hm]) m hmem rfl

theorem assertion_true {cond : Bool} (h : cond = true) (what : Panic) (s : Server κ) :
    assertion cond what s = s := by
  unfold assertion
  rw [h]
  rfl

@[simp] theorem setClient_self (s : Server κ) (c : ClientId) (x : Client κ) :
    (s.setClient c x).client c = x := by
  simp [Server.setClient]

theorem setClient_of_ne {s : Server κ} {c d : ClientId} (h : d ≠ c) (x : Client κ) :
    (s.setClient c x).client d = s.client d := by
  simp [Server.setClient, h]

theorem setClient_client (s : Server κ) (c : ClientId) : s.setClient c (s.client c) = s := by
  simp [Server.setClient]

/-! ## What does not matter -/

/-- The same as far as blocking goes; the database matters only while the client is blocked. -/
structure SameClient (x y : Client κ) : Prop where
  blocked : y.blocked = x.blocked
  unblocked : y.unblocked = x.unblocked
  btype : y.btype = x.btype
  keys : y.keys = x.keys
  db : x.blocked → y.db = x.db

theorem SameClient.refl (x : Client κ) : SameClient x x := ⟨rfl, rfl, rfl, rfl, fun _ => rfl⟩

theorem SameClient.waitsFor {x y : Client κ} (h : SameClient x y) (db : Nat) (key : κ) :
    WaitsFor y db key ↔ WaitsFor x db key := by
  unfold WaitsFor
  rw [h.blocked, h.btype, h.keys]
  constructor
  · rintro ⟨h1, h2, h3, h4⟩
    exact ⟨h1, h2, (h.db h1).symm.trans h3, h4⟩
  · rintro ⟨h1, h2, h3, h4⟩
    exact ⟨h1, h2, (h.db h1).trans h3, h4⟩

theorem SameClient.clientOk {x y : Client κ} (h : SameClient x y) (hx : ClientOk x) : ClientOk y := by
  refine ⟨?_, ?_, ?_, ?_⟩
  · rw [h.blocked, h.keys]
    exact hx.idle
  · rw [h.keys]
    exact hx.nodup
  · rw [h.blocked, h.btype, h.keys]
    exact hx.kind
  · rw [h.blocked, h.unblocked]
    exact hx.once

theorem sameClient_setClient {s : Server κ} {c : ClientId} {x : Client κ}
    (h : SameClient (s.client c) x) (d : ClientId) :
    SameClient (s.client d) ((s.setClient c x).client d) := by
  by_cases hd : d = c
  · rw [hd, setClient_self]
    exact h
  · rw [setClient_of_ne hd]
    exact SameClient.refl _

/-- The same clients, blocked and unblocked as before. -/
structure KeepsBlocked (s t : Server κ) : Prop where
  client : ∀ c, SameClient (s.client c) (t.client c)
  live : t.live.Perm s.live
  unblocked_clients : t.unblocked_clients = s.unblocked_clients
  blocking_keys : t.blocking_keys = s.blocking_keys
  clients_waiting_acks : t.clients_waiting_acks = s.clients_waiting_acks
  bpop_blocked_clients : t.bpop_blocked_clients = s.bpop_blocked_clients
  panicked : t.panicked = s.panicked

theorem KeepsBlocked.live_iff {s t : Server κ} (h : KeepsBlocked s t) (c : ClientId) :
    t.Live c ↔ s.Live c := by
  rw [← mem_live, ← mem_live]
  exact h.live.mem_iff

theorem ServerOk.relink {s t : Server κ} (h : ServerOk s) (hk : KeepsBlocked s t)
    (hfd : ∀ c, t.Live c → ((t.client c).hasFd ↔ c ∈ t.clients))
    (hcached : ∀ m, t.cached_master = some m → (t.client m).blocked = false ∧
      (t.client m).unblocked = false ∧ (t.client m).close_asap = false ∧ t.master = none ∧
      (t.client m).master)
    (hclose : ∀ c, c ∈ t.clients_to_close ↔ t.Live c ∧ (t.client c).close_asap)
    (hnodup : t.clients_to_close.Nodup)
    (hflag : ∀ c, t.Live c → (t.client c).master → t.master = some c ∨ t.cached_master = some c)
    (hmem : ∀ m, t.master = some m → m ∈ t.clients ∧ (t.client m).master) : ServerOk t := by
  refine ⟨⟨fun c hc hb => ?_, ?_, fun c => ?_, ?_, hk.panicked.trans h.alive⟩, ?_, fun c hc => ?_,
    hfd, hcached, fun db key c => ?_, fun db key => ?_, fun c => ?_, ?_, hclose, hnodup, hflag, hmem⟩
  · rw [(hk.client c).btype]
    exact h.btype c ((hk.live_iff c).mp hc) ((hk.client c).blocked ▸ hb)
  · rw [hk.unblocked_clients]
    exact h.queue_nodup
  · rw [hk.unblocked_clients, h.queue_mem, hk.live_iff, (hk.client c).unblocked]
  · rw [hk.bpop_blocked_clients, h.count, hk.live.countP_eq]
    congr 1
    exact List.countP_congr fun c _ => by rw [(hk.client c).blocked]
  · exact hk.live.nodup_iff.mpr h.live_nodup
  · exact (hk.client c).clientOk (h.client c ((hk.live_iff c).mp hc))
  · rw [hk.blocking_keys, h.keys_mem, hk.live_iff, (hk.client c).waitsFor]
  · rw [hk.blocking_keys]
    exact h.keys_nodup db key
  · rw [hk.clients_waiting_acks, h.acks_mem, hk.live_iff, (hk.client c).blocked, (hk.client c).btype]
  · exact hk.clients_waiting_acks ▸ h.acks_nodup

/-- Nothing changes that the invariant is about. -/
structure Keeps (s t : Server κ) : Prop extends KeepsBlocked s t where
  clients : t.clients = s.clients
  clients_to_close : t.clients_to_close = s.clients_to_close
  cached_master : t.cached_master = s.cached_master
  master : t.master = s.master
  flags : ∀ c, (t.client c).master = (s.client c).master ∧
    (t.client c).hasFd = (s.client c).hasFd ∧ (t.client c).close_asap = (s.client c).close_asap

theorem Keeps.of_client {s t : Server κ} (hc : t.client = s.client) (h1 : t.clients = s.clients)
    (h2 : t.clients_to_close = s.clients_to_close) (h3 : t.cached_master = s.cached_master)
    (h4 : t.unblocked_clients = s.unblocked_clients) (h5 : t.blocking_keys = s.blocking_keys)
    (h6 : t.clients_waiting_acks = s.clients_waiting_acks)
    (h7 : t.bpop_blocked_clients = s.bpop_blocked_clients) (h8 : t.panicked = s.panicked)
    (h9 : t.master = s.master) : Keeps s t := by
  refine ⟨⟨fun _ => hc ▸ SameClient.refl _, ?_, h4, h5, h6, h7, h8⟩, h1, h2, h3, h9, fun _ => by
    rw [hc]
    exact ⟨rfl, rfl, rfl⟩⟩
  unfold Server.live
  rw [h1, h3]

theorem keeps_setClient {s : Server κ} {c : ClientId} {x : Client κ} (h : SameClient (s.client c) x)
    (hx : x.master = (s.client c).master ∧ x.hasFd = (s.client c).hasFd ∧
      x.close_asap = (s.client c).close_asap) : Keeps s (s.setClient c x) := by
  refine ⟨⟨sameClient_setClient h, List.Perm.refl _, rfl, rfl, rfl, rfl, rfl⟩, rfl, rfl, rfl, rfl,
    fun d => ?_⟩
  by_cases hd : d = c
  · rw [hd, setClient_self]
    exact hx
  · rw [setClient_of_ne hd]
    exact ⟨rfl, rfl, rfl⟩

theorem ServerOk.keeps {s t : Server κ} (h : ServerOk s) (hk : Keeps s t) : ServerOk t := by
  refine h.relink hk.toKeepsBlocked (fun c hc => ?_) (fun m hm => ?_) (fun c => ?_) ?_
    (fun c hc hm => ?_) fun m hm => ?_
  · rw [(hk.flags c).2.1, hk.clients]
    exact h.fd c ((hk.live_iff c).mp hc)
  · rw [hk.cached_master] at hm
    rw [(hk.client m).blocked, (hk.client m).unblocked, (hk.flags m).2.2, hk.master, (hk.flags m).1]
    exact h.cached m hm
  · rw [hk.clients_to_close, h.close_mem, hk.live_iff, (hk.flags c).2.2]
  · exact hk.clients_to_close ▸ h.close_nodup
  · rw [hk.master, hk.cached_master]
    exact h.master_flag c ((hk.live_iff c).mp hc) ((hk.flags c).1 ▸ hm)
  · rw [hk.clients, (hk.flags m).1]
    exact h.master_mem m (hk.master ▸ hm)

/-! ## One client changes -/

/-- The list holds the client if `p`, and the others as before. -/
structure ListChange (c : ClientId) (xs ys : List ClientId) (p : Prop) : Prop where
  nodup : ys.Nodup
  self : c ∈ ys ↔ p
  other : ∀ d, d ≠ c → (d ∈ ys ↔ d ∈ xs)

theorem ListChange.same {c : ClientId} {xs : List ClientId} {p : Prop} (hnd : xs.Nodup)
    (h : c ∈ xs ↔ p) : ListChange c xs xs p := ⟨hnd, h, fun _ _ => Iff.rfl⟩

theorem ListChange.append {c : ClientId} {xs : List ClientId} {p : Prop} (hnd : xs.Nodup)
    (hc : c ∉ xs) (hp : p) : ListChange c xs (xs ++ [c]) p := by
  refine ⟨List.nodup_append.mpr ⟨hnd, List.nodup_singleton c, ?_⟩, by simp [hp], fun d hd => by simp [hd]⟩
  rintro a ha b hb rfl
  exact hc (List.mem_singleton.mp hb ▸ ha)

theorem ListChange.erase {c : ClientId} {xs : List ClientId} {p : Prop} (hnd : xs.Nodup)
    (hp : ¬ p) : ListChange c xs (xs.erase c) p := by
  refine ⟨hnd.erase c, ?_, fun d hd => ?_⟩
  · simp [hnd.mem_erase_iff, hp]
  · rw [hnd.mem_erase_iff]
    exact and_iff_right hd

/-- Only the client `c` changes, and what it waits for. -/
structure OneClient (c : ClientId) (s t : Server κ) : Prop where
  other : ∀ d, d ≠ c → t.client d = s.client d
  hasFd : (t.client c).hasFd = (s.client c).hasFd
  close_asap : (t.client c).close_asap = (s.client c).close_asap
  flag : (t.client c).master = (s.client c).master
  clients : t.clients = s.clients
  clients_to_close : t.clients_to_close = s.clients_to_close
  master : t.master = s.master
  cached_master : t.cached_master = s.cached_master
  panicked : t.panicked = s.panicked

theorem OneClient.live {c : ClientId} {s t : Server κ} (h : OneClient c s t) (d : ClientId) :
    t.Live d ↔ s.Live d := by
  unfold Server.Live
  rw [h.clients, h.cached_master]

theorem OneClient.countP {c : ClientId} {s t : Server κ} (h : OneClient c s t)
    (hnd : s.live.Nodup) (hc : s.Live c) :
    (t.live.countP (fun d => (t.client d).blocked) : Int) =
      s.live.countP (fun d => (s.client d).blocked) - ((s.client c).blocked.toNat : Int) +
        ((t.client c).blocked.toNat : Int) := by
  have hlist : t.live = s.live := by
    unfold Server.live
    rw [h.clients, h.cached_master]
  rw [hlist]
  have hperm := List.perm_cons_erase (mem_live.mpr hc)
  rw [hperm.countP_eq, hperm.countP_eq, List.countP_cons, List.countP_cons]
  have hrest : (s.live.erase c).countP (fun d => (t.client d).blocked) =
      (s.live.erase c).countP fun d => (s.client d).blocked := by
    refine List.countP_congr fun d hd => ?_
    rw [h.other d (hnd.mem_erase_iff.mp hd).1]
  rw [hrest]
  cases (s.client c).blocked <;> cases (t.client c).blocked <;> simp

theorem ServerOk.change {c : ClientId} {s t : Server κ} (h : ServerOk s) (ho : OneClient c s t)
    (hc : c ∈ s.clients) (hok : ClientOk (t.client c))
    (hqueue : ListChange c s.unblocked_clients t.unblocked_clients ((t.client c).unblocked = true))
    (hcount : t.bpop_blocked_clients =
      s.bpop_blocked_clients - ((s.client c).blocked.toNat : Int) + ((t.client c).blocked.toNat : Int))
    (hkeys : ∀ db key, ListChange c (s.blocking_keys db key) (t.blocking_keys db key)
      (WaitsFor (t.client c) db key))
    (hacks : ListChange c s.clients_waiting_acks t.clients_waiting_acks
      ((t.client c).blocked = true ∧ (t.client c).btype = .wait)) : ServerOk t := by
  have hlive := live_of_mem hc
  have hlist : t.live = s.live := by
    unfold Server.live
    rw [ho.clients, ho.cached_master]
  refine ⟨⟨fun d hd hb => ?_, hqueue.nodup, fun d => ?_, ?_, ho.panicked.trans h.alive⟩, ?_,
    fun d hd => ?_, fun d hd => ?_, fun m hm => ?_, fun db key d => ?_, fun db key => (hkeys db key).nodup,
    fun d => ?_, hacks.nodup, fun d => ?_, ?_, fun d hd hm => ?_, fun m hm => ?_⟩
  · by_cases hdc : d = c
    · rw [hdc] at hb ⊢
      rcases hok.kind hb with ⟨hk, -⟩ | ⟨hk, -⟩
      · exact Or.inl hk
      · exact Or.inr hk
    · rw [ho.other d hdc] at hb ⊢
      exact h.btype d ((ho.live d).mp hd) hb
  · rw [ho.live]
    by_cases hdc : d = c
    · rw [hdc, hqueue.self]
      exact (and_iff_right hlive).symm
    · rw [hqueue.other d hdc, ho.other d hdc]
      exact h.queue_mem d
  · rw [hcount, ho.countP h.live_nodup hlive, h.count]
  · exact hlist ▸ h.live_nodup
  · by_cases hdc : d = c
    · exact hdc ▸ hok
    · rw [ho.other d hdc]
      exact h.client d ((ho.live d).mp hd)
  · rw [ho.clients]
    by_cases hdc : d = c
    · rw [hdc, ho.hasFd]
      exact h.fd c hlive
    · rw [ho.other d hdc]
      exact h.fd d ((ho.live d).mp hd)
  · rw [ho.cached_master] at hm
    have hmc : m ≠ c := by
      rintro rfl
      exact h.cached_notMem hm hc
    rw [ho.other m hmc, ho.master]
    exact h.cached m hm
  · rw [ho.live]
    by_cases hdc : d = c
    · rw [hdc, (hkeys db key).self]
      exact (and_iff_right hlive).symm
    · rw [(hkeys db key).other d hdc, ho.other d hdc]
      exact h.keys_mem db key d
  · rw [ho.live]
    by_cases hdc : d = c
    · rw [hdc, hacks.self]
      exact (and_iff_right hlive).symm
    · rw [hacks.other d hdc, ho.other d hdc]
      exact h.acks_mem d
  · rw [ho.live, ho.clients_to_close]
    by_cases hdc : d = c
    · rw [hdc, ho.close_asap]
      exact h.close_mem c
    · rw [ho.other d hdc]
      exact h.close_mem d
  · exact ho.clients_to_close ▸ h.close_nodup
  · rw [ho.master, ho.cached_master]
    by_cases hdc : d = c
    · rw [hdc, ho.flag] at hm
      exact hdc ▸ h.master_flag c hlive hm
    · rw [ho.other d hdc] at hm
      exact h.master_flag d ((ho.live d).mp hd) hm
  · rw [ho.clients]
    obtain ⟨h1, h2⟩ := h.master_mem m (ho.master ▸ hm)
    refine ⟨h1, ?_⟩
    by_cases hmc : m = c
    · rw [hmc, ho.flag]
      exact hmc ▸ h2
    · rw [ho.other m hmc]
      exact h2

/-! ## Blocking -/

theorem ServerOk.notMem_keys {s : Server κ} (h : ServerOk s) {c : ClientId}
    (hb : (s.client c).blocked = false) (db : Nat) (key : κ) : c ∉ s.blocking_keys db key := by
  intro hmem
  have hw := ((h.keys_mem db key c).mp hmem).2.1
  rw [hb] at hw
  cases hw

theorem ServerOk.notMem_acks {s : Server κ} (h : ServerOk s) {c : ClientId}
    (hb : (s.client c).blocked = false) : c ∉ s.clients_waiting_acks := by
  intro hmem
  have hw := ((h.acks_mem c).mp hmem).2.1
  rw [hb] at hw
  cases hw

theorem ServerOk.notMem_queue {s : Server κ} (h : ServerOk s) {c : ClientId}
    (hu : (s.client c).unblocked = false) : c ∉ s.unblocked_clients := by
  intro hmem
  have hw := ((h.queue_mem c).mp hmem).2
  rw [hu] at hw
  cases hw

section Blocking

variable [DecidableEq κ]

theorem blockForKey_fold (c : ClientId) (ks : List κ) (s : Server κ) (hnd : (s.client c).keys.Nodup) :
    ∃ keys' bk, ks.foldl (blockForKey c) s =
        { s.setClient c { s.client c with keys := keys' } with blocking_keys := bk } ∧
      keys'.Nodup ∧ (∀ key, key ∈ keys' ↔ key ∈ (s.client c).keys ∨ key ∈ ks) ∧
      ∀ db key, bk db key = if (s.client c).db = db ∧ key ∈ keys' ∧ key ∉ (s.client c).keys then
        s.blocking_keys db key ++ [c] else s.blocking_keys db key := by
  induction ks generalizing s with
  | nil =>
    refine ⟨(s.client c).keys, s.blocking_keys, ?_, hnd, fun key => by simp, fun db key => ?_⟩
    · rw [List.foldl_nil]
      exact (setClient_client s c).symm
    · exact (if_neg fun h => h.2.2 h.2.1).symm
  | cons k ks ih =>
    rw [List.foldl_cons]
    by_cases hk : k ∈ (s.client c).keys
    · have hsame : blockForKey c s k = s := by
        unfold blockForKey
        exact if_pos hk
      obtain ⟨keys', bk, h1, h2, h3, h4⟩ := ih s hnd
      refine ⟨keys', bk, hsame.symm ▸ h1, h2, fun key => ?_, h4⟩
      rw [h3, List.mem_cons]
      constructor
      · rintro (h | h)
        · exact Or.inl h
        · exact Or.inr (Or.inr h)
      · rintro (h | rfl | h)
        · exact Or.inl h
        · exact Or.inl hk
        · exact Or.inr h
    · set t := blockForKey c s k with ht
      have hclient : t.client c = { s.client c with keys := (s.client c).keys ++ [k] } := by
        simp [ht, blockForKey, hk, Server.setClient]
      obtain ⟨keys', bk, h1, h2, h3, h4⟩ := ih t (by
        rw [hclient]
        exact List.nodup_append.mpr ⟨hnd, List.nodup_singleton k, by
          rintro a ha b hb rfl
          exact hk (List.mem_singleton.mp hb ▸ ha)⟩)
      rw [hclient] at h1 h3 h4
      refine ⟨keys', bk, ?_, h2, fun key => ?_, fun db key => ?_⟩
      · rw [h1]
        simp [ht, blockForKey, hk, Server.setClient]
      · rw [h3, List.mem_cons, List.mem_append, List.mem_singleton, or_assoc]
      · rw [h4]
        have hk' : k ∈ keys' := (h3 k).mpr (Or.inl (by simp))
        simp only [ht, blockForKey, hk, if_false]
        by_cases hdb : (s.client c).db = db
        · by_cases hkey : key = k
          · subst hkey
            simp [hdb, hk, hk']
          · simp [hdb, hkey]
        · simp [hdb, Function.update_of_ne (Ne.symm hdb)]

theorem ServerOk.blockForKeys {s : Server κ} (h : ServerOk s) {c : ClientId} (hc : c ∈ s.clients)
    (hb : (s.client c).blocked = false) (hu : (s.client c).unblocked = false) (key : κ)
    (keys : List κ) (timeout : Int) : ServerOk (blockForKeys c (key :: keys) timeout s) := by
  unfold Clients.blockForKeys
  dsimp only
  have hk : Keeps s (s.setClient c { s.client c with timeout := timeout }) :=
    keeps_setClient ⟨rfl, rfl, rfl, rfl, fun _ => rfl⟩ ⟨rfl, rfl, rfl⟩
  replace h := h.keeps hk
  replace hb := (hk.client c).blocked.trans hb
  replace hu := (hk.client c).unblocked.trans hu
  replace hc : c ∈ (s.setClient c { s.client c with timeout := timeout }).clients := hc
  generalize s.setClient c { s.client c with timeout := timeout } = s at h hb hu hc
  have hidle := (h.client c (live_of_mem hc)).idle hb
  obtain ⟨keys', bk, h1, h2, h3, h4⟩ :=
    blockForKey_fold c (key :: keys) s (h.client c (live_of_mem hc)).nodup
  rw [h1]
  simp only [hidle, List.not_mem_nil, not_false_eq_true, and_true, false_or] at h3 h4
  set t := blockClient c .list
    { s.setClient c { s.client c with keys := keys' } with blocking_keys := bk } with ht
  have hself : t.client c = { s.client c with keys := keys', blocked := true, btype := .list } := by
    simp [ht, blockClient, Server.setClient]
  have ho : OneClient c s t := by
    refine ⟨fun d hd => ?_, by rw [hself], by rw [hself], by rw [hself], rfl, rfl, rfl, rfl, rfl⟩
    simp [ht, blockClient, Server.setClient, hd]
  refine h.change ho hc ?_ ?_ ?_ (fun db k => ?_) ?_
  · rw [hself]
    refine ⟨nofun, h2, fun _ => Or.inl ⟨rfl, ?_⟩, fun _ => hu⟩
    exact List.ne_nil_of_mem ((h3 key).mpr List.mem_cons_self)
  · exact ListChange.same h.queue_nodup ⟨fun hm => absurd hm (h.notMem_queue hu), fun hm => by
      rw [hself] at hm
      exact absurd hm (by simp [hu])⟩
  · rw [hself, hb]
    simp [ht, blockClient, Server.setClient]
  · show ListChange c (s.blocking_keys db k) (bk db k) _
    rw [h4, hself]
    split
    case isTrue hcond =>
      exact ListChange.append (h.keys_nodup db k) (h.notMem_keys hb db k) ⟨rfl, rfl, hcond.1, hcond.2⟩
    case isFalse hcond =>
      exact ListChange.same (h.keys_nodup db k)
        ⟨fun hm => absurd hm (h.notMem_keys hb db k), fun hw => absurd hw.2.2 hcond⟩
  · rw [hself]
    exact ListChange.same h.acks_nodup
      ⟨fun hm => absurd hm (h.notMem_acks hb), fun hw => by cases hw.2⟩

omit [DecidableEq κ] in
theorem ServerOk.waitCommand {s : Server κ} (h : ServerOk s) {c : ClientId} (hc : c ∈ s.clients)
    (hb : (s.client c).blocked = false) (hu : (s.client c).unblocked = false)
    (numreplicas timeout woff : Int) (acks : Int → Int) :
    ServerOk (waitCommand c numreplicas timeout woff acks s) := by
  unfold Clients.waitCommand
  split
  case isTrue => exact h
  case isFalse =>
    have hidle := (h.client c (live_of_mem hc)).idle hb
    set t := blockClient c .wait { s.setClient c { s.client c with
      timeout := timeout, reploffset := woff, numreplicas := numreplicas } with
      clients_waiting_acks := s.clients_waiting_acks ++ [c] } with ht
    have hself : t.client c = { s.client c with
        timeout := timeout, reploffset := woff, numreplicas := numreplicas, blocked := true
        btype := .wait } := by
      simp [ht, blockClient, Server.setClient]
    have ho : OneClient c s t := by
      refine ⟨fun d hd => ?_, by rw [hself], by rw [hself], by rw [hself], rfl, rfl, rfl, rfl, rfl⟩
      simp [ht, blockClient, Server.setClient, hd]
    show ServerOk t
    refine h.change ho hc ?_ ?_ ?_ (fun db k => ?_) ?_
    · rw [hself]
      exact ⟨nofun, (h.client c (live_of_mem hc)).nodup, fun _ => Or.inr ⟨rfl, hidle⟩, fun _ => hu⟩
    · exact ListChange.same h.queue_nodup ⟨fun hm => absurd hm (h.notMem_queue hu), fun hm => by
        rw [hself] at hm
        exact absurd hm (by simp [hu])⟩
    · rw [hself, hb]
      simp [ht, blockClient, Server.setClient]
    · rw [hself]
      exact ListChange.same (h.keys_nodup db k)
        ⟨fun hm => absurd hm (h.notMem_keys hb db k), fun hw => by cases hw.2.1⟩
    · rw [hself]
      exact ListChange.append h.acks_nodup (h.notMem_acks hb) ⟨rfl, rfl⟩

/-! ## Unblocking -/

theorem leaveKey_fold (c : ClientId) (db : Nat) (ks : List κ) (s : Server κ) (hnd : ks.Nodup)
    (hmem : ∀ key ∈ ks, c ∈ s.blocking_keys db key) :
    ∃ bk, ks.foldl (leaveKey c db) s = { s with blocking_keys := bk } ∧
      ∀ db' key, bk db' key = if db' = db ∧ key ∈ ks then (s.blocking_keys db' key).erase c
        else s.blocking_keys db' key := by
  induction ks generalizing s with
  | nil => exact ⟨s.blocking_keys, rfl, fun db' key => (if_neg fun h => by cases h.2).symm⟩
  | cons k ks ih =>
    obtain ⟨hk, hnd⟩ := List.nodup_cons.mp hnd
    rw [List.foldl_cons]
    have hstep : leaveKey c db s k = { s with
        blocking_keys := Function.update s.blocking_keys db
          (Function.update (s.blocking_keys db) k ((s.blocking_keys db k).erase c)) } := by
      unfold leaveKey
      rw [assertion_true (by simpa using hmem k List.mem_cons_self)]
    rw [hstep]
    obtain ⟨bk, h1, h2⟩ := ih { s with
        blocking_keys := Function.update s.blocking_keys db
          (Function.update (s.blocking_keys db) k ((s.blocking_keys db k).erase c)) } hnd (by
      intro key hkey
      have hne : key ≠ k := by
        rintro rfl
        exact hk hkey
      simpa [Function.update_of_ne hne] using hmem key (List.mem_cons_of_mem k hkey))
    refine ⟨bk, h1, fun db' key => ?_⟩
    rw [h2]
    by_cases hdb : db' = db
    · by_cases hkey : key = k
      · subst hkey
        simp [hdb, hk]
      · simp [hdb, hkey]
    · simp [hdb]

theorem ServerOk.unblockClient {s : Server κ} (h : ServerOk s) {c : ClientId} (hc : c ∈ s.clients)
    (hb : (s.client c).blocked) :
    ServerOk (unblockClient c s) ∧ OneClient c s (unblockClient c s) ∧
      ((unblockClient c s).client c).blocked = false ∧
      (∀ db key, (unblockClient c s).blocking_keys db key = (s.blocking_keys db key).erase c) ∧
      (unblockClient c s).clients_waiting_acks = s.clients_waiting_acks.erase c := by
  have hlive := live_of_mem hc
  have hx := h.client c hlive
  have hu := hx.once hb
  have hqueue : ListChange c s.unblocked_clients (s.unblocked_clients ++ [c]) (true = true) :=
    ListChange.append h.queue_nodup (h.notMem_queue hu) rfl
  unfold Clients.unblockClient
  rcases hx.kind hb with ⟨htype, hne⟩ | ⟨htype, hempty⟩
  · have hacks : c ∉ s.clients_waiting_acks := by
      intro hm
      have hw := ((h.acks_mem c).mp hm).2.2
      rw [htype] at hw
      cases hw
    have hin : ∀ key ∈ (s.client c).keys, c ∈ s.blocking_keys (s.client c).db key :=
      fun key hk => (h.keys_mem _ key c).mpr ⟨hlive, hb, htype, rfl, hk⟩
    have hout : ∀ db key, ¬ (db = (s.client c).db ∧ key ∈ (s.client c).keys) →
        c ∉ s.blocking_keys db key := by
      intro db key hnot hm
      obtain ⟨-, -, -, h3, h4⟩ := (h.keys_mem db key c).mp hm
      exact hnot ⟨h3.symm, h4⟩
    obtain ⟨bk, h1, h2⟩ := leaveKey_fold c (s.client c).db (s.client c).keys s hx.nodup hin
    have hbk : ∀ db key, bk db key = (s.blocking_keys db key).erase c := by
      intro db key
      rw [h2]
      split
      · rfl
      · exact (List.erase_of_not_mem (hout db key ‹_›)).symm
    have hdata : unblockClientWaitingData c s =
        { s.setClient c { s.client c with keys := [] } with blocking_keys := bk } := by
      unfold unblockClientWaitingData
      dsimp only
      rw [assertion_true (by simpa using hne), h1]
      rfl
    rw [htype]
    dsimp only
    rw [hdata]
    set t : Server κ := { Server.setClient _ c _ with
      bpop_blocked_clients := _, unblocked_clients := _ } with ht
    have hself : t.client c = { s.client c with
        keys := [], blocked := false, unblocked := true, btype := .none } := by
      simp [ht, Server.setClient]
    have ho : OneClient c s t := by
      refine ⟨fun d hd => ?_, by rw [hself], by rw [hself], by rw [hself], rfl, rfl, rfl, rfl, rfl⟩
      simp [ht, Server.setClient, hd]
    have hnacks : s.clients_waiting_acks = s.clients_waiting_acks.erase c :=
      (List.erase_of_not_mem hacks).symm
    refine ⟨h.change ho hc ?_ ?_ ?_ (fun db k => ?_) ?_, ho, by rw [hself], hbk, hnacks⟩
    · rw [hself]
      exact ⟨fun _ => rfl, List.nodup_nil, nofun, nofun⟩
    · rw [hself]
      exact hqueue
    · rw [hself, hb]
      simp [ht, Server.setClient]
    · show ListChange c _ (bk db k) _
      rw [hself, hbk]
      exact ListChange.erase (h.keys_nodup db k) fun hw => by cases hw.1
    · rw [hself]
      exact ListChange.same h.acks_nodup ⟨fun hm => absurd hm hacks, fun hw => by cases hw.1⟩
  · have hkeys : ∀ db key, c ∉ s.blocking_keys db key := by
      intro db key hm
      obtain ⟨-, -, h2, -⟩ := (h.keys_mem db key c).mp hm
      rw [htype] at h2
      cases h2
    have hin : c ∈ s.clients_waiting_acks := (h.acks_mem c).mpr ⟨hlive, hb, htype⟩
    rw [htype]
    dsimp only
    unfold unblockClientWaitingReplicas
    rw [assertion_true (by simpa using hin)]
    dsimp only
    set t : Server κ := { Server.setClient _ c _ with
      bpop_blocked_clients := _, unblocked_clients := _ } with ht
    have hself : t.client c = { s.client c with
        blocked := false, unblocked := true, btype := .none } := by
      simp [ht, Server.setClient]
    have ho : OneClient c s t := by
      refine ⟨fun d hd => ?_, by rw [hself], by rw [hself], by rw [hself], rfl, rfl, rfl, rfl, rfl⟩
      simp [ht, Server.setClient, hd]
    refine ⟨h.change ho hc ?_ ?_ ?_ (fun db k => ?_) ?_, ho, by rw [hself], fun db k => ?_, rfl⟩
    · rw [hself]
      exact ⟨fun _ => hempty, hx.nodup, nofun, nofun⟩
    · rw [hself]
      exact hqueue
    · rw [hself, hb]
      simp [ht, Server.setClient]
    · rw [hself]
      exact ListChange.same (h.keys_nodup db k)
        ⟨fun hm => absurd hm (hkeys db k), fun hw => by cases hw.1⟩
    · rw [hself]
      exact ListChange.erase h.acks_nodup fun hw => by cases hw.1
    · exact (List.erase_of_not_mem (hkeys db k)).symm

end Blocking

theorem ServerOk.processUnblocked {s : Server κ} (h : ServerOk s) :
    ServerOk (processUnblockedClient s) := by
  unfold processUnblockedClient
  cases hq : s.unblocked_clients with
  | nil => exact h
  | cons c rest =>
    obtain ⟨hlive, hu⟩ := (h.queue_mem c).mp (hq ▸ List.mem_cons_self)
    have hx := h.client c hlive
    have hb : (s.client c).blocked = false := by
      by_contra hne
      have hb := hx.once (by simpa using hne)
      rw [hu] at hb
      cases hb
    have hc : c ∈ s.clients := by
      rcases hlive with hc | hc
      · exact hc
      · have hcu := (h.cached c hc).2.1
        rw [hu] at hcu
        cases hcu
    dsimp only
    set t : Server κ := { Server.setClient s c _ with unblocked_clients := rest } with ht
    have hself : t.client c = { s.client c with unblocked := false, btype := .none } := by
      simp [ht, Server.setClient]
    have ho : OneClient c s t := by
      refine ⟨fun d hd => ?_, by rw [hself], by rw [hself], by rw [hself], rfl, rfl, rfl, rfl, rfl⟩
      simp [ht, Server.setClient, hd]
    obtain ⟨hnot, hnd⟩ := List.nodup_cons.mp (hq ▸ h.queue_nodup)
    refine h.change ho hc ?_ ?_ ?_ (fun db k => ?_) ?_
    · rw [hself]
      exact ⟨hx.idle, hx.nodup, fun hbl => by simp [hb] at hbl, fun _ => rfl⟩
    · rw [hself, hq]
      refine ⟨hnd, ⟨fun hm => absurd hm hnot, nofun⟩, fun d hd => ?_⟩
      rw [List.mem_cons]
      exact (or_iff_right hd).symm
    · rw [hself]
      simp [ht, Server.setClient]
    · rw [hself]
      exact ListChange.same (h.keys_nodup db k)
        ⟨fun hm => absurd hm (h.notMem_keys hb db k), fun hw => by simp [WaitsFor, hb] at hw⟩
    · rw [hself]
      exact ListChange.same h.acks_nodup
        ⟨fun hm => absurd hm (h.notMem_acks hb), fun hw => by simp [hb] at hw⟩

/-! ## The pause -/

theorem keeps_pauseClients (endTime : Int) (s : Server κ) : Keeps s (pauseClients endTime s) :=
  .of_client rfl rfl rfl rfl rfl rfl rfl rfl rfl rfl

theorem keeps_checkPause {s : Server κ} (h : pauseHarmless s) : Keeps s (checkPause s) := by
  unfold checkPause
  split
  case isTrue hexp =>
    refine .of_client rfl rfl rfl rfl ?_ rfl rfl rfl rfl rfl
    have hall : ∀ c ∈ s.clients, (s.client c).slave = true := by
      simpa [pauseHarmless, hexp] using h
    have hnone : s.clients.filter (fun c => !(s.client c).slave) = [] := by
      refine List.filter_eq_nil_iff.mpr fun c hc => ?_
      simp [hall c hc]
    dsimp only
    rw [hnone, List.append_nil]
  case isFalse => exact .of_client rfl rfl rfl rfl rfl rfl rfl rfl rfl rfl

theorem ServerOk.endPause {s : Server κ} (h : ServerOk s) (h1 : pauseHarmless s)
    (h2 : pauseHarmless { s with clients_pause_end_time := 0 }) : ServerOk (endPause s) := by
  unfold Clients.endPause
  dsimp only
  split
  case isTrue hpaused =>
    have hsame : checkPause s = s := by
      unfold checkPause at hpaused ⊢
      split at hpaused
      · cases hpaused
      · exact if_neg ‹_›
    rw [hsame]
    have hk : Keeps s { s with clients_pause_end_time := 0 } :=
      .of_client rfl rfl rfl rfl rfl rfl rfl rfl rfl rfl
    exact (h.keeps hk).keeps (keeps_checkPause h2)
  case isFalse => exact h.keeps (keeps_checkPause h1)

/-! ## Clients that come and go -/

theorem ServerOk.create {s : Server κ} (h : ServerOk s) {a : ClientId} (ha : ¬ s.Live a) (now : Int) :
    ServerOk (createClient a now s) ∧ (createClient a now s).master = s.master ∧
      (createClient a now s).cached_master = s.cached_master ∧
      (createClient a now s).clients = s.clients ++ [a] ∧
      ((createClient a now s).client a).blocked = false ∧
      ((createClient a now s).client a).unblocked = false := by
  set t := createClient a now s with ht
  have hself : t.client a =
      { blocked := false, unblocked := false, slave := false, master := false, multi := false
        close_after_reply := false, close_asap := false, btype := .none, db := 0, keys := []
        timeout := 0, reploffset := 0, numreplicas := 0, hasFd := true, lastinteraction := now } := by
    simp [ht, createClient, Server.setClient]
  have hother : ∀ d, d ≠ a → t.client d = s.client d := by
    intro d hd
    simp [ht, createClient, Server.setClient, hd]
  have hlive : ∀ d, t.Live d ↔ s.Live d ∨ d = a := by
    intro d
    simp only [ht, createClient, Server.Live, Server.setClient, List.mem_append, List.mem_singleton]
    tauto
  have hne : ∀ d, s.Live d → d ≠ a := by
    rintro d hd rfl
    exact ha hd
  have hlist : t.live = s.live ++ [a] := by
    simp [Server.live, ht, createClient, Server.setClient]
  have hmem : ∀ {p : Prop} {q : Client κ → Prop} (d : ClientId), ¬ q (t.client a) →
      (p ↔ s.Live d ∧ q (s.client d)) → (p ↔ t.Live d ∧ q (t.client d)) := by
    intro p q d hq hp
    rw [hlive]
    by_cases hda : d = a
    · subst hda
      rw [hp]
      exact ⟨fun hm => absurd hm.1 ha, fun hm => absurd hm.2 hq⟩
    · rw [hp, hother d hda]
      exact and_congr_left fun _ => (or_iff_left hda).symm
  refine ⟨⟨⟨fun d hd hb => ?_, h.queue_nodup, fun d => ?_, ?_, h.alive⟩, ?_, fun d hd => ?_,
    fun d hd => ?_, fun m hm => ?_, fun db key d => ?_, h.keys_nodup, fun d => ?_, h.acks_nodup,
    fun d => ?_, h.close_nodup, fun d hd hm => ?_, fun m hm => ?_⟩, rfl, rfl, rfl, by rw [hself],
    by rw [hself]⟩
  · by_cases hda : d = a
    · rw [hda, hself] at hb
      cases hb
    · rw [hother d hda] at hb ⊢
      exact h.btype d (((hlive d).mp hd).resolve_right hda) hb
  · exact hmem (q := fun x => x.unblocked = true) d (by simp [hself]) (h.queue_mem d)
  · rw [hlist, List.countP_append, List.countP_singleton, hself]
    show s.bpop_blocked_clients = _
    rw [h.count]
    simp only [Bool.false_eq_true, if_false, Nat.add_zero]
    congr 1
    exact List.countP_congr fun d hd => by rw [hother d (hne d (mem_live.mp hd))]
  · rw [hlist]
    refine List.nodup_append.mpr ⟨h.live_nodup, List.nodup_singleton a, ?_⟩
    rintro d hd b hb rfl
    exact ha (List.mem_singleton.mp hb ▸ mem_live.mp hd)
  · by_cases hda : d = a
    · rw [hda, hself]
      exact ⟨fun _ => rfl, List.nodup_nil, nofun, nofun⟩
    · rw [hother d hda]
      exact h.client d (((hlive d).mp hd).resolve_right hda)
  · show _ ↔ d ∈ s.clients ++ [a]
    by_cases hda : d = a
    · rw [hda, hself]
      simp
    · rw [hother d hda, h.fd d (((hlive d).mp hd).resolve_right hda)]
      simp [hda]
  · rw [hother m (hne m (Or.inr hm))]
    exact h.cached m hm
  · exact hmem (q := fun x => WaitsFor x db key) d (by simp [hself, WaitsFor]) (h.keys_mem db key d)
  · exact hmem (q := fun x => x.blocked = true ∧ x.btype = .wait) d (by simp [hself]) (h.acks_mem d)
  · exact hmem (q := fun x => x.close_asap = true) d (by simp [hself]) (h.close_mem d)
  · by_cases hda : d = a
    · rw [hda, hself] at hm
      cases hm
    · rw [hother d hda] at hm
      exact h.master_flag d (((hlive d).mp hd).resolve_right hda) hm
  · obtain ⟨h1, h2⟩ := h.master_mem m hm
    refine ⟨List.mem_append_left _ h1, ?_⟩
    rw [hother m (hne m (live_of_mem h1))]
    exact h2

theorem ServerOk.connectMaster {s : Server κ} (h : ServerOk s) {a : ClientId} (ha : a ∈ s.clients)
    (hm : s.master = none) (hcached : s.cached_master = none) :
    ServerOk { s.setClient a { s.client a with master := true } with master := some a } := by
  set t : Server κ := { s.setClient a { s.client a with master := true } with master := some a }
    with ht
  have hself : t.client a = { s.client a with master := true } := by simp [ht, Server.setClient]
  have hother : ∀ d, d ≠ a → t.client d = s.client d := by
    intro d hd
    simp [ht, Server.setClient, hd]
  have hsame : ∀ d, (t.client d).hasFd = (s.client d).hasFd ∧
      (t.client d).close_asap = (s.client d).close_asap := by
    intro d
    by_cases hda : d = a
    · rw [hda, hself]
      exact ⟨rfl, rfl⟩
    · rw [hother d hda]
      exact ⟨rfl, rfl⟩
  refine h.relink ⟨sameClient_setClient (x := { s.client a with master := true })
    ⟨rfl, rfl, rfl, rfl, fun _ => rfl⟩, List.Perm.refl _, rfl, rfl, rfl, rfl, rfl⟩ (fun d hd => ?_)
    (fun m hm' => ?_) (fun d => ?_) h.close_nodup (fun d hd hflag => ?_) fun m hm' => ?_
  · rw [(hsame d).1]
    exact h.fd d hd
  · exact absurd (hcached.symm.trans hm') nofun
  · rw [(hsame d).2]
    exact h.close_mem d
  · by_cases hda : d = a
    · exact Or.inl (by rw [hda])
    · rw [hother d hda] at hflag
      rcases h.master_flag d hd hflag with he | he
      · rw [hm] at he
        cases he
      · rw [hcached] at he
        cases he
  · obtain rfl := Option.some.inj hm'
    exact ⟨ha, by rw [hself]⟩

theorem leaveIf_eq {p : Bool} {f : Server κ → Server κ} {s t : Server κ} (h1 : p = true → f s = t)
    (h2 : p = false → s = t) : (if p then f s else s) = t := by
  cases p with
  | true => exact h1 rfl
  | false => exact h2 rfl

theorem unlinkClient_eq {s : Server κ} (h : ServerOk s) {c : ClientId} (hc : c ∈ s.clients) :
    unlinkClient c s = { s with
      clients := s.clients.erase c
      unblocked_clients := s.unblocked_clients.erase c
      master := if (s.client c).master then none else s.master
      clients_to_close := s.clients_to_close.erase c } := by
  have hlive := live_of_mem hc
  have h1 : (if (s.client c).hasFd then leaveClients c s else s) =
      { s with clients := s.clients.erase c } := by
    refine leaveIf_eq (fun _ => ?_) fun hf => ?_
    · unfold leaveClients
      rw [assertion_true (by simpa using hc)]
    · rw [(h.fd c hlive).mpr hc] at hf
      cases hf
  have h2 : (if (s.client c).unblocked then leaveQueue c { s with clients := s.clients.erase c }
      else { s with clients := s.clients.erase c }) = { s with
        clients := s.clients.erase c, unblocked_clients := s.unblocked_clients.erase c } := by
    refine leaveIf_eq (fun hu => ?_) fun hu => ?_
    · unfold leaveQueue
      rw [assertion_true (by simpa using (h.queue_mem c).mpr ⟨hlive, hu⟩)]
    · rw [List.erase_of_not_mem (h.notMem_queue hu)]
  have h3 : ∀ m, (if (s.client c).close_asap then leaveCloseList c { s with
      clients := s.clients.erase c, unblocked_clients := s.unblocked_clients.erase c, master := m }
      else { s with
        clients := s.clients.erase c, unblocked_clients := s.unblocked_clients.erase c, master := m }) =
      { s with
        clients := s.clients.erase c, unblocked_clients := s.unblocked_clients.erase c, master := m
        clients_to_close := s.clients_to_close.erase c } := by
    intro m
    refine leaveIf_eq (fun hclose => ?_) fun hclose => ?_
    · unfold leaveCloseList
      rw [assertion_true (by simpa using (h.close_mem c).mpr ⟨hlive, hclose⟩)]
    · have hnot : c ∉ s.clients_to_close := by
        intro hmem
        have := ((h.close_mem c).mp hmem).2
        rw [hclose] at this
        cases this
      rw [List.erase_of_not_mem hnot]
  unfold unlinkClient
  dsimp only
  rw [h1, h2]
  cases (s.client c).master with
  | true => exact h3 none
  | false => exact h3 s.master

theorem ServerOk.remove {s t : Server κ} (h : ServerOk s) {c : ClientId} (hc : s.Live c)
    (hb : (s.client c).blocked = false) (hclient : ∀ d, d ≠ c → t.client d = s.client d)
    (hlist : t.live = s.live.erase c) (hclients : ∀ d, d ≠ c → (d ∈ t.clients ↔ d ∈ s.clients))
    (hcached : ∀ d, t.cached_master = some d → s.cached_master = some d)
    (hqueue : t.unblocked_clients = s.unblocked_clients.erase c)
    (hclose : t.clients_to_close = s.clients_to_close.erase c)
    (hkeys : t.blocking_keys = s.blocking_keys)
    (hacks : t.clients_waiting_acks = s.clients_waiting_acks)
    (hcount : t.bpop_blocked_clients = s.bpop_blocked_clients) (hpanicked : t.panicked = s.panicked)
    (hnone : ∀ d, t.cached_master = some d → t.master = none)
    (hflag : ∀ d, t.Live d → (t.client d).master → t.master = some d ∨ t.cached_master = some d)
    (hmem : ∀ m, t.master = some m → m ∈ t.clients ∧ (t.client m).master) : ServerOk t := by
  have hlive : ∀ d, t.Live d ↔ d ≠ c ∧ s.Live d := by
    intro d
    rw [← mem_live, ← mem_live, hlist, h.live_nodup.mem_erase_iff]
  have herase : ∀ {xs : List ClientId} {q : Client κ → Prop}, xs.Nodup →
      (∀ d, d ∈ xs ↔ s.Live d ∧ q (s.client d)) →
      ∀ d, d ∈ xs.erase c ↔ t.Live d ∧ q (t.client d) := by
    intro xs q hnd hx d
    rw [hnd.mem_erase_iff, hx, hlive, and_assoc]
    exact and_congr_right fun hd => by rw [hclient d hd]
  have hidle : ∀ {xs : List ClientId} {q : Client κ → Prop}, ¬ q (s.client c) →
      (∀ d, d ∈ xs ↔ s.Live d ∧ q (s.client d)) → ∀ d, d ∈ xs ↔ t.Live d ∧ q (t.client d) := by
    intro xs q hq hx d
    by_cases hd : d = c
    · rw [hx, hlive, hd]
      exact ⟨fun hm => absurd hm.2 hq, fun hm => absurd rfl hm.1.1⟩
    · rw [hx, hlive, hclient d hd]
      exact and_congr_left fun _ => (and_iff_right hd).symm
  have hmine : ∀ {p : ClientId → Client κ → Prop}, (∀ d, s.Live d → p d (s.client d)) →
      ∀ d, t.Live d → p d (t.client d) := by
    intro p hp d hd
    obtain ⟨hdc, hd⟩ := (hlive d).mp hd
    rw [hclient d hdc]
    exact hp d hd
  refine ⟨⟨hmine (p := fun _ x => x.blocked = true → x.btype = .list ∨ x.btype = .wait) h.btype, ?_,
    fun d => ?_, ?_, hpanicked.trans h.alive⟩, ?_, hmine (p := fun _ x => ClientOk x) h.client,
    fun d hd => ?_, fun d hd => ?_, fun db key => ?_, fun db key => ?_, fun d => ?_, ?_, fun d => ?_, ?_,
    hflag, hmem⟩
  · rw [hqueue]
    exact h.queue_nodup.erase c
  · rw [hqueue]
    exact herase (q := fun x => x.unblocked = true) h.queue_nodup h.queue_mem d
  · have hperm := (List.perm_cons_erase (mem_live.mpr hc)).countP_eq fun d => (s.client d).blocked
    rw [List.countP_cons, hb] at hperm
    rw [hlist, hcount, h.count, hperm]
    simp only [Bool.false_eq_true, if_false, Nat.add_zero]
    congr 1
    exact List.countP_congr fun d hd => by rw [hclient d (h.live_nodup.mem_erase_iff.mp hd).1]
  · rw [hlist]
    exact h.live_nodup.erase c
  · obtain ⟨hdc, hdl⟩ := (hlive d).mp hd
    rw [hclient d hdc, hclients d hdc]
    exact h.fd d hdl
  · have hdc : d ≠ c := ((hlive d).mp (Or.inr hd)).1
    obtain ⟨h1, h2, h3, -, h4⟩ := h.cached d (hcached d hd)
    rw [hclient d hdc]
    exact ⟨h1, h2, h3, hnone d hd, h4⟩
  · rw [hkeys]
    exact hidle (q := fun x => WaitsFor x db key) (by simp [WaitsFor, hb]) (h.keys_mem db key)
  · rw [hkeys]
    exact h.keys_nodup db key
  · rw [hacks]
    exact hidle (q := fun x => x.blocked = true ∧ x.btype = .wait) (by simp [hb]) h.acks_mem d
  · rw [hacks]
    exact h.acks_nodup
  · rw [hclose]
    exact herase (q := fun x => x.close_asap = true) h.close_nodup h.close_mem d
  · rw [hclose]
    exact h.close_nodup.erase c

theorem ServerOk.unlink {s : Server κ} (h : ServerOk s) {c : ClientId} (hc : c ∈ s.clients)
    (hb : (s.client c).blocked = false) : ServerOk (unlinkClient c s) := by
  rw [unlinkClient_eq h hc]
  have hcached : ∀ m, s.cached_master = some m → m ≠ c := by
    rintro m hm rfl
    exact h.cached_notMem hm hc
  refine h.remove (live_of_mem hc) hb (fun _ _ => rfl) ?_ (fun d hd => ?_) (fun _ hd => hd) rfl rfl
    rfl rfl rfl rfl (fun d hd => ?_) (fun d hd hflag => ?_) fun m hm => ?_
  · unfold Server.live
    rw [List.erase_append_right]
    intro hm
    exact hcached c (by simpa [Option.mem_toList] using hm) rfl
  · exact h.clients_nodup.mem_erase_iff.trans (and_iff_right hd)
  · have hnone := (h.cached d hd).2.2.2.1
    simp only [hnone, ite_self]
  · have hdc : d ≠ c := by
      rcases hd with hd | hd
      · exact (h.clients_nodup.mem_erase_iff.mp hd).1
      · exact hcached d hd
    have hdl : s.Live d := hd.imp_left List.mem_of_mem_erase
    rcases h.master_flag d hdl hflag with he | he
    · refine Or.inl ?_
      have hcm : (s.client c).master = false := by
        by_contra hne
        rcases h.master_flag c (live_of_mem hc) (by simpa using hne) with h1 | h1
        · exact hdc (Option.some.inj (he.symm.trans h1))
        · exact hcached c h1 rfl
      simp only [hcm]
      exact he
    · exact Or.inr he
  · cases hcm : (s.client c).master with
    | true =>
      simp only [hcm] at hm
      cases hm
    | false =>
      simp only [hcm] at hm
      obtain ⟨h1, h2⟩ := h.master_mem m hm
      refine ⟨h.clients_nodup.mem_erase_iff.mpr ⟨?_, h1⟩, h2⟩
      rintro rfl
      rw [hcm] at h2
      cases h2

theorem ServerOk.cacheMaster {s : Server κ} (h : ServerOk s) {c : ClientId} (hc : c ∈ s.clients)
    (hm : s.master = some c) (hb : (s.client c).blocked = false)
    (hu : (s.client c).unblocked = false) (hclose : (s.client c).close_asap = false) :
    ServerOk (replicationCacheMaster c s) := by
  have hnone : s.cached_master = none := by
    cases hcm : s.cached_master with
    | none => rfl
    | some m =>
      have hmaster := (h.cached m hcm).2.2.2.1
      rw [hm] at hmaster
      cases hmaster
  unfold replicationCacheMaster
  rw [assertion_true (by simpa [hnone] using hc)]
  set t : Server κ := { s.setClient c { s.client c with hasFd := false } with
      clients := s.clients.erase c, cached_master := s.master, master := none } with ht
  have hself : t.client c = { s.client c with hasFd := false } := by
    simp [ht, Server.setClient]
  have hother : ∀ d, d ≠ c → t.client d = s.client d := by
    intro d hd
    simp [ht, Server.setClient, hd]
  have hold : s.live = s.clients := by
    simp [Server.live, hnone]
  have hperm : t.live.Perm s.live := by
    have hlist : t.live = c :: s.clients.erase c := by
      simp [Server.live, ht, hm]
    rw [hlist, hold]
    exact (List.perm_cons_erase hc).symm
  have hk : KeepsBlocked s t := ⟨sameClient_setClient (x := { s.client c with hasFd := false })
    ⟨rfl, rfl, rfl, rfl, fun _ => rfl⟩, hperm, rfl, rfl, rfl, rfl, rfl⟩
  have hflags : ∀ d, (t.client d).close_asap = (s.client d).close_asap ∧
      (t.client d).master = (s.client d).master := by
    intro d
    by_cases hd : d = c
    · rw [hd, hself]
      exact ⟨rfl, rfl⟩
    · rw [hother d hd]
      exact ⟨rfl, rfl⟩
  refine h.relink hk (fun d hd => ?_) (fun m hm' => ?_) (fun d => ?_) h.close_nodup
    (fun d hd hflag => ?_) nofun
  · show _ ↔ d ∈ s.clients.erase c
    rw [h.clients_nodup.mem_erase_iff]
    by_cases hdc : d = c
    · rw [hdc, hself]
      simp
    · rw [hother d hdc, h.fd d ((hk.live_iff d).mp hd)]
      exact (and_iff_right hdc).symm
  · have hmc : m = c := Option.some.inj ((show s.master = some m from hm').symm.trans hm)
    rw [hmc, hself]
    exact ⟨hb, hu, hclose, rfl, (h.master_mem c hm).2⟩
  · rw [hk.live_iff, (hflags d).1]
    exact h.close_mem d
  · rw [(hflags d).2] at hflag
    rcases h.master_flag d ((hk.live_iff d).mp hd) hflag with h1 | h1
    · exact Or.inr h1
    · rw [hnone] at h1
      cases h1

theorem ServerOk.closeList {s : Server κ} (h : ServerOk s) {c : ClientId} (hc : c ∈ s.clients)
    {x : Client κ} {b : Bool} (hx : x = { s.client c with close_asap := b }) {l : List ClientId}
    (hmem : ∀ d, d ∈ l ↔ if d = c then b = true else s.Live d ∧ (s.client d).close_asap = true)
    (hnd : l.Nodup) : ServerOk { s.setClient c x with clients_to_close := l } := by
  subst hx
  set t : Server κ := { s.setClient c { s.client c with close_asap := b } with
    clients_to_close := l } with ht
  have hself : t.client c = { s.client c with close_asap := b } := by simp [ht, Server.setClient]
  have hother : ∀ d, d ≠ c → t.client d = s.client d := by
    intro d hd
    simp [ht, Server.setClient, hd]
  have hflags : ∀ d, (t.client d).hasFd = (s.client d).hasFd ∧
      (t.client d).master = (s.client d).master := by
    intro d
    by_cases hd : d = c
    · rw [hd, hself]
      exact ⟨rfl, rfl⟩
    · rw [hother d hd]
      exact ⟨rfl, rfl⟩
  refine h.relink ⟨sameClient_setClient (x := { s.client c with close_asap := b })
    ⟨rfl, rfl, rfl, rfl, fun _ => rfl⟩, List.Perm.refl _, rfl, rfl, rfl, rfl, rfl⟩ (fun d hd => ?_)
    (fun m hm => ?_) (fun d => ?_) hnd (fun d hd hflag => ?_) fun m hm => ?_
  · rw [(hflags d).1]
    exact h.fd d hd
  · have hmc : m ≠ c := by
      rintro rfl
      exact h.cached_notMem hm hc
    rw [hother m hmc]
    exact h.cached m hm
  · refine (hmem d).trans ?_
    by_cases hdc : d = c
    · rw [if_pos hdc, hdc, hself]
      exact ⟨fun hb => ⟨live_of_mem hc, hb⟩, fun hb => hb.2⟩
    · rw [if_neg hdc, hother d hdc]
      rfl
  · rw [(hflags d).2] at hflag
    exact h.master_flag d hd hflag
  · rw [(hflags m).2]
    exact h.master_mem m hm

section Free

variable [DecidableEq κ]

theorem ServerOk.freeClient {s : Server κ} (h : ServerOk s) {c : ClientId} (hc : c ∈ s.clients) :
    ServerOk (freeClient c s) := by
  unfold Clients.freeClient
  dsimp only
  split
  case isTrue hcond =>
    simp only [Bool.and_eq_true, Bool.not_eq_true', Bool.or_eq_false_iff] at hcond
    obtain ⟨⟨-, hflag⟩, ⟨⟨-, hclose⟩, hb⟩, hu⟩ := hcond
    rcases h.master_flag c (live_of_mem hc) hflag with hm | hm
    · exact h.cacheMaster hc hm hb hu hclose
    · exact absurd hc (h.cached_notMem hm)
  case isFalse =>
    split
    case isTrue hb =>
      obtain ⟨h1, ho, h2, -⟩ := h.unblockClient hc hb
      exact h1.unlink (ho.clients ▸ hc) h2
    case isFalse hb => exact h.unlink hc (by simpa using hb)

omit [DecidableEq κ] in
theorem ServerOk.freeAsync {s : Server κ} (h : ServerOk s) {c : ClientId} (hc : c ∈ s.clients) :
    ServerOk (freeClientAsync c s) := by
  unfold freeClientAsync
  split
  case isTrue => exact h
  case isFalse hclose =>
    refine h.closeList hc rfl (fun d => ?_) ?_
    · rw [List.mem_append, List.mem_singleton]
      by_cases hdc : d = c
      · simp [hdc]
      · simp [hdc, h.close_mem]
    · refine List.nodup_append.mpr ⟨h.close_nodup, List.nodup_singleton c, ?_⟩
      rintro a ha b hb rfl
      exact hclose ((h.close_mem c).mp (List.mem_singleton.mp hb ▸ ha)).2

theorem ServerOk.freeQueue {s : Server κ} (h : ServerOk s) :
    ServerOk (freeClientInAsyncFreeQueue s) := by
  unfold freeClientInAsyncFreeQueue
  cases hq : s.clients_to_close with
  | nil => exact h
  | cons c rest =>
    obtain ⟨hlive, hclose⟩ := (h.close_mem c).mp (hq ▸ List.mem_cons_self)
    have hc : c ∈ s.clients := by
      rcases hlive with hc | hc
      · exact hc
      · rw [(h.cached c hc).2.2.1] at hclose
        cases hclose
    obtain ⟨hnot, hnd⟩ := List.nodup_cons.mp (hq ▸ h.close_nodup)
    refine ServerOk.freeClient (h.closeList hc rfl (fun d => ?_) hnd) hc
    by_cases hdc : d = c
    · simp [hdc, hnot]
    · have hold := h.close_mem d
      rw [hq, List.mem_cons] at hold
      simp only [hdc, false_or] at hold
      simp [hdc, hold]

theorem ServerOk.discardMaster {s : Server κ} (h : ServerOk s) :
    ServerOk (replicationDiscardCachedMaster s) := by
  unfold replicationDiscardCachedMaster
  cases hm : s.cached_master with
  | none => exact h
  | some m =>
    obtain ⟨hb, hu, hclose, hmaster, -⟩ := h.cached m hm
    have hnot := h.cached_notMem hm
    have hfd : (s.client m).hasFd = false := by
      by_contra hne
      exact hnot ((h.fd m (Or.inr hm)).mp (by simpa using hne))
    have hfree : Clients.freeClient m (s.setClient m { s.client m with master := false }) =
        s.setClient m { s.client m with master := false } := by
      unfold Clients.freeClient unlinkClient
      simp [hb, hu, hclose, hfd]
    dsimp only
    rw [hfree]
    have hqueue : m ∉ s.unblocked_clients := h.notMem_queue hu
    have hlist : m ∉ s.clients_to_close := by
      intro hmem
      have hflag := ((h.close_mem m).mp hmem).2
      rw [hclose] at hflag
      cases hflag
    refine h.remove (Or.inr hm) hb (fun d hd => setClient_of_ne hd _) ?_ (fun d _ => Iff.rfl) nofun
      (List.erase_of_not_mem hqueue).symm (List.erase_of_not_mem hlist).symm rfl rfl rfl rfl nofun
      (fun d hd hflag => ?_) fun d hd => ?_
    · simp [Server.live, hm, Server.setClient]
    · have hmem : d ∈ s.clients := by
        rcases hd with hd | hd
        · exact hd
        · cases hd
      have hdm : d ≠ m := by
        rintro rfl
        exact hnot hmem
      have hflag : (s.client d).master := by simpa [Server.setClient, hdm] using hflag
      rcases h.master_flag d (live_of_mem hmem) hflag with he | he
      · exact Or.inl he
      · exact absurd (Option.some.inj (he.symm.trans hm)) hdm
    · have hd : s.master = some d := hd
      rw [hmaster] at hd
      cases hd

omit [DecidableEq κ] in
theorem ServerOk.resurrectMaster {s : Server κ} (h : ServerOk s) :
    ServerOk (replicationResurrectCachedMaster s) := by
  unfold replicationResurrectCachedMaster
  cases hm : s.cached_master with
  | none => exact h
  | some m =>
    obtain ⟨hb, hu, hclose, hmaster, hflag⟩ := h.cached m hm
    have hnot := h.cached_notMem hm
    dsimp only
    set t : Server κ := { s.setClient m { s.client m with
        hasFd := true, close_after_reply := false, close_asap := false } with
      master := some m, cached_master := none, clients := s.clients ++ [m] } with ht
    have hself : t.client m = { s.client m with
        hasFd := true, close_after_reply := false, close_asap := false } := by
      simp [ht, Server.setClient]
    have hother : ∀ d, d ≠ m → t.client d = s.client d := by
      intro d hd
      simp [ht, Server.setClient, hd]
    have hperm : t.live.Perm s.live := by
      have h1 : t.live = s.clients ++ [m] := by simp [Server.live, ht]
      have h2 : s.live = m :: s.clients := by simp [Server.live, hm]
      rw [h1, h2]
      exact List.perm_append_comm
    have hk : KeepsBlocked s t := ⟨sameClient_setClient (x := { s.client m with
      hasFd := true, close_after_reply := false, close_asap := false })
      ⟨rfl, rfl, rfl, rfl, fun _ => rfl⟩, hperm, rfl, rfl, rfl, rfl, rfl⟩
    refine h.relink hk (fun d hd => ?_) nofun (fun d => ?_) h.close_nodup (fun d hd hflag => ?_)
      fun d hd => ?_
    · show _ ↔ d ∈ s.clients ++ [m]
      by_cases hdm : d = m
      · rw [hdm, hself]
        simp
      · rw [hother d hdm, h.fd d ((hk.live_iff d).mp hd)]
        simp [hdm]
    · rw [hk.live_iff]
      by_cases hdm : d = m
      · have hclosed := h.close_mem m
        rw [hclose] at hclosed
        rw [hdm, hself]
        exact hclosed
      · rw [hother d hdm]
        exact h.close_mem d
    · by_cases hdm : d = m
      · exact Or.inl (by rw [hdm])
      · rw [hother d hdm] at hflag
        rcases h.master_flag d ((hk.live_iff d).mp hd) hflag with he | he
        · rw [hmaster] at he
          cases he
        · exact absurd (Option.some.inj (he.symm.trans hm)) hdm
    · obtain rfl := Option.some.inj hd
      refine ⟨List.mem_append_right _ (List.mem_singleton_self m), ?_⟩
      rw [hself]
      exact hflag

/-! ## Serving -/

omit [DecidableEq κ] in
theorem ServerOk.mem_of_blocked {s : Server κ} (h : ServerOk s) {c : ClientId} (hc : s.Live c)
    (hb : (s.client c).blocked) : c ∈ s.clients := by
  rcases hc with hc | hc
  · exact hc
  · rw [(h.cached c hc).1] at hb
    cases hb

theorem ServerOk.serveKey {db : Nat} {key : κ} (rounds : Nat) {s : Server κ} (h : ServerOk s)
    (hle : rounds ≤ (s.blocking_keys db key).length) : ServerOk (serveKey db key rounds s) := by
  induction rounds generalizing s with
  | zero => exact h
  | succ rounds ih =>
    unfold Clients.serveKey
    cases hl : s.blocking_keys db key with
    | nil =>
      rw [hl] at hle
      cases hle
    | cons receiver rest =>
      obtain ⟨hlive, hb, -⟩ := (h.keys_mem db key receiver).mp (hl ▸ List.mem_cons_self)
      obtain ⟨h1, -, -, h2, -⟩ := h.unblockClient (h.mem_of_blocked hlive hb) hb
      refine ih h1 ?_
      rw [h2, hl, List.erase_cons_head]
      rw [hl, List.length_cons] at hle
      omega

theorem ServerOk.serve {s : Server κ} (h : ServerOk s) (db : Nat) (key : κ) (length : Nat) :
    ServerOk (handleClientsBlockedOnKey db key length s) :=
  h.serveKey _ (Nat.min_le_right _ _)

theorem ServerOk.ackClients (acks : Int → Int) (cs : List ClientId) {r : Server κ × Int × Int}
    (h : ServerOk r.1) (hnd : cs.Nodup) (hmem : ∀ c ∈ cs, c ∈ r.1.clients_waiting_acks) :
    ServerOk (cs.foldl (ackClient acks) r).1 := by
  induction cs generalizing r with
  | nil => exact h
  | cons c cs ih =>
    obtain ⟨hnot, hnd⟩ := List.nodup_cons.mp hnd
    obtain ⟨hlive, hb, -⟩ := (h.acks_mem c).mp (hmem c List.mem_cons_self)
    obtain ⟨h1, -, -, -, h2⟩ := h.unblockClient (h.mem_of_blocked hlive hb) hb
    have hrest : ∀ d ∈ cs, d ∈ (Clients.unblockClient c r.1).clients_waiting_acks := by
      intro d hd
      rw [h2]
      refine h.acks_nodup.mem_erase_iff.mpr ⟨?_, hmem d (List.mem_cons_of_mem c hd)⟩
      rintro rfl
      exact hnot hd
    rw [List.foldl_cons]
    unfold ackClient
    dsimp only
    split
    · exact ih (r := (Clients.unblockClient c r.1, r.2)) h1 hnd hrest
    · split
      · exact ih (r := (Clients.unblockClient c r.1, _, _)) h1 hnd hrest
      · exact ih h hnd fun d hd => hmem d (List.mem_cons_of_mem c hd)

theorem ServerOk.acknowledge {s : Server κ} (h : ServerOk s) (acks : Int → Int) :
    ServerOk (processClientsWaitingReplicas acks s) :=
  ServerOk.ackClients acks s.clients_waiting_acks h h.acks_nodup fun _ hc => hc

theorem ServerOk.clientsCron {s : Server κ} (h : ServerOk s) (env : CronEnv) {c : ClientId}
    (hc : c ∈ s.clients) : ServerOk (clientsCronHandleTimeout env c s) := by
  unfold clientsCronHandleTimeout
  dsimp only
  split
  · exact h.freeClient hc
  · split
    case isTrue hb =>
      split
      · have htype : (s.client c).btype ≠ .none := by
          rcases h.btype c (live_of_mem hc) hb with ht | ht <;> rw [ht] <;> exact nofun
        unfold replyToBlockedClientTimedOut
        rw [assertion_true (by simpa using htype)]
        exact (h.unblockClient hc hb).1
      · exact h
    case isFalse => exact h

/-! ## Runs -/

omit [DecidableEq κ] in
theorem ServerOk.setOther {s : Server κ} (h : ServerOk s) {c : ClientId} {x : Client κ}
    (hx : SameClient (s.client c) x) (hf : x.master = (s.client c).master ∧
      x.hasFd = (s.client c).hasFd ∧ x.close_asap = (s.client c).close_asap) :
    ServerOk (s.setClient c x) := h.keeps (keeps_setClient hx hf)

theorem ServerOk.runCommand {s : Server κ} (h : ServerOk s) {c : ClientId} (hc : c ∈ s.clients)
    (hb : (s.client c).blocked = false) (cmd : ClientCommand κ)
    (hu : cmd.blocks → (s.client c).multi = false → (s.client c).unblocked = false) :
    ServerOk (runCommand c cmd s) := by
  cases cmd with
  | blpop key keys timeout lookup =>
    unfold Clients.runCommand blockingPopGenericCommand
    dsimp only
    split
    case isTrue => exact h
    case isFalse hfound =>
      split
      case isTrue => exact h
      case isFalse hmulti =>
        refine h.blockForKeys hc hb (hu ?_ (by simpa using hmulti)) key keys timeout
        simpa [ClientCommand.blocks] using hfound
  | brpoplpush key timeout found =>
    unfold Clients.runCommand brpoplpushCommand
    dsimp only
    split
    case isTrue hfound =>
      split
      case isTrue => exact h
      case isFalse hmulti =>
        refine h.blockForKeys hc hb (hu ?_ (by simpa using hmulti)) key [] timeout
        simpa [ClientCommand.blocks] using hfound
    case isFalse => exact h
  | wait numreplicas timeout woff acks =>
    show ServerOk (Clients.waitCommand c numreplicas timeout woff acks s)
    by_cases hwait : acks woff ≥ numreplicas ∨ (s.client c).multi
    · unfold Clients.waitCommand
      rw [if_pos hwait]
      exact h
    · obtain ⟨h1, h2⟩ := not_or.mp hwait
      refine h.waitCommand hc hb (hu ?_ (by simpa using h2)) numreplicas timeout woff acks
      simpa [ClientCommand.blocks] using h1
  | clientPause endTime => exact h.keeps (keeps_pauseClients endTime s)
  | clientKill target =>
    unfold Clients.runCommand
    dsimp only
    split
    case isTrue htarget =>
      split
      · exact h.setOther ⟨rfl, rfl, rfl, rfl, fun _ => rfl⟩ ⟨rfl, rfl, rfl⟩
      · exact h.freeClient htarget
    case isFalse => exact h
  | select db =>
    refine h.setOther ⟨rfl, rfl, rfl, rfl, fun hbl => ?_⟩ ⟨rfl, rfl, rfl⟩
    rw [hb] at hbl
    cases hbl
  | multi inside => exact h.setOther ⟨rfl, rfl, rfl, rfl, fun _ => rfl⟩ ⟨rfl, rfl, rfl⟩
  | sync => exact h.setOther ⟨rfl, rfl, rfl, rfl, fun _ => rfl⟩ ⟨rfl, rfl, rfl⟩
  | quit => exact h.setOther ⟨rfl, rfl, rfl, rfl, fun _ => rfl⟩ ⟨rfl, rfl, rfl⟩
  | other => exact h

omit [DecidableEq κ] in
theorem checkPause_client (s : Server κ) : (checkPause s).client = s.client := by
  unfold checkPause
  split <;> rfl

theorem ServerOk.inputRound {s : Server κ} (h : ServerOk s) {c : ClientId} (hc : c ∈ s.clients)
    (cmd : ClientCommand κ) (hpause : (s.client c).slave ∨ pauseHarmless s)
    (hu : cmd.blocks → (s.client c).multi = false → (s.client c).unblocked = false) :
    ServerOk (inputRound c cmd s) := by
  unfold Clients.inputRound
  have hk : Keeps s (if (s.client c).slave then s else checkPause s) := by
    split
    case isTrue => exact .of_client rfl rfl rfl rfl rfl rfl rfl rfl rfl rfl
    case isFalse hslave => exact keeps_checkPause (hpause.resolve_left hslave)
  have hsame : (if (s.client c).slave then s else checkPause s).client = s.client := by
    split
    · rfl
    · exact checkPause_client s
  dsimp only
  generalize (if (s.client c).slave then s else checkPause s) = t at hk hsame
  have ht := h.keeps hk
  split
  case isTrue => exact ht
  case isFalse hgo =>
    simp only [inputStops, Bool.or_eq_true, not_or, Bool.not_eq_true] at hgo
    refine ht.runCommand (hk.clients ▸ hc) hgo.1.2 cmd ?_
    rw [hsame]
    exact hu

theorem ServerOk.step {s : Server κ} (h : ServerOk s) {e : Event κ} (he : stepHarmless s e) :
    ServerOk (step s e) := by
  unfold Clients.step
  split
  case isTrue => exact h
  case isFalse =>
    cases e with
    | connect a now =>
      dsimp only
      split
      · exact h
      · exact (h.create ‹_› now).1
    | connectMaster a now =>
      dsimp only
      split
      case isTrue => exact h
      case isFalse hnew =>
        obtain ⟨h1, hnew⟩ := not_or.mp hnew
        obtain ⟨h2, h3⟩ := not_or.mp hnew
        obtain ⟨h4, h5, h6, h7, -⟩ := h.create h1 now
        refine h4.connectMaster ?_ (h5.trans (by simpa using h2)) (h6.trans (by simpa using h3))
        rw [h7]
        exact List.mem_append_right _ (List.mem_singleton_self a)
    | input c cmd =>
      simp only [stepHarmless, Bool.and_eq_true, Bool.or_eq_true, Bool.not_eq_true'] at he
      dsimp only
      split
      case isTrue hc =>
        refine h.inputRound hc cmd he.1 fun hblocks hmulti => ?_
        have hu := he.2
        rw [hblocks, hmulti] at hu
        simpa using hu
      case isFalse => exact h
    | serve db key length => exact h.serve db key length
    | acknowledge acks => exact h.acknowledge acks
    | unblock => exact h.processUnblocked
    | clientsCron env c =>
      dsimp only
      split
      · exact h.clientsCron env ‹_›
      · exact h
    | free c =>
      dsimp only
      split
      · exact h.freeClient ‹_›
      · exact h
    | freeAsync c =>
      dsimp only
      split
      · exact h.freeAsync ‹_›
      · exact h
    | freeQueue => exact h.freeQueue
    | serverCron mstime =>
      have hk : Keeps s { s with mstime := mstime } :=
        .of_client rfl rfl rfl rfl rfl rfl rfl rfl rfl rfl
      exact (h.keeps hk).keeps (keeps_checkPause he)
    | mfstart endTime => exact h.keeps (keeps_pauseClients endTime s)
    | mfend =>
      simp only [stepHarmless, Bool.and_eq_true] at he
      exact h.endPause he.1 he.2
    | discardMaster => exact h.discardMaster
    | resurrectMaster => exact h.resurrectMaster

end Free

theorem serverOk_init (mstime : Int) (client : ClientId → Client κ) :
    ServerOk (initServer mstime client) := by
  have hlive : ∀ c, ¬ (initServer mstime client).Live c := by
    rintro c (hc | hc) <;> cases hc
  refine ⟨⟨fun c hc => absurd hc (hlive c), List.nodup_nil, fun c => ?_, rfl, rfl⟩, List.nodup_nil,
    fun c hc => absurd hc (hlive c), fun c hc => absurd hc (hlive c), nofun, fun db key c => ?_,
    fun _ _ => List.nodup_nil, fun c => ?_, List.nodup_nil, fun c => ?_, List.nodup_nil,
    fun c hc => absurd hc (hlive c), nofun⟩
  all_goals exact ⟨nofun, fun hc => absurd hc.1 (hlive c)⟩

/-- In every run in which no pause ends with clients that are no slaves, and no client blocks that
still is in the queue of unblocked clients, flags, queue and counter agree in every state. -/
theorem blocked_clients_run [DecidableEq κ] (mstime : Int) (client : ClientId → Client κ)
    (es : List (Event κ))
    (hok : RunMeets step (fun s e => stepHarmless s e) (initServer mstime client) es) :
    BlockedOk (run step (initServer mstime client) es) := by
  have h : ServerOk (run step (initServer mstime client) es) :=
    run_inv (fun s e hs he => hs.step he) (serverOk_init mstime client) hok
  exact h.toBlockedOk

def noClient : Client Nat :=
  { blocked := false, unblocked := false, slave := false, master := false, multi := false
    close_after_reply := false, close_asap := false, btype := .none, db := 0, keys := [], timeout := 0
    reploffset := 0, numreplicas := 0, hasFd := false, lastinteraction := 0 }

/-- Two clients wait for the same key, and one of them is served and blocks again. -/
theorem blocked_clients_served : BlockedOk (run step (initServer 0 fun _ => noClient)
    [.connect 1 0, .connect 2 0, .input 1 (.blpop 5 [6] 0 fun _ => .missing),
      .input 2 (.blpop 5 [] 0 fun _ => .missing), .serve 0 5 1, .unblock,
      .input 1 (.wait 1 100 0 fun _ => 0), .free 2]) := by
  refine blocked_clients_run 0 (fun _ => noClient) _ ?_
  decide

/-- In these runs every list of waiting clients is exact: the clients of a key, those that wait for
acknowledgements and those to be closed are in their lists, once, and nobody else is. -/
theorem waiting_lists_run [DecidableEq κ] (mstime : Int) (client : ClientId → Client κ)
    (es : List (Event κ))
    (hok : RunMeets step (fun s e => stepHarmless s e) (initServer mstime client) es) :
    ServerOk (run step (initServer mstime client) es) :=
  run_inv (fun _ _ hs he => hs.step he) (serverOk_init mstime client) hok

theorem waiting_lists_served : ServerOk (run step (initServer 0 fun _ => noClient)
    [.connect 1 0, .connect 2 0, .input 1 (.blpop 5 [6] 0 fun _ => .missing),
      .input 2 (.wait 1 100 0 fun _ => 0), .serve 0 5 1]) :=
  waiting_lists_run 0 (fun _ => noClient) _ (by decide)

/-- A pause ends: the client is in the queue, but not flagged. -/
theorem blocked_clients_paused : ¬ ∀ es : List (Event Nat),
    BlockedOk (run step (initServer 0 fun _ => noClient) es) := by
  intro h
  have hq := (h [.connect 1 0, .input 1 (.clientPause 100), .serverCron 200]).queue_mem 1
  revert hq
  decide

/-- A client that is served blocks again before its input is looked at: its type is lost, and
serving it once more panics. -/
example : (run step (initServer 0 fun _ => noClient)
    [.connect 1 0, .input 1 (.blpop 5 [] 0 fun _ => .missing), .serve 0 5 1,
      .input 1 (.blpop 5 [] 0 fun _ => .missing), .unblock, .serve 0 5 1]).panicked =
      some .unblockClient := by
  decide

end RedisCluster.Clients
