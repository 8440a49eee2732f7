import Mathlib.Data.List.Count
import Mathlib.Data.List.Nodup

/-!
# A relation kept in both directions

Every node has a pointer up to at most one other node, and a list of the nodes that point to it.
`TwoWay` says that the two agree on the nodes of a table and that neither leads out of it. An edit of
the relation changes the pointer of one node, and its entries in the lists.
-/

namespace RedisCluster.Lib

variable {α : Type*} [DecidableEq α]

structure TwoWay (N : List α) (up : α → Option α) (down : α → List α) : Prop where
  count : ∀ m ∈ N, ∀ s ∈ N, (down m).count s = if up s = some m then 1 else 0
  up_mem : ∀ s ∈ N, ∀ m, up s = some m → m ∈ N
  down_mem : ∀ m ∈ N, ∀ s ∈ down m, s ∈ N

namespace TwoWay

variable {N : List α} {up : α → Option α} {down : α → List α}

theorem mem_down (h : TwoWay N up down) {m s : α} (hm : m ∈ N) (hs : s ∈ N) :
    s ∈ down m ↔ up s = some m := by
  rw [← List.count_pos_iff, h.count m hm s hs]
  split <;> simp [*]

theorem nodup (h : TwoWay N up down) {m : α} (hm : m ∈ N) : (down m).Nodup := by
  refine List.nodup_iff_count_le_one.mpr fun s => ?_
  by_cases hs : s ∈ down m
  · rw [h.count m hm s (h.down_mem m hm s hs)]
    split <;> omega
  · rw [List.count_eq_zero_of_not_mem hs]
    omega

theorem congr (h : TwoWay N up down) {N' : List α} {up' : α → Option α} {down' : α → List α}
    (hN : ∀ n, n ∈ N' ↔ n ∈ N) (hup : ∀ n ∈ N, up' n = up n) (hdown : ∀ n ∈ N, down' n = down n) :
    TwoWay N' up' down' := by
  refine ⟨fun m hm s hs => ?_, fun s hs m hsm => ?_, fun m hm s hs => ?_⟩
  · rw [hN] at hm hs
    rw [hdown m hm, hup s hs]
    exact h.count m hm s hs
  · rw [hN] at hs ⊢
    rw [hup s hs] at hsm
    exact h.up_mem s hs m hsm
  · rw [hN] at hm ⊢
    rw [hdown m hm] at hs
    exact h.down_mem m hm s hs

theorem detach (h : TwoWay N up down) {n : α} {up' : α → Option α} {down' : α → List α}
    (hn : up' n = none) (hup : ∀ s ∈ N, s ≠ n → up' s = up s)
    (hdown : ∀ m ∈ N, down' m = (down m).erase n) : TwoWay N up' down' := by
  refine ⟨fun m hm s hs => ?_, fun s hs m hsm => ?_, fun m hm s hs => ?_⟩
  · rw [hdown m hm]
    by_cases hsn : s = n
    · rw [hsn, hn, List.count_erase_self, ← hsn, h.count m hm s hs]
      split <;> simp
    · rw [List.count_erase_of_ne hsn, hup s hs hsn]
      exact h.count m hm s hs
  · by_cases hsn : s = n
    · rw [hsn, hn] at hsm
      cases hsm
    · rw [hup s hs hsn] at hsm
      exact h.up_mem s hs m hsm
  · rw [hdown m hm] at hs
    exact h.down_mem m hm s (List.mem_of_mem_erase hs)

theorem attach (h : TwoWay N up down) {n k : α} {up' : α → Option α} {down' : α → List α}
    (hn : n ∈ N) (hk : k ∈ N) (hfree : up n = none) (hset : up' n = some k)
    (hup : ∀ s ∈ N, s ≠ n → up' s = up s) (hlist : down' k = down k ++ [n])
    (hdown : ∀ m ∈ N, m ≠ k → down' m = down m) : TwoWay N up' down' := by
  refine ⟨fun m hm s hs => ?_, fun s hs m hsm => ?_, fun m hm s hs => ?_⟩
  · have hcount := h.count m hm s hs
    by_cases hmk : m = k
    · rw [hmk, hlist, List.count_append, ← hmk, hcount]
      by_cases hsn : s = n
      · rw [hsn, hfree, hset]
        simp [hmk]
      · rw [hup s hs hsn]
        simp [Ne.symm hsn]
    · rw [hdown m hm hmk, hcount]
      by_cases hsn : s = n
      · rw [hsn, hfree, hset]
        simp [Ne.symm hmk]
      · rw [hup s hs hsn]
  · by_cases hsn : s = n
    · rw [hsn, hset] at hsm
      exact Option.some.inj hsm ▸ hk
    · rw [hup s hs hsn] at hsm
      exact h.up_mem s hs m hsm
  · by_cases hmk : m = k
    · rw [hmk, hlist] at hs
      rcases List.mem_append.mp hs with hs | hs
      · exact h.down_mem k hk s hs
      · exact List.mem_singleton.mp hs ▸ hn
    · rw [hdown m hm hmk] at hs
      exact h.down_mem m hm s hs

theorem follow (h : TwoWay N up down) {n k : α} {up' : α → Option α} {down' : α → List α}
    (hn : n ∈ N) (hk : k ∈ N) (hset : up' n = some k) (hup : ∀ s ∈ N, s ≠ n → up' s = up s)
    (hlist : down' k = (down k).erase n ++ [n])
    (hdown : ∀ m ∈ N, m ≠ k → down' m = (down m).erase n) : TwoWay N up' down' := by
  have hfree : TwoWay N (Function.update up n none) fun m => (down m).erase n :=
    h.detach (Function.update_self n none up) (fun s _ hsn => Function.update_of_ne hsn none up)
      fun _ _ => rfl
  refine hfree.attach hn hk (Function.update_self n none up) hset (fun s hs hsn => ?_) hlist hdown
  rw [hup s hs hsn, Function.update_of_ne hsn]

theorem remove (h : TwoWay N up down) (hnd : N.Nodup) {n : α} {down' : α → List α}
    (hfree : ∀ s ∈ N, s ≠ n → up s ≠ some n)
    (hdown : ∀ m ∈ N, m ≠ n → down' m = (down m).erase n) : TwoWay (N.erase n) up down' := by
  have hmem : ∀ m, m ∈ N.erase n ↔ m ≠ n ∧ m ∈ N := fun m => hnd.mem_erase_iff
  refine ⟨fun m hm s hs => ?_, fun s hs m hsm => ?_, fun m hm s hs => ?_⟩
  · obtain ⟨hmn, hm⟩ := (hmem m).mp hm
    obtain ⟨hsn, hs⟩ := (hmem s).mp hs
    rw [hdown m hm hmn, List.count_erase_of_ne hsn]
    exact h.count m hm s hs
  · obtain ⟨hsn, hsN⟩ := (hmem s).mp hs
    refine (hmem m).mpr ⟨fun hmn => ?_, h.up_mem s hsN m hsm⟩
    exact hfree s hsN hsn (hmn ▸ hsm)
  · obtain ⟨hmn, hmN⟩ := (hmem m).mp hm
    rw [hdown m hmN hmn] at hs
    obtain ⟨hsn, hsm⟩ := (h.nodup hmN).mem_erase_iff.mp hs
    exact (hmem s).mpr ⟨hsn, h.down_mem m hmN s hsm⟩

theorem insert (h : TwoWay N up down) {n : α} {up' : α → Option α} {down' : α → List α}
    (hn : n ∉ N) (hself : up' n = none) (hlist : down' n = [])
    (hup : ∀ s ∈ N, up' s = up s) (hdown : ∀ m ∈ N, down' m = down m) :
    TwoWay (n :: N) up' down' := by
  refine ⟨fun m hm s hs => ?_, fun s hs m hsm => ?_, fun m hm s hs => ?_⟩
  · rcases List.mem_cons.mp hm with hm | hm <;> rcases List.mem_cons.mp hs with hs | hs
    · rw [hm, hs, hlist, hself]
      simp
    · rw [hm, hlist, hup s hs]
      have hne : up s ≠ some n := fun he => hn (h.up_mem s hs n he)
      simp [hne]
    · have hzero : (down m).count n = 0 :=
        List.count_eq_zero_of_not_mem fun hmem => hn (h.down_mem m hm n hmem)
      rw [hs, hdown m hm, hself, hzero]
      simp
    · rw [hdown m hm, hup s hs]
      exact h.count m hm s hs
  · rcases List.mem_cons.mp hs with rfl | hs
    · rw [hself] at hsm
      cases hsm
    · rw [hup s hs] at hsm
      exact List.mem_cons_of_mem _ (h.up_mem s hs m hsm)
  · rcases List.mem_cons.mp hm with rfl | hm
    · rw [hlist] at hs
      cases hs
    · rw [hdown m hm] at hs
      exact List.mem_cons_of_mem _ (h.down_mem m hm s hs)

end TwoWay

end RedisCluster.Lib
