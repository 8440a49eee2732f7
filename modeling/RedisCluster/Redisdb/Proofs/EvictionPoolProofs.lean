import RedisCluster.Redisdb.EvictionPool

/-!
# Proofs: the eviction pool

A pool changes by four moves: a new entry at its end, a new entry with a shift to the right or to the left, and the
removal of its last entry. Each keeps the order of the idle times and the owners of the key strings. A scan that finds
no key of the dict leaves an empty pool, and then the samples of the next round have their place.
-/

namespace RedisCluster.Redisdb.Eviction

open RedisCluster.Util

variable {pool pool' : Pool} {n k : Nat} {heap : Heap} {e : Entry}

theorem Ordered.init : Ordered evictionPoolAlloc.pool 0 where
  size := Nat.zero_le _
  used := nofun
  unused _ _ _ := rfl
  sorted _ _ _ h := absurd h (Nat.not_lt_zero _)

theorem Ordered.isSome_iff (h : Ordered pool n) {j : Nat} (hj : j < REDIS_EVICTION_POOL_SIZE) :
    (pool j).key.isSome ↔ j < n := by
  constructor
  · intro hsome
    by_contra hno
    rw [h.unused j (not_lt.mp hno) hj] at hsome
    cases hsome
  · exact h.used j

theorem Ordered.isNone_iff (h : Ordered pool n) {j : Nat} (hj : j < REDIS_EVICTION_POOL_SIZE) :
    (pool j).key.isNone ↔ n ≤ j := by
  rw [← not_lt, ← h.isSome_iff hj, ← Option.not_isSome, Bool.not_eq_true']
  exact Bool.not_eq_true _ ▸ Iff.rfl

/-- `k` is the first place whose entry is free or has an idle time that is not smaller. -/
structure PlaceFor (pool : Pool) (n idle k : Nat) : Prop where
  le : k ≤ n
  below : ∀ j < k, (pool j).idle < idle
  above : k < n → idle ≤ (pool k).idle

theorem findPlace_spec (h : Ordered pool n) (idle : Nat) (fuel : Nat) {k : Nat}
    (hfuel : k + fuel = REDIS_EVICTION_POOL_SIZE) (hle : k ≤ n) (hbelow : ∀ j < k, (pool j).idle < idle) :
    PlaceFor pool n idle (findPlace pool idle fuel k) := by
  induction fuel generalizing k with
  | zero =>
    have hsize := h.size
    exact ⟨hle, hbelow, fun hlt => absurd hlt (by rw [findPlace]; omega)⟩
  | succ fuel ih =>
    have hk : k < REDIS_EVICTION_POOL_SIZE := by omega
    rw [findPlace]
    by_cases hnext : (pool k).key.isSome ∧ (pool k).idle < idle
    · rw [if_pos hnext]
      refine ih (by omega) ((h.isSome_iff hk).mp hnext.1) fun j hj => ?_
      rcases Nat.lt_succ_iff_lt_or_eq.mp hj with hj | rfl
      · exact hbelow j hj
      · exact hnext.2
    · rw [if_neg hnext]
      exact ⟨hle, hbelow, fun hlt => not_lt.mp fun hidle => hnext ⟨h.used k hlt, hidle⟩⟩

def EntryOf (s : Sample) (e : Entry) : Prop := e.idle = s.idle ∧ ∃ addr, e.key = some { addr := addr, text := s.key }

theorem EntryOf.isSome {s : Sample} (h : EntryOf s e) : e.key.isSome := by
  obtain ⟨-, addr, heq⟩ := h
  rw [heq]
  rfl

variable {s : Sample}

theorem Ordered.putEnd (h : Ordered pool n) (hn : n < REDIS_EVICTION_POOL_SIZE) (hplace : PlaceFor pool n s.idle n)
    (he : EntryOf s e) : Ordered (fun j => if j = n then e else pool j) (n + 1) where
  size := hn
  used j hj := by
    split_ifs with hjn
    · exact he.isSome
    · exact h.used j (by omega)
  unused j hj hlt := by
    rw [if_neg (by omega)]
    exact h.unused j (by omega) hlt
  sorted i j hij hj := by
    split_ifs with hi hjn hjn
    · exact le_rfl
    · omega
    · rw [he.1]
      exact le_of_lt (hplace.below i (by omega))
    · exact h.sorted i j hij (by omega)

theorem Ordered.shiftRight (h : Ordered pool n) (hn : n < REDIS_EVICTION_POOL_SIZE) (hplace : PlaceFor pool n s.idle k)
    (hk : k < n) (he : EntryOf s e) :
    Ordered (fun j => if j = k then e else if k + 1 ≤ j ∧ j < REDIS_EVICTION_POOL_SIZE then pool (j - 1) else pool j)
      (n + 1) where
  size := hn
  used j hj := by
    split_ifs with hjk hmoved
    · exact he.isSome
    · exact h.used (j - 1) (by omega)
    · exact h.used j (by omega)
  unused j hj hlt := by
    rw [if_neg (by omega), if_pos (by omega)]
    exact h.unused (j - 1) (by omega) (by omega)
  sorted i j hij hj := by
    split_ifs with hi hjk hjk' himoved hjk hjmoved hjk hjmoved
    · exact le_rfl
    · rw [he.1]
      exact le_trans (hplace.above hk) (h.sorted k (j - 1) (by omega) (by omega))
    · omega
    · omega
    · exact h.sorted (i - 1) (j - 1) (by omega) (by omega)
    · omega
    · rw [he.1]
      exact le_of_lt (hplace.below i (by omega))
    · exact h.sorted i (j - 1) (by omega) (by omega)
    · exact h.sorted i j hij (by omega)

theorem Ordered.shiftLeft (h : Ordered pool REDIS_EVICTION_POOL_SIZE)
    (hplace : PlaceFor pool REDIS_EVICTION_POOL_SIZE s.idle (k + 1)) (he : EntryOf s e) :
    Ordered (fun j => if j = k then e else if 0 ≤ j ∧ j < 0 + k then pool (1 + (j - 0)) else pool j)
      REDIS_EVICTION_POOL_SIZE where
  size := le_rfl
  used j hj := by
    have hle := hplace.le
    split_ifs with hjk hmoved
    · exact he.isSome
    · exact h.used (1 + (j - 0)) (by omega)
    · exact h.used j hj
  unused j hj hlt := absurd hlt (not_lt.mpr hj)
  sorted i j hij hj := by
    have hle := hplace.le
    split_ifs with hi hjk hjmoved himoved hjk hjmoved hjk hjmoved
    · exact le_rfl
    · omega
    · rw [he.1]
      exact le_trans (hplace.above (by omega)) (h.sorted (k + 1) j (by omega) hj)
    · rw [he.1]
      exact le_of_lt (hplace.below (1 + (i - 0)) (by omega))
    · exact h.sorted _ _ (by omega) (by omega)
    · exact h.sorted _ j (by omega) hj
    · omega
    · omega
    · exact h.sorted i j hij hj

theorem Ordered.removeLast (h : Ordered pool (k + 1)) :
    Ordered (fun j => if j = REDIS_EVICTION_POOL_SIZE - 1 then Entry.empty
      else if k ≤ j ∧ j < k + (REDIS_EVICTION_POOL_SIZE - k - 1) then pool (k + 1 + (j - k)) else pool j) k where
  size := Nat.le_of_succ_le h.size
  used j hj := by
    have hsize := h.size
    rw [if_neg (by omega), if_neg (by omega)]
    exact h.used j (by omega)
  unused j hj hlt := by
    split_ifs with hlast hmoved
    · rfl
    · exact h.unused _ (by omega) (by omega)
    · omega
  sorted i j hij hj := by
    have hsize := h.size
    rw [if_neg (by omega), if_neg (by omega), if_neg (by omega), if_neg (by omega)]
    exact h.sorted i j hij (by omega)

theorem Owned.init : Owned evictionPoolAlloc where
  owner a ha := absurd ha (Finset.notMem_empty a)
  live := by
    rintro j a ⟨-, s, hs, -⟩
    cases hs

theorem owns_congr (h : ∀ j < REDIS_EVICTION_POOL_SIZE, (pool' j).key = (pool j).key) (j a : Nat) :
    Owns pool' j a ↔ Owns pool j a := by
  unfold Owns
  exact and_congr_right fun hj => by rw [h j hj]

theorem Owned.congr (h : Owned { heap := heap, pool := pool })
    (hkeys : ∀ j < REDIS_EVICTION_POOL_SIZE, (pool' j).key = (pool j).key) : Owned { heap := heap, pool := pool' } where
  owner a ha := by
    obtain ⟨j, hj, huniq⟩ := h.owner a ha
    exact ⟨j, (owns_congr hkeys j a).mpr hj, fun i hi => huniq i ((owns_congr hkeys i a).mp hi)⟩
  live j a hj := h.live j a ((owns_congr hkeys j a).mp hj)

theorem owns_inj {j a b : Nat} (ha : Owns pool j a) (hb : Owns pool j b) : a = b := by
  obtain ⟨-, s, hs, rfl⟩ := ha
  obtain ⟨-, t, ht, rfl⟩ := hb
  rw [hs] at ht
  cases ht
  rfl

theorem Owned.inj (h : Owned { heap := heap, pool := pool }) {i j a : Nat} (hi : Owns pool i a) (hj : Owns pool j a) :
    i = j := by
  obtain ⟨l, -, huniq⟩ := h.owner a (h.live i a hi)
  exact (huniq i hi).trans (huniq j hj).symm

theorem Owned.clear (h : Owned { heap := heap, pool := pool }) {i : Nat} {s : Sds} (hi : i < REDIS_EVICTION_POOL_SIZE)
    (hkey : (pool i).key = some s) (he : e.key = none) :
    Owned { heap := heap.erase s.addr, pool := fun j => if j = i then e else pool j } := by
  have howns : Owns pool i s.addr := ⟨hi, s, hkey, rfl⟩
  have hnew (j a : Nat) : Owns (fun j => if j = i then e else pool j) j a ↔ j ≠ i ∧ Owns pool j a := by
    unfold Owns
    dsimp only
    by_cases hji : j = i
    · rw [if_pos hji, he]
      exact iff_of_false (fun h => by obtain ⟨-, t, ht, -⟩ := h; cases ht) fun h => h.1 hji
    · rw [if_neg hji]
      exact ⟨fun h => ⟨hji, h⟩, fun h => h.2⟩
  constructor
  · intro a ha
    obtain ⟨hne, hmem⟩ := Finset.mem_erase.mp ha
    obtain ⟨j, hj, huniq⟩ := h.owner a hmem
    refine ⟨j, (hnew j a).mpr ⟨?_, hj⟩, fun l hl => huniq l ((hnew l a).mp hl).2⟩
    rintro rfl
    exact hne (owns_inj hj howns)
  · intro j a hj
    obtain ⟨hne, hj⟩ := (hnew j a).mp hj
    refine Finset.mem_erase.mpr ⟨?_, h.live j a hj⟩
    rintro rfl
    exact hne (h.inj hj howns)

theorem Owned.permute (h : Owned { heap := heap, pool := pool }) (σ back : Nat → Nat)
    (hσ : ∀ j < REDIS_EVICTION_POOL_SIZE, σ j < REDIS_EVICTION_POOL_SIZE)
    (hback : ∀ j < REDIS_EVICTION_POOL_SIZE, back j < REDIS_EVICTION_POOL_SIZE)
    (hleft : ∀ j < REDIS_EVICTION_POOL_SIZE, back (σ j) = j)
    (hright : ∀ j < REDIS_EVICTION_POOL_SIZE, σ (back j) = j) :
    Owned { heap := heap, pool := fun j => pool (σ j) } := by
  have hnew (j a : Nat) (hj : j < REDIS_EVICTION_POOL_SIZE) :
      Owns (fun j => pool (σ j)) j a ↔ Owns pool (σ j) a :=
    ⟨fun h => ⟨hσ j hj, h.2⟩, fun h => ⟨hj, h.2⟩⟩
  constructor
  · intro a ha
    obtain ⟨j, hj, huniq⟩ := h.owner a ha
    have hlt := hback j hj.1
    refine ⟨back j, (hnew _ a hlt).mpr (by rw [hright j hj.1]; exact hj), fun l hl => ?_⟩
    rw [← huniq (σ l) ((hnew l a hl.1).mp hl), hleft l hl.1]
  · intro j a hj
    exact h.live (σ j) a ((hnew j a hj.1).mp hj)

theorem Owned.put (h : Owned { heap := heap, pool := pool }) {s : Sds} (hk : k < REDIS_EVICTION_POOL_SIZE)
    (hfree : (pool k).key = none) (he : e.key = some s) (hfresh : s.addr ∉ heap) :
    Owned { heap := insert s.addr heap, pool := fun j => if j = k then e else pool j } := by
  have hnew (j a : Nat) : Owns (fun j => if j = k then e else pool j) j a ↔
      j = k ∧ s.addr = a ∨ j ≠ k ∧ Owns pool j a := by
    unfold Owns
    dsimp only
    by_cases hjk : j = k
    · rw [if_pos hjk, he]
      constructor
      · rintro ⟨-, t, ht, rfl⟩
        cases ht
        exact Or.inl ⟨hjk, rfl⟩
      · rintro (⟨-, ha⟩ | ⟨hne, -⟩)
        · exact ⟨hjk ▸ hk, s, rfl, ha⟩
        · exact absurd hjk hne
    · rw [if_neg hjk]
      exact ⟨fun h => Or.inr ⟨hjk, h⟩, fun h => (h.resolve_left fun h => hjk h.1).2⟩
  constructor
  · intro a ha
    rcases Finset.mem_insert.mp ha with rfl | ha
    · refine ⟨k, (hnew k _).mpr (Or.inl ⟨rfl, rfl⟩), fun l hl => ?_⟩
      rcases (hnew l _).mp hl with ⟨hl, -⟩ | ⟨-, hl⟩
      · exact hl
      · exact absurd (h.live l _ hl) hfresh
    · obtain ⟨j, hj, huniq⟩ := h.owner a ha
      have hne : j ≠ k := by
        rintro rfl
        obtain ⟨-, t, ht, -⟩ := hj
        rw [hfree] at ht
        cases ht
      refine ⟨j, (hnew j a).mpr (Or.inr ⟨hne, hj⟩), fun l hl => ?_⟩
      rcases (hnew l a).mp hl with ⟨-, rfl⟩ | ⟨-, hl⟩
      · exact absurd ha hfresh
      · exact huniq l hl
  · intro j a hj
    rcases (hnew j a).mp hj with ⟨-, rfl⟩ | ⟨-, hj⟩
    · exact Finset.mem_insert_self _ _
    · exact Finset.mem_insert_of_mem (h.live j a hj)

variable {alloc : Allocator} {st : State}

def newEntry (alloc : Allocator) (heap : Heap) (s : Sample) : Entry :=
  { idle := s.idle, key := some { addr := alloc.next heap, text := s.key } }

theorem newEntry_of (alloc : Allocator) (heap : Heap) (s : Sample) : EntryOf s (newEntry alloc heap s) :=
  ⟨rfl, _, rfl⟩

theorem store_eq (heap : Heap) (pool : Pool) (hk : k < REDIS_EVICTION_POOL_SIZE) (s : Sample) :
    store alloc heap pool k s =
      some { heap := insert (alloc.next heap) heap, pool := fun j => if j = k then newEntry alloc heap s else pool j } := by
  unfold store set
  dsimp only
  rw [if_pos hk]
  rfl

variable (alloc) in
theorem Owned.store (h : Owned { heap := heap, pool := pool }) (hk : k < REDIS_EVICTION_POOL_SIZE)
    (hfree : (pool k).key = none) (s : Sample) :
    Owned { heap := insert (alloc.next heap) heap, pool := fun j => if j = k then newEntry alloc heap s else pool j } :=
  h.put (s := { addr := alloc.next heap, text := s.key }) hk hfree rfl (alloc.fresh heap)

def Holds (pool : Pool) (text : Bytes) : Prop :=
  ∃ j < REDIS_EVICTION_POOL_SIZE, ∃ key, (pool j).key = some key ∧ key.text = text

theorem holds_new (alloc : Allocator) (heap : Heap) (pool : Pool) (hk : k < REDIS_EVICTION_POOL_SIZE) (s : Sample) :
    Holds (fun j => if j = k then newEntry alloc heap s else pool j) s.key :=
  ⟨k, hk, { addr := alloc.next heap, text := s.key }, by dsimp only; rw [if_pos rfl]; rfl, rfl⟩

theorem shiftRight_owned (h : Owned { heap := heap, pool := pool }) (hk : k < REDIS_EVICTION_POOL_SIZE) :
    Owned { heap := heap, pool := fun j => if j = k then pool (REDIS_EVICTION_POOL_SIZE - 1)
      else if k + 1 ≤ j ∧ j < REDIS_EVICTION_POOL_SIZE then pool (j - 1) else pool j } := by
  have hmoved := h.permute
    (fun j => if j = k then REDIS_EVICTION_POOL_SIZE - 1
      else if k + 1 ≤ j ∧ j < REDIS_EVICTION_POOL_SIZE then j - 1 else j)
    (fun j => if j = REDIS_EVICTION_POOL_SIZE - 1 then k else if k ≤ j then j + 1 else j)
    (by intro j hj; split_ifs <;> omega) (by intro j hj; split_ifs <;> omega)
    (by intro j hj; split_ifs <;> omega) (by intro j hj; split_ifs <;> omega)
  refine hmoved.congr fun j _ => ?_
  split_ifs <;> rfl

theorem shiftLeft_owned (h : Owned { heap := heap, pool := pool }) (hk : k < REDIS_EVICTION_POOL_SIZE) :
    Owned { heap := heap, pool := fun j => if j = k then pool 0
      else if 0 ≤ j ∧ j < 0 + k then pool (1 + (j - 0)) else pool j } := by
  have hmoved := h.permute
    (fun j => if j = k then 0 else if 0 ≤ j ∧ j < 0 + k then 1 + (j - 0) else j)
    (fun j => if j = 0 then k else if j ≤ k then j - 1 else j)
    (by intro j hj; split_ifs <;> omega) (by intro j hj; split_ifs <;> omega)
    (by intro j hj; split_ifs <;> omega) (by intro j hj; split_ifs <;> omega)
  refine hmoved.congr fun j _ => ?_
  split_ifs <;> rfl

variable (alloc) in
theorem insertSample_ok (h : PoolOk st) (s : Sample) :
    ∃ st', insertSample alloc st s = some st' ∧ PoolOk st' ∧
      (Holds st'.pool s.key ∨ st' = st ∧ Ordered st.pool REDIS_EVICTION_POOL_SIZE) := by
  obtain ⟨heap, pool⟩ := st
  obtain ⟨⟨n, hord⟩, howned⟩ := h
  have hord : Ordered pool n := hord
  have hsize := hord.size
  have hplace := findPlace_spec hord s.idle REDIS_EVICTION_POOL_SIZE (Nat.zero_add _) (Nat.zero_le n) nofun
  have hlastSize : REDIS_EVICTION_POOL_SIZE - 1 < REDIS_EVICTION_POOL_SIZE := by decide
  have hlast := hord.isSome_iff hlastSize
  have hlastNone := hord.isNone_iff hlastSize
  unfold insertSample
  dsimp only
  generalize findPlace pool s.idle REDIS_EVICTION_POOL_SIZE 0 = k at hplace
  have hkn := hplace.le
  by_cases hskip : k = 0 ∧ (pool (REDIS_EVICTION_POOL_SIZE - 1)).key.isSome
  · have hfull : n = REDIS_EVICTION_POOL_SIZE := by
      have := hlast.mp hskip.2
      omega
    rw [if_pos hskip]
    exact ⟨_, rfl, ⟨⟨n, hord⟩, howned⟩, Or.inr ⟨rfl, hfull ▸ hord⟩⟩
  rw [if_neg hskip]
  by_cases hend : k < REDIS_EVICTION_POOL_SIZE ∧ (pool k).key.isNone
  · obtain rfl : k = n := by
      have := (hord.isNone_iff hend.1).mp hend.2
      omega
    rw [if_pos hend, store_eq heap pool hend.1 s]
    exact ⟨_, rfl, ⟨⟨k + 1, hord.putEnd hend.1 hplace (newEntry_of ..)⟩,
      howned.store alloc hend.1 (Option.isNone_iff_eq_none.mp hend.2) s⟩, Or.inl (holds_new alloc heap pool hend.1 s)⟩
  rw [if_neg hend]
  by_cases hroom : (pool (REDIS_EVICTION_POOL_SIZE - 1)).key.isNone
  · have hn : n < REDIS_EVICTION_POOL_SIZE := by
      have := hlastNone.mp hroom
      omega
    have hk : k < n := by
      by_contra hno
      have hkn : k = n := by omega
      exact hend ⟨by omega, (hord.isNone_iff (by omega)).mpr (le_of_eq hkn.symm)⟩
    have hk' : k < REDIS_EVICTION_POOL_SIZE := by omega
    have hmoved := shiftRight_owned howned hk'
    have hmove : memmove pool (k + 1) k (REDIS_EVICTION_POOL_SIZE - k - 1) =
        some fun j => if k + 1 ≤ j ∧ j < REDIS_EVICTION_POOL_SIZE then pool (j - 1) else pool j := by
      unfold memmove
      rw [if_pos (by omega)]
      congr 1
      funext j
      have hdst : k + 1 + (REDIS_EVICTION_POOL_SIZE - k - 1) = REDIS_EVICTION_POOL_SIZE := by omega
      rw [hdst]
      split_ifs with hj
      · congr 1
        omega
      · rfl
    rw [if_pos hroom, hmove, Option.bind_eq_bind, Option.bind_some, store_eq heap _ hk' s]
    refine ⟨_, rfl, ⟨⟨n + 1, hord.shiftRight hn hplace hk (newEntry_of ..)⟩, ?_⟩, Or.inl (holds_new alloc heap _ hk' s)⟩
    have hstored := hmoved.store alloc hk' (by rw [if_pos rfl]; exact Option.isNone_iff_eq_none.mp hroom) s
    refine hstored.congr fun j _ => ?_
    split_ifs <;> rfl
  · have hfull : n = REDIS_EVICTION_POOL_SIZE := by
      by_contra hno
      exact hroom (hlastNone.mpr (by omega))
    subst hfull
    obtain ⟨k, rfl⟩ : ∃ k', k = k' + 1 := by
      refine ⟨k - 1, ?_⟩
      by_contra hzero
      exact hskip ⟨by omega, hlast.mpr (by omega)⟩
    have hk : k < REDIS_EVICTION_POOL_SIZE := by omega
    obtain ⟨first, hfirst⟩ := Option.isSome_iff_exists.mp (hord.used 0 (by decide))
    have hmem : first.addr ∈ heap := howned.live 0 _ ⟨by decide, first, hfirst, rfl⟩
    have hfreed := howned.clear (e := Entry.empty) (by decide) hfirst rfl
    have hmoved := shiftLeft_owned hfreed hk
    have hmove : memmove pool 0 1 k = some fun j => if 0 ≤ j ∧ j < 0 + k then pool (1 + (j - 0)) else pool j := by
      unfold memmove
      rw [if_pos (by omega)]
    rw [if_neg hroom]
    simp only [hfirst, sdsfree, if_pos hmem, hmove, Nat.add_sub_cancel, Option.bind_eq_bind, Option.bind_some]
    rw [store_eq _ _ hk s]
    refine ⟨_, rfl, ⟨⟨_, hord.shiftLeft hplace (newEntry_of ..)⟩, ?_⟩, Or.inl (holds_new alloc _ _ hk s)⟩
    have hstored := hmoved.store alloc hk (by rw [if_pos rfl]; rfl) s
    refine hstored.congr fun j _ => ?_
    split_ifs <;> first | rfl | omega

variable {dict : Bytes → Bool}

variable (alloc) in
theorem populate_ok (samples : List Sample) (h : PoolOk st) :
    ∃ st', evictionPoolPopulate alloc st samples = some st' ∧ PoolOk st' := by
  induction samples generalizing st with
  | nil => exact ⟨st, rfl, h⟩
  | cons s samples ih =>
    obtain ⟨st₁, hins, hok, -⟩ := insertSample_ok alloc h s
    obtain ⟨st', hrest, hok'⟩ := ih hok
    refine ⟨st', ?_, hok'⟩
    unfold evictionPoolPopulate at hrest ⊢
    rw [List.foldlM_cons, hins]
    exact hrest

def Live (dict : Bytes → Bool) (pool : Pool) : Prop := ∃ text, Holds pool text ∧ dict text = true

theorem populate_live (samples : List Sample) (h : PoolOk st) (hdict : ∀ s ∈ samples, dict s.key = true)
    (hlive : Live dict st.pool) {st' : State} (hpop : evictionPoolPopulate alloc st samples = some st') :
    Live dict st'.pool := by
  induction samples generalizing st with
  | nil =>
    cases hpop
    exact hlive
  | cons s samples ih =>
    obtain ⟨st₁, hins, hok, hcase⟩ := insertSample_ok alloc h s
    unfold evictionPoolPopulate at hpop
    rw [List.foldlM_cons, hins] at hpop
    refine ih hok (fun t ht => hdict t (List.mem_cons_of_mem s ht)) ?_ hpop
    rcases hcase with hnew | ⟨rfl, -⟩
    · exact ⟨s.key, hnew, hdict s List.mem_cons_self⟩
    · exact hlive

theorem populate_empty {samples : List Sample} (h : PoolOk st) (hempty : Ordered st.pool 0) (hne : samples ≠ [])
    (hdict : ∀ s ∈ samples, dict s.key = true) {st' : State}
    (hpop : evictionPoolPopulate alloc st samples = some st') : Live dict st'.pool := by
  obtain ⟨s, samples, rfl⟩ := List.exists_cons_of_ne_nil hne
  obtain ⟨st₁, hins, hok, hcase⟩ := insertSample_ok alloc h s
  unfold evictionPoolPopulate at hpop
  rw [List.foldlM_cons, hins] at hpop
  refine populate_live samples hok (fun t ht => hdict t (List.mem_cons_of_mem s ht)) ?_ hpop
  rcases hcase with hnew | ⟨-, hfull⟩
  · exact ⟨s.key, hnew, hdict s List.mem_cons_self⟩
  · have hused := hfull.used 0 (by decide)
    rw [hempty.unused 0 le_rfl (by decide)] at hused
    cases hused

theorem removeEntry_ok (hord : Ordered st.pool (k + 1)) (howned : Owned st) :
    ∃ st', removeEntry st k = some st' ∧ Ordered st'.pool k ∧ Owned st' ∧
      ∀ j < k, st'.pool j = st.pool j := by
  obtain ⟨heap, pool⟩ := st
  have hord : Ordered pool (k + 1) := hord
  have hsize := hord.size
  have hk : k < REDIS_EVICTION_POOL_SIZE := hsize
  obtain ⟨key, hkey⟩ := Option.isSome_iff_exists.mp (hord.used k (Nat.lt_succ_self k))
  have hmem : key.addr ∈ heap := howned.live k _ ⟨hk, key, hkey, rfl⟩
  unfold removeEntry sdsfree memmove set
  dsimp only
  rw [hkey]
  simp only [if_pos hmem, if_pos (show k + (REDIS_EVICTION_POOL_SIZE - k - 1) ≤ REDIS_EVICTION_POOL_SIZE ∧
    k + 1 + (REDIS_EVICTION_POOL_SIZE - k - 1) ≤ REDIS_EVICTION_POOL_SIZE by omega),
    if_pos (show REDIS_EVICTION_POOL_SIZE - 1 < REDIS_EVICTION_POOL_SIZE by decide), Option.bind_eq_bind,
    Option.bind_some]
  refine ⟨_, rfl, hord.removeLast, ?_, fun j hj => ?_⟩
  · have hfreed := howned.clear (e := Entry.empty) hk hkey rfl
    refine hfreed.congr fun j hj => ?_
    -- what moves down is free as well
    split_ifs with hlast hjk hmoved hjk hjk
    · rfl
    · exact (hord.unused j (by omega) hj).symm
    · exact hord.unused _ (by omega) (by omega)
    · rw [hord.unused _ (by omega) (by omega), hord.unused j (by omega) hj]
    · omega
    · rfl
  · dsimp only
    rw [if_neg (by omega), if_neg (by omega)]

theorem scan_ok (dict : Bytes → Bool) (k : Nat) (hord : Ordered st.pool n) (hn : n ≤ k)
    (hk : k ≤ REDIS_EVICTION_POOL_SIZE) (howned : Owned st) :
    ∃ st' best, scan dict k st = some (st', best) ∧ PoolOk st' ∧ (∀ text, best = some text → dict text = true) ∧
      (best = none → Ordered st'.pool 0 ∧ ∀ j < k, ∀ key, (st.pool j).key = some key → dict key.text = false) := by
  induction k generalizing st n with
  | zero =>
    obtain rfl : n = 0 := Nat.le_zero.mp hn
    exact ⟨st, none, rfl, ⟨⟨0, hord⟩, howned⟩, nofun, fun _ => ⟨hord, nofun⟩⟩
  | succ k ih =>
    have hlt : k < REDIS_EVICTION_POOL_SIZE := hk
    rw [scan]
    cases hkey : (st.pool k).key with
    | none =>
      have hle : n ≤ k := by
        refine (hord.isNone_iff hlt).mp ?_
        rw [hkey]
        rfl
      obtain ⟨st', best, hscan, hok, hbest, hnone⟩ := ih hord hle (le_of_lt hlt) howned
      refine ⟨st', best, hscan, hok, hbest, fun h => ⟨(hnone h).1, fun j hj key hj' => ?_⟩⟩
      rcases Nat.lt_succ_iff_lt_or_eq.mp hj with hj | rfl
      · exact (hnone h).2 j hj key hj'
      · rw [hkey] at hj'
        cases hj'
    | some key =>
      obtain rfl : n = k + 1 := by
        have hsome := (hord.isSome_iff hlt).mp (by rw [hkey]; rfl)
        omega
      obtain ⟨st₁, hremove, hord₁, howned₁, hsame⟩ := removeEntry_ok hord howned
      dsimp only
      rw [hremove, Option.bind_eq_bind, Option.bind_some]
      cases hthere : dict key.text with
      | true =>
        rw [if_pos rfl]
        refine ⟨st₁, some key.text, rfl, ⟨⟨k, hord₁⟩, howned₁⟩, ?_, nofun⟩
        rintro _ ⟨⟩
        exact hthere
      | false =>
        rw [if_neg Bool.false_ne_true]
        obtain ⟨st', best, hscan, hok, hbest, hnone⟩ := ih hord₁ le_rfl (le_of_lt hlt) howned₁
        refine ⟨st', best, hscan, hok, hbest, fun h => ⟨(hnone h).1, fun j hj key' hj' => ?_⟩⟩
        rcases Nat.lt_succ_iff_lt_or_eq.mp hj with hj | rfl
        · exact (hnone h).2 j hj key' (by rw [hsame j hj]; exact hj')
        · rw [hkey] at hj'
          cases hj'
          exact hthere

theorem scanPool_ok (dict : Bytes → Bool) (h : PoolOk st) :
    ∃ st' best, scanPool dict st = some (st', best) ∧ PoolOk st' ∧ (∀ text, best = some text → dict text = true) ∧
      (best = none → Ordered st'.pool 0 ∧ ¬ Live dict st.pool) := by
  obtain ⟨n, hord⟩ := h.ordered
  obtain ⟨st', best, hscan, hok, hbest, hnone⟩ := scan_ok dict REDIS_EVICTION_POOL_SIZE hord hord.size le_rfl h.owned
  refine ⟨st', best, hscan, hok, hbest, fun h => ⟨(hnone h).1, ?_⟩⟩
  rintro ⟨_, ⟨j, hj, key, hkey, rfl⟩, hthere⟩
  rw [(hnone h).2 j hj key hkey] at hthere
  cases hthere

variable (alloc) in
theorem step_ok (h : PoolOk st) (a : Action) : ∃ st', step alloc st a = some st' ∧ PoolOk st' := by
  cases a with
  | populate samples => exact populate_ok alloc samples h
  | remove dict =>
    obtain ⟨st', best, hscan, hok, -⟩ := scanPool_ok dict h
    refine ⟨st', ?_, hok⟩
    rw [step, hscan]
    rfl

variable (alloc) in
theorem run_ok (as : List Action) (h : PoolOk st) : ∃ st', as.foldlM (step alloc) st = some st' ∧ PoolOk st' := by
  induction as generalizing st with
  | nil => exact ⟨st, rfl, h⟩
  | cons a as ih =>
    obtain ⟨st₁, hstep, hok⟩ := step_ok alloc h a
    obtain ⟨st', hrest, hok'⟩ := ih hok
    refine ⟨st', ?_, hok'⟩
    rw [List.foldlM_cons, hstep]
    exact hrest

theorem poolOk_init : PoolOk evictionPoolAlloc := ⟨⟨0, Ordered.init⟩, Owned.init⟩

variable (alloc) in
theorem pickLoop_live (h : PoolOk st) (d : Draws dict) (i fuel : Nat)
    (hlive : ∀ st', evictionPoolPopulate alloc st (d.samples i) = some st' → Live dict st'.pool) :
    ∃ st' text, pickLoop alloc dict d.samples (fuel + 1) i st = some (st', some text) ∧ dict text = true ∧
      PoolOk st' := by
  obtain ⟨st₁, hpop, hok₁⟩ := populate_ok alloc (d.samples i) h
  obtain ⟨st', best, hscan, hok, hbest, hnone⟩ := scanPool_ok dict hok₁
  cases best with
  | none => exact absurd (hlive st₁ hpop) (hnone rfl).2
  | some text =>
    refine ⟨st', text, ?_, hbest text rfl, hok⟩
    rw [pickLoop, hpop, Option.bind_eq_bind, Option.bind_some, hscan]
    rfl

variable (alloc) in
theorem pickLoop_ends (h : PoolOk st) (d : Draws dict) (i fuel : Nat) :
    ∃ st' text, pickLoop alloc dict d.samples (fuel + 2) i st = some (st', some text) ∧ dict text = true ∧
      PoolOk st' := by
  obtain ⟨st₁, hpop, hok₁⟩ := populate_ok alloc (d.samples i) h
  obtain ⟨st₂, best, hscan, hok₂, hbest, hnone⟩ := scanPool_ok dict hok₁
  cases best with
  | some text =>
    refine ⟨st₂, text, ?_, hbest text rfl, hok₂⟩
    rw [pickLoop, hpop, Option.bind_eq_bind, Option.bind_some, hscan]
    rfl
  | none =>
    obtain ⟨st', text, hpick, htext, hok⟩ := pickLoop_live alloc hok₂ d (i + 1) fuel fun _ hpop =>
      populate_empty hok₂ (hnone rfl).1 (d.nonempty (i + 1)) (d.inDict (i + 1)) hpop
    refine ⟨st', text, ?_, htext, hok⟩
    rw [pickLoop, hpop, Option.bind_eq_bind, Option.bind_some, hscan]
    exact hpick

end RedisCluster.Redisdb.Eviction
