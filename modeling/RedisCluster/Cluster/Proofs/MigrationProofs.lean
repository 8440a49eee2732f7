import RedisCluster.Cluster.Migration
import RedisCluster.Cluster.BusRun

/-!
# Live migration is safe

A source that moves the slot executes a command only if it has all its keys, so it never gets a key that
it does not have: a key that was missing there once stays missing. The target executes what was asked
for if it has all keys, or if the command has one key only, which the source then does not have.
-/

namespace RedisCluster.Migration

open RedisCluster.Bus RedisCluster.Multi

variable {ν : Type} {slot : Nat} {s : State ν}

theorem scanKeys_some (node : Node ν) (keys : List Bytes) (r : KeyScan)
    (hslot : ∀ key ∈ keys, keyHashSlot key = r.slot)
    (hmoving : (r.migrating_slot || r.importing_slot) = true) :
    ∃ r', scanKeys node keys (some r) = .ok (some r') ∧ r'.slot = r.slot ∧ r'.n = r.n ∧
      r'.migrating_slot = r.migrating_slot ∧ r'.importing_slot = r.importing_slot ∧
      (r'.missing_keys = 0 ↔ r.missing_keys = 0 ∧ ∀ key ∈ keys, key ∈ node.keys) ∧
      (r'.multiple_keys = false ↔
        r.multiple_keys = false ∧ ∀ key ∈ keys, key = r.firstkey) := by
  induction keys generalizing r with
  | nil => exact ⟨r, rfl, rfl, rfl, rfl, rfl, by simp, by simp⟩
  | cons key keys ih =>
    obtain ⟨r₁, hnext, hfirst, hslot₁, hn₁, hmig₁, himp₁, hmissing₁, hmultiple₁⟩ :
        ∃ r₁, nextKey r key = .ok r₁ ∧ r₁.firstkey = r.firstkey ∧ r₁.slot = r.slot ∧ r₁.n = r.n ∧
          r₁.migrating_slot = r.migrating_slot ∧ r₁.importing_slot = r.importing_slot ∧
          r₁.missing_keys = r.missing_keys ∧
          (r₁.multiple_keys = false ↔ r.multiple_keys = false ∧ key = r.firstkey) := by
      unfold nextKey
      by_cases hk : r.firstkey = key
      · rw [if_pos hk]
        exact ⟨r, rfl, rfl, rfl, rfl, rfl, rfl, rfl, by simp [hk]⟩
      · rw [if_neg hk, if_neg (not_not_intro (hslot key List.mem_cons_self).symm)]
        exact ⟨_, rfl, rfl, rfl, rfl, rfl, rfl, rfl, by simp [Ne.symm hk]⟩
    have hscan : scanKey node (some r) key = .ok (if decide (key ∉ node.keys) then
        { r₁ with missing_keys := r₁.missing_keys + 1 } else r₁) := by
      unfold scanKey
      rw [Option.elim_some, hnext]
      dsimp only
      rw [hmig₁, himp₁, hmoving, Bool.true_and]
    by_cases hk : key ∈ node.keys
    · rw [decide_eq_false (not_not_intro hk), if_neg Bool.false_ne_true] at hscan
      obtain ⟨r', hr', h1, h2, h3, h4, h5, h6⟩ := ih r₁
        (fun k hk => by rw [hslot₁]; exact hslot k (List.mem_cons_of_mem key hk))
        (by rw [hmig₁, himp₁]; exact hmoving)
      refine ⟨r', ?_, h1.trans hslot₁, h2.trans hn₁, h3.trans hmig₁, h4.trans himp₁, ?_, ?_⟩
      · rw [scanKeys, hscan]
        exact hr'
      · rw [h5, hmissing₁, List.forall_mem_cons]
        tauto
      · rw [h6, hmultiple₁, hfirst, List.forall_mem_cons]
        tauto
    · rw [decide_eq_true hk, if_pos rfl] at hscan
      obtain ⟨r', hr', h1, h2, h3, h4, h5, h6⟩ := ih { r₁ with missing_keys := r₁.missing_keys + 1 }
        (fun k hk => by rw [hslot₁]; exact hslot k (List.mem_cons_of_mem key hk))
        (by rw [hmig₁, himp₁]; exact hmoving)
      refine ⟨r', ?_, h1.trans hslot₁, h2.trans hn₁, h3.trans hmig₁, h4.trans himp₁, ?_, ?_⟩
      · rw [scanKeys, hscan]
        exact hr'
      · rw [h5, List.forall_mem_cons]
        constructor
        · rintro ⟨h, -⟩
          exact absurd h (Nat.succ_ne_zero _)
        · rintro ⟨-, h, -⟩
          exact absurd h hk
      · rw [h6]
        show r₁.multiple_keys = false ∧ (∀ k ∈ keys, k = r₁.firstkey) ↔ _
        rw [hmultiple₁, hfirst, List.forall_mem_cons]
        tauto

theorem scanKeys_moving (node : Node ν) {key : Bytes} {keys : List Bytes}
    (hslot : ∀ k ∈ key :: keys, keyHashSlot k = slot) {r : KeyScan}
    (hfirst : firstKey node.cluster key = .ok r) (hr : r.slot = slot) (hkey : r.firstkey = key)
    (hzero : r.missing_keys = 0) (hone : r.multiple_keys = false)
    (hmoving : (r.migrating_slot || r.importing_slot) = true) :
    ∃ r', scanKeys node (key :: keys) none = .ok (some r') ∧ r'.slot = slot ∧ r'.n = r.n ∧
      r'.migrating_slot = r.migrating_slot ∧ r'.importing_slot = r.importing_slot ∧
      (r'.missing_keys = 0 ↔ ∀ k ∈ key :: keys, k ∈ node.keys) ∧
      (r'.multiple_keys = false ↔ ∀ k ∈ keys, k = key) := by
  have hscan : scanKey node none key = scanKey node (some r) key := by
    unfold scanKey
    rw [Option.elim_none, Option.elim_some, hfirst, nextKey, if_pos hkey]
  obtain ⟨r', hr', h1, h2, h3, h4, h5, h6⟩ := scanKeys_some node (key :: keys) r
    (fun k hk => by rw [hr]; exact hslot k hk) hmoving
  refine ⟨r', ?_, h1.trans hr, h2, h3, h4, ?_, ?_⟩
  · rw [scanKeys, hscan]
    exact hr'
  · rw [h5]
    exact ⟨And.right, fun h => ⟨hzero, h⟩⟩
  · rw [h6, hkey, List.forall_mem_cons]
    exact ⟨fun h => h.2.2, fun h => ⟨hone, rfl, h⟩⟩

theorem routeQuery_redirects (c : BusState ν) (session : Session) (cmd : RedisCommand)
    (r : Option KeyScan) : redirects (routeQuery c session cmd r) = true := by
  cases r with
  | none => rfl
  | some r =>
    unfold routeQuery
    dsimp only
    split
    · rfl
    · split
      · split
        · rfl
        · rfl
      · split
        · rfl
        · rfl

theorem source_query (hm : Moving slot s) (session : Session) (cmd : RedisCommand)
    {keys : List Bytes} (hne : keys ≠ []) (hslot : ∀ k ∈ keys, keyHashSlot k = slot) :
    (isMyself (s.node .source) (getNodeByQuery (s.node .source) session cmd keys) = true →
        ∀ k ∈ keys, k ∈ (s.node .source).keys) ∧
      (isAsk (s.node .source) (getNodeByQuery (s.node .source) session cmd keys) = true →
        ∃ k ∈ keys, k ∉ (s.node .source).keys) ∧
      redirects (getNodeByQuery (s.node .source) session cmd keys) = true := by
  obtain ⟨key, rest, rfl⟩ := List.exists_cons_of_ne_nil hne
  obtain ⟨b, hb, hother⟩ := hm.migrating
  have hkeyslot : keyHashSlot key = slot := hslot key List.mem_cons_self
  have hfirst : firstKey (s.node .source).cluster key = .ok
      { firstkey := key, slot := slot, n := (s.node .source).cluster.myself, migrating_slot := true
        importing_slot := false, multiple_keys := false, missing_keys := 0 } := by
    unfold firstKey
    simp only [hkeyslot, hm.owner, hb, Option.isSome_some, beq_self_eq_true, Bool.and_self,
      Bool.not_true, Bool.false_and]
  obtain ⟨r, hscan, hrslot, hn, hmig, himp, hmissing, -⟩ :=
    scanKeys_moving (s.node .source) hslot hfirst rfl rfl rfl rfl rfl
  have hquery : getNodeByQuery (s.node .source) session cmd (key :: rest) =
      routeQuery (s.node .source).cluster session cmd (some r) := by
    rw [getNodeByQuery, hscan]
  have hmig' : r.migrating_slot = true := hmig
  have himp' : r.importing_slot = false := himp
  have hn' : r.n = (s.node .source).cluster.myself := hn
  rw [hquery, ← and_assoc]
  refine ⟨?_, routeQuery_redirects ..⟩
  unfold routeQuery
  dsimp only
  rw [hmig', himp', hrslot, hb, hn', Bool.true_and, Bool.false_and, Option.getD_some]
  by_cases hall : ∀ k ∈ key :: rest, k ∈ (s.node .source).keys
  · have hzero : r.missing_keys = 0 := hmissing.mpr hall
    rw [hzero]
    refine ⟨fun _ => hall, fun hask => ?_⟩
    have hmyself : ((s.node .source).cluster.myself != (s.node .source).cluster.myself) = false := by
      simp
    simp only [ne_eq, not_true_eq_false, decide_false, Bool.false_eq_true, if_false, ite_self,
      isAsk, hmyself, Bool.false_and] at hask
  · have hsome : decide (r.missing_keys ≠ 0) = true := by
      rw [decide_eq_true_iff]
      exact fun h => hall (hmissing.mp h)
    rw [hsome, if_pos rfl]
    push Not at hall
    refine ⟨fun hmyself => ?_, fun _ => hall⟩
    rw [isMyself, beq_iff_eq] at hmyself
    exact absurd hmyself hother

theorem target_query (hm : Moving slot s) (session : Session) (cmd : RedisCommand)
    (hasking : (session.asking || cmd.flags.asking) = true) {keys : List Bytes} (hne : keys ≠ [])
    (hslot : ∀ k ∈ keys, keyHashSlot k = slot) :
    (isMyself (s.node .target) (getNodeByQuery (s.node .target) session cmd keys) = true →
        (∀ k ∈ keys, k ∈ (s.node .target).keys) ∨ ∃ key, ∀ k ∈ keys, k = key) ∧
      redirects (getNodeByQuery (s.node .target) session cmd keys) = true := by
  obtain ⟨key, rest, rfl⟩ := List.exists_cons_of_ne_nil hne
  obtain ⟨a, ha, hother⟩ := hm.importer
  have hkeyslot : keyHashSlot key = slot := hslot key List.mem_cons_self
  have hforeign : (a == (s.node .target).cluster.myself) = false := by
    rw [beq_eq_false_iff_ne]
    exact hother
  have hfirst : firstKey (s.node .target).cluster key = .ok
      { firstkey := key, slot := slot, n := a, migrating_slot := false
        importing_slot := true, multiple_keys := false, missing_keys := 0 } := by
    unfold firstKey
    simp only [hkeyslot, ha, hforeign, hm.importing, Bool.false_and, Bool.not_false, Bool.and_self]
  obtain ⟨r, hscan, hrslot, hn, hmig, himp, hmissing, hmultiple⟩ :=
    scanKeys_moving (s.node .target) hslot hfirst rfl rfl rfl rfl rfl
  have hquery : getNodeByQuery (s.node .target) session cmd (key :: rest) =
      routeQuery (s.node .target).cluster session cmd (some r) := by
    rw [getNodeByQuery, hscan]
  have hmig' : r.migrating_slot = false := hmig
  have himp' : r.importing_slot = true := himp
  rw [hquery]
  refine ⟨fun hmyself => ?_, routeQuery_redirects ..⟩
  unfold routeQuery at hmyself
  dsimp only at hmyself
  rw [hmig', himp', hasking, Bool.false_and, if_neg Bool.false_ne_true, Bool.and_self, if_pos rfl]
    at hmyself
  cases hmult : r.multiple_keys with
  | false =>
    refine Or.inr ⟨key, ?_⟩
    rw [List.forall_mem_cons]
    exact ⟨rfl, hmultiple.mp hmult⟩
  | true =>
    by_cases hzero : r.missing_keys = 0
    · exact Or.inl (hmissing.mp hzero)
    · rw [hmult, decide_eq_true hzero, Bool.and_self, if_pos rfl] at hmyself
      cases hmyself

structure Inv (slot : Nat) (s : State ν) : Prop where
  moving : Moving slot s
  one : OnOneNode s
  /-- What was asked for is about the slot, and some key of it is not at the source. -/
  asked : ∀ r ∈ s.asked, r.keys ≠ [] ∧ (∀ key ∈ r.keys, keyHashSlot key = slot) ∧
    ∃ key ∈ r.keys, key ∉ (s.node .source).keys

theorem setKeys_self (s : State ν) (side : Side) (keys : Finset Bytes) :
    ((setKeys s side keys).node side).keys = keys := by
  rw [setKeys]
  dsimp only
  rw [Function.update_self]

theorem setKeys_other (s : State ν) {side other : Side} (h : other ≠ side) (keys : Finset Bytes) :
    (setKeys s side keys).node other = s.node other := Function.update_of_ne h ..

theorem setKeys_cluster (s : State ν) (side other : Side) (keys : Finset Bytes) :
    ((setKeys s side keys).node other).cluster = (s.node other).cluster := by
  by_cases h : other = side
  · subst h
    rw [setKeys]
    dsimp only
    rw [Function.update_self]
  · rw [setKeys_other s h]

theorem Moving.setKeys (hm : Moving slot s) (side : Side) (keys : Finset Bytes) :
    Moving slot (setKeys s side keys) := by
  constructor
  · rw [setKeys_cluster]
    exact hm.owner
  · rw [setKeys_cluster]
    exact hm.migrating
  · rw [setKeys_cluster]
    exact hm.importer
  · rw [setKeys_cluster]
    exact hm.importing

theorem Inv.setSource (h : Inv slot s) {keys : Finset Bytes} (hsub : keys ⊆ (s.node .source).keys) :
    Inv slot (setKeys s .source keys) := by
  refine ⟨h.moving.setKeys .source keys, ?_, ?_⟩
  · unfold OnOneNode
    rw [setKeys_self, setKeys_other s (by decide)]
    exact Finset.disjoint_of_subset_left hsub h.one
  · intro r hr
    obtain ⟨hne, hslot, key, hkey, hnot⟩ := h.asked r hr
    refine ⟨hne, hslot, key, hkey, ?_⟩
    rw [setKeys_self]
    exact fun hc => hnot (hsub hc)

theorem Inv.setTarget (h : Inv slot s) {keys : Finset Bytes}
    (hdisjoint : Disjoint (s.node .source).keys keys) : Inv slot (setKeys s .target keys) := by
  refine ⟨h.moving.setKeys .target keys, ?_, ?_⟩
  · unfold OnOneNode
    rw [setKeys_self, setKeys_other s (by decide)]
    exact hdisjoint
  · intro r hr
    obtain ⟨hne, hslot, key, hkey, hnot⟩ := h.asked r hr
    refine ⟨hne, hslot, key, hkey, ?_⟩
    rw [setKeys_other s (by decide)]
    exact hnot

theorem executes_cases (h : Inv slot s) {a : Action} (ha : ActionOf slot a) {side : Side} {r : Request}
    (hex : executes s a = some (side, r)) :
    (side = .source ∧ ∀ key ∈ r.keys, key ∈ (s.node .source).keys) ∨
      (side = .target ∧ ((∀ key ∈ r.keys, key ∈ (s.node .target).keys) ∨
        ∀ key ∈ r.keys, key ∉ (s.node .source).keys)) := by
  cases a with
  | command q =>
    rw [executes] at hex
    split at hex
    · rename_i hmyself
      cases hex
      exact Or.inl ⟨rfl, (source_query h.moving _ _ ha.1 ha.2).1 hmyself⟩
    · cases hex
  | asking i =>
    rw [executes] at hex
    cases hi : s.asked[i]? with
    | none =>
      rw [hi] at hex
      cases hex
    | some q =>
      rw [hi] at hex
      dsimp only at hex
      split at hex
      · rename_i hmyself
        cases hex
        obtain ⟨hne, hslot, key, hkey, hnot⟩ := h.asked r (List.mem_of_getElem? hi)
        have hquery := (target_query h.moving (askingSession r) r.cmd rfl hne hslot).1 hmyself
        rcases hquery with hall | ⟨k, hone⟩
        · exact Or.inr ⟨rfl, Or.inl hall⟩
        · refine Or.inr ⟨rfl, Or.inr fun x hx => ?_⟩
          rw [hone x hx, ← hone key hkey]
          exact hnot
      · cases hex
  | migrate side key replace cmd session fails => cases hex
  | expire side key => cases hex

theorem executes_with_keys (h : Inv slot s) {a : Action} (ha : ActionOf slot a) :
    ExecutesWithKeys s a := by
  intro side r hex key hkey anywhere hthere
  rcases executes_cases h ha hex with ⟨rfl, hall⟩ | ⟨rfl, hall | hnot⟩
  · exact hall key hkey
  · exact hall key hkey
  · cases anywhere with
    | source => exact absurd hthere (hnot key hkey)
    | target => exact hthere

theorem answered (h : Inv slot s) {a : Action} (ha : ActionOf slot a) : Answered s a := by
  cases a with
  | command r => exact (source_query h.moving _ _ ha.1 ha.2).2.2
  | asking i =>
    intro r hi
    obtain ⟨hne, hslot, -⟩ := h.asked r (List.mem_of_getElem? hi)
    exact (target_query h.moving (askingSession r) r.cmd rfl hne hslot).2
  | migrate side key replace cmd session fails => trivial
  | expire side key => trivial

theorem source_refuses (h : Inv slot s) {key : Bytes} (hkey : keyHashSlot key = slot)
    (hnot : key ∉ (s.node .source).keys) (replace : Bool) (cmd : RedisCommand) (session : Session)
    (fails : Bool) : restores (s.node .source) key replace cmd session fails = false := by
  have hquery := (source_query h.moving session cmd (List.cons_ne_nil key [])
    (fun k hk => by rw [List.mem_singleton.mp hk]; exact hkey)).1
  cases hmyself : isMyself (s.node .source) (getNodeByQuery (s.node .source) session cmd [key]) with
  | false =>
    unfold restores
    rw [hmyself, Bool.false_and, Bool.false_and]
  | true => exact absurd (hquery hmyself key List.mem_cons_self) hnot

theorem step_inv (h : Inv slot s) {a : Action} (ha : ActionOf slot a) : Inv slot (step s a) := by
  unfold step
  cases hex : executes s a with
  | some e =>
    obtain ⟨side, r⟩ := e
    have heffect := r.effect_subset (s.node side).keys
    dsimp only
    rcases executes_cases h ha hex with ⟨rfl, hall⟩ | ⟨rfl, hall⟩
    · apply h.setSource
      intro key hkey
      rcases Finset.mem_union.mp (heffect hkey) with hold | hnew
      · exact hold
      · exact hall key (List.mem_toFinset.mp hnew)
    · apply h.setTarget
      rw [Finset.disjoint_right]
      intro key hkey hsource
      rcases Finset.mem_union.mp (heffect hkey) with hold | hnew
      · exact Finset.disjoint_left.mp h.one hsource hold
      · rcases hall with hall | hnot
        · exact Finset.disjoint_left.mp h.one hsource (hall key (List.mem_toFinset.mp hnew))
        · exact hnot key (List.mem_toFinset.mp hnew) hsource
  | none =>
    cases a with
    | command r =>
      dsimp only
      split
      · rename_i hask
        refine ⟨⟨h.moving.owner, h.moving.migrating, h.moving.importer, h.moving.importing⟩, h.one, ?_⟩
        intro q hq
        rcases List.mem_append.mp hq with hq | hq
        · exact h.asked q hq
        · rw [List.mem_singleton.mp hq]
          exact ⟨ha.1, ha.2, (source_query h.moving _ _ ha.1 ha.2).2.1 hask⟩
      · exact h
    | asking i => exact h
    | migrate side key replace cmd session fails =>
      dsimp only
      by_cases hmove : key ∈ (s.node side).keys ∧
          restores (s.node side.other) key replace cmd session fails = true
      · rw [if_pos hmove]
        cases side with
        | source =>
          -- the source loses the key before the target has it, as no step comes between
          have hcomm : setKeys (setKeys s .target (insert key (s.node .target).keys)) .source
              ((s.node .source).keys.erase key) =
              setKeys (setKeys s .source ((s.node .source).keys.erase key)) .target
                (insert key (s.node .target).keys) := by
            unfold setKeys
            dsimp only
            rw [Function.update_of_ne (by decide), Function.update_of_ne (by decide),
              Function.update_comm (by decide)]
          show Inv slot (setKeys (setKeys s .target (insert key (s.node .target).keys)) .source
            ((s.node .source).keys.erase key))
          rw [hcomm]
          apply (h.setSource (Finset.erase_subset key _)).setTarget
          rw [setKeys_self, Finset.disjoint_insert_right]
          exact ⟨Finset.notMem_erase key _,
            Finset.disjoint_of_subset_left (Finset.erase_subset key _) h.one⟩
        | target =>
          have hnot : key ∉ (s.node .source).keys := fun hc =>
            Finset.disjoint_left.mp h.one hc hmove.1
          have hrefused := source_refuses h ha.1 hnot replace cmd session fails
          have hrestored : restores (s.node .source) key replace cmd session fails = true := hmove.2
          rw [hrefused] at hrestored
          cases hrestored
      · rw [if_neg hmove]
        exact h
    | expire side key =>
      cases side with
      | source => exact h.setSource (Finset.erase_subset key _)
      | target =>
        exact h.setTarget (Finset.disjoint_of_subset_right (Finset.erase_subset key _) h.one)

def pair (keys : Finset Bytes) : State Nat where
  node
    | .source =>
      { cluster := { busInit 0 0 0 false with
          slots := fun _ => some 0, migrating_slots_to := fun _ => some 1 }
        keys := keys }
    | .target =>
      { cluster := { busInit 0 0 0 false with
          slots := fun _ => some 1, importing_slots_from := fun _ => some 1 }
        keys := ∅ }
  asked := []

theorem pair_moving (slot : Nat) (keys : Finset Bytes) : Moving slot (pair keys) :=
  ⟨rfl, ⟨1, rfl, Nat.one_ne_zero⟩, ⟨1, rfl, Nat.one_ne_zero⟩, rfl⟩

def plainSession : Session :=
  { authenticated := true, master := false, asking := false, readonly := false
    close_after_reply := false, db := 0, channels := 0, patterns := 0 }

def creator (asking : Bool) : RedisCommand where
  name := []
  proc := .other 0
  arity := -3
  flags :=
    { write := true, readonly := false, denyoom := true, loading := false, stale := false
      asking := asking }
  getkeys_proc := none
  firstkey := 1
  lastkey := 1
  keystep := 1
  keystep_pos := fun _ => Nat.one_pos

def creates (key : Bytes) : Request where
  cmd := creator false
  session := plainSession
  keys := [key]
  effect := fun present => insert key present
  effect_subset := fun present x hx => by
    rcases Finset.mem_insert.mp hx with rfl | hx
    · exact Finset.mem_union_right present (by simp)
    · exact Finset.mem_union_left _ hx

end RedisCluster.Migration
