import RedisCluster.Aof.Proofs.FormatProofs
import RedisCluster.Redisdb.SlotIndex
import RedisCluster.Zset.Proofs.RankProofs

/-!
# Proofs: the keys of a slot

The hooks in `dbAdd` and `dbDelete` keep the skip list at the pairs of slot and key of the keys that are there, in
every run. The functions on a slot walk the nodes with its score, which lie one behind the other; the count is the
distance of two ranks, in 32 bits.
-/

namespace RedisCluster.Redisdb.SlotIndex

open RedisCluster.Util RedisCluster.Lib

/-! ## The skip list -/

section

variable {z : Zskiplist Nat Bytes} {ns : List Nat} {es : List (Nat ×ₗ Bytes)}

theorem zslInsert_obj (z : Zskiplist Nat Bytes) (score : Nat) (obj : Bytes) (level : Nat) {y : Nat} (hy : y ≠ z.fresh) :
    ((zslInsert z score obj level).1.node y).obj = (z.node y).obj := by
  have hraise (u r : Nat → Nat) : (∀ x, ((raiseLevel level z u r).1.node x).obj = (z.node x).obj) ∧
      (raiseLevel level z u r).1.fresh = z.fresh := by
    unfold raiseLevel
    split
    · have hsame := (forLevels_spec (raiseHeader_onLevel z.level z.length) z level).1
      exact ⟨hsame.obj, hsame.fresh⟩
    · exact ⟨fun _ => rfl, rfl⟩
  have hlink (z' : Zskiplist Nat Bytes) (x : Nat) (u r : Nat → Nat) :
      ((linkNode z' x level u r).node y).obj = (z'.node y).obj := by
    have hlow := (forLevels_spec (linkLevel_onLevel x u r) z' level).1
    exact ((forLevels_spec (bumpLevel_onLevel level u) _ _).1.obj y).trans (hlow.obj y)
  have hback (z' : Zskiplist Nat Bytes) (x : Nat) (b : Option Nat) :
      ((z'.setBackward x b).node y).obj = (z'.node y).obj := by
    rw [Zskiplist.setBackward, setNode_node]
    split_ifs with h
    · rw [h]
    · rfl
  have hlinkBack (z' : Zskiplist Nat Bytes) (x u : Nat) : ((linkBackward z' x u).node y).obj = (z'.node y).obj := by
    unfold linkBackward
    dsimp only
    split
    · exact (hback _ _ _).trans (hback _ _ _)
    · exact hback _ _ _
  unfold zslInsert
  obtain ⟨hobj, hfresh⟩ := hraise (zslSearch z uint fun f _ => nodeBefore z score obj f).1
    (zslSearch z uint fun f _ => nodeBefore z score obj f).2
  dsimp only
  rw [hlinkBack, hlink]
  dsimp only
  rw [setNode_node, hfresh, if_neg hy, hobj]

theorem zslDelete_mem (h : ZslInv z ns es) {score : Nat} {obj : Bytes} (hmem : toLex (score, obj) ∈ es) :
    ∃ pre x post ep eq, ns = pre ++ x :: post ∧ es = ep ++ toLex (score, obj) :: eq ∧ pre.length = ep.length ∧
      ZslInv (zslDelete z score obj).1 (pre ++ post) (ep ++ eq) ∧
      ∀ y, ((zslDelete z score obj).1.node y).score = (z.node y).score ∧
        ((zslDelete z score obj).1.node y).obj = (z.node y).obj := by
  obtain ⟨pre, post, ep', eq', rfl, -, -, hplace, hlast, hforward, -⟩ :=
    h.search (tracks_node z _ (nodeBefore z score obj)) rfl
  obtain ⟨ep, eq, rfl, hep, heq, hbefore, hafter⟩ :=
    place_of_pair h.elems h.sorted h.levels hplace.stop hplace.went
  have hlen : pre.length = ep.length := by simpa using congrArg List.length hep
  rcases List.mem_append.mp hmem with hmem | hmem
  · exact absurd (hbefore _ hmem) (lt_irrefl _)
  obtain ⟨e, eq, rfl⟩ := List.exists_cons_of_ne_nil (List.ne_nil_of_mem hmem)
  obtain rfl : e = toLex (score, obj) := by
    rcases List.mem_cons.mp hmem with heq | hmem
    · exact heq.symm
    · have hlt := List.rel_of_pairwise_cons (List.pairwise_append.mp h.sorted).2.1 hmem
      exact absurd hlt (not_lt_of_ge (hafter e List.mem_cons_self))
  cases post with
  | nil => cases heq
  | cons x post =>
    have helem : nodeElem z x = some (toLex (score, obj)) := (List.cons.inj heq).1
    obtain ⟨m, hm, hpair⟩ := Option.map_eq_some_iff.mp helem
    rw [toLex_inj, Prod.mk.injEq] at hpair
    have hfound : score = (z.node x).score ∧ (z.node x).obj = some obj := ⟨hpair.1.symm, by rw [hm, hpair.2]⟩
    obtain ⟨hinv, -, hsame⟩ := zslDeleteNode_spec h hlen hlast
    have hdelete : zslDelete z score obj =
        (zslDeleteNode z x (zslSearch z uint fun f _ => nodeBefore z score obj f).1, true) := by
      unfold zslDelete
      dsimp only
      rw [hforward]
      dsimp only [List.head?_cons]
      rw [if_pos hfound]
    refine ⟨pre, x, post, ep, eq, rfl, rfl, hlen, ?_, fun y => ?_⟩
    · rw [hdelete]
      exact hinv
    · rw [hdelete]
      exact ⟨(hsame y).1, (hsame y).2.1⟩

theorem forward_eq (h : ZslInv z ns es) {a b : List Nat} {x : Nat} (hns : ns = a ++ x :: b) :
    (z.link x 0).forward = b.head? := by
  subst hns
  have htall : ∀ y ∈ zslHeader :: (a ++ x :: b), tall z 0 y = true := fun y hy => h.levels.tall_zero hy
  have hlink : z.link x 0 = _ :=
    h.links 0 h.levels.pos x b ⟨zslHeader :: a, rfl⟩ (htall x (by simp))
  rw [hlink, nextMark_zero fun y hy => htall y (by simp [hy])]

end

/-! ## The invariant -/

variable {V : Type} {st st' : SlotDb V} {ns : List Nat} {es : List (Nat ×ₗ Bytes)}

/-- The pairs of the list are those of the keys. -/
structure Inv (st : SlotDb V) (ns : List Nat) (es : List (Nat ×ₗ Bytes)) : Prop where
  zsl : ZslInv st.slots_to_keys ns es
  header : (st.slots_to_keys.node zslHeader).obj = none
  keys : ∀ e, e ∈ es ↔ (ofLex e).2 ∈ st.db.dict ∧ (ofLex e).1 = Multi.keyHashSlot (ofLex e).2

theorem Inv.initial : Inv (SlotIndex.initial : SlotDb V) [] [] where
  zsl := zslCreate_inv
  header := rfl
  keys _ := iff_of_false List.not_mem_nil fun h => absurd h.1 Finmap.notMem_empty

def pairOf (key : Bytes) : Nat ×ₗ Bytes := toLex (Multi.keyHashSlot key, key)

theorem Inv.pair_mem (h : Inv st ns es) {key : Bytes} : pairOf key ∈ es ↔ key ∈ st.db.dict :=
  (h.keys (pairOf key)).trans (and_iff_left rfl)

theorem Inv.eq_pair (h : Inv st ns es) {e : Nat ×ₗ Bytes} (he : e ∈ es) : e = pairOf (ofLex e).2 := by
  have hslot := ((h.keys e).mp he).2
  rw [pairOf, ← hslot]
  rfl

theorem Inv.exact (h : Inv st ns es) : IndexExact st := by
  refine ⟨es, ?_, h.zsl.sorted.imp fun hlt => ne_of_lt hlt, h.keys⟩
  rw [h.zsl.levelNodes_zero]
  exact h.zsl.elems

theorem Inv.congr (h : Inv st ns es) (hzsl : st'.slots_to_keys = st.slots_to_keys)
    (hdict : ∀ key, key ∈ st'.db.dict ↔ key ∈ st.db.dict) : Inv st' ns es where
  zsl := by
    rw [hzsl]
    exact h.zsl
  header := by
    rw [hzsl]
    exact h.header
  keys e := by rw [hdict, h.keys]

theorem Inv.dbAdd (h : Inv st ns es) {key : Bytes} {val : V} {level : Level}
    (hadd : dbAdd st key val level = some st') :
    ∃ ns' es', Inv st' ns' es' := by
  unfold SlotIndex.dbAdd Redisdb.dbAdd at hadd
  split at hadd
  · cases hadd
  next hnew =>
    cases hadd
    obtain ⟨pre, post, ep, eq, z', hz', rfl, rfl, -, -, -, hinv, -, -⟩ :=
      zslInsert_spec h.zsl (Multi.keyHashSlot key) key level.2 fun hmem => hnew (h.pair_mem.mp hmem)
    have hheader : zslHeader ≠ st.slots_to_keys.fresh := ne_of_lt (h.zsl.fresh _ List.mem_cons_self)
    refine ⟨pre ++ st.slots_to_keys.fresh :: post, ep ++ pairOf key :: eq, ?_, ?_, fun e => ?_⟩
    · show ZslInv (zslInsert _ _ _ _).1 _ _
      rw [hz']
      exact hinv
    · show ((zslInsert _ _ _ _).1.node zslHeader).obj = none
      rw [zslInsert_obj _ _ _ _ hheader]
      exact h.header
    · have hold := h.keys e
      rw [List.mem_append] at hold
      rw [List.mem_append, List.mem_cons, Finmap.mem_insert, or_left_comm, hold, or_and_right]
      refine or_congr ⟨?_, ?_⟩ Iff.rfl
      · rintro rfl
        exact ⟨rfl, rfl⟩
      · rintro ⟨hkey, hslot⟩
        rw [← hkey, pairOf, ← hslot]
        rfl

theorem Inv.dbDelete_mem (h : Inv st ns es) {key : Bytes} (hkey : key ∈ st.db.dict) :
    ∃ pre x post ep eq, ns = pre ++ x :: post ∧ es = ep ++ pairOf key :: eq ∧ pre.length = ep.length ∧
      Inv (dbDelete st key) (pre ++ post) (ep ++ eq) ∧
      ∀ y, ((dbDelete st key).slots_to_keys.node y).score = (st.slots_to_keys.node y).score ∧
        ((dbDelete st key).slots_to_keys.node y).obj = (st.slots_to_keys.node y).obj := by
  obtain ⟨pre, x, post, ep, eq, rfl, rfl, hlen, hinv, hsame⟩ := zslDelete_mem h.zsl (h.pair_mem.mpr hkey)
  have hindex : (dbDelete st key).slots_to_keys = (zslDelete st.slots_to_keys (Multi.keyHashSlot key) key).1 := by
    show (if decide (key ∈ st.db.dict) then _ else _) = _
    rw [if_pos (decide_eq_true hkey)]
    rfl
  refine ⟨pre, x, post, ep, eq, rfl, rfl, hlen, ⟨?_, ?_, fun e => ?_⟩, fun y => ?_⟩
  · rw [hindex]
    exact hinv
  · rw [hindex, (hsame zslHeader).2]
    exact h.header
  · have hold := h.keys e
    have hnodup : (ep ++ pairOf key :: eq).Nodup := h.zsl.sorted.imp fun hlt => ne_of_lt hlt
    have hnot : pairOf key ∉ ep ++ eq := (List.nodup_middle.mp hnodup).notMem
    show _ ↔ (ofLex e).2 ∈ st.db.dict.erase key ∧ _
    rw [Finmap.mem_erase]
    constructor
    · intro he
      have hmem : e ∈ ep ++ pairOf key :: eq := by
        rcases List.mem_append.mp he with he | he
        · exact List.mem_append_left _ he
        · exact List.mem_append_right _ (List.mem_cons_of_mem _ he)
      refine ⟨⟨?_, (hold.mp hmem).1⟩, (hold.mp hmem).2⟩
      intro heq
      rw [h.eq_pair hmem, heq] at he
      exact hnot he
    · rintro ⟨⟨hne, hthere⟩, hslot⟩
      rcases List.mem_append.mp (hold.mpr ⟨hthere, hslot⟩) with he | he
      · exact List.mem_append_left _ he
      · rcases List.mem_cons.mp he with rfl | he
        · exact absurd rfl hne
        · exact List.mem_append_right _ he
  · rw [hindex]
    exact hsame y

theorem Inv.dbDelete_not_mem (h : Inv st ns es) {key : Bytes} (hkey : key ∉ st.db.dict) :
    Inv (dbDelete st key) ns es := by
  refine h.congr ?_ fun k => ?_
  · show (if decide (key ∈ st.db.dict) then _ else _) = _
    rw [if_neg (by rw [decide_eq_true_iff]; exact hkey)]
  · show k ∈ st.db.dict.erase key ↔ _
    rw [Finmap.mem_erase, and_iff_right_iff_imp]
    rintro hk rfl
    exact hkey hk

theorem Inv.dbDelete (h : Inv st ns es) (key : Bytes) : ∃ ns' es', Inv (dbDelete st key) ns' es' := by
  by_cases hkey : key ∈ st.db.dict
  · obtain ⟨_, _, _, _, _, -, -, -, hinv, -⟩ := h.dbDelete_mem hkey
    exact ⟨_, _, hinv⟩
  · exact ⟨ns, es, h.dbDelete_not_mem hkey⟩

theorem Inv.dbOverwrite (h : Inv st ns es) {key : Bytes} {val : V} (hover : dbOverwrite st key val = some st') :
    Inv st' ns es := by
  unfold SlotIndex.dbOverwrite at hover
  split at hover
  next hkey =>
    cases hover
    refine h.congr rfl fun k => ?_
    show k ∈ st.db.dict.insert key val ↔ _
    rw [Finmap.mem_insert, or_iff_right_iff_imp]
    rintro rfl
    exact hkey
  · cases hover

theorem Inv.expireIfNeeded (h : Inv st ns es) {key : Bytes} {now : Int} (hexp : expireIfNeeded st key now = some st') :
    ∃ ns' es', Inv st' ns' es' := by
  obtain ⟨when, -, heq⟩ := Option.map_eq_some_iff.mp hexp
  split at heq
  · cases heq
    exact ⟨ns, es, h⟩
  · cases heq
    exact h.dbDelete key

theorem Inv.setKey (h : Inv st ns es) {key : Bytes} {val : V} {level : Level} {now : Int}
    (hset : setKey st key val level now = some st') : ∃ ns' es', Inv st' ns' es' := by
  obtain ⟨st₁, hexp, hset⟩ := Option.bind_eq_some_iff.mp hset
  obtain ⟨st₂, hput, rfl⟩ := Option.map_eq_some_iff.mp hset
  obtain ⟨ns₁, es₁, h₁⟩ := h.expireIfNeeded hexp
  split at hput
  · exact ⟨ns₁, es₁, (h₁.dbOverwrite hput).congr rfl fun _ => Iff.rfl⟩
  · obtain ⟨ns₂, es₂, h₂⟩ := h₁.dbAdd hput
    exact ⟨ns₂, es₂, h₂.congr rfl fun _ => Iff.rfl⟩

/-! ## The nodes of a slot -/

def inSlot (zsl : Zskiplist Nat Bytes) (hashslot : Nat) (x : Nat) : Bool := decide ((zsl.node x).score = hashslot)

def keyAt (zsl : Zskiplist Nat Bytes) (x : Nat) : Bytes := ((zsl.node x).obj).getD []

variable {hashslot : Nat} {z : Zskiplist Nat Bytes}

variable (hashslot) in
theorem takeWhile_inSlot (h : ns.Pairwise fun x y => (z.node x).score ≤ (z.node y).score) :
    (ns.dropWhile fun x => !inSlot z hashslot x).takeWhile (inSlot z hashslot) = ns.filter (inSlot z hashslot) := by
  have hfrom : ∀ l : List Nat, (l.Pairwise fun x y => (z.node x).score ≤ (z.node y).score) →
      (∀ x ∈ l, hashslot ≤ (z.node x).score) → l.takeWhile (inSlot z hashslot) = l.filter (inSlot z hashslot) := by
    intro l
    induction l with
    | nil => exact fun _ _ => rfl
    | cons x l ih =>
      intro hpair hge
      obtain ⟨hx, hl⟩ := List.pairwise_cons.mp hpair
      by_cases hin : inSlot z hashslot x = true
      · rw [List.takeWhile_cons_of_pos hin, List.filter_cons_of_pos hin,
          ih hl fun y hy => hge y (List.mem_cons_of_mem x hy)]
      · have hlt : hashslot < (z.node x).score := by
          have hle := hge x List.mem_cons_self
          have hne : (z.node x).score ≠ hashslot := fun heq => hin (decide_eq_true heq)
          omega
        rw [List.takeWhile_cons_of_neg hin, List.filter_cons_of_neg hin, eq_comm, List.filter_eq_nil_iff]
        intro y hy hin'
        have heq : (z.node y).score = hashslot := of_decide_eq_true hin'
        have hle := hx y hy
        omega
  induction ns with
  | nil => rfl
  | cons x ns ih =>
    obtain ⟨hx, hns⟩ := List.pairwise_cons.mp h
    by_cases hin : inSlot z hashslot x = true
    · rw [List.dropWhile_cons_of_neg (by rw [hin]; decide)]
      refine hfrom _ h fun y hy => ?_
      have heq : (z.node x).score = hashslot := of_decide_eq_true hin
      rcases List.mem_cons.mp hy with rfl | hy
      · exact le_of_eq heq.symm
      · exact heq ▸ hx y hy
    · have hout : inSlot z hashslot x = false := eq_false_of_ne_true hin
      rw [List.dropWhile_cons_of_pos (by rw [hout]; rfl), List.filter_cons_of_neg hin, ih hns]

theorem head_dropWhile (p : Nat → Bool) (l : List Nat) : (l.dropWhile fun x => !p x).head? = (l.filter p).head? := by
  induction l with
  | nil => rfl
  | cons x l ih =>
    cases hx : p x with
    | true => rw [List.dropWhile_cons_of_neg (by rw [hx]; decide), List.filter_cons_of_pos hx]; rfl
    | false => rw [List.dropWhile_cons_of_pos (by rw [hx]; rfl), List.filter_cons_of_neg (by rw [hx]; decide), ih]

theorem slotRange_contains (hashslot score : Nat) : (slotRange hashslot).Contains score ↔ score = hashslot := by
  unfold Zrangespec.Contains slotRange
  simp only [and_true]
  omega

theorem Inv.zset (h : Inv st ns es) :
    Zset.Ok { zsl := st.slots_to_keys, dict := fun m => if m ∈ st.db.dict then some (Multi.keyHashSlot m) else none }
      ns es where
  zsl := h.zsl
  dict m score := by
    rw [h.keys]
    dsimp only [ofLex_toLex]
    by_cases hm : m ∈ st.db.dict
    · rw [if_pos hm, Option.some.injEq]
      exact ⟨fun heq => ⟨hm, heq.symm⟩, fun heq => heq.2.symm⟩
    · rw [if_neg hm]
      exact iff_of_false nofun fun heq => hm heq.1

theorem Inv.filter_range (zsl : Zskiplist Nat Bytes) (ns : List Nat) (hashslot : Nat) :
    (ns.filter fun x => (slotRange hashslot).Contains (zsl.node x).score) = ns.filter (inSlot zsl hashslot) :=
  List.filter_congr fun _ _ => decide_eq_decide.mpr (slotRange_contains hashslot _)

theorem Inv.first (h : Inv st ns es) (hashslot : Nat) :
    zslFirstInRange st.slots_to_keys (slotRange hashslot) =
      .ok (ns.dropWhile fun x => !inSlot st.slots_to_keys hashslot x).head? := by
  rw [(score_ranges _ ns es h.zset (slotRange hashslot)).1, head_dropWhile]
  dsimp only
  rw [Inv.filter_range]

theorem Inv.last (h : Inv st ns es) (hashslot : Nat) :
    zslLastInRange st.slots_to_keys (slotRange hashslot) = (ns.filter (inSlot st.slots_to_keys hashslot)).getLast? := by
  rw [(score_ranges _ ns es h.zset (slotRange hashslot)).2.1]
  dsimp only
  rw [Inv.filter_range]

theorem Inv.pair_at (h : Inv st ns es) {x : Nat} (hx : x ∈ ns) :
    nodeElem st.slots_to_keys x = some (pairOf (keyAt st.slots_to_keys x)) ∧
      (st.slots_to_keys.node x).score = Multi.keyHashSlot (keyAt st.slots_to_keys x) ∧
        keyAt st.slots_to_keys x ∈ st.db.dict := by
  have hmem : nodeElem st.slots_to_keys x ∈ es.map some := by
    rw [← h.zsl.elems]
    exact List.mem_map_of_mem hx
  obtain ⟨e, he, heq⟩ := List.mem_map.mp hmem
  obtain ⟨m, hm, hpair⟩ := Option.map_eq_some_iff.mp heq.symm
  have hkey : keyAt st.slots_to_keys x = m := by rw [keyAt, hm, Option.getD_some]
  obtain ⟨hthere, hslot⟩ := (h.keys e).mp he
  rw [← hpair] at hthere hslot
  rw [hkey]
  refine ⟨?_, hslot, hthere⟩
  rw [nodeElem, hm, Option.map_some, pairOf]
  exact congrArg (fun s => some (toLex (s, m))) hslot

theorem Inv.keys_nodup (h : Inv st ns es) : (ns.map (keyAt st.slots_to_keys)).Nodup := by
  have hes : es.Nodup := h.zsl.sorted.imp fun hlt => ne_of_lt hlt
  have hnodup : (es.map some).Nodup := hes.map (Option.some_injective _)
  rw [← h.zsl.elems] at hnodup
  rw [List.map_congr_left fun x hx => (h.pair_at hx).1] at hnodup
  have hcomp : ns.map (fun x => some (pairOf (keyAt st.slots_to_keys x))) =
      (ns.map (keyAt st.slots_to_keys)).map fun k => some (pairOf k) := by
    rw [List.map_map]
    rfl
  rw [hcomp] at hnodup
  exact hnodup.of_map _

theorem Inv.key_mem (h : Inv st ns es) {key : Bytes} (hkey : key ∈ st.db.dict) :
    key ∈ ns.map (keyAt st.slots_to_keys) := by
  have hmem : some (pairOf key) ∈ ns.map (nodeElem st.slots_to_keys) := by
    rw [h.zsl.elems]
    exact List.mem_map_of_mem (h.pair_mem.mpr hkey)
  obtain ⟨x, hx, heq⟩ := List.mem_map.mp hmem
  rw [(h.pair_at hx).1, Option.some.injEq, pairOf, pairOf, toLex_inj, Prod.mk.injEq] at heq
  exact List.mem_map.mpr ⟨x, hx, heq.2⟩

theorem Inv.slot_keys (h : Inv st ns es) (hashslot : Nat) :
    ((ns.filter (inSlot st.slots_to_keys hashslot)).map (keyAt st.slots_to_keys)).Nodup ∧
      ∀ key, key ∈ (ns.filter (inSlot st.slots_to_keys hashslot)).map (keyAt st.slots_to_keys) ↔
        key ∈ keysOf st hashslot := by
  refine ⟨h.keys_nodup.sublist (List.filter_sublist.map _), fun key => ?_⟩
  rw [keysOf, Finset.mem_filter, Finmap.mem_keys]
  constructor
  · intro hmem
    obtain ⟨x, hx, rfl⟩ := List.mem_map.mp hmem
    obtain ⟨hx, hin⟩ := List.mem_filter.mp hx
    obtain ⟨-, hscore, hthere⟩ := h.pair_at hx
    exact ⟨hthere, hscore.symm.trans (of_decide_eq_true hin)⟩
  · rintro ⟨hthere, hslot⟩
    obtain ⟨x, hx, rfl⟩ := List.mem_map.mp (h.key_mem hthere)
    refine List.mem_map_of_mem (List.mem_filter.mpr ⟨hx, decide_eq_true ?_⟩)
    rw [(h.pair_at hx).2.1, hslot]

theorem Inv.slot_card (h : Inv st ns es) (hashslot : Nat) :
    (ns.filter (inSlot st.slots_to_keys hashslot)).length = (keysOf st hashslot).card := by
  obtain ⟨hnodup, hmem⟩ := h.slot_keys hashslot
  have hset : ((ns.filter (inSlot st.slots_to_keys hashslot)).map (keyAt st.slots_to_keys)).toFinset =
      keysOf st hashslot := Finset.ext fun key => List.mem_toFinset.trans (hmem key)
  rw [← hset, List.toFinset_card_of_nodup hnodup, List.length_map]

/-! ## The walks -/

theorem keysLoop_eq (h : ZslInv z ns es) (hashslot : Nat) (l : List Nat) {a : List Nat} (hns : ns = a ++ l)
    {fuel : Nat} (hfuel : l.length ≤ fuel) (count j : Nat) (hj : j ≤ 2 ^ 31) :
    keysLoop z hashslot fuel l.head? count j =
      if j + min count (l.takeWhile (inSlot z hashslot)).length ≤ 2 ^ 31 then
        some (((l.takeWhile (inSlot z hashslot)).take count).map (keyAt z))
      else none := by
  induction l generalizing a fuel count j with
  | nil =>
    rw [List.takeWhile_nil, List.take_nil, List.map_nil, List.length_nil, Nat.min_zero, Nat.add_zero, if_pos hj,
      List.head?_nil]
    cases fuel <;> rfl
  | cons x l ih =>
    obtain ⟨fuel, rfl⟩ : ∃ m, fuel = m + 1 := ⟨fuel - 1, by rw [List.length_cons] at hfuel; omega⟩
    cases count with
    | zero =>
      rw [Nat.zero_min, if_pos (show j + 0 ≤ 2 ^ 31 from hj), List.take_zero]
      rfl
    | succ count =>
      rw [List.head?_cons, keysLoop]
      by_cases hin : (z.node x).score = hashslot
      · rw [if_pos hin, List.takeWhile_cons_of_pos (p := inSlot z hashslot) (decide_eq_true hin), List.length_cons,
          List.take_succ_cons, List.map_cons]
        by_cases hfull : j ≥ 2 ^ 31
        · rw [if_pos hfull, if_neg (by omega)]
        · rw [if_neg hfull, forward_eq h hns,
            ih (a := a ++ [x]) (by rw [hns, List.append_assoc, List.singleton_append])
              (Nat.le_of_succ_le_succ hfuel) count (j + 1) (by omega)]
          have hsum : j + 1 + min count (l.takeWhile (inSlot z hashslot)).length =
              j + min (count + 1) ((l.takeWhile (inSlot z hashslot)).length + 1) := by omega
          rw [hsum]
          split
          · rfl
          · rfl
      · rw [if_neg hin, List.takeWhile_cons_of_neg (p := inSlot z hashslot) (by rw [inSlot, decide_eq_true_iff]; exact hin),
          List.take_nil, List.map_nil, List.length_nil, Nat.min_zero, Nat.add_zero, if_pos hj]

theorem Inv.getKeys (h : Inv st ns es) (hashslot n : Nat) :
    getKeysInSlot st.slots_to_keys hashslot n =
      if min n (keysOf st hashslot).card ≤ 2 ^ 31 then
        some (((ns.filter (inSlot st.slots_to_keys hashslot)).take n).map (keyAt st.slots_to_keys))
      else none := by
  have hsplit : ns = (ns.takeWhile fun x => !inSlot st.slots_to_keys hashslot x) ++
      ns.dropWhile fun x => !inSlot st.slots_to_keys hashslot x := List.takeWhile_append_dropWhile.symm
  have hlen : (ns.dropWhile fun x => !inSlot st.slots_to_keys hashslot x).length ≤ st.slots_to_keys.length := by
    rw [h.zsl.length_eq]
    exact (List.dropWhile_sublist _).length_le
  unfold getKeysInSlot
  rw [h.first]
  dsimp only
  rw [keysLoop_eq h.zsl hashslot _ hsplit hlen n 0 (Nat.zero_le _), Nat.zero_add, takeWhile_inSlot hashslot h.zsl.scores,
    h.slot_card]

theorem delLoop_ok (hashslot : Nat) (l : List Nat) {a : List Nat} {fuel : Nat} {st : SlotDb V}
    {es : List (Nat ×ₗ Bytes)} (h : Inv st (a ++ l) es) (hfuel : l.length ≤ fuel) :
    (∃ ns' es', Inv (delLoop hashslot fuel l.head? st) ns' es') ∧
      ∀ key, (delLoop hashslot fuel l.head? st).db.dict.lookup key =
        if key ∈ (l.takeWhile (inSlot st.slots_to_keys hashslot)).map (keyAt st.slots_to_keys) then none
        else st.db.dict.lookup key := by
  induction l generalizing a fuel st es with
  | nil =>
    have hloop : delLoop hashslot fuel ([] : List Nat).head? st = st := by cases fuel <;> rfl
    rw [hloop]
    exact ⟨⟨_, _, h⟩, fun key => (if_neg List.not_mem_nil).symm⟩
  | cons x l ih =>
    obtain ⟨fuel, rfl⟩ : ∃ m, fuel = m + 1 := ⟨fuel - 1, by rw [List.length_cons] at hfuel; omega⟩
    rw [List.head?_cons, delLoop]
    by_cases hin : (st.slots_to_keys.node x).score = hashslot
    · obtain ⟨helem, -, hthere⟩ := h.pair_at (x := x) (by simp)
      obtain ⟨pre, x', post, ep, eq, hns, hes, hlen, hinv, hsame⟩ := h.dbDelete_mem hthere
      -- the pair is at one place only, so the node that is deleted is `x`
      have hplace : a.length = pre.length := by
        have hold := h.zsl.elems
        rw [hes] at hold
        have hat := congrArg (fun l => l[a.length]?) hold
        have hnodup : ((ep ++ pairOf (keyAt st.slots_to_keys x) :: eq).map some).Nodup := by
          have hes' : es.Nodup := h.zsl.sorted.imp fun hlt => ne_of_lt hlt
          rw [← hes]
          exact hes'.map (Option.some_injective _)
        have hleft : ((a ++ x :: l).map (nodeElem st.slots_to_keys))[a.length]? =
            some (some (pairOf (keyAt st.slots_to_keys x))) := by
          rw [List.getElem?_map, List.getElem?_append_right le_rfl, Nat.sub_self]
          exact congrArg some helem
        have hright : ((ep ++ pairOf (keyAt st.slots_to_keys x) :: eq).map some)[ep.length]? =
            some (some (pairOf (keyAt st.slots_to_keys x))) := by
          rw [List.getElem?_map, List.getElem?_append_right le_rfl, Nat.sub_self]
          rfl
        rw [hold] at hleft
        rw [hlen]
        exact (List.getElem?_inj (List.getElem?_eq_some_iff.mp hleft).1 hnodup).mp (hleft.trans hright.symm)
      obtain ⟨rfl, hrest⟩ := List.append_inj hns hplace
      obtain ⟨rfl, rfl⟩ := List.cons.inj hrest
      have hscore : ∀ y, inSlot (dbDelete st (keyAt st.slots_to_keys x)).slots_to_keys hashslot y =
          inSlot st.slots_to_keys hashslot y := fun y => by rw [inSlot, inSlot, (hsame y).1]
      have hkey : ∀ y, keyAt (dbDelete st (keyAt st.slots_to_keys x)).slots_to_keys y = keyAt st.slots_to_keys y :=
        fun y => congrArg (fun obj => obj.getD []) (hsame y).2
      have hstep := ih hinv (Nat.le_of_succ_le_succ hfuel)
      rw [if_pos hin, forward_eq h.zsl rfl]
      refine ⟨hstep.1, fun key => ?_⟩
      have hlookup : (dbDelete st (keyAt st.slots_to_keys x)).db.dict.lookup key =
          if key = keyAt st.slots_to_keys x then none else st.db.dict.lookup key := by
        show (st.db.dict.erase _).lookup key = _
        split_ifs with heq
        · rw [heq, Finmap.lookup_erase]
        · exact Finmap.lookup_erase_ne heq
      have hloop := hstep.2 key
      rw [funext hscore, funext hkey, hlookup] at hloop
      rw [List.takeWhile_cons_of_pos (p := inSlot st.slots_to_keys hashslot) (decide_eq_true hin), List.map_cons]
      refine hloop.trans ?_
      by_cases heq : key = keyAt st.slots_to_keys x
      · rw [if_pos heq, ite_self, if_pos (heq ▸ List.mem_cons_self)]
      · rw [if_neg heq]
        exact if_congr (by rw [List.mem_cons, or_iff_right heq]) rfl rfl
    · rw [if_neg hin, List.takeWhile_cons_of_neg (p := inSlot st.slots_to_keys hashslot)
        (by rw [inSlot, decide_eq_true_iff]; exact hin)]
      exact ⟨⟨_, _, h⟩, fun key => (if_neg List.not_mem_nil).symm⟩

theorem Inv.delKeys (h : Inv st ns es) (hashslot : Nat) :
    ∃ st', delKeysInSlot st hashslot = some st' ∧ (∃ ns' es', Inv st' ns' es') ∧
      ∀ key, st'.db.dict.lookup key = if key ∈ keysOf st hashslot then none else st.db.dict.lookup key := by
  have hsplit : ns = (ns.takeWhile fun x => !inSlot st.slots_to_keys hashslot x) ++
      ns.dropWhile fun x => !inSlot st.slots_to_keys hashslot x := List.takeWhile_append_dropWhile.symm
  have hlen : (ns.dropWhile fun x => !inSlot st.slots_to_keys hashslot x).length ≤ st.slots_to_keys.length := by
    rw [h.zsl.length_eq]
    exact (List.dropWhile_sublist _).length_le
  obtain ⟨hinv, hdict⟩ := delLoop_ok hashslot _ (hsplit ▸ h) hlen
  refine ⟨_, ?_, hinv, fun key => (hdict key).trans ?_⟩
  · unfold delKeysInSlot
    rw [h.first]
  · rw [takeWhile_inSlot hashslot h.zsl.scores]
    exact if_congr ((h.slot_keys hashslot).2 key) rfl rfl

/-! ## The count -/

theorem narrowInt_emod (n : Int) : narrowInt n % 2 ^ 32 = n % 2 ^ 32 := Int.bmod_emod

theorem count_eq {length first last : Int} {count : Nat} (hcount : (count : Int) = last - first + 1)
    (hfit : count ≤ 2 ^ 31) :
    narrowInt (narrowInt (length - (narrowInt first - 1)) - (length - narrowInt last)) % 2 ^ 32 = count := by
  have hfirst := narrowInt_emod first
  have hlast := narrowInt_emod last
  have hinner := narrowInt_emod (length - (narrowInt first - 1))
  rw [narrowInt_emod]
  generalize narrowInt (length - (narrowInt first - 1)) = c at hinner ⊢
  generalize narrowInt first = a at hfirst hinner
  generalize narrowInt last = b at hlast ⊢
  omega

theorem Inv.wellFormed (h : Inv st ns es) (hgaps : GapsFit st.slots_to_keys) :
    ZslWellFormed st.slots_to_keys ns es where
  inv := h.zsl
  gaps := hgaps
  header := h.header
  members := by
    have hes : es.Nodup := h.zsl.sorted.imp fun hlt => ne_of_lt hlt
    refine hes.map_on fun e he e' he' heq => ?_
    rw [h.eq_pair he, h.eq_pair he', heq]

theorem Inv.rank_at (h : Inv st ns es) (hgaps : GapsFit st.slots_to_keys) {k x : Nat} (hk : ns[k]? = some x) :
    zslGetRank st.slots_to_keys (st.slots_to_keys.node x).score (((st.slots_to_keys.node x).obj).getD []) = k + 1 := by
  obtain ⟨helem, hscore, -⟩ := h.pair_at (List.mem_of_getElem? hk)
  refine (h.wellFormed hgaps).rank_mem hk ?_
  rw [helem, hscore]
  rfl

theorem Inv.count (h : Inv st ns es) (hgaps : GapsFit st.slots_to_keys) {hashslot : Nat}
    (hfit : (keysOf st hashslot).card ≤ 2 ^ 31) :
    countKeysInSlot st.slots_to_keys hashslot = some ((keysOf st hashslot).card : Int) := by
  have hcard := h.slot_card hashslot
  have hmid := takeWhile_inSlot hashslot h.zsl.scores
  unfold countKeysInSlot
  rw [h.first, head_dropWhile, h.last]
  dsimp only
  -- the nodes of the slot with those before and behind them
  have hsplit : ns = (ns.takeWhile fun x => !inSlot st.slots_to_keys hashslot x) ++
      (ns.filter (inSlot st.slots_to_keys hashslot) ++
        (ns.dropWhile fun x => !inSlot st.slots_to_keys hashslot x).dropWhile
          (inSlot st.slots_to_keys hashslot)) := by
    rw [← hmid, List.takeWhile_append_dropWhile, List.takeWhile_append_dropWhile]
  generalize ns.filter (inSlot st.slots_to_keys hashslot) = mid at hcard hsplit ⊢
  generalize (ns.takeWhile fun x => !inSlot st.slots_to_keys hashslot x) = pre at hsplit
  generalize (ns.dropWhile fun x => !inSlot st.slots_to_keys hashslot x).dropWhile
    (inSlot st.slots_to_keys hashslot) = post at hsplit
  cases hhead : mid.head? with
  | none =>
    rw [List.head?_eq_none_iff.mp hhead] at hcard
    rw [← hcard]
    rfl
  | some first =>
    have hne : mid ≠ [] := by
      rintro rfl
      cases hhead
    have hpos := List.length_pos_iff.mpr hne
    have hfirst : ns[pre.length]? = some first := by
      rw [hsplit, List.getElem?_append_right le_rfl, Nat.sub_self, List.getElem?_append_left hpos,
        ← List.head?_eq_getElem?, hhead]
    have hlast : ns[pre.length + (mid.length - 1)]? = some (mid.getLast hne) := by
      rw [hsplit, List.getElem?_append_right (Nat.le_add_right _ _), Nat.add_sub_cancel_left,
        List.getElem?_append_left (by omega), ← List.getLast?_eq_getElem?, List.getLast?_eq_getLast_of_ne_nil hne]
    rw [List.getLast?_eq_getLast_of_ne_nil hne]
    dsimp only
    rw [h.rank_at hgaps hfirst, h.rank_at hgaps hlast]
    refine congrArg some (count_eq ?_ hfit)
    rw [← hcard]
    omega

/-! ## Runs -/

theorem step_inv (h : Inv st ns es) {a : Action V} (hstep : step st a = some st') : ∃ ns' es', Inv st' ns' es' := by
  cases a with
  | dbAdd key val level => exact h.dbAdd hstep
  | dbOverwrite key val => exact ⟨_, _, h.dbOverwrite hstep⟩
  | setKey key val level now => exact h.setKey hstep
  | setExpire key when =>
    obtain ⟨db, hset, rfl⟩ := Option.map_eq_some_iff.mp hstep
    unfold Redisdb.setExpire at hset
    split at hset
    · cases hset
      exact ⟨ns, es, h.congr rfl fun _ => Iff.rfl⟩
    · cases hset
  | dbDelete key =>
    cases hstep
    exact h.dbDelete key
  | emptyDb =>
    cases hstep
    exact ⟨[], [], Inv.initial.congr rfl fun _ => Iff.rfl⟩
  | expire key now => exact h.expireIfNeeded hstep
  | delKeysInSlot hashslot =>
    obtain ⟨st₁, hdel, hinv, -⟩ := h.delKeys hashslot
    rw [step, hdel] at hstep
    cases hstep
    exact hinv
  | role loading masterhost =>
    cases hstep
    exact ⟨ns, es, h.congr rfl fun _ => Iff.rfl⟩

theorem run_index (as : List (Action V)) (h : Inv st ns es) (hrun : as.foldlM step st = some st') :
    ∃ ns' es', Inv st' ns' es' := by
  induction as generalizing st ns es with
  | nil =>
    cases hrun
    exact ⟨ns, es, h⟩
  | cons a as ih =>
    rw [List.foldlM_cons] at hrun
    obtain ⟨st₁, hstep, hrest⟩ := Option.bind_eq_some_iff.mp hrun
    obtain ⟨ns₁, es₁, h₁⟩ := step_inv h hstep
    exact ih h₁ hrest

theorem Inv.reads (h : Inv st ns es) (hfit : IndexFits st) (hashslot : Nat) : SlotReads st hashslot where
  count := h.count hfit.1 (hfit.2 hashslot)
  get n := by
    have hle := hfit.2 hashslot
    obtain ⟨hnodup, hmem⟩ := h.slot_keys hashslot
    refine ⟨_, (h.getKeys hashslot n).trans (if_pos (by omega)), ?_, fun key hkey => ?_, ?_⟩
    · rw [List.map_take]
      exact hnodup.sublist (List.take_sublist _ _)
    · rw [List.map_take] at hkey
      exact (hmem key).mp (List.mem_of_mem_take hkey)
    · rw [List.length_map, List.length_take, h.slot_card]
  del := by
    obtain ⟨st', hdel, ⟨_, _, hinv⟩, hdict⟩ := h.delKeys hashslot
    exact ⟨st', hdel, hinv.exact, hdict⟩

/-- **The slot index** has one node for each key in every state of every run, and as long as its links and the
number of keys of a slot fit, the functions on a slot read and remove exactly its keys. -/
theorem slot_index (as : List (Action V)) (st : SlotDb V) (hrun : as.foldlM step initial = some st) :
    IndexExact st ∧ (IndexFits st → ∀ hashslot, SlotReads st hashslot) := by
  obtain ⟨ns, es, h⟩ := run_index as Inv.initial hrun
  exact ⟨h.exact, fun hfit hashslot => h.reads hfit hashslot⟩

def addOne : List (Action Unit) := [.dbAdd (ascii "k") () ⟨1, by decide⟩]

theorem slot_index_one : ∃ st, addOne.foldlM step initial = some st ∧ IndexExact st ∧
    ∀ hashslot, SlotReads st hashslot := by
  have hrun : addOne.foldlM step initial = some
      { db := { dict := Finmap.insert (ascii "k") () ∅, expires := ∅ }
        slots_to_keys := slotToKeyAdd zslCreate (ascii "k") ⟨1, by decide⟩, loading := false, masterhost := false } := rfl
  obtain ⟨hexact, hreads⟩ := slot_index _ _ hrun
  refine ⟨_, hrun, hexact, hreads ⟨?_, fun hashslot => ?_⟩⟩
  · obtain ⟨ns, es, h⟩ := run_index _ Inv.initial hrun
    exact h.zsl.gapsFit_of_length (lt_of_eq_of_lt (rfl : _ = 1) (by decide))
  · refine le_trans (Finset.card_filter_le _ _) ?_
    show (Finmap.keys (Finmap.insert (ascii "k") () ∅)).card ≤ _
    decide

/-! ## More keys than `int` counts -/

def taggedKey (i : Nat) : Bytes := [123, 97, 125] ++ decimal i

theorem taggedKey_inj : Function.Injective taggedKey := by
  intro i j h
  have hdecimal : decimal i = decimal j := List.append_cancel_left h
  rw [← Aof.digitsValue_decimal i, hdecimal, Aof.digitsValue_decimal]

theorem taggedKey_slot (i : Nat) : Multi.keyHashSlot (taggedKey i) = Multi.keyHashSlot [97] := by
  have htag : ((taggedKey i).dropWhile (· ≠ 123)).tail = 97 :: 125 :: decimal i := rfl
  have hinside : (97 :: 125 :: decimal i : Bytes).takeWhile (· ≠ 125) = [97] := rfl
  have hkey : Multi.keyHashSlot [97] = Multi.crc16 [97] &&& 0x3fff := rfl
  rw [hkey, Multi.keyHashSlot, htag, hinside, if_neg]
  · rintro (hlen | hnil)
    · simp only [List.length_cons, List.length_nil] at hlen
      omega
    · cases hnil

def floods (n : Nat) : List (Action Unit) := (List.range n).map fun i => .dbAdd (taggedKey i) () ⟨1, by decide⟩

theorem floods_run (n : Nat) :
    ∃ st, (floods n).foldlM step initial = some st ∧ st.db.dict.keys = (Finset.range n).image taggedKey := by
  induction n with
  | zero => exact ⟨initial, rfl, rfl⟩
  | succ n ih =>
    obtain ⟨st, hrun, hkeys⟩ := ih
    have hnew : taggedKey n ∉ st.db.dict := by
      rw [← Finmap.mem_keys, hkeys]
      intro hmem
      obtain ⟨i, hi, heq⟩ := Finset.mem_image.mp hmem
      rw [taggedKey_inj heq] at hi
      exact absurd hi Finset.notMem_range_self
    obtain ⟨st', hst'⟩ : ∃ st' : SlotDb Unit, st' =
        { st with
          db := { st.db with dict := st.db.dict.insert (taggedKey n) () }
          slots_to_keys := slotToKeyAdd st.slots_to_keys (taggedKey n) ⟨1, by decide⟩ } := ⟨_, rfl⟩
    have hstep : step st (.dbAdd (taggedKey n) () ⟨1, by decide⟩) = some st' := by
      rw [hst']
      show dbAdd _ _ _ _ = _
      unfold dbAdd Redisdb.dbAdd
      rw [if_neg hnew]
      rfl
    have hsucc : floods (n + 1) = floods n ++ [.dbAdd (taggedKey n) () ⟨1, by decide⟩] := by
      rw [floods, List.range_succ, List.map_append]
      rfl
    refine ⟨st', ?_, ?_⟩
    · rw [hsucc, List.foldlM_append, hrun]
      exact (bind_pure _).trans hstep
    · rw [Finset.range_add_one, Finset.image_insert, ← hkeys, hst']
      ext key
      rw [Finmap.mem_keys, Finmap.mem_insert, Finset.mem_insert, Finmap.mem_keys]

/-- With `2 ^ 31 + 1` keys in a slot, `getKeysInSlot` writes the last one in front of its array. -/
theorem slot_index_int_overflow :
    ¬ ∀ (as : List (Action Unit)) (st : SlotDb Unit), as.foldlM step initial = some st →
      ∀ hashslot, SlotReads st hashslot := by
  intro hall
  obtain ⟨n, hn⟩ : ∃ n, n = 2 ^ 31 + 1 := ⟨_, rfl⟩
  obtain ⟨st, hrun, hkeys⟩ := floods_run n
  obtain ⟨ns, es, h⟩ := run_index _ Inv.initial hrun
  have hcard : (keysOf st (Multi.keyHashSlot [97])).card = n := by
    have hset : keysOf st (Multi.keyHashSlot [97]) = (Finset.range n).image taggedKey := by
      rw [keysOf, hkeys, Finset.filter_true_of_mem]
      intro key hkey
      obtain ⟨i, -, rfl⟩ := Finset.mem_image.mp hkey
      exact taggedKey_slot i
    rw [hset, Finset.card_image_of_injective _ taggedKey_inj, Finset.card_range]
  obtain ⟨keys, hget, -⟩ := (hall _ st hrun (Multi.keyHashSlot [97])).get n
  rw [h.getKeys, hcard, if_neg (by omega)] at hget
  cases hget

end RedisCluster.Redisdb.SlotIndex
