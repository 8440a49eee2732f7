import RedisCluster.Zset.Proofs.SearchPathProofs

/-!
# The heap of a skip list

What the assignments change: a link of one node on one level, or one back pointer. A loop over the
levels that works on each level by itself can be read level by level (`forLevels_spec`).
-/

namespace RedisCluster

open RedisCluster.Lib

variable {S M : Type}

/-- Everything but the links is the same. -/
structure SameButLinks (z z' : Zskiplist S M) : Prop where
  score : ∀ x, (z'.node x).score = (z.node x).score
  obj : ∀ x, (z'.node x).obj = (z.node x).obj
  backward : ∀ x, (z'.node x).backward = (z.node x).backward
  height : ∀ x, (z'.node x).height = (z.node x).height
  tail : z'.tail = z.tail
  length : z'.length = z.length
  level : z'.level = z.level
  fresh : z'.fresh = z.fresh

theorem SameButLinks.refl (z : Zskiplist S M) : SameButLinks z z :=
  ⟨fun _ => rfl, fun _ => rfl, fun _ => rfl, fun _ => rfl, rfl, rfl, rfl, rfl⟩

theorem SameButLinks.trans {z z' z'' : Zskiplist S M} (h : SameButLinks z z')
    (h' : SameButLinks z' z'') : SameButLinks z z'' :=
  ⟨fun x => (h'.score x).trans (h.score x), fun x => (h'.obj x).trans (h.obj x),
    fun x => (h'.backward x).trans (h.backward x), fun x => (h'.height x).trans (h.height x),
    h'.tail.trans h.tail, h'.length.trans h.length, h'.level.trans h.level, h'.fresh.trans h.fresh⟩

theorem SameButLinks.tall_eq {z z' : Zskiplist S M} (h : SameButLinks z z') (i x : Nat) :
    tall z' i x = tall z i x := by
  rw [tall, tall, h.height]

theorem setNode_node (z : Zskiplist S M) (x y : Nat) (n : ZskiplistNode S M) :
    (z.setNode x n).node y = if y = x then n else z.node y := by
  simp only [Zskiplist.setNode, Function.update_apply]

theorem link_setLink (z : Zskiplist S M) (x i : Nat) (l : ZskiplistLevel) (y j : Nat) :
    (z.setLink x i l).link y j = if y = x ∧ j = i then l else z.link y j := by
  rw [Zskiplist.link, Zskiplist.setLink, setNode_node]
  by_cases hy : y = x
  · subst hy
    by_cases hj : j = i
    · simp [hj]
    · simp [hj, Zskiplist.link]
  · simp [hy, Zskiplist.link]

theorem setLink_same (z : Zskiplist S M) (x i : Nat) (l : ZskiplistLevel) :
    SameButLinks z (z.setLink x i l) := by
  have hnode : ∀ y, (z.setLink x i l).node y =
      if y = x then { z.node x with level := Function.update (z.node x).level i l }
      else z.node y := fun y => setNode_node z x y _
  refine ⟨fun y => ?_, fun y => ?_, fun y => ?_, fun y => ?_, rfl, rfl, rfl, rfl⟩
  all_goals
    rw [hnode]
    by_cases hy : y = x
    · simp [hy]
    · simp [hy]

theorem link_setBackward (z : Zskiplist S M) (x : Nat) (b : Option Nat) (y j : Nat) :
    (z.setBackward x b).link y j = z.link y j := by
  rw [Zskiplist.link, Zskiplist.setBackward, setNode_node]
  by_cases hy : y = x
  · simp [hy, Zskiplist.link]
  · simp [hy, Zskiplist.link]

def OnLevel (f : Nat → Zskiplist S M → Zskiplist S M)
    (F : Nat → (Nat → ZskiplistLevel) → Nat → ZskiplistLevel) : Prop :=
  ∀ i z, SameButLinks z (f i z) ∧
    ∀ y j, (f i z).link y j = if j = i then F i (fun x => z.link x i) y else z.link y j

theorem forLevels_spec {f : Nat → Zskiplist S M → Zskiplist S M}
    {F : Nat → (Nat → ZskiplistLevel) → Nat → ZskiplistLevel} (hf : OnLevel f F)
    (z : Zskiplist S M) : ∀ n, SameButLinks z (forLevels f n z) ∧
      ∀ y j, (forLevels f n z).link y j =
        if j < n then F j (fun x => z.link x j) y else z.link y j := by
  intro n
  induction n with
  | zero => exact ⟨SameButLinks.refl z, fun y j => by simp [forLevels]⟩
  | succ n ih =>
    obtain ⟨hsame, hlink⟩ := ih
    obtain ⟨hsame', hlink'⟩ := hf n (forLevels f n z)
    refine ⟨hsame.trans hsame', fun y j => ?_⟩
    rw [forLevels, hlink']
    by_cases hj : j = n
    · subst hj
      have hlevel : (fun x => (forLevels f j z).link x j) = fun x => z.link x j := by
        funext x
        rw [hlink, if_neg (by omega)]
      rw [if_pos rfl, if_pos (by omega), hlevel]
    · rw [if_neg hj, hlink]
      by_cases hlt : j < n
      · rw [if_pos hlt, if_pos (by omega)]
      · rw [if_neg hlt, if_neg (by omega)]

theorem raiseHeader_onLevel (level length : Nat) :
    OnLevel (fun i (z' : Zskiplist S M) => if i < level then z' else
        z'.setLink zslHeader i { z'.link zslHeader i with span := uint length })
      (fun i lk y => if i < level then lk y else
        if y = zslHeader then { lk zslHeader with span := uint length } else lk y) := by
  intro i z
  by_cases hi : i < level
  · simp only [hi, if_true]
    refine ⟨SameButLinks.refl z, fun y j => ?_⟩
    by_cases hj : j = i
    · simp [hj]
    · simp [hj]
  · simp only [hi, if_false]
    refine ⟨setLink_same .., fun y j => ?_⟩
    rw [link_setLink]
    by_cases hj : j = i
    · subst hj
      by_cases hy : y = zslHeader <;> simp [hy]
    · simp [hj]

theorem linkLevel_onLevel (x : Nat) (update rank : Nat → Nat) :
    OnLevel (linkLevel (S := S) (M := M) x update rank) (fun i lk y =>
      let skipped := uint (rank 0 + (2 ^ 32 - rank i))
      if y = update i then { forward := some x, span := uint (skipped + 1) }
      else if y = x then
        { forward := (lk (update i)).forward
          span := uint ((lk (update i)).span + (2 ^ 32 - skipped)) }
      else lk y) := by
  intro i z
  refine ⟨(setLink_same ..).trans (setLink_same ..), fun y j => ?_⟩
  simp only [linkLevel, link_setLink]
  by_cases hj : j = i
  · subst hj
    simp
  · simp [hj]

theorem bumpLevel_onLevel (level : Nat) (update : Nat → Nat) :
    OnLevel (bumpLevel (S := S) (M := M) level update) (fun i lk y =>
      if i < level then lk y
      else if y = update i then { lk (update i) with span := uint ((lk (update i)).span + 1) }
      else lk y) := by
  intro i z
  unfold bumpLevel
  by_cases hi : i < level
  · simp only [hi, if_true]
    refine ⟨SameButLinks.refl z, fun y j => ?_⟩
    by_cases hj : j = i
    · simp [hj]
    · simp [hj]
  · simp only [hi, if_false]
    refine ⟨setLink_same .., fun y j => ?_⟩
    rw [link_setLink]
    by_cases hj : j = i
    · subst hj
      simp
    · simp [hj]

theorem unlinkLevel_onLevel (x : Nat) (update : Nat → Nat) :
    OnLevel (unlinkLevel (S := S) (M := M) x update) (fun i lk y =>
      if y = update i then
        if (lk (update i)).forward = some x then
          { forward := (lk x).forward
            span := uint ((lk (update i)).span + (lk x).span + (2 ^ 32 - 1)) }
        else { lk (update i) with span := uint ((lk (update i)).span + (2 ^ 32 - 1)) }
      else lk y) := by
  intro i z
  unfold unlinkLevel
  by_cases hx : (z.link (update i) i).forward = some x
  · simp only [hx, if_true]
    refine ⟨setLink_same .., fun y j => ?_⟩
    rw [link_setLink]
    by_cases hj : j = i
    · subst hj
      simp
    · simp [hj]
  · simp only [hx, if_false]
    refine ⟨setLink_same .., fun y j => ?_⟩
    rw [link_setLink]
    by_cases hj : j = i
    · subst hj
      simp
    · simp [hj]

end RedisCluster

/-!
## The invariant of a skip list

`ZslInv z ns es` says that `z` is a skip list with the nodes `ns`, in order, which hold the pairs
`es`. All later invariants of a skip list are read off from it.
-/

namespace RedisCluster

open RedisCluster.Lib

variable {S M : Type}

/-- The levels in use and the heights of the nodes. -/
structure LevelsOk (z : Zskiplist S M) (ns : List Nat) : Prop where
  header : (z.node zslHeader).height = ZSKIPLIST_MAXLEVEL
  heights : ∀ x ∈ ns, 1 ≤ (z.node x).height ∧ (z.node x).height ≤ z.level
  pos : 1 ≤ z.level
  le_max : z.level ≤ ZSKIPLIST_MAXLEVEL
  top : z.level = 1 ∨ ∃ x ∈ ns, (z.node x).height = z.level
  above : ∀ i, z.level ≤ i → (z.link zslHeader i).forward = none

structure ZslInv [LinearOrder S] [LinearOrder M] (z : Zskiplist S M) (ns : List Nat)
    (es : List (S ×ₗ M)) : Prop where
  nodup : (zslHeader :: ns).Nodup
  fresh : ∀ x ∈ zslHeader :: ns, x < z.fresh
  levels : LevelsOk z ns
  links : LinksOk z (zslHeader :: ns)
  backs : Backs (fun x => (z.node x).backward) ns
  tail_eq : z.tail = ns.getLast?
  length_eq : z.length = ns.length
  elems : ns.map (nodeElem z) = es.map some
  sorted : es.Pairwise (· < ·)

theorem zslCreate_inv [LinearOrder S] [LinearOrder M] [Zero S] :
    ZslInv (zslCreate : Zskiplist S M) [] [] where
  nodup := by simp
  fresh := by simp [zslCreate, zslHeader]
  levels :=
    { header := rfl
      heights := by simp
      pos := le_rfl
      le_max := by simp [zslCreate, ZSKIPLIST_MAXLEVEL]
      top := Or.inl rfl
      above := fun _ _ => rfl }
  links := by
    intro i _ x post hx _
    have hlen := hx.length_le
    obtain rfl : post = [] := by
      cases post with
      | nil => rfl
      | cons y ys =>
        simp only [List.length_cons, List.length_nil] at hlen
        omega
    rfl
  backs := fun a x b h => absurd h (by simp)
  tail_eq := rfl
  length_eq := rfl
  elems := rfl
  sorted := List.Pairwise.nil

section

variable {z : Zskiplist S M} {ns : List Nat}

theorem LevelsOk.tall_zero (h : LevelsOk z ns) {x : Nat} (hx : x ∈ zslHeader :: ns) :
    tall z 0 x = true := by
  rw [tall, decide_eq_true_eq]
  rcases List.mem_cons.mp hx with rfl | hx
  · rw [h.header]
    decide
  · exact (h.heights x hx).1

theorem LevelsOk.tall_header (h : LevelsOk z ns) {i : Nat} (hi : i < ZSKIPLIST_MAXLEVEL) :
    tall z i zslHeader = true := by
  rw [tall, decide_eq_true_eq, h.header]
  exact hi

theorem nextMark_zero {l : List Nat} (hl : ∀ x ∈ l, tall z 0 x = true) :
    nextMark (tall z 0) l = l.head? := by
  cases l with
  | nil => rfl
  | cons x l => exact nextMark_cons_of_mark (hl x (List.mem_cons_self ..)) l

theorem LevelsOk.last_zero (h : LevelsOk z ns) {pre rest : List Nat} {u : Nat}
    (hpre : ∀ x ∈ pre, x ∈ ns) (hu : LastMark (tall z 0) (zslHeader :: pre) u rest) :
    rest = [] ∧ (if u = zslHeader ∧ pre = [] then none else some u) = pre.getLast? := by
  obtain ⟨⟨before, hbefore⟩, -, hrest⟩ := hu
  have hnil : rest = [] := by
    rw [List.eq_nil_iff_forall_not_mem]
    intro y hy
    have hmem : y ∈ zslHeader :: pre := by rw [hbefore]; simp [hy]
    have htall := h.tall_zero (x := y) (by
      rcases List.mem_cons.mp hmem with rfl | hm
      · exact List.mem_cons_self ..
      · exact List.mem_cons_of_mem _ (hpre y hm))
    rw [hrest y hy] at htall
    exact absurd htall (by simp)
  refine ⟨hnil, ?_⟩
  subst hnil
  cases before with
  | nil =>
    simp only [List.nil_append, List.cons.injEq] at hbefore
    rw [if_pos ⟨hbefore.1.symm, hbefore.2⟩, hbefore.2]
    rfl
  | cons w before =>
    simp only [List.cons_append, List.cons.injEq] at hbefore
    rw [hbefore.2, if_neg (by simp)]
    simp

end

end RedisCluster
