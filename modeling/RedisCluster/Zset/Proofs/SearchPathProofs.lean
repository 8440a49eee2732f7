import RedisCluster.Zset.Skiplist

/-!
# One level of a skip list

The links of one level as a function of the node. `p` says which nodes are on the level; the span of
a link is the number of steps as an `unsigned int`. Inserting a node behind a prefix and removing one
are followed for a node that is on the level and for one that is not.
-/

namespace RedisCluster

open RedisCluster.Lib

def LevelOk (p : Nat → Bool) (lk : Nat → ZskiplistLevel) (l : List Nat) : Prop :=
  ∀ x post, (x :: post) <:+ l → p x = true → lk x = ⟨nextMark p post, uint (stepsTo p post)⟩

theorem uint_of_lt {n : Nat} (h : n < 2 ^ 32) : uint n = n := Nat.mod_eq_of_lt h

theorem uint_uint_add (a b : Nat) : uint (uint a + b) = uint (a + b) := by
  simp only [uint, Nat.mod_add_mod]

theorem uint_sub {a b : Nat} (h : b ≤ a) : uint (uint a + (2 ^ 32 - uint b)) = uint (a - b) := by
  simp only [uint]
  omega

theorem uint_pred (a : Nat) : uint (uint (a + 1) + (2 ^ 32 - 1)) = uint a := by
  rw [uint_uint_add, show a + 1 + (2 ^ 32 - 1) = a + 2 ^ 32 by omega, uint, Nat.add_mod_right, uint]

theorem uint_join (a b : Nat) : uint (uint (a + 1) + uint b + (2 ^ 32 - 1)) = uint (a + b) := by
  rw [Nat.add_right_comm, Nat.add_comm, uint_uint_add, Nat.add_comm, ← uint_uint_add, uint_pred,
    uint_uint_add]

section

variable {p : Nat → Bool} {lk lk' : Nat → ZskiplistLevel} {pre post rest : List Nat} {x u : Nat}

theorem LevelOk.congr {q : Nat → Bool} {l : List Nat} (h : LevelOk p lk l)
    (hp : ∀ y ∈ l, q y = p y) (hlk : ∀ y ∈ l, p y = true → lk' y = lk y) : LevelOk q lk' l := by
  intro y after hy hqy
  have hmem : y ∈ l := hy.subset (List.mem_cons_self ..)
  have hafter : ∀ w ∈ after, p w = q w := fun w hw => (hp w (hy.subset (by simp [hw]))).symm
  have hpy : p y = true := by rwa [← hp y hmem]
  rw [hlk y hmem hpy, h y after hy hpy, nextMark_congr hafter, stepsTo_congr hafter]

/-- A mark before the changed place: the last one leads to the first mark of `new`, the others lead
where they led. -/
theorem LevelOk.relinked (h : LevelOk p lk (pre ++ post)) (hpre : pre.Nodup) (hu : LastMark p pre u rest)
    {new a : List Nat} (hlast : lk' u = ⟨nextMark p (rest ++ new), uint (stepsTo p (rest ++ new))⟩)
    (hother : ∀ y ∈ pre, y ≠ u → lk' y = lk y) (ha : y :: a <:+ pre) (hpy : p y = true) :
    lk' y = ⟨nextMark p (a ++ new), uint (stepsTo p (a ++ new))⟩ := by
  rcases hu.cases hpre ha hpy with ⟨rfl, rfl⟩ | ⟨hne, hex⟩
  · exact hlast
  · have hold := h y (a ++ post) (by
      obtain ⟨c, hc⟩ := ha
      exact ⟨c, by rw [← hc]; simp⟩) hpy
    rw [hother y (ha.subset List.mem_cons_self) hne, hold, nextMark_append_of_some hex,
      nextMark_append_of_some hex, stepsTo_append_of_some hex, stepsTo_append_of_some hex]

theorem LevelOk.insert_at (h : LevelOk p lk (pre ++ post)) (hnd : (pre ++ x :: post).Nodup)
    (hu : LastMark p pre u rest)
    (hx : p x = true → lk' x = ⟨nextMark p post, uint (stepsTo p post)⟩)
    (hlast : lk' u = ⟨nextMark p (rest ++ x :: post), uint (stepsTo p (rest ++ x :: post))⟩)
    (hother : ∀ y, y ≠ u → y ≠ x → lk' y = lk y) : LevelOk p lk' (pre ++ x :: post) := by
  intro y after hy hpy
  obtain ⟨hpre, hxpost, hdisj⟩ := List.nodup_append.mp hnd
  have hupre : u ∈ pre := hu.mem
  rcases suffix_insert_cases hy with ⟨a', ha', rfl⟩ | ⟨rfl, rfl⟩ | hpost
  · exact h.relinked hpre hu hlast
      (fun z hz hne => hother z hne (hdisj z hz x (List.mem_cons_self ..))) ha' hpy
  · exact hx hpy
  · have hypost : y ∈ post := hpost.subset (List.mem_cons_self ..)
    have hyu : y ≠ u := (hdisj u hupre y (List.mem_cons_of_mem _ hypost)).symm
    have hyx : y ≠ x := by
      rintro rfl
      exact (List.nodup_cons.mp hxpost).1 hypost
    rw [hother y hyu hyx]
    exact h y after (hpost.trans (List.suffix_append pre post)) hpy

theorem LevelOk.last (h : LevelOk p lk (pre ++ post)) (hu : LastMark p pre u rest) :
    lk u = ⟨nextMark p post, uint (rest.length + stepsTo p post)⟩ := by
  obtain ⟨⟨before, hbefore⟩, hpu, hrest⟩ := hu
  have hsuf : (u :: (rest ++ post)) <:+ (pre ++ post) := ⟨before, by rw [hbefore]; simp⟩
  rw [h u _ hsuf hpu, nextMark_append_of_none hrest, stepsTo_append_of_none hrest]

theorem LevelOk.insert_mark (h : LevelOk p lk (pre ++ post)) (hnd : (pre ++ x :: post).Nodup)
    (hu : LastMark p pre u rest) (hpx : p x = true)
    (hnew : lk' x = ⟨(lk u).forward, uint ((lk u).span + (2 ^ 32 - uint rest.length))⟩)
    (hlast : lk' u = ⟨some x, uint (uint rest.length + 1)⟩)
    (hother : ∀ y, y ≠ u → y ≠ x → lk' y = lk y) : LevelOk p lk' (pre ++ x :: post) := by
  have hold := h.last hu
  apply h.insert_at hnd hu ?_ ?_ hother
  · intro _
    have hspan : uint ((lk u).span + (2 ^ 32 - uint rest.length)) = uint (stepsTo p post) := by
      rw [hold, uint_sub (by omega)]
      congr 1
      omega
    rw [hnew, hspan, hold]
  · rw [hlast, nextMark_append_of_none hu.2.2, stepsTo_append_of_none hu.2.2,
      nextMark_cons_of_mark hpx, stepsTo_cons_of_mark hpx, uint_uint_add]

theorem LevelOk.insert_unmarked (h : LevelOk p lk (pre ++ post)) (hnd : (pre ++ x :: post).Nodup)
    (hu : LastMark p pre u rest) (hpx : p x = false)
    (hlast : lk' u = { lk u with span := uint ((lk u).span + 1) })
    (hother : ∀ y, y ≠ u → y ≠ x → lk' y = lk y) : LevelOk p lk' (pre ++ x :: post) := by
  have hold := h.last hu
  have hnone : ∀ y ∈ rest ++ [x], p y = false := by
    intro y hy
    rcases List.mem_append.mp hy with hy | hy
    · exact hu.2.2 y hy
    · rw [List.mem_singleton.mp hy]
      exact hpx
  apply h.insert_at hnd hu (fun hc => absurd hc (by simp [hpx])) ?_ hother
  have hsplit : rest ++ x :: post = (rest ++ [x]) ++ post := by simp
  rw [hlast, hold, hsplit, nextMark_append_of_none hnone, stepsTo_append_of_none hnone,
    uint_uint_add, List.length_append, List.length_singleton, Nat.add_right_comm]

theorem LevelOk.remove_at (h : LevelOk p lk (pre ++ x :: post)) (hnd : (pre ++ x :: post).Nodup)
    (hu : LastMark p pre u rest)
    (hlast : lk' u = ⟨nextMark p (rest ++ post), uint (stepsTo p (rest ++ post))⟩)
    (hother : ∀ y, y ≠ u → lk' y = lk y) : LevelOk p lk' (pre ++ post) := by
  intro y after hy hpy
  obtain ⟨hpre, hxpost, hdisj⟩ := List.nodup_append.mp hnd
  rcases suffix_append_cases hy with ⟨a', ha', rfl⟩ | hpost
  · exact h.relinked hpre hu hlast (fun z _ hne => hother z hne) ha' hpy
  · have hypost : y ∈ post := hpost.subset (List.mem_cons_self ..)
    have hyu : y ≠ u := (hdisj u hu.mem y (List.mem_cons_of_mem _ hypost)).symm
    rw [hother y hyu]
    exact h y after (hpost.trans ⟨pre ++ [x], by simp⟩) hpy

theorem LevelOk.remove (h : LevelOk p lk (pre ++ x :: post)) (hnd : (pre ++ x :: post).Nodup)
    (hu : LastMark p pre u rest)
    (hlast : lk' u = if (lk u).forward = some x then
        ⟨(lk x).forward, uint ((lk u).span + (lk x).span + (2 ^ 32 - 1))⟩
      else { lk u with span := uint ((lk u).span + (2 ^ 32 - 1)) })
    (hother : ∀ y, y ≠ u → lk' y = lk y) : LevelOk p lk' (pre ++ post) := by
  have hold := h.last hu
  apply h.remove_at hnd hu ?_ hother
  rw [nextMark_append_of_none hu.2.2, stepsTo_append_of_none hu.2.2]
  by_cases hpx : p x = true
  · rw [nextMark_cons_of_mark hpx, stepsTo_cons_of_mark hpx] at hold
    have hxlink := h x post ⟨pre, rfl⟩ hpx
    rw [hlast, if_pos (by rw [hold]), hold, hxlink, uint_join]
  · have hpx' : p x = false := by simpa using hpx
    have hskip : nextMark p (x :: post) = nextMark p post :=
      nextMark_append_of_none (a := [x]) (by simpa using hpx') post
    have hsteps : stepsTo p (x :: post) = 1 + stepsTo p post :=
      stepsTo_append_of_none (a := [x]) (by simpa using hpx') post
    rw [hskip, hsteps] at hold
    have hne : (lk u).forward ≠ some x := by
      rw [hold]
      intro hc
      exact (List.nodup_cons.mp (List.nodup_append.mp hnd).2.1).1 (nextMark_mem hc).1
    rw [hlast, if_neg hne, hold, ← Nat.add_assoc, Nat.add_right_comm, uint_pred]

end

end RedisCluster

/-!
## The search path of a skip list

The nodes of level `i` are the nodes higher than `i`. `LinksOk` says that every link goes to the next
node of its level and that its span is the number of steps, as an `unsigned int`. On such a list a
search ends at a place between two nodes, and `update[i]` is the last node of level `i` before that
place, whatever the test of the search is: a node that stops the search on one level also stops it
on the levels below.
-/

namespace RedisCluster

open RedisCluster.Lib

variable {S M : Type}

theorem tall_mono {z : Zskiplist S M} {i j x : Nat} (hij : i ≤ j) (h : tall z j x = true) :
    tall z i x = true := by
  simp only [tall, decide_eq_true_eq] at *
  omega

def LinksOk (z : Zskiplist S M) (l : List Nat) : Prop :=
  ∀ i < z.level, LevelOk (tall z i) (fun x => z.link x i) l

def Tracks (z : Zskiplist S M) (l : List Nat) (acc : Nat → Nat) (go : Nat → Nat → Bool)
    (goNode : Nat → Bool) : Prop :=
  ∀ i < z.level, ∀ c x post f, l = c ++ x :: post → tall z i x = true →
    nextMark (tall z i) post = some f →
    acc (acc c.length + uint (stepsTo (tall z i) post)) =
        acc (c.length + stepsTo (tall z i) post) ∧
      go f (acc c.length + uint (stepsTo (tall z i) post)) = goNode f

theorem tracks_node (z : Zskiplist S M) (l : List Nat) (goNode : Nat → Bool) :
    Tracks z l uint (fun f _ => goNode f) goNode := by
  intro i _ c x post f _ _ _
  refine ⟨?_, rfl⟩
  simp only [uint, Nat.add_mod_mod, Nat.mod_add_mod]

def Blocked (z : Zskiplist S M) (goNode : Nat → Bool) (i : Nat) (after : List Nat) : Prop :=
  ∀ f, nextMark (tall z i) after = some f → goNode f = false

section

variable {z : Zskiplist S M} {l : List Nat} {acc : Nat → Nat} {go : Nat → Nat → Bool}
  {goNode : Nat → Bool}

theorem zslWalk_spec (hlinks : LinksOk z l) (htrack : Tracks z l acc go goNode) {i : Nat}
    (hi : i < z.level) :
    ∀ (fuel : Nat) (c : List Nat) (x : Nat) (after : List Nat), l = c ++ x :: after →
      tall z i x = true → after.length < fuel →
      ∃ c' x' passed after', zslWalk z acc go i fuel x (acc c.length) = (x', acc c'.length) ∧
        after = passed ++ after' ∧ c ++ x :: passed = c' ++ [x'] ∧ tall z i x' = true ∧
        (∀ y ∈ passed, tall z i y = true → goNode y = true) ∧
        (passed = [] ∨ ∃ y, passed.getLast? = some y ∧ goNode y = true) ∧
        Blocked z goNode i after' := by
  intro fuel
  induction fuel with
  | zero =>
    intro c x after _ _ hfuel
    omega
  | succ fuel ih =>
    intro c x after hl hx hfuel
    have hlink : z.link x i = _ := hlinks i hi x after ⟨c, hl.symm⟩ hx
    cases hnext : nextMark (tall z i) after with
    | none =>
      rw [hnext] at hlink
      refine ⟨c, x, [], after, by simp [zslWalk, hlink], rfl, rfl, hx, by simp, Or.inl rfl, ?_⟩
      intro f hf
      rw [hnext] at hf
      exact absurd hf (by simp)
    | some f =>
      obtain ⟨hacc, hgo⟩ := htrack i hi c x after f hl hx hnext
      rw [hnext] at hlink
      obtain ⟨a, b, hab, hmarks, hsteps⟩ := nextMark_split hnext
      by_cases hf : goNode f = true
      · have hl' : l = (c ++ x :: a) ++ f :: b := by rw [hl, hab]; simp
        have hlen : (c ++ x :: a).length = c.length + stepsTo (tall z i) after := by
          rw [hsteps, List.length_append, List.length_cons]
        obtain ⟨c', x', passed, after', hwalk, hafter, hlast, hx', hpassed, hlastgo, hblock⟩ :=
          ih (c ++ x :: a) f b hl' (nextMark_mem hnext).2
            (by rw [hab] at hfuel; simp only [List.length_append, List.length_cons] at hfuel; omega)
        refine ⟨c', x', a ++ f :: passed, after', ?_, by rw [hab, hafter]; simp,
          by rw [← hlast]; simp, hx', ?_, Or.inr ?_, hblock⟩
        · simp only [zslWalk, hlink, hgo, hf, if_true, hacc, ← hlen, hwalk]
        · intro y hy hty
          rcases List.mem_append.mp hy with hya | hyb
          · exact absurd hty (by simp [hmarks y hya])
          · rcases List.mem_cons.mp hyb with rfl | hyp
            · exact hf
            · exact hpassed y hyp hty
        · rcases hlastgo with rfl | ⟨y, hy, hgy⟩
          · exact ⟨f, by simp, hf⟩
          · exact ⟨y, by simp [List.getLast?_append, List.getLast?_cons, hy], hgy⟩
      · refine ⟨c, x, [], after, ?_, rfl, rfl, hx, by simp, Or.inl rfl, ?_⟩
        · simp only [zslWalk, hlink, hgo, hf, if_false, Bool.false_eq_true]
        · intro g hg
          rw [hnext, Option.some.injEq] at hg
          rw [← hg]
          simpa using hf

theorem zslDescend_spec (hlinks : LinksOk z l) (htrack : Tracks z l acc go goNode)
    (hlen : l.length ≤ z.length + 1) :
    ∀ (i : Nat) (c : List Nat) (x : Nat) (after : List Nat), i ≤ z.level → l = c ++ x :: after →
      (∀ j < i, tall z j x = true) →
      ∃ passed after', after = passed ++ after' ∧
        (∀ j < i, ∃ rest,
          LastMark (tall z j) (c ++ x :: passed)
            ((zslDescend z acc go i x (acc c.length)).1 j) rest ∧
          (zslDescend z acc go i x (acc c.length)).2 j =
            acc (c.length + passed.length - rest.length)) ∧
        (∀ j, i ≤ j → Blocked z goNode j after → ∀ y ∈ passed, tall z j y = false) ∧
        (∀ j < i, Blocked z goNode j after') ∧
        (passed = [] ∨ ∃ y, passed.getLast? = some y ∧ goNode y = true) := by
  intro i
  induction i with
  | zero =>
    intro c x after _ _ _
    exact ⟨[], after, rfl, fun j hj => absurd hj (by omega), fun _ _ _ y hy => by simp at hy,
      fun j hj => absurd hj (by omega), Or.inl rfl⟩
  | succ i ih =>
    intro c x after hi hl htall
    obtain ⟨c1, x1, passed1, after1, hwalk, hafter1, hlast1, hx1, hpassed1, hgo1, hblock1⟩ :=
      zslWalk_spec hlinks htrack (show i < z.level by omega) (z.length + 1) c x after hl
        (htall i (by omega)) (by
          rw [hl, List.length_append, List.length_cons] at hlen
          omega)
    have hl1 : l = c1 ++ x1 :: after1 := by
      calc l = (c ++ x :: passed1) ++ after1 := by rw [hl, hafter1]; simp
        _ = c1 ++ x1 :: after1 := by rw [hlast1]; simp
    have hlen1 : c1.length = c.length + passed1.length := by
      have h := congrArg List.length hlast1
      simp only [List.length_append, List.length_cons, List.length_nil] at h
      omega
    obtain ⟨passed2, after2, hafter2, hmarks2, hhigh2, hblock2, hgo2⟩ :=
      ih c1 x1 after1 (by omega) hl1 fun j hj => tall_mono (by omega) hx1
    -- a node of a blocked level above cannot have been passed: it would be the next one there
    have hclear : ∀ j, i < j → Blocked z goNode j after → ∀ y ∈ passed1, tall z j y = false := by
      intro j hj hblock y hy
      by_contra hty
      have hex : ∃ y ∈ passed1, tall z j y = true := ⟨y, hy, by simpa using hty⟩
      obtain ⟨f, hf⟩ : ∃ f, nextMark (tall z j) passed1 = some f := by
        rw [← Option.ne_none_iff_exists']
        intro hnone
        rw [nextMark_eq_none] at hnone
        exact hty (by simp [hnone y hy])
      have hf' : nextMark (tall z j) after = some f := by
        rw [hafter1, nextMark_append_of_some hex, hf]
      obtain ⟨hfmem, hftall⟩ := nextMark_mem hf
      have h1 := hblock f hf'
      have h2 := hpassed1 f hfmem (tall_mono (le_of_lt hj) hftall)
      rw [h1] at h2
      exact absurd h2 (by simp)
    have hblocked1 : ∀ j, i < j → Blocked z goNode j after → Blocked z goNode j after1 := by
      intro j hj hblock f hf
      apply hblock f
      rw [hafter1, nextMark_append_of_none (hclear j hj hblock), hf]
    have hsplit : c ++ x :: (passed1 ++ passed2) = c1 ++ x1 :: passed2 := by
      calc c ++ x :: (passed1 ++ passed2) = (c ++ x :: passed1) ++ passed2 := by simp
        _ = c1 ++ x1 :: passed2 := by rw [hlast1]; simp
    refine ⟨passed1 ++ passed2, after2, by rw [hafter1, hafter2]; simp, ?_, ?_, ?_, ?_⟩
    · intro j hj
      simp only [zslDescend, hwalk]
      rw [hsplit]
      by_cases hji : j = i
      · subst hji
        simp only [Function.update_self]
        refine ⟨passed2, ⟨⟨c1, rfl⟩, hx1, hhigh2 j le_rfl hblock1⟩, ?_⟩
        rw [hlen1, List.length_append]
        congr 1
        omega
      · obtain ⟨rest, hmark, hrank⟩ := hmarks2 j (by omega)
        refine ⟨rest, ?_, ?_⟩
        · simpa [Function.update_of_ne hji] using hmark
        · rw [Function.update_of_ne hji, hrank, hlen1, List.length_append]
          congr 1
          omega
    · intro j hj hblock y hy
      rcases List.mem_append.mp hy with h | h
      · exact hclear j (by omega) hblock y h
      · exact hhigh2 j (by omega) (hblocked1 j (by omega) hblock) y h
    · intro j hj
      by_cases hji : j = i
      · subst hji
        intro f hf
        apply hblock1 f
        rw [hafter2, nextMark_append_of_none (hhigh2 j le_rfl hblock1), hf]
      · exact hblock2 j (by omega)
    · rcases hgo2 with rfl | ⟨y, hy, hgy⟩
      · rw [List.append_nil]
        rcases hgo1 with rfl | hgx
        · exact Or.inl rfl
        · exact Or.inr hgx
      · right
        refine ⟨y, ?_, hgy⟩
        rw [List.getLast?_append, hy, Option.some_or]

/-- The place a search ends at: the nodes before it, the nodes after it, and the last node of each
level before it with its rank. -/
structure PlaceFound (z : Zskiplist S M) (acc : Nat → Nat) (goNode : Nat → Bool)
    (ur : (Nat → Nat) × (Nat → Nat)) (pre post : List Nat) : Prop where
  last : ∀ j < z.level, ∃ rest, LastMark (tall z j) (zslHeader :: pre) (ur.1 j) rest ∧
    ur.2 j = acc (pre.length - rest.length)
  stop : Blocked z goNode 0 post
  went : pre = [] ∨ ∃ y, pre.getLast? = some y ∧ goNode y = true

theorem zslSearch_spec {ns : List Nat} (hlinks : LinksOk z (zslHeader :: ns))
    (htrack : Tracks z (zslHeader :: ns) acc go goNode) (hlen : z.length = ns.length)
    (hzero : acc 0 = 0) (hlevel : 0 < z.level) (hheader : z.level ≤ (z.node zslHeader).height) :
    ∃ pre post, ns = pre ++ post ∧ PlaceFound z acc goNode (zslSearch z acc go) pre post := by
  obtain ⟨pre, post, hns, hmarks, -, hblock, hwent⟩ :=
    zslDescend_spec hlinks htrack (by rw [List.length_cons, hlen]) z.level [] zslHeader ns le_rfl rfl
      (fun j hj => by simp only [tall, decide_eq_true_eq]; omega)
  simp only [List.nil_append, List.length_nil, hzero, Nat.zero_add] at hmarks
  exact ⟨pre, post, hns, hmarks, hblock 0 hlevel, hwent⟩

end

end RedisCluster
