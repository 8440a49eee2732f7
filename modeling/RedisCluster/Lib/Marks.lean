import Mathlib.Data.List.Infix

/-!
# The next marked element of a list

In a skip list the nodes of one level are the marked elements of the whole sequence. `nextMark p l`
is the first marked element of `l`, and `stepsTo p l` is how many elements of `l` a link to it
passes, or the length of `l` if there is none. `LastMark p l x rest` says that `x` is the last
marked element of `l`, with `rest` behind it.
-/

namespace RedisCluster.Lib

variable {α : Type*} (p : α → Bool)

def nextMark (l : List α) : Option α := l.find? p

def stepsTo : List α → Nat
  | [] => 0
  | x :: xs => if p x then 1 else stepsTo xs + 1

/-- `x` is the last marked element of `l` and `rest` is what follows it. -/
def LastMark (l : List α) (x : α) (rest : List α) : Prop :=
  (∃ before, l = before ++ x :: rest) ∧ p x = true ∧ ∀ y ∈ rest, p y = false

variable {p}

@[simp] theorem nextMark_nil : nextMark p [] = none := rfl

@[simp] theorem stepsTo_nil : stepsTo p ([] : List α) = 0 := rfl

theorem stepsTo_cons_of_mark {x : α} (hx : p x = true) (l : List α) : stepsTo p (x :: l) = 1 :=
  if_pos hx

theorem nextMark_cons_of_mark {x : α} (hx : p x = true) (l : List α) :
    nextMark p (x :: l) = some x := List.find?_cons_of_pos hx

theorem stepsTo_append_of_none {a : List α} (ha : ∀ x ∈ a, p x = false) (b : List α) :
    stepsTo p (a ++ b) = a.length + stepsTo p b := by
  induction a with
  | nil => simp
  | cons x a ih =>
    have hx := ha x (List.mem_cons_self ..)
    rw [List.cons_append, stepsTo, if_neg (by simp [hx]),
      ih (fun y hy => ha y (List.mem_cons_of_mem _ hy)), List.length_cons]
    omega

theorem nextMark_append_of_none {a : List α} (ha : ∀ x ∈ a, p x = false) (b : List α) :
    nextMark p (a ++ b) = nextMark p b := by
  have hnone : a.find? p = none := List.find?_eq_none.mpr fun x hx => by simp [ha x hx]
  rw [nextMark, List.find?_append, hnone, Option.none_or, nextMark]

theorem stepsTo_append_of_some {a : List α} (ha : ∃ x ∈ a, p x = true) (b : List α) :
    stepsTo p (a ++ b) = stepsTo p a := by
  induction a with
  | nil => simp at ha
  | cons x a ih =>
    rw [List.cons_append, stepsTo, stepsTo]
    by_cases hx : p x = true
    · rw [if_pos hx, if_pos hx]
    · obtain ⟨y, hy, hpy⟩ := ha
      have hya : y ∈ a := by
        rcases List.mem_cons.mp hy with rfl | h
        · exact absurd hpy hx
        · exact h
      rw [if_neg hx, if_neg hx, ih ⟨y, hya, hpy⟩]

theorem nextMark_append_of_some {a : List α} (ha : ∃ x ∈ a, p x = true) (b : List α) :
    nextMark p (a ++ b) = nextMark p a := by
  obtain ⟨y, hy, hpy⟩ := ha
  have hsome : (a.find? p).isSome := by
    rw [List.find?_isSome]
    exact ⟨y, hy, hpy⟩
  obtain ⟨z, hz⟩ := Option.isSome_iff_exists.mp hsome
  rw [nextMark, List.find?_append, nextMark, hz, Option.some_or]

theorem nextMark_mem {l : List α} {x : α} (h : nextMark p l = some x) : x ∈ l ∧ p x = true :=
  ⟨List.mem_of_find?_eq_some h, List.find?_some h⟩

theorem nextMark_eq_none {l : List α} : nextMark p l = none ↔ ∀ x ∈ l, p x = false := by
  rw [nextMark, List.find?_eq_none]
  exact forall₂_congr fun x _ => by simp

theorem nextMark_split {l : List α} {x : α} (h : nextMark p l = some x) :
    ∃ a b, l = a ++ x :: b ∧ (∀ y ∈ a, p y = false) ∧ stepsTo p l = a.length + 1 := by
  obtain ⟨hx, a, b, rfl, ha⟩ := List.find?_eq_some_iff_append.mp h
  have ha' : ∀ y ∈ a, p y = false := fun y hy => by simpa using ha y hy
  exact ⟨a, b, rfl, ha', by rw [stepsTo_append_of_none ha', stepsTo_cons_of_mark hx]⟩

theorem stepsTo_of_none {l : List α} (h : nextMark p l = none) : stepsTo p l = l.length := by
  have := stepsTo_append_of_none (nextMark_eq_none.mp h) []
  simpa using this

theorem stepsTo_le_length (l : List α) : stepsTo p l ≤ l.length := by
  cases h : nextMark p l with
  | none => exact (stepsTo_of_none h).le
  | some x =>
    obtain ⟨a, b, rfl, -, hs⟩ := nextMark_split h
    rw [hs, List.length_append, List.length_cons]
    omega

/-! ## The last marked element -/

theorem LastMark.mem {l rest : List α} {x : α} (h : LastMark p l x rest) : x ∈ l := by
  obtain ⟨⟨before, rfl⟩, -, -⟩ := h
  simp

theorem suffix_cons_unique {l a b : List α} {y : α} (hl : l.Nodup) (ha : (y :: a) <:+ l)
    (hb : (y :: b) <:+ l) : a = b := by
  obtain ⟨c, rfl⟩ := ha
  obtain ⟨d, hd⟩ := hb
  rcases List.append_eq_append_iff.mp hd with ⟨e, he1, he2⟩ | ⟨e, he1, he2⟩
  · cases e with
    | nil => simpa using he2.symm
    | cons w e =>
      rw [he1, List.nodup_append] at hl
      simp only [List.cons_append, List.cons.injEq] at he2
      exact absurd he2.1 (hl.2.2 w (by simp) y (by simp)).symm
  · cases e with
    | nil => simpa using he2
    | cons w e =>
      simp only [List.cons_append, List.cons.injEq] at he2
      rw [he2.2] at hl
      have h1 := (List.nodup_append.mp hl).2.1
      simp at h1

theorem LastMark.cases {l rest : List α} {x : α} (h : LastMark p l x rest) (hl : l.Nodup)
    {y : α} {after : List α} (hy : (y :: after) <:+ l) (hpy : p y = true) :
    (y = x ∧ after = rest) ∨ (y ≠ x ∧ ∃ z ∈ after, p z = true) := by
  obtain ⟨⟨before, hbefore⟩, hx, hrest⟩ := h
  have hx' : (x :: rest) <:+ l := ⟨before, hbefore.symm⟩
  by_cases hex : ∃ z ∈ after, p z = true
  · right
    refine ⟨?_, hex⟩
    rintro rfl
    obtain ⟨z, hz, hpz⟩ := hex
    rw [suffix_cons_unique hl hy hx'] at hz
    exact absurd hpz (by simp [hrest z hz])
  · left
    have hafter : ∀ z ∈ after, p z = false := by
      intro z hz
      cases hpz : p z with
      | false => rfl
      | true => exact absurd ⟨z, hz, hpz⟩ hex
    -- otherwise one of `x` and `y` would come after the other
    rcases List.suffix_or_suffix_of_suffix hy hx' with hsuf | hsuf
    · rcases List.suffix_cons_iff.mp hsuf with heq | hmem
      · simpa using heq
      · exact absurd hpy (by simp [hrest y (hmem.subset (by simp))])
    · rcases List.suffix_cons_iff.mp hsuf with heq | hmem
      · have h1 : x = y ∧ rest = after := by simpa using heq
        exact ⟨h1.1.symm, h1.2.symm⟩
      · exact absurd hx (by simp [hafter x (hmem.subset (by simp))])

theorem suffix_insert_cases {a b after : List α} {x y : α} (h : (y :: after) <:+ (a ++ x :: b)) :
    (∃ a', (y :: a') <:+ a ∧ after = a' ++ x :: b) ∨ (y = x ∧ after = b) ∨ (y :: after) <:+ b := by
  obtain ⟨c, hc⟩ := h
  rcases List.append_eq_append_iff.mp hc with ⟨d, hd1, hd2⟩ | ⟨d, hd1, hd2⟩
  · cases d with
    | nil =>
      simp only [List.nil_append, List.cons.injEq] at hd2
      exact Or.inr (Or.inl hd2)
    | cons w d =>
      simp only [List.cons_append, List.cons.injEq] at hd2
      exact Or.inl ⟨d, ⟨c, by rw [hd1, hd2.1]⟩, hd2.2⟩
  · cases d with
    | nil =>
      simp only [List.nil_append, List.cons.injEq] at hd2
      exact Or.inr (Or.inl ⟨hd2.1.symm, hd2.2.symm⟩)
    | cons w d =>
      simp only [List.cons_append, List.cons.injEq] at hd2
      exact Or.inr (Or.inr ⟨d, hd2.2.symm⟩)

theorem suffix_append_cases {a b after : List α} {y : α} (h : (y :: after) <:+ (a ++ b)) :
    (∃ a', (y :: a') <:+ a ∧ after = a' ++ b) ∨ (y :: after) <:+ b := by
  obtain ⟨c, hc⟩ := h
  rcases List.append_eq_append_iff.mp hc with ⟨d, hd1, hd2⟩ | ⟨d, hd1, hd2⟩
  · cases d with
    | nil => exact Or.inr ⟨[], by simpa using hd2⟩
    | cons w d =>
      simp only [List.cons_append, List.cons.injEq] at hd2
      exact Or.inl ⟨d, ⟨c, by rw [hd1, hd2.1]⟩, hd2.2⟩
  · exact Or.inr ⟨d, hd2.symm⟩

theorem nextMark_congr {q : α → Bool} {l : List α} (h : ∀ x ∈ l, p x = q x) :
    nextMark p l = nextMark q l := by
  induction l with
  | nil => rfl
  | cons x l ih =>
    have hx := h x (List.mem_cons_self ..)
    have ih' := ih fun y hy => h y (List.mem_cons_of_mem _ hy)
    rw [nextMark, List.find?_cons, nextMark, List.find?_cons, hx]
    rw [nextMark, nextMark] at ih'
    rw [ih']

theorem stepsTo_congr {q : α → Bool} {l : List α} (h : ∀ x ∈ l, p x = q x) :
    stepsTo p l = stepsTo q l := by
  induction l with
  | nil => rfl
  | cons x l ih =>
    rw [stepsTo, stepsTo, h x (List.mem_cons_self ..),
      ih fun y hy => h y (List.mem_cons_of_mem _ hy)]

theorem LastMark.congr {q : α → Bool} {l rest : List α} {x : α} (h : LastMark p l x rest)
    (hpq : ∀ y ∈ l, q y = p y) : LastMark q l x rest := by
  obtain ⟨⟨before, rfl⟩, hx, hrest⟩ := h
  refine ⟨⟨before, rfl⟩, by rw [hpq x (by simp), hx], fun y hy => ?_⟩
  rw [hpq y (by simp [hy]), hrest y hy]

end RedisCluster.Lib
