import Mathlib.Data.List.Basic
import Mathlib.Data.List.TakeWhile

/-!
# Segments of a list

A property that holds of each element before one of which it holds splits a list in two, and two such properties
cut a segment out of it.
-/

namespace RedisCluster.Lib

variable {α β : Type*}

/-- What holds of an element holds of all before it. -/
def DownClosed (p : α → Bool) (l : List α) : Prop := l.Pairwise fun x y => p y = true → p x = true

variable {p q : α → Bool} {l : List α}

theorem DownClosed.tail {x : α} (h : DownClosed p (x :: l)) : DownClosed p l := (List.pairwise_cons.mp h).2

theorem DownClosed.sublist {l' : List α} (h : DownClosed p l) (hl : l'.Sublist l) : DownClosed p l' :=
  List.Pairwise.sublist hl h

theorem DownClosed.none_of_head {x : α} (h : DownClosed p (x :: l)) (hx : p x = false) : ∀ y ∈ x :: l, p y = false := by
  intro y hy
  rcases List.mem_cons.mp hy with rfl | hy
  · exact hx
  · by_contra hp
    have hpx := (List.pairwise_cons.mp h).1 y hy (by simpa using hp)
    rw [hx] at hpx
    cases hpx

theorem filter_eq_takeWhile (h : DownClosed p l) : l.filter p = l.takeWhile p := by
  induction l with
  | nil => rfl
  | cons x l ih =>
    by_cases hx : p x = true
    · rw [List.filter_cons_of_pos hx, List.takeWhile_cons_of_pos hx, ih h.tail]
    · have hnone := h.none_of_head (by simpa using hx)
      rw [List.takeWhile_cons_of_neg hx, List.filter_eq_nil_iff]
      intro y hy
      rw [hnone y hy]
      exact Bool.false_ne_true

theorem filter_not_eq_dropWhile (h : DownClosed p l) : (l.filter fun x => !p x) = l.dropWhile p := by
  induction l with
  | nil => rfl
  | cons x l ih =>
    by_cases hx : p x = true
    · rw [List.filter_cons_of_neg (by simp [hx]), List.dropWhile_cons_of_pos hx, ih h.tail]
    · have hnone := h.none_of_head (by simpa using hx)
      rw [List.dropWhile_cons_of_neg hx, List.filter_eq_self]
      intro y hy
      rw [hnone y hy]
      rfl

theorem place_eq {pre post : List α} (h : DownClosed p (pre ++ post))
    (hpre : pre = [] ∨ ∃ y, pre.getLast? = some y ∧ p y = true) (hpost : ∀ y, post.head? = some y → p y = false) :
    pre = (pre ++ post).takeWhile p ∧ post = (pre ++ post).dropWhile p := by
  have hall : ∀ y ∈ pre, p y = true := by
    rcases hpre with rfl | ⟨y, hy, hpy⟩
    · exact fun y hy => absurd hy List.not_mem_nil
    · obtain ⟨before, rfl⟩ := List.getLast?_eq_some_iff.mp hy
      intro x hx
      rcases List.mem_append.mp hx with hx | hx
      · have hpair := (List.pairwise_append.mp (List.pairwise_append.mp h).1).2.2
        exact hpair x hx y (List.mem_singleton_self y) hpy
      · rw [List.mem_singleton.mp hx]
        exact hpy
  have htake : post.takeWhile p = [] := by
    cases post with
    | nil => rfl
    | cons y post => exact List.takeWhile_cons_of_neg (by simp [hpost y rfl])
  have hdrop : post.dropWhile p = post := by
    cases post with
    | nil => rfl
    | cons y post => exact List.dropWhile_cons_of_neg (by simp [hpost y rfl])
  exact ⟨by rw [List.takeWhile_append_of_pos hall, htake, List.append_nil],
    by rw [List.dropWhile_append_of_pos hall, hdrop]⟩

theorem filter_segment (hq : DownClosed q l) (hp : DownClosed p l) :
    (l.filter fun x => !q x && p x) = (l.dropWhile q).takeWhile p := by
  rw [← filter_eq_takeWhile (hp.sublist (List.dropWhile_sublist q)), ← filter_not_eq_dropWhile hq, List.filter_filter]
  exact List.filter_congr fun x _ => Bool.and_comm _ _

theorem filter_not_segment (hq : DownClosed q l) (hp : DownClosed p l) :
    (l.filter fun x => !(!q x && p x)) = l.takeWhile q ++ (l.dropWhile q).dropWhile p := by
  have hsplit : (l.filter fun x => !(!q x && p x)) =
      (l.takeWhile q).filter (fun x => !(!q x && p x)) ++ (l.dropWhile q).filter (fun x => !(!q x && p x)) := by
    rw [← List.filter_append, List.takeWhile_append_dropWhile]
  have hfirst : (l.takeWhile q).filter (fun x => !(!q x && p x)) = l.takeWhile q := by
    rw [List.filter_eq_self]
    intro x hx
    rw [List.mem_takeWhile_imp hx]
    rfl
  have hsecond : (l.dropWhile q).filter (fun x => !(!q x && p x)) = (l.dropWhile q).filter fun x => !p x := by
    refine List.filter_congr fun x hx => ?_
    rw [← filter_not_eq_dropWhile hq] at hx
    have hqx : q x = false := by simpa using (List.mem_filter.mp hx).2
    rw [hqx]
    rfl
  rw [hsplit, hfirst, hsecond, filter_not_eq_dropWhile (hp.sublist (List.dropWhile_sublist q))]

theorem filter_of_not_in {l : List α} {gteMin lteMax : α → Bool} (hmin : DownClosed (fun x => !gteMin x) l)
    (hmax : DownClosed lteMax l) (hout : (l.getLast?.any gteMin && l.head?.any lteMax) = false) :
    (l.filter fun x => gteMin x && lteMax x) = [] := by
  rw [List.filter_eq_nil_iff]
  intro x hx
  rw [Bool.and_eq_true]
  rintro ⟨hgte, hlte⟩
  have hlast : l.getLast?.any gteMin = true := by
    obtain ⟨before, last, rfl⟩ : ∃ before last, l = before ++ [last] :=
      ⟨_, _, (List.dropLast_append_getLast (List.ne_nil_of_mem hx)).symm⟩
    rw [List.getLast?_append, List.getLast?_singleton, Option.some_or, Option.any_some]
    rcases List.mem_append.mp hx with hx | hx
    · by_contra hfalse
      have hbelow : (!gteMin x) = true :=
        (List.pairwise_append.mp hmin).2.2 x hx last (List.mem_singleton_self _) (by simpa using hfalse)
      rw [hgte] at hbelow
      cases hbelow
    · rwa [← List.mem_singleton.mp hx]
  have hfirst : l.head?.any lteMax = true := by
    cases l with
    | nil => exact absurd hx List.not_mem_nil
    | cons first l =>
      rw [List.head?_cons, Option.any_some]
      by_contra hfalse
      have hnone := hmax.none_of_head (by simpa using hfalse) x hx
      rw [hlte] at hnone
      cases hnone
  rw [hlast, hfirst] at hout
  cases hout

theorem length_takeWhile_congr {f : α → Option β} {l : List α} {m : List β} (h : l.map f = m.map some) {p : α → Bool}
    {q : β → Bool} (hpq : ∀ x ∈ l, ∀ y, f x = some y → p x = q y) :
    (l.takeWhile p).length = (m.takeWhile q).length := by
  induction l generalizing m with
  | nil =>
    obtain rfl : m = [] := List.map_eq_nil_iff.mp h.symm
    rfl
  | cons x l ih =>
    cases m with
    | nil => cases h
    | cons y m =>
      obtain ⟨hx, hl⟩ := List.cons.inj h
      have hsame := hpq x List.mem_cons_self y hx
      have hrest := ih hl fun x hx y hy => hpq x (List.mem_cons_of_mem _ hx) y hy
      by_cases hp : p x = true
      · rw [List.takeWhile_cons_of_pos hp, List.takeWhile_cons_of_pos (hsame ▸ hp), List.length_cons, List.length_cons,
          hrest]
      · rw [List.takeWhile_cons_of_neg hp, List.takeWhile_cons_of_neg (hsame ▸ hp)]
        rfl

theorem DownClosed.of_map {f : α → Option β} {l : List α} {m : List β} (h : l.map f = m.map some) {p : α → Bool}
    {q : β → Bool} (hpq : ∀ x ∈ l, ∀ y, f x = some y → p x = q y) (hq : DownClosed q m) : DownClosed p l := by
  have hsome : (m.map some).Pairwise fun a b => ∀ y y', a = some y → b = some y' → q y' = true → q y = true := by
    rw [List.pairwise_map]
    refine hq.imp fun {y y'} hyy' d d' hd hd' => ?_
    rw [← Option.some.inj hd, ← Option.some.inj hd']
    exact hyy'
  have hmem : ∀ x ∈ l, ∃ y, f x = some y := fun x hx => by
    have hfx : f x ∈ m.map some := by
      rw [← h]
      exact List.mem_map_of_mem hx
    obtain ⟨y, -, hy⟩ := List.mem_map.mp hfx
    exact ⟨y, hy.symm⟩
  rw [← h, List.pairwise_map] at hsome
  refine hsome.imp_of_mem fun {x x'} hx hx' hxx' hpx' => ?_
  obtain ⟨y, hy⟩ := hmem x hx
  obtain ⟨y', hy'⟩ := hmem x' hx'
  rw [hpq x' hx' y' hy'] at hpx'
  rw [hpq x hx y hy]
  exact hxx' y y' hy hy' hpx'

end RedisCluster.Lib
