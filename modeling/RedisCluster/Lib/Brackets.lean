import Mathlib.Data.List.Basic

/-!
# Bracketed blocks in a list

A list of events may hold the events of one transaction: an opening, inner events, and a closing.
`Bracketed` says that they form one block. What belongs to others may stand before and after a block
(`bracketed_append_left`, `bracketed_append_right`), and a list that consists of the events of the
transaction alone is checked by looking at its ends (`bracketed_segment`).
-/

namespace RedisCluster.Lib

variable {α : Type*}

/-- The roles of the events of one transaction; an event has at most one of them. -/
structure Roles (α : Type*) where
  opening : α → Prop
  inner : α → Prop
  closing : α → Prop
  opening_inner : ∀ e, opening e → ¬ inner e
  opening_closing : ∀ e, opening e → ¬ closing e
  closing_inner : ∀ e, closing e → ¬ inner e

namespace Roles

variable (r : Roles α)

def Mine (e : α) : Prop := r.opening e ∨ r.inner e ∨ r.closing e

/-- All of the transaction's events in the list are between its opening and its closing; if it has
neither, its inner events may stand anywhere. -/
def Bracketed (l : List α) : Prop :=
  (∀ e ∈ l, ¬ r.opening e ∧ ¬ r.closing e) ∨
    ∃ pre o forms x post, l = pre ++ o :: forms ++ x :: post ∧ r.opening o ∧ r.closing x ∧
      (∀ e ∈ forms, r.inner e) ∧ ∀ e ∈ pre ++ post, ¬ r.Mine e

variable {r}

theorem Bracketed.none {l : List α} (h : ∀ e ∈ l, ¬ r.opening e ∧ ¬ r.closing e) :
    r.Bracketed l := .inl h

theorem exists_cut_prefix {a l pre rest : List α} {o : α} (h : a ++ l = pre ++ o :: rest)
    (ha : ∀ e ∈ a, ¬ r.Mine e) (ho : r.Mine o) : ∃ pre', pre = a ++ pre' ∧ l = pre' ++ o :: rest := by
  rcases List.append_eq_append_iff.mp h with ⟨as, hpre, hl⟩ | ⟨bs, hacut, hrest⟩
  · exact ⟨as, hpre, hl⟩
  · cases bs with
    | nil =>
      rw [List.append_nil] at hacut
      rw [List.nil_append] at hrest
      exact ⟨[], by rw [hacut, List.append_nil], by rw [List.nil_append, hrest]⟩
    | cons b bs =>
      obtain ⟨rfl, _⟩ := List.cons.inj hrest
      exact absurd ho (ha o (by simp [hacut]))

theorem bracketed_append_left {a l : List α} (ha : ∀ e ∈ a, ¬ r.Mine e) :
    r.Bracketed (a ++ l) ↔ r.Bracketed l := by
  constructor
  · rintro (hnone | ⟨pre, o, forms, x, post, heq, ho, hx, hforms, hout⟩)
    · exact .inl fun e he => hnone e (List.mem_append_right a he)
    · rw [List.append_assoc, List.cons_append] at heq
      obtain ⟨pre', rfl, hl⟩ := exists_cut_prefix heq ha (.inl ho)
      refine .inr ⟨pre', o, forms, x, post, by rw [hl, List.append_assoc, List.cons_append], ho, hx,
        hforms, ?_⟩
      intro e he
      refine hout e ?_
      rw [List.append_assoc]
      exact List.mem_append_right a he
  · rintro (hnone | ⟨pre, o, forms, x, post, rfl, ho, hx, hforms, hout⟩)
    · refine .inl fun e he => ?_
      rcases List.mem_append.mp he with he | he
      · exact ⟨fun h => ha e he (.inl h), fun h => ha e he (.inr (.inr h))⟩
      · exact hnone e he
    · refine .inr ⟨a ++ pre, o, forms, x, post, by simp only [List.append_assoc], ho, hx, hforms, ?_⟩
      intro e he
      rw [List.append_assoc] at he
      rcases List.mem_append.mp he with he | he
      · exact ha e he
      · exact hout e he

def reverse (r : Roles α) : Roles α where
  opening := r.closing
  inner := r.inner
  closing := r.opening
  opening_inner := r.closing_inner
  opening_closing := fun e h k => r.opening_closing e k h
  closing_inner := r.opening_inner

theorem reverse_mine (e : α) : r.reverse.Mine e ↔ r.Mine e := by
  show r.closing e ∨ r.inner e ∨ r.opening e ↔ r.opening e ∨ r.inner e ∨ r.closing e
  tauto

theorem Bracketed.reverse {l : List α} (h : r.Bracketed l) : r.reverse.Bracketed l.reverse := by
  rcases h with hnone | ⟨pre, o, forms, x, post, rfl, ho, hx, hforms, hout⟩
  · refine .inl fun e he => ?_
    obtain ⟨h1, h2⟩ := hnone e (List.mem_reverse.mp he)
    exact ⟨h2, h1⟩
  · refine .inr ⟨post.reverse, x, forms.reverse, o, pre.reverse, by simp, hx, ho, ?_, ?_⟩
    · intro e he
      exact hforms e (List.mem_reverse.mp he)
    · intro e he
      rw [reverse_mine]
      rw [← List.reverse_append] at he
      exact hout e (List.mem_reverse.mp he)

theorem bracketed_reverse {l : List α} : r.reverse.Bracketed l.reverse ↔ r.Bracketed l := by
  refine ⟨fun h => ?_, Bracketed.reverse⟩
  have hback := h.reverse
  rw [List.reverse_reverse] at hback
  exact hback

theorem bracketed_append_right {l b : List α} (hb : ∀ e ∈ b, ¬ r.Mine e) :
    r.Bracketed (l ++ b) ↔ r.Bracketed l := by
  rw [← bracketed_reverse, List.reverse_append, bracketed_append_left, bracketed_reverse]
  intro e he
  rw [reverse_mine]
  exact hb e (List.mem_reverse.mp he)

theorem bracketed_segment {a b o x : List α} (ha : ∀ e ∈ a, r.inner e) (hb : ∀ e ∈ b, r.inner e)
    (ho : ∀ e ∈ o, r.opening e) (hx : ∀ e ∈ x, r.closing e) (hone : o.length ≤ 1)
    (hxone : x.length ≤ 1) :
    r.Bracketed (a ++ o ++ b ++ x) ↔ (o ≠ [] ↔ x ≠ []) ∧ (o ≠ [] → a = []) := by
  constructor
  · rintro (hnone | ⟨pre, o', forms, x', post, heq, ho', hx', hforms, hout⟩)
    · have hoNil : o = [] := by
        refine List.eq_nil_iff_forall_not_mem.mpr fun e he => ?_
        exact (hnone e (by simp [he])).1 (ho e he)
      have hxNil : x = [] := by
        refine List.eq_nil_iff_forall_not_mem.mpr fun e he => ?_
        exact (hnone e (by simp [he])).2 (hx e he)
      simp [hoNil, hxNil]
    · have hmem : ∀ e, e ∈ a ++ o ++ b ++ x ↔ e ∈ pre ++ o' :: forms ++ x' :: post := by
        intro e
        rw [heq]
      have hoMem : o' ∈ o := by
        have h := (hmem o').mpr (by simp)
        simp only [List.mem_append] at h
        rcases h with ((h | h) | h) | h
        · exact absurd (ha o' h) (r.opening_inner o' ho')
        · exact h
        · exact absurd (hb o' h) (r.opening_inner o' ho')
        · exact absurd (hx o' h) (r.opening_closing o' ho')
      have hxMem : x' ∈ x := by
        have h := (hmem x').mpr (by simp)
        simp only [List.mem_append] at h
        rcases h with ((h | h) | h) | h
        · exact absurd (ha x' h) (r.closing_inner x' hx')
        · exact absurd hx' (r.opening_closing x' (ho x' h))
        · exact absurd (hb x' h) (r.closing_inner x' hx')
        · exact h
      refine ⟨⟨fun _ => List.ne_nil_of_mem hxMem, fun _ => List.ne_nil_of_mem hoMem⟩, fun _ => ?_⟩
      cases a with
      | nil => rfl
      | cons e a =>
        have hinner : r.inner e := ha e (by simp)
        cases pre with
        | nil =>
          simp only [List.cons_append, List.nil_append] at heq
          obtain ⟨rfl, _⟩ := List.cons.inj heq
          exact absurd hinner (r.opening_inner e ho')
        | cons e' pre =>
          simp only [List.cons_append] at heq
          obtain ⟨rfl, _⟩ := List.cons.inj heq
          exact absurd (.inr (.inl hinner)) (hout e (by simp))
  · rintro ⟨hiff, hnil⟩
    cases o with
    | nil =>
      have hxNil : x = [] := by
        by_contra h
        exact absurd rfl (hiff.mpr h)
      subst hxNil
      refine .inl fun e he => ?_
      have hinner : r.inner e := by
        simp only [List.append_nil, List.mem_append] at he
        rcases he with he | he
        · exact ha e he
        · exact hb e he
      exact ⟨fun h => r.opening_inner e h hinner, fun h => r.closing_inner e h hinner⟩
    | cons o' o =>
      obtain rfl : o = [] := List.length_eq_zero_iff.mp (by simpa using hone)
      obtain rfl : a = [] := hnil (List.cons_ne_nil _ _)
      cases x with
      | nil => exact absurd rfl (hiff.mp (List.cons_ne_nil _ _))
      | cons x' x =>
        obtain rfl : x = [] := List.length_eq_zero_iff.mp (by simpa using hxone)
        exact .inr ⟨[], o', b, x', [], by simp, ho o' (by simp), hx x' (by simp), hb, by simp⟩

end Roles

end RedisCluster.Lib
