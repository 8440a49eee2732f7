import Mathlib.Data.List.Basic

/-!
# Runs of a step function

A program that serves one request after the other is a step function `step : σ → α → σ` on its
states; a run is the list of the actions it was given. `RunMeets` says that every action of a run
meets a condition in the state it is performed in, and `run_inv` is the invariant rule: what one
step preserves under that condition, a whole run preserves.
-/

namespace RedisCluster.Lib

variable {σ α ω τ : Type*}

/-- The state after the actions of `as`, performed one after the other from `s`. -/
def run (step : σ → α → σ) (s : σ) (as : List α) : σ := as.foldl step s

/-- Every action of the run meets `ok` in the state it is performed in. -/
def RunMeets (step : σ → α → σ) (ok : σ → α → Prop) : σ → List α → Prop
  | _, [] => True
  | s, a :: as => ok s a ∧ RunMeets step ok (step s a) as

@[simp] theorem run_nil (step : σ → α → σ) (s : σ) : run step s [] = s := rfl

@[simp] theorem run_cons (step : σ → α → σ) (s : σ) (a : α) (as : List α) :
    run step s (a :: as) = run step (step s a) as := rfl

theorem run_append (step : σ → α → σ) (s : σ) (as bs : List α) :
    run step s (as ++ bs) = run step (run step s as) bs := List.foldl_append

@[simp] theorem runMeets_nil (step : σ → α → σ) (ok : σ → α → Prop) (s : σ) :
    RunMeets step ok s [] := trivial

@[simp] theorem runMeets_cons (step : σ → α → σ) (ok : σ → α → Prop) (s : σ) (a : α)
    (as : List α) :
    RunMeets step ok s (a :: as) ↔ ok s a ∧ RunMeets step ok (step s a) as := Iff.rfl

instance decidableRunMeets (step : σ → α → σ) (ok : σ → α → Prop) [∀ s a, Decidable (ok s a)] :
    ∀ s as, Decidable (RunMeets step ok s as)
  | _, [] => inferInstanceAs (Decidable True)
  | s, a :: as =>
    have : Decidable (RunMeets step ok (step s a) as) := decidableRunMeets step ok (step s a) as
    inferInstanceAs (Decidable (_ ∧ _))

theorem RunMeets.append {step : σ → α → σ} {ok : σ → α → Prop} {as bs : List α} {s : σ}
    (ha : RunMeets step ok s as) (hb : RunMeets step ok (run step s as) bs) :
    RunMeets step ok s (as ++ bs) := by
  induction as generalizing s with
  | nil => exact hb
  | cons a as ih => exact ⟨ha.1, ih ha.2 hb⟩

theorem RunMeets.initial {step : σ → α → σ} {ok : σ → α → Prop} {as bs : List α} {s : σ}
    (h : RunMeets step ok s as) (hpre : bs <+: as) : RunMeets step ok s bs := by
  induction as generalizing s bs with
  | nil =>
    rw [List.prefix_nil.mp hpre]
    trivial
  | cons a as ih =>
    cases bs with
    | nil => trivial
    | cons b bs =>
      obtain ⟨rfl, hbs⟩ := List.cons_prefix_cons.mp hpre
      exact ⟨h.1, ih h.2 hbs⟩

theorem RunMeets.and {step : σ → α → σ} {p q : σ → α → Prop} {s : σ} {as : List α}
    (hp : RunMeets step p s as) (hq : RunMeets step q s as) :
    RunMeets step (fun s a => p s a ∧ q s a) s as := by
  induction as generalizing s with
  | nil => trivial
  | cons a as ih => exact ⟨⟨hp.1, hq.1⟩, ih hp.2 hq.2⟩

/-- The invariant rule: a predicate that every step meeting `ok` preserves holds at the end of every
run whose steps all meet `ok`. -/
theorem run_inv {step : σ → α → σ} {ok : σ → α → Prop} {P : σ → Prop}
    (hstep : ∀ s a, P s → ok s a → P (step s a)) {s : σ} {as : List α} (hs : P s)
    (hok : RunMeets step ok s as) : P (run step s as) := by
  induction as generalizing s with
  | nil => exact hs
  | cons a as ih => exact ih (hstep s a hs hok.1) hok.2

theorem run_inv_always {step : σ → α → σ} {P : σ → Prop} (hstep : ∀ s a, P s → P (step s a))
    {s : σ} (hs : P s) (as : List α) : P (run step s as) := by
  induction as generalizing s with
  | nil => exact hs
  | cons a as ih => exact ih (hstep s a hs)

theorem run_inv_prefix {step : σ → α → σ} {ok : σ → α → Prop} {P G : σ → Prop}
    (hstep : ∀ s a, P s → G s → ok s a → P (step s a)) {s : σ} {as : List α} (hs : P s)
    (hok : RunMeets step ok s as) (hG : ∀ bs, bs <+: as → G (run step s bs)) :
    ∀ bs, bs <+: as → P (run step s bs) := by
  induction as generalizing s with
  | nil =>
    intro bs hbs
    rw [List.prefix_nil.mp hbs]
    exact hs
  | cons a as ih =>
    intro bs hbs
    cases bs with
    | nil => exact hs
    | cons b bs =>
      obtain ⟨rfl, hbs'⟩ := List.cons_prefix_cons.mp hbs
      have hnext : P (step s b) := hstep s b hs (hG [] List.nil_prefix) hok.1
      exact ih hnext hok.2 (fun cs hcs => hG (b :: cs) (List.cons_prefix_cons.mpr ⟨rfl, hcs⟩)) bs hbs'

/-! ## Runs with replies -/

/-- The final state and the list of the replies of a run. -/
def runReplies (step : σ → α → σ × ω) : σ → List α → σ × List ω
  | s, [] => (s, [])
  | s, a :: as =>
    let r := step s a
    let rest := runReplies step r.1 as
    (rest.1, r.2 :: rest.2)

@[simp] theorem runReplies_nil (step : σ → α → σ × ω) (s : σ) :
    runReplies step s [] = (s, []) := rfl

@[simp] theorem runReplies_cons (step : σ → α → σ × ω) (s : σ) (a : α) (as : List α) :
    runReplies step s (a :: as) =
      ((runReplies step (step s a).1 as).1, (step s a).2 :: (runReplies step (step s a).1 as).2) :=
  rfl

/-- The refinement rule: if related states step to related states with the same reply, then whole
runs give the same replies and end in related states. -/
theorem runReplies_refines {step : σ → α → σ × ω} {spec : τ → α → τ × ω} {ok : σ → α → Prop}
    {R : σ → τ → Prop}
    (hstep : ∀ s t a, R s t → ok s a → R (step s a).1 (spec t a).1 ∧ (step s a).2 = (spec t a).2)
    {s : σ} {t : τ} {as : List α} (hR : R s t)
    (hok : RunMeets (fun s a => (step s a).1) ok s as) :
    R (runReplies step s as).1 (runReplies spec t as).1 ∧
      (runReplies step s as).2 = (runReplies spec t as).2 := by
  induction as generalizing s t with
  | nil => exact ⟨hR, rfl⟩
  | cons a as ih =>
    obtain ⟨h1, h2⟩ := hstep s t a hR hok.1
    obtain ⟨h3, h4⟩ := ih h1 hok.2
    exact ⟨h3, by simp [h2, h4]⟩

/-! ## Steps that may have no result

A step that runs into undefined behaviour returns `none`, and so does the run. -/

def runOption (step : σ → α → Option (σ × ω)) : σ → List α → Option (σ × List ω)
  | s, [] => some (s, [])
  | s, a :: as => do
    let r ← step s a
    let rest ← runOption step r.1 as
    return (rest.1, r.2 :: rest.2)

/-- Every action of the run meets `ok` in the state it is performed in, as far as the run gets. -/
def RunOptionMeets (step : σ → α → Option (σ × ω)) (ok : σ → α → Prop) : σ → List α → Prop
  | _, [] => True
  | s, a :: as => ok s a ∧ match step s a with
    | some r => RunOptionMeets step ok r.1 as
    | none => True

instance decidableRunOptionMeets (step : σ → α → Option (σ × ω)) (ok : σ → α → Prop)
    [∀ s a, Decidable (ok s a)] : ∀ s as, Decidable (RunOptionMeets step ok s as)
  | _, [] => inferInstanceAs (Decidable True)
  | s, a :: as =>
    have : Decidable (match step s a with
        | some r => RunOptionMeets step ok r.1 as
        | none => True) :=
      match step s a with
      | some r => decidableRunOptionMeets step ok r.1 as
      | none => inferInstanceAs (Decidable True)
    inferInstanceAs (Decidable (_ ∧ _))

theorem runOption_append (step : σ → α → Option (σ × ω)) (s : σ) (as bs : List α) :
    runOption step s (as ++ bs) =
      (runOption step s as).bind fun r =>
        (runOption step r.1 bs).map fun r' => (r'.1, r.2 ++ r'.2) := by
  induction as generalizing s with
  | nil => simp [runOption]
  | cons a as ih =>
    simp only [List.cons_append, runOption, Option.bind_eq_bind, Option.pure_def]
    cases step s a with
    | none => rfl
    | some r =>
      simp only [Option.bind_some, ih]
      cases runOption step r.1 as with
      | none => rfl
      | some r' =>
        simp only [Option.bind_some]
        cases runOption step r'.1 bs <;> rfl

theorem runOption_concat {step : σ → α → Option (σ × ω)} {s s' : σ} {as : List α} {ws : List ω}
    (hrun : runOption step s as = some (s', ws)) (a : α) :
    runOption step s (as ++ [a]) = (step s' a).map fun r => (r.1, ws ++ [r.2]) := by
  rw [runOption_append, hrun]
  cases h : step s' a <;> simp [runOption, h]

/-- The refinement rule for steps that may fail: from related states a step meeting `ok` has a
result, with the reply of the specification and in related states. -/
theorem runOption_refines {step : σ → α → Option (σ × ω)} {spec : τ → α → τ × ω}
    {ok : σ → α → Prop} {R : σ → τ → Prop}
    (hstep : ∀ s t a, R s t → ok s a →
      ∃ s', step s a = some (s', (spec t a).2) ∧ R s' (spec t a).1)
    {s : σ} {t : τ} {as : List α} (hR : R s t) (hok : RunOptionMeets step ok s as) :
    ∃ s', runOption step s as = some (s', (runReplies spec t as).2) ∧
      R s' (runReplies spec t as).1 := by
  induction as generalizing s t with
  | nil => exact ⟨s, rfl, hR⟩
  | cons a as ih =>
    obtain ⟨s1, h1, hR1⟩ := hstep s t a hR hok.1
    have hrest := hok.2
    rw [h1] at hrest
    obtain ⟨s2, h2, hR2⟩ := ih hR1 hrest
    exact ⟨s2, by simp [runOption, h1, h2], hR2⟩

end RedisCluster.Lib
