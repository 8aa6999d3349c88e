import Mathlib.Logic.Relation

/-!
# Partial labelled transition systems

An executable machine: `step` returns `none` where the label is not enabled.
`ReachableBy` restricts the labels taken to those that meet a condition on the
state before the step, so a property of all runs and a property of the runs
whose steps all meet a condition are the same statement at two conditions.
Nothing here mentions a particular program.
-/
namespace WebbitAsyncio.Lib.TransitionSystem

structure Machine (σ α : Type) where
  init : σ
  step : σ → α → Option σ

variable {σ α : Type}

/-- States reached from the initial one by steps that all meet `ok`. -/
inductive ReachableBy (M : Machine σ α) (ok : σ → α → Prop) : σ → Prop where
  | start : ReachableBy M ok M.init
  | next {s s' : σ} {a : α} : ReachableBy M ok s → ok s a → M.step s a = some s' →
      ReachableBy M ok s'

/-- The condition that every step meets. -/
def anyStep : σ → α → Prop := fun _ _ => True

abbrev Reachable (M : Machine σ α) : σ → Prop := ReachableBy M anyStep

/-- Execute a list of labels; `none` as soon as one is not enabled. -/
def Machine.run (M : Machine σ α) : σ → List α → Option σ
  | s, [] => some s
  | s, a :: rest => (M.step s a).bind fun s' => M.run s' rest

theorem ReachableBy.mono {M : Machine σ α} {ok ok' : σ → α → Prop} {s : σ}
    (weaker : ∀ s a, ok s a → ok' s a) (h : ReachableBy M ok s) : ReachableBy M ok' s := by
  induction h with
  | start => exact .start
  | next _ met taken ih => exact .next ih (weaker _ _ met) taken

theorem ReachableBy.reachable {M : Machine σ α} {ok : σ → α → Prop} {s : σ}
    (h : ReachableBy M ok s) : Reachable M s :=
  h.mono fun _ _ _ => trivial

/-- The one induction over runs: holding at the start and preserved by every
step that meets the condition, a predicate holds of every state reached. -/
theorem ReachableBy.invariant {M : Machine σ α} {ok : σ → α → Prop} {P : σ → Prop}
    (start : P M.init)
    (next : ∀ s a s', P s → ok s a → M.step s a = some s' → P s')
    {s : σ} (h : ReachableBy M ok s) : P s := by
  induction h with
  | start => exact start
  | next _ met taken ih => exact next _ _ _ ih met taken

/-- Induction relative to invariants already established for the same runs. -/
theorem ReachableBy.invariant_of {M : Machine σ α} {ok : σ → α → Prop} {P Q : σ → Prop}
    (known : ∀ s, ReachableBy M ok s → Q s) (start : P M.init)
    (next : ∀ s a s', Q s → P s → ok s a → M.step s a = some s' → P s')
    {s : σ} (h : ReachableBy M ok s) : P s := by
  induction h with
  | start => exact start
  | next before met taken ih => exact next _ _ _ (known _ before) ih met taken

/-- A condition that every state of the conditioned runs grants on its own may
be added to the condition. -/
theorem ReachableBy.strengthen {M : Machine σ α} {ok ok' : σ → α → Prop}
    (grants : ∀ s a, ReachableBy M ok' s → ok s a → ok' s a)
    {s : σ} (h : ReachableBy M ok s) : ReachableBy M ok' s := by
  induction h with
  | start => exact .start
  | next _ met taken ih => exact .next ih (grants _ _ ih met) taken

/-- A successful execution from a reachable state ends in a reachable state. -/
theorem reachable_run {M : Machine σ α} {s s' : σ} (as : List α)
    (h : Reachable M s) (ran : M.run s as = some s') : Reachable M s' := by
  induction as generalizing s with
  | nil =>
    simp only [Machine.run, Option.some.injEq] at ran
    exact ran ▸ h
  | cons a rest ih =>
    simp only [Machine.run, Option.bind_eq_some_iff] at ran
    obtain ⟨middle, taken, ran⟩ := ran
    exact ih (.next h trivial taken) ran

/-- Execute labels as long as each is enabled and passes a test. -/
def Machine.runIf (M : Machine σ α) (test : σ → α → Bool) : σ → List α → Option σ
  | s, [] => some s
  | s, a :: rest => if test s a then (M.step s a).bind fun s' => M.runIf test s' rest else none

theorem reachableBy_runIf {M : Machine σ α} {ok : σ → α → Prop} {test : σ → α → Bool}
    (sound : ∀ s a, test s a = true → ok s a) {s s' : σ} (as : List α) (h : ReachableBy M ok s)
    (ran : M.runIf test s as = some s') : ReachableBy M ok s' := by
  induction as generalizing s with
  | nil =>
    simp only [Machine.runIf, Option.some.injEq] at ran
    exact ran ▸ h
  | cons a rest ih =>
    simp only [Machine.runIf] at ran
    split at ran
    next passed =>
      obtain ⟨middle, taken, ran⟩ := Option.bind_eq_some_iff.mp ran
      exact ih (.next h (sound s a passed) taken) ran
    next => cases ran

end WebbitAsyncio.Lib.TransitionSystem
