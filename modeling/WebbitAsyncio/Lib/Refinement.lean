import WebbitAsyncio.Lib.TransitionSystem

/-!
# Observed runs and forward simulation

What an observer sees of some steps of a machine, in the order of the run; and the
induction that turns a simulation of single steps into one of whole runs: the events
seen are a run of the specification.
-/
namespace WebbitAsyncio.Lib.Refinement
open WebbitAsyncio.Lib.TransitionSystem

variable {σ α τ ε : Type}

/-- The events along a list of labels, as far as they are enabled. -/
def observe (M : Machine σ α) (see : σ → α → Option ε) : σ → List α → List ε
  | _, [] => []
  | s, a :: rest =>
    match M.step s a with
    | none => []
    | some s' => (see s a).toList ++ observe M see s' rest

/-- Runs of a specification given by its steps. -/
inductive Runs (Step : τ → ε → τ → Prop) (v : τ) : List ε → τ → Prop where
  | nil : Runs Step v [] v
  | snoc {events : List ε} {e : ε} {middle v' : τ} : Runs Step v events middle →
      Step middle e v' → Runs Step v (events ++ [e]) v'

theorem Runs.append {Step : τ → ε → τ → Prop} {v middle v' : τ} {first second : List ε}
    (before : Runs Step v first middle) (after : Runs Step middle second v') :
    Runs Step v (first ++ second) v' := by
  induction after with
  | nil => simpa using before
  | snoc _ step ih =>
    rw [← List.append_assoc]
    exact .snoc ih step

/-- From related states, the one reachable and the other left by a run of the
specification, every step of the machine is seen as a run to related states. -/
def Simulates (M : Machine σ α) (see : σ → α → Option ε) (Step : τ → ε → τ → Prop) (v₀ : τ)
    (R : σ → τ → Prop) : Prop :=
  ∀ s a s' events v, Reachable M s → Runs Step v₀ events v → R s v → M.step s a = some s' →
    ∃ v', Runs Step v (see s a).toList v' ∧ R s' v'

variable {M : Machine σ α} {see : σ → α → Option ε} {Step : τ → ε → τ → Prop} {v₀ : τ}
  {R : σ → τ → Prop}

theorem Simulates.run (simulates : Simulates M see Step v₀ R) (as : List α) :
    ∀ {s s' : σ} {v : τ} {events : List ε}, Reachable M s → Runs Step v₀ events v → R s v →
      M.run s as = some s' → ∃ v', Runs Step v (observe M see s as) v' ∧ R s' v' := by
  induction as with
  | nil =>
    intro s s' v _ _ _ related ran
    obtain rfl := Option.some.inj ran
    exact ⟨v, .nil, related⟩
  | cons a rest ih =>
    intro s s' v events reached before related ran
    rw [Machine.run, Option.bind_eq_some_iff] at ran
    obtain ⟨middle, taken, ran⟩ := ran
    obtain ⟨w, first, related'⟩ := simulates s a middle events v reached before related taken
    obtain ⟨v', second, related''⟩ :=
      ih (.next reached trivial taken) (before.append first) related' ran
    refine ⟨v', ?_, related''⟩
    rw [observe, taken]
    exact first.append second

/-- What is seen of a run of the machine is a run of the specification. -/
theorem Simulates.observed (simulates : Simulates M see Step v₀ R) (initial : R M.init v₀)
    (as : List α) {s : σ} (ran : M.run M.init as = some s) :
    ∃ v, Runs Step v₀ (observe M see M.init as) v ∧ R s v :=
  simulates.run as .start .nil initial ran

end WebbitAsyncio.Lib.Refinement
