import Mathlib.Logic.Function.Basic

/-!
# A mutex and the section it guards

`inside h` says how far the agent `h` is in the guarded section, `none` when it
is not there. `Exclusive` ties this to the lock word. An agent changes its own
entry only: it acquires, moves within the section, releases, or acts outside it,
and each of the four keeps `Exclusive`. `current` is the phase of whoever holds
the lock, so an invariant of the guarded data can be stated at every moment, also
in the middle of the section.
-/
namespace WebbitAsyncio.Lib.Mutex

variable {η φ : Type}

def Exclusive (inside : η → Option φ) (lock : Option η) : Prop :=
  ∀ h, (inside h).isSome ↔ lock = some h

/-- The phase of the holder. -/
def current (inside : η → Option φ) (lock : Option η) : Option φ := lock.bind inside

variable {inside : η → Option φ} {lock : Option η} {h : η} {phase : φ}

theorem exclusive_free : Exclusive (fun _ : η => (none : Option φ)) none := by
  intro h
  simp

theorem Exclusive.held (ex : Exclusive inside lock) (entered : inside h = some phase) :
    lock = some h :=
  (ex h).mp (by simp [entered])

theorem Exclusive.current_eq (ex : Exclusive inside lock) (entered : inside h = some phase) :
    current inside lock = some phase := by
  rw [current, ex.held entered, Option.bind_some, entered]

theorem current_free : current inside (none : Option η) = none := rfl

variable [DecidableEq η]

theorem Exclusive.acquire (ex : Exclusive inside none) :
    Exclusive (Function.update inside h (some phase)) (some h) := by
  intro g
  by_cases equal : g = h
  · subst equal
    simp
  · have out : inside g = none := by simpa using ex g
    have other : h ≠ g := fun same => equal same.symm
    simp [Function.update_of_ne equal, out, other]

theorem Exclusive.advance {before : φ} (ex : Exclusive inside lock)
    (entered : inside h = some before) :
    Exclusive (Function.update inside h (some phase)) lock := by
  intro g
  by_cases equal : g = h
  · subst equal
    simpa using ex.held entered
  · rw [Function.update_of_ne equal]
    exact ex g

theorem Exclusive.release (ex : Exclusive inside lock) (entered : inside h = some phase) :
    Exclusive (Function.update inside h none) none := by
  intro g
  by_cases equal : g = h
  · subst equal
    simp
  · have out : inside g = none := by
      have := ex g
      rw [ex.held entered, Option.some.injEq] at this
      simpa [Ne.symm equal] using this
    simp [Function.update_of_ne equal, out]

theorem update_outside (out : inside h = none) : Function.update inside h none = inside := by
  rw [← out, Function.update_eq_self]

theorem current_update_self :
    current (Function.update inside h (some phase)) (some h) = some phase := by
  simp [current]

end WebbitAsyncio.Lib.Mutex
