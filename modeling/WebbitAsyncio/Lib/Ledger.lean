import Mathlib.Logic.Basic
import Mathlib.Logic.Function.Basic

/-!
# Tokens and the slots that hold them

`contents` says which slots hold which tokens, `ledger` where each token is
recorded to be. While the two agree no token is in two slots and none recorded
is lost. A step moves at most one token: it adds one, takes one away, or carries
one from a slot to another, and each keeps the agreement.
-/
namespace WebbitAsyncio.Lib.Ledger

variable {σ τ : Type}

def Agrees (contents : σ → τ → Prop) (ledger : τ → Option σ) : Prop :=
  ∀ slot x, contents slot x ↔ ledger x = some slot

variable {contents contents' : σ → τ → Prop} {ledger ledger' : τ → Option σ} {t : τ} {src dst : σ}

theorem Agrees.unique (h : Agrees contents ledger) {a b : σ} (here : contents a t)
    (there : contents b t) : a = b :=
  Option.some.inj (((h a t).mp here).symm.trans ((h b t).mp there))

theorem Agrees.keep (h : Agrees contents ledger)
    (same : ∀ slot x, contents' slot x ↔ contents slot x) (recorded : ∀ x, ledger' x = ledger x) :
    Agrees contents' ledger' := by
  intro slot x
  rw [same, recorded]
  exact h slot x

theorem Agrees.add (h : Agrees contents ledger) (absent : ledger t = none)
    (added : ∀ x, contents' dst x ↔ x = t ∨ contents dst x)
    (others : ∀ slot, slot ≠ dst → ∀ x, contents' slot x ↔ contents slot x)
    (now : ledger' t = some dst) (recorded : ∀ x, x ≠ t → ledger' x = ledger x) :
    Agrees contents' ledger' := by
  intro slot x
  by_cases same : x = t
  · subst same
    rw [now, Option.some.injEq]
    by_cases there : slot = dst
    · subst there
      simp [added]
    · have nowhere := h slot x
      simp only [absent, reduceCtorEq, iff_false] at nowhere
      simp [others slot there, nowhere, Ne.symm there]
  · rw [recorded x same, ← h slot x]
    by_cases there : slot = dst
    · subst there
      simp [added, same]
    · exact others slot there x

theorem Agrees.remove (h : Agrees contents ledger) (there : contents src t)
    (taken : ∀ x, contents' src x ↔ x ≠ t ∧ contents src x)
    (others : ∀ slot, slot ≠ src → ∀ x, contents' slot x ↔ contents slot x)
    (now : ledger' t = none) (recorded : ∀ x, x ≠ t → ledger' x = ledger x) :
    Agrees contents' ledger' := by
  intro slot x
  by_cases same : x = t
  · subst same
    rw [now]
    by_cases here : slot = src
    · subst here
      simp [taken]
    · have nowhere : ¬ contents slot x := fun held => here (h.unique held there)
      simp [others slot here, nowhere]
  · rw [recorded x same, ← h slot x]
    by_cases here : slot = src
    · subst here
      simp [taken, same]
    · exact others slot here x

theorem Agrees.move (h : Agrees contents ledger) (there : contents src t) (apart : src ≠ dst)
    (taken : ∀ x, contents' src x ↔ x ≠ t ∧ contents src x)
    (added : ∀ x, contents' dst x ↔ x = t ∨ contents dst x)
    (others : ∀ slot, slot ≠ src → slot ≠ dst → ∀ x, contents' slot x ↔ contents slot x)
    (now : ledger' t = some dst) (recorded : ∀ x, x ≠ t → ledger' x = ledger x) :
    Agrees contents' ledger' := by
  intro slot x
  by_cases same : x = t
  · subst same
    rw [now, Option.some.injEq]
    by_cases here : slot = src
    · subst here
      simp [taken, Ne.symm apart]
    · by_cases arrived : slot = dst
      · subst arrived
        simp [added]
      · have nowhere : ¬ contents slot x := fun held => here (h.unique held there)
        simp [others slot here arrived, nowhere, Ne.symm arrived]
  · rw [recorded x same, ← h slot x]
    by_cases here : slot = src
    · subst here
      simp [taken, same]
    · by_cases arrived : slot = dst
      · subst arrived
        simp [added, same]
      · exact others slot here arrived x

end WebbitAsyncio.Lib.Ledger
