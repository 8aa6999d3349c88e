import Mathlib.Logic.Relation
import Mathlib.Order.WellFounded

/-!
# Relations without circles

`Ranked R` says that numbers can be given to the elements so that they rise along `R`, so
`R` has no circle and no infinite descent. An edge from `a` to `b` can be added as long as
`b` is not below `a` already: then everything from `b` on moves up by more than the number
of `a`. A property whose every element has another one below it is empty.
-/
namespace WebbitAsyncio.Lib.Ranking
open Relation (ReflTransGen)

variable {α : Type} {R S : α → α → Prop} {a b : α}

def Ranked (R : α → α → Prop) : Prop := ∃ rank : α → Nat, ∀ a b, R a b → rank a < rank b

theorem ranked_empty (none : ∀ a b, ¬ R a b) : Ranked R :=
  ⟨fun _ => 0, fun a b edge => absurd edge (none a b)⟩

theorem Ranked.mono (ranked : Ranked R) (sub : ∀ a b, S a b → R a b) : Ranked S := by
  obtain ⟨rank, rises⟩ := ranked
  exact ⟨rank, fun a b edge => rises a b (sub a b edge)⟩

theorem Ranked.insert (ranked : Ranked R) (free : ¬ ReflTransGen R b a) :
    Ranked fun x y => R x y ∨ x = a ∧ y = b := by
  classical
  obtain ⟨rank, rises⟩ := ranked
  let raised (x : α) : Nat := if ReflTransGen R b x then rank x + rank a + 1 else rank x
  have base : raised a = rank a := if_neg free
  have top : raised b = rank b + rank a + 1 := if_pos .refl
  refine ⟨raised, fun x y edge => ?_⟩
  cases edge with
  | inl edge =>
    have lower := rises x y edge
    by_cases above : ReflTransGen R b x
    · have next : ReflTransGen R b y := above.tail edge
      simp only [raised, if_pos above, if_pos next]
      omega
    · simp only [raised, if_neg above]
      split <;> omega
  | inr edge =>
    rw [edge.1, edge.2, base, top]
    omega

theorem Ranked.wellFounded (ranked : Ranked R) : WellFounded R := by
  obtain ⟨rank, rises⟩ := ranked
  exact Subrelation.wf (rises _ _) (InvImage.wf rank wellFounded_lt)

theorem Ranked.descent {P : α → Prop} (ranked : Ranked R) (lower : ∀ a, P a → ∃ b, P b ∧ R b a)
    (a : α) : ¬ P a := by
  induction a using ranked.wellFounded.induction with
  | _ a ih =>
    intro holds
    obtain ⟨b, there, below⟩ := lower a holds
    exact ih b below there

end WebbitAsyncio.Lib.Ranking
