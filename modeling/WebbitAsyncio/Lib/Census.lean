import Mathlib.Algebra.BigOperators.Group.Finset.Piecewise
import Mathlib.Algebra.Order.BigOperators.Group.Finset
import Mathlib.Data.Fintype.BigOperators

/-!
# Counting over finitely many parties

How many of finitely many parties are in a state with some property, when one party
after the other changes its state.
-/
namespace WebbitAsyncio.Lib.Census

variable {ι α : Type} [Fintype ι] {P Q : α → Bool} {f : ι → α} {i : ι} {a : α}

def census (P : α → Bool) (f : ι → α) : Nat := Finset.univ.sum fun i => (P (f i)).toNat

theorem census_congr {g : ι → α} (same : ∀ i, P (g i) = P (f i)) : census P g = census P f :=
  Finset.sum_congr rfl fun i _ => by rw [same i]

/-- One party changes its state. -/
theorem census_update [DecidableEq ι] (P : α → Bool) (f : ι → α) (i : ι) (a : α) :
    census P (Function.update f i a) + (P (f i)).toNat = census P f + (P a).toNat := by
  have others : (Finset.univ.erase i).sum (fun k => (P (Function.update f i a k)).toNat) =
      (Finset.univ.erase i).sum fun k => (P (f k)).toNat := by
    refine Finset.sum_congr rfl fun k inside => ?_
    rw [Function.update_of_ne (Finset.ne_of_mem_erase inside)]
  have before := Finset.add_sum_erase Finset.univ (fun k => (P (f k)).toNat) (Finset.mem_univ i)
  have after := Finset.add_sum_erase Finset.univ (fun k => (P (Function.update f i a k)).toNat)
    (Finset.mem_univ i)
  rw [Function.update_self, others] at after
  unfold census
  omega

theorem toNat_add_le {p q : Bool} (apart : p = true → q = false) : p.toNat + q.toNat ≤ 1 := by
  cases p with
  | false => simpa using Bool.toNat_le q
  | true => simp [apart rfl]

/-- A party that is in neither state is not counted. -/
theorem census_add_lt (apart : ∀ a, P a = true → Q a = false) (notFirst : P (f i) = false)
    (notSecond : Q (f i) = false) : census P f + census Q f < Fintype.card ι := by
  unfold census
  rw [← Finset.sum_add_distrib, Fintype.card_eq_sum_ones]
  refine Finset.sum_lt_sum (fun k _ => toNat_add_le (apart (f k))) ⟨i, Finset.mem_univ i, ?_⟩
  simp [notFirst, notSecond]

end WebbitAsyncio.Lib.Census
