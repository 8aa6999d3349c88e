import Mathlib.Algebra.Group.Nat.Defs
import Mathlib.Data.List.Basic

/-!
# Counters of fixed width

A counter of `n` bits that is kept equal to the number of entries of a list with
some property, modulo `2 ^ n`. The entries change one at a time: one is replaced,
or one is added at the end.
-/
namespace WebbitAsyncio.Lib.Tally

variable {α : Type} {n : Nat} {P : α → Bool} {l : List α} {c : BitVec n} {i : Nat} {a : α}

def Tallies (P : α → Bool) (l : List α) (c : BitVec n) : Prop := c = BitVec.ofNat n (l.countP P)

theorem tallies_nil : Tallies P [] (0 : BitVec n) := rfl

theorem countP_replaced (found : l[i]? = some a) (b : α) :
    (l.set i b).countP P + (if P a then 1 else 0) = l.countP P + (if P b then 1 else 0) := by
  obtain ⟨bound, rfl⟩ := List.getElem?_eq_some_iff.mp found
  rw [List.countP_set bound]
  have counted : (if P l[i] then 1 else 0) ≤ l.countP P := by
    split
    next holds => exact List.countP_pos_iff.mpr ⟨l[i], List.getElem_mem bound, holds⟩
    next => exact Nat.zero_le _
  omega

theorem modify_eq_replaced (found : l[i]? = some a) (f : α → α) : l.modify i f = l.set i (f a) := by
  rw [List.modify_eq_set_getElem?, found]
  rfl

theorem Tallies.same (tallies : Tallies P l c) (found : l[i]? = some a) {b : α}
    (equal : P b = P a) : Tallies P (l.set i b) c := by
  have count := countP_replaced (P := P) found b
  rw [equal] at count
  rw [Tallies, tallies, Nat.add_right_cancel count]

theorem Tallies.enter (tallies : Tallies P l c) (found : l[i]? = some a) {b : α}
    (before : P a = false) (after : P b = true) : Tallies P (l.set i b) (c + 1) := by
  have count := countP_replaced (P := P) found b
  simp only [before, after, Bool.false_eq_true, if_false, if_true, Nat.add_zero] at count
  rw [Tallies, tallies, count, BitVec.ofNat_add]
  rfl

theorem Tallies.leave (tallies : Tallies P l c) (found : l[i]? = some a) {b : α}
    (before : P a = true) (after : P b = false) : Tallies P (l.set i b) (c - 1) := by
  have count := countP_replaced (P := P) found b
  simp only [before, after, Bool.false_eq_true, if_false, if_true, Nat.add_zero] at count
  rw [Tallies, tallies, ← count, BitVec.ofNat_add]
  exact BitVec.add_sub_cancel _ _

theorem Tallies.append (tallies : Tallies P l c) (absent : P a = false) :
    Tallies P (l ++ [a]) c := by
  rw [Tallies, tallies, List.countP_append, List.countP_singleton, absent]
  rfl

/-- While the number fits, the counter is the number. -/
theorem Tallies.toNat (tallies : Tallies P l c) (fits : l.countP P < 2 ^ n) :
    c.toNat = l.countP P := by
  rw [tallies, BitVec.toNat_ofNat, Nat.mod_eq_of_lt fits]

theorem Tallies.toInt (tallies : Tallies P l c) (fits : 2 * l.countP P < 2 ^ n) :
    c.toInt = l.countP P := by
  have exact_ := tallies.toNat (by omega)
  rw [BitVec.toInt_eq_toNat_of_lt (by omega), exact_]

end WebbitAsyncio.Lib.Tally
