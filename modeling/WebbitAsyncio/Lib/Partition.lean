import Mathlib.Data.List.Basic

/-!
# Two-sided partition of a segment of an array

The array is a list, and a segment of it the middle part of `before ++ cells ++
after`.  One index climbs over the elements that fail the test, the other descends
over those that pass it, and the two elements they stop at change places.
-/

namespace WebbitAsyncio.Lib.Partition

variable {α : Type}

/-- Partitions the `n` elements from index `a` on: those that fail the test first.
Gives the array and the index of the first element that passes. -/
def partition (test : α → Bool) : Nat → List α → Nat → Option (List α × Nat)
  | 0, array, a => some (array, a)
  | n + 1, array, a => do
    let first ← array[a]?
    if !test first then partition test n array (a + 1)
    else
      let last ← array[a + n]?
      if test last then partition test n array a
      else
        let swapped := (array.set a last).set (a + n) first
        match n with
        | 0 => some (swapped, a + 1)
        | m + 1 => partition test m swapped (a + 1)

@[simp] theorem segment_first (before cells after : List α) (x : α) :
    (before ++ x :: cells ++ after)[before.length]? = some x := by
  simp

@[simp] theorem segment_last (before cells after : List α) (x y : α) :
    (before ++ x :: (cells ++ [y]) ++ after)[before.length + (cells.length + 1)]? = some y := by
  rw [List.append_assoc, List.getElem?_append_right (by omega)]
  simp

theorem segment_swap (before cells after : List α) (x y : α) :
    ((before ++ x :: (cells ++ [y]) ++ after).set before.length y).set
      (before.length + (cells.length + 1)) x = before ++ y :: (cells ++ [x]) ++ after := by
  rw [List.append_assoc, List.set_append_right _ _ (Nat.le_refl _),
    List.set_append_right _ _ (by omega)]
  simp

/-- Two elements that change places. -/
theorem exchange_perm (x y : α) (middle after : List α) :
    (y :: (middle ++ x :: after)).Perm (x :: (middle ++ y :: after)) := by
  have first : (y :: (middle ++ x :: after)).Perm (y :: x :: (middle ++ after)) :=
    List.perm_middle.cons y
  have second : (x :: (middle ++ y :: after)).Perm (x :: y :: (middle ++ after)) :=
    List.perm_middle.cons x
  exact first.trans ((List.Perm.swap x y (middle ++ after)).trans second.symm)

/-- What a partition leaves in place of the elements `cells`. -/
structure Partitioned (test : α → Bool) (cells left right : List α) : Prop where
  perm : (left ++ right).Perm cells
  fails : ∀ x ∈ left, test x = false
  passes : ∀ x ∈ right, test x = true

namespace Partitioned

variable {test : α → Bool} {cells left right : List α} {x y : α}

theorem cons (parted : Partitioned test cells left right) (fails : test x = false) :
    Partitioned test (x :: cells) (x :: left) right where
  perm := parted.perm.cons x
  fails := List.forall_mem_cons.mpr ⟨fails, parted.fails⟩
  passes := parted.passes

theorem snoc (parted : Partitioned test cells left right) (passes : test x = true) :
    Partitioned test (cells ++ [x]) left (right ++ [x]) where
  perm := by
    rw [← List.append_assoc]
    exact parted.perm.append_right [x]
  fails := parted.fails
  passes := by
    intro z member
    rcases List.mem_append.mp member with old | new
    · exact parted.passes z old
    · rw [List.mem_singleton.mp new]
      exact passes

theorem swap (parted : Partitioned test cells left right) (fails : test y = false)
    (passes : test x = true) :
    Partitioned test (x :: (cells ++ [y])) (y :: left) (right ++ [x]) where
  perm := ((parted.snoc passes).cons fails).perm.trans (exchange_perm x y cells [])
  fails := ((parted.snoc passes).cons fails).fails
  passes := ((parted.snoc passes).cons fails).passes

theorem length_eq (parted : Partitioned test cells left right) :
    left.length + right.length = cells.length := by
  have same := parted.perm.length_eq
  rwa [List.length_append] at same

end Partitioned

/-- Partitioning a segment stays inside it, and leaves first the elements that fail
the test, then those that pass it. -/
theorem partition_segment (test : α → Bool) (n : Nat) :
    ∀ before cells after : List α, cells.length = n →
      ∃ left right, Partitioned test cells left right ∧
        partition test n (before ++ cells ++ after) before.length =
          some (before ++ left ++ right ++ after, before.length + left.length) := by
  induction n using Nat.strongRecOn with
  | ind n ih =>
    intro before cells after length
    rcases cells with _ | ⟨first, cells⟩
    · subst length
      exact ⟨[], [], ⟨.nil, by simp, by simp⟩, by simp [partition]⟩
    subst length
    rw [List.length_cons, partition, segment_first]
    by_cases climbs : test first = false
    · -- the first element fails: it stays where it is
      obtain ⟨left, right, parted, ran⟩ :=
        ih cells.length (by simp) (before ++ [first]) cells after rfl
      refine ⟨first :: left, right, parted.cons climbs, ?_⟩
      have ran' : partition test cells.length (before ++ first :: cells ++ after)
          (before.length + 1) =
          some (before ++ (first :: left) ++ right ++ after,
            before.length + (first :: left).length) := by
        simpa [Nat.add_comm, Nat.add_left_comm] using ran
      simp only [climbs, Bool.not_false, if_true, Option.bind_eq_bind, Option.bind_some, ran']
    have passes : test first = true := by simpa using climbs
    rcases List.eq_nil_or_concat cells with rfl | ⟨middle, last, rfl⟩
    · -- one element is left, and it passes
      refine ⟨[], [first], ⟨by simp, by simp, by simpa using passes⟩, ?_⟩
      simp [partition, passes]
    rw [List.concat_eq_append, List.length_append, List.length_singleton]
    by_cases descends : test last = true
    · -- the last element passes: it stays where it is
      obtain ⟨left, right, parted, ran⟩ :=
        ih (middle.length + 1) (by simp) before (first :: middle) (last :: after) rfl
      refine ⟨left, right ++ [last], parted.snoc descends, ?_⟩
      have ran' : partition test (middle.length + 1)
          (before ++ first :: (middle ++ [last]) ++ after) before.length =
          some (before ++ left ++ (right ++ [last]) ++ after, before.length + left.length) := by
        simpa using ran
      simp only [passes, Bool.not_true, Bool.false_eq_true, if_false, Option.bind_eq_bind,
        Option.bind_some, segment_last, descends, if_true, ran']
    · -- both stop: they change places
      have fails : test last = false := by simpa using descends
      obtain ⟨left, right, parted, ran⟩ :=
        ih middle.length (by simp only [List.length_cons, List.length_concat]; omega)
          (before ++ [last]) middle (first :: after) rfl
      refine ⟨last :: left, right ++ [first], parted.swap fails passes, ?_⟩
      have ran' : partition test middle.length
          (before ++ last :: (middle ++ [first]) ++ after) (before.length + 1) =
          some (before ++ (last :: left) ++ (right ++ [first]) ++ after,
            before.length + (last :: left).length) := by
        simpa [Nat.add_comm, Nat.add_left_comm] using ran
      simp only [passes, Bool.not_true, Bool.false_eq_true, if_false, Option.bind_eq_bind,
        Option.bind_some, segment_last, fails, segment_swap, ran']

end WebbitAsyncio.Lib.Partition
