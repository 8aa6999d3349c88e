import Mathlib.Data.List.Induction
import Mathlib.Algebra.Group.Nat.Defs

/-!
# Radix order, nearly sorted arrays, and insertion from the right

`Below tests` compares two elements by the answers to a list of tests, the most
significant first: the order that a radix sort from the most significant bit leaves.
A sort that stops at short segments leaves an array that is only nearly sorted:
elements `width` places or more apart are in order.
-/

namespace WebbitAsyncio.Lib.SortOrder

variable {α : Type}

/-! ## Radix order -/

/-- Lexicographic comparison by the tests: an element that fails comes first. -/
def Below : List (α → Bool) → α → α → Prop
  | [], _, _ => True
  | test :: rest, x, y =>
    (test x = false ∧ test y = true) ∨ (test x = test y ∧ Below rest x y)

/-- The tests of the bits of `value` below `n`, highest first, without the bits that
`present` leaves out. -/
def bitTests (value : α → Nat) (present : Nat → Bool) (n : Nat) : List (α → Bool) :=
  ((List.range n).reverse.filter present).map fun k x => (value x).testBit k

theorem bitTests_succ (value : α → Nat) (present : Nat → Bool) (n : Nat) :
    bitTests value present (n + 1) =
      if present n then (fun x => (value x).testBit n) :: bitTests value present n
      else bitTests value present n := by
  unfold bitTests
  rw [List.range_succ, List.reverse_append]
  by_cases here : present n = true
  · simp [here]
  · simp [here]

/-- Bits on which the two agree may be left out: what remains compares the values,
and then whatever follows. -/
theorem below_bitTests (value : α → Nat) (present : Nat → Bool) (rest : List (α → Bool))
    {x y : α} (n : Nat)
    (agree : ∀ k < n, present k = false → (value x).testBit k = (value y).testBit k) :
    Below (bitTests value present n ++ rest) x y ↔
      value x % 2 ^ n < value y % 2 ^ n ∨
        (value x % 2 ^ n = value y % 2 ^ n ∧ Below rest x y) := by
  induction n with
  | zero => simp [bitTests, Nat.mod_one]
  | succ n ih =>
    have lower := ih fun k small => agree k (by omega)
    have xLow : value x % 2 ^ n < 2 ^ n := Nat.mod_lt _ (Nat.two_pow_pos n)
    have yLow : value y % 2 ^ n < 2 ^ n := Nat.mod_lt _ (Nat.two_pow_pos n)
    rw [bitTests_succ, Nat.mod_pow_succ, Nat.mod_pow_succ, ← Nat.toNat_testBit,
      ← Nat.toNat_testBit]
    by_cases here : present n = true
    · rw [if_pos here, List.cons_append, Below, lower]
      cases (value x).testBit n <;> cases (value y).testBit n <;>
        simp only [Bool.toNat_false, Bool.toNat_true, Bool.false_eq_true, Bool.true_eq_false,
          true_and, false_and, and_false, and_true, true_or, false_or, Nat.mul_zero, Nat.mul_one]
      · simp
      · simp
        omega
      · simp
        omega
      · simp
    · rw [if_neg here, lower, agree n (Nat.lt_succ_self n) (by simpa using here),
        Nat.add_lt_add_iff_right, Nat.add_right_cancel_iff]

/-! ## Nearly sorted arrays -/

/-- Elements `width` places or more apart are in order. -/
def NearlySorted (le : α → α → Prop) (width : Nat) (array : List α) : Prop :=
  ∀ i j x y, i + width ≤ j → array[i]? = some x → array[j]? = some y → le x y

theorem nearlySorted_short (le : α → α → Prop) {width : Nat} {array : List α}
    (short : array.length ≤ width) : NearlySorted le width array := by
  intro i j x y apart _ atJ
  have inside := (List.getElem?_eq_some_iff.mp atJ).1
  omega

theorem nearlySorted_related {le : α → α → Prop} {width : Nat} {array : List α}
    (related : ∀ x ∈ array, ∀ y ∈ array, le x y) : NearlySorted le width array :=
  fun _ _ _ _ _ atI atJ =>
    related _ (List.mem_of_getElem? atI) _ (List.mem_of_getElem? atJ)

theorem NearlySorted.imp {le finer : α → α → Prop} {width : Nat} {array : List α}
    (sorted : NearlySorted finer width array)
    (coarser : ∀ x ∈ array, ∀ y ∈ array, finer x y → le x y) :
    NearlySorted le width array :=
  fun i j x y apart atI atJ =>
    coarser x (List.mem_of_getElem? atI) y (List.mem_of_getElem? atJ)
      (sorted i j x y apart atI atJ)

theorem NearlySorted.append {le : α → α → Prop} {width : Nat} {left right : List α}
    (leftSorted : NearlySorted le width left) (rightSorted : NearlySorted le width right)
    (across : ∀ x ∈ left, ∀ y ∈ right, le x y) : NearlySorted le width (left ++ right) := by
  intro i j x y apart atI atJ
  rw [List.getElem?_append] at atI atJ
  by_cases iLeft : i < left.length
  · rw [if_pos iLeft] at atI
    by_cases jLeft : j < left.length
    · rw [if_pos jLeft] at atJ
      exact leftSorted i j x y apart atI atJ
    · rw [if_neg jLeft] at atJ
      exact across x (List.mem_of_getElem? atI) y (List.mem_of_getElem? atJ)
  · rw [if_neg iLeft] at atI
    rw [if_neg (by omega)] at atJ
    exact rightSorted _ _ x y (by omega) atI atJ

/-! ## Insertion from the right -/

/-- Inserts `value` into the elements up to index `j`, the place above `j` being free:
every greater element moves up one place.  A search that reaches below index 0 reads
outside the array. -/
def shift (greater : α → α → Bool) (value : α) : Nat → List α → Option (List α)
  | 0, array => do
    let x ← array[0]?
    if greater x value then none else some (array.set 1 value)
  | j + 1, array => do
    let x ← array[j + 1]?
    if greater x value then shift greater value j (array.set (j + 2) x)
    else some (array.set (j + 2) value)

/-- Inserts the `n` elements from index `i + 1` on, one after the other. -/
def insertions (greater : α → α → Bool) : Nat → Nat → List α → Option (List α)
  | 0, _, array => some array
  | n + 1, i, array => do
    let value ← array[i + 1]?
    let array ← shift greater value i array
    insertions greater n (i + 1) array

variable {greater : α → α → Bool}

theorem set_hole (front after : List α) (x hole value : α) :
    (front ++ x :: hole :: after).set (front.length + 1) value =
      front ++ x :: value :: after := by
  rw [List.set_append_right _ _ (by omega)]
  simp

theorem shift_stops (value x hole : α) (low after : List α)
    (notGreater : greater x value = false) :
    shift greater value low.length (low ++ x :: hole :: after) =
      some (low ++ x :: value :: after) := by
  generalize length : low.length = j
  cases j with
  | zero =>
    have empty : low = [] := List.eq_nil_of_length_eq_zero length
    simp [shift, empty, notGreater]
  | succ j =>
    rw [shift, ← length]
    simp [notGreater, length]

/-- The elements greater than the value move up by one place, and the value comes
after the last one that is not. -/
theorem shift_apply (value x : α) (low ups : List α) (notGreater : greater x value = false) :
    (∀ y ∈ ups, greater y value = true) → ∀ (hole : α) (after : List α),
      shift greater value (low.length + ups.length) (low ++ x :: (ups ++ hole :: after)) =
        some (low ++ x :: value :: (ups ++ after)) := by
  induction ups using List.reverseRecOn with
  | nil => exact fun _ hole after => shift_stops value x hole low after notGreater
  | append_singleton ups last ih =>
    intro up hole after
    have above : greater last value = true := up last (by simp)
    have moved := ih (fun y member => up y (by simp [member])) last (last :: after)
    have front : (low ++ x :: ups).length = low.length + ups.length + 1 := by simp; omega
    have there : (low ++ x :: (ups ++ [last] ++ hole :: after))[low.length + ups.length + 1]? =
        some last := by
      rw [← front]
      simp
    have stored : (low ++ x :: (ups ++ [last] ++ hole :: after)).set
        (low.length + ups.length + 2) last = low ++ x :: (ups ++ last :: last :: after) := by
      have filled := set_hole (low ++ x :: ups) after last hole last
      rw [front] at filled
      simpa using filled
    rw [List.length_append, List.length_singleton, ← Nat.add_assoc, shift, there,
      Option.bind_eq_bind, Option.bind_some, if_pos above, stored, moved]
    simp

/-- Where the value belongs in a prefix that holds an element not greater than it. -/
theorem insertion_point (value : α) (array : List α)
    (sentinel : ∃ x ∈ array, greater x value = false) :
    ∃ low x ups, array = low ++ x :: ups ∧ greater x value = false ∧
      ∀ y ∈ ups, greater y value = true := by
  induction array using List.reverseRecOn with
  | nil =>
    obtain ⟨x, member, _⟩ := sentinel
    exact absurd member List.not_mem_nil
  | append_singleton array last ih =>
    by_cases above : greater last value = true
    · have inside : ∃ x ∈ array, greater x value = false := by
        obtain ⟨x, member, notGreater⟩ := sentinel
        rcases List.mem_append.mp member with old | new
        · exact ⟨x, old, notGreater⟩
        · rw [List.mem_singleton.mp new, above] at notGreater
          exact absurd notGreater Bool.true_eq_false.mp
      obtain ⟨low, x, ups, shape, notGreater, up⟩ := ih inside
      refine ⟨low, x, ups ++ [last], by simp [shape], notGreater, ?_⟩
      intro y member
      rcases List.mem_append.mp member with old | new
      · exact up y old
      · rw [List.mem_singleton.mp new]
        exact above
    · exact ⟨array, last, [], rfl, by simpa using above, by simp⟩

/-- The order of a comparison: `x` is not greater than `y`. -/
def NotGreater (greater : α → α → Bool) (x y : α) : Prop := greater x y = false

section Insertions

/-- The comparison is a total preorder on the valid elements. -/
structure Preorders (greater : α → α → Bool) (valid : α → Prop) : Prop where
  asymm : ∀ x y, valid x → valid y → greater x y = true → NotGreater greater y x
  trans : ∀ x y z, valid x → valid y → valid z →
    NotGreater greater x y → NotGreater greater y z → NotGreater greater x z

variable {valid : α → Prop} (preorders : Preorders greater valid)

include preorders in
/-- The value takes its place in the sorted prefix. -/
theorem shift_sorted (value hole : α) (sorted after : List α)
    (sortedValid : ∀ x ∈ sorted, valid x) (valueValid : valid value)
    (ordered : sorted.Pairwise (NotGreater greater))
    (sentinel : ∃ x ∈ sorted, NotGreater greater x value) :
    ∃ out, shift greater value (sorted.length - 1) (sorted ++ hole :: after) =
        some (out ++ after) ∧
      out.Perm (sorted ++ [value]) ∧ out.Pairwise (NotGreater greater) := by
  obtain ⟨low, x, ups, shape, notGreater, up⟩ := insertion_point value sorted sentinel
  have moved := shift_apply value x low ups notGreater up hole after
  subst shape
  rw [List.pairwise_append, List.pairwise_cons] at ordered
  obtain ⟨lowOrdered, ⟨xLeast, upsOrdered⟩, across⟩ := ordered
  refine ⟨low ++ x :: value :: ups, by simpa using moved, ?_, ?_⟩
  · have behind : (value :: ups).Perm (ups ++ [value]) :=
      (List.perm_append_singleton value ups).symm
    rw [List.append_assoc, List.cons_append]
    exact (behind.cons x).append_left low
  refine List.pairwise_append.mpr ⟨lowOrdered, ?_, ?_⟩
  · refine List.pairwise_cons.mpr ⟨?_, List.pairwise_cons.mpr ⟨?_, upsOrdered⟩⟩
    · intro y member
      rcases List.mem_cons.mp member with rfl | old
      · exact notGreater
      · exact xLeast y old
    · intro y member
      have yValid : valid y := sortedValid y (by simp [member])
      exact preorders.asymm y value yValid valueValid (up y member)
  · intro y inLow z member
    have yValid : valid y := sortedValid y (by simp [inLow])
    have xValid : valid x := sortedValid x (by simp)
    have underX : NotGreater greater y x := across y inLow x List.mem_cons_self
    rcases List.mem_cons.mp member with rfl | later
    · exact underX
    rcases List.mem_cons.mp later with rfl | old
    · exact preorders.trans y x z yValid xValid valueValid underX notGreater
    · exact across y inLow z (List.mem_cons_of_mem x old)

include preorders in
/-- With an element in the sorted prefix that none of the later ones goes below, the
insertions stay inside the array and sort it. -/
theorem insertions_sorted (rest : List α) :
    ∀ sorted after : List α, (∀ x ∈ sorted ++ rest, valid x) →
      sorted.Pairwise (NotGreater greater) →
      (∃ x ∈ sorted, ∀ y ∈ rest, NotGreater greater x y) →
      ∃ out, insertions greater rest.length (sorted.length - 1) (sorted ++ rest ++ after) =
          some (out ++ after) ∧
        out.Perm (sorted ++ rest) ∧ out.Pairwise (NotGreater greater) := by
  induction rest with
  | nil =>
    exact fun sorted after _ ordered _ => ⟨sorted, by simp [insertions], by simp, ordered⟩
  | cons value rest ih =>
    intro sorted after allValid ordered sentinel
    obtain ⟨least, member, under⟩ := sentinel
    have nonempty : sorted.length - 1 + 1 = sorted.length := by
      have := List.length_pos_of_mem member
      omega
    obtain ⟨grown, shifted, perm, growing⟩ := shift_sorted preorders value value sorted
      (rest ++ after) (fun x inside => allValid x (List.mem_append_left _ inside))
      (allValid value (by simp)) ordered ⟨least, member, under value List.mem_cons_self⟩
    have there : least ∈ grown := perm.mem_iff.mpr (List.mem_append_left [value] member)
    have together : (grown ++ rest).Perm (sorted ++ value :: rest) :=
      (perm.append_right rest).trans (by simp)
    obtain ⟨out, ran, outPerm, outOrdered⟩ := ih grown after
      (fun x inside => allValid x (together.mem_iff.mp inside)) growing
      ⟨least, there, fun y later => under y (List.mem_cons_of_mem value later)⟩
    have longer : grown.length - 1 = sorted.length - 1 + 1 := by
      have same := perm.length_eq
      rw [List.length_append, List.length_singleton] at same
      omega
    refine ⟨out, ?_, ?_, outOrdered⟩
    · have read : (sorted ++ value :: rest ++ after)[sorted.length - 1 + 1]? = some value := by
        rw [nonempty]
        simp
      rw [List.length_cons, insertions, read, Option.bind_eq_bind, Option.bind_some,
        List.append_assoc, List.cons_append, shifted, Option.bind_eq_bind, Option.bind_some,
        ← List.append_assoc, ← longer, ran]
    · exact outPerm.trans together

end Insertions

end WebbitAsyncio.Lib.SortOrder
