import Mathlib.Data.List.Perm.Basic
import Mathlib.Order.Fin.Basic

/-!
# Priority buckets

`n` first-in first-out lists, one for each priority below `n`; `shift` takes the
head of the highest non-empty one. The contents in the order in which repeated
shifts hand them out are `toList`, and every fact about the two operations is a
fact about that list: `push` inserts into it (`toList_push_perm`), `shift`
uncons it (`shift_toList`). Items and the number of priorities are arbitrary.
-/
namespace WebbitAsyncio.Lib

def Buckets (n : Nat) (α : Type) : Type := Fin n → List α

namespace Buckets
variable {n : Nat} {α : Type}

def empty : Buckets n α := fun _ => []

/-- Replace one bucket. -/
def put (b : Buckets n α) (i : Fin n) (l : List α) : Buckets n α := fun j => if j = i then l else b j

def push (b : Buckets n α) (i : Fin n) (a : α) : Buckets n α := b.put i (b i ++ [a])

/-- Take from the highest non-empty bucket below `k`, scanning downwards. -/
def scan (b : Buckets n α) : (k : Nat) → k ≤ n → Option (α × Buckets n α)
  | 0, _ => none
  | k + 1, bound =>
    match b ⟨k, bound⟩ with
    | [] => scan b k (Nat.le_of_succ_le bound)
    | a :: rest => some (a, b.put ⟨k, bound⟩ rest)

def shift (b : Buckets n α) : Option (α × Buckets n α) := b.scan n (Nat.le_refl n)

/-- The buckets below `k`, highest first. -/
def collect (b : Buckets n α) : (k : Nat) → k ≤ n → List α
  | 0, _ => []
  | k + 1, bound => b ⟨k, bound⟩ ++ collect b k (Nat.le_of_succ_le bound)

def toList (b : Buckets n α) : List α := b.collect n (Nat.le_refl n)

@[simp] theorem put_same (b : Buckets n α) (i : Fin n) (l : List α) : b.put i l i = l := if_pos rfl

theorem put_other (b : Buckets n α) {i j : Fin n} (l : List α) (different : j ≠ i) :
    b.put i l j = b j := if_neg different

theorem put_own (b : Buckets n α) (i : Fin n) : b.put i (b i) = b := by
  funext j
  by_cases equal : j = i
  · subst equal
    exact put_same b j (b j)
  · exact put_other b (b i) equal

theorem push_ne (b : Buckets n α) (i : Fin n) (a : α) : b.push i a ≠ b := by
  intro same
  have bucket := congrFun same i
  rw [push, put_same] at bucket
  exact absurd (congrArg List.length bucket) (by simp)

/-- What has been pushed can be read off the result. -/
theorem push_inj {b : Buckets n α} {i j : Fin n} {a c : α} (same : b.push i a = b.push j c) :
    a = c := by
  have bucket := congrFun same i
  by_cases equal : i = j
  · subst equal
    rw [push, push, put_same, put_same] at bucket
    simpa using bucket
  · rw [push, push, put_same, put_other b _ equal] at bucket
    exact absurd (congrArg List.length bucket) (by simp)

theorem collect_put_of_le (b : Buckets n α) (i : Fin n) (l : List α) (k : Nat) (bound : k ≤ n)
    (above : k ≤ i.val) : (b.put i l).collect k bound = b.collect k bound := by
  induction k with
  | zero => rfl
  | succ k ih =>
    have different : (⟨k, bound⟩ : Fin n) ≠ i := by
      intro equal
      rw [← equal] at above
      exact Nat.not_succ_le_self k above
    simp only [collect, put_other b l different]
    rw [ih (Nat.le_of_succ_le bound) (Nat.le_of_succ_le above)]

/-- Replacing one bucket replaces one segment of the collected list. -/
theorem collect_put (b : Buckets n α) (i : Fin n) (k : Nat) (bound : k ≤ n) (below : i.val < k) :
    ∃ before after, ∀ l, (b.put i l).collect k bound = before ++ l ++ after := by
  induction k with
  | zero => omega
  | succ k ih =>
    by_cases equal : i.val = k
    · have same : (⟨k, bound⟩ : Fin n) = i := Fin.ext equal.symm
      refine ⟨[], b.collect k (Nat.le_of_succ_le bound), fun l => ?_⟩
      simp only [collect, same, put_same, List.nil_append]
      rw [collect_put_of_le b i l k _ (by omega)]
    · have different : (⟨k, bound⟩ : Fin n) ≠ i := fun h => equal (by rw [← h])
      obtain ⟨before, after, segment⟩ := ih (Nat.le_of_succ_le bound) (by omega)
      refine ⟨b ⟨k, bound⟩ ++ before, after, fun l => ?_⟩
      simp only [collect, put_other b l different, segment, List.append_assoc]

/-- The segment form for the whole list, with the bucket's own segment named. -/
theorem toList_put (b : Buckets n α) (i : Fin n) :
    ∃ before after, b.toList = before ++ b i ++ after ∧
      ∀ l, (b.put i l).toList = before ++ l ++ after := by
  obtain ⟨before, after, segment⟩ := collect_put b i n (Nat.le_refl n) i.isLt
  refine ⟨before, after, ?_, segment⟩
  have own := segment (b i)
  rwa [put_own] at own

theorem toList_push_perm (b : Buckets n α) (i : Fin n) (a : α) :
    (b.push i a).toList.Perm (a :: b.toList) := by
  obtain ⟨before, after, own, segment⟩ := toList_put b i
  rw [push, segment, own, ← List.append_assoc before]
  exact (List.perm_append_comm.append_right after).trans (by simp)

@[simp] theorem toList_push_length (b : Buckets n α) (i : Fin n) (a : α) :
    (b.push i a).toList.length = b.toList.length + 1 := by
  simpa using (toList_push_perm b i a).length_eq

@[simp] theorem mem_toList_push (b : Buckets n α) (i : Fin n) (a x : α) :
    x ∈ (b.push i a).toList ↔ x = a ∨ x ∈ b.toList := by
  simpa using (toList_push_perm b i a).mem_iff

@[simp] theorem toList_empty : (empty : Buckets n α).toList = [] := by
  have collected : ∀ k (bound : k ≤ n), (empty : Buckets n α).collect k bound = [] := by
    intro k bound
    induction k with
    | zero => rfl
    | succ k ih => simp [collect, empty, ih (Nat.le_of_succ_le bound)]
  exact collected n (Nat.le_refl n)

theorem mem_toList (b : Buckets n α) (x : α) : x ∈ b.toList ↔ ∃ i, x ∈ b i := by
  have collected : ∀ k (bound : k ≤ n), x ∈ b.collect k bound ↔ ∃ i : Fin n, i.val < k ∧ x ∈ b i := by
    intro k bound
    induction k with
    | zero => simp [collect]
    | succ k ih =>
      simp only [collect, List.mem_append, ih (Nat.le_of_succ_le bound)]
      constructor
      · rintro (here | ⟨i, low, there⟩)
        · exact ⟨⟨k, bound⟩, Nat.lt_succ_self k, here⟩
        · exact ⟨i, by omega, there⟩
      · rintro ⟨i, low, there⟩
        by_cases equal : i.val = k
        · exact .inl (by rwa [show (⟨k, bound⟩ : Fin n) = i from Fin.ext equal.symm])
        · exact .inr ⟨i, by omega, there⟩
  rw [toList, collected]
  exact ⟨fun ⟨i, _, h⟩ => ⟨i, h⟩, fun ⟨i, h⟩ => ⟨i, i.isLt, h⟩⟩

/-- What a successful scan took: the head of bucket `i`, every bucket between
`i` and `k` being empty, and nothing else changed. -/
theorem scan_some (b b' : Buckets n α) (a : α) (k : Nat) (bound : k ≤ n)
    (h : b.scan k bound = some (a, b')) :
    ∃ i : Fin n, i.val < k ∧ b i = a :: b' i ∧ (∀ j, j ≠ i → b' j = b j) ∧
      ∀ j : Fin n, i < j → j.val < k → b j = [] := by
  induction k with
  | zero => cases h
  | succ k ih =>
    unfold scan at h
    split at h
    next vacant =>
      obtain ⟨i, low, taken, others, higher⟩ := ih (Nat.le_of_succ_le bound) h
      refine ⟨i, by omega, taken, others, fun j above below => ?_⟩
      by_cases equal : j.val = k
      · rwa [show j = ⟨k, bound⟩ from Fin.ext equal]
      · exact higher j above (by omega)
    next head rest found =>
      simp only [Option.some.injEq, Prod.mk.injEq] at h
      obtain ⟨rfl, rfl⟩ := h
      refine ⟨⟨k, bound⟩, Nat.lt_succ_self k, by simpa using found, ?_, ?_⟩
      · intro j different
        exact put_other b rest different
      · intro j above below
        have : k < j.val := above
        omega

theorem scan_none (b : Buckets n α) (k : Nat) (bound : k ≤ n) :
    b.scan k bound = none ↔ b.collect k bound = [] := by
  induction k with
  | zero => simp [scan, collect]
  | succ k ih =>
    unfold scan
    split
    next vacant => simp only [collect, vacant, List.nil_append]; exact ih _
    next found => simp [collect, found]

/-- `shift` takes the head of the highest non-empty bucket. -/
theorem shift_some {b b' : Buckets n α} {a : α} (h : b.shift = some (a, b')) :
    ∃ i, b i = a :: b' i ∧ (∀ j, j ≠ i → b' j = b j) ∧ ∀ j, i < j → b j = [] := by
  obtain ⟨i, _, taken, others, higher⟩ := scan_some b b' a n (Nat.le_refl n) h
  exact ⟨i, taken, others, fun j above => higher j above j.isLt⟩

theorem shift_none {b : Buckets n α} : b.shift = none ↔ b.toList = [] :=
  scan_none b n (Nat.le_refl n)

/-- `shift` takes the first element of `toList` and leaves the rest. -/
theorem shift_toList {b b' : Buckets n α} {a : α} (h : b.shift = some (a, b')) :
    b.toList = a :: b'.toList := by
  have scanned : ∀ k (bound : k ≤ n), b.scan k bound = some (a, b') →
      b.collect k bound = a :: b'.collect k bound := by
    intro k bound h
    induction k with
    | zero => cases h
    | succ k ih =>
      obtain ⟨i, low, _, others, _⟩ := scan_some b b' a _ bound h
      unfold scan at h
      split at h
      next vacant =>
        obtain ⟨i, low, _, others, _⟩ := scan_some b b' a _ _ h
        have kept : b' ⟨k, bound⟩ = b ⟨k, bound⟩ := others _ (fun equal => by
          rw [← equal] at low
          exact Nat.lt_irrefl k low)
        simp only [collect, kept, vacant, List.nil_append]
        exact ih _ h
      next head rest found =>
        simp only [Option.some.injEq, Prod.mk.injEq] at h
        obtain ⟨rfl, rfl⟩ := h
        simp only [collect, found, put_same, List.cons_append]
        rw [collect_put_of_le _ _ _ _ _ (Nat.le_refl k)]
  exact scanned n (Nat.le_refl n) h

/-! ### Contents of another type -/

def map {β : Type} (f : α → β) (b : Buckets n α) : Buckets n β := fun i => (b i).map f

theorem map_push {β : Type} (f : α → β) (b : Buckets n α) (i : Fin n) (a : α) :
    (b.push i a).map f = (b.map f).push i (f a) := by
  funext j
  by_cases equal : j = i
  · subst equal
    simp [map, push]
  · simp [map, push, put_other _ _ equal]

theorem toList_map {β : Type} (f : α → β) (b : Buckets n α) : (b.map f).toList = b.toList.map f := by
  have collected : ∀ k (bound : k ≤ n), (b.map f).collect k bound = (b.collect k bound).map f := by
    intro k bound
    induction k with
    | zero => rfl
    | succ k ih => simp [collect, map, ← ih (Nat.le_of_succ_le bound)]
  exact collected n (Nat.le_refl n)

theorem shift_map {β : Type} (f : α → β) (b : Buckets n α) :
    (b.map f).shift = b.shift.map fun taken => (f taken.1, taken.2.map f) := by
  have scanned : ∀ k (bound : k ≤ n), (b.map f).scan k bound =
      (b.scan k bound).map fun taken => (f taken.1, taken.2.map f) := by
    intro k bound
    induction k with
    | zero => rfl
    | succ k ih =>
      cases found : b ⟨k, bound⟩ with
      | nil => simp [scan, map, found, ← ih (Nat.le_of_succ_le bound)]
      | cons a rest =>
        simp only [scan, map, found, List.map_cons, Option.map_some, Option.some.injEq, Prod.mk.injEq,
          true_and]
        funext j
        by_cases equal : j = ⟨k, bound⟩
        · subst equal
          simp [map]
        · simp [map, put_other _ _ equal]
  exact scanned n (Nat.le_refl n)

/-! ### The specification: a list in arrival order

`Files key l b` says that the buckets hold the arrivals `l`, each under its key
and in arrival order. Pushing appends an arrival; shifting removes the earliest
among those of the largest key. -/

def Files (key : α → Fin n) (l : List α) (b : Buckets n α) : Prop :=
  ∀ i, b i = l.filter fun a => decide (key a = i)

/-- `a` is the earliest of the elements of `l` whose key is largest; `rest` is
`l` without it. -/
def EarliestLargest {κ : Type} [LinearOrder κ] (key : α → κ) (l : List α) (a : α) (rest : List α) :
    Prop :=
  ∃ before after, l = before ++ a :: after ∧ rest = before ++ after ∧
    (∀ x ∈ before, key x < key a) ∧ ∀ x ∈ after, key x ≤ key a

theorem files_empty (key : α → Fin n) : Files key [] empty := fun _ => rfl

theorem Files.push {key : α → Fin n} {l : List α} {b : Buckets n α} (h : Files key l b) (a : α) :
    Files key (l ++ [a]) (b.push (key a) a) := by
  intro i
  by_cases equal : i = key a
  · subst equal
    simp [Buckets.push, h (key a), List.filter_append]
  · have other : ¬ key a = i := fun same => equal same.symm
    simp [Buckets.push, put_other _ _ equal, h i, List.filter_append, other]

theorem Files.mem_toList {key : α → Fin n} {l : List α} {b : Buckets n α} (h : Files key l b) (a : α) :
    a ∈ b.toList ↔ a ∈ l := by
  rw [Buckets.mem_toList]
  constructor
  · rintro ⟨i, member⟩
    rw [h i] at member
    exact (List.mem_filter.mp member).1
  · intro member
    refine ⟨key a, ?_⟩
    rw [h (key a)]
    exact List.mem_filter.mpr ⟨member, by simp⟩

theorem Files.shift {key : α → Fin n} {l : List α} {b b' : Buckets n α} {a : α} (h : Files key l b)
    (taken : b.shift = some (a, b')) :
    ∃ rest, EarliestLargest key l a rest ∧ Files key rest b' := by
  obtain ⟨i, head, others, higher⟩ := shift_some taken
  have largest : ∀ x ∈ l, key x ≤ i := by
    intro x member
    by_contra above
    have vacant := higher (key x) (lt_of_not_ge above)
    rw [h (key x)] at vacant
    have kept : x ∈ l.filter fun a => decide (key a = key x) :=
      List.mem_filter.mpr ⟨member, by simp⟩
    rw [vacant] at kept
    cases kept
  rw [h i] at head
  obtain ⟨before, after, split, skipped, own, rest⟩ := List.filter_eq_cons_iff.mp head
  have key_a : key a = i := of_decide_eq_true own
  have skip : ∀ x ∈ before, key x ≠ i := fun x member same =>
    skipped x member (by simp [same])
  refine ⟨before ++ after, ⟨before, after, split, rfl, fun x member => ?_, fun x member => ?_⟩,
    fun j => ?_⟩
  · rw [key_a]
    exact lt_of_le_of_ne (largest x (by simp [split, member])) (skip x member)
  · rw [key_a]
    exact largest x (by simp [split, member])
  · by_cases equal : j = i
    · subst equal
      have none : before.filter (fun x => decide (key x = j)) = [] :=
        List.filter_eq_nil_iff.mpr fun x member => by simpa using skip x member
      rw [List.filter_append, none, List.nil_append, rest]
    · rw [others j equal, h j, split, List.filter_append, List.filter_append, List.filter_cons]
      have other : ¬ key a = j := fun same => equal (same ▸ key_a)
      simp [other]

end Buckets
end WebbitAsyncio.Lib
