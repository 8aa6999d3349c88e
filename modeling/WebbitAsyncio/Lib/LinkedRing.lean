import Mathlib.Data.List.Chain
import Mathlib.Data.List.Nodup
import Mathlib.Logic.Function.Basic

/-!
# Doubly linked rings

The members of a ring are reached from its sentinel by following `next`, and the last one
leads back to the sentinel; `prev` leads back from every node that has such a link. With
a node for the sentinel this is the usual circular list; with the null pointer as the
sentinel, which has no link back, it is a list that ends in null and whose first pointer
is kept elsewhere. Inserting at the front and unlinking change two links each.
-/
namespace WebbitAsyncio.Lib.LinkedRing

variable {ν : Type} {backed : ν → Prop} {next prev : ν → ν} {s a : ν} {l : List ν}

/-- From `x` the next link leads to `y`, and back if `y` has a link back. -/
def Link (backed : ν → Prop) (next prev : ν → ν) (x y : ν) : Prop :=
  next x = y ∧ (backed y → prev y = x)

/-- The members of the ring around `s`, in order. -/
def Ring (backed : ν → Prop) (next prev : ν → ν) (s : ν) (l : List ν) : Prop :=
  (s :: (l ++ [s])).IsChain (Link backed next prev)

theorem ring_nil : Ring backed next prev s [] ↔ next s = s ∧ (backed s → prev s = s) := by
  simp [Ring, Link]

theorem ring_cons : Ring backed next prev s (a :: l) ↔
    Link backed next prev s a ∧ (a :: (l ++ [s])).IsChain (Link backed next prev) := by
  rw [Ring, List.cons_append, List.isChain_cons_cons]

/-- From every node a link leads to a member or the sentinel. -/
theorem Ring.link_next (ring : Ring backed next prev s l) {x : ν} (inside : x ∈ s :: l) :
    ∃ y ∈ s :: l, Link backed next prev x y := by
  obtain ⟨front, rear, shape⟩ := List.append_of_mem inside
  obtain ⟨y, rear', right⟩ : ∃ y rear', rear ++ [s] = y :: rear' := by
    cases rear with
    | nil => exact ⟨s, [], rfl⟩
    | cons b rear => exact ⟨b, rear ++ [s], rfl⟩
  have path : s :: (l ++ [s]) = front ++ x :: y :: rear' := by
    rw [← List.cons_append, shape, List.append_assoc, List.cons_append, right]
  rw [Ring, path, List.isChain_append_cons_cons] at ring
  refine ⟨y, ?_, ring.2.1⟩
  have member : y ∈ rear ++ [s] := by simp [right]
  rcases List.mem_append.mp member with there | same
  · rw [shape]
    simp [there]
  · simp [List.mem_singleton.mp same]

/-- To every member a link leads from a member or the sentinel. -/
theorem Ring.link_prev (ring : Ring backed next prev s l) {x : ν} (inside : x ∈ l) :
    ∃ y ∈ s :: l, Link backed next prev y x := by
  obtain ⟨front, rear, rfl⟩ := List.append_of_mem inside
  obtain ⟨front', y, left⟩ : ∃ front' y, s :: front = front' ++ [y] :=
    ⟨_, _, (List.dropLast_append_getLast (List.cons_ne_nil s front)).symm⟩
  have path : s :: (front ++ x :: rear ++ [s]) = front' ++ y :: x :: (rear ++ [s]) := by
    have all : s :: (front ++ x :: rear ++ [s]) = (s :: front) ++ x :: (rear ++ [s]) := by simp
    rw [all, left]
    simp
  rw [Ring, path, List.isChain_append_cons_cons] at ring
  refine ⟨y, ?_, ring.2.1⟩
  have member : y ∈ s :: front := by simp [left]
  rcases List.mem_cons.mp member with same | there
  · simp [same]
  · simp [there]

theorem Ring.next_mem (ring : Ring backed next prev s l) {x : ν} (inside : x ∈ s :: l) :
    next x ∈ s :: l := by
  obtain ⟨y, member, link⟩ := ring.link_next inside
  rw [link.1]
  exact member

theorem Ring.prev_mem (ring : Ring backed next prev s l) {x : ν} (inside : x ∈ l)
    (back : backed x) : prev x ∈ s :: l := by
  obtain ⟨y, member, link⟩ := ring.link_prev inside
  rw [link.2 back]
  exact member

theorem Ring.next_prev (ring : Ring backed next prev s l) {x : ν} (inside : x ∈ l)
    (back : backed x) : next (prev x) = x := by
  obtain ⟨y, -, link⟩ := ring.link_prev inside
  rw [link.2 back]
  exact link.1

theorem Ring.prev_next (ring : Ring backed next prev s l) {x : ν} (inside : x ∈ s :: l)
    (back : backed (next x)) : prev (next x) = x := by
  obtain ⟨y, -, link⟩ := ring.link_next inside
  rw [link.1] at back ⊢
  exact link.2 back

/-- Links of other nodes may change. -/
theorem Ring.congr {next' prev' : ν → ν} (ring : Ring backed next prev s l)
    (nexts : ∀ x ∈ s :: l, next' x = next x)
    (prevs : ∀ x ∈ s :: l, backed x → prev' x = prev x) :
    Ring backed next' prev' s l := by
  have inside : ∀ x ∈ s :: (l ++ [s]), x ∈ s :: l := by
    intro x member
    simp only [List.mem_cons, List.mem_append] at member ⊢
    tauto
  refine List.IsChain.imp_of_mem_imp (fun x y xIn yIn link => ?_) ring
  refine ⟨(nexts x (inside x xIn)).trans link.1, fun back => ?_⟩
  exact (prevs y (inside y yIn) back).trans (link.2 back)

variable [DecidableEq ν]

/-- The links between other nodes stay. -/
theorem Link.update {x y pred succ n p : ν} (link : Link backed next prev x y) (source : x ≠ pred)
    (target : y ≠ succ) :
    Link backed (Function.update next pred n) (Function.update prev succ p) x y := by
  refine ⟨?_, fun back => ?_⟩
  · rw [Function.update_of_ne source]
    exact link.1
  · rw [Function.update_of_ne target]
    exact link.2 back

/-- A new member in front. -/
theorem Ring.insert (ring : Ring backed next prev s l) (distinct : (s :: l).Nodup)
    (fresh : a ∉ s :: l) :
    Ring backed (Function.update (Function.update next a (next s)) s a)
      (Function.update (Function.update prev a s) (next s) a) s (a :: l) := by
  obtain ⟨notSentinel, outside⟩ : a ≠ s ∧ a ∉ l := by simpa using fresh
  obtain ⟨noSentinel, once⟩ := List.nodup_cons.mp distinct
  -- the old first node, the sentinel if there is no member
  obtain ⟨first, rest, shape⟩ : ∃ first rest, l ++ [s] = first :: rest := by
    cases l with
    | nil => exact ⟨s, [], rfl⟩
    | cons b l => exact ⟨b, l ++ [s], rfl⟩
  have distinct' : (first :: rest).Nodup := by
    rw [← shape]
    exact List.nodup_append.mpr ⟨once, by simp, fun x inside y same equal => by
      rw [List.mem_singleton.mp same] at equal
      exact noSentinel (equal ▸ inside)⟩
  have away : a ∉ first :: rest := by
    rw [← shape]
    simp [outside, notSentinel]
  have old := ring
  rw [Ring, shape, List.isChain_cons_cons] at old
  obtain ⟨link, tail⟩ := old
  have firstNode : next s = first := link.1
  rw [ring_cons, shape, List.isChain_cons_cons, firstNode]
  have apart : a ≠ first := fun same => away (same ▸ List.mem_cons_self)
  refine ⟨⟨Function.update_self .., fun _ => ?_⟩, ⟨?_, fun _ => Function.update_self ..⟩, ?_⟩
  · rw [Function.update_of_ne apart, Function.update_self]
  · rw [Function.update_of_ne notSentinel, Function.update_self]
  · refine List.IsChain.imp_of_mem_tail_imp (fun x y xIn yIn step => ?_) tail
    have yNotFirst : y ≠ first := fun same => (List.nodup_cons.mp distinct').1 (same ▸ yIn)
    have yNotNew : y ≠ a := fun same => away (same ▸ List.mem_cons_of_mem _ yIn)
    have xNotNew : x ≠ a := fun same => away (same ▸ xIn)
    have xNotSentinel : x ≠ s := by
      rintro rfl
      exact yNotFirst (step.1.symm.trans firstNode)
    exact (step.update xNotNew yNotNew).update xNotSentinel yNotFirst

/-- A member leaves. -/
theorem Ring.unlink {before after : List ν} (ring : Ring backed next prev s (before ++ a :: after))
    (distinct : (s :: (before ++ a :: after)).Nodup) (back : backed a) :
    Ring backed (Function.update next (prev a) (next a)) (Function.update prev (next a) (prev a)) s
      (before ++ after) := by
  obtain ⟨front, pred, left⟩ : ∃ front pred, s :: before = front ++ [pred] :=
    ⟨_, _, (List.dropLast_append_getLast (List.cons_ne_nil s before)).symm⟩
  obtain ⟨succ, rear, right⟩ : ∃ succ rear, after ++ [s] = succ :: rear := by
    cases after with
    | nil => exact ⟨s, [], rfl⟩
    | cons b l => exact ⟨b, l ++ [s], rfl⟩
  have shape : s :: (before ++ a :: after ++ [s]) = front ++ pred :: a :: succ :: rear := by
    have all : s :: (before ++ a :: after ++ [s]) = (s :: before) ++ a :: (after ++ [s]) := by simp
    rw [all, left, right]
    simp
  have shape' : s :: (before ++ after ++ [s]) = front ++ pred :: succ :: rear := by
    have all : s :: (before ++ after ++ [s]) = (s :: before) ++ (after ++ [s]) := by simp
    rw [all, left, right]
    simp
  rw [Ring, shape, List.isChain_append_cons_cons, List.isChain_cons_cons] at ring
  obtain ⟨head, toA, fromA, tail⟩ := ring
  have succA : next a = succ := fromA.1
  have predA : prev a = pred := toA.2 back
  rw [List.nodup_cons, List.nodup_middle, List.nodup_cons] at distinct
  obtain ⟨noSentinel, noA, once⟩ := distinct
  have onceRight : (after ++ [s]).Nodup := by
    refine List.nodup_append.mpr ⟨(List.nodup_append.mp once).2.1, by simp, ?_⟩
    intro x inside y same equal
    rw [List.mem_singleton.mp same] at equal
    exact noSentinel (by simp [← equal, inside])
  have aRight : a ∉ after ++ [s] := by
    intro inside
    rcases List.mem_append.mp inside with after' | same
    · exact noA (List.mem_append_right before after')
    · exact noSentinel (by simp [← List.mem_singleton.mp same])
  have succRight : succ ∈ after ++ [s] := by simp [right]
  have apart : ∀ y ∈ before, y ∉ after ++ [s] := by
    intro y inside there
    rcases List.mem_append.mp there with after' | same
    · exact (List.nodup_append.mp once).2.2 y inside y after' rfl
    · exact noSentinel (by simp [← List.mem_singleton.mp same, inside])
  rw [Ring, shape', List.isChain_append_cons_cons, succA, predA]
  refine ⟨?_, ⟨Function.update_self .., fun _ => Function.update_self ..⟩, ?_⟩
  · rw [← left] at head ⊢
    refine List.IsChain.imp_of_mem_tail_imp (fun x y _ yIn step => step.update ?_ ?_) head
    · -- the last node before the one that leaves leads to that one only
      rintro rfl
      have same : y = a := step.1.symm.trans toA.1
      exact noA (List.mem_append_left after (same ▸ yIn))
    · rintro rfl
      exact apart y yIn succRight
  · refine List.IsChain.imp_of_mem_tail_imp (fun x y _ yIn step => step.update ?_ ?_) tail
    · rintro rfl
      have same : y = a := step.1.symm.trans toA.1
      exact aRight (by rw [right, ← same]; exact List.mem_cons_of_mem succ yIn)
    · rintro rfl
      rw [right] at onceRight
      exact (List.nodup_cons.mp onceRight).1 yIn

end WebbitAsyncio.Lib.LinkedRing
