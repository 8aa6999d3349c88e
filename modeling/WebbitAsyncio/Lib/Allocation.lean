import Mathlib.Logic.Function.Basic

/-!
# Partial programs over a state, and the memory they allocate

Two things a verification of C code needs. Programs in `StateT σ Option`, whose
`none` is undefined behaviour, run by rewriting with one equation for each way to
build them. Allocators answer each site of a program with an address or refuse;
`Fresh` is their contract, stated for the sites still to come, and every
allocation uses up its own (`Fresh.used`).
-/
namespace WebbitAsyncio.Lib.Allocation

/-! ### Running a program -/

section
variable {σ α β : Type} (s : σ)

theorem bind_apply (x : StateT σ Option α) (f : α → StateT σ Option β) :
    (x >>= f) s = (x s).bind fun done => f done.1 done.2 := rfl

theorem pure_apply (a : α) : (pure a : StateT σ Option α) s = some (a, s) := rfl

theorem get_apply : (get : StateT σ Option σ) s = some (s, s) := rfl

theorem modify_apply (f : σ → σ) : (modify f : StateT σ Option Unit) s = some ((), f s) := rfl

theorem failure_apply : (failure : StateT σ Option α) s = none := rfl

end

/-! ### Fresh addresses -/

variable {Site Addr Block : Type}

/-- Each answer still to come is an address of its own at which nothing is, and
nothing is at the null address. -/
structure Fresh (answer : Site → Option Addr) (null : Addr) (pending : List Site)
    (heap : Addr → Option Block) : Prop where
  vacant : ∀ site ∈ pending, ∀ a, answer site = some a → a ≠ null ∧ heap a = none
  distinct : ∀ site site' a, answer site = some a → answer site' = some a → site = site'
  null : heap null = none

section
variable {answer : Site → Option Addr} {null a c : Addr} {site : Site} {rest : List Site}
  {heap heap' : Addr → Option Block} {b : Block}

/-- What is already in the heap is elsewhere. -/
theorem Fresh.apart (fresh : Fresh answer null rest heap) (member : site ∈ rest)
    (answered : answer site = some a) (there : heap c = some b) : c ≠ a := by
  intro same
  subst same
  rw [(fresh.vacant site member c answered).2] at there
  cases there

/-- Storing into a fresh block keeps every other one. -/
theorem Fresh.kept [DecidableEq Addr] (fresh : Fresh answer null rest heap) (member : site ∈ rest)
    (answered : answer site = some a) {stored : Option Block} (there : heap c = some b) :
    Function.update heap a stored c = some b := by
  have apart := fresh.apart member answered there
  rw [Function.update_of_ne apart, there]

/-- The site that was answered is used up. -/
theorem Fresh.used [DecidableEq Addr] (fresh : Fresh answer null (site :: rest) heap)
    (answered : answer site = some a) (others : site ∉ rest) (stored : Option Block) :
    Fresh answer null rest (Function.update heap a stored) := by
  obtain ⟨nonzero, _⟩ := fresh.vacant site (by simp) a answered
  constructor
  · intro other member c got
    obtain ⟨apart, empty⟩ := fresh.vacant other (by simp [member]) c got
    have different : c ≠ a := by
      intro same
      subst same
      exact others (fresh.distinct site other c answered got ▸ member)
    exact ⟨apart, by rw [Function.update_of_ne different, empty]⟩
  · exact fresh.distinct
  · rw [Function.update_of_ne (Ne.symm nonzero), fresh.null]

end

end WebbitAsyncio.Lib.Allocation
