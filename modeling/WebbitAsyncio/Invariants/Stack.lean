import WebbitAsyncio.Source.Transitions

/-!
# The shape of a Java thread's stack

Which frame may stand on which, on every run with any number of threads. A
consequence used throughout: below the top there are only frames that wait for a
call to return, so only the top of a stack can be inside a critical section, and
a submit operation is interrupted by nothing but its own `etp_maybe_start_thread`.
-/
namespace WebbitAsyncio.Invariants.Stack
open WebbitAsyncio.Lib.TransitionSystem WebbitAsyncio.Source.EventLoop
open WebbitAsyncio.Source.Reqq (Addr)

variable {J : Type} [DecidableEq J]

/-- What the frame may stand on. -/
def On : Frame → List Frame → Prop
  | .submit _ _ _, rest => inJava rest
  | .start _, rest =>
    (∃ p data below, rest = .submit .wrap p data :: below) ∨ ∃ below, rest = .poll .lockRes :: below
  | .poll _, rest => inJava rest ∨ ∃ below, rest = .flush .test :: below
  | .block, rest => inJava rest ∨ ∃ below, rest = .flush .callPoll :: below
  | .flush _, rest => inJava rest
  | .callback id, rest => ∃ p below, p.id = id ∧ rest = .poll (.unref p) :: below

def Stacked : List Frame → Prop
  | [] => True
  | f :: rest => On f rest ∧ Stacked rest

/-- Frames that wait for the frame above them to return. -/
def suspended : Frame → Bool
  | .submit .wrap _ _ | .poll .lockRes | .poll (.unref _) | .flush _ | .callback _ => true
  | _ => false

theorem On.suspended {f g : Frame} {rest : List Frame} (h : On f (g :: rest)) : suspended g := by
  have java : inJava (g :: rest) → Stack.suspended g := by
    cases g <;> simp [inJava, Frame.isCallback, Stack.suspended]
  cases f with
  | submit pc p data => exact java h
  | start pc =>
    rcases h with ⟨p, data, below, equal⟩ | ⟨below, equal⟩
    · cases equal; rfl
    · cases equal; rfl
  | poll pc =>
    rcases h with called | ⟨below, equal⟩
    · exact java called
    · cases equal; rfl
  | block =>
    rcases h with called | ⟨below, equal⟩
    · exact java called
    · cases equal; rfl
  | flush pc => exact java h
  | callback id =>
    obtain ⟨p, below, _, equal⟩ := h
    cases equal; rfl

theorem Stacked.suspended {f : Frame} {rest : List Frame} (h : Stacked (f :: rest)) :
    ∀ g ∈ rest, suspended g := by
  induction rest generalizing f with
  | nil => simp
  | cons g rest ih =>
    intro x member
    rcases List.mem_cons.mp member with equal | member
    · exact equal ▸ h.1.suspended
    · exact ih h.2 x member

/-- A submit operation in progress is on top, or under the start of a worker that
is on top. -/
theorem Stacked.submit_top {stack : List Frame} {pc : SubmitPc} {p : Ptr} {data : Addr}
    (h : Stacked stack) (member : .submit pc p data ∈ stack) :
    (∃ rest, stack = .submit pc p data :: rest) ∨
      ∃ start rest, stack = .start start :: .submit pc p data :: rest := by
  induction stack with
  | nil => cases member
  | cons f rest ih =>
    rcases List.mem_cons.mp member with equal | member
    · exact .inl ⟨rest, by rw [equal]⟩
    · rcases ih h.2 member with ⟨below, equal⟩ | ⟨start, below, equal⟩
      · subst equal
        -- only a start frame may stand on a submit frame
        cases f with
        | start start => exact .inr ⟨start, below, rfl⟩
        | submit | poll | block | flush | callback =>
          have on := h.1
          simp [On, inJava, Frame.isCallback] at on
      · subst equal
        have waits := h.1.suspended
        simp [Stack.suspended] at waits

omit [DecidableEq J] in
theorem control_stacked {s : State J} {old new : List Frame} (step : Control s old new)
    (h : Stacked old) : Stacked new := by
  cases step with
  | enter java entry =>
    refine ⟨?_, h⟩
    cases entry with
    | poll => exact .inl java
    | block => exact .inl java
    | flush => exact java
  | ret => exact h.2
  | enough | served | readable | flushed => exact h.2
  | below | readThreads | readPending | short => exact ⟨h.1, h.2⟩
  | loop => exact ⟨.inr ⟨_, rfl⟩, h.1, h.2⟩
  | flushing => exact ⟨.inr ⟨_, rfl⟩, h.1, h.2⟩
  | callPoll => exact ⟨.inr ⟨_, rfl⟩, h.1, h.2⟩

theorem stacked_update {threads : J → List Frame} {stack : List Frame} (j : J)
    (h : ∀ i, Stacked (threads i)) (top : Stacked stack) :
    ∀ i, Stacked (Function.update threads j stack i) := by
  intro i
  by_cases equal : i = j
  · subst equal
    rwa [Function.update_self]
  · rw [Function.update_of_ne equal]
    exact h i

theorem transition_stacked {s s' : State J} {a : Action J} (step : Transition s a s')
    (h : ∀ j, Stacked (s.threads j)) : ∀ j, Stacked (s'.threads j) := by
  have at_top : ∀ {j : J} {stack : List Frame}, s.threads j = stack → Stacked stack :=
    fun top => top ▸ h _
  cases step with
  | submit java => exact stacked_update _ h ⟨java, h _⟩
  | control moved => exact stacked_update _ h (control_stacked moved (h _))
  | enqueue top =>
    exact stacked_update _ h ⟨.inl ⟨_, _, _, rfl⟩, (at_top top).1, (at_top top).2⟩
  | readBack top => exact stacked_update _ h (at_top top).2
  | spawn top => exact stacked_update _ h ⟨(at_top top).1, (at_top top).2⟩
  | count top => exact stacked_update _ h (at_top top).2
  | wrap top | pollLock top | shiftEmpty top | shiftTook top | donePoll top | unlockTook top
  | decReqs top | complete top | noCallback top | unref top | freeData top =>
    exact stacked_update _ h ⟨(at_top top).1, (at_top top).2⟩
  | unlockEmpty top => exact stacked_update _ h (at_top top).2
  | upcall top =>
    exact stacked_update _ h ⟨⟨_, _, rfl, rfl⟩, (at_top top).1, (at_top top).2⟩
  | @destroy _ _ _ _ res top =>
    by_cases zero : res = 0
    · simp only [zero, if_true]
      exact stacked_update _ h ⟨(at_top top).1, (at_top top).2⟩
    · simp only [zero, if_false]
      exact stacked_update _ h (at_top top).2
  | idling | workerTake | exec | workerLock | push | wantPoll | workerUnlock | quit => exact h

theorem stacked {ok : State J → Action J → Prop} {s : State J}
    (h : ReachableBy (eventLoop J) ok s) : ∀ j, Stacked (s.threads j) :=
  invariant_of_transition (fun _ => trivial) (fun _ _ _ holds _ step => transition_stacked step holds)
    h

/-! ### What the frames say, by height

Heights are counted from the program up, so a frame keeps its height while calls
above it come and go. -/

section
variable {α : Type} (view : Frame → Option α)

/-- What the frame at height `h` says; nothing above the top. -/
def cellAt : List Frame → Nat → Option α
  | [], _ => none
  | f :: rest, h => if h = rest.length then view f else cellAt rest h

@[simp] theorem cellAt_self (f : Frame) (rest : List Frame) :
    cellAt view (f :: rest) rest.length = view f := if_pos rfl

theorem cellAt_other (f : Frame) {rest : List Frame} {h : Nat} (other : h ≠ rest.length) :
    cellAt view (f :: rest) h = cellAt view rest h := if_neg other

theorem cellAt_beyond {stack : List Frame} {h : Nat} (beyond : stack.length ≤ h) :
    cellAt view stack h = none := by
  induction stack with
  | nil => rfl
  | cons f rest ih =>
    rw [List.length_cons] at beyond
    rw [cellAt, if_neg (by omega)]
    exact ih (by omega)

/-- Frames that say nothing can be pushed and popped. -/
theorem cellAt_cons {f : Frame} (rest : List Frame) (nothing : view f = none) :
    cellAt view (f :: rest) = cellAt view rest := by
  funext h
  rw [cellAt]
  split
  next top => rw [nothing, cellAt_beyond view (Nat.le_of_eq top.symm)]
  next => rfl

theorem cellAt_top {f g : Frame} (rest : List Frame) (same : view f = view g) :
    cellAt view (f :: rest) = cellAt view (g :: rest) := by
  funext h
  rw [cellAt, cellAt, same]

theorem cellAt_mem {stack : List Frame} {h : Nat} {x : α} (found : cellAt view stack h = some x) :
    ∃ f ∈ stack, view f = some x := by
  induction stack with
  | nil => cases found
  | cons f rest ih =>
    rw [cellAt] at found
    split at found
    next => exact ⟨f, by simp, found⟩
    next =>
      obtain ⟨g, member, said⟩ := ih found
      exact ⟨g, List.mem_cons_of_mem f member, said⟩

variable {view}

theorem cellAt_update {s s' : State J} {j : J} {stack : List Frame}
    (threads : s'.threads = Function.update s.threads j stack)
    (same : cellAt view stack = cellAt view (s.threads j)) (i : J) :
    cellAt view (s'.threads i) = cellAt view (s.threads i) := by
  by_cases equal : i = j
  · subst equal
    rw [threads, Function.update_self, same]
  · rw [threads, Function.update_of_ne equal]

/-- The frames that a step of `Control` reads or leaves. -/
inductive Bookkeeping : Frame → Prop where
  | start {pc : StartPc} : Bookkeeping (.start pc)
  | loop : Bookkeeping (.poll .loop)
  | lockRes : Bookkeeping (.poll .lockRes)
  | block : Bookkeeping .block
  | flush {pc : FlushPc} : Bookkeeping (.flush pc)
  | callback {id : ReqId} : Bookkeeping (.callback id)

omit [DecidableEq J] in
theorem control_cellAt {s : State J} {old new : List Frame}
    (nothing : ∀ f, Bookkeeping f → view f = none) (step : Control s old new) :
    cellAt view new = cellAt view old := by
  cases step with
  | enter java entry =>
    cases entry with
    | poll => exact cellAt_cons view _ (nothing _ .loop)
    | block => exact cellAt_cons view _ (nothing _ .block)
    | flush => exact cellAt_cons view _ (nothing _ .flush)
  | ret => exact (cellAt_cons view _ (nothing _ .callback)).symm
  | enough | served => exact (cellAt_cons view _ (nothing _ .start)).symm
  | readable => exact (cellAt_cons view _ (nothing _ .block)).symm
  | flushed => exact (cellAt_cons view _ (nothing _ .flush)).symm
  | below | readThreads | readPending | short =>
    exact cellAt_top view _ ((nothing _ .start).trans (nothing _ .start).symm)
  | loop =>
    exact (cellAt_cons view _ (nothing _ .start)).trans
      (cellAt_top view _ ((nothing _ .lockRes).trans (nothing _ .loop).symm))
  | flushing =>
    exact (cellAt_cons view _ (nothing _ .block)).trans
      (cellAt_top view _ ((nothing _ .flush).trans (nothing _ .flush).symm))
  | callPoll =>
    exact (cellAt_cons view _ (nothing _ .loop)).trans
      (cellAt_top view _ ((nothing _ .flush).trans (nothing _ .flush).symm))

end

end WebbitAsyncio.Invariants.Stack
