import Mathlib.Algebra.Group.Nat.Defs
import WebbitAsyncio.Invariants.ResultLock

/-!
# The wake-up descriptor

`wakeUpFileDescriptor()` is the read end of a pipe that `want_poll` writes and
`done_poll` reads (asyncio.c:20-59). On every run, with any number of Java
threads and workers in any interleaving, the descriptor is readable exactly while
a finished request waits to be processed. The count that `numPending()` returns
is the size of the queue as a 32-bit word; it can be read as a number as long as
`etp_reqq.size`, a C `int`, can hold it.
-/
namespace WebbitAsyncio.Guarantees.WakeupDescriptor
open WebbitAsyncio.Lib.TransitionSystem WebbitAsyncio.Lib.Mutex
open WebbitAsyncio.Source.EventLoop
open WebbitAsyncio.Invariants.ResultLock

variable {J : Type} [DecidableEq J]

/-- What the descriptor promises in a state of the library. -/
structure WakesExactly (s : State J) : Prop where
  oneByte : s.reslock = none → s.resQueue.toList ≠ [] → s.pipe = 1
  noByte : s.reslock = none → s.resQueue.toList = [] → s.pipe = 0
  readable : s.reslock = none → (0 < s.pipe ↔ s.resQueue.toList ≠ [])
  pendingWord : s.npending = BitVec.ofNat 32 s.resQueue.toList.length
  pending : s.resQueue.toList.length < 2 ^ 31 → (0 < numPending s ↔ s.resQueue.toList ≠ [])
  /-- The read of `done_poll` finds a byte, so a thread in `poll()` never blocks in it. -/
  donePoll : ∀ j p rest, s.threads j = .poll (.donePoll p) :: rest →
    0 < s.pipe ∧ ∀ c, ∃ s', step s (.go j c) = some s'
  /-- The write of `want_poll` meets an empty pipe. -/
  wantPoll : ∀ w : Nat, s.workers[w]? = some .wantPoll → s.pipe = 0
  neverFull : s.pipe ≤ 1
  /-- `block()` returns at once while a finished request is waiting. -/
  block : ∀ j rest, s.threads j = .block :: rest → s.reslock = none → s.resQueue.toList ≠ [] →
    ∀ c, ∃ s', step s (.go j c) = some s'

theorem size_eq_zero {q : ReqQueue} : q.size = 0 ↔ q.toList = [] := by
  rw [q.size_eq_length]
  constructor
  · intro zero
    exact List.eq_nil_of_length_eq_zero (by omega)
  · intro empty
    simp [empty]

theorem pipe_le_one {size : Int} {pipe : Nat} {phase : Option Section}
    (h : PipeHolds size pipe phase) : pipe ≤ 1 := by
  cases phase with
  | none =>
    simp only [PipeHolds] at h
    split at h <;> omega
  | some sec =>
    cases sec with
    | agreed =>
      simp only [PipeHolds] at h
      split at h <;> omega
    | reading | writing =>
      obtain ⟨_, known⟩ := h
      omega

omit [DecidableEq J] in
theorem pipe_free {s : State J} (locked : ResLocked s) (free : s.reslock = none) :
    s.pipe = if s.resQueue.toList = [] then 0 else 1 := by
  have balance := locked.pipe
  rw [free] at balance
  simpa only [PipeHolds, current_free, size_eq_zero] using balance

omit [DecidableEq J] in
theorem numPending_pos {s : State J} (locked : ResLocked s)
    (fits : s.resQueue.toList.length < 2 ^ 31) : 0 < numPending s ↔ s.resQueue.toList ≠ [] := by
  have value : numPending s = s.resQueue.toList.length := by
    rw [numPending, locked.pending, s.resQueue.size_eq_length]
    exact BitVec.toInt_ofInt_eq_self (by omega) (by omega) (by omega)
  rw [value]
  cases s.resQueue.toList with
  | nil => simp
  | cons p rest => simp

omit [DecidableEq J] in
/-- The pipe holds the byte that `donePoll` is about to read. -/
theorem donePoll_byte {s : State J} {j : J} {p : Ptr} {rest : List Frame} (locked : ResLocked s)
    (top : s.threads j = .poll (.donePoll p) :: rest) : s.pipe = 1 := by
  have entered : inside s (.thread j) = some .reading := by rw [inside, top]; rfl
  have balance := locked.pipe
  rw [locked.exclusive.current_eq entered] at balance
  exact balance.2

omit [DecidableEq J] in
theorem wantPoll_empty {s : State J} {w : Nat} (locked : ResLocked s)
    (found : s.workers[w]? = some .wantPoll) : s.pipe = 0 := by
  have entered : inside s (.worker w) = some .writing := by rw [inside, sectionAt, found]; rfl
  have balance := locked.pipe
  rw [locked.exclusive.current_eq entered] at balance
  exact balance.2

/-- In every reachable state the descriptor tells the truth. -/
theorem wakeup_descriptor {s : State J} (h : Reachable (eventLoop J) s) : WakesExactly s := by
  have locked := resLocked h
  have one : s.reslock = none → s.resQueue.toList ≠ [] → s.pipe = 1 := fun free filled => by
    rw [pipe_free locked free, if_neg filled]
  have zero : s.reslock = none → s.resQueue.toList = [] → s.pipe = 0 := fun free empty => by
    rw [pipe_free locked free, if_pos empty]
  refine ⟨one, zero, ?_, ?_, numPending_pos locked, ?_, fun w => wantPoll_empty locked,
    pipe_le_one locked.pipe, ?_⟩
  · intro free
    rw [pipe_free locked free]
    split
    next empty => simp [empty]
    next filled => simp [filled]
  · rw [locked.pending, s.resQueue.size_eq_length, BitVec.ofInt_natCast]
  · intro j p rest top
    have byte := donePoll_byte locked top
    refine ⟨by omega, fun c => ?_⟩
    simp [step, goThread, top, goPoll, byte]
  · intro j rest top free filled c
    simp [step, goThread, top, goBlock, one free filled]

/-- One thread submits; the worker started for it finishes the request; a second
thread waits in `block()`. -/
def finishedOne : List (Action Bool) :=
  [.submit true 0 none 16 32 0, .go true {}, .go true {}, .go true {}, .go true {}, .go true {},
    .go true {}, .go true {}, .go true {}, .block false, .worker 0 {}, .worker 0 {}, .worker 0 {},
    .worker 0 {}, .worker 0 {}, .worker 0 {}]

theorem wakeup_descriptor_finished :
    ∃ s, (eventLoop Bool).run start finishedOne = some s ∧ s.reslock = none ∧
      s.resQueue.toList = [⟨16, 0⟩] ∧ s.pipe = 1 ∧ WakesExactly s := by
  refine ⟨_, rfl, rfl, rfl, rfl, wakeup_descriptor (reachable_run finishedOne .start rfl)⟩

end WebbitAsyncio.Guarantees.WakeupDescriptor
