import WebbitAsyncio.Invariants.Memory
import WebbitAsyncio.Invariants.ResultLock
import WebbitAsyncio.Lib.Tally

/-!
# The crew of workers

`idle` counts the workers that have gone to wait and have not yet shifted again:
on every run. With one event-loop thread `started` counts the workers, at most
`wanted` of them are ever started, so no timed wait ends with more than `maxIdle`
idle workers and no worker quits.
-/
namespace WebbitAsyncio.Invariants.Workers
open WebbitAsyncio.Lib.TransitionSystem WebbitAsyncio.Lib.Tally
open WebbitAsyncio.Source.EventLoop WebbitAsyncio.Invariants.Stack

variable {J : Type}

/-! ### Idle workers -/

/-- Where `etp_proc` has counted itself as idle. -/
def idles : WorkerPc → Bool
  | .timedWait | .expired | .wait | .woken => true
  | _ => false

abbrev IdleCounted (s : State J) : Prop := Tallies idles s.workers s.idle

theorem waiting_idles {pc : WorkerPc} (waits : pc.waiting = true) : idles pc = true := by
  cases pc <;> first | rfl | cases waits

theorem signalled_idles {workers workers' : List WorkerPc} {idle : UInt}
    (woke : Signalled workers workers') (counted : Tallies idles workers idle) :
    Tallies idles workers' idle := by
  cases woke with
  | lost => exact counted
  | woken found waits => exact counted.same found (waiting_idles waits).symm

theorem idling_idles {s : State J} {w : Nat} {pc pc' : WorkerPc} {idle : UInt}
    (counted : IdleCounted s) (found : s.workers[w]? = some pc) (step : Idling s pc pc' idle) :
    Tallies idles (s.workers.set w pc') idle := by
  cases step with
  | sleep shifting =>
    cases shifting with
    | shift => exact counted.enter found rfl rfl
    | woken =>
      rw [BitVec.sub_add_cancel]
      exact counted.same found rfl
  | timeout | stay => exact counted.same found rfl
  | spurious waits => exact counted.same found (waiting_idles waits).symm
  | surplus => exact counted.leave found rfl rfl

theorem transition_idleCounted [DecidableEq J] {s s' : State J} {a : Action J}
    (counted : IdleCounted s) (step : Transition s a s') : IdleCounted s' := by
  cases step with
  | submit | control | wrap | readBack | count | pollLock | shiftEmpty | shiftTook | donePoll
  | unlockEmpty | unlockTook | decReqs | complete | noCallback | upcall | unref | freeData
  | destroy => exact counted
  | enqueue _ _ woke => exact signalled_idles woke counted
  | spawn => exact counted.append rfl
  | idling found step => exact idling_idles (s := s) counted found step
  | workerTake found shifting =>
    cases shifting with
    | shift => exact counted.same found rfl
    | woken => exact counted.leave found rfl rfl
  | exec found | workerLock found | wantPoll found | workerUnlock found | quit found =>
    exact counted.same found rfl
  | push found =>
    refine counted.same found ?_
    split <;> rfl

theorem idleCounted [DecidableEq J] {ok : State J → Action J → Prop} {s : State J}
    (h : ReachableBy (eventLoop J) ok s) : IdleCounted s :=
  invariant_of_transition tallies_nil (fun _ _ _ counted _ step => transition_idleCounted counted step) h

/-! ### The workers one event-loop thread has started -/

def frameStarts : Frame → Option StartPc
  | .start pc => some pc
  | _ => none

/-- The call of `etp_maybe_start_thread` that is running. -/
def starting (stack : List Frame) : Option StartPc := stack.head?.bind frameStarts

@[simp] theorem starting_cons (f : Frame) (rest : List Frame) :
    starting (f :: rest) = frameStarts f := rfl

structure Staffed (s : State Unit) : Prop where
  size : s.workers.length =
    s.started.toNat + if starting (s.threads ()) = some .count then 1 else 0
  room : ∀ pc, starting (s.threads ()) = some pc → pc ≠ .checkWanted → s.started.toNat < 4
  started : s.started.toNat ≤ 4
  stay : ∀ pc ∈ s.workers, pc ≠ .quit ∧ pc ≠ .exited

theorem suspended_starts {f : Frame} (waits : suspended f) : frameStarts f = none := by
  cases f with
  | start => simp [suspended] at waits
  | submit | poll | block | flush | callback => rfl

theorem starting_below {f : Frame} {rest : List Frame} (stacked : Stacked (f :: rest)) :
    starting rest = none := by
  cases rest with
  | nil => rfl
  | cons g below => exact suspended_starts stacked.1.suspended

theorem starting_java {stack : List Frame} (java : inJava stack) : starting stack = none := by
  cases stack with
  | nil => rfl
  | cons f rest =>
    cases f with
    | callback => rfl
    | submit | start | poll | block | flush => simp [inJava, Frame.isCallback] at java

section
variable {s s' : State Unit}

theorem Staffed.workers_le (staffed : Staffed s) : s.workers.length ≤ 4 := by
  rw [staffed.size]
  split
  next counting =>
    have below := staffed.room _ counting (by simp)
    omega
  next => exact staffed.started

theorem Staffed.idle_le (staffed : Staffed s) (counted : IdleCounted s) : ¬ maxIdle < s.idle := by
  have bound : s.workers.countP idles ≤ 4 := List.countP_le_length.trans staffed.workers_le
  have number := Tallies.toNat counted (by omega)
  have limit : maxIdle.toNat = 4 := rfl
  rw [BitVec.lt_def, number, limit]
  omega

theorem Staffed.keep (staffed : Staffed s) (started : s'.started = s.started)
    (length : s'.workers.length = s.workers.length)
    (members : ∀ pc ∈ s'.workers, pc ∈ s.workers ∨ pc ≠ .quit ∧ pc ≠ .exited)
    (counting : starting (s'.threads ()) = some .count ↔ starting (s.threads ()) = some .count)
    (room : ∀ pc, starting (s'.threads ()) = some pc → pc ≠ .checkWanted → s.started.toNat < 4) :
    Staffed s' := by
  refine ⟨?_, ?_, ?_, fun pc member => ?_⟩
  · simp only [length, staffed.size, started, counting]
  · rwa [started]
  · rw [started]
    exact staffed.started
  · rcases members pc member with old | new
    · exact staffed.stay pc old
    · exact new

/-- Steps of the thread outside `etp_maybe_start_thread`. -/
theorem Staffed.thread (staffed : Staffed s) (started : s'.started = s.started)
    (workers : s'.workers = s.workers) (before : starting (s.threads ()) = none)
    (after : starting (s'.threads ()) = none) : Staffed s' := by
  refine staffed.keep started (by rw [workers]) (fun pc member => .inl (workers ▸ member)) ?_ ?_
  · simp [before, after]
  · simp [after]

theorem Staffed.worker {w : Nat} {pc : WorkerPc} (staffed : Staffed s)
    (started : s'.started = s.started) (workers : s'.workers = s.workers.set w pc)
    (threads : s'.threads = s.threads) (stays : pc ≠ .quit ∧ pc ≠ .exited) : Staffed s' := by
  refine staffed.keep started (by rw [workers, List.length_set]) (fun pc' member => ?_) ?_ ?_
  · rw [workers] at member
    rcases List.mem_or_eq_of_mem_set member with old | rfl
    · exact .inl old
    · exact .inr stays
  · rw [threads]
  · rw [threads]
    exact staffed.room

theorem control_staffed {stack : List Frame} (staffed : Staffed s)
    (stacked : Stacked (s.threads ())) (moved : Control s (s.threads ()) stack) :
    Staffed (s.setStack () stack) := by
  refine staffed.keep rfl rfl (fun _ => .inl) ?_ ?_
  all_goals
    simp only [State.setStack_threads, Function.update_self]
    generalize before : s.threads () = old at moved stacked
    cases moved with
    | enter java entry =>
      cases entry <;> simp [frameStarts, starting_java java]
    | ret | enough | served | readable | flushed => simp [frameStarts, starting_below stacked]
    | below few => simp_all [frameStarts, wanted, BitVec.le_def]
    | readThreads | readPending | short =>
      have room := staffed.room _ (by rw [before]; rfl) (by simp)
      simp [frameStarts, room]
    | loop | flushing | callPoll => simp [frameStarts]

theorem enqueue_staffed {p : Ptr} {data : Source.Reqq.Addr} {rest stack : List Frame}
    {workers : List WorkerPc} (staffed : Staffed s)
    (top : s.threads () = .submit .enqueue p data :: rest) (woke : Signalled s.workers workers)
    (started : s'.started = s.started) (crew : s'.workers = workers)
    (threads : s'.threads () = .start .checkWanted :: stack) : Staffed s' := by
  refine staffed.keep started ?_ (fun pc member => ?_) (by simp [top, threads, frameStarts])
    (by simp [threads, frameStarts])
  · rw [crew]
    cases woke with
    | lost => rfl
    | woken => rw [List.length_set]
  · rw [crew] at member
    cases woke with
    | lost => exact .inl member
    | woken =>
      rcases List.mem_or_eq_of_mem_set member with old | rfl
      · exact .inl old
      · exact .inr (by simp)

end

theorem transition_staffed {s s' : State Unit} {a : Action Unit} (stacked : Stacked (s.threads ()))
    (counted : IdleCounted s) (staffed : Staffed s) (step : Transition s a s') : Staffed s' := by
  cases step with
  | submit java => exact staffed.thread rfl rfl (starting_java java) (by simp [submitted, frameStarts])
  | control moved => exact control_staffed staffed stacked moved
  | enqueue top _ woke => exact enqueue_staffed staffed top woke rfl rfl rfl
  | @spawn j c rest top =>
    have room := staffed.room .spawn (by rw [top]; rfl) (by simp)
    have size := staffed.size
    simp only [top, starting_cons, frameStarts, Option.some.injEq, reduceCtorEq, if_false, Nat.add_zero] at size
    refine ⟨?_, fun _ _ _ => room, staffed.started, fun pc member => ?_⟩
    · simp [frameStarts, size]
    · rcases List.mem_append.mp member with old | new
      · exact staffed.stay pc old
      · rw [List.mem_singleton.mp new]
        simp
  | @count j c rest top =>
    have room := staffed.room .count (by rw [top]; rfl) (by simp)
    have size := staffed.size
    rw [top] at stacked
    have popped := starting_below stacked
    have next : (s.started + 1).toNat = s.started.toNat + 1 := by
      rw [BitVec.toNat_add]
      exact Nat.mod_eq_of_lt (by simp; omega)
    simp only [top, starting_cons, frameStarts, if_true] at size
    refine ⟨?_, ?_, ?_, staffed.stay⟩
    · simp only [State.setStack_workers, State.setStack_started, State.setStack_threads,
        Function.update_self, popped, size, next]
      rfl
    · simp [popped]
    · simp only [State.setStack_started, next]
      omega
  | readBack top | unlockEmpty top =>
    refine staffed.thread rfl rfl (by rw [top]; rfl) ?_
    rw [top] at stacked
    simp [starting_below stacked]
  | wrap top | pollLock top | shiftEmpty top | shiftTook top | donePoll top | unlockTook top
  | decReqs top | complete top | noCallback top | upcall top | unref top | freeData top =>
    exact staffed.thread rfl rfl (by rw [top]; rfl) (by simp [frameStarts])
  | destroy top =>
    refine staffed.thread rfl rfl (by rw [top]; rfl) ?_
    rw [top] at stacked
    simp only [State.setStack_threads, Function.update_self]
    split
    next => rfl
    next => exact starting_below stacked
  | idling found step =>
    refine staffed.worker rfl rfl rfl ?_
    cases step with
    | sleep | timeout | spurious | stay => simp
    | surplus many => exact absurd many (staffed.idle_le counted)
  | workerTake | exec | workerLock | wantPoll | workerUnlock =>
    exact staffed.worker rfl rfl rfl (by simp)
  | push =>
    refine staffed.worker rfl rfl rfl ?_
    split <;> simp
  | quit found => exact absurd rfl (staffed.stay _ (List.mem_of_getElem? found)).1

theorem staffed {s : State Unit} {ok : State Unit → Action Unit → Prop}
    (h : ReachableBy (eventLoop Unit) ok s) : Staffed s := by
  refine invariant_of_known (Q := fun s => Stacked (s.threads ()) ∧ IdleCounted s) ?_ ?_ ?_ h
  · exact fun s reached => ⟨stacked reached (), idleCounted reached⟩
  · exact ⟨rfl, by simp [start, starting], by simp [start], by simp [start]⟩
  · exact fun _ _ _ known holds _ step => transition_staffed known.1 known.2 holds step

end WebbitAsyncio.Invariants.Workers
