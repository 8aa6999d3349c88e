import WebbitAsyncio.Invariants.Attendance
import WebbitAsyncio.Invariants.Counters

/-!
# `flush()` and the lost wake-up

A worker whose timed wait has expired re-acquires `reqlock` and, being allowed to
idle, goes straight on to an untimed wait (eio.c:1581-1597). A request queued
between the time-out and the re-acquisition has signalled nobody and is not looked
at again. On the runs without that step `flush()` is never stuck, and one run with
it is.
-/
namespace WebbitAsyncio.Guarantees.LostWakeup
open WebbitAsyncio.Lib.TransitionSystem
open WebbitAsyncio.Source.EventLoop WebbitAsyncio.Invariants.Stack
open WebbitAsyncio.Invariants.Custody WebbitAsyncio.Invariants.Memory
open WebbitAsyncio.Invariants.ResultLock WebbitAsyncio.Invariants.Workers
open WebbitAsyncio.Invariants.Counters WebbitAsyncio.Invariants.Attendance

/-- The event-loop thread sleeps in `block()` with requests outstanding, nothing
to read, and every worker in the untimed wait. -/
structure Stuck (s : State Unit) : Prop where
  inBlock : ∃ rest, s.threads () = .block :: rest
  outstanding : 0 < numRequests s
  silent : s.pipe = 0
  asleep : ∀ pc ∈ s.workers, pc = .wait

section
variable {s : State Unit}

theorem outstanding_inFlight (counted : Counted s) (outstanding : 0 < numRequests s) :
    ∃ (id : ReqId) (t : Ticket Unit), s.tickets[id]? = some t ∧ inFlight t = true := by
  have some_ : s.tickets.countP inFlight ≠ 0 := by
    intro zero
    rw [numRequests, counted, zero] at outstanding
    exact absurd outstanding (by decide)
  obtain ⟨t, member, flies⟩ := List.countP_pos_iff.mp (Nat.pos_of_ne_zero some_)
  obtain ⟨id, found⟩ := List.mem_iff_getElem?.mp member
  exact ⟨id, t, found, flies⟩

theorem Stuck.starting_none (stuck : Stuck s) : starting (s.threads ()) = none := by
  obtain ⟨rest, top⟩ := stuck.inBlock
  rw [top]
  rfl

theorem Stuck.unlocked (stuck : Stuck s) (locked : ResLocked s) : s.reslock = none := by
  cases lock : s.reslock with
  | none => rfl
  | some holder =>
    obtain ⟨phase, entered⟩ := Option.isSome_iff_exists.mp ((locked.exclusive holder).mpr lock)
    cases holder with
    | thread j =>
      obtain ⟨rest, top⟩ := stuck.inBlock
      rw [inside, top] at entered
      cases entered
    | worker w =>
      rw [inside, sectionAt, Option.bind_eq_some_iff] at entered
      obtain ⟨pc, found, within⟩ := entered
      rw [stuck.asleep pc (List.mem_of_getElem? found)] at within
      cases within

/-- No finished request is waiting: it would have left a byte in the pipe. -/
theorem Stuck.no_result (stuck : Stuck s) (locked : ResLocked s) (p : Ptr) :
    p ∉ s.resQueue.toList := by
  intro member
  have balance := locked.pipe
  have filled : s.resQueue.size ≠ 0 := by
    rw [s.resQueue.size_eq_length]
    have positive := List.length_pos_of_mem member
    omega
  rw [stuck.unlocked locked, Lib.Mutex.current_free, stuck.silent] at balance
  simp only [PipeHolds, if_neg filled] at balance
  cases balance

/-- The thread in `block()` holds no request it has taken. -/
theorem Stuck.no_taken (stuck : Stuck s) (stacked : Stacked (s.threads ())) (p : Ptr) (j : Unit)
    (h : Nat) : ¬ Held s (.frame j h .taken) p := by
  intro held
  obtain ⟨rest, top⟩ := stuck.inBlock
  obtain ⟨f, member, said⟩ := cellAt_mem frameHolds held
  rw [top] at member stacked
  rcases List.mem_cons.mp member with rfl | below
  · cases said
  · have waits := stacked.suspended f below
    cases f with
    | poll pc =>
      cases pc with
      | unref p => cases said
      | unlockRes taken => cases taken <;> simp [suspended] at waits
      | _ => simp [suspended, frameHolds] at waits said
    | submit pc p data => cases pc <;> simp [suspended, frameHolds] at waits said
    | start | block | flush | callback => cases said

theorem Stuck.no_worker (stuck : Stuck s) (p : Ptr) (w : Nat) (k : WorkerStage) :
    ¬ Held s (.worker w k) p := by
  intro held
  obtain ⟨pc, found, holds⟩ := Option.bind_eq_some_iff.mp held
  rw [stuck.asleep pc (List.mem_of_getElem? found)] at holds
  cases holds

/-- When a thread is stuck, there is a request that nobody attends to. -/
theorem Stuck.queued (stuck : Stuck s) (known : Ground s) (counted : Counted s) :
    s.reqQueue.toList ≠ [] := by
  obtain ⟨id, t, found, flies⟩ := outstanding_inFlight counted stuck.outstanding
  have held := known.cust.held found (by intro gone; simp [inFlight, gone, progress] at flies)
  cases place : t.place with
  | reqQueue =>
    rw [place] at held
    exact List.ne_nil_of_mem held
  | worker w k => exact absurd (place ▸ held) (stuck.no_worker _ w k)
  | resQueue => exact absurd (place ▸ held) (stuck.no_result known.locked _)
  | gone => simp [inFlight, place, progress] at flies
  | frame j h k =>
    cases k with
    | taken => exact absurd (place ▸ held) (stuck.no_taken known.stacked _ j h)
    | submitting | begun | marked | called | unreffed | dataFreed =>
      simp [inFlight, place, progress] at flies

end

/-- On runs in which no worker goes to sleep over a queued request. -/
theorem no_lost_wakeup {s : State Unit} (h : ReachableBy (eventLoop Unit) SafeToSleep s) :
    ¬ Stuck s := by
  intro stuck
  have queued := stuck.queued (ground h) (counted h)
  rcases attended (fun _ _ safe => safe) h queued with ⟨pc, member, awake⟩ | will
  · exact awake (stuck.asleep pc member)
  · exact not_willSpawn stuck.starting_none will

/-- A time-out is followed by the untimed wait only while nothing is queued. -/
def sleepsOnEmpty (s : State Unit) : Action Unit → Bool
  | .worker w _ => s.workers[w]? != some .expired || s.reqQueue.toList.isEmpty
  | _ => true

theorem sleepsOnEmpty_sound (s : State Unit) (a : Action Unit) (passed : sleepsOnEmpty s a = true) :
    SafeToSleep s a := by
  rintro w c rfl expired
  refine .inl ?_
  simpa [sleepsOnEmpty, expired] using passed

/-- A request is finished and its worker waits until the time-out. -/
def untilTimeout : List (Action Unit) :=
  [.submit () 0 none 16 32 0] ++ List.replicate 7 (.go () {}) ++ [.go () { ref := 1 }, .go () {}] ++
    List.replicate 7 (.worker 0 {}) ++ [.timeout 0]

/-- A second submission, and `flush()` until it sleeps for the second time. -/
def submitAndFlush (wake : Option Nat) : List (Action Unit) :=
  [.submit () 0 none 48 64 0, .go () { wake := wake }] ++ List.replicate 4 (.go () {}) ++
    [.go () { ref := 2 }, .go () {}]

def flushOnce : List (Action Unit) := [.flush ()] ++ List.replicate 27 (.go () {})

/-- The worker waits again before the second request, and is signalled. -/
def signalledInTime : List (Action Unit) :=
  untilTimeout ++ [.worker 0 {}] ++ submitAndFlush (some 0) ++ flushOnce

theorem no_lost_wakeup_signalled :
    ∃ s, (eventLoop Unit).runIf sleepsOnEmpty start signalledInTime = some s ∧
      s.threads () = [.block, .flush .callPoll] ∧ s.workers = [.woken] ∧ ¬ Stuck s :=
  ⟨_, rfl, rfl, rfl,
    no_lost_wakeup (reachableBy_runIf sleepsOnEmpty_sound signalledInTime .start rfl)⟩

/-- The second request is queued between the time-out and the untimed wait. -/
def queuedTooLate : List (Action Unit) :=
  untilTimeout ++ submitAndFlush none ++ [.worker 0 {}] ++ flushOnce

theorem flush_stuck : ¬ ∀ s, Reachable (eventLoop Unit) s → ¬ Stuck s := by
  intro all
  have reached : ∃ s, (eventLoop Unit).run start queuedTooLate = some s ∧
      s.threads () = [.block, .flush .callPoll] ∧ numRequests s = 1 ∧ s.pipe = 0 ∧
      s.workers = [.wait] := ⟨_, rfl, rfl, rfl, rfl, rfl⟩
  obtain ⟨s, ran, top, count, pipe, crew⟩ := reached
  refine all s (reachable_run queuedTooLate .start ran) ⟨⟨_, top⟩, ?_, pipe, ?_⟩
  · rw [count]
    decide
  · simp [crew]

end WebbitAsyncio.Guarantees.LostWakeup
