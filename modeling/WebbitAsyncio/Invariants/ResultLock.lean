import WebbitAsyncio.Invariants.Stack
import WebbitAsyncio.Lib.Mutex

/-!
# The result lock and what it guards

`reslock` guards `res_queue`, `npending` and the bytes of the wake-up pipe: the
sections are `etp_poll` (eio.c:530-541) and the end of the loop of `etp_proc`
(1608-1619). The invariant speaks about every moment of every run, with any
number of Java threads: while the lock is free the pipe holds one byte exactly if
the queue is not empty, and inside a section it says which half of the pair has
been updated.
-/
namespace WebbitAsyncio.Invariants.ResultLock
open WebbitAsyncio.Lib.TransitionSystem WebbitAsyncio.Lib.Mutex
open WebbitAsyncio.Source.EventLoop WebbitAsyncio.Invariants.Stack

variable {J : Type} [DecidableEq J]

/-- How far a holder of `reslock` is: queue and pipe agree, the last result was
taken and its byte is still to be read, or the first result was added and its
byte is still to be written. -/
inductive Section where
  | agreed
  | reading
  | writing
  deriving DecidableEq, Repr

def frameSection : Frame → Option Section
  | .poll .shift => some .agreed
  | .poll (.donePoll _) => some .reading
  | .poll (.unlockRes _) => some .agreed
  | _ => none

def workerSection : WorkerPc → Option Section
  | .push _ => some .agreed
  | .wantPoll => some .writing
  | .unlockRes => some .agreed
  | _ => none

def stackSection (stack : List Frame) : Option Section := stack.head?.bind frameSection

def sectionAt (workers : List WorkerPc) (w : Nat) : Option Section := (workers[w]?).bind workerSection

def inside (s : State J) : Holder J → Option Section
  | .thread j => stackSection (s.threads j)
  | .worker w => sectionAt s.workers w

/-- The bytes in the pipe when the queue has `size` elements. -/
def PipeHolds (size : Int) (pipe : Nat) : Option Section → Prop
  | some .reading => size = 0 ∧ pipe = 1
  | some .writing => size ≠ 0 ∧ pipe = 0
  | _ => pipe = if size = 0 then 0 else 1

structure ResLocked (s : State J) : Prop where
  exclusive : Exclusive (inside s) s.reslock
  pipe : PipeHolds s.resQueue.size s.pipe (current (inside s) s.reslock)
  pending : s.npending = BitVec.ofInt 32 s.resQueue.size

/-! ### How a step changes `inside` -/

theorem inside_thread {s s' : State J} {j : J} {stack : List Frame} {phase : Option Section}
    (threads : s'.threads = Function.update s.threads j stack)
    (workers : sectionAt s'.workers = sectionAt s.workers) (top : stackSection stack = phase) :
    inside s' = Function.update (inside s) (.thread j) phase := by
  funext h
  cases h with
  | thread i =>
    by_cases equal : i = j
    · subst equal
      simp [inside, threads, top]
    · have other : Holder.thread i ≠ Holder.thread j := fun same => equal (Holder.thread.inj same)
      simp [inside, threads, Function.update_of_ne equal, Function.update_of_ne other]
  | worker w => simp [inside, workers]

theorem sectionAt_set {workers : List WorkerPc} {w : Nat} {old : WorkerPc} (pc : WorkerPc)
    (found : workers[w]? = some old) :
    sectionAt (workers.set w pc) = Function.update (sectionAt workers) w (workerSection pc) := by
  funext v
  by_cases equal : v = w
  · subst equal
    have bound : v < workers.length := (List.getElem?_eq_some_iff.mp found).1
    simp [sectionAt, bound]
  · simp [sectionAt, List.getElem?_set_ne (Ne.symm equal), Function.update_of_ne equal]

theorem inside_worker {s s' : State J} {w : Nat} {old pc : WorkerPc} {phase : Option Section}
    (found : s.workers[w]? = some old) (threads : s'.threads = s.threads)
    (workers : s'.workers = s.workers.set w pc) (now : workerSection pc = phase) :
    inside s' = Function.update (inside s) (.worker w) phase := by
  funext h
  cases h with
  | thread i => simp [inside, threads]
  | worker v =>
    simp only [inside, workers, sectionAt_set pc found, now]
    by_cases equal : v = w
    · subst equal
      simp
    · have other : Holder.worker v ≠ (Holder.worker w : Holder J) :=
        fun same => equal (Holder.worker.inj same)
      rw [Function.update_of_ne equal, Function.update_of_ne other]
      rfl

theorem sectionAt_spawn (workers : List WorkerPc) :
    sectionAt (workers ++ [WorkerPc.shift]) = sectionAt workers := by
  funext w
  simp only [sectionAt, List.getElem?_append]
  split
  next => rfl
  next beyond =>
    rw [List.getElem?_eq_none (Nat.not_lt.mp beyond)]
    cases w - workers.length <;> rfl

theorem sectionAt_signalled {workers workers' : List WorkerPc} (woke : Signalled workers workers') :
    sectionAt workers' = sectionAt workers := by
  cases woke with
  | lost => rfl
  | @woken w pc found waits =>
    rw [sectionAt_set .woken found]
    refine update_outside ?_
    rw [sectionAt, found, Option.bind_some]
    cases pc <;> simp [WorkerPc.waiting] at waits <;> rfl

theorem suspended_section {f : Frame} (waits : suspended f) : frameSection f = none := by
  cases f with
  | poll pc => cases pc <;> simp [suspended] at waits <;> rfl
  | submit | start | block | flush | callback => rfl

/-- Whoever waits below the top is outside the section. -/
theorem stackSection_below {f : Frame} {rest : List Frame} (h : Stacked (f :: rest)) :
    stackSection rest = none := by
  cases rest with
  | nil => rfl
  | cons g below => exact suspended_section (h.suspended g (by simp))

theorem stackSection_java {stack : List Frame} (java : inJava stack) : stackSection stack = none := by
  cases stack with
  | nil => rfl
  | cons f rest =>
    cases f with
    | callback => rfl
    | submit | start | poll | block | flush => simp [inJava, Frame.isCallback] at java

omit [DecidableEq J] in
/-- Steps that touch no request stay outside the section. -/
theorem control_section {s : State J} {old new : List Frame} (step : Control s old new)
    (h : Stacked old) : stackSection old = none ∧ stackSection new = none := by
  cases step with
  | enter java entry => exact ⟨stackSection_java java, by cases entry <;> rfl⟩
  | ret | enough | served | readable | flushed => exact ⟨rfl, stackSection_below h⟩
  | below | readThreads | readPending | short | loop | flushing | callPoll => exact ⟨rfl, rfl⟩

omit [DecidableEq J] in
theorem idling_section {s : State J} {pc pc' : WorkerPc} {idle : UInt} (step : Idling s pc pc' idle) :
    workerSection pc = none ∧ workerSection pc' = none := by
  cases step with
  | sleep shifting => cases shifting <;> exact ⟨rfl, rfl⟩
  | timeout | surplus | stay => exact ⟨rfl, rfl⟩
  | spurious waits => cases pc <;> simp [WorkerPc.waiting] at waits <;> exact ⟨rfl, rfl⟩

/-! ### The ways a step meets the lock -/

section
variable {s s' : State J} {h : Holder J}

theorem ResLocked.acquire (locked : ResLocked s) (free : s.reslock = none)
    (ins : inside s' = Function.update (inside s) h (some .agreed)) (lock : s'.reslock = some h)
    (queue : s'.resQueue = s.resQueue) (pipe : s'.pipe = s.pipe)
    (pending : s'.npending = s.npending) : ResLocked s' := by
  have ex := locked.exclusive
  have balance := locked.pipe
  rw [free] at ex balance
  refine ⟨by rw [ins, lock]; exact ex.acquire, ?_, by rw [pending, queue]; exact locked.pending⟩
  rw [ins, lock, current_update_self, queue, pipe]
  exact balance

/-- Within the section the holder changes queue and pipe in two steps. -/
theorem ResLocked.advance {before : Section} (after : Section) (locked : ResLocked s)
    (entered : inside s h = some before)
    (ins : inside s' = Function.update (inside s) h (some after)) (lock : s'.reslock = s.reslock)
    (pipe : PipeHolds s.resQueue.size s.pipe (some before) →
      PipeHolds s'.resQueue.size s'.pipe (some after))
    (pending : s.npending = BitVec.ofInt 32 s.resQueue.size →
      s'.npending = BitVec.ofInt 32 s'.resQueue.size) : ResLocked s' := by
  have balance := locked.pipe
  rw [locked.exclusive.current_eq entered] at balance
  refine ⟨by rw [ins, lock]; exact locked.exclusive.advance entered, ?_, pending locked.pending⟩
  rw [ins, lock, locked.exclusive.held entered, current_update_self]
  exact pipe balance

theorem ResLocked.release (locked : ResLocked s) (entered : inside s h = some .agreed)
    (ins : inside s' = Function.update (inside s) h none) (lock : s'.reslock = none)
    (queue : s'.resQueue = s.resQueue) (pipe : s'.pipe = s.pipe)
    (pending : s'.npending = s.npending) : ResLocked s' := by
  have balance := locked.pipe
  rw [locked.exclusive.current_eq entered] at balance
  refine ⟨by rw [ins, lock]; exact locked.exclusive.release entered, ?_,
    by rw [pending, queue]; exact locked.pending⟩
  rw [lock, queue, pipe]
  exact balance

theorem ResLocked.outside (locked : ResLocked s) (out : inside s h = none)
    (ins : inside s' = Function.update (inside s) h none) (lock : s'.reslock = s.reslock)
    (queue : s'.resQueue = s.resQueue) (pipe : s'.pipe = s.pipe)
    (pending : s'.npending = s.npending) : ResLocked s' := by
  rw [update_outside out] at ins
  exact ⟨by rw [ins, lock]; exact locked.exclusive, by rw [ins, lock, queue, pipe]; exact locked.pipe,
    by rw [pending, queue]; exact locked.pending⟩

end

/-! ### The step and the run -/

theorem size_nonneg (q : ReqQueue) : 0 ≤ q.size := by
  rw [q.size_eq]
  omega

theorem ofInt_succ (size : Int) : BitVec.ofInt 32 (size + 1) = BitVec.ofInt 32 size + 1 := by
  rw [BitVec.ofInt_add]
  rfl

theorem ofInt_pred (size : Int) : BitVec.ofInt 32 (size - 1) = BitVec.ofInt 32 size - 1 := by
  have added := ofInt_succ (size - 1)
  rw [show size - 1 + 1 = size by omega] at added
  rw [added]
  exact (BitVec.add_sub_cancel ..).symm

/-- The poller's shift: the byte is owed exactly when the last result was taken. -/
theorem shift_resLocked {s s' : State J} {j : J} {p : Ptr} {queue : ReqQueue} {rest : List Frame}
    (locked : ResLocked s) (top : s.threads j = .poll .shift :: rest)
    (took : s.resQueue.shift = some (p, queue))
    (threads : s'.threads = Function.update s.threads j
      (.poll (if queue.size = 0 then .donePoll p else .unlockRes (some p)) :: rest))
    (workers : s'.workers = s.workers) (lock : s'.reslock = s.reslock) (shifted : s'.resQueue = queue)
    (pipe : s'.pipe = s.pipe) (pending : s'.npending = s.npending - 1) : ResLocked s' := by
  have entered : inside s (.thread j) = some .agreed := by rw [inside, top]; rfl
  have fewer := ReqQueue.size_shift took
  have filled : s.resQueue.size ≠ 0 := fun zero => by
    rw [ReqQueue.shift_none.mpr zero] at took
    cases took
  have counted : s.npending = BitVec.ofInt 32 s.resQueue.size →
      s'.npending = BitVec.ofInt 32 s'.resQueue.size := fun counted => by
    rw [pending, shifted, fewer, ofInt_pred, counted]
  have same : sectionAt s'.workers = sectionAt s.workers := by rw [workers]
  by_cases last : queue.size = 0
  · simp only [last, if_true] at threads
    refine locked.advance .reading entered (inside_thread threads same rfl) lock ?_ counted
    simp only [PipeHolds, shifted, pipe, last, filled]
    simp
  · simp only [last, if_false] at threads
    refine locked.advance .agreed entered (inside_thread threads same rfl) lock ?_ counted
    simp only [PipeHolds, shifted, pipe, last, filled]
    exact id

/-- The worker's push: the byte is owed exactly when the queue was empty. -/
theorem push_resLocked {s s' : State J} {w : Nat} {p : Ptr}
    (locked : ResLocked s) (found : s.workers[w]? = some (.push p))
    (workers : s'.workers =
      s.workers.set w (if s.resQueue.size = 0 then .wantPoll else .unlockRes))
    (threads : s'.threads = s.threads) (lock : s'.reslock = s.reslock)
    (size : s'.resQueue.size = s.resQueue.size + 1) (pipe : s'.pipe = s.pipe)
    (pending : s'.npending = s.npending + 1) : ResLocked s' := by
  have entered : inside s (.worker w) = some .agreed := by rw [inside, sectionAt, found]; rfl
  have counted : s.npending = BitVec.ofInt 32 s.resQueue.size →
      s'.npending = BitVec.ofInt 32 s'.resQueue.size := fun counted => by
    rw [pending, size, ofInt_succ, counted]
  have grown : s.resQueue.size + 1 ≠ 0 := by
    have := size_nonneg s.resQueue
    omega
  by_cases first : s.resQueue.size = 0
  · simp only [first, if_true] at workers
    refine locked.advance .writing entered (inside_worker found threads workers rfl) lock
      ?_ counted
    simp only [PipeHolds, size, pipe, first]
    simp
  · simp only [first, if_false] at workers
    refine locked.advance .agreed entered (inside_worker found threads workers rfl) lock
      ?_ counted
    simp only [PipeHolds, size, pipe, first, grown]
    exact id

theorem transition_resLocked {s s' : State J} {a : Action J} (stacked : ∀ j, Stacked (s.threads j))
    (locked : ResLocked s) (step : Transition s a s') : ResLocked s' := by
  have top_is : ∀ {j : J} {f : Frame} {rest : List Frame}, s.threads j = f :: rest →
      inside s (.thread j) = frameSection f := fun top => by rw [inside, top]; rfl
  have worker_is : ∀ {w : Nat} {pc : WorkerPc}, s.workers[w]? = some pc →
      inside s (.worker w) = workerSection pc := fun found => by rw [inside, sectionAt, found]; rfl
  have below : ∀ {j : J} {f : Frame} {rest : List Frame}, s.threads j = f :: rest →
      stackSection rest = none := fun top => stackSection_below (top ▸ stacked _)
  cases step with
  | submit java =>
    exact locked.outside (h := .thread _) (stackSection_java java) (inside_thread rfl rfl rfl) rfl rfl rfl rfl
  | control moved =>
    obtain ⟨before, after⟩ := control_section moved (stacked _)
    exact locked.outside (h := .thread _) before (inside_thread rfl rfl after) rfl rfl rfl rfl
  | enqueue top _ woke =>
    exact locked.outside (top_is top) (inside_thread rfl (sectionAt_signalled woke) rfl) rfl rfl rfl
      rfl
  | spawn top =>
    exact locked.outside (top_is top) (inside_thread rfl (sectionAt_spawn _) rfl) rfl rfl rfl rfl
  | wrap top => exact locked.outside (top_is top) (inside_thread rfl rfl rfl) rfl rfl rfl rfl
  | readBack top | count top =>
    exact locked.outside (top_is top) (inside_thread rfl rfl (below top)) rfl rfl rfl rfl
  | pollLock top free => exact locked.acquire free (inside_thread rfl rfl rfl) rfl rfl rfl rfl
  | shiftEmpty top => exact locked.advance .agreed (top_is top) (inside_thread rfl rfl rfl) rfl id id
  | shiftTook top took => exact shift_resLocked locked top took rfl rfl rfl rfl rfl rfl
  | donePoll top =>
    refine locked.advance .agreed (top_is top) (inside_thread rfl rfl rfl) rfl ?_ id
    rintro ⟨empty, one⟩
    simp [PipeHolds, empty, one]
  | unlockEmpty top =>
    exact locked.release (top_is top) (inside_thread rfl rfl (below top)) rfl rfl rfl rfl
  | unlockTook top => exact locked.release (top_is top) (inside_thread rfl rfl rfl) rfl rfl rfl rfl
  | decReqs top | complete top | noCallback top | upcall top | unref top | freeData top =>
    exact locked.outside (top_is top) (inside_thread rfl rfl rfl) rfl rfl rfl rfl
  | @destroy j c rest p res top =>
    have after : stackSection (if res = 0 then .poll .loop :: rest else rest) = none := by
      split
      next => rfl
      next => exact below top
    exact locked.outside (top_is top) (inside_thread rfl rfl after) rfl rfl rfl rfl
  | idling found idles =>
    obtain ⟨before, after⟩ := idling_section idles
    exact locked.outside ((worker_is found).trans before) (inside_worker found rfl rfl after) rfl rfl
      rfl rfl
  | @workerTake _ _ pc _ _ _ found shifting =>
    have before : workerSection pc = none := by cases shifting <;> rfl
    exact locked.outside ((worker_is found).trans before) (inside_worker found rfl rfl rfl) rfl rfl
      rfl rfl
  | exec found | quit found =>
    exact locked.outside (worker_is found) (inside_worker found rfl rfl rfl) rfl rfl rfl rfl
  | workerLock found free => exact locked.acquire free (inside_worker found rfl rfl rfl) rfl rfl rfl rfl
  | push found => exact push_resLocked locked found rfl rfl rfl rfl rfl rfl
  | wantPoll found =>
    refine locked.advance .agreed (worker_is found) (inside_worker found rfl rfl rfl) rfl
      ?_ id
    rintro ⟨filled, zero⟩
    simp [PipeHolds, filled, zero]
  | workerUnlock found =>
    exact locked.release (worker_is found) (inside_worker found rfl rfl rfl) rfl rfl rfl rfl

omit [DecidableEq J] in
theorem resLocked_start : ResLocked (start : State J) := by
  have out : inside (start : State J) = fun _ => none := by
    funext h
    cases h <;> rfl
  exact ⟨by rw [out]; exact exclusive_free, rfl, rfl⟩

theorem resLocked {ok : State J → Action J → Prop} {s : State J}
    (h : ReachableBy (eventLoop J) ok s) : ResLocked s :=
  invariant_of_known (fun _ => stacked) resLocked_start
    (fun _ _ _ known locked _ step => transition_resLocked known locked step) h

end WebbitAsyncio.Invariants.ResultLock
