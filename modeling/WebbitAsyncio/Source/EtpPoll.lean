import WebbitAsyncio.Source.EventLoop

/-!
# One call of `etp_poll` from its entry to its return

eio.c:506-556 with `eio_finish` (703-728) and `completion_callback`
(asyncio.c:82-96), as a function of what happens around it: which finished
requests the workers add before each time the call takes `reslock`, the value
`completion_callback` (declared `int`, without a return statement) leaves in the
return register, and the clock. The requests are AsyncIO's: no groups, so
`eio_finish` hands on the callback's value. The interleaving inside one pass of
the loop is the subject of `EventLoop`; here a pass is one step of a recursion, and
`Invariants.PollCall` shows that the frame of a call there does the same.
-/
namespace WebbitAsyncio.Source.EtpPoll
open WebbitAsyncio.Source.EventLoop
open WebbitAsyncio.Source.Reqq (numPri submitIndex)

/-- `res_queue` and the two counters that `etp_poll` decrements. -/
structure Results where
  resQueue : ReqQueue
  npending : UInt
  nreqs : UInt

/-- What surrounds the passes of the loop, by the number of the pass. -/
structure Surroundings where
  /-- The requests finished since the previous pass, in the order of their arrival. -/
  finished : Nat → List (Fin numPri × Ptr)
  /-- What `completion_callback` leaves in the return register. -/
  value : Nat → BitVec 32
  /-- `tvdiff (&tv_start, &tv_now)` at the end of the pass. -/
  elapsed : Nat → UInt

/-- `max_poll_reqs` and `max_poll_time`, as read at the entry. -/
structure Limits where
  maxReqs : UInt
  maxTime : UInt

/-- The static variables keep their initial value: AsyncIO has no operation that
calls `eio_set_max_poll_reqs` or `eio_set_max_poll_time`. -/
def asyncIoLimits : Limits := ⟨0, 0⟩

/-- How a call ends: what it returns, whose completion it invoked, whether its
last look at the result queue found it empty, and what it leaves behind. -/
structure Ended where
  returned : BitVec 32
  completed : List Ptr
  sawEmpty : Bool
  results : Results

/-- What the workers do to the results between two passes. -/
def receive (results : Results) (finished : List (Fin numPri × Ptr)) : Results :=
  { results with
    resQueue := finished.foldl (fun queue entry => queue.push entry.1 entry.2) results.resQueue
    npending := results.npending + BitVec.ofNat 32 finished.length }

/-- A request has been shifted from the queue and taken off both counters. -/
def without (results : Results) (queue : ReqQueue) : Results :=
  ⟨queue, results.npending - 1, results.nreqs - 1⟩

/-- `maxreqs && !--maxreqs`: the decremented limit, and whether to leave the loop. -/
def countDown (maxReqs : UInt) : UInt × Bool :=
  if maxReqs = 0 then (0, false) else (maxReqs - 1, maxReqs - 1 = 0)

/-- `maxtime` is tested, then compared with the time elapsed. -/
def overTime (maxTime elapsed : UInt) : Bool := maxTime ≠ 0 ∧ maxTime ≤ elapsed

/-- The loop of `etp_poll` from pass `pass` on; `none` when `fuel` runs out. -/
def etpPoll (around : Surroundings) (maxTime : UInt) : Nat → Nat → UInt → Results → Option Ended
  | 0, _, _, _ => none
  | fuel + 1, pass, maxReqs, before =>
    let results := receive before (around.finished pass)
    match results.resQueue.shift with
    | none => some ⟨0, [], true, results⟩
    | some (req, queue) =>
      let results := without results queue
      let res := around.value pass
      let (maxReqs, last) := countDown maxReqs
      if res ≠ 0 then some ⟨res, [req], false, results⟩
      else if last ∨ overTime maxTime (around.elapsed pass) then some ⟨-1, [req], false, results⟩
      else (etpPoll around maxTime fuel (pass + 1) maxReqs results).map fun ended =>
        { ended with completed := req :: ended.completed }

/-- `AsyncIO.poll()`. -/
def poll (around : Surroundings) (fuel : Nat) (results : Results) : Option Ended :=
  etpPoll around asyncIoLimits.maxTime fuel 0 asyncIoLimits.maxReqs results

/-- One pass without limits. -/
theorem etpPoll_pass (around : Surroundings) (fuel pass : Nat) (before : Results) :
    etpPoll around 0 (fuel + 1) pass 0 before =
      match (receive before (around.finished pass)).resQueue.shift with
      | none => some ⟨0, [], true, receive before (around.finished pass)⟩
      | some (req, queue) =>
        let results := without (receive before (around.finished pass)) queue
        if around.value pass ≠ 0 then some ⟨around.value pass, [req], false, results⟩
        else (etpPoll around 0 fuel (pass + 1) 0 results).map fun ended =>
          { ended with completed := req :: ended.completed } := by
  rw [etpPoll]
  simp only [countDown, overTime, if_true, ne_eq, not_true_eq_false, false_and, decide_false,
    Bool.false_eq_true, or_self, if_false]

theorem shift_none_nil {q : ReqQueue} (empty : q.shift = none) : q.toList = [] := by
  have zero := ReqQueue.shift_none.mp empty
  rw [q.size_eq_length] at zero
  exact List.eq_nil_of_length_eq_zero (by omega)

theorem receive_queue_perm (before : Results) (finished : List (Fin numPri × Ptr)) :
    (receive before finished).resQueue.toList.Perm
      (before.resQueue.toList ++ finished.map (·.2)) := by
  simp only [receive]
  induction finished generalizing before with
  | nil => simp
  | cons entry rest ih =>
    have pushed : (before.resQueue.push entry.1 entry.2).toList.Perm
        (entry.2 :: before.resQueue.toList) := Lib.Buckets.toList_push_perm ..
    have tail := ih { before with resQueue := before.resQueue.push entry.1 entry.2 }
    rw [List.foldl_cons, List.map_cons]
    exact (tail.trans (pushed.append_right _)).trans List.perm_middle.symm

/-- Two finished requests of equal priority. -/
def twoFinished : Results :=
  ⟨(ReqQueue.empty.push (submitIndex 0) ⟨16, 0⟩).push (submitIndex 0) ⟨32, 1⟩, 2, 2⟩

end WebbitAsyncio.Source.EtpPoll
