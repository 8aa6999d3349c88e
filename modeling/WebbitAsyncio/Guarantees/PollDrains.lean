import WebbitAsyncio.Source.EtpPoll

/-!
# When `poll()` processes the whole queue

`etp_poll` leaves its loop with the first non-zero value that `eio_finish` hands
on, and `completion_callback` hands back whatever is in the return register. For
every queue, every growth of it while the loop runs and all values handed back,
`HandsBackZero` is exactly when the call returns 0 with the queue seen empty and
every finished request completed once.
-/
namespace WebbitAsyncio.Guarantees.PollDrains
open WebbitAsyncio.Source.EventLoop WebbitAsyncio.Source.EtpPoll
open WebbitAsyncio.Source.Reqq (numPri)

/-- The requests that the workers finish before pass `pass + n` of the loop. -/
def arrived (around : Surroundings) (pass : Nat) : Nat → List Ptr
  | 0 => (around.finished pass).map (·.2)
  | n + 1 => (around.finished pass).map (·.2) ++ arrived around (pass + 1) n

/-- In the call that begins with pass `pass`, the results have stopped arriving
after `n` passes: as many requests were there or arrived as passes were made. Up to
then 0 is handed back every time. -/
def HandsBackZero (around : Surroundings) (pass : Nat) (results : Results) : Prop :=
  ∃ n, results.resQueue.toList.length + (arrived around pass n).length = n ∧
    ∀ i, i < n → around.value (pass + i) = 0

/-- The call returns 0, has seen the queue empty, and has invoked the completion
of every request that was in the queue or came into it, of each once. -/
structure ProcessesAll (around : Surroundings) (pass : Nat) (results : Results)
    (ended : Ended) : Prop where
  returned : ended.returned = 0
  sawEmpty : ended.sawEmpty = true
  completed : ended.completed.Perm
    (results.resQueue.toList ++ arrived around pass ended.completed.length)

section
variable {around : Surroundings} {pass : Nat} {before : Results}

theorem receive_length (before : Results) (finished : List (Fin numPri × Ptr)) :
    (receive before finished).resQueue.toList.length =
      before.resQueue.toList.length + finished.length := by
  rw [(receive_queue_perm before finished).length_eq, List.length_append, List.length_map]

theorem drained_empty {fuel : Nat}
    (empty : (receive before (around.finished pass)).resQueue.shift = none) :
    ∃ ended, etpPoll around 0 (fuel + 1) pass 0 before = some ended ∧
      ProcessesAll around pass before ended := by
  refine ⟨_, by rw [etpPoll_pass, empty], rfl, rfl, ?_⟩
  have nothing := receive_queue_perm before (around.finished pass)
  rw [shift_none_nil empty] at nothing
  exact nothing

/-- One more pass in front of a call that processes the rest. -/
theorem ProcessesAll.cons {req : Ptr} {queue : ReqQueue} {ended : Ended}
    (shifted : (receive before (around.finished pass)).resQueue.shift = some (req, queue))
    (all : ProcessesAll around (pass + 1)
      (without (receive before (around.finished pass)) queue) ended) :
    ProcessesAll around pass before { ended with completed := req :: ended.completed } := by
  refine ⟨all.returned, all.sawEmpty, ?_⟩
  have here := receive_queue_perm before (around.finished pass)
  rw [ReqQueue.shift_toList shifted] at here
  have more := (all.completed.cons req).trans (here.append_right _)
  rw [List.append_assoc] at more
  exact more

/-- With nothing but zeros handed back until the results stop arriving, a
sufficient number of passes drains the queue. -/
theorem drained_of_zeros (n : Nat) (pass : Nat) (before : Results)
    (balance : before.resQueue.toList.length + (arrived around pass n).length = n)
    (zeros : ∀ i, i < n → around.value (pass + i) = 0) :
    ∃ fuel ended, etpPoll around 0 fuel pass 0 before = some ended ∧
      ProcessesAll around pass before ended := by
  induction n generalizing pass before with
  | zero =>
    have empty : (receive before (around.finished pass)).resQueue.shift = none := by
      rw [ReqQueue.shift_none, ReqQueue.size_eq_length, receive_length]
      simp only [arrived, List.length_map] at balance
      omega
    exact ⟨1, drained_empty empty⟩
  | succ n ih =>
    cases shifted : (receive before (around.finished pass)).resQueue.shift with
    | none => exact ⟨1, drained_empty shifted⟩
    | some taken =>
      obtain ⟨req, queue⟩ := taken
      have length := receive_length before (around.finished pass)
      rw [ReqQueue.shift_toList shifted, List.length_cons] at length
      have later := ih (pass + 1) (without (receive before (around.finished pass)) queue)
        (by simp only [arrived, List.length_append, List.length_map, without] at balance ⊢; omega)
        (fun i bound => by rw [Nat.add_right_comm]; exact zeros (i + 1) (by omega))
      obtain ⟨fuel, ended, ran, all⟩ := later
      refine ⟨fuel + 1, { ended with completed := req :: ended.completed }, ?_, all.cons shifted⟩
      have zero : around.value pass = 0 := zeros 0 (by omega)
      simp only [etpPoll_pass, shifted, zero, ne_eq, not_true_eq_false, if_false, ran, Option.map_some]

/-- A call that returns 0 was handed 0 in every pass. -/
theorem zeros_of_returned (fuel : Nat) (pass : Nat) (before : Results) (ended : Ended)
    (ran : etpPoll around 0 fuel pass 0 before = some ended) (returned : ended.returned = 0) :
    HandsBackZero around pass before := by
  induction fuel generalizing pass before ended with
  | zero => cases ran
  | succ fuel ih =>
    have length := receive_length before (around.finished pass)
    rw [etpPoll_pass] at ran
    split at ran
    next empty =>
      rw [shift_none_nil empty, List.length_nil] at length
      refine ⟨0, ?_, fun i bound => by omega⟩
      simp only [arrived, List.length_map]
      omega
    next req queue shifted =>
      rw [ReqQueue.shift_toList shifted, List.length_cons] at length
      dsimp only at ran
      split at ran
      next handed =>
        obtain rfl := Option.some.inj ran
        exact absurd returned handed
      next zero =>
        obtain ⟨later, ranLater, rfl⟩ := Option.map_eq_some_iff.mp ran
        obtain ⟨n, balance, zeros⟩ := ih (pass + 1) _ later ranLater returned
        refine ⟨n + 1, ?_, fun i bound => ?_⟩
        · simp only [arrived, List.length_append, List.length_map, without] at balance ⊢
          omega
        · cases i with
          | zero => exact not_not.mp zero
          | succ i =>
            have next := zeros i (by omega)
            rwa [Nat.add_right_comm] at next

end

/-- `poll()` ends and processes everything, if and only if 0 is handed back each
time until the results stop arriving. -/
theorem poll_processes_all_iff (around : Surroundings) (results : Results) :
    (∃ fuel ended, poll around fuel results = some ended ∧ ProcessesAll around 0 results ended) ↔
      HandsBackZero around 0 results := by
  constructor
  · rintro ⟨fuel, ended, ran, all⟩
    exact zeros_of_returned fuel 0 results ended ran all.returned
  · rintro ⟨n, balance, zeros⟩
    exact drained_of_zeros n 0 results balance zeros

/-- Nothing arrives, and the first completion leaves 1 in the register. -/
def leftOver : Surroundings where
  finished := fun _ => []
  value := fun pass => if pass = 0 then 1 else 0
  elapsed := fun _ => 0

/-- Of two finished requests, the call leaves the second in the queue, and returns 1. -/
theorem poll_stops_midway :
    ¬ ∀ around results, ∃ fuel ended, poll around fuel results = some ended ∧
      ProcessesAll around 0 results ended := by
  intro all
  obtain ⟨fuel, ended, ran, processed⟩ := all leftOver twoFinished
  cases fuel with
  | zero => cases ran
  | succ fuel =>
    have stopped : (poll leftOver (fuel + 1) twoFinished).map (·.returned) = some 1 := rfl
    rw [ran, Option.map_some, processed.returned] at stopped
    cases stopped

end WebbitAsyncio.Guarantees.PollDrains
