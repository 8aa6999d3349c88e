import WebbitAsyncio.Source.EventLoop

/-!
# `fork()`

`etp_atfork_prepare` takes every lock of the library before the process is copied, and
the copy runs `etp_atfork_child` (eio.c:383-430). Only the thread that called `fork()`
exists in the child; the workers do not, but what they were executing is still noted in
`wrk->req`.
-/
namespace WebbitAsyncio.Source.EventLoop
open WebbitAsyncio.Lib.TransitionSystem

variable {J : Type}

/-- `ETP_DESTROY`; to destroy what is not allocated is undefined. -/
def etpDestroy (s : State J) (p : Ptr) : Option (State J) :=
  (s.reqAt p.addr).map fun _ => (s.setBlock p.addr none).move p.id .gone

/-- `while ((prv = reqq_shift (&q))) ETP_DESTROY (prv);` -/
def drain (queue : ReqQueue) (s : State J) : Option (ReqQueue × State J) :=
  match _taken : queue.shift with
  | none => some (queue, s)
  | some (p, left) => (etpDestroy s p).bind fun s => drain left s
termination_by queue.toList.length
decreasing_by
  rw [ReqQueue.shift_toList _taken]
  exact Nat.lt_succ_self _

/-- `wrk->req`. In the rest of the section under `reslock` it is still set, but then the
lock is not free. -/
def WorkerPc.req : WorkerPc → Option Ptr
  | .exec p | .lockRes p | .push p => some p
  | _ => none

/-- The loop over the ring of workers, which begins with the one started last. -/
def clearWorkers : List WorkerPc → State J → Option (State J)
  | [], s => some s
  | wrk :: rest, s =>
    match wrk.req with
    | none => clearWorkers rest s
    | some p => (etpDestroy s p).bind fun s => clearWorkers rest s

def etpAtforkChild (s : State J) : Option (State J) :=
  (drain s.reqQueue s).bind fun (reqs, s) =>
  (drain s.resQueue s).bind fun (ress, s) =>
  (clearWorkers s.workers.reverse s).map fun s =>
    { s with
      reqQueue := reqs
      resQueue := ress
      workers := []
      started := 0
      idle := 0
      nreqs := 0
      nready := 0
      npending := 0
      reslock := none }

variable [DecidableEq J]

/-- The copy of the process, with the one thread that called `fork()`. -/
def copied (s : State J) (j : J) : State J :=
  { s with threads := Function.update (fun _ => []) j (s.threads j) }

/-- The child of a process whose thread `j` called `fork()` from Java code. -/
def forkChild (s : State J) (j : J) : Option (State J) :=
  if s.reslock = none ∧ inJava (s.threads j) then etpAtforkChild (copied s j) else none

/-- The library across calls of `fork()`, with one Java thread: the label `none` follows
the child. -/
def forking : Machine (State Unit) (Option (Action Unit)) where
  init := start
  step := fun s a =>
    match a with
    | none => forkChild s ()
    | some a => step s a

end WebbitAsyncio.Source.EventLoop
