import WebbitAsyncio.Source.EtpPoll

/-!
# `completion_callback` and the exceptions of callbacks

The upcalls of asyncio.c:82-96 and the `JNIEnv` they go through, over the loop of
`etp_poll` (eio.c:520-556), pass by pass. A callback that throws leaves its exception
pending in the `JNIEnv`, and nothing in asyncio.c asks for it or clears it. The requests
were submitted by the thread that polls, whose `JNIEnv` their `java_data` hold. The two
`DeleteGlobalRef` are permitted at any time and throw nothing; they are left out.
-/
namespace WebbitAsyncio.Source.CompletionCallback
open WebbitAsyncio.Source.EventLoop WebbitAsyncio.Source.EtpPoll

/-- What `java_callback` of a request is, and what `complete` does there. -/
inductive Callback where
  | null
  | returns
  | throws
  deriving DecidableEq, Repr

/-- One `CallObjectMethod`, and whether an exception was pending when it was made. -/
structure Upcall where
  request : Ptr
  pending : Bool
  deriving DecidableEq, Repr

structure JniEnv where
  pending : Bool
  upcalls : List Upcall
  deriving DecidableEq, Repr

def callObjectMethod (env : JniEnv) (req : Ptr) (throws : Bool) : JniEnv :=
  ⟨env.pending || throws, env.upcalls ++ [⟨req, env.pending⟩]⟩

def completionCallback (callback : Ptr → Callback) (env : JniEnv) (req : Ptr) : JniEnv :=
  match callback req with
  | .null => env
  | .returns => callObjectMethod env req false
  | .throws => callObjectMethod env req true

/-- A call of `poll()`, after `pass` passes of the loop. -/
structure Polling where
  pass : Nat
  returned : Option (BitVec 32)
  completed : List Ptr
  results : Results
  env : JniEnv

/-- Java code calls `poll()`; no exception is pending in Java code. -/
def enter (results : Results) : Polling := ⟨0, none, [], results, ⟨false, []⟩⟩

/-- The next pass of a call that has not returned; AsyncIO sets no limits. -/
def onePass (around : Surroundings) (callback : Ptr → Callback) (call : Polling) : Polling :=
  match call.returned with
  | some _ => call
  | none =>
    let results := receive call.results (around.finished call.pass)
    match results.resQueue.shift with
    | none => { call with returned := some 0, results := results }
    | some (req, queue) =>
      let env := completionCallback callback call.env req
      let res := around.value call.pass
      { pass := call.pass + 1
        returned := if res ≠ 0 then some res else none
        completed := call.completed ++ [req]
        results := without results queue
        env := env }

def passes (around : Surroundings) (callback : Ptr → Callback) : Nat → Polling → Polling
  | 0, call => call
  | n + 1, call => passes around callback n (onePass around callback call)

/-! ### The passes and `etp_poll` -/

section
variable (around : Surroundings) (callback : Ptr → Callback) {call : Polling}

theorem onePass_empty (running : call.returned = none)
    (empty : (receive call.results (around.finished call.pass)).resQueue.shift = none) :
    onePass around callback call =
      { call with returned := some 0, results := receive call.results (around.finished call.pass) } := by
  simp only [onePass, running, empty]

/-- A call that has completed one more request. -/
def completing (around : Surroundings) (callback : Ptr → Callback) (call : Polling) (req : Ptr)
    (queue : ReqQueue) (returned : Option (BitVec 32)) : Polling where
  pass := call.pass + 1
  returned := returned
  completed := call.completed ++ [req]
  results := without (receive call.results (around.finished call.pass)) queue
  env := completionCallback callback call.env req

theorem onePass_took {req : Ptr} {queue : ReqQueue} (running : call.returned = none)
    (took : (receive call.results (around.finished call.pass)).resQueue.shift = some (req, queue)) :
    onePass around callback call = completing around callback call req queue
      (if around.value call.pass ≠ 0 then some (around.value call.pass) else none) := by
  simp only [onePass, running, took, completing]

/-- Nothing happens in a call that has returned. -/
theorem passes_returned (value : BitVec 32) (returned : call.returned = some value) (n : Nat) :
    passes around callback n call = call := by
  induction n with
  | zero => rfl
  | succ n ih =>
    have same : onePass around callback call = call := by simp only [onePass, returned]
    rw [passes, same, ih]

/-- What the passes return, complete and leave behind is what `etp_poll` does. -/
theorem passes_etpPoll (n : Nat) (call : Polling) (running : call.returned = none) :
    (passes around callback n call).returned =
        (etpPoll around 0 n call.pass 0 call.results).map (·.returned) ∧
      ∀ ended, etpPoll around 0 n call.pass 0 call.results = some ended →
        (passes around callback n call).completed = call.completed ++ ended.completed ∧
          (passes around callback n call).results = ended.results := by
  induction n generalizing call with
  | zero => exact ⟨running, fun ended ran => by cases ran⟩
  | succ n ih =>
    rw [passes, etpPoll_pass]
    cases taken : (receive call.results (around.finished call.pass)).resQueue.shift with
    | none =>
      rw [onePass_empty _ _ running taken, passes_returned _ _ 0 rfl]
      refine ⟨rfl, fun ended ran => ?_⟩
      cases ran
      exact ⟨(List.append_nil _).symm, rfl⟩
    | some entry =>
      obtain ⟨req, queue⟩ := entry
      rw [onePass_took _ _ running taken]
      by_cases nonzero : around.value call.pass ≠ 0
      · rw [if_pos nonzero]
        simp only [if_pos nonzero]
        rw [passes_returned _ _ (around.value call.pass) rfl]
        refine ⟨rfl, fun ended ran => ?_⟩
        cases ran
        exact ⟨rfl, rfl⟩
      · rw [if_neg nonzero]
        simp only [if_neg nonzero]
        obtain ⟨returned, same⟩ := ih (completing around callback call req queue none) rfl
        refine ⟨?_, fun ended ran => ?_⟩
        · rw [returned, Option.map_map]
          rfl
        · obtain ⟨later, ranLater, rfl⟩ := Option.map_eq_some_iff.mp ran
          obtain ⟨completed, results⟩ := same later ranLater
          rw [completed, results]
          exact ⟨List.append_assoc .., rfl⟩

end

end WebbitAsyncio.Source.CompletionCallback
