import WebbitAsyncio.Invariants.SubmitShapes

/-!
# What a failed submission leaves behind

A submit operation of asyncio.c:104-359 should either hand out the wrapper of a queued
request or report a failure and leave everything as it was. No function of the layer
looks at what its allocations returned, and none frees the `java_data`, so the
operation is clean exactly when none of them fails (`clean_iff`).
-/
namespace WebbitAsyncio.Guarantees.FailedSubmission
open WebbitAsyncio.Source.EventLoop (Obj Ref)
open WebbitAsyncio.Source.EioRequest WebbitAsyncio.Source.JniSubmit WebbitAsyncio.Source.JavaApi
open WebbitAsyncio.Invariants.Submission WebbitAsyncio.Invariants.SubmitShapes

/-- The handle `ref` is that of the wrapper `n` of the queued request `r` at `req`,
and its completion passes `ref` to the callback. -/
structure Accepted (callback : Option Obj) (w w' : World) (ref : Ref) (n : Nat) (req : Pointer)
    (r : EioReq) (d : JavaData) : Prop where
  wrapper : w'.refs ref = some (.wrapper n)
  address : w'.wrappers n = some req
  queued : Queued w req r w'
  block : w'.heap r.data = some (.data d)
  javaRequest : d.javaRequest = some ref
  javaCallback : ∀ obj, callback = some obj → ∃ c, d.javaCallback = some c ∧ w'.refs c = some obj

def Submitted (callback : Option Obj) (w : World) (result : Option Ref) (w' : World) : Prop :=
  ∃ ref n req r d, result = some ref ∧ Accepted callback w w' ref n req r d

/-- A failure is reported and the state is that before the call. -/
structure NoTrace (w : World) (result : Option Ref) (w' : World) : Prop where
  result : result = none
  nreqs : w'.nreqs = w.nreqs
  reqQueue : w'.reqQueue = w.reqQueue
  heap : w'.heap = w.heap
  refs : w'.refs = w.refs

/-- Undefined behaviour is neither. -/
def Clean (callback : Option Obj) (w : World) : Option (Option Ref × World) → Prop
  | none => False
  | some (result, w') => Submitted callback w result w' ∨ NoTrace w result w'

/-- No path is null and no allocation fails. -/
structure AllSucceed (ctx : Context) (paths : List (Option JString)) (callback : Option Obj) : Prop
    extends Granted ctx paths where
  callbackRef : callback ≠ none → ctx.ref .callback ≠ none
  wrapper : ctx.wrapper ≠ none
  requestRef : ctx.ref .request ≠ none

section
variable {ctx : Context} {callback : Option Obj} {data req : Pointer} {w w' : World} {r : EioReq}
  {paths : List (Option JString)}

/-- With every allocation granted, the request is accepted. -/
theorem submitted (ending : Ending ctx callback data req w') (queued : Queued w req r w')
    (own : r.data = data) (all : AllSucceed ctx paths callback) :
    Submitted callback w (returned ctx) w' := by
  obtain ⟨n, made⟩ := Option.ne_none_iff_exists'.mp all.wrapper
  obtain ⟨ref, answered⟩ := Option.ne_none_iff_exists'.mp all.requestRef
  have wrapper : wrapperOf ctx = some (.wrapper n) := by simp only [wrapperOf, made, Option.map_some]
  have result : returned ctx = some ref := by
    simp only [returned, handleOf, wrapper, answered, Option.bind_some]
  refine ⟨ref, n, req, r, dataOf ctx callback (returned ctx), result, ?_⟩
  refine ⟨(ending.requestRef ref result).trans wrapper, ending.address n made, queued, ?_, result, ?_⟩
  · rw [own, ending.block]
  · intro obj isObj
    subst isObj
    obtain ⟨c, got⟩ := Option.ne_none_iff_exists'.mp (all.callbackRef (by simp))
    have handle : handleOf (ctx.ref .callback) (some obj) = some c := got
    exact ⟨c, handle, ending.callbackRef c handle⟩

/-- The `java_data` stays behind in any case. -/
theorem trace (ending : Ending ctx callback data req w') (absent : w.heap data = none)
    (result : Option Ref) : ¬ NoTrace w result w' := by
  intro clean
  have block := ending.block
  rw [clean.heap, absent] at block
  cases block

/-- A refused request is not in the queue. -/
theorem not_submitted_of_refused (nreqs : w'.nreqs = w.nreqs) (result : Option Ref) :
    ¬ Submitted callback w result w' := by
  rintro ⟨ref, n, req, r, d, _, accepted⟩
  have counted := accepted.queued.nreqs
  rw [nreqs] at counted
  bv_omega

/-- An accepted request got all its handles. -/
theorem refs_of_submitted (ending : Ending ctx callback data req w') (queued : Queued w req r w')
    (own : r.data = data) (done : Submitted callback w (returned ctx) w') :
    ctx.wrapper ≠ none ∧ ctx.ref .request ≠ none ∧ (callback ≠ none → ctx.ref .callback ≠ none) := by
  obtain ⟨ref, n, req', r', d, result, accepted⟩ := done
  cases made : ctx.wrapper with
  | none =>
    simp only [returned, handleOf, wrapperOf, made, Option.map_none, Option.bind_none] at result
    cases result
  | some m =>
    have wrapper : wrapperOf ctx = some (.wrapper m) := by
      simp only [wrapperOf, made, Option.map_some]
    have answered : ctx.ref .request = some ref := by
      simpa only [returned, handleOf, wrapper, Option.bind_some] using result
    have sameWrapper : n = m := by
      have both := accepted.wrapper.symm.trans ((ending.requestRef ref result).trans wrapper)
      simpa using both
    subst sameWrapper
    have sameReq : req' = req := by
      have both := accepted.address.symm.trans (ending.address n made)
      simpa using both
    subst sameReq
    have sameBlock : r' = r := by
      have both := accepted.queued.block.symm.trans queued.block
      simpa using both
    subst sameBlock
    have sameData : d = dataOf ctx callback (returned ctx) := by
      have both := accepted.block.symm.trans ((congrArg w'.heap own).trans ending.block)
      simpa using both
    refine ⟨by simp, by simp [answered], fun isObj => ?_⟩
    obtain ⟨obj, some_⟩ := Option.ne_none_iff_exists'.mp isObj
    obtain ⟨c, handle, _⟩ := accepted.javaCallback obj some_
    rw [sameData, dataOf, some_] at handle
    have got : ctx.ref .callback = some c := handle
    simp [got]

end

/-- A call of a submit operation is clean exactly when nothing it asks for is
refused. -/
theorem clean_iff (abi : Abi) (function : Native) (args : Args (cParams function)) (ctx : Context)
    (w : World) (fresh : FreshMemory ctx (sites (strings _ args)) w) (refs : FreshRefs ctx w) :
    Clean (callbackOf _ args) w (cBody abi ctx function args w) ↔
      AllSucceed ctx (strings _ args) (callbackOf _ args) := by
  have outcome := cBody_outcome abi function args fresh refs
  generalize strings _ args = paths at outcome fresh ⊢
  generalize callbackOf _ args = callback at outcome ⊢
  generalize cBody abi ctx function args w = run at outcome ⊢
  cases outcome with
  | undefined missing =>
    constructor
    · exact False.elim
    · exact fun all => missing all.toGranted
  | refused missing absent ending declined =>
    constructor
    · rintro (done | nothing)
      · exact absurd done (not_submitted_of_refused declined.nreqs _)
      · exact absurd nothing (trace ending absent _)
    · exact fun all => absurd all.toGranted missing
  | queued granted absent ending queued own _ =>
    constructor
    · rintro (done | nothing)
      · obtain ⟨wrapper, request, callback⟩ := refs_of_submitted ending queued own done
        exact ⟨granted, callback, wrapper, request⟩
      · exact absurd nothing (trace ending absent _)
    · exact fun all => .inl (submitted ending queued own all)

/-- `open` with everything granted. -/
theorem clean_open : Clean (some (.callback 0)) blank
    (cBody lp64 granting .open_ (some ⟨0, [0x61]⟩, 0, 0, 0, some (.callback 0), ()) blank) := by
  apply (clean_iff lp64 .open_ (some ⟨0, [0x61]⟩, 0, 0, 0, some (.callback 0), ()) granting blank
    (granting_fresh _) granting_refs).mpr
  refine ⟨⟨?_, ?_⟩, ?_, ?_, ?_⟩
  · simp [strings]
  · simp [granting]
  · simp [granting]
  · simp [granting]
  · simp [granting]

/-- libeio gets no memory for the request. -/
def starved : Context :=
  { granting with memory := fun site => if site = .req then none else granting.memory site }

/-- `nop` then returns a wrapper of the null pointer. -/
theorem nop_wraps_null :
    ∃ w', cBody lp64 starved .nop (0, some (.callback 0), ()) blank = some (some 2, w') ∧
      w'.refs 2 = some (.wrapper 0) ∧ w'.wrappers 0 = some 0 ∧
      ¬ Clean (some (.callback 0)) blank (some (some 2, w')) := by
  have refs : FreshRefs starved blank := ⟨granting_refs.vacant, granting_refs.distinct⟩
  have calls : ∃ w', plain starved (some (.callback 0)) (eioNop starved 0) blank =
      some (returned starved, w') ∧ Ending starved (some (.callback 0)) 16 0 w' ∧ Declined blank w' :=
    plain_refused .nop 0 refs rfl rfl
  obtain ⟨w', ran, ending, declined⟩ := calls
  refine ⟨w', ran, ending.requestRef 2 rfl, ending.address 0 rfl, ?_⟩
  rintro (done | nothing)
  · exact not_submitted_of_refused declined.nreqs _ done
  · cases nothing.result

end WebbitAsyncio.Guarantees.FailedSubmission
