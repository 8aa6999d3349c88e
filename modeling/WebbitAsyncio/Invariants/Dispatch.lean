import WebbitAsyncio.Invariants.SubmitShapes

/-!
# Which system call a submission becomes

The request that a submit operation has put in the queue, executed in the memory that
the operation leaves: its buffers are released by then.
-/
namespace WebbitAsyncio.Invariants.Dispatch
open WebbitAsyncio.Lib
open WebbitAsyncio.Lib.Utf16 (Byte modifiedUtf8)
open WebbitAsyncio.Source.Reqq (JInt)
open WebbitAsyncio.Source.EventLoop (Obj Ref)
open WebbitAsyncio.Source.EioRequest WebbitAsyncio.Source.JniSubmit WebbitAsyncio.Source.JavaApi
open WebbitAsyncio.Invariants.Submission WebbitAsyncio.Invariants.SubmitShapes

/-- Between `w` and `w'` the request `r` at `req` has entered the queue. -/
structure Submits (w w' : World) (req : Pointer) (r : EioReq) : Prop where
  queue : ∃ i, w'.reqQueue = w.reqQueue.push i req
  block : w'.heap req = some (.req r)

/-- The call submits a request. -/
def SubmitsOne (w : World) (run : Option (Option Ref × World)) : Prop :=
  ∃ result w' req r, run = some (result, w') ∧ Submits w w' req r

/-- Every request that the call submits is executed as `call`. -/
def Becomes {abi : Abi} (buffer : Pointer) (w : World) (run : Option (Option Ref × World))
    (call : Option (SysCall abi)) : Prop :=
  ∀ result w' req r, run = some (result, w') → Submits w w' req r →
    eioExecute (cString w'.heap) buffer r = call

section
variable {abi : Abi} {ctx : Context} {callback : Option Obj} {w : World}
  {paths : List (Option JString)} {content : EioReq → (Pointer → Option (List Byte)) → Prop}
  {run : Option (Option Ref × World)} {buffer : Pointer} {call : Option (SysCall abi)}

theorem submits_one (outcome : Outcome ctx callback w paths content run)
    (granted : Granted ctx paths) : SubmitsOne w run := by
  cases outcome with
  | undefined missing => exact absurd granted missing
  | refused missing => exact absurd granted missing
  | queued _ _ _ queued => exact ⟨_, _, _, _, rfl, queued.queue, queued.block⟩

/-- What was submitted has the contents of a queued request. -/
theorem content_of_submits {result : Option Ref} {w' : World} {req : Pointer} {r : EioReq}
    (outcome : Outcome ctx callback w paths content run) (ran : run = some (result, w'))
    (submits : Submits w w' req r) : Granted ctx paths ∧ content r (cString w'.heap) := by
  obtain ⟨⟨i, pushed⟩, there⟩ := submits
  cases outcome with
  | undefined => cases ran
  | refused _ _ _ declined =>
    cases ran
    exact absurd (pushed.symm.trans declined.reqQueue) (Buckets.push_ne _ _ _)
  | queued granted _ _ queued _ holds =>
    cases ran
    obtain ⟨j, own⟩ := queued.queue
    have same := Buckets.push_inj (own.symm.trans pushed)
    subst same
    have block := queued.block.symm.trans there
    simp only [Option.some.injEq, Block.req.injEq] at block
    subst block
    exact ⟨granted, holds⟩

/-- What the contents of the request determine. -/
theorem becomes (outcome : Outcome ctx callback w paths content run)
    (executes : ∀ r str, content r str → eioExecute str buffer r = call) :
    Becomes buffer w run call := by
  intro result w' req r ran submits
  exact executes r _ (content_of_submits outcome ran submits).2

/-- One call submits one thing. -/
theorem Becomes.unique {call' : Option (SysCall abi)} (becomes : Becomes buffer w run call)
    (becomes' : Becomes buffer w run call') (submits : SubmitsOne w run) : call = call' := by
  obtain ⟨result, w', req, r, ran, one⟩ := submits
  exact (becomes result w' req r ran one).symm.trans (becomes' result w' req r ran one)

end

section
variable {abi : Abi} {ctx : Context} {callback : Option Obj} {w : World} {type : EioType}
  {fill : EioReq → EioReq} {buffer : Pointer} {call : Option (SysCall abi)}

theorem plain_becomes (pri : JInt) (fills : Fills fill) (fresh : FreshMemory ctx (sites []) w)
    (refs : FreshRefs ctx w)
    (executes : ∀ data str, eioExecute str buffer (clamped (fill (newReq type pri data))) = call) :
    Becomes buffer w (plain ctx callback (eioRequest ctx type fill pri) w) call := by
  apply becomes (plain_outcome pri fills fresh refs)
  rintro r str ⟨data, rfl⟩
  exact executes data str

theorem onPath_becomes (path : Option JString) (pri : JInt) (fills : Fills fill)
    (fresh : FreshMemory ctx (sites [path]) w) (refs : FreshRefs ctx w)
    (executes : ∀ s data ptr1 str, path = some s → str ptr1 = some (modifiedUtf8 s.units) →
      eioExecute str buffer (clamped (fill (pathReq type pri data ptr1))) = call) :
    Becomes buffer w
      (onPath ctx path callback (fun chars => eioPathRequest ctx type chars fill pri) w) call := by
  apply becomes (onPath_outcome path pri fills fresh refs)
  rintro r str ⟨s, data, ptr1, isPath, rfl, text⟩
  exact executes s data ptr1 str isPath text

theorem onTwoPaths_becomes (path newPath : Option JString) (pri : JInt)
    (fresh : FreshMemory ctx (sites [path, newPath]) w) (refs : FreshRefs ctx w)
    (executes : ∀ s data ptr1 ptr2 str, path = some s → str ptr1 = some (modifiedUtf8 s.units) →
      str ptr2 = some (modifiedUtf8 s.units) →
      eioExecute str buffer
        (clamped { pathReq type pri data ptr1 with ptr2 := ptr2, ptr2Free := true }) = call) :
    Becomes buffer w (onTwoPaths ctx path newPath callback
      (fun chars newChars => eio2path ctx type chars newChars pri) w) call := by
  apply becomes (onTwoPaths_outcome path newPath pri fresh refs)
  rintro r str ⟨s, data, ptr1, ptr2, isPath, rfl, text, newText⟩
  exact executes s data ptr1 ptr2 str isPath text newText

end

end WebbitAsyncio.Invariants.Dispatch
