import WebbitAsyncio.Invariants.Submission

/-!
# How the calls of a submit operation end

A call of one of the three bodies either runs into undefined behaviour or returns
what `wrap_request` returned, with its `java_data` in place; whether a request is in
the queue then depends on the memory libeio got.
-/
namespace WebbitAsyncio.Invariants.SubmitShapes
open WebbitAsyncio.Lib.Utf16 WebbitAsyncio.Lib.Allocation
open WebbitAsyncio.Source.Reqq (JInt)
open WebbitAsyncio.Source.EventLoop (Obj Ref)
open WebbitAsyncio.Source.EioRequest WebbitAsyncio.Source.JniSubmit WebbitAsyncio.Source.JavaApi
open WebbitAsyncio.Invariants.Submission

/-! ### The three bodies -/

/-- What every call that returns has done: its `java_data`, the handles in it and the
address in the wrapper. -/
structure Ending (ctx : Context) (callback : Option Obj) (data req : Pointer) (w' : World) : Prop where
  block : w'.heap data = some (.data (dataOf ctx callback (returned ctx)))
  callbackRef : ∀ r, handleOf (ctx.ref .callback) callback = some r → w'.refs r = callback
  requestRef : ∀ r, returned ctx = some r → w'.refs r = wrapperOf ctx
  address : ∀ n, ctx.wrapper = some n → w'.wrappers n = some req

section
variable {ctx : Context} {callback : Option Obj} {data req : Pointer} {w w' : World} {r : EioReq}

theorem prepared_block (ctx : Context) (callback : Option Obj) (data : Pointer) (w : World) :
    (prepared ctx callback data w).heap data = some (.data (dataOf ctx callback none)) :=
  Function.update_self ..

theorem wrapped_other {a : Pointer} (callback : Option Obj) (req : Pointer) (w : World)
    (different : a ≠ data) : (wrapped ctx callback data req w).heap a = w.heap a :=
  Function.update_of_ne different ..

theorem wrapped_ending (distinct : ∀ r, ctx.ref .callback = some r → ctx.ref .request ≠ some r)
    (refs : w'.refs = (prepared ctx callback data w).refs) :
    Ending ctx callback data req (wrapped ctx callback data req w') := by
  refine ⟨Function.update_self .., ?_, ?_, ?_⟩
  · intro c got
    have answered : ctx.ref .callback = some c := by
      cases callback with
      | none => cases got
      | some obj => exact got
    have other := registered_other w'.refs (wrapperOf ctx) (distinct c answered)
    have own := registered_handle w.refs got
    simp only [wrapped]
    rw [other, refs]
    exact own
  · intro c got
    exact registered_handle w'.refs got
  · intro n made
    simp only [wrapped, made, Function.update_self]

/-- Releasing a buffer leaves the rest. -/
theorem Ending.release (ending : Ending ctx callback data req w) (s : JString) {chars : Pointer}
    (different : data ≠ chars) : Ending ctx callback data req (release s chars w) :=
  ⟨(Function.update_of_ne different ..).trans ending.block, ending.callbackRef, ending.requestRef,
    ending.address⟩

theorem queued_wrap (queued : Queued w req r w') (different : req ≠ data) :
    Queued w req r (wrapped ctx callback data req w') :=
  ⟨queued.nonzero, (wrapped_other callback req w' different).trans queued.block, queued.queue,
    queued.nreqs⟩

theorem queued_release (queued : Queued w req r w') (s : JString) {chars : Pointer}
    (different : req ≠ chars) : Queued w req r (release s chars w') :=
  ⟨queued.nonzero, (Function.update_of_ne different ..).trans queued.block, queued.queue,
    queued.nreqs⟩

variable {path newPath : JString} {chars newChars : Pointer}

theorem plain_apply {eio : Pointer → C Pointer} (allocated : ctx.memory .javaData = some data)
    (made : eio data (prepared ctx callback data w) = some (req, w'))
    (kept : Kept (prepared ctx callback data w) w') :
    plain ctx callback eio w = some (returned ctx, wrapped ctx callback data req w') := by
  have there := kept.heap data _ (prepared_block ctx callback data w)
  simp only [plain, bind_apply, allocJavaData_apply callback w allocated, Option.bind_some, made,
    wrapRequest_apply req there]

/-- The world in which the constructor is called. -/
def onPathEntry (ctx : Context) (path : JString) (callback : Option Obj) (data chars : Pointer)
    (w : World) : World :=
  acquire path chars (prepared ctx callback data w)

theorem onPath_apply {eio : Pointer → Pointer → C Pointer}
    (allocated : ctx.memory .javaData = some data) (acquired : ctx.memory .pathChars = some chars)
    (nonzero : chars ≠ 0) (different : data ≠ chars)
    (made : eio chars data (onPathEntry ctx path callback data chars w) = some (req, w'))
    (kept : Kept (onPathEntry ctx path callback data chars w) w') :
    onPath ctx (some path) callback eio w =
      some (returned ctx, release path chars (wrapped ctx callback data req w')) := by
  have there := kept.heap data _
    ((Function.update_of_ne different ..).trans (prepared_block ctx callback data w))
  unfold onPathEntry at made
  simp only [onPath, bind_apply, allocJavaData_apply callback w allocated, Option.bind_some, acquired,
    getStringUTFChars_apply, made, wrapRequest_apply req there,
    releaseStringUTFChars_apply path _ nonzero, pure_apply]

def onTwoPathsEntry (ctx : Context) (path : JString) (callback : Option Obj)
    (data chars newChars : Pointer) (w : World) : World :=
  acquire path newChars (acquire path chars (prepared ctx callback data w))

theorem onTwoPaths_apply {eio : Pointer → Pointer → Pointer → C Pointer}
    (allocated : ctx.memory .javaData = some data) (acquired : ctx.memory .pathChars = some chars)
    (newAcquired : ctx.memory .newPathChars = some newChars) (nonzero : chars ≠ 0)
    (newNonzero : newChars ≠ 0) (different : data ≠ chars) (newDifferent : data ≠ newChars)
    (made : eio chars newChars data (onTwoPathsEntry ctx path callback data chars newChars w) =
      some (req, w'))
    (kept : Kept (onTwoPathsEntry ctx path callback data chars newChars w) w') :
    onTwoPaths ctx (some path) (some newPath) callback eio w =
      some (returned ctx,
        release path chars (release newPath newChars (wrapped ctx callback data req w'))) := by
  have entry : (onTwoPathsEntry ctx path callback data chars newChars w).heap data =
      some (.data (dataOf ctx callback none)) :=
    (Function.update_of_ne newDifferent ..).trans
      ((Function.update_of_ne different ..).trans (prepared_block ctx callback data w))
  have there := kept.heap data _ entry
  unfold onTwoPathsEntry at made
  simp only [onTwoPaths, bind_apply, allocJavaData_apply callback w allocated, Option.bind_some,
    acquired, newAcquired, getStringUTFChars_apply, made, wrapRequest_apply req there,
    releaseStringUTFChars_apply path _ nonzero, releaseStringUTFChars_apply newPath _ newNonzero,
    pure_apply]

/-! ### Calls that end in undefined behaviour -/

theorem plain_noData (eio : Pointer → C Pointer) (refused : ctx.memory .javaData = none) :
    plain ctx callback eio w = none := by
  simp only [plain, bind_apply, allocJavaData_none callback w refused, Option.bind_none]

/-- A null path, no block or no buffer. -/
theorem onPath_none (path : Option JString) (eio : Pointer → Pointer → C Pointer)
    (failed : path = none ∨ ctx.memory .javaData = none ∨ ctx.memory .pathChars = none) :
    onPath ctx path callback eio w = none := by
  cases allocated : ctx.memory .javaData with
  | none => simp only [onPath, bind_apply, allocJavaData_none callback w allocated, Option.bind_none]
  | some data =>
    cases path with
    | none =>
      simp only [onPath, bind_apply, allocJavaData_apply callback w allocated, Option.bind_some,
        getStringUTFChars_null, Option.bind_none]
    | some path =>
      have noChars : ctx.memory .pathChars = none := by simpa [allocated] using failed
      obtain ⟨chars, w', got, null⟩ := getStringUTFChars_returns (ctx.memory .pathChars) path
        (prepared ctx callback data w)
      have wild := fun w => releaseStringUTFChars_none (s := some path) w (.inr (null noChars))
      simp only [onPath, bind_apply, allocJavaData_apply callback w allocated, Option.bind_some, got,
        wild, Option.bind_none, Option.bind_fun_none]

theorem onTwoPaths_none (path newPath : Option JString) (eio : Pointer → Pointer → Pointer → C Pointer)
    (failed : path = none ∨ newPath = none ∨ ctx.memory .javaData = none ∨
      ctx.memory .pathChars = none ∨ ctx.memory .newPathChars = none) :
    onTwoPaths ctx path newPath callback eio w = none := by
  cases allocated : ctx.memory .javaData with
  | none =>
    simp only [onTwoPaths, bind_apply, allocJavaData_none callback w allocated, Option.bind_none]
  | some data =>
    cases path with
    | none =>
      simp only [onTwoPaths, bind_apply, allocJavaData_apply callback w allocated, Option.bind_some,
        getStringUTFChars_null, Option.bind_none]
    | some path =>
      obtain ⟨chars, w₁, got, null⟩ := getStringUTFChars_returns (ctx.memory .pathChars) path
        (prepared ctx callback data w)
      obtain ⟨newChars, w₂, newGot, newNull⟩ :=
        getStringUTFChars_returns (ctx.memory .newPathChars) path w₁
      by_cases noChars : ctx.memory .pathChars = none
      · have wild := fun w => releaseStringUTFChars_none (s := some path) w (.inr (null noChars))
        simp only [onTwoPaths, bind_apply, allocJavaData_apply callback w allocated,
          Option.bind_some, got, newGot, wild, Option.bind_none, Option.bind_fun_none]
      · have null' : newPath = none ∨ newChars = 0 := by
          rcases failed with absurd_ | noPath | absurd_ | absurd_ | noNewChars
          · cases absurd_
          · exact .inl noPath
          · rw [allocated] at absurd_
            cases absurd_
          · exact absurd absurd_ noChars
          · exact .inr (newNull noNewChars)
        have wild := fun w => releaseStringUTFChars_none w null'
        simp only [onTwoPaths, bind_apply, allocJavaData_apply callback w allocated,
          Option.bind_some, got, newGot, wild, Option.bind_none, Option.bind_fun_none]

/-! ### Calls that return -/

/-- Nothing has been queued. -/
structure Declined (w w' : World) : Prop where
  nreqs : w'.nreqs = w.nreqs
  reqQueue : w'.reqQueue = w.reqQueue

section
variable {ptr1 ptr2 : Pointer} {fill : EioReq → EioReq} (type : EioType) (pri : JInt)

theorem plain_queued (fresh : FreshMemory ctx [.javaData, .req] w) (refs : FreshRefs ctx w)
    (allocated : ctx.memory .javaData = some data) (answered : ctx.memory .req = some req)
    (fills : Fills fill) :
    ∃ w', plain ctx callback (eioRequest ctx type fill pri) w = some (returned ctx, w') ∧
      Ending ctx callback data req w' ∧
      Queued w req (clamped (fill (newReq type pri data))) w' := by
  have entry := fresh.used allocated (by simp) (some (.data (dataOf ctx callback none)))
  obtain ⟨made, ran, queued, kept⟩ := eioRequest_queued (w := prepared ctx callback data w)
    type pri data entry answered fills
  have apart := entry.apart (by simp) answered (prepared_block ctx callback data w)
  exact ⟨_, plain_apply allocated ran kept, wrapped_ending refs.distinct kept.refs,
    queued_wrap ⟨queued.nonzero, queued.block, queued.queue, queued.nreqs⟩ apart.symm⟩

theorem plain_refused (refs : FreshRefs ctx w) (allocated : ctx.memory .javaData = some data)
    (refused : ctx.memory .req = none) :
    ∃ w', plain ctx callback (eioRequest ctx type fill pri) w = some (returned ctx, w') ∧
      Ending ctx callback data 0 w' ∧ Declined w w' := by
  have ran := eioRequest_refused (w := prepared ctx callback data w) fill type pri data refused
  have kept := (Refused.refl (prepared ctx callback data w)).toKept
  exact ⟨_, plain_apply allocated ran kept, wrapped_ending refs.distinct kept.refs, rfl, rfl⟩

/-- What the constructor finds: the `java_data` and the buffers in place. -/
structure Entered (ctx : Context) (callback : Option Obj) (path : JString) (data : Pointer)
    (buffers : List Pointer) (rest : List Site) (w : World) : Prop where
  block : w.heap data = some (.data (dataOf ctx callback none))
  buffer : ∀ chars ∈ buffers, chars ≠ 0 ∧ chars ≠ data
  text : ∀ chars ∈ buffers, cString w.heap chars = some (modifiedUtf8 path.units)
  fresh : FreshMemory ctx rest w

theorem prepared_entered {rest : List Site} (path : JString)
    (fresh : FreshMemory ctx (.javaData :: rest) w) (others : .javaData ∉ rest)
    (allocated : ctx.memory .javaData = some data) :
    Entered ctx callback path data [] rest (prepared ctx callback data w) :=
  ⟨prepared_block ctx callback data w, by simp, by simp, fresh.used allocated others _⟩

/-- One more buffer is acquired. -/
theorem Entered.acquire {site : Site} {rest : List Site} {buffers : List Pointer}
    (entered : Entered ctx callback path data buffers (site :: rest) w)
    (acquired : ctx.memory site = some chars) (others : site ∉ rest) :
    Entered ctx callback path data (chars :: buffers) rest (Submission.acquire path chars w) := by
  have kept : ∀ a b, w.heap a = some b → (Submission.acquire path chars w).heap a = some b :=
    fun a b there => entered.fresh.kept (by simp) acquired there
  constructor
  · exact kept data _ entered.block
  · rw [List.forall_mem_cons]
    have apart := entered.fresh.apart (by simp) acquired entered.block
    exact ⟨⟨(entered.fresh.vacant site (by simp) chars acquired).1, apart.symm⟩, entered.buffer⟩
  · rw [List.forall_mem_cons]
    constructor
    · apply cString_chars (modifiedUtf8_ne_zero path.units)
      exact Function.update_self ..
    · intro c member
      exact cString_kept (entered.text c member) kept
  · exact entered.fresh.used acquired others _

/-- What is allocated from now on is elsewhere. -/
theorem Entered.apart {site : Site} {rest : List Site} {buffers : List Pointer} {a : Pointer}
    (entered : Entered ctx callback path data buffers rest w) (member : site ∈ rest)
    (answered : ctx.memory site = some a) : a ≠ data ∧ ∀ chars ∈ buffers, a ≠ chars := by
  constructor
  · exact (entered.fresh.apart member answered entered.block).symm
  · intro chars inside
    obtain ⟨b, there⟩ := cString_there (entered.text chars inside)
    exact (entered.fresh.apart member answered there).symm

/-- A copy made by the constructor survives the end of the call. -/
theorem wrapped_text {a : Pointer} {bytes : List Byte} (callback : Option Obj) (req : Pointer)
    (text : cString w.heap a = some bytes) (different : a ≠ data) :
    cString (wrapped ctx callback data req w).heap a = some bytes := by
  rw [cString, wrapped_other callback req w different]
  exact text

theorem released_text {a : Pointer} {bytes : List Byte} (s : JString)
    (text : cString w.heap a = some bytes) (different : a ≠ chars) :
    cString (release s chars w).heap a = some bytes := by
  have other : (release s chars w).heap a = w.heap a := Function.update_of_ne different ..
  rw [cString, other]
  exact text

variable (path newPath)

theorem onPath_queued (fresh : FreshMemory ctx [.javaData, .pathChars, .req, .ptr1] w)
    (refs : FreshRefs ctx w) (allocated : ctx.memory .javaData = some data)
    (acquired : ctx.memory .pathChars = some chars) (answered : ctx.memory .req = some req)
    (copied : ctx.memory .ptr1 = some ptr1) (fills : Fills fill) :
    ∃ w', onPath ctx (some path) callback
        (fun chars => eioPathRequest ctx type chars fill pri) w = some (returned ctx, w') ∧
      Ending ctx callback data req w' ∧
      Queued w req (clamped (fill (pathReq type pri data ptr1))) w' ∧
      cString w'.heap ptr1 = some (modifiedUtf8 path.units) := by
  have entered : Entered ctx callback path data [chars] [.req, .ptr1] (onPathEntry ..) :=
    (prepared_entered path fresh (by simp) allocated).acquire acquired (by simp)
  obtain ⟨nonzero, different⟩ := entered.buffer chars (by simp)
  obtain ⟨made, ran, queued, kept, text⟩ := eioPathRequest_queued type pri data entered.fresh answered
    copied (entered.text chars (by simp)) fills
  obtain ⟨reqData, reqChars⟩ := entered.apart (by simp) answered
  obtain ⟨ptrData, ptrChars⟩ := entered.apart (by simp) copied
  refine ⟨_, onPath_apply allocated acquired nonzero different.symm ran kept, ?_, ?_, ?_⟩
  · exact (wrapped_ending refs.distinct kept.refs).release path different.symm
  · apply queued_release _ path (reqChars chars (by simp))
    exact queued_wrap ⟨queued.nonzero, queued.block, queued.queue, queued.nreqs⟩ reqData
  · apply released_text path _ (ptrChars chars (by simp))
    exact wrapped_text callback req text ptrData

theorem onPath_refused (fresh : FreshMemory ctx [.javaData, .pathChars, .req, .ptr1] w)
    (refs : FreshRefs ctx w) (allocated : ctx.memory .javaData = some data)
    (acquired : ctx.memory .pathChars = some chars)
    (refused : ctx.memory .req = none ∨ ctx.memory .ptr1 = none) :
    ∃ w', onPath ctx (some path) callback
        (fun chars => eioPathRequest ctx type chars fill pri) w = some (returned ctx, w') ∧
      Ending ctx callback data 0 w' ∧ Declined w w' := by
  have entered : Entered ctx callback path data [chars] [.req, .ptr1] (onPathEntry ..) :=
    (prepared_entered path fresh (by simp) allocated).acquire acquired (by simp)
  obtain ⟨nonzero, different⟩ := entered.buffer chars (by simp)
  obtain ⟨made, ran, left⟩ := eioPathRequest_refused fill type pri data entered.fresh
    (entered.text chars (by simp)) refused
  have kept := left.toKept
  refine ⟨_, onPath_apply allocated acquired nonzero different.symm ran kept, ?_, left.nreqs, left.reqQueue⟩
  exact (wrapped_ending refs.distinct kept.refs).release path different.symm

/-- The calls of `GetStringUTFChars` and `ReleaseStringUTFChars` between `w` and `w'`,
the latest first. -/
structure Logged (acquired released : List (JString × Pointer)) (w w' : World) : Prop where
  acquired : w'.acquired = acquired ++ w.acquired
  released : w'.released = released ++ w.released

/-- However the constructor does, the same buffers are acquired and released. -/
theorem onTwoPaths_logged (kept : Kept (onTwoPathsEntry ctx path callback data chars newChars w) w') :
    Logged [(path, newChars), (path, chars)] [(path, chars), (newPath, newChars)] w
      (release path chars (release newPath newChars (wrapped ctx callback data req w'))) := by
  constructor
  · exact kept.acquired
  · have released := kept.released
    simp only [release, wrapped, released]
    rfl

theorem onTwoPaths_queued
    (fresh : FreshMemory ctx [.javaData, .pathChars, .newPathChars, .req, .ptr1, .ptr2] w)
    (refs : FreshRefs ctx w) (allocated : ctx.memory .javaData = some data)
    (acquired : ctx.memory .pathChars = some chars)
    (newAcquired : ctx.memory .newPathChars = some newChars) (answered : ctx.memory .req = some req)
    (copied : ctx.memory .ptr1 = some ptr1) (newCopied : ctx.memory .ptr2 = some ptr2) :
    ∃ w', onTwoPaths ctx (some path) (some newPath) callback
        (fun chars newChars => eio2path ctx type chars newChars pri) w = some (returned ctx, w') ∧
      Ending ctx callback data req w' ∧
      Queued w req (clamped { pathReq type pri data ptr1 with ptr2 := ptr2, ptr2Free := true }) w' ∧
      cString w'.heap ptr1 = some (modifiedUtf8 path.units) ∧
      cString w'.heap ptr2 = some (modifiedUtf8 path.units) ∧
      Logged [(path, newChars), (path, chars)] [(path, chars), (newPath, newChars)] w w' := by
  have entered : Entered ctx callback path data [newChars, chars] [.req, .ptr1, .ptr2]
      (onTwoPathsEntry ..) :=
    ((prepared_entered path fresh (by simp) allocated).acquire acquired (by simp)).acquire newAcquired
      (by simp)
  obtain ⟨nonzero, different⟩ := entered.buffer chars (by simp)
  obtain ⟨newNonzero, newDifferent⟩ := entered.buffer newChars (by simp)
  obtain ⟨made, ran, queued, kept, text, newText⟩ := eio2path_queued type pri data entered.fresh
    answered copied newCopied (entered.text chars (by simp)) (entered.text newChars (by simp))
  obtain ⟨reqData, reqChars⟩ := entered.apart (by simp) answered
  obtain ⟨ptrData, ptrChars⟩ := entered.apart (by simp) copied
  obtain ⟨newPtrData, newPtrChars⟩ := entered.apart (by simp) newCopied
  refine ⟨_, onTwoPaths_apply allocated acquired newAcquired nonzero newNonzero different.symm
    newDifferent.symm ran kept, ?_, ?_, ?_, ?_, onTwoPaths_logged path newPath kept⟩
  · apply Ending.release _ path different.symm
    exact (wrapped_ending refs.distinct kept.refs).release newPath newDifferent.symm
  · apply queued_release _ path (reqChars chars (by simp))
    apply queued_release _ newPath (reqChars newChars (by simp))
    exact queued_wrap ⟨queued.nonzero, queued.block, queued.queue, queued.nreqs⟩ reqData
  · apply released_text path _ (ptrChars chars (by simp))
    apply released_text newPath _ (ptrChars newChars (by simp))
    exact wrapped_text callback req text ptrData
  · apply released_text path _ (newPtrChars chars (by simp))
    apply released_text newPath _ (newPtrChars newChars (by simp))
    exact wrapped_text callback req newText newPtrData

theorem onTwoPaths_refused
    (fresh : FreshMemory ctx [.javaData, .pathChars, .newPathChars, .req, .ptr1, .ptr2] w)
    (refs : FreshRefs ctx w) (allocated : ctx.memory .javaData = some data)
    (acquired : ctx.memory .pathChars = some chars)
    (newAcquired : ctx.memory .newPathChars = some newChars)
    (refused : ctx.memory .req = none ∨ ctx.memory .ptr1 = none ∨ ctx.memory .ptr2 = none) :
    ∃ w', onTwoPaths ctx (some path) (some newPath) callback
        (fun chars newChars => eio2path ctx type chars newChars pri) w = some (returned ctx, w') ∧
      Ending ctx callback data 0 w' ∧ Declined w w' ∧
      Logged [(path, newChars), (path, chars)] [(path, chars), (newPath, newChars)] w w' := by
  have entered : Entered ctx callback path data [newChars, chars] [.req, .ptr1, .ptr2]
      (onTwoPathsEntry ..) :=
    ((prepared_entered path fresh (by simp) allocated).acquire acquired (by simp)).acquire newAcquired
      (by simp)
  obtain ⟨nonzero, different⟩ := entered.buffer chars (by simp)
  obtain ⟨newNonzero, newDifferent⟩ := entered.buffer newChars (by simp)
  obtain ⟨made, ran, left⟩ := eio2path_refused type pri data entered.fresh
    (entered.text chars (by simp)) (entered.text newChars (by simp)) refused
  have kept := left.toKept
  refine ⟨_, onTwoPaths_apply allocated acquired newAcquired nonzero newNonzero different.symm
    newDifferent.symm ran kept, ?_, ⟨left.nreqs, left.reqQueue⟩,
    onTwoPaths_logged path newPath kept⟩
  apply Ending.release _ path different.symm
  exact (wrapped_ending refs.distinct kept.refs).release newPath newDifferent.symm

end

end

/-! ### The possible outcomes -/

/-- The memory that an operation on these paths asks for, in order. -/
def sites : List (Option JString) → List Site
  | [] => [.javaData, .req]
  | [_] => [.javaData, .pathChars, .req, .ptr1]
  | _ => [.javaData, .pathChars, .newPathChars, .req, .ptr1, .ptr2]

/-- No path is null, and all the memory is there. -/
structure Granted (ctx : Context) (paths : List (Option JString)) : Prop where
  given : ∀ path ∈ paths, path ≠ none
  memory : ∀ site ∈ sites paths, ctx.memory site ≠ none

/-- How a call from `w` ends; `content` holds of a request that was queued and the
strings in memory. -/
inductive Outcome (ctx : Context) (callback : Option Obj) (w : World)
    (paths : List (Option JString)) (content : EioReq → (Pointer → Option (List Byte)) → Prop) :
    Option (Option Ref × World) → Prop where
  | undefined : ¬ Granted ctx paths → Outcome ctx callback w paths content none
  | refused {data : Pointer} {w' : World} : ¬ Granted ctx paths → w.heap data = none →
      Ending ctx callback data 0 w' → Declined w w' →
      Outcome ctx callback w paths content (some (returned ctx, w'))
  | queued {data req : Pointer} {r : EioReq} {w' : World} : Granted ctx paths →
      w.heap data = none → Ending ctx callback data req w' → Queued w req r w' → r.data = data →
      content r (cString w'.heap) → Outcome ctx callback w paths content (some (returned ctx, w'))

section
variable {ctx : Context} {callback : Option Obj} {w : World} {type : EioType}
  {fill : EioReq → EioReq} {paths : List (Option JString)}
  {content content' : EioReq → (Pointer → Option (List Byte)) → Prop}
  {run : Option (Option Ref × World)}

theorem Outcome.mono (outcome : Outcome ctx callback w paths content run)
    (weaker : ∀ r str, content r str → content' r str) : Outcome ctx callback w paths content' run := by
  cases outcome with
  | undefined missing => exact .undefined missing
  | refused missing absent ending declined => exact .refused missing absent ending declined
  | queued granted absent ending queued own holds =>
    exact .queued granted absent ending queued own (weaker _ _ holds)

/-- What is in a request of `plain`. -/
def PlainContent (type : EioType) (fill : EioReq → EioReq) (pri : JInt) (r : EioReq)
    (_ : Pointer → Option (List Byte)) : Prop :=
  ∃ data, r = clamped (fill (newReq type pri data))

theorem plain_outcome (pri : JInt) (fills : Fills fill) (fresh : FreshMemory ctx (sites []) w)
    (refs : FreshRefs ctx w) :
    Outcome ctx callback w [] (PlainContent type fill pri)
      (plain ctx callback (eioRequest ctx type fill pri) w) := by
  cases allocated : ctx.memory .javaData with
  | none =>
    rw [plain_noData _ allocated]
    exact .undefined fun granted => granted.memory .javaData (by simp [sites]) allocated
  | some data =>
    obtain ⟨_, absent⟩ := fresh.vacant .javaData (by simp [sites]) data allocated
    cases answered : ctx.memory .req with
    | none =>
      obtain ⟨w', ran, ending, declined⟩ := plain_refused type pri refs allocated answered
      rw [ran]
      refine .refused (fun granted => ?_) absent ending declined
      exact granted.memory .req (by simp [sites]) answered
    | some req =>
      obtain ⟨w', ran, ending, queued⟩ := plain_queued type pri fresh refs allocated answered fills
      rw [ran]
      refine .queued ⟨by simp, ?_⟩ absent ending queued (fills _).2.1 ⟨data, rfl⟩
      simp [sites, allocated, answered]

/-- What is in one of `onPath`. -/
def OnPathContent (type : EioType) (fill : EioReq → EioReq) (path : Option JString) (pri : JInt)
    (r : EioReq) (str : Pointer → Option (List Byte)) : Prop :=
  ∃ s data ptr1, path = some s ∧ r = clamped (fill (pathReq type pri data ptr1)) ∧
    str ptr1 = some (modifiedUtf8 s.units)

theorem onPath_outcome (path : Option JString) (pri : JInt) (fills : Fills fill)
    (fresh : FreshMemory ctx (sites [path]) w) (refs : FreshRefs ctx w) :
    Outcome ctx callback w [path] (OnPathContent type fill path pri)
      (onPath ctx path callback (fun chars => eioPathRequest ctx type chars fill pri) w) := by
  by_cases failed : path = none ∨ ctx.memory .javaData = none ∨ ctx.memory .pathChars = none
  · rw [onPath_none path _ failed]
    refine .undefined fun granted => ?_
    rcases failed with null | refused | refused
    · exact granted.given path (by simp) null
    · exact granted.memory .javaData (by simp [sites]) refused
    · exact granted.memory .pathChars (by simp [sites]) refused
  · simp only [not_or, Option.ne_none_iff_exists'] at failed
    obtain ⟨⟨s, rfl⟩, ⟨data, allocated⟩, chars, acquired⟩ := failed
    obtain ⟨_, absent⟩ := fresh.vacant .javaData (by simp [sites]) data allocated
    by_cases refused : ctx.memory .req = none ∨ ctx.memory .ptr1 = none
    · obtain ⟨w', ran, ending, declined⟩ := onPath_refused s type pri fresh refs allocated acquired
        refused
      rw [ran]
      refine .refused (fun granted => ?_) absent ending declined
      rcases refused with refused | refused
      · exact granted.memory .req (by simp [sites]) refused
      · exact granted.memory .ptr1 (by simp [sites]) refused
    · simp only [not_or, Option.ne_none_iff_exists'] at refused
      obtain ⟨⟨req, answered⟩, ptr1, copied⟩ := refused
      obtain ⟨w', ran, ending, queued, text⟩ := onPath_queued s type pri fresh refs allocated acquired
        answered copied fills
      rw [ran]
      refine .queued ⟨by simp, ?_⟩ absent ending queued (fills _).2.1 ⟨s, data, ptr1, rfl, rfl, text⟩
      simp [sites, allocated, acquired, answered, copied]

/-- What is in one of `onTwoPaths`: two copies of the first path. -/
def OnTwoPathsContent (type : EioType) (path : Option JString) (pri : JInt) (r : EioReq)
    (str : Pointer → Option (List Byte)) : Prop :=
  ∃ s data ptr1 ptr2, path = some s ∧
    r = clamped { pathReq type pri data ptr1 with ptr2 := ptr2, ptr2Free := true } ∧
    str ptr1 = some (modifiedUtf8 s.units) ∧ str ptr2 = some (modifiedUtf8 s.units)

theorem onTwoPaths_outcome (path newPath : Option JString) (pri : JInt)
    (fresh : FreshMemory ctx (sites [path, newPath]) w) (refs : FreshRefs ctx w) :
    Outcome ctx callback w [path, newPath] (OnTwoPathsContent type path pri)
      (onTwoPaths ctx path newPath callback
        (fun chars newChars => eio2path ctx type chars newChars pri) w) := by
  by_cases failed : path = none ∨ newPath = none ∨ ctx.memory .javaData = none ∨
      ctx.memory .pathChars = none ∨ ctx.memory .newPathChars = none
  · rw [onTwoPaths_none path newPath _ failed]
    refine .undefined fun granted => ?_
    rcases failed with null | null | refused | refused | refused
    · exact granted.given path (by simp) null
    · exact granted.given newPath (by simp) null
    · exact granted.memory .javaData (by simp [sites]) refused
    · exact granted.memory .pathChars (by simp [sites]) refused
    · exact granted.memory .newPathChars (by simp [sites]) refused
  · simp only [not_or, Option.ne_none_iff_exists'] at failed
    obtain ⟨⟨s, rfl⟩, ⟨s', rfl⟩, ⟨data, allocated⟩, ⟨chars, acquired⟩, newChars, newAcquired⟩ := failed
    obtain ⟨_, absent⟩ := fresh.vacant .javaData (by simp [sites]) data allocated
    by_cases refused : ctx.memory .req = none ∨ ctx.memory .ptr1 = none ∨ ctx.memory .ptr2 = none
    · obtain ⟨w', ran, ending, declined, _⟩ := onTwoPaths_refused s s' type pri fresh refs allocated
        acquired newAcquired refused
      rw [ran]
      refine .refused (fun granted => ?_) absent ending declined
      rcases refused with refused | refused | refused
      · exact granted.memory .req (by simp [sites]) refused
      · exact granted.memory .ptr1 (by simp [sites]) refused
      · exact granted.memory .ptr2 (by simp [sites]) refused
    · simp only [not_or, Option.ne_none_iff_exists'] at refused
      obtain ⟨⟨req, answered⟩, ⟨ptr1, copied⟩, ptr2, newCopied⟩ := refused
      obtain ⟨w', ran, ending, queued, text, newText, _⟩ := onTwoPaths_queued s s' type pri fresh refs
        allocated acquired newAcquired answered copied newCopied
      rw [ran]
      refine .queued ⟨by simp, ?_⟩ absent ending queued rfl ⟨s, data, ptr1, ptr2, rfl, rfl, text, newText⟩
      simp [sites, allocated, acquired, newAcquired, answered, copied, newCopied]

/-- Of every submit operation. -/
theorem cBody_outcome (abi : Abi) (function : Native) (args : Args (cParams function))
    (fresh : FreshMemory ctx (sites (strings _ args)) w) (refs : FreshRefs ctx w) :
    Outcome ctx (callbackOf _ args) w (strings _ args) (fun _ _ => True)
      (cBody abi ctx function args w) := by
  have shape := cBody_shape abi function args
  generalize strings _ args = paths at shape fresh ⊢
  generalize callbackOf _ args = callback at shape ⊢
  have body : (fun ctx => cBody abi ctx function args) ctx w = cBody abi ctx function args w := rfl
  rw [← body]
  generalize (fun ctx => cBody abi ctx function args) = run at shape ⊢
  cases shape with
  | plain callback type pri fills =>
    exact (plain_outcome pri fills fresh refs).mono fun _ _ _ => trivial
  | onPath path callback type pri fills =>
    exact (onPath_outcome path pri fills fresh refs).mono fun _ _ _ => trivial
  | onTwoPaths path newPath callback type pri =>
    exact (onTwoPaths_outcome path newPath pri fresh refs).mono fun _ _ _ => trivial

end

/-! ### A machine that grants everything -/

/-- 64-bit Linux. -/
def lp64 : Abi := ⟨32, 32, 64, by decide, by decide, by decide⟩

def blank : World where
  heap _ := none
  refs _ := none
  wrappers _ := none
  reqQueue := .empty
  nreqs := 0
  nready := 0
  acquired := []
  released := []

def addressOf : Site → Pointer
  | .javaData => 16
  | .pathChars => 32
  | .newPathChars => 48
  | .req => 64
  | .ptr1 => 80
  | .ptr2 => 96

def granting : Context where
  env := 8
  memory site := some (addressOf site)
  ref
    | .callback => some 1
    | .request => some 2
  wrapper := some 0

theorem granting_fresh (pending : List Site) : FreshMemory granting pending blank := by
  constructor
  · intro site _ a answered
    cases answered
    cases site <;> exact ⟨by decide, rfl⟩
  · intro site site' a answered answered'
    cases answered
    revert answered'
    cases site <;> cases site' <;> decide
  · rfl

theorem granting_refs : FreshRefs granting blank := by
  constructor
  · exact fun _ _ _ => rfl
  · intro r answered
    cases answered
    decide

end WebbitAsyncio.Invariants.SubmitShapes
