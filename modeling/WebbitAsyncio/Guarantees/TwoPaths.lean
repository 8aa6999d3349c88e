import WebbitAsyncio.Invariants.Dispatch

/-!
# `link`, `symlink` and `rename`

The JNI functions of asyncio.c:331-359 acquire both character buffers from `path` and
release the second one against `new_path`. They do what their names say exactly when
the two are the same string (`uses_both_paths_iff`).
-/
namespace WebbitAsyncio.Guarantees.TwoPaths
open WebbitAsyncio.Lib.Utf16 (Byte modifiedUtf8)
open WebbitAsyncio.Source.Reqq (JInt)
open WebbitAsyncio.Source.EventLoop (Obj Ref)
open WebbitAsyncio.Source.EioRequest WebbitAsyncio.Source.JniSubmit
open WebbitAsyncio.Invariants.Submission WebbitAsyncio.Invariants.SubmitShapes
open WebbitAsyncio.Invariants.Dispatch

inductive Operation where
  | link
  | symlink
  | rename
  deriving DecidableEq, Repr

/-- The JNI function. -/
def Operation.run (operation : Operation) (ctx : Context) (path newPath : JString) (priority : JInt)
    (callback : Option Obj) : C (Option Ref) :=
  match operation with
  | .link => Source.JniSubmit.link ctx (some path) (some newPath) priority callback
  | .symlink => Source.JniSubmit.symlink ctx (some path) (some newPath) priority callback
  | .rename => Source.JniSubmit.rename ctx (some path) (some newPath) priority callback

/-- The system call of that name. -/
def Operation.call {abi : Abi} (operation : Operation) (path newPath : List Byte) : SysCall abi :=
  match operation with
  | .link => .link path newPath
  | .symlink => .symlink path newPath
  | .rename => .rename path newPath

/-- Of the buffers acquired between `w` and `w'` no two are the same, and each is
released once, against the string it was acquired from. -/
def ReleasedOnce (w w' : World) : Prop :=
  ∃ acquired released, Logged acquired released w w' ∧ (acquired.map Prod.snd).Nodup ∧
    released.Perm acquired

structure UsesBothPaths (abi : Abi) (operation : Operation) (ctx : Context) (allocated : Pointer)
    (path newPath : JString) (w : World) (run : Option (Option Ref × World)) : Prop where
  submits : Granted ctx [some path, some newPath] → SubmitsOne w run
  becomes : Becomes allocated w run
    (some (operation.call (modifiedUtf8 path.units) (modifiedUtf8 newPath.units)) : Option (SysCall abi))
  released : ∀ result w', run = some (result, w') → ReleasedOnce w w'

/-- The type of the request. -/
def Operation.type : Operation → EioType
  | .link => .link
  | .symlink => .symlink
  | .rename => .rename

section
variable {abi : Abi} {operation : Operation} {ctx : Context} {path newPath : JString}
  {priority : JInt} {callback : Option Obj} {w : World} {allocated : Pointer}

theorem run_eq (operation : Operation) (ctx : Context) (path newPath : JString) (priority : JInt)
    (callback : Option Obj) :
    operation.run ctx path newPath priority callback =
      onTwoPaths ctx (some path) (some newPath) callback
        fun chars newChars => eio2path ctx operation.type chars newChars priority := by
  cases operation with
  | link => rfl
  | symlink => rfl
  | rename => rfl

/-- What `eio_execute` does with a request of two paths. -/
theorem execute_two {str : Pointer → Option (List Byte)} {r : EioReq} {old new : List Byte}
    (type : r.type = operation.type) (text : str r.ptr1 = some old) (newText : str r.ptr2 = some new) :
    eioExecute str allocated r = some (operation.call old new : SysCall abi) := by
  unfold eioExecute
  rw [type]
  cases operation with
  | link => simp only [Operation.type, text, newText, Option.bind_some, Option.map_some, Operation.call]
  | symlink =>
    simp only [Operation.type, text, newText, Option.bind_some, Option.map_some, Operation.call]
  | rename =>
    simp only [Operation.type, text, newText, Option.bind_some, Option.map_some, Operation.call]

/-- The first path is used twice. -/
theorem run_becomes (fresh : FreshMemory ctx (sites [some path, some newPath]) w)
    (refs : FreshRefs ctx w) :
    Becomes allocated w (operation.run ctx path newPath priority callback w)
      (some (operation.call (modifiedUtf8 path.units) (modifiedUtf8 path.units) : SysCall abi)) := by
  rw [run_eq]
  refine onTwoPaths_becomes _ _ _ fresh refs fun s data ptr1 ptr2 str isPath text newText => ?_
  cases isPath
  exact execute_two rfl text newText

theorem run_submits (fresh : FreshMemory ctx (sites [some path, some newPath]) w)
    (refs : FreshRefs ctx w) (granted : Granted ctx [some path, some newPath]) :
    SubmitsOne w (operation.run ctx path newPath priority callback w) := by
  rw [run_eq]
  exact submits_one (onTwoPaths_outcome _ _ _ fresh refs) granted

/-- Once the buffers are acquired the call returns, and they are the buffers of
`path` that it releases against both strings. -/
theorem run_logged (operation : Operation) (priority : JInt) (callback : Option Obj)
    {chars newChars : Pointer}
    (fresh : FreshMemory ctx (sites [some path, some newPath]) w) (refs : FreshRefs ctx w)
    (allocated : ctx.memory .javaData ≠ none) (acquired : ctx.memory .pathChars = some chars)
    (newAcquired : ctx.memory .newPathChars = some newChars) :
    ∃ w', operation.run ctx path newPath priority callback w = some (returned ctx, w') ∧
      Logged [(path, newChars), (path, chars)] [(path, chars), (newPath, newChars)] w w' := by
  rw [run_eq]
  obtain ⟨data, isData⟩ := Option.ne_none_iff_exists'.mp allocated
  by_cases refused : ctx.memory .req = none ∨ ctx.memory .ptr1 = none ∨ ctx.memory .ptr2 = none
  · obtain ⟨w', ran, _, _, logged⟩ := onTwoPaths_refused path newPath operation.type priority fresh
      refs isData acquired newAcquired refused
    exact ⟨w', ran, logged⟩
  · simp only [not_or, Option.ne_none_iff_exists'] at refused
    obtain ⟨⟨req, answered⟩, ⟨ptr1, copied⟩, ptr2, newCopied⟩ := refused
    obtain ⟨w', ran, _, _, _, _, logged⟩ := onTwoPaths_queued path newPath operation.type priority
      fresh refs isData acquired newAcquired answered copied newCopied
    exact ⟨w', ran, logged⟩

/-- The second buffer goes back to where it came from if `newPath` is `path`. -/
theorem releasedOnce_iff {chars newChars : Pointer} {w' : World} (different : chars ≠ newChars)
    (logged : Logged [(path, newChars), (path, chars)] [(path, chars), (newPath, newChars)] w w') :
    ReleasedOnce w w' ↔ path = newPath := by
  constructor
  · rintro ⟨acquired, released, logged', _, perm⟩
    have isAcquired := List.append_cancel_right (logged'.acquired.symm.trans logged.acquired)
    have isReleased := List.append_cancel_right (logged'.released.symm.trans logged.released)
    subst isAcquired isReleased
    have member : (newPath, newChars) ∈ [(path, newChars), (path, chars)] :=
      perm.mem_iff.mp (by simp)
    simp only [List.mem_cons, Prod.mk.injEq, List.not_mem_nil, or_false] at member
    rcases member with ⟨same, _⟩ | ⟨same, _⟩
    · exact same.symm
    · exact same.symm
  · rintro rfl
    refine ⟨_, _, logged, ?_, List.Perm.swap ..⟩
    simpa using different.symm

end

/-- The two-path operations use both paths if these are one and the same string. -/
theorem uses_both_paths_iff (abi : Abi) (operation : Operation) (ctx : Context) (allocated : Pointer)
    (path newPath : JString) (priority : JInt) (callback : Option Obj) (w : World)
    (fresh : FreshMemory ctx (sites [some path, some newPath]) w) (refs : FreshRefs ctx w)
    (acquires : ∀ site ∈ [Site.javaData, .pathChars, .newPathChars], ctx.memory site ≠ none) :
    UsesBothPaths abi operation ctx allocated path newPath w
        (operation.run ctx path newPath priority callback w) ↔
      path = newPath := by
  obtain ⟨chars, acquired⟩ := Option.ne_none_iff_exists'.mp (acquires .pathChars (by simp))
  obtain ⟨newChars, newAcquired⟩ := Option.ne_none_iff_exists'.mp (acquires .newPathChars (by simp))
  have different : chars ≠ newChars := by
    rintro rfl
    exact absurd (fresh.distinct _ _ _ acquired newAcquired) (by decide)
  obtain ⟨w', ran, logged⟩ := run_logged operation priority callback fresh refs
    (acquires .javaData (by simp)) acquired newAcquired
  constructor
  · intro uses
    exact (releasedOnce_iff different logged).mp (uses.released _ _ ran)
  · intro same
    refine ⟨run_submits fresh refs, ?_, ?_⟩
    · rw [← same]
      exact run_becomes fresh refs
    · intro result w'' ran'
      cases ran.symm.trans ran'
      exact (releasedOnce_iff different logged).mpr same

theorem link_same_path : UsesBothPaths lp64 .link granting 112 ⟨0, [0x61]⟩ ⟨0, [0x61]⟩ blank
    (Operation.link.run granting ⟨0, [0x61]⟩ ⟨0, [0x61]⟩ 0 none blank) :=
  (uses_both_paths_iff lp64 .link granting 112 ⟨0, [0x61]⟩ ⟨0, [0x61]⟩ 0 none blank
    (granting_fresh _) granting_refs (by simp [granting])).mpr rfl

/-- `rename ("a", "b")` is executed as `rename ("a", "a")`. -/
theorem rename_onto_itself :
    Becomes 112 blank (Operation.rename.run granting ⟨0, [0x61]⟩ ⟨1, [0x62]⟩ 0 none blank)
        (some (.rename [0x61] [0x61]) : Option (SysCall lp64)) ∧
      ¬ UsesBothPaths lp64 .rename granting 112 ⟨0, [0x61]⟩ ⟨1, [0x62]⟩ blank
        (Operation.rename.run granting ⟨0, [0x61]⟩ ⟨1, [0x62]⟩ 0 none blank) := by
  have becomes : Becomes 112 blank
      (Operation.rename.run granting ⟨0, [0x61]⟩ ⟨1, [0x62]⟩ 0 none blank)
      (some (.rename [0x61] [0x61]) : Option (SysCall lp64)) :=
    run_becomes (granting_fresh _) granting_refs
  refine ⟨becomes, fun uses => ?_⟩
  have granted : Granted granting [some ⟨0, [0x61]⟩, some ⟨1, [0x62]⟩] :=
    ⟨by simp, by simp [granting]⟩
  have same := becomes.unique uses.becomes (uses.submits granted)
  revert same
  decide

end WebbitAsyncio.Guarantees.TwoPaths
