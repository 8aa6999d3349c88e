import Mathlib.Data.List.TakeWhile
import WebbitAsyncio.Lib.Allocation
import WebbitAsyncio.Source.JavaApi

/-!
# What a submit operation does

A submit operation allocates its `java_data`, may acquire path buffers, calls a
constructor of libeio, wraps what it returned and releases the buffers. Each piece
is given the state it leaves, under the contract of the allocators: every address
and handle they return is new.
-/
namespace WebbitAsyncio.Invariants.Submission
open WebbitAsyncio.Lib.Utf16 WebbitAsyncio.Lib.Allocation
open WebbitAsyncio.Source.Reqq (JInt reqPri etpSubmitPri priIndex submitIndex priIndex_submit)
open WebbitAsyncio.Source.EventLoop (Obj Ref)
open WebbitAsyncio.Source.EioRequest WebbitAsyncio.Source.JniSubmit WebbitAsyncio.Source.JavaApi

/-- The memory still to be allocated by a call is new. -/
abbrev FreshMemory (ctx : Context) (pending : List Site) (w : World) : Prop :=
  Fresh ctx.memory 0 pending w.heap

/-- So are the handles. -/
structure FreshRefs (ctx : Context) (w : World) : Prop where
  vacant : ∀ site r, ctx.ref site = some r → w.refs r = none
  distinct : ∀ r, ctx.ref .callback = some r → ctx.ref .request ≠ some r

/-- The world with other contents at one address. -/
def put (w : World) (a : Pointer) (b : Option Block) : World :=
  { w with heap := Function.update w.heap a b }

theorem put_self (w : World) (a : Pointer) (b : Option Block) : (put w a b).heap a = b :=
  Function.update_self ..

theorem put_other (w : World) {a c : Pointer} (b : Option Block) (different : c ≠ a) :
    (put w a b).heap c = w.heap c :=
  Function.update_of_ne different ..

theorem put_put (w : World) (a : Pointer) (b b' : Option Block) :
    put (put w a b) a b' = put w a b' := by
  simp only [put, Function.update_idem]

theorem store_apply (a : Pointer) (b : Block) (w : World) :
    store a b w = some ((), put w a (some b)) := rfl

theorem free_apply (a : Pointer) (w : World) : free a w = some ((), put w a none) := rfl

/-! ### `alloc_java_data` -/

/-- The handle that `NewGlobalRef` returns. -/
def handleOf (answer : Option Ref) (obj : Option Obj) : Option Ref := obj.bind fun _ => answer

def registered (refs : Ref → Option Obj) (answer : Option Ref) (obj : Option Obj) :
    Ref → Option Obj :=
  match obj, answer with
  | some obj, some ref => Function.update refs ref (some obj)
  | _, _ => refs

theorem newGlobalRef_apply (answer : Option Ref) (obj : Option Obj) (w : World) :
    newGlobalRef answer obj w =
      some (handleOf answer obj, { w with refs := registered w.refs answer obj }) := by
  cases obj <;> cases answer <;> rfl

/-- A handle returned refers to the object. -/
theorem registered_handle (refs : Ref → Option Obj) {answer : Option Ref} {obj : Option Obj}
    {r : Ref} (got : handleOf answer obj = some r) : registered refs answer obj r = obj := by
  cases obj with
  | none => cases got
  | some obj =>
    have same : answer = some r := got
    simp [registered, same]

/-- The other handles refer to what they did. -/
theorem registered_other (refs : Ref → Option Obj) (obj : Option Obj) {answer : Option Ref} {r : Ref}
    (other : answer ≠ some r) : registered refs answer obj r = refs r := by
  unfold registered
  split
  next ref =>
    have different : r ≠ ref := fun same => other (by rw [same])
    exact Function.update_of_ne different _ _
  next => rfl

/-- The `java_data` of a call, with the handle of the wrapper once it is stored. -/
def dataOf (ctx : Context) (callback : Option Obj) (request : Option Ref) : JavaData :=
  ⟨ctx.env, handleOf (ctx.ref .callback) callback, request, false⟩

/-- The world after `alloc_java_data`. -/
def prepared (ctx : Context) (callback : Option Obj) (data : Pointer) (w : World) : World :=
  { w with
    refs := registered w.refs (ctx.ref .callback) callback
    heap := Function.update w.heap data (some (.data (dataOf ctx callback none))) }

theorem allocJavaData_apply {ctx : Context} {data : Pointer} (callback : Option Obj) (w : World)
    (answered : ctx.memory .javaData = some data) :
    allocJavaData ctx callback w = some (data, prepared ctx callback data w) := by
  simp only [allocJavaData, answered, bind_apply, newGlobalRef_apply, Option.bind_some, store_apply,
    pure_apply]
  rfl

theorem allocJavaData_none {ctx : Context} (callback : Option Obj) (w : World)
    (refused : ctx.memory .javaData = none) : allocJavaData ctx callback w = none := by
  simp only [allocJavaData, refused, failure_apply]

/-! ### `wrap_request` -/

/-- What `NewObject` returns. -/
def wrapperOf (ctx : Context) : Option Obj := ctx.wrapper.map .wrapper

/-- What a submit operation returns. -/
def returned (ctx : Context) : Option Ref := handleOf (ctx.ref .request) (wrapperOf ctx)

/-- The world after `wrap_request`. -/
def wrapped (ctx : Context) (callback : Option Obj) (data req : Pointer) (w : World) : World :=
  { w with
    refs := registered w.refs (ctx.ref .request) (wrapperOf ctx)
    wrappers := match ctx.wrapper with
      | some n => Function.update w.wrappers n (some req)
      | none => w.wrappers
    heap := Function.update w.heap data (some (.data (dataOf ctx callback (returned ctx)))) }

theorem newObject_apply (ctx : Context) (req : Pointer) (w : World) :
    newObject ctx.wrapper req w = some (wrapperOf ctx, { w with
      wrappers := match ctx.wrapper with
        | some n => Function.update w.wrappers n (some req)
        | none => w.wrappers }) := by
  cases wrapper : ctx.wrapper with
  | none =>
    simp only [newObject, pure_apply, wrapperOf, wrapper]
    rfl
  | some n =>
    simp only [newObject, bind_apply, modify_apply, Option.bind_some, pure_apply, wrapperOf, wrapper]
    rfl

theorem wrapRequest_apply {ctx : Context} {callback : Option Obj} {data : Pointer} {w : World}
    (req : Pointer) (there : w.heap data = some (.data (dataOf ctx callback none))) :
    wrapRequest ctx data req w = some (returned ctx, wrapped ctx callback data req w) := by
  simp only [wrapRequest, bind_apply, newObject_apply, newGlobalRef_apply, Option.bind_some,
    readData, get_apply, there, store_apply, pure_apply]
  rfl

/-! ### The path buffers -/

/-- The world after `GetStringUTFChars`. -/
def acquire (s : JString) (chars : Pointer) (w : World) : World :=
  { w with
    heap := Function.update w.heap chars (some (.chars (modifiedUtf8 s.units ++ [0])))
    acquired := (s, chars) :: w.acquired }

/-- The world after `ReleaseStringUTFChars`. -/
def release (s : JString) (chars : Pointer) (w : World) : World :=
  { w with
    heap := Function.update w.heap chars none
    released := (s, chars) :: w.released }

theorem getStringUTFChars_apply (s : JString) (chars : Pointer) (w : World) :
    getStringUTFChars (some chars) (some s) w = some (chars, acquire s chars w) := by
  simp only [getStringUTFChars, bind_apply, store_apply, modify_apply, Option.bind_some, pure_apply]
  rfl

/-- A buffer that could not be had is null. -/
theorem getStringUTFChars_returns (answer : Option Pointer) (s : JString) (w : World) :
    ∃ chars w', getStringUTFChars answer (some s) w = some (chars, w') ∧ (answer = none → chars = 0) := by
  cases answer with
  | none => exact ⟨0, w, by simp only [getStringUTFChars, pure_apply], fun _ => rfl⟩
  | some chars =>
    refine ⟨chars, _, getStringUTFChars_apply s chars w, fun refused => ?_⟩
    cases refused

theorem getStringUTFChars_null (answer : Option Pointer) (w : World) :
    getStringUTFChars answer none w = none := by
  simp only [getStringUTFChars, failure_apply]

theorem releaseStringUTFChars_apply (s : JString) {chars : Pointer} (w : World)
    (nonzero : chars ≠ 0) :
    releaseStringUTFChars (some s) chars w = some ((), release s chars w) := by
  simp only [releaseStringUTFChars, if_neg nonzero, bind_apply, free_apply, modify_apply, Option.bind_some]
  rfl

/-- A null string or a null buffer is undefined behaviour. -/
theorem releaseStringUTFChars_none {s : Option JString} {chars : Pointer} (w : World)
    (null : s = none ∨ chars = 0) : releaseStringUTFChars s chars w = none := by
  cases s with
  | none => simp only [releaseStringUTFChars, failure_apply]
  | some s =>
    have zero : chars = 0 := by simpa using null
    simp only [releaseStringUTFChars, zero, if_true, bind_apply, failure_apply, Option.bind_none]

/-- A buffer holds a C string: the encoding has no NUL. -/
theorem cString_chars {heap : Pointer → Option Block} {a : Pointer} {bytes : List Byte}
    (noNul : 0 ∉ bytes) (there : heap a = some (.chars (bytes ++ [0]))) :
    cString heap a = some bytes := by
  have stop : (bytes ++ [0]).takeWhile (· ≠ 0) = bytes := by
    rw [List.takeWhile_append_of_pos]
    · simp
    · intro b member
      have nonzero : b ≠ 0 := fun zero => noNul (zero ▸ member)
      simpa using nonzero
  simp only [cString, there, stop]
  simp

/-! ### The constructors -/

/-- The request as `etp_submit` leaves it. -/
def clamped (r : EioReq) : EioReq := { r with pri := etpSubmitPri r.pri }

/-- Since `w`, the request `r` has been put in the queue. -/
structure Queued (w : World) (req : Pointer) (r : EioReq) (w' : World) : Prop where
  nonzero : req ≠ 0
  block : w'.heap req = some (.req r)
  queue : ∃ i, w'.reqQueue = w.reqQueue.push i req
  nreqs : w'.nreqs = w.nreqs + 1

/-- A constructor uses neither JNI nor the blocks there are. -/
structure Kept (w w' : World) : Prop where
  refs : w'.refs = w.refs
  wrappers : w'.wrappers = w.wrappers
  acquired : w'.acquired = w.acquired
  released : w'.released = w.released
  heap : ∀ a b, w.heap a = some b → w'.heap a = some b

/-- It has returned null. -/
structure Refused (w w' : World) : Prop extends Kept w w' where
  nreqs : w'.nreqs = w.nreqs
  reqQueue : w'.reqQueue = w.reqQueue

theorem Refused.refl (w : World) : Refused w w :=
  ⟨⟨rfl, rfl, rfl, rfl, fun _ _ there => there⟩, rfl, rfl⟩

/-- The world after `SEND`. -/
def sent (pri : JInt) (req : Pointer) (r : EioReq) (w : World) : World :=
  { put w req (some (.req (clamped r))) with
    nreqs := w.nreqs + 1
    nready := w.nready + 1
    reqQueue := w.reqQueue.push (submitIndex pri) req }

theorem eioSubmit_apply {w : World} {req : Pointer} {r : EioReq} {pri : JInt}
    (there : w.heap req = some (.req r)) (told : r.pri = reqPri pri) :
    eioSubmit req w = some ((), sent pri req r w) := by
  have index : priIndex (etpSubmitPri r.pri) = some (submitIndex pri) := by
    rw [told, priIndex_submit]
  simp only [eioSubmit, readReq, bind_apply, get_apply, Option.bind_some, there, pure_apply, index,
    store_apply, modify_apply]
  rfl

/-- `SEND`, after the last store into the request. -/
theorem send_apply (pri : JInt) (req : Pointer) {r : EioReq} (told : r.pri = reqPri pri) (w : World) :
    eioSubmit req (put w req (some (.req r))) = some ((), sent pri req r w) := by
  rw [eioSubmit_apply (put_self ..) told]
  simp only [sent, put_put]
  rfl

theorem sent_other (pri : JInt) {req a : Pointer} (r : EioReq) (w : World) (different : a ≠ req) :
    (sent pri req r w).heap a = w.heap a :=
  put_other w _ different

/-- A request is being built at `req`; the sites in `rest` are still to come. -/
structure Building (ctx : Context) (rest : List Site) (req : Pointer) (w w' : World) : Prop
    extends Refused w w' where
  nonzero : req ≠ 0
  absent : w.heap req = none
  block : ∃ b, w'.heap req = some b
  fresh : FreshMemory ctx rest w'

section
variable {ctx : Context} {site : Site} {rest : List Site} {w w' : World} {req : Pointer}

theorem Building.start (fresh : FreshMemory ctx (.req :: rest) w)
    (answered : ctx.memory .req = some req) (others : .req ∉ rest) (r : EioReq) :
    Building ctx rest req w (put w req (some (.req r))) := by
  obtain ⟨nonzero, absent⟩ := fresh.vacant .req (by simp) req answered
  refine ⟨⟨⟨rfl, rfl, rfl, rfl, ?_⟩, rfl, rfl⟩, nonzero, absent, ⟨_, put_self ..⟩, ?_⟩
  · intro a b there
    exact fresh.kept (by simp) answered there
  · exact fresh.used answered others _

/-- The copy of a path is stored. -/
theorem Building.copy {copy : Pointer} (building : Building ctx (site :: rest) req w w')
    (answered : ctx.memory site = some copy) (others : site ∉ rest) (b : Block) :
    Building ctx rest req w (put w' copy (some b)) := by
  obtain ⟨block, there⟩ := building.block
  refine ⟨⟨⟨building.refs, building.wrappers, building.acquired, building.released, ?_⟩,
    building.nreqs, building.reqQueue⟩, building.nonzero, building.absent, ⟨block, ?_⟩, ?_⟩
  · intro a b there
    exact building.fresh.kept (by simp) answered (building.heap a b there)
  · exact building.fresh.kept (by simp) answered there
  · exact building.fresh.used answered others _

/-- It is elsewhere than the request. -/
theorem Building.copy_ne {copy : Pointer} (building : Building ctx (site :: rest) req w w')
    (answered : ctx.memory site = some copy) : copy ≠ req ∧ copy ≠ 0 := by
  obtain ⟨block, there⟩ := building.block
  have apart := building.fresh.apart (by simp) answered there
  exact ⟨apart.symm, (building.fresh.vacant site (by simp) copy answered).1⟩

theorem Building.apart (building : Building ctx rest req w w') {a : Pointer} {b : Block}
    (there : w.heap a = some b) : a ≠ req := by
  rintro rfl
  rw [building.absent] at there
  cases there

theorem Building.send (building : Building ctx rest req w w') (pri : JInt) (r : EioReq) :
    Queued w req (clamped r) (sent pri req r w') ∧ Kept w (sent pri req r w') := by
  constructor
  · refine ⟨building.nonzero, put_self .., ⟨submitIndex pri, ?_⟩, ?_⟩
    · simp only [sent, building.reqQueue]
    · simp only [sent, building.nreqs]
  · refine ⟨building.refs, building.wrappers, building.acquired, building.released,
      fun a b there => ?_⟩
    have other := put_other w' (some (.req (clamped r))) (building.apart there)
    exact other.trans (building.heap a b there)

theorem Building.destroy (building : Building ctx rest req w w') : Refused w (put w' req none) := by
  refine ⟨⟨building.refs, building.wrappers, building.acquired, building.released,
    fun a b there => ?_⟩, building.nreqs, building.reqQueue⟩
  rw [put_other w' none (building.apart there), building.heap a b there]

end

/-! ### Copies of strings -/

theorem cString_there {heap : Pointer → Option Block} {a : Pointer} {bytes : List Byte}
    (text : cString heap a = some bytes) : ∃ b, heap a = some (.chars b) := by
  unfold cString at text
  split at text
  next b there => exact ⟨b, there⟩
  next => cases text

theorem cString_noNul {heap : Pointer → Option Block} {a : Pointer} {bytes : List Byte}
    (text : cString heap a = some bytes) : 0 ∉ bytes := by
  unfold cString at text
  split at text
  next b there =>
    split at text
    next =>
      cases text
      intro member
      have nonzero := List.mem_takeWhile_imp member
      simp at nonzero
    next => cases text
  next => cases text

theorem cString_kept {heap heap' : Pointer → Option Block} {a : Pointer} {bytes : List Byte}
    (text : cString heap a = some bytes) (kept : ∀ a b, heap a = some b → heap' a = some b) :
    cString heap' a = some bytes := by
  obtain ⟨b, there⟩ := cString_there text
  rw [cString, there] at text
  rw [cString, kept a _ there]
  exact text

section
variable {w : World} {s copy : Pointer} {bytes : List Byte}

theorem strdup_apply (text : cString w.heap s = some bytes) :
    strdup (some copy) s w = some (copy, put w copy (some (.chars (bytes ++ [0])))) := by
  simp only [strdup, bind_apply, get_apply, Option.bind_some, text, store_apply, pure_apply]

theorem strdup_refused (text : cString w.heap s = some bytes) :
    strdup none s w = some (0, w) := by
  simp only [strdup, bind_apply, get_apply, Option.bind_some, text, pure_apply]

end

/-! ### What the constructors do -/

section
variable {ctx : Context} {w : World} {req : Pointer} {fill : EioReq → EioReq}

theorem eioRequest_queued (type : EioType) (pri : JInt) (data : Pointer)
    (fresh : FreshMemory ctx [.req] w) (answered : ctx.memory .req = some req) (fills : Fills fill) :
    ∃ w', eioRequest ctx type fill pri data w = some (req, w') ∧
      Queued w req (clamped (fill (newReq type pri data))) w' ∧ Kept w w' := by
  have building := Building.start fresh answered (by simp) (fill (newReq type pri data))
  refine ⟨_, ?_, building.send pri (fill (newReq type pri data))⟩
  have submit := eioSubmit_apply (put_self w req (some (.req (fill (newReq type pri data)))))
    (fills (newReq type pri data)).1
  simp only [eioRequest, answered, bind_apply, store_apply, Option.bind_some, submit, pure_apply]

theorem eioRequest_refused (fill : EioReq → EioReq) (type : EioType) (pri : JInt) (data : Pointer)
    (refused : ctx.memory .req = none) :
    eioRequest ctx type fill pri data w = some (0, w) := by
  simp only [eioRequest, refused, pure_apply]

variable {path newPath ptr1 ptr2 : Pointer} {bytes newBytes : List Byte}

/-- The request as `PATH` leaves it. -/
def pathReq (type : EioType) (pri : JInt) (data ptr1 : Pointer) : EioReq :=
  { newReq type pri data with ptr1 := ptr1, ptr1Free := true }

theorem eioPathRequest_queued (type : EioType) (pri : JInt) (data : Pointer)
    (fresh : FreshMemory ctx [.req, .ptr1] w) (answered : ctx.memory .req = some req)
    (copied : ctx.memory .ptr1 = some ptr1) (text : cString w.heap path = some bytes)
    (fills : Fills fill) :
    ∃ w', eioPathRequest ctx type path fill pri data w = some (req, w') ∧
      Queued w req (clamped (fill (pathReq type pri data ptr1))) w' ∧ Kept w w' ∧
      cString w'.heap ptr1 = some bytes := by
  have start := Building.start fresh answered (by simp) (newReq type pri data)
  have text' := cString_kept text start.heap
  obtain ⟨different, nonzero⟩ := start.copy_ne copied
  have building := start.copy copied (by simp) (.chars (bytes ++ [0]))
  obtain ⟨queued, kept⟩ := building.send pri (fill (pathReq type pri data ptr1))
  refine ⟨_, ?_, queued, kept, ?_⟩
  · have submit := send_apply pri req (fills (pathReq type pri data ptr1)).1
    unfold pathReq at submit ⊢
    simp only [eioPathRequest, answered, copied, bind_apply, store_apply, Option.bind_some,
      strdup_apply text', if_neg nonzero, submit, pure_apply]
  · apply cString_chars (cString_noNul text)
    rw [sent_other pri _ _ different, put_self]

theorem eioPathRequest_refused (fill : EioReq → EioReq) (type : EioType) (pri : JInt) (data : Pointer)
    (fresh : FreshMemory ctx [.req, .ptr1] w) (text : cString w.heap path = some bytes)
    (refused : ctx.memory .req = none ∨ ctx.memory .ptr1 = none) :
    ∃ w', eioPathRequest ctx type path fill pri data w = some (0, w') ∧ Refused w w' := by
  cases answered : ctx.memory .req with
  | none => exact ⟨w, by simp only [eioPathRequest, answered, pure_apply], .refl w⟩
  | some req =>
    have noCopy : ctx.memory .ptr1 = none := by simpa [answered] using refused
    have start := Building.start fresh answered (by simp) (newReq type pri data)
    have text' := cString_kept text start.heap
    refine ⟨_, ?_, start.destroy⟩
    simp only [eioPathRequest, answered, noCopy, bind_apply, store_apply, Option.bind_some,
      strdup_refused text', if_true, free_apply, pure_apply]

theorem eio2path_queued (type : EioType) (pri : JInt) (data : Pointer)
    (fresh : FreshMemory ctx [.req, .ptr1, .ptr2] w) (answered : ctx.memory .req = some req)
    (copied : ctx.memory .ptr1 = some ptr1) (newCopied : ctx.memory .ptr2 = some ptr2)
    (text : cString w.heap path = some bytes) (newText : cString w.heap newPath = some newBytes) :
    ∃ w', eio2path ctx type path newPath pri data w = some (req, w') ∧
      Queued w req
        (clamped { pathReq type pri data ptr1 with ptr2 := ptr2, ptr2Free := true }) w' ∧
      Kept w w' ∧ cString w'.heap ptr1 = some bytes ∧ cString w'.heap ptr2 = some newBytes := by
  have start := Building.start fresh answered (by simp) (newReq type pri data)
  have text' := cString_kept text start.heap
  obtain ⟨different, nonzero⟩ := start.copy_ne copied
  have second := start.copy copied (by simp) (.chars (bytes ++ [0]))
  have newText' := cString_kept newText second.heap
  obtain ⟨newDifferent, newNonzero⟩ := second.copy_ne newCopied
  have building := second.copy newCopied (by simp) (.chars (newBytes ++ [0]))
  obtain ⟨queued, kept⟩ := building.send pri
    { pathReq type pri data ptr1 with ptr2 := ptr2, ptr2Free := true }
  refine ⟨_, ?_, queued, kept, ?_, ?_⟩
  · have submit := send_apply pri req
      (r := { pathReq type pri data ptr1 with ptr2 := ptr2, ptr2Free := true }) rfl
    unfold pathReq at submit ⊢
    simp only [eio2path, answered, copied, newCopied, bind_apply, store_apply, Option.bind_some,
      strdup_apply text', strdup_apply newText', if_neg nonzero, if_neg newNonzero, submit, pure_apply]
  · apply cString_chars (cString_noNul text)
    have apart := second.fresh.apart (by simp) newCopied (put_self _ ptr1 _)
    rw [sent_other pri _ _ different, put_other _ _ apart, put_self]
  · apply cString_chars (cString_noNul newText)
    rw [sent_other pri _ _ newDifferent, put_self]

theorem eio2path_refused (type : EioType) (pri : JInt) (data : Pointer)
    (fresh : FreshMemory ctx [.req, .ptr1, .ptr2] w) (text : cString w.heap path = some bytes)
    (newText : cString w.heap newPath = some newBytes)
    (refused : ctx.memory .req = none ∨ ctx.memory .ptr1 = none ∨ ctx.memory .ptr2 = none) :
    ∃ w', eio2path ctx type path newPath pri data w = some (0, w') ∧ Refused w w' := by
  cases answered : ctx.memory .req with
  | none => exact ⟨w, by simp only [eio2path, answered, pure_apply], .refl w⟩
  | some req =>
    have start := Building.start fresh answered (by simp) (newReq type pri data)
    have text' := cString_kept text start.heap
    cases copied : ctx.memory .ptr1 with
    | none =>
      refine ⟨_, ?_, start.destroy⟩
      simp only [eio2path, answered, copied, bind_apply, store_apply, Option.bind_some,
        strdup_refused text', if_true, free_apply, pure_apply]
    | some ptr1 =>
      have noCopy : ctx.memory .ptr2 = none := by simpa [answered, copied] using refused
      obtain ⟨_, nonzero⟩ := start.copy_ne copied
      have second := start.copy copied (by simp) (.chars (bytes ++ [0]))
      have newText' := cString_kept newText second.heap
      refine ⟨_, ?_, second.destroy⟩
      simp only [eio2path, answered, copied, noCopy, bind_apply, store_apply, Option.bind_some,
        strdup_apply text', strdup_refused newText', if_neg nonzero, if_true, free_apply, pure_apply]

end

end WebbitAsyncio.Invariants.Submission
