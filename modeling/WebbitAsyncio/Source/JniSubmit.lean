import WebbitAsyncio.Source.EioRequest
import WebbitAsyncio.Source.EventLoop

/-!
# The submit operations, from the JNI call to libeio's queue

`alloc_java_data`, `wrap_request` and the 39 JNI functions of asyncio.c:73-359 over
the constructors of requests in eio.c:1643-2002, run by one thread without
interruption, with every allocation they make free to fail. What the allocators
answer is in the `Context` of the call. A step whose behaviour C or JNI leaves
undefined (a null pointer dereferenced, a null string passed to a string function)
is `none`.

The buffers of `GetStringUTFChars` live in the heap; releasing one frees it, and
both calls are logged with the string they name. Waking and starting workers is the
subject of `EventLoop`.
-/
namespace WebbitAsyncio.Source.JniSubmit
open WebbitAsyncio.Lib WebbitAsyncio.Lib.Utf16
open WebbitAsyncio.Source.Reqq (JInt numPri reqPri etpSubmitPri priIndex)
open WebbitAsyncio.Source.EventLoop (Obj Ref UInt)
open WebbitAsyncio.Source.EioRequest

/-- A `java.lang.String` object. -/
structure JString where
  object : Nat
  units : List CodeUnit
  deriving DecidableEq, Repr

structure JavaData where
  env : Pointer
  javaCallback : Option Ref
  javaRequest : Option Ref
  complete : Bool
  deriving DecidableEq, Repr

inductive Block where
  | data (d : JavaData)
  | req (r : EioReq)
  | chars (bytes : List Byte)
  deriving DecidableEq, Repr

structure World where
  heap : Pointer → Option Block
  refs : Ref → Option Obj
  /-- The address in each `RequestWrapper`. -/
  wrappers : Nat → Option Pointer
  reqQueue : Buckets numPri Pointer
  nreqs : UInt
  nready : UInt
  /-- The calls of `GetStringUTFChars` that returned a buffer, the latest first. -/
  acquired : List (JString × Pointer)
  released : List (JString × Pointer)

/-- The places at which a submit operation asks for memory. -/
inductive Site where
  | javaData
  | pathChars
  | newPathChars
  | req
  | ptr1
  | ptr2
  deriving DecidableEq, Repr

/-- The references it asks for. -/
inductive RefSite where
  | callback
  | request
  deriving DecidableEq, Repr

/-- The thread's `JNIEnv`, and what each allocation of the call yields; `none` is
its failure. `wrapper` is the object that `NewObject` makes. -/
structure Context where
  env : Pointer
  memory : Site → Option Pointer
  ref : RefSite → Option Ref
  wrapper : Option Nat

/-- C code over a `World`; `none` is undefined behaviour. -/
abbrev C : Type → Type := StateT World Option

/-! ### Memory and JNI -/

def store (a : Pointer) (b : Block) : C Unit :=
  modify fun w => { w with heap := Function.update w.heap a (some b) }

def free (a : Pointer) : C Unit :=
  modify fun w => { w with heap := Function.update w.heap a none }

def readReq (a : Pointer) : C EioReq := do
  match (← get).heap a with
  | some (.req r) => return r
  | _ => failure

def readData (a : Pointer) : C JavaData := do
  match (← get).heap a with
  | some (.data d) => return d
  | _ => failure

/-- The bytes before the NUL, if the address is that of a string. -/
def cString (heap : Pointer → Option Block) (a : Pointer) : Option (List Byte) :=
  match heap a with
  | some (.chars bytes) => if 0 ∈ bytes then some (bytes.takeWhile (· ≠ 0)) else none
  | _ => none

def strdup (answer : Option Pointer) (s : Pointer) : C Pointer := do
  match cString (← get).heap s, answer with
  | none, _ => failure
  | some _, none => return 0
  | some bytes, some copy =>
    store copy (.chars (bytes ++ [0]))
    return copy

/-- `NewGlobalRef` of null is null. -/
def newGlobalRef (answer : Option Ref) (obj : Option Obj) : C (Option Ref) := do
  match obj, answer with
  | some obj, some ref =>
    modify fun w => { w with refs := Function.update w.refs ref (some obj) }
    return some ref
  | _, _ => return none

/-- `NewObject (env, req_class, req_constructor, (jlong)req)`. -/
def newObject (answer : Option Nat) (req : Pointer) : C (Option Obj) := do
  match answer with
  | none => return none
  | some wrapper =>
    modify fun w => { w with wrappers := Function.update w.wrappers wrapper (some req) }
    return some (.wrapper wrapper)

def getStringUTFChars (answer : Option Pointer) (s : Option JString) : C Pointer := do
  match s, answer with
  | none, _ => failure
  | some _, none => return 0
  | some s, some chars =>
    store chars (.chars (modifiedUtf8 s.units ++ [0]))
    modify fun w => { w with acquired := (s, chars) :: w.acquired }
    return chars

def releaseStringUTFChars (s : Option JString) (chars : Pointer) : C Unit := do
  match s with
  | none => failure
  | some s =>
    if chars = 0 then failure
    free chars
    modify fun w => { w with released := (s, chars) :: w.released }

/-- `bzero` is the first to touch the block. -/
def allocJavaData (ctx : Context) (callback : Option Obj) : C Pointer := do
  match ctx.memory .javaData with
  | none => failure
  | some data =>
    let handle ← newGlobalRef (ctx.ref .callback) callback
    store data (.data ⟨ctx.env, handle, none, false⟩)
    return data

/-- The address of the request is wrapped whether or not it is null. -/
def wrapRequest (ctx : Context) (data req : Pointer) : C (Option Ref) := do
  let obj ← newObject ctx.wrapper req
  let handle ← newGlobalRef (ctx.ref .request) obj
  let d ← readData data
  store data (.data { d with javaRequest := handle })
  return handle

/-! ### The constructors of requests -/

/-- `etp_submit`. -/
def eioSubmit (req : Pointer) : C Unit := do
  let r ← readReq req
  let pri := etpSubmitPri r.pri
  match priIndex pri with
  | none => failure
  | some index =>
    store req (.req { r with pri := pri })
    modify fun w => { w with
      nreqs := w.nreqs + 1, nready := w.nready + 1, reqQueue := w.reqQueue.push index req }

/-- What `REQ` stores. -/
def newReq (type : EioType) (pri : JInt) (data : Pointer) : EioReq :=
  { type := type, pri := reqPri pri, data := data }

/-- `REQ (type); fill; SEND`. -/
def eioRequest (ctx : Context) (type : EioType) (fill : EioReq → EioReq) (pri : JInt)
    (data : Pointer) : C Pointer := do
  match ctx.memory .req with
  | none => return 0
  | some req =>
    store req (.req (fill (newReq type pri data)))
    eioSubmit req
    return req

/-- `REQ (type); PATH; fill; SEND`. -/
def eioPathRequest (ctx : Context) (type : EioType) (path : Pointer) (fill : EioReq → EioReq)
    (pri : JInt) (data : Pointer) : C Pointer := do
  match ctx.memory .req with
  | none => return 0
  | some req =>
    store req (.req (newReq type pri data))
    let ptr1 ← strdup (ctx.memory .ptr1) path
    if ptr1 = 0 then
      free req
      return 0
    else
      store req (.req (fill { newReq type pri data with ptr1 := ptr1, ptr1Free := true }))
      eioSubmit req
      return req

/-- The second `strdup` comes after `PATH`; its failure frees the request and not
the first copy. -/
def eio2path (ctx : Context) (type : EioType) (path newPath : Pointer) (pri : JInt)
    (data : Pointer) : C Pointer := do
  match ctx.memory .req with
  | none => return 0
  | some req =>
    store req (.req (newReq type pri data))
    let ptr1 ← strdup (ctx.memory .ptr1) path
    if ptr1 = 0 then
      free req
      return 0
    else
      let ptr2 ← strdup (ctx.memory .ptr2) newPath
      if ptr2 = 0 then
        free req
        return 0
      else
        store req (.req { newReq type pri data with
          ptr1 := ptr1, ptr1Free := true, ptr2 := ptr2, ptr2Free := true })
        eioSubmit req
        return req

variable (abi : Abi)

def eioNop (ctx : Context) : JInt → Pointer → C Pointer := eioRequest ctx .nop id

def eioBusy (ctx : Context) (delay : Double) : JInt → Pointer → C Pointer :=
  eioRequest ctx .busy fun r => { r with nv1 := delay }

def eioSync (ctx : Context) : JInt → Pointer → C Pointer := eioRequest ctx .sync id

def eioFsync (ctx : Context) (fd : CInt) : JInt → Pointer → C Pointer :=
  eioRequest ctx .fsync fun r => { r with int1 := fd }

def eioFdatasync (ctx : Context) (fd : CInt) : JInt → Pointer → C Pointer :=
  eioRequest ctx .fdatasync fun r => { r with int1 := fd }

def eioMsync (ctx : Context) (addr : Pointer) (length : SizeT) (flags : CInt) :
    JInt → Pointer → C Pointer :=
  eioRequest ctx .msync fun r => { r with ptr2 := addr, size := length, int1 := flags }

def eioMtouch (ctx : Context) (addr : Pointer) (length : SizeT) (flags : CInt) :
    JInt → Pointer → C Pointer :=
  eioRequest ctx .mtouch fun r => { r with ptr2 := addr, size := length, int1 := flags }

def eioMlock (ctx : Context) (addr : Pointer) (length : SizeT) : JInt → Pointer → C Pointer :=
  eioRequest ctx .mlock fun r => { r with ptr2 := addr, size := length }

def eioMlockall (ctx : Context) (flags : CInt) : JInt → Pointer → C Pointer :=
  eioRequest ctx .mlockall fun r => { r with int1 := flags }

def eioSyncFileRange (ctx : Context) (fd : CInt) (offset : OffT) (nbytes : SizeT) (flags : CInt) :
    JInt → Pointer → C Pointer :=
  eioRequest ctx .syncFileRange fun r => { r with
    int1 := fd, offs := offset, size := nbytes, int2 := flags.setWidth 64 }

def eioClose (ctx : Context) (fd : CInt) : JInt → Pointer → C Pointer :=
  eioRequest ctx .close fun r => { r with int1 := fd }

def eioReadahead (ctx : Context) (fd : CInt) (offset : OffT) (length : SizeT) :
    JInt → Pointer → C Pointer :=
  eioRequest ctx .readahead fun r => { r with int1 := fd, offs := offset, size := length }

def eioRead (ctx : Context) (fd : CInt) (buf : Pointer) (length : SizeT) (offset : OffT) :
    JInt → Pointer → C Pointer :=
  eioRequest ctx .read fun r => { r with int1 := fd, offs := offset, size := length, ptr2 := buf }

def eioWrite (ctx : Context) (fd : CInt) (buf : Pointer) (length : SizeT) (offset : OffT) :
    JInt → Pointer → C Pointer :=
  eioRequest ctx .write fun r => { r with int1 := fd, offs := offset, size := length, ptr2 := buf }

def eioFstat (ctx : Context) (fd : CInt) : JInt → Pointer → C Pointer :=
  eioRequest ctx .fstat fun r => { r with int1 := fd }

def eioFstatvfs (ctx : Context) (fd : CInt) : JInt → Pointer → C Pointer :=
  eioRequest ctx .fstatvfs fun r => { r with int1 := fd }

def eioFutime (ctx : Context) (fd : CInt) (atime mtime : Double) : JInt → Pointer → C Pointer :=
  eioRequest ctx .futime fun r => { r with int1 := fd, nv1 := atime, nv2 := mtime }

def eioFtruncate (ctx : Context) (fd : CInt) (offset : OffT) : JInt → Pointer → C Pointer :=
  eioRequest ctx .ftruncate fun r => { r with int1 := fd, offs := offset }

def eioFchmod (ctx : Context) (fd : CInt) (mode : ModeT abi) : JInt → Pointer → C Pointer :=
  eioRequest ctx .fchmod fun r => { r with int1 := fd, int2 := mode.setWidth 64 }

def eioFchown (ctx : Context) (fd : CInt) (uid gid : OwnerT abi) : JInt → Pointer → C Pointer :=
  eioRequest ctx .fchown fun r => { r with
    int1 := fd, int2 := uid.setWidth 64, int3 := gid.setWidth 64 }

def eioDup2 (ctx : Context) (fd fd2 : CInt) : JInt → Pointer → C Pointer :=
  eioRequest ctx .dup2 fun r => { r with int1 := fd, int2 := fd2.signExtend 64 }

def eioSendfile (ctx : Context) (outFd inFd : CInt) (inOffset : OffT) (length : SizeT) :
    JInt → Pointer → C Pointer :=
  eioRequest ctx .sendfile fun r => { r with
    int1 := outFd, int2 := inFd.signExtend 64, offs := inOffset, size := length }

def eioOpen (ctx : Context) (path : Pointer) (flags : CInt) (mode : ModeT abi) :
    JInt → Pointer → C Pointer :=
  eioPathRequest ctx .open_ path fun r => { r with int1 := flags, int2 := mode.setWidth 64 }

def eioUtime (ctx : Context) (path : Pointer) (atime mtime : Double) : JInt → Pointer → C Pointer :=
  eioPathRequest ctx .utime path fun r => { r with nv1 := atime, nv2 := mtime }

def eioTruncate (ctx : Context) (path : Pointer) (offset : OffT) : JInt → Pointer → C Pointer :=
  eioPathRequest ctx .truncate path fun r => { r with offs := offset }

def eioChown (ctx : Context) (path : Pointer) (uid gid : OwnerT abi) : JInt → Pointer → C Pointer :=
  eioPathRequest ctx .chown path fun r => { r with
    int2 := uid.setWidth 64, int3 := gid.setWidth 64 }

def eioChmod (ctx : Context) (path : Pointer) (mode : ModeT abi) : JInt → Pointer → C Pointer :=
  eioPathRequest ctx .chmod path fun r => { r with int2 := mode.setWidth 64 }

def eioMkdir (ctx : Context) (path : Pointer) (mode : ModeT abi) : JInt → Pointer → C Pointer :=
  eioPathRequest ctx .mkdir path fun r => { r with int2 := mode.setWidth 64 }

def eio1path (ctx : Context) (type : EioType) (path : Pointer) : JInt → Pointer → C Pointer :=
  eioPathRequest ctx type path id

def eioReadlink (ctx : Context) (path : Pointer) : JInt → Pointer → C Pointer :=
  eio1path ctx .readlink path

def eioStat (ctx : Context) (path : Pointer) : JInt → Pointer → C Pointer := eio1path ctx .stat path

def eioLstat (ctx : Context) (path : Pointer) : JInt → Pointer → C Pointer := eio1path ctx .lstat path

def eioStatvfs (ctx : Context) (path : Pointer) : JInt → Pointer → C Pointer :=
  eio1path ctx .statvfs path

def eioUnlink (ctx : Context) (path : Pointer) : JInt → Pointer → C Pointer :=
  eio1path ctx .unlink path

def eioRmdir (ctx : Context) (path : Pointer) : JInt → Pointer → C Pointer := eio1path ctx .rmdir path

def eioReaddir (ctx : Context) (path : Pointer) (flags : CInt) : JInt → Pointer → C Pointer :=
  eioPathRequest ctx .readdir path fun r => { r with int1 := flags }

def eioMknod (ctx : Context) (path : Pointer) (mode : ModeT abi) (dev : DevT abi) :
    JInt → Pointer → C Pointer :=
  eioPathRequest ctx .mknod path fun r => { r with
    int2 := mode.setWidth 64, offs := dev.setWidth 64 }

def eioLink (ctx : Context) (path newPath : Pointer) : JInt → Pointer → C Pointer :=
  eio2path ctx .link path newPath

def eioSymlink (ctx : Context) (path newPath : Pointer) : JInt → Pointer → C Pointer :=
  eio2path ctx .symlink path newPath

def eioRename (ctx : Context) (path newPath : Pointer) : JInt → Pointer → C Pointer :=
  eio2path ctx .rename path newPath

/-! ### The JNI functions -/

/-- The body of those without a path. -/
def plain (ctx : Context) (callback : Option Obj) (eio : Pointer → C Pointer) : C (Option Ref) := do
  let data ← allocJavaData ctx callback
  let req ← eio data
  wrapRequest ctx data req

/-- The body of those with one path. -/
def onPath (ctx : Context) (path : Option JString) (callback : Option Obj)
    (eio : Pointer → Pointer → C Pointer) : C (Option Ref) := do
  let data ← allocJavaData ctx callback
  let pathChars ← getStringUTFChars (ctx.memory .pathChars) path
  let req ← eio pathChars data
  let result ← wrapRequest ctx data req
  releaseStringUTFChars path pathChars
  return result

/-- The body of those with two paths: both buffers are acquired from `path`, and
the second is released against `newPath`. -/
def onTwoPaths (ctx : Context) (path newPath : Option JString) (callback : Option Obj)
    (eio : Pointer → Pointer → Pointer → C Pointer) : C (Option Ref) := do
  let data ← allocJavaData ctx callback
  let pathChars ← getStringUTFChars (ctx.memory .pathChars) path
  let newPathChars ← getStringUTFChars (ctx.memory .newPathChars) path
  let req ← eio pathChars newPathChars data
  let result ← wrapRequest ctx data req
  releaseStringUTFChars newPath newPathChars
  releaseStringUTFChars path pathChars
  return result

/-- `jint` to `off_t` or `size_t`. -/
abbrev long (n : JInt) : BitVec 64 := n.signExtend 64

/-- `jint` or `jlong` to `double`. -/
abbrev double {w : Nat} (t : BitVec w) : Double := toDouble t.toInt

section
variable (abi : Abi) (ctx : Context)

def nop (priority : JInt) (callback : Option Obj) : C (Option Ref) :=
  plain ctx callback (eioNop ctx priority)

def busy (delay priority : JInt) (callback : Option Obj) : C (Option Ref) :=
  plain ctx callback (eioBusy ctx (double delay) priority)

def sync (priority : JInt) (callback : Option Obj) : C (Option Ref) :=
  plain ctx callback (eioSync ctx priority)

def fsync (fd priority : JInt) (callback : Option Obj) : C (Option Ref) :=
  plain ctx callback (eioFsync ctx fd priority)

def fdatasync (fd priority : JInt) (callback : Option Obj) : C (Option Ref) :=
  plain ctx callback (eioFdatasync ctx fd priority)

def msync (address : JLong) (length flags priority : JInt) (callback : Option Obj) :
    C (Option Ref) :=
  plain ctx callback (eioMsync ctx address (long length) flags priority)

def mtouch (address : JLong) (length flags priority : JInt) (callback : Option Obj) :
    C (Option Ref) :=
  plain ctx callback (eioMtouch ctx address (long length) flags priority)

def mlock (address : JLong) (length priority : JInt) (callback : Option Obj) : C (Option Ref) :=
  plain ctx callback (eioMlock ctx address (long length) priority)

def mlockall (flags priority : JInt) (callback : Option Obj) : C (Option Ref) :=
  plain ctx callback (eioMlockall ctx flags priority)

/-- `flags` is passed in the place of the descriptor, too. -/
def syncFileRange (offset nbytes flags priority : JInt) (callback : Option Obj) :
    C (Option Ref) :=
  plain ctx callback (eioSyncFileRange ctx flags (long offset) (long nbytes) flags priority)

def close (fd priority : JInt) (callback : Option Obj) : C (Option Ref) :=
  plain ctx callback (eioClose ctx fd priority)

def readahead (fd offset length priority : JInt) (callback : Option Obj) : C (Option Ref) :=
  plain ctx callback (eioReadahead ctx fd (long offset) (long length) priority)

def read (fd : JInt) (buffer : JLong) (length offset priority : JInt) (callback : Option Obj) :
    C (Option Ref) :=
  plain ctx callback (eioRead ctx fd buffer (long length) (long offset) priority)

def write (fd : JInt) (buffer : JLong) (length offset priority : JInt) (callback : Option Obj) :
    C (Option Ref) :=
  plain ctx callback (eioWrite ctx fd buffer (long length) (long offset) priority)

def fstat (fd priority : JInt) (callback : Option Obj) : C (Option Ref) :=
  plain ctx callback (eioFstat ctx fd priority)

def fstatvfs (fd priority : JInt) (callback : Option Obj) : C (Option Ref) :=
  plain ctx callback (eioFstatvfs ctx fd priority)

def futime (fd : JInt) (atime mtime : JLong) (priority : JInt) (callback : Option Obj) :
    C (Option Ref) :=
  plain ctx callback (eioFutime ctx fd (double atime) (double mtime) priority)

def ftruncate (fd offset priority : JInt) (callback : Option Obj) : C (Option Ref) :=
  plain ctx callback (eioFtruncate ctx fd (long offset) priority)

def fchmod (fd mode priority : JInt) (callback : Option Obj) : C (Option Ref) :=
  plain ctx callback (eioFchmod abi ctx fd (mode.signExtend _) priority)

def fchown (fd uid gid priority : JInt) (callback : Option Obj) : C (Option Ref) :=
  plain ctx callback (eioFchown abi ctx fd (uid.signExtend _) (gid.signExtend _) priority)

def dup2 (fd fd2 priority : JInt) (callback : Option Obj) : C (Option Ref) :=
  plain ctx callback (eioDup2 ctx fd fd2 priority)

def sendfile (outFd inFd offset length priority : JInt) (callback : Option Obj) :
    C (Option Ref) :=
  plain ctx callback (eioSendfile ctx outFd inFd (long offset) (long length) priority)

variable (path : Option JString)

def open_ (flags mode priority : JInt) (callback : Option Obj) : C (Option Ref) :=
  onPath ctx path callback fun chars => eioOpen abi ctx chars flags (mode.signExtend _) priority

def utime (atime mtime : JLong) (priority : JInt) (callback : Option Obj) : C (Option Ref) :=
  onPath ctx path callback fun chars => eioUtime ctx chars (double atime) (double mtime) priority

def truncate (offset priority : JInt) (callback : Option Obj) : C (Option Ref) :=
  onPath ctx path callback fun chars => eioTruncate ctx chars (long offset) priority

def chown (uid gid priority : JInt) (callback : Option Obj) : C (Option Ref) :=
  onPath ctx path callback fun chars =>
    eioChown abi ctx chars (uid.signExtend _) (gid.signExtend _) priority

def chmod (mode priority : JInt) (callback : Option Obj) : C (Option Ref) :=
  onPath ctx path callback fun chars => eioChmod abi ctx chars (mode.signExtend _) priority

def mkdir (mode priority : JInt) (callback : Option Obj) : C (Option Ref) :=
  onPath ctx path callback fun chars => eioMkdir abi ctx chars (mode.signExtend _) priority

def readdir (flags priority : JInt) (callback : Option Obj) : C (Option Ref) :=
  onPath ctx path callback fun chars => eioReaddir ctx chars flags priority

def rmdir (priority : JInt) (callback : Option Obj) : C (Option Ref) :=
  onPath ctx path callback fun chars => eioRmdir ctx chars priority

def unlink (priority : JInt) (callback : Option Obj) : C (Option Ref) :=
  onPath ctx path callback fun chars => eioUnlink ctx chars priority

def readlink (priority : JInt) (callback : Option Obj) : C (Option Ref) :=
  onPath ctx path callback fun chars => eioReadlink ctx chars priority

def stat (priority : JInt) (callback : Option Obj) : C (Option Ref) :=
  onPath ctx path callback fun chars => eioStat ctx chars priority

def lstat (priority : JInt) (callback : Option Obj) : C (Option Ref) :=
  onPath ctx path callback fun chars => eioLstat ctx chars priority

def statvfs (priority : JInt) (callback : Option Obj) : C (Option Ref) :=
  onPath ctx path callback fun chars => eioStatvfs ctx chars priority

def mknod (mode dev priority : JInt) (callback : Option Obj) : C (Option Ref) :=
  onPath ctx path callback fun chars =>
    eioMknod abi ctx chars (mode.signExtend _) (dev.signExtend _) priority

variable (newPath : Option JString)

def link (priority : JInt) (callback : Option Obj) : C (Option Ref) :=
  onTwoPaths ctx path newPath callback fun chars newChars => eioLink ctx chars newChars priority

def symlink (priority : JInt) (callback : Option Obj) : C (Option Ref) :=
  onTwoPaths ctx path newPath callback fun chars newChars => eioSymlink ctx chars newChars priority

def rename (priority : JInt) (callback : Option Obj) : C (Option Ref) :=
  onTwoPaths ctx path newPath callback fun chars newChars => eioRename ctx chars newChars priority

end

end WebbitAsyncio.Source.JniSubmit
