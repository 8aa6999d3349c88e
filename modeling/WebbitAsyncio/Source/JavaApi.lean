import WebbitAsyncio.Source.JniSubmit

/-!
# The native operations of `AsyncIO` and the functions they are bound to

The declarations of AsyncIO.java:98-137, the JNI functions of asyncio.c:109-359 that
carry the same names, and the rule by which the Java virtual machine connects them: a
native method is bound to the function whose symbol is the prefix for the class
followed by the mangled method name. The macro `JNI_API` pastes the name without
mangling it. Names contain letters, digits and `_` only.
-/
namespace WebbitAsyncio.Source.JavaApi
open WebbitAsyncio.Source.Reqq (JInt)
open WebbitAsyncio.Source.EventLoop (Obj Ref)
open WebbitAsyncio.Source.EioRequest WebbitAsyncio.Source.JniSubmit

inductive Native where
  | nop | busy
  | sync | fsync | fdatasync
  | msync | mtouch | mlock | mlockall
  | syncFileRange
  | close | readahead | read | write
  | fstat | fstatvfs | futime | ftruncate | fchmod | fchown
  | dup2 | sendfile
  | open_ | utime | truncate | chown | chmod | mkdir | readdir | rmdir | unlink | readlink
  | stat | lstat | statvfs | mknod
  | link | symlink | rename
  deriving DecidableEq, Repr

/-- The name of the method in Java and of the argument of `JNI_API` in C. -/
def name : Native → String
  | .nop => "nop"
  | .busy => "busy"
  | .sync => "sync"
  | .fsync => "fsync"
  | .fdatasync => "fdatasync"
  | .msync => "msync"
  | .mtouch => "mtouch"
  | .mlock => "mlock"
  | .mlockall => "mlockall"
  | .syncFileRange => "sync_file_range"
  | .close => "close"
  | .readahead => "readahead"
  | .read => "read"
  | .write => "write"
  | .fstat => "fstat"
  | .fstatvfs => "fstatvfs"
  | .futime => "futime"
  | .ftruncate => "ftruncate"
  | .fchmod => "fchmod"
  | .fchown => "fchown"
  | .dup2 => "dup2"
  | .sendfile => "sendfile"
  | .open_ => "open"
  | .utime => "utime"
  | .truncate => "truncate"
  | .chown => "chown"
  | .chmod => "chmod"
  | .mkdir => "mkdir"
  | .readdir => "readdir"
  | .rmdir => "rmdir"
  | .unlink => "unlink"
  | .readlink => "readlink"
  | .stat => "stat"
  | .lstat => "lstat"
  | .statvfs => "statvfs"
  | .mknod => "mknod"
  | .link => "link"
  | .symlink => "symlink"
  | .rename => "rename"

/-! ### Symbols -/

def classPrefix : List Char := "Java_org_webbitserver_asyncio_AsyncIO_".toList

/-- `_` is escaped as `_1`. -/
def mangle (method : List Char) : List Char :=
  method.flatMap fun c => if c = '_' then ['_', '1'] else [c]

/-- The symbol that the virtual machine looks up for a native method. -/
def jniSymbol (native : Native) : List Char := classPrefix ++ mangle (name native).toList

/-- The symbol that `JNI_API (jobject, name)` defines. -/
def cSymbol (function : Native) : List Char := classPrefix ++ (name function).toList

def Binds (native function : Native) : Prop := jniSymbol native = cSymbol function

theorem binds_iff {native function : Native} :
    Binds native function ↔ mangle (name native).toList = (name function).toList :=
  List.append_right_inj _

instance (native function : Native) : Decidable (Binds native function) :=
  decidable_of_iff _ binds_iff.symm

/-! ### Parameters -/

/-- The JNI names of the parameter types; `int`, `long`, `String` and `AioCallback`
in Java. -/
inductive JniType where
  | jint
  | jlong
  | jstring
  | jobject
  deriving DecidableEq, Repr

abbrev JniType.Value : JniType → Type
  | .jint => JInt
  | .jlong => JLong
  | .jstring => Option JString
  | .jobject => Option Obj

/-- The values for a parameter list. -/
abbrev Args : List JniType → Type
  | [] => Unit
  | t :: ts => t.Value × Args ts

/-- The parameters that AsyncIO.java declares. -/
abbrev javaParams : Native → List JniType
  | .nop | .sync => [.jint, .jobject]
  | .busy => [.jint, .jint, .jobject]
  | .fsync | .fdatasync => [.jint, .jint, .jobject]
  | .msync | .mtouch => [.jlong, .jint, .jint, .jint, .jobject]
  | .mlock => [.jlong, .jint, .jint, .jobject]
  | .mlockall => [.jint, .jint, .jobject]
  | .syncFileRange => [.jint, .jint, .jint, .jint, .jint, .jobject]
  | .close => [.jint, .jint, .jobject]
  | .readahead => [.jint, .jint, .jint, .jint, .jobject]
  | .read | .write => [.jint, .jlong, .jint, .jint, .jint, .jobject]
  | .fstat | .fstatvfs => [.jint, .jint, .jobject]
  | .futime => [.jint, .jlong, .jlong, .jint, .jobject]
  | .ftruncate => [.jint, .jint, .jint, .jobject]
  | .fchmod => [.jint, .jint, .jint, .jobject]
  | .fchown => [.jint, .jint, .jint, .jint, .jobject]
  | .dup2 => [.jint, .jint, .jint, .jobject]
  | .sendfile => [.jint, .jint, .jint, .jint, .jint, .jobject]
  | .open_ => [.jstring, .jint, .jint, .jint, .jobject]
  | .utime => [.jstring, .jint, .jint, .jobject]
  | .truncate => [.jstring, .jint, .jint, .jobject]
  | .chown => [.jstring, .jint, .jint, .jint, .jobject]
  | .chmod | .mkdir | .readdir => [.jstring, .jint, .jint, .jobject]
  | .rmdir | .unlink | .readlink | .stat | .lstat | .statvfs => [.jstring, .jint, .jobject]
  | .mknod => [.jstring, .jint, .jint, .jint, .jobject]
  | .link | .symlink | .rename => [.jstring, .jstring, .jint, .jobject]

/-- The parameters of the C functions, after `JNIEnv *env, jobject self`. -/
abbrev cParams : Native → List JniType
  | .nop | .sync => [.jint, .jobject]
  | .busy => [.jint, .jint, .jobject]
  | .fsync | .fdatasync => [.jint, .jint, .jobject]
  | .msync | .mtouch => [.jlong, .jint, .jint, .jint, .jobject]
  | .mlock => [.jlong, .jint, .jint, .jobject]
  | .mlockall => [.jint, .jint, .jobject]
  | .syncFileRange => [.jint, .jint, .jint, .jint, .jobject]
  | .close => [.jint, .jint, .jobject]
  | .readahead => [.jint, .jint, .jint, .jint, .jobject]
  | .read | .write => [.jint, .jlong, .jint, .jint, .jint, .jobject]
  | .fstat | .fstatvfs => [.jint, .jint, .jobject]
  | .futime => [.jint, .jlong, .jlong, .jint, .jobject]
  | .ftruncate => [.jint, .jint, .jint, .jobject]
  | .fchmod => [.jint, .jint, .jint, .jobject]
  | .fchown => [.jint, .jint, .jint, .jint, .jobject]
  | .dup2 => [.jint, .jint, .jint, .jobject]
  | .sendfile => [.jint, .jint, .jint, .jint, .jint, .jobject]
  | .open_ => [.jstring, .jint, .jint, .jint, .jobject]
  | .utime => [.jstring, .jlong, .jlong, .jint, .jobject]
  | .truncate => [.jstring, .jint, .jint, .jobject]
  | .chown => [.jstring, .jint, .jint, .jint, .jobject]
  | .chmod | .mkdir | .readdir => [.jstring, .jint, .jint, .jobject]
  | .rmdir | .unlink | .readlink | .stat | .lstat | .statvfs => [.jstring, .jint, .jobject]
  | .mknod => [.jstring, .jint, .jint, .jint, .jobject]
  | .link | .symlink | .rename => [.jstring, .jstring, .jint, .jobject]

/-- The strings among the values. -/
def strings : (ts : List JniType) → Args ts → List (Option JString)
  | [], _ => []
  | .jstring :: ts, (s, rest) => s :: strings ts rest
  | .jint :: ts, (_, rest) => strings ts rest
  | .jlong :: ts, (_, rest) => strings ts rest
  | .jobject :: ts, (_, rest) => strings ts rest

/-- The callback, the last of the values. -/
def callbackOf : (ts : List JniType) → Args ts → Option Obj
  | [], _ => none
  | [.jobject], (callback, _) => callback
  | _ :: ts, (_, rest) => callbackOf ts rest

/-- The C function, called with values for its parameters. -/
def cBody (abi : Abi) (ctx : Context) :
    (function : Native) → Args (cParams function) → C (Option Ref)
  | .nop, (pri, cb, _) => nop ctx pri cb
  | .busy, (delay, pri, cb, _) => busy ctx delay pri cb
  | .sync, (pri, cb, _) => sync ctx pri cb
  | .fsync, (fd, pri, cb, _) => fsync ctx fd pri cb
  | .fdatasync, (fd, pri, cb, _) => fdatasync ctx fd pri cb
  | .msync, (addr, len, flags, pri, cb, _) => msync ctx addr len flags pri cb
  | .mtouch, (addr, len, flags, pri, cb, _) => mtouch ctx addr len flags pri cb
  | .mlock, (addr, len, pri, cb, _) => mlock ctx addr len pri cb
  | .mlockall, (flags, pri, cb, _) => mlockall ctx flags pri cb
  | .syncFileRange, (off, n, flags, pri, cb, _) => syncFileRange ctx off n flags pri cb
  | .close, (fd, pri, cb, _) => close ctx fd pri cb
  | .readahead, (fd, off, len, pri, cb, _) => readahead ctx fd off len pri cb
  | .read, (fd, buf, len, off, pri, cb, _) => read ctx fd buf len off pri cb
  | .write, (fd, buf, len, off, pri, cb, _) => write ctx fd buf len off pri cb
  | .fstat, (fd, pri, cb, _) => fstat ctx fd pri cb
  | .fstatvfs, (fd, pri, cb, _) => fstatvfs ctx fd pri cb
  | .futime, (fd, atime, mtime, pri, cb, _) => futime ctx fd atime mtime pri cb
  | .ftruncate, (fd, off, pri, cb, _) => ftruncate ctx fd off pri cb
  | .fchmod, (fd, mode, pri, cb, _) => fchmod abi ctx fd mode pri cb
  | .fchown, (fd, uid, gid, pri, cb, _) => fchown abi ctx fd uid gid pri cb
  | .dup2, (fd, fd2, pri, cb, _) => dup2 ctx fd fd2 pri cb
  | .sendfile, (out, in_, off, len, pri, cb, _) => sendfile ctx out in_ off len pri cb
  | .open_, (path, flags, mode, pri, cb, _) => open_ abi ctx path flags mode pri cb
  | .utime, (path, atime, mtime, pri, cb, _) => utime ctx path atime mtime pri cb
  | .truncate, (path, off, pri, cb, _) => truncate ctx path off pri cb
  | .chown, (path, uid, gid, pri, cb, _) => chown abi ctx path uid gid pri cb
  | .chmod, (path, mode, pri, cb, _) => chmod abi ctx path mode pri cb
  | .mkdir, (path, mode, pri, cb, _) => mkdir abi ctx path mode pri cb
  | .readdir, (path, flags, pri, cb, _) => readdir ctx path flags pri cb
  | .rmdir, (path, pri, cb, _) => rmdir ctx path pri cb
  | .unlink, (path, pri, cb, _) => unlink ctx path pri cb
  | .readlink, (path, pri, cb, _) => readlink ctx path pri cb
  | .stat, (path, pri, cb, _) => stat ctx path pri cb
  | .lstat, (path, pri, cb, _) => lstat ctx path pri cb
  | .statvfs, (path, pri, cb, _) => statvfs ctx path pri cb
  | .mknod, (path, mode, dev, pri, cb, _) => mknod abi ctx path mode dev pri cb
  | .link, (path, newPath, pri, cb, _) => link ctx path newPath pri cb
  | .symlink, (path, newPath, pri, cb, _) => symlink ctx path newPath pri cb
  | .rename, (path, newPath, pri, cb, _) => rename ctx path newPath pri cb

/-! ### The three shapes -/

/-- A change of a request that leaves the members `REQ` has set. -/
def Fills (fill : EioReq → EioReq) : Prop :=
  ∀ r, (fill r).pri = r.pri ∧ (fill r).data = r.data ∧ (fill r).ptr1 = r.ptr1

/-- Every submit operation is one of three bodies. -/
inductive Shape : List (Option JString) → Option Obj → (Context → C (Option Ref)) → Prop where
  | plain (callback : Option Obj) (type : EioType) {fill : EioReq → EioReq} (pri : JInt) :
      Fills fill → Shape [] callback fun ctx => plain ctx callback (eioRequest ctx type fill pri)
  | onPath (path : Option JString) (callback : Option Obj) (type : EioType)
      {fill : EioReq → EioReq} (pri : JInt) : Fills fill →
      Shape [path] callback fun ctx =>
        onPath ctx path callback fun chars => eioPathRequest ctx type chars fill pri
  | onTwoPaths (path newPath : Option JString) (callback : Option Obj) (type : EioType) (pri : JInt) :
      Shape [path, newPath] callback fun ctx =>
        onTwoPaths ctx path newPath callback fun chars newChars => eio2path ctx type chars newChars pri

theorem cBody_shape (abi : Abi) (function : Native) (args : Args (cParams function)) :
    Shape (strings _ args) (callbackOf _ args) fun ctx => cBody abi ctx function args := by
  cases function with
  | nop | busy | sync | fsync | fdatasync | msync | mtouch | mlock | mlockall | syncFileRange
  | close | readahead | read | write | fstat | fstatvfs | futime | ftruncate | fchmod | fchown
  | dup2 | sendfile => exact .plain _ _ _ fun _ => ⟨rfl, rfl, rfl⟩
  | open_ | utime | truncate | chown | chmod | mkdir | readdir | rmdir | unlink | readlink
  | stat | lstat | statvfs | mknod => exact .onPath _ _ _ _ fun _ => ⟨rfl, rfl, rfl⟩
  | link | symlink | rename => exact .onTwoPaths _ _ _ _ _

end WebbitAsyncio.Source.JavaApi
