import WebbitAsyncio.Invariants.Dispatch

/-!
# The Java API and the system calls it names

For each native operation of AsyncIO.java:98-137, the call its name stands for with the
values of the Java caller (`posixCall`), and the operations for which the function that
JNI binds makes it: all but `utime`, which C declares with other parameters, and
`sync_file_range`, for which no function is exported (`means_posix_iff`).
-/
namespace WebbitAsyncio.Guarantees.PosixMeaning
open WebbitAsyncio.Lib.Utf16 (Byte modifiedUtf8)
open WebbitAsyncio.Source.Reqq (JInt)
open WebbitAsyncio.Source.EventLoop (Obj)
open WebbitAsyncio.Source.EioRequest WebbitAsyncio.Source.JniSubmit WebbitAsyncio.Source.JavaApi
open WebbitAsyncio.Invariants.Submission WebbitAsyncio.Invariants.SubmitShapes
open WebbitAsyncio.Invariants.Dispatch

/-! ### What the names stand for -/

section
variable {abi : Abi}

def offsetOf (n : JInt) : OffT := BitVec.ofInt 64 n.toInt
def lengthOf (n : JInt) : SizeT := BitVec.ofNat 64 n.toInt.toNat
def modeOf (n : JInt) : ModeT abi := BitVec.ofInt _ n.toInt
def ownerOf (n : JInt) : OwnerT abi := BitVec.ofInt _ n.toInt
def devOf (n : JInt) : DevT abi := BitVec.ofInt _ n.toInt
def seconds {width : Nat} (t : BitVec width) : Timeval := ⟨t.toInt, 0⟩

/-- The call on the bytes of the path. -/
def onBytes (path : Option JString) (call : List Byte → SysCall abi) : Option (SysCall abi) :=
  path.map fun s => call (modifiedUtf8 s.units)

/-- Where the caller gives no buffer, libeio allocates one. -/
def withBuffer (given allocated : Pointer) (call : Pointer → SysCall abi) : SysCall abi :=
  if given ≠ 0 then call given
  else if allocated ≠ 0 then call allocated
  else .noMemory

/-- `allocated` is what `malloc` gives the worker. An offset below 0 asks for the
current position of the file. -/
def posixCall (allocated : Pointer) : (native : Native) → Args (javaParams native) → Option (SysCall abi)
  | .nop, _ => some .nothing
  | .busy, (delay, _) => some (.select (seconds delay))
  | .sync, _ => some .sync
  | .fsync, (fd, _) => some (.fsync fd)
  | .fdatasync, (fd, _) => some (.fdatasync fd)
  | .msync, (addr, length, flags, _) => some (.eioMsync addr (lengthOf length) flags)
  | .mtouch, (addr, length, flags, _) => some (.eioMtouch addr (lengthOf length) flags)
  | .mlock, (addr, length, _) => some (.eioMlock addr (lengthOf length))
  | .mlockall, (flags, _) => some (.eioMlockall flags)
  | .syncFileRange, (fd, offset, nbytes, flags, _) =>
    some (.eioSyncFileRange fd (offsetOf offset) (lengthOf nbytes) flags)
  | .close, (fd, _) => some (.close fd)
  | .readahead, (fd, offset, length, _) => some (.readahead fd (offsetOf offset) (lengthOf length))
  | .read, (fd, buffer, length, offset, _) => some (withBuffer buffer allocated fun buf =>
      if 0 ≤ offset.toInt then .pread fd buf (lengthOf length) (offsetOf offset)
      else .read fd buf (lengthOf length))
  | .write, (fd, buffer, length, offset, _) => some (
      if 0 ≤ offset.toInt then .pwrite fd buffer (lengthOf length) (offsetOf offset)
      else .write fd buffer (lengthOf length))
  | .fstat, (fd, _) => some (withBuffer 0 allocated (.fstat fd))
  | .fstatvfs, (fd, _) => some (withBuffer 0 allocated (.fstatvfs fd))
  | .futime, (fd, atime, mtime, _) => some (.futimes fd (some (seconds atime, seconds mtime)))
  | .ftruncate, (fd, offset, _) => some (.ftruncate fd (offsetOf offset))
  | .fchmod, (fd, mode, _) => some (.fchmod fd (modeOf mode))
  | .fchown, (fd, uid, gid, _) => some (.fchown fd (ownerOf uid) (ownerOf gid))
  | .dup2, (fd, fd2, _) => some (.dup2 fd fd2)
  | .sendfile, (outFd, inFd, offset, length, _) =>
    some (.eioSendfile outFd inFd (offsetOf offset) (lengthOf length))
  | .open_, (path, flags, mode, _) => onBytes path fun bytes => .open_ bytes flags (modeOf mode)
  | .utime, _ => none
  | .truncate, (path, offset, _) => onBytes path fun bytes => .truncate bytes (offsetOf offset)
  | .chown, (path, uid, gid, _) => onBytes path fun bytes => .chown bytes (ownerOf uid) (ownerOf gid)
  | .chmod, (path, mode, _) => onBytes path fun bytes => .chmod bytes (modeOf mode)
  | .mkdir, (path, mode, _) => onBytes path fun bytes => .mkdir bytes (modeOf mode)
  | .readdir, (path, flags, _) => onBytes path fun bytes => .eioScandir bytes flags
  | .rmdir, (path, _) => onBytes path .rmdir
  | .unlink, (path, _) => onBytes path .unlink
  | .readlink, (path, _) => onBytes path fun bytes => withBuffer 0 allocated (.readlink bytes)
  | .stat, (path, _) => onBytes path fun bytes => withBuffer 0 allocated (.stat bytes)
  | .lstat, (path, _) => onBytes path fun bytes => withBuffer 0 allocated (.lstat bytes)
  | .statvfs, (path, _) => onBytes path fun bytes => withBuffer 0 allocated (.statvfs bytes)
  | .mknod, (path, mode, dev, _) => onBytes path fun bytes => .mknod bytes (modeOf mode) (devOf dev)
  | .link, (path, newPath, _) => path.bind fun s => onBytes newPath (.link (modifiedUtf8 s.units))
  | .symlink, (path, newPath, _) => path.bind fun s => onBytes newPath (.symlink (modifiedUtf8 s.units))
  | .rename, (path, newPath, _) => path.bind fun s => onBytes newPath (.rename (modifiedUtf8 s.units))

end

/-- Lengths are not negative; times are at most `2 ^ 53` in magnitude and not both
-1, which stands for the current time. -/
def Proper : (native : Native) → Args (javaParams native) → Prop
  | .msync, (_, length, _) | .mtouch, (_, length, _) | .mlock, (_, length, _) => 0 ≤ length.toInt
  | .syncFileRange, (_, _, nbytes, _) => 0 ≤ nbytes.toInt
  | .readahead, (_, _, length, _) => 0 ≤ length.toInt
  | .read, (_, _, length, _) | .write, (_, _, length, _) => 0 ≤ length.toInt
  | .sendfile, (_, _, _, length, _) => 0 ≤ length.toInt
  | .futime, (_, atime, mtime, _) =>
    atime.toInt.natAbs ≤ 2 ^ 53 ∧ mtime.toInt.natAbs ≤ 2 ^ 53 ∧ ¬ (atime.toInt = -1 ∧ mtime.toInt = -1)
  | _, _ => True

/-- The bound function has the declared parameters and, called with the values of the
Java caller, submits the call its name stands for, and nothing else. -/
def MeansPosix (abi : Abi) (allocated : Pointer) (ctx : Context) (w : World) (native : Native)
    (args : Args (javaParams native)) : Prop :=
  ∃ function, Binds native function ∧ ∃ same : javaParams native = cParams function,
    Becomes allocated w (cBody abi ctx function (same ▸ args) w)
      (posixCall allocated native args : Option (SysCall abi)) ∧
    (Granted ctx (strings _ args) → SubmitsOne w (cBody abi ctx function (same ▸ args) w))

/-! ### Conversions -/

theorem long_lengthOf {n : JInt} (nonneg : 0 ≤ n.toInt) : long n = lengthOf n := by
  have value : n.toInt = (n.toInt.toNat : Int) := (Int.toNat_of_nonneg nonneg).symm
  rw [lengthOf, ← BitVec.ofInt_natCast, ← value]
  rfl

theorem long_offsetOf (n : JInt) : long n = offsetOf n := rfl

theorem long_toInt (n : JInt) : (long n).toInt = n.toInt := BitVec.toInt_signExtend_of_le (by decide)

theorem descriptor_back (fd : JInt) : (fd.signExtend 64).setWidth 32 = fd := by
  apply BitVec.eq_of_getLsbD_eq
  intro i bound
  simp [BitVec.getLsbD_signExtend, bound]
  omega

theorem modeOf_back {abi : Abi} (mode : JInt) :
    ((mode.signExtend abi.modeBits).setWidth 64).setWidth abi.modeBits = modeOf mode :=
  setWidth_long abi.modeFits _

theorem ownerOf_back {abi : Abi} (owner : JInt) :
    ((owner.signExtend abi.ownerBits).setWidth 64).setWidth abi.ownerBits = ownerOf owner :=
  setWidth_long abi.ownerFits _

theorem devOf_back {abi : Abi} (dev : JInt) :
    ((dev.signExtend abi.devBits).setWidth 64).setWidth abi.devBits = devOf dev :=
  setWidth_long abi.devFits _

theorem toTimeval_double {width : Nat} {t : BitVec width} (small : t.toInt.natAbs ≤ 2 ^ 53) :
    toTimeval (double t) = seconds t := by
  have exact_ := toDouble_exact small
  simp [toTimeval, double, seconds, exact_]

/-- Times that are not both -1 are passed on. -/
theorem toTimes_double {req : EioReq} {width : Nat} {atime mtime : BitVec width}
    (small : atime.toInt.natAbs ≤ 2 ^ 53) (small' : mtime.toInt.natAbs ≤ 2 ^ 53)
    (given : ¬ (atime.toInt = -1 ∧ mtime.toInt = -1)) (nv1 : req.nv1 = double atime)
    (nv2 : req.nv2 = double mtime) : toTimes req = some (seconds atime, seconds mtime) := by
  have isAtime : double atime = atime.toInt := toDouble_exact small
  have isMtime : double mtime = mtime.toInt := toDouble_exact small'
  have some_ : req.nv1 ≠ -1 ∨ req.nv2 ≠ -1 := by
    rw [nv1, nv2, isAtime, isMtime]
    exact not_and_or.mp given
  rw [toTimes, if_pos some_, nv1, nv2, toTimeval_double small, toTimeval_double small']

theorem busy_small (delay : JInt) : delay.toInt.natAbs ≤ 2 ^ 53 := by
  have low := BitVec.le_toInt delay
  have high := BitVec.toInt_lt (x := delay)
  omega

/-! ### One operation after the other -/

theorem strings_cast {ts ts' : List JniType} (same : ts = ts') (args : Args ts) :
    strings ts' (same ▸ args) = strings ts args := by
  subst same
  rfl

section
variable {abi : Abi} {allocated : Pointer} {ctx : Context} {w : World} {native : Native}
  {args : Args (javaParams native)}

theorem alloc_eq (allocated : Pointer) (req : EioReq) (call : Pointer → SysCall abi) :
    alloc allocated req call = withBuffer req.ptr2 allocated call := by
  simp only [alloc, withBuffer, ne_eq, ite_not]

/-- What is left to show of a function that is bound and has the declared parameters. -/
theorem means_posix (fresh : FreshMemory ctx (sites (strings _ args)) w) (refs : FreshRefs ctx w)
    (binds : Binds native native) (same : javaParams native = cParams native)
    (becomes : Becomes allocated w (cBody abi ctx native (same ▸ args) w)
      (posixCall allocated native args : Option (SysCall abi))) :
    MeansPosix abi allocated ctx w native args := by
  refine ⟨native, binds, same, becomes, fun granted => ?_⟩
  rw [← strings_cast same] at granted fresh
  exact submits_one (cBody_outcome abi native (same ▸ args) fresh refs) granted

/-- The operations that are right, one by one. -/
theorem means_posix_of_ne (single : native ∉ [.link, .symlink, .rename])
    (fresh : FreshMemory ctx (sites (strings _ args)) w) (refs : FreshRefs ctx w)
    (proper : Proper native args) (notUtime : native ≠ .utime)
    (notSyncFileRange : native ≠ .syncFileRange) : MeansPosix abi allocated ctx w native args := by
  have fills : ∀ r : EioReq, r.pri = r.pri ∧ r.data = r.data ∧ r.ptr1 = r.ptr1 :=
    fun _ => ⟨rfl, rfl, rfl⟩
  cases native with
  | nop | sync | fsync | fdatasync | mlockall | close | ftruncate =>
    apply means_posix fresh refs (by decide) rfl
    exact plain_becomes _ fills fresh refs fun _ _ => rfl
  | msync | mtouch | mlock | readahead =>
    apply means_posix fresh refs (by decide) rfl
    refine plain_becomes _ fills fresh refs fun data str => ?_
    simp only [eioExecute, clamped, newReq, posixCall, long_lengthOf proper, long_offsetOf]
  | sendfile =>
    apply means_posix fresh refs (by decide) rfl
    refine plain_becomes _ fills fresh refs fun data str => ?_
    simp only [eioExecute, clamped, newReq, posixCall, long_lengthOf proper, descriptor_back]
    rfl
  | dup2 =>
    apply means_posix fresh refs (by decide) rfl
    refine plain_becomes _ fills fresh refs fun data str => ?_
    simp only [eioExecute, clamped, newReq, posixCall, descriptor_back]
  | read | write =>
    apply means_posix fresh refs (by decide) rfl
    refine plain_becomes _ fills fresh refs fun data str => ?_
    simp only [eioExecute, clamped, newReq, posixCall, long_lengthOf proper, long_toInt, alloc_eq]
    rfl
  | fstat | fstatvfs =>
    apply means_posix fresh refs (by decide) rfl
    refine plain_becomes _ fills fresh refs fun data str => ?_
    simp only [eioExecute, clamped, newReq, posixCall, alloc_eq]
  | fchmod | fchown =>
    apply means_posix fresh refs (by decide) rfl
    refine plain_becomes _ fills fresh refs fun data str => ?_
    simp only [eioExecute, clamped, newReq, posixCall, modeOf_back, ownerOf_back]
  | busy =>
    apply means_posix fresh refs (by decide) rfl
    refine plain_becomes _ fills fresh refs fun data str => ?_
    simp only [eioExecute, clamped, newReq, posixCall, toTimeval_double (busy_small _)]
  | futime =>
    obtain ⟨small, small', given⟩ := proper
    apply means_posix fresh refs (by decide) rfl
    refine plain_becomes _ fills fresh refs fun data str => ?_
    simp only [eioExecute, clamped, newReq, posixCall]
    rw [toTimes_double small small' given (by rfl) (by rfl)]
  | unlink | rmdir | readdir | truncate | open_ | chmod | mkdir | chown | mknod | readlink | stat
  | lstat | statvfs =>
    obtain ⟨path, _⟩ := args
    apply means_posix fresh refs (by decide) rfl
    refine onPath_becomes path _ fills fresh refs fun s data ptr1 str isPath text => ?_
    subst isPath
    simp only [eioExecute, clamped, pathReq, newReq, id, posixCall, onBytes, text, Option.map_some,
      long_offsetOf, modeOf_back, ownerOf_back, devOf_back, alloc_eq]
  | utime => exact absurd rfl notUtime
  | syncFileRange => exact absurd rfl notSyncFileRange
  | link | symlink | rename => simp at single

/-- The descriptor of `sync_file_range` is lost: its place is taken by the flags. -/
theorem syncFileRange_becomes {callback : Option Obj} (offset nbytes flags pri : JInt)
    (fresh : FreshMemory ctx (sites []) w) (refs : FreshRefs ctx w) :
    Becomes allocated w (syncFileRange ctx offset nbytes flags pri callback w)
      (some (.eioSyncFileRange flags (long offset) (long nbytes) flags) : Option (SysCall abi)) := by
  refine plain_becomes pri (fun _ => ⟨rfl, rfl, rfl⟩) fresh refs fun data str => ?_
  have back : (flags.setWidth 64).setWidth 32 = flags := setWidth_long (by decide) flags
  simp only [eioExecute, clamped, newReq, back]

/-! ### The two that are wrong -/

/-- No function carries the symbol that the virtual machine looks for. -/
theorem syncFileRange_unbound (function : Native) : ¬ Binds .syncFileRange function := by
  cases function <;> decide

/-- The function that is bound reads its arguments as others than were passed. -/
theorem utime_params (function : Native) (binds : Binds .utime function) :
    javaParams .utime ≠ cParams function := by
  revert binds
  cases function <;> decide

end

/-- An operation means the call it names if it is none of the two. -/
theorem means_posix_iff (abi : Abi) (allocated : Pointer) (ctx : Context) (w : World)
    (native : Native) (args : Args (javaParams native))
    (single : native ∉ [.link, .symlink, .rename]) (proper : Proper native args)
    (fresh : FreshMemory ctx (sites (strings _ args)) w) (refs : FreshRefs ctx w) :
    MeansPosix abi allocated ctx w native args ↔ native ≠ .utime ∧ native ≠ .syncFileRange := by
  constructor
  · rintro ⟨function, binds, same, _⟩
    constructor
    · rintro rfl
      exact utime_params function binds same
    · rintro rfl
      exact syncFileRange_unbound function binds
  · rintro ⟨notUtime, notSyncFileRange⟩
    exact means_posix_of_ne single fresh refs proper notUtime notSyncFileRange

theorem means_posix_pread : MeansPosix lp64 112 granting blank .read (3, 4096, 100, 512, 0, none, ()) :=
  (means_posix_iff lp64 112 granting blank .read (3, 4096, 100, 512, 0, none, ()) (by decide)
    (show (0 : Int) ≤ BitVec.toInt (100 : JInt) by decide) (granting_fresh _) granting_refs).mpr
    ⟨by decide, by decide⟩

/-- A Java call of `utime` with a path and a mode; one of `sync_file_range`. -/
theorem utime_means_nothing :
    ¬ MeansPosix lp64 112 granting blank .utime (some ⟨0, [0x61]⟩, 0, 0, none, ()) ∧
      ¬ MeansPosix lp64 112 granting blank .syncFileRange (3, 0, 1, 0, 0, none, ()) := by
  constructor
  · rintro ⟨function, binds, same, _⟩
    exact utime_params function binds same
  · rintro ⟨function, binds, _⟩
    exact syncFileRange_unbound function binds

end WebbitAsyncio.Guarantees.PosixMeaning
