import Mathlib.Algebra.Group.Nat.Defs
import Mathlib.Data.Nat.Log
import WebbitAsyncio.Lib.Utf16
import WebbitAsyncio.Source.Reqq

/-!
# What a request asks for, and which system call it becomes

The members of `eio_req` (eio.h:180-209) that describe the operation, and
`eio_execute` (eio.c:1667-1785), which turns them into a system call or into a
call of one of libeio's emulations. Integers have the widths of the C types: 32
bits for `int`, 64 for `long`, `off_t`, `size_t` and pointers, those of the `Abi`
for `mode_t`, `uid_t` and `dev_t`. A `double` only ever holds a converted `jint`
or `jlong`, hence an integer. The members that are the same for every request of
AsyncIO (`finish`, `destroy`, `feed`, the group links) and the types `EIO_CUSTOM`
and `EIO_GROUP`, which it never submits, are left out.
-/
namespace WebbitAsyncio.Source.EioRequest
open WebbitAsyncio.Lib.Utf16 (Byte)

abbrev JLong : Type := BitVec 64
abbrev CInt : Type := BitVec 32
abbrev CLong : Type := BitVec 64
abbrev OffT : Type := BitVec 64
abbrev SizeT : Type := BitVec 64

/-- `void *`; the null pointer is 0. -/
abbrev Pointer : Type := BitVec 64

/-- The unsigned types whose width is the platform's; each fits in a `long`. -/
structure Abi where
  modeBits : Nat
  ownerBits : Nat
  devBits : Nat
  modeFits : modeBits ≤ 64
  ownerFits : ownerBits ≤ 64
  devFits : devBits ≤ 64

variable (abi : Abi)

abbrev ModeT : Type := BitVec abi.modeBits
abbrev OwnerT : Type := BitVec abi.ownerBits
abbrev DevT : Type := BitVec abi.devBits

/-! ### `double` -/

/-- A `double` whose value is an integer. -/
abbrev Double : Type := Int

/-- To 53 significant bits; a tie goes to the even neighbour. -/
def roundMagnitude (n : Nat) : Nat :=
  let unit := 2 ^ (Nat.log 2 n - 52)
  let below := n / unit
  if 2 * (n % unit) < unit ∨ 2 * (n % unit) = unit ∧ below % 2 = 0 then below * unit
  else (below + 1) * unit

/-- The conversion of an integer to `double`. -/
def toDouble (t : Int) : Double := t.sign * roundMagnitude t.natAbs

theorem roundMagnitude_exact {n : Nat} (small : n ≤ 2 ^ 53) : roundMagnitude n = n := by
  by_cases equal : n = 2 ^ 53
  · rw [equal]
    have log : Nat.log 2 (2 ^ 53) = 53 := Nat.log_pow (by omega) 53
    simp only [roundMagnitude, log]
    decide
  · have log : Nat.log 2 n - 52 = 0 := by
      have bound : Nat.log 2 n < 53 := Nat.log_lt_of_lt_pow' (by omega) (by omega)
      omega
    simp [roundMagnitude, log, Nat.mod_one]

/-- Integers of magnitude at most `2 ^ 53` are represented exactly. -/
theorem toDouble_exact {t : Int} (small : t.natAbs ≤ 2 ^ 53) : toDouble t = t := by
  rw [toDouble, roundMagnitude_exact small, Int.sign_mul_natAbs]

/-! ### Requests -/

inductive EioType where
  | open_ | close | dup2
  | read | write
  | readahead | sendfile
  | stat | lstat | fstat
  | statvfs | fstatvfs
  | truncate | ftruncate
  | utime | futime
  | chmod | fchmod
  | chown | fchown
  | sync | fsync | fdatasync
  | msync | mtouch | syncFileRange
  | mlock | mlockall
  | unlink | rmdir | mkdir | rename
  | mknod | readdir
  | link | symlink | readlink
  | nop
  | busy
  deriving DecidableEq, Repr

/-- The defaults are what `calloc` leaves. -/
structure EioReq where
  type : EioType
  pri : BitVec 8
  data : Pointer
  offs : OffT := 0
  size : SizeT := 0
  ptr1 : Pointer := 0
  ptr2 : Pointer := 0
  nv1 : Double := 0
  nv2 : Double := 0
  int1 : CInt := 0
  int2 : CLong := 0
  int3 : CLong := 0
  ptr1Free : Bool := false
  ptr2Free : Bool := false
  deriving DecidableEq, Repr

/-! ### System calls -/

structure Timeval where
  sec : Int
  usec : Int
  deriving DecidableEq, Repr

/-- The calls `eio_execute` makes, with the converted arguments; a path is the
bytes before its terminating NUL. The names with `eio` are libeio's emulations. -/
inductive SysCall where
  | read (fd : CInt) (buf : Pointer) (len : SizeT)
  | pread (fd : CInt) (buf : Pointer) (len : SizeT) (offset : OffT)
  | write (fd : CInt) (buf : Pointer) (len : SizeT)
  | pwrite (fd : CInt) (buf : Pointer) (len : SizeT) (offset : OffT)
  | readahead (fd : CInt) (offset : OffT) (count : SizeT)
  | eioSendfile (ofd ifd : CInt) (offset : OffT) (count : SizeT)
  | stat (path : List Byte) (buf : Pointer)
  | lstat (path : List Byte) (buf : Pointer)
  | fstat (fd : CInt) (buf : Pointer)
  | statvfs (path : List Byte) (buf : Pointer)
  | fstatvfs (fd : CInt) (buf : Pointer)
  | chown (path : List Byte) (uid gid : OwnerT abi)
  | fchown (fd : CInt) (uid gid : OwnerT abi)
  | chmod (path : List Byte) (mode : ModeT abi)
  | fchmod (fd : CInt) (mode : ModeT abi)
  | truncate (path : List Byte) (length : OffT)
  | ftruncate (fd : CInt) (length : OffT)
  | open_ (path : List Byte) (flags : CInt) (mode : ModeT abi)
  | close (fd : CInt)
  | dup2 (fd fd2 : CInt)
  | unlink (path : List Byte)
  | rmdir (path : List Byte)
  | mkdir (path : List Byte) (mode : ModeT abi)
  | rename (path newPath : List Byte)
  | link (path newPath : List Byte)
  | symlink (path newPath : List Byte)
  | mknod (path : List Byte) (mode : ModeT abi) (dev : DevT abi)
  | readlink (path : List Byte) (buf : Pointer)
  | sync
  | fsync (fd : CInt)
  | fdatasync (fd : CInt)
  | eioMsync (mem : Pointer) (len : SizeT) (flags : CInt)
  | eioMtouch (mem : Pointer) (len : SizeT) (flags : CInt)
  | eioMlock (addr : Pointer) (len : SizeT)
  | eioMlockall (flags : CInt)
  | eioSyncFileRange (fd : CInt) (offset : OffT) (nbytes : SizeT) (flags : CInt)
  | eioScandir (path : List Byte) (flags : CInt)
  | select (timeout : Timeval)
  | futimes (fd : CInt) (times : Option (Timeval × Timeval))
  | utimes (path : List Byte) (times : Option (Timeval × Timeval))
  /-- `EIO_NOP`: no call is made. -/
  | nothing
  /-- `ALLOC` got no memory: the result is -1 with `ENOMEM`, and no call is made. -/
  | noMemory
  deriving DecidableEq, Repr

/-- `tv_sec` is the truncated value, `tv_usec` the rest of it in millionths. -/
def toTimeval (t : Double) : Timeval := ⟨t, (t - toDouble t) * 1000000⟩

/-- `times` of `utimes` and `futimes`: null if both values are -1. -/
def toTimes (req : EioReq) : Option (Timeval × Timeval) :=
  if req.nv1 ≠ -1 ∨ req.nv2 ≠ -1 then some (toTimeval req.nv1, toTimeval req.nv2) else none

variable {abi}

/-- `ALLOC`: a request without a buffer gets one from `malloc`, which returns
`fresh`. -/
def alloc (fresh : Pointer) (req : EioReq) (call : Pointer → SysCall abi) : SysCall abi :=
  if req.ptr2 ≠ 0 then call req.ptr2 else if fresh = 0 then .noMemory else call fresh

/-- `eio_execute` up to the call; `str` reads the C string at an address. `none`
is a read of memory that holds no string. -/
def eioExecute (str : Pointer → Option (List Byte)) (fresh : Pointer) (req : EioReq) :
    Option (SysCall abi) :=
  match req.type with
  | .read => some (alloc fresh req fun buf =>
      if 0 ≤ req.offs.toInt then .pread req.int1 buf req.size req.offs
      else .read req.int1 buf req.size)
  | .write => some (if 0 ≤ req.offs.toInt then .pwrite req.int1 req.ptr2 req.size req.offs
      else .write req.int1 req.ptr2 req.size)
  | .readahead => some (.readahead req.int1 req.offs req.size)
  | .sendfile => some (.eioSendfile req.int1 (req.int2.setWidth 32) req.offs req.size)
  | .stat => (str req.ptr1).map fun path => alloc fresh req fun buf => .stat path buf
  | .lstat => (str req.ptr1).map fun path => alloc fresh req fun buf => .lstat path buf
  | .fstat => some (alloc fresh req fun buf => .fstat req.int1 buf)
  | .statvfs => (str req.ptr1).map fun path => alloc fresh req fun buf => .statvfs path buf
  | .fstatvfs => some (alloc fresh req fun buf => .fstatvfs req.int1 buf)
  | .chown => (str req.ptr1).map fun path =>
      .chown path (req.int2.setWidth _) (req.int3.setWidth _)
  | .fchown => some (.fchown req.int1 (req.int2.setWidth _) (req.int3.setWidth _))
  | .chmod => (str req.ptr1).map fun path => .chmod path (req.int2.setWidth _)
  | .fchmod => some (.fchmod req.int1 (req.int2.setWidth _))
  | .truncate => (str req.ptr1).map fun path => .truncate path req.offs
  | .ftruncate => some (.ftruncate req.int1 req.offs)
  | .open_ => (str req.ptr1).map fun path => .open_ path req.int1 (req.int2.setWidth _)
  | .close => some (.close req.int1)
  | .dup2 => some (.dup2 req.int1 (req.int2.setWidth 32))
  | .unlink => (str req.ptr1).map .unlink
  | .rmdir => (str req.ptr1).map .rmdir
  | .mkdir => (str req.ptr1).map fun path => .mkdir path (req.int2.setWidth _)
  | .rename => (str req.ptr1).bind fun path => (str req.ptr2).map fun newPath => .rename path newPath
  | .link => (str req.ptr1).bind fun path => (str req.ptr2).map fun newPath => .link path newPath
  | .symlink => (str req.ptr1).bind fun path => (str req.ptr2).map fun newPath => .symlink path newPath
  | .mknod => (str req.ptr1).map fun path =>
      .mknod path (req.int2.setWidth _) (req.offs.setWidth _)
  | .readlink => (str req.ptr1).map fun path => alloc fresh req fun buf => .readlink path buf
  | .sync => some .sync
  | .fsync => some (.fsync req.int1)
  | .fdatasync => some (.fdatasync req.int1)
  | .msync => some (.eioMsync req.ptr2 req.size req.int1)
  | .mtouch => some (.eioMtouch req.ptr2 req.size req.int1)
  | .mlock => some (.eioMlock req.ptr2 req.size)
  | .mlockall => some (.eioMlockall req.int1)
  | .syncFileRange => some (.eioSyncFileRange req.int1 req.offs req.size (req.int2.setWidth 32))
  | .readdir => (str req.ptr1).map fun path => .eioScandir path req.int1
  | .busy => some (.select (toTimeval req.nv1))
  | .utime => (str req.ptr1).map fun path => .utimes path (toTimes req)
  | .futime => some (.futimes req.int1 (toTimes req))
  | .nop => some .nothing

/-- A mode or an owner survives its stay in a `long` member. -/
theorem setWidth_long {w : Nat} (fits : w ≤ 64) (x : BitVec w) :
    (x.setWidth 64).setWidth w = x := by
  rw [BitVec.setWidth_setWidth_of_le x fits, BitVec.setWidth_eq]

end WebbitAsyncio.Source.EioRequest
