import Mathlib.Data.BitVec

/-!
# Sending from one file to another

`eio__sendfile` (eio.c:938-1061) as it is built for Linux or for a system without
`sendfile`: the system's own call, and the loop that copies through a buffer where that
call does not take the two descriptors. The contents of the input do not change during
the call; what each `pread` and each `write` returns is the system's choice.

`offset` and `res` do not leave the range of their types, as the copied part lies within
the file, and are integers here.
-/
namespace WebbitAsyncio.Source.Sendfile

abbrev Byte : Type := BitVec 8

/-- `EIO_BUFSIZE` -/
def eioBufsize : Nat := 65536

inductive Errno where
  | enosys
  | einval
  | enotsock
  | enotsup
  | eopnotsupp
  | other
  deriving DecidableEq, Repr

/-- The errors after which `sendfile` is emulated. -/
def Errno.emulated : Errno → Bool
  | .other => false
  | _ => true

/-- What the calls return, by the number of the pass. -/
structure Kernel where
  /-- `sendfile (ofd, ifd, &offset, count)`: the bytes sent, or an error. -/
  sendfile : Int → Nat → Except Errno Nat
  /-- Whether `dBUF` gets its buffer. -/
  buffer : Bool
  /-- `pread` of so many bytes at an offset. -/
  pread : Nat → Nat → Int → Int
  /-- `write` of so many bytes. -/
  write : Nat → Nat → Int

/-- The bytes of the file at an offset. -/
def bytesAt (file : List Byte) (offset : Int) (n : Nat) : List Byte :=
  (file.drop offset.toNat).take n

/-- What is left of `res` when a call returned `cnt <= 0`. -/
def stopped (cnt res : Int) : Int := if cnt ≠ 0 ∧ res = 0 then -1 else res

/-- `while (count)`; `out` is what was written to `ofd` so far. -/
def emulate (kernel : Kernel) (file : List Byte) :
    Nat → Nat → Int → Nat → Int → List Byte → Option (Int × List Byte)
  | 0, _, _, _, _, _ => none
  | fuel + 1, pass, offset, count, res, out =>
    if count = 0 then some (res, out)
    else
      let cnt := kernel.pread pass (if count > eioBufsize then eioBufsize else count) offset
      if cnt ≤ 0 then some (stopped cnt res, out)
      else
        let eioBuf := bytesAt file offset cnt.toNat
        let cnt := kernel.write pass cnt.toNat
        if cnt ≤ 0 then some (stopped cnt res, out)
        else emulate kernel file fuel (pass + 1) (offset + cnt) (count - cnt.toNat) (res + cnt)
          (out ++ eioBuf.take cnt.toNat)

/-- What `eio__sendfile` returns, and the output after it. -/
def eioSendfile (kernel : Kernel) (file : List Byte) (offset : Int) (count : Nat)
    (out : List Byte) : Option (Int × List Byte) :=
  if count = 0 then some (0, out)
  else
    match kernel.sendfile offset count with
    | .ok n => some (n, out ++ bytesAt file offset n)
    | .error errno =>
      if errno.emulated && kernel.buffer then
        emulate kernel file (count + 1) 0 offset count 0 out
      else some (-1, out)

end WebbitAsyncio.Source.Sendfile
