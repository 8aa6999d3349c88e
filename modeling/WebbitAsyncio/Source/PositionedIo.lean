import Mathlib.Data.BitVec
import Mathlib.Logic.Function.Basic
import WebbitAsyncio.Lib.TransitionSystem

/-!
# Reading and writing at an offset without `pread` and `pwrite`

`eio__pread` and `eio__pwrite` (eio.c:798-842), which are built where the system has no
such calls: each moves the position of the file, transfers, and moves it back, under
`preadwritelock`. Any number of threads, any number of open files; every call to the
system is a step. How much a call transfers, and whether it fails, is the system's choice.

`lseek` fails on pipes and sockets, and at a negative offset, which `eio__sendfile` and
`eio__readahead` may pass on; its result is not looked at. Two descriptors that share a
position are one open file here, and no file is opened for appending. `read` and `write`
of the program may come at any time, but not on a file whose position the emulation has
moved: against those it is not safe, as its comment says.
-/
namespace WebbitAsyncio.Source.PositionedIo
open WebbitAsyncio.Lib.TransitionSystem

abbrev Byte : Type := BitVec 8

/-- An open file. -/
abbrev Fd : Type := Nat

/-- A file on the disk, or what is on its way through a pipe or a socket. -/
abbrev Ino : Type := Nat

structure Table where
  inode : Fd → Ino
  /-- Whether the file can be positioned; pipes and sockets cannot. -/
  seekable : Fd → Bool
  /-- Where a pipe or a socket leads. -/
  outlet : Fd → Ino

structure Files where
  content : Ino → List Byte
  position : Fd → Nat

inductive Op where
  | read (count : Nat)
  | write (buf : List Byte)
  deriving DecidableEq, Repr

inductive Outcome where
  | failed
  | read (data : List Byte)
  | wrote (n : Nat)
  deriving DecidableEq, Repr

/-- By how much the position moves. -/
def Outcome.moved : Outcome → Nat
  | .failed => 0
  | .read data => data.length
  | .wrote n => n

/-- The bytes put over those at an offset; a hole is filled with zeros. -/
def overwrite (content : List Byte) (offset : Nat) (new : List Byte) : List Byte :=
  if new = [] then content
  else
    (content ++ List.replicate (offset - content.length) 0).take offset ++ new ++
      content.drop (offset + new.length)

/-- A transfer at an offset; `n` is how many bytes the system handles, `none` an error. -/
def transfer (content : List Byte) (offset : Nat) : Op → Option Nat → List Byte × Outcome
  | _, none => (content, .failed)
  | .read count, some n => (content, .read ((content.drop offset).take (min n count)))
  | .write buf, some n => (overwrite content offset (buf.take n), .wrote (buf.take n).length)

variable (tab : Table)

/-- A transfer at an offset that leaves the position alone. -/
def atOffset (files : Files) (fd : Fd) (op : Op) (offset : Nat) (n : Option Nat) :
    Files × Outcome :=
  let done := transfer (files.content (tab.inode fd)) offset op n
  ({ files with content := Function.update files.content (tab.inode fd) done.1 }, done.2)

/-- A transfer at the position, which moves. -/
def atPosition (files : Files) (fd : Fd) (op : Op) (n : Option Nat) : Files × Outcome :=
  let done := atOffset tab files fd op (files.position fd) n
  (⟨done.1.content, Function.update files.position fd (files.position fd + done.2.moved)⟩, done.2)

/-- What is read from a pipe or a socket is gone, what is written comes out at its end. -/
def throughStream (files : Files) (fd : Fd) : Op → Option Nat → Files × Outcome
  | _, none => (files, .failed)
  | .read count, some n =>
    let waiting := files.content (tab.inode fd)
    let data := waiting.take (min n count)
    let rest := waiting.drop data.length
    ({ files with content := Function.update files.content (tab.inode fd) rest }, .read data)
  | .write buf, some n =>
    let sent := buf.take n
    let waiting := files.content (tab.outlet fd) ++ sent
    ({ files with content := Function.update files.content (tab.outlet fd) waiting },
      .wrote sent.length)

/-- `read` and `write`. -/
def plainTransfer (files : Files) (fd : Fd) (op : Op) (n : Option Nat) : Files × Outcome :=
  if tab.seekable fd then atPosition tab files fd op n else throughStream tab files fd op n

/-- `lseek (fd, 0, SEEK_CUR)` -/
def lseekCur (files : Files) (fd : Fd) : Int :=
  if tab.seekable fd then files.position fd else -1

/-- `lseek (fd, offset, SEEK_SET)` -/
def lseekSet (files : Files) (fd : Fd) (offset : Int) : Files :=
  if tab.seekable fd ∧ 0 ≤ offset then
    { files with position := Function.update files.position fd offset.toNat }
  else files

/-- Where a thread stands in `eio__pread` or `eio__pwrite`. -/
inductive Pc where
  | away
  | lock (fd : Fd) (op : Op) (offset : Int)
  | tell (fd : Fd) (op : Op) (offset : Int)
  | seek (fd : Fd) (op : Op) (offset ooffset : Int)
  | transfer (fd : Fd) (op : Op) (offset ooffset : Int)
  | seekBack (fd : Fd) (ooffset : Int) (res : Outcome)
  | unlock (res : Outcome)
  deriving DecidableEq, Repr

/-- The file to move back, and to where. -/
def Pc.saved : Pc → Option (Fd × Int)
  | .seek fd _ _ ooffset | .transfer fd _ _ ooffset | .seekBack fd ooffset _ => some (fd, ooffset)
  | _ => none

structure State (T : Type) where
  files : Files
  preadwritelock : Option T
  pc : T → Pc

inductive Action (T : Type) where
  | call (t : T) (fd : Fd) (op : Op) (offset : Int)
  /-- The next statement; `n` is for the transfer. -/
  | go (t : T) (n : Option Nat)
  /-- The program's own `read` or `write`. -/
  | plain (fd : Fd) (op : Op) (n : Option Nat)

variable {T : Type}

/-- The file whose position the emulation has moved or is about to move. -/
def moved (s : State T) : Option (Fd × Int) :=
  (s.preadwritelock.bind fun t => (s.pc t).saved).filter fun saved => tab.seekable saved.1

variable [DecidableEq T]

def State.goTo (s : State T) (t : T) (pc : Pc) : State T :=
  { s with pc := Function.update s.pc t pc }

def goThread (s : State T) (t : T) (n : Option Nat) : Option (State T) :=
  match s.pc t with
  | .away => none
  | .lock fd op offset =>
    if s.preadwritelock = none then
      some ({ s with preadwritelock := some t }.goTo t (.tell fd op offset))
    else none
  | .tell fd op offset => some (s.goTo t (.seek fd op offset (lseekCur tab s.files fd)))
  | .seek fd op offset ooffset =>
    some ({ s with files := lseekSet tab s.files fd offset }.goTo t (.transfer fd op offset ooffset))
  | .transfer fd op _ ooffset =>
    let done := plainTransfer tab s.files fd op n
    some ({ s with files := done.1 }.goTo t (.seekBack fd ooffset done.2))
  | .seekBack fd ooffset res =>
    some ({ s with files := lseekSet tab s.files fd ooffset }.goTo t (.unlock res))
  | .unlock _ => some ({ s with preadwritelock := none }.goTo t .away)

def step (s : State T) : Action T → Option (State T)
  | .call t fd op offset =>
    if s.pc t = .away then some (s.goTo t (.lock fd op offset)) else none
  | .go t n => goThread tab s t n
  | .plain fd op n =>
    if (moved tab s).all (fun saved => saved.1 ≠ fd) then
      some { s with files := (plainTransfer tab s.files fd op n).1 }
    else none

end WebbitAsyncio.Source.PositionedIo
