import WebbitAsyncio.Lib.Partition
import WebbitAsyncio.Lib.SortOrder

/-!
# Directory entries and how `readdir` sorts them

`struct eio_dirent` (eio.h:103-110) and `eio_dent_cmp`, `eio_dent_radix_sort`,
`eio_dent_insertion_sort` and `eio_dent_sort` (eio.c:1065-1228). The radix sort reads
the bits of an entry as bits of its bytes in memory, so the model has the layout of the
structure and takes the byte order of the machine. A read outside an array, or a write
outside the stack of segments, is undefined and gives `none`.
-/
namespace WebbitAsyncio.Source.DirectoryEntries
open WebbitAsyncio.Lib.Partition WebbitAsyncio.Lib.SortOrder

abbrev Byte : Type := BitVec 8
abbrev InoT : Type := BitVec 64

structure EioDirent where
  nameofs : BitVec 32
  namelen : BitVec 16
  type : Byte
  score : BitVec 8
  inode : InoT
  deriving DecidableEq, Repr

/-! ### Comparison -/

/-- The `signed char` that the `int` is converted to. -/
def eioDentCmp (a b : EioDirent) : BitVec 8 :=
  if a.score.toInt - b.score.toInt ≠ 0 then BitVec.ofInt 8 (a.score.toInt - b.score.toInt)
  else if a.inode < b.inode then -1
  else if b.inode < a.inode then 1
  else 0

/-- `EIO_DENT_CMP (a, <, b)`. -/
def dentLess (a b : EioDirent) : Bool := (eioDentCmp a b).toInt < 0

/-- `EIO_DENT_CMP (a, >, b)`. -/
def dentGreater (a b : EioDirent) : Bool := 0 < (eioDentCmp a b).toInt

/-! ### Bits of an entry in memory -/

inductive ByteOrder where
  | little
  | big
  deriving DecidableEq, Repr

/-- The lowest `n` bytes of a number, in the order they lie in memory. -/
def memoryBytes {width : Nat} (order : ByteOrder) (n : Nat) (number : BitVec width) : List Byte :=
  let rising := (List.range n).map fun i => number.extractLsb' (8 * i) 8
  match order with
  | .little => rising
  | .big => rising.reverse

/-- The `ino_t` whose bytes lie in memory as given. -/
def inoOfMemory (order : ByteOrder) (bytes : List Byte) : InoT :=
  let falling := match order with
    | .little => bytes.reverse
    | .big => bytes
  falling.foldl (fun number byte => number <<< 8 ||| byte.setWidth 64) 0

/-- `offsetof (eio_dirent, score)`. -/
def offsetofScore : Nat := 7

/-- `offsetof (eio_dirent, inode)`. -/
def offsetofInode : Nat := 8

def EioDirent.bytes (order : ByteOrder) (dent : EioDirent) : List Byte :=
  memoryBytes order 4 dent.nameofs ++ memoryBytes order 2 dent.namelen ++
    [dent.type, dent.score] ++ memoryBytes order 8 dent.inode

/-- Byte n of `endianness` is its own offset. -/
def endianness (order : ByteOrder) : InoT :=
  inoOfMemory order ((List.range 8).map (BitVec.ofNat 8))

/-- `offs`: the first bit of the byte of the inode that has significance `i`. -/
def inodeOffs (order : ByteOrder) (i : Nat) : Nat :=
  (offsetofInode + (endianness order >>> (8 * i) &&& 0xff).toNat) * 8

/-- The array `bits`: the sentinel, then the bits to test, the least significant first. -/
def sortBits (order : ByteOrder) (scoreBits : BitVec 8) (inodeBits : InoT) : List Nat :=
  0 :: ((List.range 8).flatMap fun i =>
      ((List.range 8).filter fun j => inodeBits.getLsbD (i * 8 + j)).map (inodeOffs order i + ·)) ++
    ((List.range 8).filter fun j => scoreBits.getLsbD j).map (offsetofScore * 8 + ·)

/-- `((unsigned char *)a)[O] & M`. -/
def hasBit (order : ByteOrder) (bit : Nat) (dent : EioDirent) : Bool :=
  (dent.bytes order).getD (bit >>> 3) 0 &&& (1 <<< (bit &&& 7)) ≠ 0

/-! ### Radix sort -/

def eioSortCutoff : Nat := 30

def eioSortFast : Nat := 60

/-- `9 + sizeof (ino_t) * 8`, the entries of `base_stk`, `end_stk` and `bit_stk`. -/
def stackSize : Nat := 73

/-- A segment on the stack, `limit` being its `end`. The pointer `bit` is the part of the
array from its sentinel to the bit it points to, that bit first. -/
structure Segment where
  base : Nat
  limit : Nat
  bit : List Nat
  deriving DecidableEq, Repr

variable (order : ByteOrder)

/-- The inner loop: partitions on one bit after the other, pushes the right part and
goes on with the left one. -/
def descend : List Nat → List Segment → List EioDirent → Nat → Nat →
    Option (List EioDirent × List Segment)
  | [], _, _, _, _ => none
  | bit :: below, stack, dents, base, limit =>
    if limit - base < eioSortCutoff then some (dents, stack)
    else do
      let (dents, a) ← partition (hasBit order bit) (limit - base) dents base
      match below with
      | [] => none -- `--bit` leaves the array
      | next :: _ =>
        if next = 0 then some (dents, stack)
        else if stack.length < stackSize then
          descend below (⟨a, limit, below⟩ :: stack) dents base a
        else none

/-- The outer loop: takes segments off the stack until none is left. -/
def radixLoop : Nat → List Segment → List EioDirent → Option (List EioDirent)
  | _, [], dents => some dents
  | 0, _ :: _, _ => none
  | fuel + 1, segment :: stack, dents => do
    let (dents, stack) ← descend order segment.bit stack dents segment.base segment.limit
    radixLoop fuel stack dents

/-- The fuel: a segment splits at most once a bit. -/
def eioDentRadixSort (dents : List EioDirent) (size : Nat) (scoreBits : BitVec 8)
    (inodeBits : InoT) : Option (List EioDirent) :=
  if size ≤ eioSortFast then some dents
  else
    radixLoop order (2 ^ stackSize) [⟨0, size, (sortBits order scoreBits inodeBits).reverse⟩] dents

/-! ### Insertion sort -/

/-- `for (i = …; --i; )`, from index `i` down. -/
def leastIndex (dents : List EioDirent) : Nat → Nat → Option Nat
  | 0, min => some min
  | i + 1, min => do
    let candidate ← dents[i + 1]?
    let least ← dents[min]?
    leastIndex dents i (if dentLess candidate least then i + 1 else min)

def eioDentInsertionSort (dents : List EioDirent) (size : Nat) : Option (List EioDirent) := do
  let min ← leastIndex dents ((if eioSortFast < size then eioSortCutoff + 1 else size) - 1) 0
  let first ← dents[0]?
  let least ← dents[min]?
  insertions dentGreater (size - 1) 0 ((dents.set 0 least).set min first)

def eioDentSort (dents : List EioDirent) (size : Nat) (scoreBits : BitVec 8) (inodeBits : InoT) :
    Option (List EioDirent) :=
  if size ≤ 1 then some dents
  else do
    let dents ← eioDentRadixSort order dents size scoreBits inodeBits
    eioDentInsertionSort dents size

end WebbitAsyncio.Source.DirectoryEntries
