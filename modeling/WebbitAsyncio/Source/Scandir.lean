import WebbitAsyncio.Source.DirectoryEntries

/-!
# `eio__scandir`

The listing of a directory (eio.c:1230-1429), with the flags of `readdir`
(eio.h:70-79). The directory stream, the allocator and the cancellation of the request
are what the call finds. An `int` that overflows, a `memcpy` outside the buffer of names
or through a null pointer, and a write outside the array of entries are undefined and
give `none`. The types are those of Linux: there `D_TYPE` has the values of `eio_dtype`,
and `DT_MPC`, `DT_NAM`, `DT_MPB`, `DT_NWK`, `DT_CMP` and `DT_DOOR` are not defined.
-/
namespace WebbitAsyncio.Source.Scandir
open WebbitAsyncio.Source.DirectoryEntries WebbitAsyncio.Lib.Partition

abbrev Flags : Type := BitVec 32

def readdirDents : Flags := 0x01
def readdirDirsFirst : Flags := 0x02
def readdirStatOrder : Flags := 0x04
def readdirFoundUnknown : Flags := 0x80

/-- `flags & flag`, as a condition. -/
def has (flags flag : Flags) : Bool := flags &&& flag ≠ 0

def dtUnknown : Byte := 0
def dtDir : Byte := 4

/-- The `D_TYPE`s with a case of their own. -/
def knownTypes : List Byte := [1, 2, 4, 6, 8, 10, 12, 14]

/-- `INT_MAX`. -/
def intMax : Nat := 2 ^ 31 - 1

/-- What `readdir` of the C library returns: `D_INO`, `D_TYPE` and the name, without
the NUL that ends it. -/
structure Entry where
  ino : InoT
  dtype : Byte
  name : List Byte
  deriving DecidableEq, Repr

/-- What the call finds. The allocator answers by the size it is asked for. -/
structure Surroundings where
  opens : Bool
  entries : List Entry
  /-- The stream ends in an error. -/
  fails : Bool
  /-- `EIO_CANCELLED (req)` after this many entries. -/
  cancelled : Nat → Bool
  mallocDents : Bool
  mallocNames : Bool
  reallocDents : Nat → Bool
  reallocNames : Nat → Bool

/-- An allocated block of which the cells written so far are known. -/
structure Block (α : Type) where
  allocated : Nat
  written : List α
  deriving DecidableEq, Repr

/-- `memcpy (block + offset, cells, …)`. -/
def Block.write {α : Type} (block : Block α) (offset : Nat) (cells : List α) : Option (Block α) :=
  if offset ≤ block.written.length ∧ offset + cells.length ≤ block.allocated then
    some { block with
      written := block.written.take offset ++ cells ++ block.written.drop (offset + cells.length) }
  else none

/-- The local variables; `dents` and `names` are null or a block. -/
structure Locals where
  flags : Flags
  names : Option (Block Byte)
  namesalloc : Nat
  namesoffs : Nat
  dents : Option (Block EioDirent)
  dentalloc : Nat
  dentoffs : Nat
  inodeBits : InoT

/-- The pass of the loop goes on, or leaves the loop. -/
inductive Pass where
  | goes (locals : Locals)
  | breaks (locals : Locals)

/-- What the request holds at the end. -/
structure Listing where
  result : Int
  int1 : Flags
  ptr1 : Option (Block EioDirent)
  ptr2 : Option (Block Byte)

def dot : Byte := 46

/-- `name [0] == '.' && !(name [1] && (name [1] != '.' || name [2]))`. -/
def skipped : List Byte → Bool
  | [46] => true
  | [46, 46] => true
  | _ => false

/-- `ent->type`. -/
def entryType (dtype : Byte) : Byte := if dtype ∈ knownTypes then dtype else dtUnknown

/-- The flags after the entry. -/
def entryFlags (flags : Flags) (dtype : Byte) : Flags :=
  if dtype ∈ knownTypes then flags else flags ||| readdirFoundUnknown

/-- `ent->score`. -/
def entryScore (flags : Flags) (type : Byte) (name : List Byte) : BitVec 8 :=
  if has flags readdirDirsFirst then
    if type = dtUnknown then
      if name.head? = some dot then 1
      else if dot ∉ name then
        let len : Int := name.length + 1
        BitVec.ofInt 8 (if len ≤ 2 then 4 - len else if len ≤ 4 then 4 else if len ≤ 7 then 5 else 6)
      else 7
    else if type = dtDir then 0
    else 7
  else 7

/-- Doubles the buffer of names until the name fits. A refused `realloc` leaves this
loop only, with `names` null. -/
def growNames (grants : Nat → Bool) (needed : Nat) :
    Nat → Nat → Option (Block Byte) → Option (Nat × Option (Block Byte))
  | 0, _, _ => none
  | fuel + 1, namesalloc, names =>
    if needed > namesalloc then
      let namesalloc := namesalloc * 2
      if namesalloc > intMax then none
      else if grants namesalloc then
        growNames grants needed fuel namesalloc (names.map fun block => ⟨namesalloc, block.written⟩)
      else some (namesalloc, none)
    else some (namesalloc, names)

/-- The entry at the end of `dents`, which grows when it is full. -/
def addDent (env : Surroundings) (locals : Locals) (entry : Entry) : Option Pass :=
  match locals.dents with
  | none => some (.goes locals)
  | some dents =>
    let full := locals.dentoffs = locals.dentalloc
    let dentalloc := if full then locals.dentalloc * 2 else locals.dentalloc
    if dentalloc > intMax then none
    else if full ∧ !env.reallocDents dentalloc then
      some (.breaks { locals with dentalloc := dentalloc, dents := none })
    else do
      let type := entryType entry.dtype
      let flags := entryFlags locals.flags entry.dtype
      let ent : EioDirent :=
        { nameofs := BitVec.ofNat 32 locals.namesoffs
          namelen := BitVec.ofNat 16 entry.name.length
          type := type
          score := entryScore flags type entry.name
          inode := entry.ino }
      let dents ← Block.write ⟨if full then dentalloc else dents.allocated, dents.written⟩
        locals.dentoffs [ent]
      some (.goes { locals with
        flags := flags, dentalloc := dentalloc, dents := some dents,
        inodeBits := locals.inodeBits ||| entry.ino })

/-- One entry that is neither `.` nor `..`. -/
def addEntry (env : Surroundings) (locals : Locals) (entry : Entry) : Option Pass := do
  let len := entry.name.length + 1
  if locals.namesoffs + len > intMax then none
  else
    let (namesalloc, names) ← growNames env.reallocNames (locals.namesoffs + len) 32
      locals.namesalloc locals.names
    let block ← names
    let block ← block.write locals.namesoffs (entry.name ++ [0])
    let locals := { locals with namesalloc := namesalloc, names := some block }
    match ← addDent env locals entry with
    | .breaks locals => some (.breaks locals)
    | .goes locals =>
      some (.goes { locals with
        namesoffs := locals.namesoffs + len, dentoffs := locals.dentoffs + 1 })

variable (order : ByteOrder)

/-- Sorts the entries as the flags ask, at the end of the stream. -/
def sortDents (locals : Locals) (dents : List EioDirent) : Option (List EioDirent) :=
  let scoreBits : BitVec 8 := if has locals.flags readdirDirsFirst then 7 else 0
  if has locals.flags readdirStatOrder then
    eioDentSort order dents locals.dentoffs scoreBits locals.inodeBits
  else if has locals.flags readdirDirsFirst then
    if has locals.flags readdirFoundUnknown then
      eioDentSort order dents locals.dentoffs 7 locals.inodeBits
    else do
      let (dents, dir) ← partition (fun dent => dent.type != dtDir) locals.dentoffs dents 0
      eioDentSort order dents dir 0 locals.inodeBits
  else some dents

/-- The end of the stream. -/
def finish (locals : Locals) : Option Listing :=
  match locals.dents with
  | none => some ⟨locals.dentoffs, locals.flags, none, locals.names⟩
  | some block => do
    let dents ← sortDents order locals block.written
    some ⟨locals.dentoffs, locals.flags, some ⟨block.allocated, dents⟩, locals.names⟩

/-- The loop was left without a result. -/
def failed (int1 : Flags) (locals : Locals) : Listing := ⟨-1, int1, locals.dents, locals.names⟩

/-- `for (;;)`, from entry `count` of the stream on. -/
def readEntries (env : Surroundings) (int1 : Flags) : Nat → List Entry → Locals → Option Listing
  | _, [], locals => if env.fails then some (failed int1 locals) else finish order locals
  | count, entry :: rest, locals => do
    match ← if skipped entry.name then some (.goes locals) else addEntry env locals entry with
    | .breaks locals => some (failed int1 locals)
    | .goes locals =>
      if env.cancelled (count + 1) then some (failed int1 locals)
      else readEntries env int1 (count + 1) rest locals

/-- `flags` before the loop: without entries there is nothing to sort. -/
def askedFlags (int1 : Flags) : Flags :=
  if has int1 readdirDents then int1
  else int1 &&& ~~~(readdirDirsFirst ||| readdirStatOrder)

def eioScandir (env : Surroundings) (int1 : Flags) : Option Listing :=
  let flags := askedFlags int1
  let dents : Option (Block EioDirent) :=
    if flags ≠ 0 ∧ env.mallocDents then some ⟨128, []⟩ else none
  let names : Option (Block Byte) := if env.mallocNames then some ⟨4096, []⟩ else none
  let locals : Locals := ⟨flags, names, 4096, 0, dents, 128, 0, 0⟩
  if env.opens ∧ names.isSome ∧ (flags = 0 ∨ dents.isSome) then
    readEntries order env int1 0 env.entries locals
  else some (failed int1 locals)

end WebbitAsyncio.Source.Scandir
