import WebbitAsyncio.Source.NativeFunctions

/-!
# `nativeString`

jni-native-functions.c:51-56 asks `malloc` for as many bytes as the string has UTF-16
units. The block has no room for the terminating NUL of any string
(`never_round_trips`), and it has room for the encoding only of a string of ASCII
characters (`stays_inside_iff`).
-/
namespace WebbitAsyncio.Guarantees.NativeStrings
open WebbitAsyncio.Lib.Utf16 WebbitAsyncio.Lib.CMemory WebbitAsyncio.Lib.Allocation
open WebbitAsyncio.Source.EioRequest (JLong)
open WebbitAsyncio.Source.NativeFunctions

/-- The call has added a block of `size` bytes at `ptr`, has written nowhere else, and
has left in it a C string that reads back as `s`. -/
structure Inverse (s : JavaString) (ptr : JLong) (size : Nat) (m m' : Memory) : Prop where
  block : m'.live = ⟨ptr.toNat, size⟩ :: m.live
  writes : ∃ new, m'.writes = new ++ m.writes ∧ ∀ a ∈ new, Within ptr.toNat size a
  room : (modifiedUtf8 s.units ++ [0]).length ≤ size
  holds : Holds m' ptr.toNat (modifiedUtf8 s.units ++ [0])
  strlen : ∃ m'', strlen ptr m' = some (BitVec.ofNat 32 (modifiedUtf8 s.units).length, m'')
  javaString : ∃ m'', javaString ptr m' = some (s.units, m'')

def RoundTrips (s : JavaString) (m : Memory) (run : Option (JLong × Memory)) : Prop :=
  ∃ ptr size m', run = some (ptr, m') ∧ Inverse s ptr size m m'

section
variable {answer : Option Nat} {s : JavaString} {m m' : Memory} {ptr : JLong}

/-- What a run of `nativeString` has done. -/
theorem nativeString_ran {a : Nat} (ran : nativeString (some a) s m = some (ptr, m')) :
    ptr = BitVec.ofNat 64 a ∧ m'.live = ⟨a, s.units.length⟩ :: m.live ∧
      (∃ new, m'.writes = new ++ m.writes ∧
        ∀ c, c ∈ new ↔ Within a (modifiedUtf8 s.units).length c) ∧
      ∀ c, ¬ Within a (modifiedUtf8 s.units).length c → m'.bytes c = m.bytes c := by
  simp only [nativeString, bind_apply, malloc_apply, Option.bind_some, getStringUTFRegion_all,
    sizeT_getStringLength, pure_apply, Option.bind_eq_some_iff, Option.some.injEq, Prod.mk.injEq] at ran
  obtain ⟨⟨_, m₁⟩, stored, isPtr, isM'⟩ := ran
  cases isM'
  obtain ⟨live, writes, bytes⟩ := storeAll_ran _ a _ m₁ stored
  exact ⟨isPtr.symm, live, writes, bytes⟩

/-- Nor does it add a block if `malloc` refuses. -/
theorem nativeString_refused (ran : nativeString none s m = some (ptr, m')) : m'.live = m.live := by
  simp only [nativeString, bind_apply, malloc_refused, Option.bind_some, getStringUTFRegion_all,
    sizeT_getStringLength, pure_apply, Option.bind_eq_some_iff, Option.some.injEq, Prod.mk.injEq] at ran
  obtain ⟨⟨_, m₁⟩, stored, _, isM'⟩ := ran
  cases isM'
  exact (storeAll_ran _ 0 m m₁ stored).1

/-- The bytes written are in the block exactly if there is one for each unit. -/
theorem stays_inside_iff {a : Nat} (ran : nativeString (some a) s m = some (ptr, m')) :
    (∃ new, m'.writes = new ++ m.writes ∧ ∀ c ∈ new, Within a s.units.length c) ↔
      ∀ u ∈ s.units, u ≠ 0 ∧ u.toNat < 0x80 := by
  obtain ⟨_, _, ⟨new, isNew, all⟩, _⟩ := nativeString_ran ran
  have atLeast := length_le_modifiedUtf8 s.units
  rw [← length_modifiedUtf8_iff]
  constructor
  · rintro ⟨new', isNew', inside⟩
    have same : new' = new := List.append_cancel_right (isNew'.symm.trans isNew)
    subst same
    rcases Nat.lt_or_ge s.units.length (modifiedUtf8 s.units).length with more | enough
    · have last := inside (a + s.units.length) ((all _).mpr ⟨by omega, by omega⟩)
      unfold Within at last
      omega
    · omega
  · intro equal
    refine ⟨new, isNew, fun c member => ?_⟩
    have inside := (all c).mp member
    rwa [equal] at inside

/-- The byte behind the block is left as it was. -/
theorem unterminated {a : Nat} (ran : nativeString (some a) s m = some (ptr, m'))
    (ascii : ∀ u ∈ s.units, u ≠ 0 ∧ u.toNat < 0x80) :
    m'.bytes (a + s.units.length) = m.bytes (a + s.units.length) := by
  obtain ⟨_, _, _, bytes⟩ := nativeString_ran ran
  apply bytes
  rw [(length_modifiedUtf8_iff s.units).mpr ascii]
  unfold Within
  omega

end

/-- No string is given room for its NUL. -/
theorem never_round_trips (answer : Option Nat) (s : JavaString) (m : Memory) :
    ¬ RoundTrips s m (nativeString answer s m) := by
  rintro ⟨ptr, size, m', ran, inverse⟩
  cases answer with
  | none =>
    have more := inverse.block
    rw [nativeString_refused ran] at more
    exact absurd (congrArg List.length more) (by simp)
  | some a =>
    obtain ⟨_, live, _, _⟩ := nativeString_ran ran
    have same := inverse.block.symm.trans live
    simp only [List.cons.injEq, Extent.mk.injEq, and_true] at same
    have room := inverse.room
    have atLeast := length_le_modifiedUtf8 s.units
    rw [List.length_append, List.length_singleton] at room
    omega

/-- Memory without a block, and what `nativeString ("A")` makes of it. -/
def blankMemory : Memory := ⟨fun _ => 0xFF, [], [], []⟩
def letterMemory : Memory := ⟨Function.update (fun _ => 0xFF) 16 0x41, [⟨16, 1⟩], [], [16]⟩

/-- The C string in the block has no end. -/
theorem letter_unterminated :
    nativeString (some 16) ⟨[0x41], by decide⟩ blankMemory = some (16, letterMemory) ∧
      strlen 16 letterMemory = none ∧
      ¬ RoundTrips ⟨[0x41], by decide⟩ blankMemory (some (16, letterMemory)) := by
  have endless : strlen 16 letterMemory = none := by decide
  refine ⟨rfl, endless, ?_⟩
  rintro ⟨ptr, size, m', ran, inverse⟩
  cases ran
  obtain ⟨m'', measured⟩ := inverse.strlen
  cases endless.symm.trans measured

end WebbitAsyncio.Guarantees.NativeStrings
