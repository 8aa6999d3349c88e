import WebbitAsyncio.Source.NativeFunctions

/-!
# `NativeFunctions` memory as a store of the values written

What a reader of memory is promised after a sequence of writes (`promised`): the bytes and
the Java characters that the latest operation stored, for characters of any width. The
functions of jni-native-functions.c keep the promise about bytes. They keep the one about
characters exactly if those still to be read fit in a `char` (`store_of_values_iff`).
-/
namespace WebbitAsyncio.Guarantees.MemoryStore
open WebbitAsyncio.Lib.Utf16 WebbitAsyncio.Lib.CMemory WebbitAsyncio.Lib.Allocation
open WebbitAsyncio.Source.Reqq (JInt)
open WebbitAsyncio.Source.EioRequest (JLong)
open WebbitAsyncio.Source.NativeFunctions

/-! ### What is promised -/

/-- The byte and the character that an address is known to hold. -/
structure Promise where
  byteAt : Nat → Option Byte
  charAt : Nat → Option CodeUnit

/-- A character of `width` bytes at `a` has some of the `n` bytes from `base` on. -/
def Overlaps (width base n a : Nat) : Prop := 0 < n ∧ a < base + n ∧ base < a + width

instance (width base n a : Nat) : Decidable (Overlaps width base n a) :=
  inferInstanceAs (Decidable (_ ∧ _ ∧ _))

/-- The `n` bytes from `base` on are given new contents: the bytes there and the
characters that lie there as a whole. One that lost only a part is lost. -/
def Promise.cover (promise : Promise) (width base n : Nat) (newByte : Nat → Option Byte)
    (newChar : Nat → Option CodeUnit) : Promise where
  byteAt a := if Within base n a then newByte a else promise.byteAt a
  charAt a :=
    if Overlaps width base n a then
      if base ≤ a ∧ a + width ≤ base + n then newChar a else none
    else promise.charAt a

inductive Operation where
  | writeByte (ptr : JLong) (value : Byte)
  | writeChar (ptr : JLong) (value : CodeUnit)
  | bzero (ptr : JLong) (size : JInt)
  | memcpy (dest src : JLong) (size : JInt)
  deriving DecidableEq, Repr

def Promise.after (width : Nat) (promise : Promise) : Operation → Promise
  | .writeByte ptr value => promise.cover width ptr.toNat 1 (fun _ => some value) fun _ => none
  | .writeChar ptr value =>
    promise.cover width ptr.toNat width (fun _ => none) fun _ => some value
  | .bzero ptr size =>
    promise.cover width ptr.toNat size.toNat (fun _ => some 0) fun _ => some 0
  | .memcpy dest src size =>
    promise.cover width dest.toNat size.toNat
      (fun a => promise.byteAt (src.toNat + (a - dest.toNat)))
      fun a => promise.charAt (src.toNat + (a - dest.toNat))

/-- Before the first operation the bytes are known. -/
def initial (m : Memory) : Promise := ⟨fun a => some (m.bytes a), fun _ => none⟩

def promised (width : Nat) (m : Memory) (operations : List Operation) : Promise :=
  operations.foldl (Promise.after width) (initial m)

/-! ### The calls -/

def perform : Operation → Program Unit
  | .writeByte ptr value => writeByte ptr value
  | .writeChar ptr value => writeChar ptr value
  | .bzero ptr size => bzero ptr size
  | .memcpy dest src size => memcpy dest src size

def performAll : List Operation → Program Unit
  | [] => return
  | operation :: rest => do
    perform operation
    performAll rest

/-- The range lies in a live block. -/
def Inside (live : List Extent) (base n : Nat) : Prop :=
  ∃ e ∈ live, e.base ≤ base ∧ base + n ≤ e.base + e.size

def Valid (width : Nat) (live : List Extent) : Operation → Prop
  | .writeByte ptr _ => Inside live ptr.toNat 1
  | .writeChar ptr _ => Inside live ptr.toNat width
  | .bzero ptr size => 0 ≤ size.toInt ∧ Inside live ptr.toNat size.toNat
  | .memcpy dest src size => 0 ≤ size.toInt ∧ Inside live dest.toNat size.toNat ∧
      Inside live src.toNat size.toNat ∧
      ∀ a, Within src.toNat size.toNat a → ¬ Within dest.toNat size.toNat a

/-- A character that `char` can hold. -/
def Representable (signed : Bool) (value : CodeUnit) : Prop :=
  if signed then value.toNat < 0x80 ∨ 0xFF80 ≤ value.toNat else value.toNat < 0x100

/-! ### Keeping the promise -/

/-- Memory holds what is promised, of a character what is left of it. -/
structure Keeps (promise : Promise) (m : Memory) : Prop where
  byte : ∀ a b, promise.byteAt a = some b → m.bytes a = b
  char : ∀ a c, promise.charAt a = some c → m.bytes a = jcharToChar c

section
variable {width base n : Nat} {promise : Promise} {m m' : Memory}
  {newByte : Nat → Option Byte} {newChar : Nat → Option CodeUnit}

theorem keeps_cover (keeps : Keeps promise m) (positive : 0 < width)
    (outside : ∀ a, ¬ Within base n a → m'.bytes a = m.bytes a)
    (byte : ∀ a b, Within base n a → newByte a = some b → m'.bytes a = b)
    (char : ∀ a c, base ≤ a → a + width ≤ base + n → newChar a = some c →
      m'.bytes a = jcharToChar c) :
    Keeps (promise.cover width base n newByte newChar) m' := by
  constructor
  · intro a b told
    simp only [Promise.cover] at told
    split at told
    next inside => exact byte a b inside told
    next notInside =>
      rw [outside a notInside]
      exact keeps.byte a b told
  · intro a c told
    simp only [Promise.cover] at told
    split at told
    next =>
      split at told
      next whole => exact char a c whole.1 whole.2 told
      next => cases told
    next apart =>
      have notInside : ¬ Within base n a := by
        unfold Within Overlaps at *
        omega
      rw [outside a notInside]
      exact keeps.char a c told

theorem Inside.isLive {m : Memory} (inside : Inside m.live base n) {a : Nat} (within : Within base n a) :
    Live m a := by
  obtain ⟨e, member, low, high⟩ := inside
  refine ⟨e, member, ?_⟩
  unfold Within at *
  omega

theorem keeps_initial (m : Memory) : Keeps (initial m) m := by
  constructor
  · intro a b told
    exact Option.some.inj told
  · intro a c told
    cases told

end

section
variable {width : Nat} {promise : Promise} {m : Memory}

theorem bzero_keeps {ptr : JLong} {size : JInt} (keeps : Keeps promise m)
    (positive : 0 < width) (nonneg : 0 ≤ size.toInt) (inside : Inside m.live ptr.toNat size.toNat) :
    ∃ m', bzero ptr size m = some ((), m') ∧ m'.live = m.live ∧
      Keeps (promise.after width (.bzero ptr size)) m' := by
  obtain ⟨m', ran, touches, zero⟩ := fill_apply (fun _ => False) 0 size.toNat ptr.toNat m
    fun c => inside.isLive
  refine ⟨m', ?_, touches.live, ?_⟩
  · rw [bzero, sizeT_eq nonneg]
    exact ran
  · apply keeps_cover keeps positive touches.bytes
    · intro a b within told
      rw [zero a within]
      exact Option.some.inj told
    · intro a c low high told
      rw [zero a ⟨low, by omega⟩, ← Option.some.inj told]
      rfl

theorem memcpy_keeps {dest src : JLong} {size : JInt} (keeps : Keeps promise m)
    (positive : 0 < width) (valid : Valid width m.live (.memcpy dest src size)) :
    ∃ m', memcpy dest src size m = some ((), m') ∧ m'.live = m.live ∧
      Keeps (promise.after width (.memcpy dest src size)) m' := by
  obtain ⟨nonneg, target, source, apart⟩ := valid
  obtain ⟨m', ran, touches, copied⟩ := copy_apply size.toNat dest.toNat src.toNat m
    (fun c => source.isLive) (fun c => target.isLive) apart
  -- The byte at `a` is the one that the source range held at the same distance.
  have same : ∀ a, Within dest.toNat size.toNat a →
      m'.bytes a = m.bytes (src.toNat + (a - dest.toNat)) := by
    intro a within
    have there := copied (a - dest.toNat) (by unfold Within at within; omega)
    rwa [Nat.add_sub_cancel' within.1] at there
  refine ⟨m', ?_, touches.live, ?_⟩
  · rw [memcpy, sizeT_eq nonneg]
    exact ran
  · apply keeps_cover keeps positive touches.bytes
    · intro a b within told
      rw [same a within]
      exact keeps.byte _ b told
    · intro a c low high told
      rw [same a ⟨low, by omega⟩]
      exact keeps.char _ c told

theorem put_keeps {a : Nat} {b : Byte} (keeps : Keeps promise m) (positive : 0 < width)
    (live : Live m a) {n : Nat} (atLeast : 0 < n) {newByte : Nat → Option Byte}
    {newChar : Nat → Option CodeUnit}
    (byte : ∀ c v, Within a n c → newByte c = some v → c = a ∧ v = b)
    (char : ∀ c v, a ≤ c → c + width ≤ a + n → newChar c = some v →
      c = a ∧ b = jcharToChar v) :
    ∃ m', put a b m = some ((), m') ∧ m'.live = m.live ∧
      Keeps (promise.cover width a n newByte newChar) m' := by
  refine ⟨_, put_apply b live, rfl, ?_⟩
  apply keeps_cover keeps positive
  · intro c outside
    have different : c ≠ a := by
      rintro rfl
      exact outside ⟨Nat.le_refl c, by omega⟩
    exact Function.update_of_ne different ..
  · intro c v within told
    obtain ⟨rfl, rfl⟩ := byte c v within told
    exact Function.update_self ..
  · intro c v low high told
    obtain ⟨rfl, isV⟩ := char c v low high told
    rw [← isV]
    exact Function.update_self ..

/-- One operation. -/
theorem perform_keeps {operation : Operation} (keeps : Keeps promise m) (positive : 0 < width)
    (valid : Valid width m.live operation) :
    ∃ m', perform operation m = some ((), m') ∧ m'.live = m.live ∧
      Keeps (promise.after width operation) m' := by
  cases operation with
  | writeByte ptr value =>
    apply put_keeps keeps positive (valid.isLive (within_first _ 0)) Nat.one_pos
    · intro c v within told
      exact ⟨by unfold Within at within; omega, (Option.some.inj told).symm⟩
    · intro c v _ _ told
      cases told
  | writeChar ptr value =>
    have first : Within ptr.toNat width ptr.toNat := ⟨Nat.le_refl _, by omega⟩
    apply put_keeps keeps positive (valid.isLive first) positive
    · intro c v _ told
      cases told
    · intro c v low high told
      exact ⟨by omega, congrArg jcharToChar (Option.some.inj told)⟩
  | bzero ptr size => exact bzero_keeps keeps positive valid.1 valid.2
  | memcpy dest src size => exact memcpy_keeps keeps positive valid

/-- A sequence of operations. -/
theorem performAll_keeps (operations : List Operation) (promise : Promise) (m : Memory)
    (keeps : Keeps promise m) (positive : 0 < width)
    (valid : ∀ operation ∈ operations, Valid width m.live operation) :
    ∃ m', performAll operations m = some ((), m') ∧ m'.live = m.live ∧
      Keeps (operations.foldl (Promise.after width) promise) m' := by
  induction operations generalizing promise m with
  | nil => exact ⟨m, rfl, rfl, keeps⟩
  | cons operation rest ih =>
    obtain ⟨m₁, ran, live, kept⟩ := perform_keeps keeps positive (valid operation (by simp))
    obtain ⟨m', ranRest, liveRest, keptRest⟩ := ih _ m₁ kept
      fun other member => live ▸ valid other (List.mem_cons_of_mem _ member)
    refine ⟨m', ?_, liveRest.trans live, keptRest⟩
    simp only [performAll, bind_apply, ran, Option.bind_some, ranRest]

end

/-! ### Characters that `char` can hold -/

theorem jcharToChar_toNat (value : CodeUnit) : (jcharToChar value).toNat = value.toNat % 256 :=
  BitVec.toNat_setWidth ..

/-- These are the characters that survive the conversion to `char` and back. -/
theorem charToJchar_jcharToChar_iff (signed : Bool) (value : CodeUnit) :
    charToJchar signed (jcharToChar value) = value ↔ Representable signed value := by
  have low := jcharToChar_toNat value
  have bound := value.isLt
  cases signed with
  | false =>
    unfold charToJchar Representable
    rw [if_neg Bool.false_ne_true, if_neg Bool.false_ne_true, BitVec.toNat_eq, BitVec.toNat_setWidth, low]
    omega
  | true =>
    unfold charToJchar Representable
    rw [if_pos rfl, if_pos rfl, BitVec.toNat_eq, BitVec.toNat_signExtend, BitVec.toNat_setWidth,
      BitVec.msb_eq_decide, low]
    by_cases high : 2 ^ (8 - 1) ≤ value.toNat % 256
    · simp only [high, decide_true, if_true]
      omega
    · simp only [high, decide_false, Bool.false_eq_true, if_false]
      omega

theorem readChar_apply (signed : Bool) {ptr : JLong} {m : Memory} (live : Live m ptr.toNat) :
    readChar signed ptr m =
      some (charToJchar signed (m.bytes ptr.toNat), { m with reads := ptr.toNat :: m.reads }) := by
  simp only [readChar, bind_apply, load_apply live, Option.bind_some, pure_apply]

/-- A character is read back exactly if `char` can hold it. -/
theorem readChar_writeChar_iff (signed : Bool) (ptr : JLong) (value : CodeUnit) (m : Memory)
    (live : Live m ptr.toNat) :
    (∃ m₁ m₂, writeChar ptr value m = some ((), m₁) ∧ readChar signed ptr m₁ = some (value, m₂)) ↔
      Representable signed value := by
  rw [← charToJchar_jcharToChar_iff]
  have written : writeChar ptr value m = _ := put_apply (jcharToChar value) live
  have found := readChar_apply signed (m := { m with
    bytes := Function.update m.bytes ptr.toNat (jcharToChar value), writes := ptr.toNat :: m.writes }) live
  simp only [Function.update_self] at found
  constructor
  · rintro ⟨m₁, m₂, ran, got⟩
    cases written.symm.trans ran
    rw [found] at got
    simp only [Option.some.injEq, Prod.mk.injEq] at got
    exact got.1
  · intro kept
    rw [kept] at found
    exact ⟨_, _, written, found⟩

/-! ### The store -/

/-- `readByte` and `readChar` return what is promised. -/
def ReadsBack (signed : Bool) (promise : Promise) (m : Memory) : Prop :=
  ∀ ptr : JLong, Live m ptr.toNat →
    (∀ b, promise.byteAt ptr.toNat = some b → ∃ m', readByte ptr m = some (b, m')) ∧
    (∀ c, promise.charAt ptr.toNat = some c → ∃ m', readChar signed ptr m = some (c, m'))

/-- Bytes are read back; characters are if `char` can hold them. -/
theorem readsBack_iff {signed : Bool} {promise : Promise} {m : Memory} (keeps : Keeps promise m) :
    ReadsBack signed promise m ↔ ∀ ptr : JLong, Live m ptr.toNat →
      ∀ c, promise.charAt ptr.toNat = some c → Representable signed c := by
  constructor
  · intro reads ptr live c told
    obtain ⟨m', got⟩ := (reads ptr live).2 c told
    rw [readChar_apply signed live, keeps.char _ c told] at got
    simp only [Option.some.injEq, Prod.mk.injEq] at got
    exact (charToJchar_jcharToChar_iff signed c).mp got.1
  · intro representable ptr live
    constructor
    · intro b told
      rw [← keeps.byte _ b told]
      exact ⟨_, load_apply live⟩
    · intro c told
      have back := (charToJchar_jcharToChar_iff signed c).mpr (representable ptr live c told)
      have found := readChar_apply signed live
      rw [keeps.char _ c told, back] at found
      exact ⟨_, found⟩

/-- After any sequence of operations memory reads back as promised exactly if the
characters that are still to be read are ones that `char` can hold. -/
theorem store_of_values_iff (signed : Bool) (width : Nat) (positive : 0 < width)
    (operations : List Operation) (m : Memory)
    (valid : ∀ operation ∈ operations, Valid width m.live operation) :
    ∃ m', performAll operations m = some ((), m') ∧
      (ReadsBack signed (promised width m operations) m' ↔ ∀ ptr : JLong, Live m ptr.toNat →
        ∀ c, (promised width m operations).charAt ptr.toNat = some c → Representable signed c) := by
  obtain ⟨m', ran, live, keeps⟩ := performAll_keeps operations (initial m) m (keeps_initial m)
    positive valid
  refine ⟨m', ran, ?_⟩
  have same : ∀ a, Live m' a ↔ Live m a := by
    intro a
    unfold Live
    rw [live]
  simp only [← same]
  exact readsBack_iff keeps

/-- What a promise says of a character is new or was said before. -/
theorem cover_charAt {width base n a : Nat} {promise : Promise} {newByte : Nat → Option Byte}
    {newChar : Nat → Option CodeUnit} {c : CodeUnit}
    (told : (promise.cover width base n newByte newChar).charAt a = some c) :
    newChar a = some c ∨ promise.charAt a = some c := by
  simp only [Promise.cover] at told
  split at told
  next =>
    split at told
    next => exact .inl told
    next => cases told
  next => exact .inr told

/-- A promised character was written, copied or zeroed. -/
theorem after_representable {signed : Bool} {width : Nat} {promise : Promise} {operation : Operation}
    (before : ∀ a c, promise.charAt a = some c → Representable signed c)
    (written : ∀ ptr value, operation = .writeChar ptr value → Representable signed value) :
    ∀ a c, (promise.after width operation).charAt a = some c → Representable signed c := by
  intro a c told
  cases operation with
  | writeByte ptr value =>
    rcases cover_charAt told with new | old
    · cases new
    · exact before a c old
  | writeChar ptr value =>
    rcases cover_charAt told with new | old
    · exact Option.some.inj new ▸ written ptr value rfl
    · exact before a c old
  | bzero ptr size =>
    rcases cover_charAt told with new | old
    · cases new
      cases signed with
      | false => exact (by decide : (0 : CodeUnit).toNat < 0x100)
      | true => exact .inl (by decide)
    · exact before a c old
  | memcpy dest src size =>
    rcases cover_charAt told with new | old
    · exact before _ c new
    · exact before a c old

/-- A program that writes only characters that `char` can hold has no others to read. -/
theorem promised_representable {signed : Bool} {width : Nat} (operations : List Operation)
    (promise : Promise) (before : ∀ a c, promise.charAt a = some c → Representable signed c)
    (written : ∀ ptr value, .writeChar ptr value ∈ operations → Representable signed value) :
    ∀ a c, (operations.foldl (Promise.after width) promise).charAt a = some c →
      Representable signed c := by
  induction operations generalizing promise with
  | nil => exact before
  | cons operation rest ih =>
    apply ih
    · apply after_representable before
      rintro ptr value rfl
      exact written ptr value (List.mem_cons_self ..)
    · exact fun ptr value member => written ptr value (List.mem_cons_of_mem _ member)

/-- Four bytes of memory at address 16. -/
def fourBytes : Memory := ⟨fun _ => 0, [⟨16, 4⟩], [], []⟩

theorem store_of_values_copied :
    ∃ m', performAll [.writeChar 16 0x41, .memcpy 18 16 2] fourBytes = some ((), m') ∧
      ReadsBack true (promised 2 fourBytes [.writeChar 16 0x41, .memcpy 18 16 2]) m' := by
  have valid : ∀ operation ∈ [Operation.writeChar 16 0x41, .memcpy 18 16 2],
      Valid 2 fourBytes.live operation := by
    intro operation member
    simp only [List.mem_cons, List.not_mem_nil, or_false] at member
    rcases member with rfl | rfl
    · exact ⟨⟨16, 4⟩, by decide, by decide, by decide⟩
    · refine ⟨by decide, ⟨⟨16, 4⟩, by decide, by decide, by decide⟩,
        ⟨⟨16, 4⟩, by decide, by decide, by decide⟩, ?_⟩
      simp only [Within, BitVec.reduceToNat]
      omega
  obtain ⟨m', ran, reads⟩ := store_of_values_iff true 2 (by decide) _ fourBytes valid
  refine ⟨m', ran, reads.mpr fun ptr live c told => ?_⟩
  apply promised_representable _ (initial fourBytes) _ _ _ _ told
  · intro a c none_
    cases none_
  · intro ptr value member
    simp only [List.mem_cons, Operation.writeChar.injEq, List.not_mem_nil, or_false, reduceCtorEq] at member
    rw [member.2]
    exact .inl (by decide)

/-- U+00E9, written and read back, is U+FFE9. -/
theorem char_read_back_wrong :
    ∃ m' m'', performAll [.writeChar 16 0xE9] fourBytes = some ((), m') ∧
      (promised 2 fourBytes [.writeChar 16 0xE9]).charAt 16 = some 0xE9 ∧
      readChar true 16 m' = some (0xFFE9, m'') ∧
      ¬ ReadsBack true (promised 2 fourBytes [.writeChar 16 0xE9]) m' := by
  refine ⟨_, _, rfl, rfl, rfl, fun reads => ?_⟩
  obtain ⟨m', got⟩ := (reads 16 ⟨⟨16, 4⟩, by decide, by decide⟩).2 0xE9 rfl
  have value : (0xFFE9 : CodeUnit) = 0xE9 := congrArg (fun r => (r.map Prod.fst).getD 0) got
  exact absurd value (by decide)

end WebbitAsyncio.Guarantees.MemoryStore
