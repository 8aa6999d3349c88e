import WebbitAsyncio.Lib.CMemory
import WebbitAsyncio.Source.EioRequest

/-!
# The functions of `NativeFunctions`

jni-native-functions.c over memory as C sees it. A `jlong` is an address, a `jint` size
is converted to `size_t`. What `malloc` answers is an argument. `GetStringUTFRegion`
writes the modified UTF-8 encoding and nothing else; `NewStringUTF` decodes what stands
before the NUL, and what it does with bytes that are not modified UTF-8 is undefined.
The comparisons `strcmp` and `strncmp` are left out.
-/
namespace WebbitAsyncio.Source.NativeFunctions
open WebbitAsyncio.Lib WebbitAsyncio.Lib.Utf16 WebbitAsyncio.Lib.CMemory WebbitAsyncio.Lib.Allocation
open WebbitAsyncio.Source.Reqq (JInt)
open WebbitAsyncio.Source.EioRequest (JLong SizeT)

/-- A `java.lang.String`; its length is a `jint`. -/
structure JavaString where
  units : List CodeUnit
  bound : units.length < 2 ^ 31

/-- A `jint` passed as `size_t`. -/
def sizeT (size : JInt) : Nat := (size.signExtend 64 : SizeT).toNat

/-- The sum of two `int`s; overflow is undefined. -/
def addInt (a b : JInt) : Program JInt :=
  if BitVec.saddOverflow a b then failure else return a + b

/-! ### JNI -/

def getStringLength (str : JavaString) : JInt := BitVec.ofNat 32 str.units.length

def getStringUTFRegion (str : JavaString) (start len : JInt) (buf : Nat) : Program Unit :=
  storeAll buf (modifiedUtf8 ((str.units.drop start.toNat).take len.toNat))

def newStringUTF (a : Nat) : Program (List CodeUnit) := do
  let bytes ← cString a
  match decodeModified bytes with
  | none => failure
  | some units => return units

/-! ### The functions -/

def malloc (answer : Option Nat) (size : JInt) : Program JLong := do
  let a ← CMemory.malloc answer (sizeT size)
  return BitVec.ofNat 64 a

def free (ptr : JLong) : Program Unit := CMemory.free ptr.toNat

def memcpy (dest src : JLong) (size : JInt) : Program Unit := copy dest.toNat src.toNat (sizeT size)

def bzero (ptr : JLong) (size : JInt) : Program Unit := fill ptr.toNat 0 (sizeT size)

def strlen (ptr : JLong) : Program JInt := do
  let bytes ← cString ptr.toNat
  return BitVec.ofNat 32 bytes.length

def javaString (ptr : JLong) : Program (List CodeUnit) := newStringUTF ptr.toNat

def javaStringN (answer : Option Nat) (ptr : JLong) (size : JInt) : Program (List CodeUnit) := do
  let more ← addInt size 1
  let truncated ← CMemory.malloc answer (sizeT more)
  strncpy truncated ptr.toNat (sizeT size)
  put ((truncated : Int) + size.toInt).toNat 0
  let result ← newStringUTF truncated
  CMemory.free truncated
  return result

def nativeString (answer : Option Nat) (str : JavaString) : Program JLong := do
  let len := getStringLength str
  let chars ← CMemory.malloc answer (sizeT len)
  getStringUTFRegion str 0 len chars
  return BitVec.ofNat 64 chars

def readByte (ptr : JLong) : Program Byte := load ptr.toNat

def writeByte (ptr : JLong) (value : Byte) : Program Unit := put ptr.toNat value

/-- A `char` as a `jchar`; whether `char` is signed is the platform's choice. -/
def charToJchar (signed : Bool) (data : Byte) : CodeUnit :=
  if signed then data.signExtend 16 else data.setWidth 16

def jcharToChar (value : CodeUnit) : Byte := value.setWidth 8

def readChar (signed : Bool) (ptr : JLong) : Program CodeUnit := do
  let data ← load ptr.toNat
  return charToJchar signed data

def writeChar (ptr : JLong) (value : CodeUnit) : Program Unit := put ptr.toNat (jcharToChar value)

/-! ### Sizes -/

theorem toInt_eq {size : JInt} (nonneg : 0 ≤ size.toInt) : size.toInt = size.toNat := by
  rw [BitVec.toInt_eq_toNat_cond] at nonneg ⊢
  have bound := size.isLt
  split at nonneg <;> split <;> omega

theorem sizeT_eq {size : JInt} (nonneg : 0 ≤ size.toInt) : sizeT size = size.toNat := by
  have positive : size.msb = false := by
    have value := toInt_eq nonneg
    have bound := BitVec.toInt_lt (x := size)
    rw [BitVec.msb_eq_false_iff_two_mul_lt]
    omega
  rw [sizeT, BitVec.signExtend_eq_setWidth_of_msb_false positive, BitVec.toNat_setWidth]
  have bound := size.isLt
  omega

theorem getStringLength_toNat (str : JavaString) : (getStringLength str).toNat = str.units.length := by
  have bound := str.bound
  rw [getStringLength, BitVec.toNat_ofNat]
  omega

theorem sizeT_getStringLength (str : JavaString) : sizeT (getStringLength str) = str.units.length := by
  have value := getStringLength_toNat str
  have bound := str.bound
  rw [sizeT_eq, value]
  rw [BitVec.toInt_eq_toNat_cond, value]
  split <;> omega

/-- The region from 0 of the full length is the string. -/
theorem getStringUTFRegion_all (str : JavaString) (buf : Nat) :
    getStringUTFRegion str 0 (getStringLength str) buf = storeAll buf (modifiedUtf8 str.units) := by
  have all : (str.units.drop (0 : JInt).toNat).take (getStringLength str).toNat = str.units := by
    rw [getStringLength_toNat]
    exact List.take_of_length_le (Nat.le_refl _)
  rw [getStringUTFRegion, all]

/-! ### Reading strings -/

section
variable {s : List CodeUnit} {ptr : JLong} {m : Memory}

theorem newStringUTF_apply {l : List Byte} {a : Nat} (noNul : 0 ∉ l) (holds : Holds m a (l ++ [0])) :
    ∃ m', Touches (Within a (l.length + 1)) (fun _ => False) m m' ∧
      newStringUTF a m = (decodeModified l).map fun units => (units, m') := by
  obtain ⟨m', ran, touches⟩ := cString_apply noNul holds
  refine ⟨m', touches, ?_⟩
  simp only [newStringUTF, bind_apply, ran, Option.bind_some]
  cases decodeModified l with
  | none => rfl
  | some units => rfl

theorem javaString_apply (holds : Holds m ptr.toNat (modifiedUtf8 s ++ [0])) :
    ∃ m', javaString ptr m = some (s, m') := by
  obtain ⟨m', _, ran⟩ := newStringUTF_apply (modifiedUtf8_ne_zero s) holds
  rw [decode_modifiedUtf8, Option.map_some] at ran
  exact ⟨m', ran⟩

end

end WebbitAsyncio.Source.NativeFunctions
