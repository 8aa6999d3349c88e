import WebbitAsyncio.Source.NativeFunctions

/-!
# `javaStringN`

jni-native-functions.c:42-49 copies the first `size` bytes of a C string and decodes
them. It computes the size of its block as `size + 1` in `int`, and it cuts wherever
`size` falls, also inside a character (`truncates_iff`).
-/
namespace WebbitAsyncio.Guarantees.TruncatedStrings
open WebbitAsyncio.Lib.Utf16 WebbitAsyncio.Lib.CMemory WebbitAsyncio.Lib.Allocation
open WebbitAsyncio.Source.Reqq (JInt)
open WebbitAsyncio.Source.EioRequest (JLong)
open WebbitAsyncio.Source.NativeFunctions

/-- The call has read the string before `ptr + size` and up to the first NUL only, has
written in its own block only, has handed well-formed bytes to `NewStringUTF`, and has
returned the longest prefix of `s` that fits. -/
structure Truncated (s : List CodeUnit) (ptr : JLong) (size : JInt) (block : Nat) (m : Memory)
    (result : List CodeUnit) (m' : Memory) : Prop where
  reads : ∃ new, m'.reads = new ++ m.reads ∧ ∀ a ∈ new,
    Within ptr.toNat (min size.toNat ((modifiedUtf8 s).length + 1)) a ∨
      Within block (size.toNat + 1) a
  writes : ∃ new, m'.writes = new ++ m.writes ∧ ∀ a ∈ new, Within block (size.toNat + 1) a
  longest : LongestPrefix s size.toNat result
  whole : (modifiedUtf8 s).length ≤ size.toNat → Holds m ptr.toNat (modifiedUtf8 s ++ [0]) →
    ∃ m'', javaString ptr m = some (result, m'')

/-- Bytes that are not well formed end in undefined behaviour. -/
def Truncates (s : List CodeUnit) (ptr : JLong) (size : JInt) (block : Nat) (m : Memory)
    (run : Option (List CodeUnit × Memory)) : Prop :=
  ∃ result m', run = some (result, m') ∧ Truncated s ptr size block m result m'

section
variable {s : List CodeUnit} {ptr : JLong} {size : JInt} {block : Nat} {m : Memory}

theorem addInt_one (nonneg : 0 ≤ size.toInt) (notMax : size.toNat ≠ 2 ^ 31 - 1) :
    ∃ more, addInt size 1 m = some (more, m) ∧ sizeT more = size.toNat + 1 := by
  have value := toInt_eq nonneg
  have bound := BitVec.toInt_lt (x := size)
  have one : (1 : JInt).toInt = 1 := by decide
  have noOverflow : BitVec.saddOverflow size 1 = false := by
    simp only [BitVec.saddOverflow, one, value, ge_iff_le, Bool.or_eq_false_iff, decide_eq_false_iff_not]
    omega
  have sum : (size + 1).toNat = size.toNat + 1 := by
    rw [BitVec.toNat_add]
    have isOne : (1 : JInt).toNat = 1 := rfl
    rw [isOne]
    omega
  refine ⟨size + 1, ?_, ?_⟩
  · simp only [addInt, noOverflow, Bool.false_eq_true, if_false, pure_apply]
  · rw [sizeT_eq, sum]
    rw [BitVec.toInt_eq_toNat_cond, sum]
    split <;> omega

theorem addInt_max (max : size.toNat = 2 ^ 31 - 1) : addInt size 1 m = none := by
  have isMax : size = BitVec.ofNat 32 (2 ^ 31 - 1) := by
    apply BitVec.eq_of_toNat_eq
    rw [max]
    rfl
  have overflow : BitVec.saddOverflow size 1 = true := by
    rw [isMax]
    decide
  simp only [addInt, overflow, if_true, failure_apply]

/-- The block is written to its end: the bytes cut off, and a NUL behind them. -/
theorem truncated_apply {n src : Nat} {m : Memory} (source : Holds m src ((modifiedUtf8 s ++ [0]).take n))
    (target : ∀ c, Within block (n + 1) c → Live m c)
    (apart : ∀ c, Within src (min n ((modifiedUtf8 s).length + 1)) c → ¬ Within block n c) :
    ∃ m₁ m', strncpy block src n m = some ((), m₁) ∧ put (block + n) 0 m₁ = some ((), m') ∧
      Touches (Within src (min n ((modifiedUtf8 s).length + 1))) (Within block (n + 1)) m m' ∧
      Holds m' block ((modifiedUtf8 s).take n ++ [0]) := by
  have inner : ∀ c, Within block n c → Within block (n + 1) c := by
    intro c inside
    unfold Within at *
    omega
  have last : Within block (n + 1) (block + n) := ⟨by omega, by omega⟩
  obtain ⟨m₁, copied, touches, left⟩ := strncpy_apply n (modifiedUtf8 s) block src m
    (modifiedUtf8_ne_zero s) source (fun c inside => target c (inner c inside)) apart
  have live : Live m₁ (block + n) := touches.isLive.mpr (target _ last)
  let m₂ : Memory := { m₁ with
    bytes := Function.update m₁.bytes (block + n) 0, writes := (block + n) :: m₁.writes }
  have stored : put (block + n) 0 m₁ = some ((), m₂) := put_apply 0 live
  have one : Touches (fun _ => False) (· = block + n) m₁ m₂ := touches_put _ _ (block + n) 0 m₁ rfl
  have length := padded_length (modifiedUtf8 s) n
  have kept : Holds m₂ block (padded (modifiedUtf8 s) n) := by
    apply left.keep one
    intro c inside same
    rw [length] at inside
    unfold Within at inside
    omega
  have terminated : Holds m₂ block (padded (modifiedUtf8 s) n ++ [0]) := by
    apply kept.concat
    · rw [length]
      exact one.isLive.mpr live
    · rw [length]
      exact Function.update_self ..
  rw [padded_concat] at terminated
  refine ⟨m₁, m₂, copied, stored, ?_, terminated.take⟩
  · apply (touches.mono (fun _ => id) inner).trans (one.mono (fun _ => False.elim) _)
    rintro c rfl
    exact last

/-- A call without overflow decodes the first `size` bytes. -/
theorem javaStringN_apply (nonneg : 0 ≤ size.toInt) (notMax : size.toNat ≠ 2 ^ 31 - 1)
    (source : Holds m ptr.toNat ((modifiedUtf8 s ++ [0]).take size.toNat))
    (fresh : ∀ c, Within block (size.toNat + 1) c → ¬ Live m c) :
    ∃ m', (∃ new, m'.reads = new ++ m.reads ∧ ∀ a ∈ new,
        Within ptr.toNat (min size.toNat ((modifiedUtf8 s).length + 1)) a ∨
          Within block (size.toNat + 1) a) ∧
      (∃ new, m'.writes = new ++ m.writes ∧ ∀ a ∈ new, Within block (size.toNat + 1) a) ∧
      javaStringN (some block) ptr size m =
        (decodeModified ((modifiedUtf8 s).take size.toNat)).map fun units => (units, m') := by
  obtain ⟨more, added, isMore⟩ := addInt_one (m := m) nonneg notMax
  have own : ∀ c, Within block (size.toNat + 1) c → Live (allocated block (size.toNat + 1) m) c :=
    fun c inside => ⟨_, List.mem_cons_self .., inside⟩
  -- The bytes read are live before the block is, so they are elsewhere.
  have apart : ∀ c, Within ptr.toNat (min size.toNat ((modifiedUtf8 s).length + 1)) c →
      ¬ Within block size.toNat c := by
    intro c inside inside'
    have length : ((modifiedUtf8 s ++ [0]).take size.toNat).length =
        min size.toNat ((modifiedUtf8 s).length + 1) := by
      rw [List.length_take, List.length_append, List.length_singleton]
    rw [← length] at inside
    exact fresh c ⟨inside'.1, by have := inside'.2; omega⟩ (source.isLive inside)
  obtain ⟨m₁, m₂, copied, stored, touches, text⟩ := truncated_apply
    (source.allocated block (size.toNat + 1)) own apart
  have noNul : (0 : Byte) ∉ (modifiedUtf8 s).take size.toNat :=
    fun member => modifiedUtf8_ne_zero s (List.mem_of_mem_take member)
  obtain ⟨m₃, looked, decoded⟩ := newStringUTF_apply noNul text
  have short : ((modifiedUtf8 s).take size.toNat).length + 1 ≤ size.toNat + 1 := by
    rw [List.length_take]
    omega
  have ofBlock : ∃ e ∈ m₃.live, e.base = block := by
    rw [looked.live, touches.live]
    exact ⟨_, List.mem_cons_self .., rfl⟩
  obtain ⟨m₄, freed, sameReads, sameWrites⟩ := free_apply ofBlock
  have total := (touches.mono (fun _ => .inl) fun _ => id).trans
    (looked.mono (fun c inside => Or.inr (show Within block (size.toNat + 1) c from
      ⟨inside.1, by have := inside.2; omega⟩)) fun _ => False.elim)
  refine ⟨m₄, ?_, ?_, ?_⟩
  · rw [sameReads]
    exact total.reads
  · rw [sameWrites]
    exact total.writes
  · have index : ((block : Int) + size.toInt).toNat = block + size.toNat := by
      rw [toInt_eq nonneg]
      omega
    simp only [javaStringN, bind_apply, added, Option.bind_some, isMore, malloc_apply, sizeT_eq nonneg,
      index, copied, stored, decoded]
    cases decodeModified ((modifiedUtf8 s).take size.toNat) with
    | none => rfl
    | some units => simp only [Option.map_some, Option.bind_some, freed, pure_apply]

/-- Without room for the block the sum overflows; inside a character, what is cut off is
not understood. -/
theorem truncates_iff (nonneg : 0 ≤ size.toInt)
    (source : Holds m ptr.toNat ((modifiedUtf8 s ++ [0]).take size.toNat))
    (fresh : ∀ c, Within block (size.toNat + 1) c → ¬ Live m c) :
    Truncates s ptr size block m (javaStringN (some block) ptr size m) ↔
      size.toNat ≠ 2 ^ 31 - 1 ∧ CutsBetween s size.toNat := by
  by_cases max : size.toNat = 2 ^ 31 - 1
  · have undefined : javaStringN (some block) ptr size m = none := by
      simp only [javaStringN, bind_apply, addInt_max max, Option.bind_none]
    rw [undefined]
    constructor
    · rintro ⟨result, m', ran, _⟩
      cases ran
    · rintro ⟨notMax, _⟩
      exact absurd max notMax
  · obtain ⟨m', reads, writes, ran⟩ := javaStringN_apply nonneg max source fresh
    rw [ran]
    constructor
    · rintro ⟨result, m'', isSome, _⟩
      refine ⟨max, ?_⟩
      by_contra cut
      rw [decode_cut cut, Option.map_none] at isSome
      cases isSome
    · rintro ⟨_, between⟩
      obtain ⟨p, decoded, longest⟩ := decode_between between
      rw [decoded]
      refine ⟨p, m', rfl, reads, writes, longest, ?_⟩
      intro fits whole
      have all : p = s := by
        rw [List.take_of_length_le fits, decode_modifiedUtf8] at decoded
        cases decoded
        rfl
      rw [all]
      exact javaString_apply whole

end

/-- "é" at address 16, up to its NUL. -/
def accentMemory : Memory := holding 16 [0xC3, 0xA9, 0]

theorem accent_held : Holds accentMemory (16 : JLong).toNat (modifiedUtf8 [0xE9] ++ [0]) := by
  have letters : modifiedUtf8 [0xE9] ++ [0] = [0xC3, 0xA9, 0] := by decide
  rw [letters]
  exact holding_holds 16 _

theorem accent_apart : ∀ c, Within 32 3 c → ¬ Live accentMemory c := by
  rintro c ⟨above, _⟩ ⟨e, member, _, below⟩
  cases List.mem_singleton.mp member
  have limit : c < 16 + 3 := below
  omega

/-- The two bytes of the letter fit in two bytes. -/
theorem truncates_accent : 0 ≤ (2 : JInt).toInt ∧
    Truncates [0xE9] 16 2 32 accentMemory (javaStringN (some 32) 16 2 accentMemory) := by
  refine ⟨by decide, (truncates_iff (by decide) ?_ accent_apart).mpr ⟨by decide, .inl (by decide)⟩⟩
  have held : Holds accentMemory (16 : JLong).toNat (modifiedUtf8 [0xE9]) := accent_held.take
  exact held

/-- The first byte of the letter alone is handed to `NewStringUTF`. -/
theorem accent_cut : 0 ≤ (1 : JInt).toInt ∧
    Holds accentMemory (16 : JLong).toNat (modifiedUtf8 [0xE9] ++ [0]) ∧
    (∀ c, Within 32 2 c → ¬ Live accentMemory c) ∧
    ¬ Truncates [0xE9] 16 1 32 accentMemory (javaStringN (some 32) 16 1 accentMemory) := by
  refine ⟨by decide, accent_held, ?_, ?_⟩
  · rintro c ⟨above, _⟩
    exact accent_apart c ⟨above, by omega⟩
  · rintro ⟨result, m', ran, _⟩
    have undefined : javaStringN (some 32) 16 1 accentMemory = none := by decide
    cases undefined.symm.trans ran

end WebbitAsyncio.Guarantees.TruncatedStrings
