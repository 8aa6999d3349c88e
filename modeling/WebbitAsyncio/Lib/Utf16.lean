import Mathlib.Data.List.Basic

/-!
# UTF-16, UTF-8 and modified UTF-8

A sequence of 16-bit code units and the two byte encodings of it that meet at a
JNI boundary. Modified UTF-8 encodes each unit by itself: a surrogate pair becomes
two sequences of three bytes, and the unit 0 becomes `C0 80`, so no encoded string
contains a NUL. Standard UTF-8 encodes a surrogate pair in four bytes. The two
agree exactly on the strings without surrogates.
-/
namespace WebbitAsyncio.Lib.Utf16

abbrev CodeUnit : Type := BitVec 16
abbrev Byte : Type := BitVec 8

def IsHigh (u : CodeUnit) : Prop := 0xD800 ≤ u.toNat ∧ u.toNat < 0xDC00
def IsLow (u : CodeUnit) : Prop := 0xDC00 ≤ u.toNat ∧ u.toNat < 0xE000
def IsSurrogate (u : CodeUnit) : Prop := 0xD800 ≤ u.toNat ∧ u.toNat < 0xE000

instance (u : CodeUnit) : Decidable (IsHigh u) := inferInstanceAs (Decidable (_ ∧ _))
instance (u : CodeUnit) : Decidable (IsLow u) := inferInstanceAs (Decidable (_ ∧ _))
instance (u : CodeUnit) : Decidable (IsSurrogate u) := inferInstanceAs (Decidable (_ ∧ _))

/-- Every high surrogate is followed by a low one, and there are no others. -/
def WellFormed : List CodeUnit → Prop
  | [] => True
  | [u] => ¬ IsSurrogate u
  | u :: v :: rest =>
    IsHigh u ∧ IsLow v ∧ WellFormed rest ∨ ¬ IsSurrogate u ∧ WellFormed (v :: rest)

/-! ### Encoding -/

def byte (n : Nat) : Byte := BitVec.ofNat 8 n
def unit (n : Nat) : CodeUnit := BitVec.ofNat 16 n

/-- The one, two or three bytes of a single code unit. -/
def unitBytes (u : CodeUnit) : List Byte :=
  if u.toNat < 0x80 then [byte u.toNat]
  else if u.toNat < 0x800 then [byte (0xC0 + u.toNat / 64), byte (0x80 + u.toNat % 64)]
  else [byte (0xE0 + u.toNat / 4096), byte (0x80 + u.toNat / 64 % 64), byte (0x80 + u.toNat % 64)]

/-- The code point of a surrogate pair. -/
def pairPoint (high low : CodeUnit) : Nat :=
  0x10000 + (high.toNat - 0xD800) * 0x400 + (low.toNat - 0xDC00)

/-- The four bytes of a surrogate pair. -/
def pairBytes (high low : CodeUnit) : List Byte :=
  let n := pairPoint high low
  [byte (0xF0 + n / 0x40000), byte (0x80 + n / 0x1000 % 64), byte (0x80 + n / 64 % 64),
    byte (0x80 + n % 64)]

/-- Standard UTF-8. -/
def utf8 : List CodeUnit → List Byte
  | [] => []
  | [u] => unitBytes u
  | u :: v :: rest =>
    if IsHigh u ∧ IsLow v then pairBytes u v ++ utf8 rest else unitBytes u ++ utf8 (v :: rest)

def modifiedUnit (u : CodeUnit) : List Byte := if u = 0 then [0xC0, 0x80] else unitBytes u

def modifiedUtf8 (s : List CodeUnit) : List Byte := s.flatMap modifiedUnit

/-! ### Decoding modified UTF-8 -/

def isTail (b : Byte) : Bool := 0x80 ≤ b.toNat ∧ b.toNat < 0xC0

/-- Sequences of one to three bytes; the lead byte of a longer one is refused. -/
def decodeModified : List Byte → Option (List CodeUnit)
  | [] => some []
  | a :: rest =>
    if a.toNat < 0x80 then (decodeModified rest).map (unit a.toNat :: ·)
    else if 0xC0 ≤ a.toNat ∧ a.toNat < 0xE0 then
      match rest with
      | b :: rest =>
        if isTail b then
          (decodeModified rest).map (unit ((a.toNat - 0xC0) * 64 + (b.toNat - 0x80)) :: ·)
        else none
      | [] => none
    else if 0xE0 ≤ a.toNat ∧ a.toNat < 0xF0 then
      match rest with
      | b :: c :: rest =>
        if isTail b ∧ isTail c then
          (decodeModified rest).map
            (unit ((a.toNat - 0xE0) * 4096 + (b.toNat - 0x80) * 64 + (c.toNat - 0x80)) :: ·)
        else none
      | _ => none
    else none

/-! ### What the bytes are -/

theorem byte_toNat {n : Nat} (small : n < 256) : (byte n).toNat = n := by
  rw [byte, BitVec.toNat_ofNat]
  exact Nat.mod_eq_of_lt small

theorem unit_toNat (u : CodeUnit) : unit u.toNat = u := BitVec.ofNat_toNat 16 u |>.trans (by simp)

theorem unit_eq {n : Nat} {u : CodeUnit} (equal : n = u.toNat) : unit n = u := by
  rw [equal, unit_toNat]

theorem byte_ne_zero {n : Nat} (small : n < 256) (positive : 0 < n) : byte n ≠ 0 := by
  intro zero
  have value := byte_toNat small
  rw [zero] at value
  exact absurd value (by simp; omega)

theorem unitBytes_ne_zero {u : CodeUnit} (nonzero : u ≠ 0) : (0 : Byte) ∉ unitBytes u := by
  have bound := u.isLt
  have positive : 0 < u.toNat := Nat.pos_of_ne_zero fun zero => nonzero (BitVec.eq_of_toNat_eq zero)
  unfold unitBytes
  split
  next one =>
    have other := byte_ne_zero (n := u.toNat) (by omega) positive
    simpa using other.symm
  next =>
    split
    next two =>
      have lead := byte_ne_zero (n := 0xC0 + u.toNat / 64) (by omega) (by omega)
      have tail := byte_ne_zero (n := 0x80 + u.toNat % 64) (by omega) (by omega)
      simpa using ⟨lead.symm, tail.symm⟩
    next three =>
      have lead := byte_ne_zero (n := 0xE0 + u.toNat / 4096) (by omega) (by omega)
      have middle := byte_ne_zero (n := 0x80 + u.toNat / 64 % 64) (by omega) (by omega)
      have tail := byte_ne_zero (n := 0x80 + u.toNat % 64) (by omega) (by omega)
      simpa using ⟨lead.symm, middle.symm, tail.symm⟩

/-- An encoded string can be terminated by a NUL. -/
theorem modifiedUtf8_ne_zero (s : List CodeUnit) : (0 : Byte) ∉ modifiedUtf8 s := by
  intro member
  obtain ⟨u, _, inside⟩ := List.mem_flatMap.mp member
  unfold modifiedUnit at inside
  split at inside
  next => exact absurd inside (by decide)
  next nonzero => exact unitBytes_ne_zero nonzero inside

/-! ### Decoding what was encoded -/

theorem isTail_byte {n : Nat} (small : n < 64) : isTail (byte (0x80 + n)) = true := by
  rw [isTail, byte_toNat (by omega)]
  simp only [decide_eq_true_eq]
  omega

theorem decode_one {n : Nat} (small : n < 0x80) (rest : List Byte) :
    decodeModified (byte n :: rest) = (decodeModified rest).map (unit n :: ·) := by
  rw [decodeModified.eq_def]
  simp only [byte_toNat (show n < 256 by omega), if_pos small]

theorem decode_two {lead tail : Nat} (small : lead < 32) (tailSmall : tail < 64) (rest : List Byte) :
    decodeModified (byte (0xC0 + lead) :: byte (0x80 + tail) :: rest) =
      (decodeModified rest).map (unit (lead * 64 + tail) :: ·) := by
  rw [decodeModified.eq_def]
  simp only [byte_toNat (show 0xC0 + lead < 256 by omega), byte_toNat (show 0x80 + tail < 256 by omega)]
  rw [if_neg (by omega), if_pos (by omega), if_pos (isTail_byte tailSmall), Nat.add_sub_cancel_left,
    Nat.add_sub_cancel_left]

theorem decode_three {lead middle tail : Nat} (small : lead < 16) (middleSmall : middle < 64)
    (tailSmall : tail < 64) (rest : List Byte) :
    decodeModified (byte (0xE0 + lead) :: byte (0x80 + middle) :: byte (0x80 + tail) :: rest) =
      (decodeModified rest).map (unit (lead * 4096 + middle * 64 + tail) :: ·) := by
  rw [decodeModified.eq_def]
  simp only [byte_toNat (show 0xE0 + lead < 256 by omega),
    byte_toNat (show 0x80 + middle < 256 by omega), byte_toNat (show 0x80 + tail < 256 by omega)]
  rw [if_neg (by omega), if_neg (by omega), if_pos (by omega),
    if_pos ⟨isTail_byte middleSmall, isTail_byte tailSmall⟩, Nat.add_sub_cancel_left,
    Nat.add_sub_cancel_left, Nat.add_sub_cancel_left]

theorem decode_longer {lead : Nat} (small : lead < 16) (rest : List Byte) :
    decodeModified (byte (0xF0 + lead) :: rest) = none := by
  rw [decodeModified.eq_def]
  simp only [byte_toNat (show 0xF0 + lead < 256 by omega)]
  rw [if_neg (by omega), if_neg (by omega), if_neg (by omega)]

theorem decode_unitBytes (u : CodeUnit) (rest : List Byte) :
    decodeModified (unitBytes u ++ rest) = (decodeModified rest).map (u :: ·) := by
  have bound := u.isLt
  unfold unitBytes
  split
  next one =>
    rw [List.singleton_append, decode_one one, unit_toNat]
  next =>
    split
    next two =>
      rw [List.cons_append, List.singleton_append, decode_two (by omega) (by omega),
        unit_eq (u := u) (by omega)]
    next three =>
      rw [List.cons_append, List.cons_append, List.singleton_append,
        decode_three (by omega) (by omega) (by omega), unit_eq (u := u) (by omega)]

theorem decode_modifiedUnit (u : CodeUnit) (rest : List Byte) :
    decodeModified (modifiedUnit u ++ rest) = (decodeModified rest).map (u :: ·) := by
  unfold modifiedUnit
  split
  next zero =>
    subst zero
    exact decode_two (Nat.zero_lt_succ 31) (Nat.zero_lt_succ 63) rest
  next => exact decode_unitBytes u rest

/-- Modified UTF-8 loses nothing. -/
theorem decode_modifiedUtf8 (s : List CodeUnit) : decodeModified (modifiedUtf8 s) = some s := by
  induction s with
  | nil => rfl
  | cons u rest ih =>
    rw [modifiedUtf8, List.flatMap_cons, decode_modifiedUnit]
    rw [modifiedUtf8] at ih
    rw [ih, Option.map_some]

theorem decode_pairBytes {high low : CodeUnit} (isHigh : IsHigh high) (isLow : IsLow low)
    (rest : List Byte) : decodeModified (pairBytes high low ++ rest) = none := by
  have small : pairPoint high low / 0x40000 < 16 := by
    unfold IsHigh IsLow at *
    unfold pairPoint
    omega
  exact decode_longer small _

/-! ### Lengths and cuts -/

theorem modifiedUnit_length (u : CodeUnit) :
    0 < (modifiedUnit u).length ∧ ((modifiedUnit u).length = 1 ↔ u ≠ 0 ∧ u.toNat < 0x80) := by
  unfold modifiedUnit
  split
  next zero => simp [zero]
  next nonzero =>
    unfold unitBytes
    split
    next one => simpa [one] using nonzero
    next notOne =>
      split
      next => simp [notOne]
      next => simp [notOne]

theorem modifiedUtf8_cons (u : CodeUnit) (rest : List CodeUnit) :
    modifiedUtf8 (u :: rest) = modifiedUnit u ++ modifiedUtf8 rest := List.flatMap_cons

theorem modifiedUtf8_append (s t : List CodeUnit) :
    modifiedUtf8 (s ++ t) = modifiedUtf8 s ++ modifiedUtf8 t := List.flatMap_append

theorem length_le_modifiedUtf8 (s : List CodeUnit) : s.length ≤ (modifiedUtf8 s).length := by
  induction s with
  | nil => exact Nat.le_refl 0
  | cons u rest ih =>
    have one := (modifiedUnit_length u).1
    rw [modifiedUtf8_cons, List.length_append, List.length_cons]
    omega

/-- One byte for each unit: the string is of ASCII characters, and U+0000 is none of
them. -/
theorem length_modifiedUtf8_iff (s : List CodeUnit) :
    (modifiedUtf8 s).length = s.length ↔ ∀ u ∈ s, u ≠ 0 ∧ u.toNat < 0x80 := by
  induction s with
  | nil => simp [modifiedUtf8]
  | cons u rest ih =>
    obtain ⟨positive, one⟩ := modifiedUnit_length u
    have atLeast := length_le_modifiedUtf8 rest
    rw [modifiedUtf8_cons, List.length_append, List.length_cons, List.forall_mem_cons, ← ih, ← one]
    omega

/-- More units, more bytes. -/
theorem modifiedUtf8_length_prefix {s t : List CodeUnit} (initial : s <+: t) :
    (modifiedUtf8 s).length + (t.length - s.length) ≤ (modifiedUtf8 t).length := by
  obtain ⟨rest, rfl⟩ := initial
  have atLeast := length_le_modifiedUtf8 rest
  rw [modifiedUtf8_append, List.length_append, List.length_append]
  omega

/-- The bytes can be cut off after `n` of them without splitting a character. -/
def CutsBetween (s : List CodeUnit) (n : Nat) : Prop :=
  (modifiedUtf8 s).length ≤ n ∨ ∃ k, (modifiedUtf8 (s.take k)).length = n

theorem take_modifiedUtf8 (s : List CodeUnit) (k : Nat) :
    (modifiedUtf8 s).take (modifiedUtf8 (s.take k)).length = modifiedUtf8 (s.take k) := by
  have split_ : modifiedUtf8 s = modifiedUtf8 (s.take k) ++ modifiedUtf8 (s.drop k) := by
    rw [← modifiedUtf8_append, List.take_append_drop]
  rw [split_, List.take_left]

theorem decode_lone_two {lead : Nat} (small : lead < 32) : decodeModified [byte (0xC0 + lead)] = none := by
  rw [decodeModified.eq_def]
  simp only [byte_toNat (show 0xC0 + lead < 256 by omega)]
  rw [if_neg (by omega), if_pos (by omega)]

theorem decode_lone_three {lead : Nat} (small : lead < 16) (rest : List Byte) (short : rest.length ≤ 1) :
    decodeModified (byte (0xE0 + lead) :: rest) = none := by
  rw [decodeModified.eq_def]
  simp only [byte_toNat (show 0xE0 + lead < 256 by omega)]
  rw [if_neg (by omega), if_neg (by omega), if_pos (by omega)]
  split
  next => simp at short
  next => rfl

/-- A proper piece of a character is not understood. -/
theorem decode_piece {u : CodeUnit} {n : Nat} (positive : 0 < n)
    (short : n < (modifiedUnit u).length) : decodeModified ((modifiedUnit u).take n) = none := by
  have bound := u.isLt
  unfold modifiedUnit at short ⊢
  split at short
  next zero =>
    have one : n = 1 := by
      simp only [List.length_cons, List.length_nil] at short
      omega
    subst one
    rw [if_pos zero]
    exact decode_lone_two (Nat.zero_lt_succ 31)
  next nonzero =>
    rw [if_neg nonzero]
    unfold unitBytes at short ⊢
    split at short
    next => simp only [List.length_cons, List.length_nil] at short; omega
    next notOne =>
      rw [if_neg notOne]
      split at short
      next two =>
        have one : n = 1 := by
          simp only [List.length_cons, List.length_nil] at short
          omega
        subst one
        rw [if_pos two]
        exact decode_lone_two (by omega)
      next notTwo =>
        rw [if_neg notTwo]
        obtain ⟨k, rfl⟩ : ∃ k, n = k + 1 := ⟨n - 1, by omega⟩
        rw [List.take_succ_cons]
        apply decode_lone_three (by omega)
        simp only [List.length_take, List.length_cons, List.length_nil] at short ⊢
        omega

theorem decode_cut {s : List CodeUnit} {n : Nat} (inside : ¬ CutsBetween s n) :
    decodeModified ((modifiedUtf8 s).take n) = none := by
  induction s generalizing n with
  | nil => exact absurd (.inl (Nat.zero_le n)) inside
  | cons u rest ih =>
    rw [modifiedUtf8_cons]
    have positive : 0 < n := by
      rcases Nat.eq_zero_or_pos n with zero | positive
      · exact absurd (.inr ⟨0, by simp [modifiedUtf8, zero]⟩) inside
      · exact positive
    by_cases short : n < (modifiedUnit u).length
    · rw [List.take_append_of_le_length (by omega)]
      exact decode_piece positive short
    · have later : ¬ CutsBetween rest (n - (modifiedUnit u).length) := by
        rintro (all | ⟨k, cut⟩)
        · refine inside (.inl ?_)
          rw [modifiedUtf8_cons, List.length_append]
          omega
        · refine inside (.inr ⟨k + 1, ?_⟩)
          rw [List.take_succ_cons, modifiedUtf8_cons, List.length_append]
          omega
      rw [List.take_append, List.take_of_length_le (by omega), decode_modifiedUnit, ih later,
        Option.map_none]

/-- The longest prefix whose encoding has at most `n` bytes. -/
structure LongestPrefix (s : List CodeUnit) (n : Nat) (p : List CodeUnit) : Prop where
  initial : p <+: s
  fits : (modifiedUtf8 p).length ≤ n
  longest : ∀ q, q <+: s → (modifiedUtf8 q).length ≤ n → q.length ≤ p.length

/-- Between characters, what is cut off is the encoding of the longest prefix. -/
theorem decode_between {s : List CodeUnit} {n : Nat} (between : CutsBetween s n) :
    ∃ p, decodeModified ((modifiedUtf8 s).take n) = some p ∧ LongestPrefix s n p := by
  rcases between with all | ⟨k, rfl⟩
  · refine ⟨s, ?_, List.prefix_refl s, all, fun q initial _ => initial.length_le⟩
    rw [List.take_of_length_le all, decode_modifiedUtf8]
  · refine ⟨s.take k, ?_, List.take_prefix k s, Nat.le_refl _, fun q initial fits => ?_⟩
    · rw [take_modifiedUtf8, decode_modifiedUtf8]
    · rcases List.prefix_or_prefix_of_prefix initial (List.take_prefix k s) with below | above
      · exact below.length_le
      · have more := modifiedUtf8_length_prefix above
        omega

/-! ### Where the two encodings agree -/

theorem IsHigh.surrogate {u : CodeUnit} (high : IsHigh u) : IsSurrogate u := by
  unfold IsHigh IsSurrogate at *
  omega

/-- A decoder of modified UTF-8 understands standard UTF-8 up to the first
surrogate pair. -/
theorem decode_utf8_iff {s : List CodeUnit} (formed : WellFormed s) :
    decodeModified (utf8 s) = some s ↔ ∀ u ∈ s, ¬ IsSurrogate u := by
  induction s using utf8.induct with
  | case1 => simp [utf8, decodeModified]
  | case2 u =>
    have one := decode_unitBytes u []
    rw [List.append_nil] at one
    have plain : ¬ IsSurrogate u := formed
    simp [utf8, one, decodeModified, plain]
  | case3 u v rest pair ih =>
    rw [utf8, if_pos pair, decode_pairBytes pair.1 pair.2]
    have surrogate := pair.1.surrogate
    constructor
    · intro some_
      cases some_
    · intro free
      exact absurd surrogate (free u (by simp))
  | case4 u v rest single ih =>
    have plain : ¬ IsSurrogate u ∧ WellFormed (v :: rest) := by
      rcases formed with ⟨high, low, _⟩ | plain
      · exact absurd ⟨high, low⟩ single
      · exact plain
    rw [utf8, if_neg single, decode_unitBytes, List.forall_mem_cons, ← ih plain.2]
    cases decodeModified (utf8 (v :: rest)) with
    | none => simp
    | some units => simp [plain.1]

/-- What it understands at all is the string that was encoded. -/
theorem decode_utf8_eq {s t : List CodeUnit} (decoded : decodeModified (utf8 s) = some t) : t = s := by
  induction s using utf8.induct generalizing t with
  | case1 =>
    cases decoded
    rfl
  | case2 u =>
    have one := decode_unitBytes u []
    rw [List.append_nil] at one
    rw [utf8, one] at decoded
    cases decoded
    rfl
  | case3 u v rest pair =>
    rw [utf8, if_pos pair, decode_pairBytes pair.1 pair.2] at decoded
    cases decoded
  | case4 u v rest single ih =>
    rw [utf8, if_neg single, decode_unitBytes] at decoded
    obtain ⟨later, isLater, rfl⟩ := Option.map_eq_some_iff.mp decoded
    rw [ih isLater]

theorem pairBytes_ne_zero {high low : CodeUnit} (isHigh : IsHigh high) (isLow : IsLow low) :
    (0 : Byte) ∉ pairBytes high low := by
  have small : pairPoint high low < 0x110000 := by
    unfold IsHigh IsLow at *
    unfold pairPoint
    omega
  have lead := byte_ne_zero (n := 0xF0 + pairPoint high low / 0x40000) (by omega) (by omega)
  have second := byte_ne_zero (n := 0x80 + pairPoint high low / 0x1000 % 64) (by omega) (by omega)
  have third := byte_ne_zero (n := 0x80 + pairPoint high low / 64 % 64) (by omega) (by omega)
  have last := byte_ne_zero (n := 0x80 + pairPoint high low % 64) (by omega) (by omega)
  simpa [pairBytes] using ⟨lead.symm, second.symm, third.symm, last.symm⟩

/-- Standard UTF-8 has a NUL for U+0000 only. -/
theorem utf8_ne_zero {s : List CodeUnit} (noNul : 0 ∉ s) : (0 : Byte) ∉ utf8 s := by
  induction s using utf8.induct with
  | case1 => exact List.not_mem_nil
  | case2 u => exact unitBytes_ne_zero fun zero => noNul (by simp [zero])
  | case3 u v rest pair ih =>
    rw [utf8, if_pos pair, List.mem_append, not_or]
    refine ⟨pairBytes_ne_zero pair.1 pair.2, ih fun member => noNul ?_⟩
    exact List.mem_cons_of_mem _ (List.mem_cons_of_mem _ member)
  | case4 u v rest single ih =>
    rw [utf8, if_neg single, List.mem_append, not_or]
    refine ⟨unitBytes_ne_zero fun zero => noNul (by simp [zero]), ih fun member => noNul ?_⟩
    exact List.mem_cons_of_mem _ member

theorem modifiedUnit_of_ne {u : CodeUnit} (nonzero : u ≠ 0) : modifiedUnit u = unitBytes u :=
  if_neg nonzero

/-- On well-formed strings without U+0000. -/
theorem modifiedUtf8_eq_utf8_iff {s : List CodeUnit} (formed : WellFormed s) (noNul : 0 ∉ s) :
    modifiedUtf8 s = utf8 s ↔ ∀ u ∈ s, ¬ IsSurrogate u := by
  constructor
  · intro equal
    rw [← decode_utf8_iff formed, ← equal, decode_modifiedUtf8]
  · intro free
    clear formed
    induction s using utf8.induct with
    | case1 => rfl
    | case2 u =>
      have nonzero : u ≠ 0 := fun zero => noNul (by simp [zero])
      simp [modifiedUtf8, utf8, modifiedUnit_of_ne nonzero]
    | case3 u v rest pair => exact absurd pair.1.surrogate (free u (by simp))
    | case4 u v rest single ih =>
      have nonzero : u ≠ 0 := fun zero => noNul (by simp [zero])
      rw [utf8, if_neg single, ← ih (fun member => noNul (List.mem_cons_of_mem _ member))
        fun w member => free w (List.mem_cons_of_mem _ member)]
      simp [modifiedUtf8, modifiedUnit_of_ne nonzero]

end WebbitAsyncio.Lib.Utf16
