import WebbitAsyncio.Source.DirectoryEntries

/-!
# `readdir` gives its entries in order

`eio_dent_sort` (eio.c:1216-1228) over every array: the radix sort with its stack of
segments is a recursion on the bits, it leaves the entries nearly sorted, and the
insertion sort then finds its sentinel among the first entries and finishes the order.
-/
namespace WebbitAsyncio.Guarantees.DirectorySort
open WebbitAsyncio.Lib.Partition WebbitAsyncio.Lib.SortOrder WebbitAsyncio.Source.DirectoryEntries

/-! ## Bits of the bytes -/

theorem masked_ne_zero (byte : Byte) {j : Nat} (small : j < 8) :
    (decide (byte &&& (1 <<< j) ≠ 0)) = byte.getLsbD j := by
  have cases8 : ∀ j < 8, ∀ byte : BitVec 8,
      (decide (byte &&& (1 <<< j) ≠ 0)) = byte.getLsbD j := by
    decide +kernel
  exact cases8 j small byte

theorem inodeOffs_eq (order : ByteOrder) {i : Nat} (small : i < 8) :
    inodeOffs order i =
      (offsetofInode + match order with | .little => i | .big => 7 - i) * 8 := by
  have offsets : ∀ order : ByteOrder, ∀ i < 8, inodeOffs order i =
      (offsetofInode + match order with | .little => i | .big => 7 - i) * 8 := by
    intro order
    cases order <;> decide
  exact offsets order i small

theorem memoryBytes_length {width : Nat} (order : ByteOrder) (n : Nat) (number : BitVec width) :
    (memoryBytes order n number).length = n := by
  cases order <;> simp [memoryBytes]

/-- The byte of significance `i`. -/
theorem memoryBytes_getD {width : Nat} (order : ByteOrder) (number : BitVec width) {n i : Nat}
    (small : i < n) :
    (memoryBytes order n number).getD (match order with | .little => i | .big => n - 1 - i) 0 =
      number.extractLsb' (8 * i) 8 := by
  cases order with
  | little => simp [memoryBytes, small]
  | big =>
    have inside : n - 1 - i < n := by omega
    have back : n - 1 - (n - 1 - i) = i := by omega
    simp [memoryBytes, inside, back]

theorem bytes_inode (order : ByteOrder) (dent : EioDirent) (k : Nat) :
    (dent.bytes order).getD (offsetofInode + k) 0 = (memoryBytes order 8 dent.inode).getD k 0 := by
  unfold EioDirent.bytes
  rw [List.getD_eq_getElem?_getD, List.getElem?_append_right]
  · simp [memoryBytes_length, offsetofInode]
  · simp [memoryBytes_length, offsetofInode]

theorem bytes_score (order : ByteOrder) (dent : EioDirent) :
    (dent.bytes order).getD offsetofScore 0 = dent.score := by
  unfold EioDirent.bytes
  cases order <;> rfl

theorem hasBit_apply (order : ByteOrder) (dent : EioDirent) {offset j : Nat} (small : j < 8) :
    hasBit order (offset * 8 + j) dent = ((dent.bytes order).getD offset 0).getLsbD j := by
  have byte : (offset * 8 + j) >>> 3 = offset := by
    rw [Nat.shiftRight_eq_div_pow]
    omega
  have mask : (offset * 8 + j) &&& 7 = j := by
    rw [show (7 : Nat) = 2 ^ 3 - 1 from rfl, Nat.and_two_pow_sub_one_eq_mod]
    omega
  rw [hasBit, byte, mask]
  exact masked_ne_zero _ small

theorem hasBit_score (order : ByteOrder) (dent : EioDirent) {j : Nat} (small : j < 8) :
    hasBit order (offsetofScore * 8 + j) dent = dent.score.getLsbD j := by
  rw [hasBit_apply order dent small, bytes_score]

theorem hasBit_inode (order : ByteOrder) (dent : EioDirent) {i j : Nat} (iSmall : i < 8)
    (jSmall : j < 8) :
    hasBit order (inodeOffs order i + j) dent = dent.inode.getLsbD (i * 8 + j) := by
  rw [inodeOffs_eq order iSmall, hasBit_apply order dent jSmall, bytes_inode]
  have byte := memoryBytes_getD order dent.inode iSmall
  cases order
  all_goals
    rw [byte, BitVec.getLsbD_extractLsb']
    simp [jSmall, Nat.mul_comm]

/-! ## The bits to test, most significant first -/

/-- The position of bit `k` of the inode in the structure. -/
def inodeBit (order : ByteOrder) (k : Nat) : Nat := inodeOffs order (k / 8) + k % 8

/-- The array `bits` from its last element down to the sentinel. -/
theorem sortBits_reverse (order : ByteOrder) (scoreBits : BitVec 8) (inodeBits : InoT) :
    (sortBits order scoreBits inodeBits).reverse =
      ((List.range 8).reverse.filter scoreBits.getLsbD).map (offsetofScore * 8 + ·) ++
        ((List.range 64).reverse.filter inodeBits.getLsbD).map (inodeBit order) ++ [0] := by
  have bytewise : List.range 64 =
      (List.range 8).flatMap fun i => (List.range 8).map (i * 8 + ·) := by
    decide
  have rising : ((List.range 64).filter inodeBits.getLsbD).map (inodeBit order) =
      (List.range 8).flatMap fun i =>
        ((List.range 8).filter fun j => inodeBits.getLsbD (i * 8 + j)).map
          (inodeOffs order i + ·) := by
    rw [bytewise, List.filter_flatMap, List.map_flatMap]
    refine List.flatMap_congr fun i _ => ?_
    rw [List.filter_map, List.map_map]
    refine List.map_congr_left fun j member => ?_
    have small : j < 8 := List.mem_range.mp (List.mem_filter.mp member).1
    have high : (i * 8 + j) / 8 = i := by omega
    have low : (i * 8 + j) % 8 = j := by omega
    rw [Function.comp_apply, inodeBit, high, low]
  rw [sortBits, ← rising, List.filter_reverse, List.filter_reverse]
  simp

theorem hasBit_inodeBit (order : ByteOrder) (dent : EioDirent) {k : Nat} (small : k < 64) :
    hasBit order (inodeBit order k) dent = dent.inode.getLsbD k := by
  have whole : k / 8 * 8 + k % 8 = k := by omega
  rw [inodeBit, hasBit_inode order dent (by omega) (by omega), whole]

theorem inodeBit_pos (order : ByteOrder) {k : Nat} (small : k < 64) : inodeBit order k ≠ 0 := by
  rw [inodeBit, inodeOffs_eq order (by omega)]
  unfold offsetofInode
  omega

/-- The order `readdir` promises: by score, then by inode. -/
def DentOrder (x y : EioDirent) : Prop :=
  x.score.toNat < y.score.toNat ∨
    (x.score.toNat = y.score.toNat ∧ x.inode.toNat ≤ y.inode.toNat)

/-- Every bit on which two of the entries differ is among those to test. -/
def Covered (scoreBits : BitVec 8) (inodeBits : InoT) (dents : List EioDirent) : Prop :=
  ∀ x ∈ dents, ∀ y ∈ dents,
    (∀ k, scoreBits.getLsbD k = false → x.score.getLsbD k = y.score.getLsbD k) ∧
      (∀ k, inodeBits.getLsbD k = false → x.inode.getLsbD k = y.inode.getLsbD k)

/-- The bits that the radix sort tests, without the sentinel. -/
def testedBits (order : ByteOrder) (scoreBits : BitVec 8) (inodeBits : InoT) : List Nat :=
  ((List.range 8).reverse.filter scoreBits.getLsbD).map (offsetofScore * 8 + ·) ++
    ((List.range 64).reverse.filter inodeBits.getLsbD).map (inodeBit order)

theorem testedBits_tests (order : ByteOrder) (scoreBits : BitVec 8) (inodeBits : InoT) :
    (testedBits order scoreBits inodeBits).map (hasBit order) =
      bitTests (fun dent => dent.score.toNat) scoreBits.getLsbD 8 ++
        bitTests (fun dent => dent.inode.toNat) inodeBits.getLsbD 64 := by
  unfold testedBits bitTests
  rw [List.map_append, List.map_map, List.map_map]
  congr 1
  · refine List.map_congr_left fun k member => funext fun dent => ?_
    have small : k < 8 :=
      List.mem_range.mp (List.mem_reverse.mp (List.mem_filter.mp member).1)
    exact hasBit_score order dent small
  · refine List.map_congr_left fun k member => funext fun dent => ?_
    have small : k < 64 :=
      List.mem_range.mp (List.mem_reverse.mp (List.mem_filter.mp member).1)
    exact hasBit_inodeBit order dent small

theorem below_testedBits (order : ByteOrder) {scoreBits : BitVec 8} {inodeBits : InoT}
    {dents : List EioDirent} (covered : Covered scoreBits inodeBits dents) {x y : EioDirent}
    (xIn : x ∈ dents) (yIn : y ∈ dents) :
    Below ((testedBits order scoreBits inodeBits).map (hasBit order)) x y ↔ DentOrder x y := by
  have agree := covered x xIn y yIn
  have inodes := below_bitTests (fun dent : EioDirent => dent.inode.toNat) inodeBits.getLsbD []
    (x := x) (y := y) 64 fun k _ absent => agree.2 k absent
  have scores := below_bitTests (fun dent : EioDirent => dent.score.toNat) scoreBits.getLsbD
    (bitTests (fun dent => dent.inode.toNat) inodeBits.getLsbD 64)
    (x := x) (y := y) 8 fun k _ absent => agree.1 k absent
  rw [List.append_nil] at inodes
  rw [testedBits_tests, scores, inodes]
  have scoreX := x.score.isLt
  have scoreY := y.score.isLt
  have inodeX := x.inode.isLt
  have inodeY := y.inode.isLt
  simp only [Nat.mod_eq_of_lt scoreX, Nat.mod_eq_of_lt scoreY, Nat.mod_eq_of_lt inodeX,
    Nat.mod_eq_of_lt inodeY, Below, and_true]
  unfold DentOrder
  omega

theorem testedBits_pos (order : ByteOrder) (scoreBits : BitVec 8) (inodeBits : InoT) :
    ∀ bit ∈ testedBits order scoreBits inodeBits, bit ≠ 0 := by
  intro bit member
  rcases List.mem_append.mp member with score | inode
  · obtain ⟨k, _, rfl⟩ := List.mem_map.mp score
    unfold offsetofScore
    omega
  · obtain ⟨k, inside, rfl⟩ := List.mem_map.mp inode
    have small : k < 64 :=
      List.mem_range.mp (List.mem_reverse.mp (List.mem_filter.mp inside).1)
    exact inodeBit_pos order small

theorem testedBits_length (order : ByteOrder) (scoreBits : BitVec 8) (inodeBits : InoT) :
    (testedBits order scoreBits inodeBits).length < stackSize := by
  have scores := List.length_filter_le scoreBits.getLsbD (List.range 8).reverse
  have inodes := List.length_filter_le inodeBits.getLsbD (List.range 64).reverse
  simp only [List.length_reverse, List.length_range] at scores inodes
  simp only [testedBits, List.length_append, List.length_map, stackSize]
  omega

/-! ## The stack of segments is the recursion -/

/-- The radix sort as a recursion: partition, then the left part, then the right one. -/
def radixRec (order : ByteOrder) :
    List Nat → List EioDirent → Nat → Nat → Option (List EioDirent)
  | [], _, _, _ => none
  | bit :: below, dents, base, limit =>
    if limit - base < eioSortCutoff then some dents
    else do
      let (dents, a) ← partition (hasBit order bit) (limit - base) dents base
      match below with
      | [] => none
      | next :: _ =>
        if next = 0 then some dents
        else do
          let dents ← radixRec order below dents base a
          radixRec order below dents a limit

variable (order : ByteOrder)

theorem radixLoop_more (fuel : Nat) : ∀ (stack : List Segment) (dents out : List EioDirent),
    radixLoop order fuel stack dents = some out →
      radixLoop order (fuel + 1) stack dents = some out := by
  induction fuel with
  | zero =>
    intro stack dents out ran
    cases stack with
    | nil => exact ran
    | cons segment stack => exact absurd ran (by simp [radixLoop])
  | succ fuel ih =>
    intro stack dents out ran
    cases stack with
    | nil => exact ran
    | cons segment stack =>
      rw [radixLoop, Option.bind_eq_bind, Option.bind_eq_some_iff] at ran ⊢
      obtain ⟨⟨descended, deeper⟩, step, rest⟩ := ran
      exact ⟨(descended, deeper), step, ih deeper descended out rest⟩

theorem radixLoop_mono {fuel more : Nat} (enough : fuel ≤ more) {stack : List Segment}
    {dents out : List EioDirent} (ran : radixLoop order fuel stack dents = some out) :
    radixLoop order more stack dents = some out := by
  induction enough with
  | refl => exact ran
  | step _ ih => exact radixLoop_more order _ stack dents out ih

/-- The loop works off its top segment as the recursion does, and then the rest of the
stack, which never grows beyond its size. -/
theorem radixLoop_segment (bits : List Nat) (nonempty : bits ≠ [])
    (pos : ∀ bit ∈ bits, bit ≠ 0) :
    ∀ {stack : List Segment} {dents sorted out : List EioDirent} {base limit fuel : Nat},
      stack.length + bits.length ≤ stackSize →
      radixRec order (bits ++ [0]) dents base limit = some sorted →
      radixLoop order fuel stack sorted = some out →
      radixLoop order (fuel + 2 ^ bits.length) (⟨base, limit, bits ++ [0]⟩ :: stack) dents =
        some out := by
  induction bits with
  | nil => exact absurd rfl nonempty
  | cons bit bits ih =>
    intro stack dents sorted out base limit fuel room recursed later
    obtain ⟨spare, fuelEq⟩ : ∃ spare, fuel + 2 ^ (bit :: bits).length = fuel + spare + 1 := by
      have := Nat.two_pow_pos (bit :: bits).length
      exact ⟨2 ^ (bit :: bits).length - 1, by omega⟩
    have more := radixLoop_mono order (Nat.le_add_right fuel spare) later
    rw [List.cons_append, radixRec] at recursed
    rw [fuelEq, radixLoop, List.cons_append, descend]
    by_cases small : limit - base < eioSortCutoff
    · rw [if_pos small] at recursed ⊢
      obtain rfl := Option.some.inj recursed
      exact more
    rw [if_neg small, Option.bind_eq_bind, Option.bind_eq_some_iff] at recursed
    obtain ⟨⟨parted, a⟩, ran, rest⟩ := recursed
    simp only [if_neg small, ran, Option.bind_eq_bind, Option.bind_some]
    rcases bits with _ | ⟨next, bits⟩
    · -- the last bit: both parts are done
      obtain rfl := Option.some.inj rest
      exact more
    have nextPos : next ≠ 0 := pos next (by simp)
    have below : ∀ other ∈ next :: bits, other ≠ 0 :=
      fun other member => pos other (List.mem_cons_of_mem bit member)
    simp only [List.length_cons] at room
    simp only [List.cons_append, if_neg nextPos] at rest ⊢
    rw [Option.bind_eq_bind, Option.bind_eq_some_iff] at rest
    obtain ⟨leftSorted, left, right⟩ := rest
    rw [if_pos (by omega)]
    have thenRight := ih (by simp) below (by simp only [List.length_cons]; omega) right later
    have thenLeft := ih (by simp) below
      (by simp only [List.length_cons]; omega) left thenRight
    have doubled : fuel + 2 ^ (next :: bits).length + 2 ^ (next :: bits).length =
        fuel + spare + 1 := by
      rw [← fuelEq, List.length_cons (a := bit), Nat.pow_succ]
      omega
    rw [doubled, radixLoop] at thenLeft
    exact thenLeft

/-- The recursion stays inside its segment, keeps its entries, and leaves entries
`EIO_SORT_CUTOFF` places or more apart in the order of the tested bits. -/
theorem radixRec_segment (bits : List Nat) (nonempty : bits ≠ [])
    (pos : ∀ bit ∈ bits, bit ≠ 0) :
    ∀ before cells after : List EioDirent,
      ∃ out, radixRec order (bits ++ [0]) (before ++ cells ++ after) before.length
          (before.length + cells.length) = some (before ++ out ++ after) ∧
        out.Perm cells ∧
        NearlySorted (Below (bits.map (hasBit order))) eioSortCutoff out := by
  induction bits with
  | nil => exact absurd rfl nonempty
  | cons bit bits ih =>
    intro before cells after
    have size : before.length + cells.length - before.length = cells.length := by omega
    rw [List.cons_append, radixRec, size]
    by_cases small : cells.length < eioSortCutoff
    · exact ⟨cells, if_pos small, .refl cells, nearlySorted_short _ (by omega)⟩
    obtain ⟨left, right, parted, ran⟩ :=
      partition_segment (hasBit order bit) cells.length before cells after rfl
    rw [if_neg small, ran, Option.bind_eq_bind, Option.bind_some]
    have within : ∀ {test : Bool} {part : List EioDirent},
        (∀ x ∈ part, hasBit order bit x = test) → ∀ x ∈ part, ∀ y ∈ part,
          Below (bits.map (hasBit order)) x y → Below ((bit :: bits).map (hasBit order)) x y :=
      fun same x xIn y yIn lower => Or.inr ⟨(same x xIn).trans (same y yIn).symm, lower⟩
    rcases bits with _ | ⟨next, bits⟩
    · -- the last bit: inside a part all the tested bits agree
      refine ⟨left ++ right, by simp, parted.perm, NearlySorted.append ?_ ?_ ?_⟩
      · exact nearlySorted_related fun x xIn y yIn => within parted.fails x xIn y yIn trivial
      · exact nearlySorted_related fun x xIn y yIn => within parted.passes x xIn y yIn trivial
      · exact fun x xIn y yIn => Or.inl ⟨parted.fails x xIn, parted.passes y yIn⟩
    have nextPos : next ≠ 0 := pos next (by simp)
    have below : ∀ other ∈ next :: bits, other ≠ 0 :=
      fun other member => pos other (List.mem_cons_of_mem bit member)
    obtain ⟨leftOut, leftRan, leftPerm, leftSorted⟩ :=
      ih (by simp) below before left (right ++ after)
    obtain ⟨rightOut, rightRan, rightPerm, rightSorted⟩ :=
      ih (by simp) below (before ++ leftOut) right after
    have limit : (before ++ leftOut).length + right.length = before.length + cells.length := by
      rw [List.length_append, leftPerm.length_eq, Nat.add_assoc, parted.length_eq]
    have start : (before ++ leftOut).length = before.length + left.length := by
      rw [List.length_append, leftPerm.length_eq]
    rw [limit, start] at rightRan
    refine ⟨leftOut ++ rightOut, ?_, (leftPerm.append rightPerm).trans parted.perm,
      NearlySorted.append ?_ ?_ ?_⟩
    · rw [← List.append_assoc] at leftRan
      simp only [List.cons_append, if_neg nextPos] at leftRan rightRan ⊢
      rw [leftRan, Option.bind_eq_bind, Option.bind_some, ← List.append_assoc, rightRan]
      simp
    · exact leftSorted.imp (within fun x xIn => parted.fails x (leftPerm.mem_iff.mp xIn))
    · exact rightSorted.imp (within fun x xIn => parted.passes x (rightPerm.mem_iff.mp xIn))
    · intro x xIn y yIn
      have fails := parted.fails x (leftPerm.mem_iff.mp xIn)
      have passes := parted.passes y (rightPerm.mem_iff.mp yIn)
      exact Or.inl ⟨fails, passes⟩

theorem testedBits_empty (scoreBits : BitVec 8) (inodeBits : InoT) :
    testedBits order scoreBits inodeBits = [] ↔ scoreBits = 0 ∧ inodeBits = 0 := by
  have none_iff : ∀ (width : Nat) (bits : BitVec width),
      (List.range width).reverse.filter bits.getLsbD = [] ↔ bits = 0 := by
    intro width bits
    rw [List.filter_eq_nil_iff]
    constructor
    · intro absent
      refine BitVec.eq_of_getLsbD_eq fun k small => ?_
      have clear := absent k (List.mem_reverse.mpr (List.mem_range.mpr small))
      rw [Bool.not_eq_true] at clear
      simp [clear]
    · rintro rfl k _
      simp
  rw [testedBits, List.append_eq_nil_iff, List.map_eq_nil_iff, List.map_eq_nil_iff,
    none_iff, none_iff]

/-- The radix sort leaves the entries nearly sorted. -/
theorem eioDentRadixSort_apply {scoreBits : BitVec 8} {inodeBits : InoT} (cells : List EioDirent)
    (covered : Covered scoreBits inodeBits cells)
    (some_bit : eioSortFast < cells.length → ¬ (scoreBits = 0 ∧ inodeBits = 0))
    (after : List EioDirent) :
    ∃ out, eioDentRadixSort order (cells ++ after) cells.length scoreBits inodeBits =
        some (out ++ after) ∧
      out.Perm cells ∧
      (eioSortFast < cells.length → NearlySorted DentOrder eioSortCutoff out) := by
  unfold eioDentRadixSort
  by_cases small : cells.length ≤ eioSortFast
  · exact ⟨cells, if_pos small, .refl cells, fun large => absurd small (by omega)⟩
  have nonempty : testedBits order scoreBits inodeBits ≠ [] := fun empty =>
    some_bit (by omega) ((testedBits_empty order scoreBits inodeBits).mp empty)
  have pos := testedBits_pos order scoreBits inodeBits
  obtain ⟨out, ran, perm, sorted⟩ :=
    radixRec_segment order (testedBits order scoreBits inodeBits) nonempty pos [] cells after
  have length := testedBits_length order scoreBits inodeBits
  have done : radixLoop order 0 [] ([] ++ out ++ after) = some ([] ++ out ++ after) := rfl
  have looped := radixLoop_segment order (testedBits order scoreBits inodeBits) nonempty pos
    (by simpa using Nat.le_of_lt length) ran done
  have fuel : 0 + 2 ^ (testedBits order scoreBits inodeBits).length ≤ 2 ^ stackSize := by
    rw [Nat.zero_add]
    exact Nat.pow_le_pow_right (by omega) (Nat.le_of_lt length)
  refine ⟨out, ?_, perm, fun _ => sorted.imp fun x xIn y yIn below => ?_⟩
  · rw [if_neg small, sortBits_reverse]
    simpa [testedBits] using radixLoop_mono order fuel looped
  · exact (below_testedBits order covered (perm.mem_iff.mp xIn) (perm.mem_iff.mp yIn)).mp below

/-- Without a bit to test the radix sort reads below its array of bits. -/
theorem eioDentRadixSort_outside (cells after : List EioDirent)
    (large : eioSortFast < cells.length) :
    eioDentRadixSort order (cells ++ after) cells.length 0 0 = none := by
  have bits : (sortBits order 0 0).reverse = [0] := by
    have empty := (testedBits_empty order 0 0).mpr ⟨rfl, rfl⟩
    rw [sortBits_reverse]
    exact congrArg (· ++ [0]) empty
  obtain ⟨left, right, parted, ran⟩ :=
    partition_segment (hasBit order 0) cells.length [] cells after rfl
  have wide : ¬ cells.length < eioSortCutoff := by
    unfold eioSortFast at large
    unfold eioSortCutoff
    omega
  have descends : descend order [0] [] (cells ++ after) 0 cells.length = none := by
    rw [descend, Nat.sub_zero, if_neg wide]
    simp only [List.nil_append, List.length_nil] at ran
    rw [ran]
    rfl
  obtain ⟨fuel, fuelEq⟩ : ∃ fuel, 2 ^ stackSize = fuel + 1 :=
    ⟨2 ^ stackSize - 1, by decide⟩
  rw [eioDentRadixSort, if_neg (by omega), bits, fuelEq, radixLoop, descends]
  rfl

/-! ## Comparison and insertion -/

/-- The scores that `eio_dent_cmp` can subtract. -/
def ValidScore (dent : EioDirent) : Prop := dent.score.toNat ≤ 100

theorem eioDentCmp_toInt {x y : EioDirent} (xValid : ValidScore x) (yValid : ValidScore y) :
    (eioDentCmp x y).toInt =
      if x.score.toNat ≠ y.score.toNat then (x.score.toNat : Int) - y.score.toNat
      else if x.inode.toNat < y.inode.toNat then -1
      else if y.inode.toNat < x.inode.toNat then 1
      else 0 := by
  unfold ValidScore at xValid yValid
  have scoreX : x.score.toInt = x.score.toNat := by
    rw [BitVec.toInt_eq_toNat_cond, if_pos (by omega)]
  have scoreY : y.score.toInt = y.score.toNat := by
    rw [BitVec.toInt_eq_toNat_cond, if_pos (by omega)]
  have narrow : ∀ d : Int, -100 ≤ d → d ≤ 100 → (BitVec.ofInt 8 d).toInt = d := by
    intro d low high
    rw [BitVec.toInt_ofInt]
    exact Int.bmod_eq_of_le (by omega) (by omega)
  rw [eioDentCmp, scoreX, scoreY]
  by_cases equal : x.score.toNat = y.score.toNat
  · simp only [equal, Int.sub_self, ne_eq, not_true, if_false, BitVec.lt_def]
    by_cases less : x.inode.toNat < y.inode.toNat
    · simp only [if_pos less]
      rfl
    by_cases more : y.inode.toNat < x.inode.toNat
    · simp only [if_neg less, if_pos more]
      rfl
    · simp only [if_neg less, if_neg more]
      rfl
  · rw [if_pos (by omega), if_pos equal]
    exact narrow _ (by omega) (by omega)

theorem dentGreater_iff {x y : EioDirent} (xValid : ValidScore x) (yValid : ValidScore y) :
    dentGreater x y = true ↔ ¬ DentOrder x y := by
  rw [dentGreater, decide_eq_true_iff, eioDentCmp_toInt xValid yValid]
  unfold DentOrder
  split
  · omega
  · split
    · omega
    · split <;> omega

theorem dentLess_iff {x y : EioDirent} (xValid : ValidScore x) (yValid : ValidScore y) :
    dentLess x y = true ↔ ¬ DentOrder y x := by
  rw [dentLess, decide_eq_true_iff, eioDentCmp_toInt xValid yValid]
  unfold DentOrder
  split
  · omega
  · split
    · omega
    · split <;> omega

theorem notGreater_iff {x y : EioDirent} (xValid : ValidScore x) (yValid : ValidScore y) :
    NotGreater dentGreater x y ↔ DentOrder x y := by
  rw [NotGreater, ← Bool.not_eq_true, dentGreater_iff xValid yValid, not_not]

theorem dentOrder_refl (x : EioDirent) : DentOrder x x := Or.inr ⟨rfl, Nat.le_refl _⟩

theorem dentOrder_total {x y : EioDirent} (above : ¬ DentOrder x y) : DentOrder y x := by
  unfold DentOrder at above ⊢
  omega

theorem dentOrder_trans {x y z : EioDirent} (first : DentOrder x y) (second : DentOrder y z) :
    DentOrder x z := by
  unfold DentOrder at first second ⊢
  omega

theorem dentGreater_preorders : Preorders dentGreater ValidScore where
  asymm _ _ xValid yValid greater :=
    (notGreater_iff yValid xValid).mpr
      (dentOrder_total ((dentGreater_iff xValid yValid).mp greater))
  trans _ _ _ xValid yValid zValid first second :=
    (notGreater_iff xValid zValid).mpr
      (dentOrder_trans ((notGreater_iff xValid yValid).mp first)
        ((notGreater_iff yValid zValid).mp second))

/-- The search for the sentinel: an entry that none of those looked at goes below. -/
theorem leastIndex_apply {cells : List EioDirent} (after : List EioDirent)
    (valid : ∀ x ∈ cells, ValidScore x) (i : Nat) :
    ∀ {min : Nat} {start : EioDirent}, i < cells.length → cells[min]? = some start →
      ∃ found least, leastIndex (cells ++ after) i min = some found ∧
        cells[found]? = some least ∧ DentOrder least start ∧
        ∀ j x, 0 < j → j ≤ i → cells[j]? = some x → DentOrder least x := by
  induction i with
  | zero =>
    intro min start _ atMin
    refine ⟨min, start, rfl, atMin, dentOrder_refl start, fun j x pos small _ => ?_⟩
    omega
  | succ i ih =>
    intro min start inside atMin
    obtain ⟨candidate, atNext⟩ : ∃ candidate, cells[i + 1]? = some candidate :=
      ⟨_, List.getElem?_eq_getElem inside⟩
    have minInside := (List.getElem?_eq_some_iff.mp atMin).1
    have candidateValid := valid candidate (List.mem_of_getElem? atNext)
    have startValid := valid start (List.mem_of_getElem? atMin)
    rw [leastIndex, List.getElem?_append_left inside, List.getElem?_append_left minInside, atNext,
      atMin, Option.bind_eq_bind, Option.bind_some, Option.bind_some]
    by_cases below : dentLess candidate start = true
    · obtain ⟨found, least, ran, atFound, under, rest⟩ := ih (by omega) atNext
      rw [if_pos below]
      refine ⟨found, least, ran, atFound, ?_, fun j x pos small atJ => ?_⟩
      · have falls := dentOrder_total ((dentLess_iff candidateValid startValid).mp below)
        exact dentOrder_trans under falls
      · by_cases equal : j = i + 1
        · rw [equal, atNext] at atJ
          rwa [← Option.some.inj atJ]
        · exact rest j x pos (by omega) atJ
    · obtain ⟨found, least, ran, atFound, under, rest⟩ := ih (by omega) atMin
      have stays : DentOrder start candidate := by
        rw [dentLess_iff candidateValid startValid, not_not] at below
        exact below
      rw [if_neg below]
      refine ⟨found, least, ran, atFound, under, fun j x pos small atJ => ?_⟩
      by_cases equal : j = i + 1
      · rw [equal, atNext] at atJ
        rw [← Option.some.inj atJ]
        exact dentOrder_trans under stays
      · exact rest j x pos (by omega) atJ

/-- The least entry and the first one change places. -/
theorem swap_first {first least : EioDirent} {rest : List EioDirent} {found : Nat}
    (there : (first :: rest)[found]? = some least) :
    ∃ swapped, ((first :: rest).set 0 least).set found first = least :: swapped ∧
      (least :: swapped).Perm (first :: rest) := by
  cases found with
  | zero =>
    obtain rfl : first = least := by simpa using there
    exact ⟨rest, rfl, .refl _⟩
  | succ found =>
    rw [List.getElem?_cons_succ] at there
    obtain ⟨inside, value⟩ := List.getElem?_eq_some_iff.mp there
    have shape : rest = rest.take found ++ least :: rest.drop (found + 1) := by
      rw [← value, List.getElem_cons_drop, List.take_append_drop]
    have stored : rest.set found first = rest.take found ++ first :: rest.drop (found + 1) := by
      rw [List.set_eq_take_append_cons_drop, if_pos inside]
    refine ⟨rest.set found first, rfl, ?_⟩
    rw [stored]
    nth_rewrite 3 [shape]
    exact exchange_perm first least _ _

/-- With the least entry among those searched, the insertion sort sorts. -/
theorem eioDentInsertionSort_apply (cells after : List EioDirent)
    (valid : ∀ x ∈ cells, ValidScore x) (many : 1 < cells.length)
    (nearly : eioSortFast < cells.length → NearlySorted DentOrder eioSortCutoff cells) :
    ∃ out, eioDentInsertionSort (cells ++ after) cells.length = some (out ++ after) ∧
      out.Perm cells ∧ out.Pairwise DentOrder := by
  rcases cells with _ | ⟨first, rest⟩
  · exact absurd many (by simp)
  generalize searched : (if eioSortFast < (first :: rest).length then eioSortCutoff + 1
    else (first :: rest).length) - 1 = last
  have inside : last < (first :: rest).length := by
    rw [← searched]
    unfold eioSortFast eioSortCutoff at *
    split <;> omega
  have atZero : (first :: rest)[0]? = some first := rfl
  obtain ⟨found, least, ran, there, under, others⟩ :=
    leastIndex_apply after valid last inside atZero
  have foundInside := (List.getElem?_eq_some_iff.mp there).1
  obtain ⟨swapped, shape, perm⟩ := swap_first there
  -- the least of those searched is the least of all
  have least_of_all : ∀ x ∈ first :: rest, DentOrder least x := by
    intro x member
    obtain ⟨j, jInside, rfl⟩ := List.getElem_of_mem member
    have atJ : (first :: rest)[j]? = some ((first :: rest)[j]) := List.getElem?_eq_getElem jInside
    by_cases zero : j = 0
    · subst zero
      exact under
    by_cases near : j ≤ last
    · exact others j _ (by omega) near atJ
    · have large : eioSortFast < (first :: rest).length := by
        by_contra small
        rw [if_neg small] at searched
        omega
      rw [if_pos large] at searched
      have far := nearly large 0 j first _ (by omega) rfl atJ
      exact dentOrder_trans under far
  have cellValid : ∀ x ∈ least :: swapped, ValidScore x :=
    fun x member => valid x (perm.mem_iff.mp member)
  have sentinel : ∃ x ∈ [least], ∀ y ∈ swapped, NotGreater dentGreater x y := by
    refine ⟨least, List.mem_singleton.mpr rfl, fun y member => ?_⟩
    have yIn : y ∈ least :: swapped := List.mem_cons_of_mem least member
    exact (notGreater_iff (cellValid least List.mem_cons_self) (cellValid y yIn)).mpr
      (least_of_all y (perm.mem_iff.mp yIn))
  obtain ⟨out, inserted, outPerm, ordered⟩ := insertions_sorted dentGreater_preorders swapped
    [least] after (by simpa using cellValid) (List.pairwise_singleton _ _) sentinel
  have count : (first :: rest).length - 1 = swapped.length := by
    have same := perm.length_eq
    simp only [List.length_cons] at same ⊢
    omega
  have outValid : ∀ x ∈ out, ValidScore x := fun x member =>
    cellValid x (outPerm.mem_iff.mp member)
  refine ⟨out, ?_, outPerm.trans perm, ?_⟩
  · unfold eioDentInsertionSort
    simp only [searched, ran, Option.bind_eq_bind, Option.bind_some]
    have stored : ((first :: rest ++ after).set 0 least).set found first =
        [least] ++ swapped ++ after := by
      rw [List.set_append_left _ _ (by simp), List.set_append_left _ _ (by simpa using foundInside),
        shape]
      rfl
    rw [List.getElem?_append_left foundInside, there]
    simp only [List.cons_append, List.getElem?_cons_zero, Option.bind_some] at stored ⊢
    rw [stored, count]
    exact inserted
  · exact ordered.imp_of_mem fun xIn yIn notGreater =>
      (notGreater_iff (outValid _ xIn) (outValid _ yIn)).mp notGreater

/-! ## The sort -/

/-- With a bit to test, `eio_dent_sort` sorts the entries, whatever lies behind them. -/
theorem eioDentSort_apply (cells after : List EioDirent) {scoreBits : BitVec 8}
    {inodeBits : InoT} (valid : ∀ x ∈ cells, ValidScore x)
    (covered : Covered scoreBits inodeBits cells)
    (some_bit : eioSortFast < cells.length → ¬ (scoreBits = 0 ∧ inodeBits = 0)) :
    ∃ out, eioDentSort order (cells ++ after) cells.length scoreBits inodeBits =
        some (out ++ after) ∧
      out.Perm cells ∧ out.Pairwise DentOrder := by
  unfold eioDentSort
  by_cases few : cells.length ≤ 1
  · refine ⟨cells, if_pos few, .refl cells, ?_⟩
    match cells, few with
    | [], _ => exact .nil
    | [x], _ => exact List.pairwise_singleton _ x
  obtain ⟨parted, radix, perm, nearly⟩ :=
    eioDentRadixSort_apply order cells covered some_bit after
  have same := perm.length_eq
  have partedValid : ∀ x ∈ parted, ValidScore x := fun x member =>
    valid x (perm.mem_iff.mp member)
  obtain ⟨out, inserted, outPerm, ordered⟩ := eioDentInsertionSort_apply parted after
    partedValid (by omega) (by rw [same]; exact nearly)
  refine ⟨out, ?_, outPerm.trans perm, ordered⟩
  rw [if_neg few, radix, Option.bind_eq_bind, Option.bind_some, ← same, inserted]

/-- `eio_dent_sort` sorts by score and inode, unless there are more than `EIO_SORT_FAST`
entries and no bit to tell them apart by: then it reads below its array of bits. -/
theorem eioDentSort_sorts (cells after : List EioDirent) (scoreBits : BitVec 8)
    (inodeBits : InoT) (valid : ∀ x ∈ cells, ValidScore x)
    (covered : Covered scoreBits inodeBits cells) :
    if eioSortFast < cells.length ∧ scoreBits = 0 ∧ inodeBits = 0 then
      eioDentSort order (cells ++ after) cells.length scoreBits inodeBits = none
    else
      ∃ out, eioDentSort order (cells ++ after) cells.length scoreBits inodeBits =
          some (out ++ after) ∧
        out.Perm cells ∧ out.Pairwise DentOrder := by
  split
  next blind =>
    obtain ⟨large, rfl, rfl⟩ := blind
    have many : ¬ cells.length ≤ 1 := by
      unfold eioSortFast at large
      omega
    rw [eioDentSort, if_neg many, eioDentRadixSort_outside order cells after large]
    rfl
  next sighted =>
    exact eioDentSort_apply order cells after valid covered
      fun large none => sighted ⟨large, none⟩

/-- A hundred entries whose inodes fall. -/
def hundred : List EioDirent :=
  (List.range 100).map fun i => ⟨BitVec.ofNat 32 i, 1, 8, 7, BitVec.ofNat 64 (100 - i)⟩

theorem eioDentSort_sorts_hundred :
    ∃ out, eioDentSort .little (hundred ++ []) hundred.length (BitVec.allOnes 8)
        (BitVec.allOnes 64) = some (out ++ []) ∧
      out.Perm hundred ∧ out.Pairwise DentOrder := by
  have covered : Covered (BitVec.allOnes 8) (BitVec.allOnes 64) hundred := by
    intro x _ y _
    refine ⟨fun k clear => ?_, fun k clear => ?_⟩
    all_goals
      rw [BitVec.getLsbD_allOnes, decide_eq_false_iff_not] at clear
      rw [BitVec.getLsbD_of_ge _ k (by omega), BitVec.getLsbD_of_ge _ k (by omega)]
  have valid : ∀ x ∈ hundred, ValidScore x := by
    intro x member
    obtain ⟨i, -, rfl⟩ := List.mem_map.mp member
    exact (by decide : (7 : BitVec 8).toNat ≤ 100)
  have sorts := eioDentSort_sorts .little hundred [] _ _ valid covered
  rwa [if_neg (by decide)] at sorts

end WebbitAsyncio.Guarantees.DirectorySort
