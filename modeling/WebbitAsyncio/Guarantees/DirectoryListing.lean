import WebbitAsyncio.Source.Scandir
import WebbitAsyncio.Guarantees.DirectorySort

/-!
# The listing that `readdir` leaves

A call of `eio__scandir` (eio.c:1230-1429) that is granted its memory and reaches the
end of the stream: the names in `ptr2` and the entries in `ptr1` give back every entry
of the directory but `.` and `..`, in the order the flags ask for.
-/
namespace WebbitAsyncio.Guarantees.DirectoryListing
open WebbitAsyncio.Source.DirectoryEntries WebbitAsyncio.Source.Scandir
open WebbitAsyncio.Lib.Partition WebbitAsyncio.Guarantees.DirectorySort

/-! ## What the loop gathers -/

/-- The names, each with its NUL. -/
def nameBytes (listed : List Entry) : List Byte := listed.flatMap fun entry => entry.name ++ [0]

def dentOf (flags : Flags) (offset : Nat) (entry : Entry) : EioDirent where
  nameofs := BitVec.ofNat 32 offset
  namelen := BitVec.ofNat 16 entry.name.length
  type := entryType entry.dtype
  score := entryScore flags (entryType entry.dtype) entry.name
  inode := entry.ino

/-- The entries as `eio_dirent`s, the first name at `offset`. -/
def dentsOf (flags : Flags) : Nat → List Entry → List EioDirent
  | _, [] => []
  | offset, entry :: rest =>
    dentOf flags offset entry :: dentsOf flags (offset + (entry.name.length + 1)) rest

/-- The flags after the entries. -/
def flagsOf (flags : Flags) (listed : List Entry) : Flags :=
  listed.foldl (fun flags entry => entryFlags flags entry.dtype) flags

def inodesOf (listed : List Entry) : InoT :=
  listed.foldl (fun bits entry => bits ||| entry.ino) 0

theorem nameBytes_append (listed : List Entry) (entry : Entry) :
    nameBytes (listed ++ [entry]) = nameBytes listed ++ (entry.name ++ [0]) := by
  simp [nameBytes]

theorem dentsOf_append (flags : Flags) (entry : Entry) (listed : List Entry) :
    ∀ offset, dentsOf flags offset (listed ++ [entry]) =
      dentsOf flags offset listed ++ [dentOf flags (offset + (nameBytes listed).length) entry] := by
  induction listed with
  | nil => exact fun _ => rfl
  | cons first rest ih =>
    intro offset
    have shifted : offset + (first.name.length + 1) + (nameBytes rest).length =
        offset + (nameBytes (first :: rest)).length := by
      simp only [nameBytes, List.flatMap_cons, List.length_append, List.length_cons,
        List.length_nil]
      omega
    rw [List.cons_append, dentsOf, ih, dentsOf, List.cons_append, shifted]

theorem dentsOf_length (flags : Flags) (listed : List Entry) :
    ∀ offset, (dentsOf flags offset listed).length = listed.length := by
  induction listed with
  | nil => exact fun _ => rfl
  | cons first rest ih =>
    intro offset
    rw [dentsOf, List.length_cons, ih, List.length_cons]

theorem length_le_nameBytes (listed : List Entry) :
    listed.length ≤ (nameBytes listed).length := by
  induction listed with
  | nil => simp
  | cons first rest ih =>
    unfold nameBytes at ih ⊢
    simp only [List.flatMap_cons, List.length_append, List.length_cons, List.length_nil]
    omega

/-- What `readdir` asked for at the start is what the scores go by. -/
theorem has_entryFlags (flags : Flags) (dtype : Byte) :
    has (entryFlags flags dtype) readdirDirsFirst = has flags readdirDirsFirst ∧
      has (entryFlags flags dtype) readdirStatOrder = has flags readdirStatOrder := by
  unfold entryFlags
  by_cases known : dtype ∈ knownTypes
  · rw [if_pos known]
    exact ⟨rfl, rfl⟩
  · rw [if_neg known]
    have apart : ∀ flag : Flags, readdirFoundUnknown &&& flag = 0 →
        has (flags ||| readdirFoundUnknown) flag = has flags flag := by
      intro flag disjoint
      have kept : (flags ||| readdirFoundUnknown) &&& flag = flags &&& flag := by
        rw [BitVec.and_or_distrib_right, disjoint]
        exact BitVec.or_zero
      rw [has, has, kept]
    exact ⟨apart _ (by decide), apart _ (by decide)⟩

/-- `names` once the entries `listed` are added. -/
structure NamesGathered (listed : List Entry) (locals : Locals) : Prop where
  names : locals.names = some ⟨locals.namesalloc, nameBytes listed⟩
  pos : 0 < locals.namesalloc
  namesoffs : locals.namesoffs = (nameBytes listed).length
  dentoffs : locals.dentoffs = listed.length

/-- `dents` once the entries `listed` are added, starting from `flags`. -/
structure DentsGathered (flags : Flags) (listed : List Entry) (locals : Locals) : Prop where
  flagsNow : locals.flags = if flags = 0 then 0 else flagsOf flags listed
  dents : locals.dents =
    if flags = 0 then none else some ⟨locals.dentalloc, dentsOf flags 0 listed⟩
  pos : 0 < locals.dentalloc
  small : locals.dentalloc ≤ intMax
  room : flags ≠ 0 → listed.length ≤ locals.dentalloc
  inodes : flags ≠ 0 → locals.inodeBits = inodesOf listed

theorem growNames_fits (grants : Nat → Bool) (granted : ∀ size, grants size = true)
    {needed : Nat} (small : needed ≤ 2 ^ 30) (written : List Byte) (fuel : Nat) :
    ∀ {namesalloc : Nat}, 0 < namesalloc → needed ≤ namesalloc * 2 ^ fuel →
      ∃ more, growNames grants needed (fuel + 1) namesalloc (some ⟨namesalloc, written⟩) =
        some (more, some ⟨more, written⟩) ∧ needed ≤ more ∧ 0 < more := by
  induction fuel with
  | zero =>
    intro namesalloc pos enough
    refine ⟨namesalloc, ?_, by omega, pos⟩
    rw [growNames, if_neg (by omega)]
  | succ fuel ih =>
    intro namesalloc pos enough
    rw [growNames]
    by_cases short : needed > namesalloc
    · have fits : ¬ namesalloc * 2 > intMax := by
        unfold intMax
        omega
      rw [if_pos short, if_neg fits, if_pos (granted _)]
      refine ih (by omega) ?_
      rwa [Nat.mul_assoc, ← Nat.pow_succ']
    · exact ⟨namesalloc, if_neg short, by omega, pos⟩

/-- The call gets what it asks for, and reaches the end of the stream. -/
structure Undisturbed (env : Surroundings) : Prop where
  opens : env.opens = true
  fails : env.fails = false
  cancelled : ∀ count, env.cancelled count = false
  mallocDents : env.mallocDents = true
  mallocNames : env.mallocNames = true
  reallocDents : ∀ size, env.reallocDents size = true
  reallocNames : ∀ size, env.reallocNames size = true

theorem write_end {α : Type} (block : Block α) (cells : List α)
    (fits : block.written.length + cells.length ≤ block.allocated) :
    block.write block.written.length cells =
      some { block with written := block.written ++ cells } := by
  rw [Block.write, if_pos ⟨Nat.le_refl _, fits⟩]
  simp

theorem entryScore_flags {flags other : Flags}
    (same : has other readdirDirsFirst = has flags readdirDirsFirst) (type : Byte)
    (name : List Byte) : entryScore other type name = entryScore flags type name := by
  rw [entryScore, entryScore, same]

theorem has_flagsOf (flags : Flags) (listed : List Entry) :
    has (flagsOf flags listed) readdirDirsFirst = has flags readdirDirsFirst ∧
      has (flagsOf flags listed) readdirStatOrder = has flags readdirStatOrder := by
  unfold flagsOf
  induction listed generalizing flags with
  | nil => exact ⟨rfl, rfl⟩
  | cons entry rest ih =>
    obtain ⟨dirsFirst, statOrder⟩ := ih (entryFlags flags entry.dtype)
    obtain ⟨dirsFirst', statOrder'⟩ := has_entryFlags flags entry.dtype
    exact ⟨dirsFirst.trans dirsFirst', statOrder.trans statOrder'⟩

variable {env : Surroundings} {flags : Flags} {listed : List Entry} {locals : Locals}

/-- What adding to `dents` leaves alone. -/
structure SameNames (locals added : Locals) : Prop where
  names : added.names = locals.names
  namesalloc : added.namesalloc = locals.namesalloc
  namesoffs : added.namesoffs = locals.namesoffs
  dentoffs : added.dentoffs = locals.dentoffs

/-- The entry goes to the end of `dents`; the names stay as they are. -/
theorem addDent_gathered (undisturbed : Undisturbed env) (locals : Locals) (entry : Entry)
    (offset : locals.namesoffs = (nameBytes listed).length)
    (count : locals.dentoffs = listed.length) (dents : DentsGathered flags listed locals)
    (few : listed.length < 2 ^ 30) :
    ∃ added, addDent env locals entry = some (.goes added) ∧
      SameNames locals added ∧ DentsGathered flags (listed ++ [entry]) added := by
  by_cases plain : flags = 0
  · refine ⟨locals, ?_, ⟨rfl, rfl, rfl, rfl⟩, ?_⟩
    · rw [addDent, dents.dents, if_pos plain]
    · have flagsNow := dents.flagsNow
      have none := dents.dents
      rw [if_pos plain] at flagsNow none
      refine ⟨?_, ?_, dents.pos, dents.small, fun set => absurd plain set,
        fun set => absurd plain set⟩
      · rw [flagsNow, if_pos plain]
      · rw [none, if_pos plain]
  have block := dents.dents
  have flagsNow := dents.flagsNow
  have room := dents.room plain
  have pos := dents.pos
  have inodes := dents.inodes plain
  rw [if_neg plain] at block flagsNow
  obtain ⟨more, moreEq⟩ : ∃ more, more =
      if locals.dentoffs = locals.dentalloc then locals.dentalloc * 2 else locals.dentalloc :=
    ⟨_, rfl⟩
  have fits : listed.length + 1 ≤ more ∧ more ≤ intMax ∧ 0 < more := by
    have small := dents.small
    unfold intMax at small ⊢
    rw [moreEq]
    split <;> omega
  have allocated : (if locals.dentoffs = locals.dentalloc then more else locals.dentalloc) =
      more := by
    rw [moreEq]
    split <;> rfl
  have written := write_end ⟨more, dentsOf flags 0 listed⟩
    [dentOf flags (0 + (nameBytes listed).length) entry]
    (by simpa [dentsOf_length] using fits.1)
  have score : entryScore (entryFlags (flagsOf flags listed) entry.dtype) (entryType entry.dtype)
      entry.name = entryScore flags (entryType entry.dtype) entry.name := by
    refine entryScore_flags ?_ _ _
    exact (has_entryFlags _ entry.dtype).1.trans (has_flagsOf flags listed).1
  have flagsAdded : flagsOf flags (listed ++ [entry]) =
      entryFlags (flagsOf flags listed) entry.dtype := by
    simp [flagsOf]
  refine ⟨{ locals with
    flags := flagsOf flags (listed ++ [entry]), dentalloc := more,
    dents := some ⟨more, dentsOf flags 0 (listed ++ [entry])⟩,
    inodeBits := inodesOf (listed ++ [entry]) }, ?_,
    ⟨rfl, rfl, rfl, rfl⟩, ?_⟩
  · have place : locals.dentoffs = (dentsOf flags 0 listed).length := by
      rw [dentsOf_length, count]
    rw [addDent, block]
    simp only [← moreEq, allocated, undisturbed.reallocDents, Bool.not_true, Bool.false_eq_true,
      and_false, if_false, flagsNow, score, offset, inodes]
    rw [if_neg (by omega), place]
    simp only [Nat.zero_add, dentOf] at written
    rw [written]
    simp [flagsAdded, dentsOf_append, dentOf, inodesOf]
  · refine ⟨by rw [if_neg plain], by rw [if_neg plain], fits.2.2, fits.2.1, fun _ => ?_,
      fun _ => rfl⟩
    simpa using fits.1

/-- One entry: its name goes to the end of `names`, which grows when it does not fit. -/
theorem addEntry_gathered (undisturbed : Undisturbed env) (entry : Entry)
    (names : NamesGathered listed locals) (dents : DentsGathered flags listed locals)
    (small : (nameBytes (listed ++ [entry])).length ≤ 2 ^ 30) :
    ∃ added, addEntry env locals entry = some (.goes added) ∧
      NamesGathered (listed ++ [entry]) added ∧ DentsGathered flags (listed ++ [entry]) added := by
  have size : (nameBytes (listed ++ [entry])).length =
      locals.namesoffs + (entry.name.length + 1) := by
    rw [nameBytes_append, names.namesoffs]
    simp
  rw [size] at small
  have few : listed.length < 2 ^ 30 := by
    have := length_le_nameBytes listed
    rw [names.namesoffs] at small
    omega
  obtain ⟨more, grown, fits, pos⟩ := growNames_fits env.reallocNames undisturbed.reallocNames small
    (nameBytes listed) 31 names.pos (by have := names.pos; omega)
  have written := write_end ⟨more, nameBytes listed⟩ (entry.name ++ [0])
    (by rw [names.namesoffs] at fits; simpa using fits)
  rw [← names.namesoffs] at written
  obtain ⟨added, ran, same, dentsNow⟩ := addDent_gathered undisturbed
    { locals with namesalloc := more, names := some ⟨more, nameBytes (listed ++ [entry])⟩ }
    entry names.namesoffs names.dentoffs
    ⟨dents.flagsNow, dents.dents, dents.pos, dents.small, dents.room, dents.inodes⟩ few
  have step : addEntry env locals entry = some (.goes { added with
      namesoffs := added.namesoffs + (entry.name.length + 1),
      dentoffs := added.dentoffs + 1 }) := by
    rw [addEntry, names.names, if_neg (by unfold intMax; omega), grown]
    simp only [nameBytes_append] at ran
    simp only [Option.bind_eq_bind, Option.bind_some, written, ran]
  refine ⟨_, step, ⟨?_, ?_, ?_, ?_⟩,
    ⟨dentsNow.flagsNow, dentsNow.dents, dentsNow.pos, dentsNow.small, dentsNow.room,
      dentsNow.inodes⟩⟩
  · show added.names = some ⟨added.namesalloc, _⟩
    rw [same.names, same.namesalloc]
  · show 0 < added.namesalloc
    rw [same.namesalloc]
    exact pos
  · show added.namesoffs + (entry.name.length + 1) = _
    rw [same.namesoffs, size]
  · show added.dentoffs + 1 = _
    rw [same.dentoffs, List.length_append, List.length_singleton, ← names.dentoffs]

/-- The entries that `readdir` lists. -/
def listedOf (entries : List Entry) : List Entry := entries.filter fun entry => !skipped entry.name

variable (order : ByteOrder)

/-- The whole stream: the call ends with what the listed entries gather to. -/
theorem readEntries_gathered (undisturbed : Undisturbed env) (int1 : Flags)
    (entries : List Entry) :
    ∀ (listed : List Entry) {locals : Locals} {count : Nat},
      NamesGathered listed locals → DentsGathered flags listed locals →
      (nameBytes (listed ++ listedOf entries)).length ≤ 2 ^ 30 →
      ∃ final, readEntries order env int1 count entries locals = finish order final ∧
        NamesGathered (listed ++ listedOf entries) final ∧
        DentsGathered flags (listed ++ listedOf entries) final := by
  induction entries with
  | nil =>
    intro listed locals count names dents _
    refine ⟨locals, ?_, by simpa [listedOf] using names, by simpa [listedOf] using dents⟩
    rw [readEntries, undisturbed.fails]
    rfl
  | cons entry rest ih =>
    intro listed locals count names dents small
    rw [readEntries]
    by_cases skip : skipped entry.name = true
    · have same : listedOf (entry :: rest) = listedOf rest := by simp [listedOf, skip]
      rw [same] at small ⊢
      simp only [skip, if_true, Option.bind_eq_bind, Option.bind_some, undisturbed.cancelled,
        Bool.false_eq_true, if_false]
      exact ih listed names dents small
    · have next : listed ++ listedOf (entry :: rest) = (listed ++ [entry]) ++ listedOf rest := by
        simp [listedOf, skip]
      rw [next] at small ⊢
      have smaller : (nameBytes (listed ++ [entry])).length ≤ 2 ^ 30 := by
        unfold nameBytes at small ⊢
        rw [List.flatMap_append, List.length_append] at small
        omega
      obtain ⟨added, ran, namesNow, dentsNow⟩ := addEntry_gathered undisturbed entry names dents
        smaller
      simp only [skip, Bool.false_eq_true, if_false, ran, Option.bind_eq_bind, Option.bind_some,
        undisturbed.cancelled]
      exact ih (listed ++ [entry]) namesNow dentsNow small

theorem eioScandir_gathered (undisturbed : Undisturbed env) (int1 : Flags)
    (small : (nameBytes (listedOf env.entries)).length ≤ 2 ^ 30) :
    ∃ final, eioScandir order env int1 = finish order final ∧
      NamesGathered (listedOf env.entries) final ∧
      DentsGathered (askedFlags int1) (listedOf env.entries) final := by
  unfold eioScandir
  simp only [undisturbed.mallocNames, undisturbed.mallocDents, undisturbed.opens, if_true,
    Option.isSome_some, true_and, and_true]
  generalize askedFlags int1 = flags
  have starts : flags = 0 ∨
      (if flags ≠ 0 then some (⟨128, []⟩ : Block EioDirent) else none).isSome = true := by
    by_cases plain : flags = 0
    · exact Or.inl plain
    · exact Or.inr (by rw [if_pos plain]; rfl)
  rw [if_pos starts]
  refine readEntries_gathered order undisturbed int1 env.entries []
    ⟨rfl, Nat.succ_pos _, rfl, rfl⟩ ?_ small
  refine ⟨?_, ?_, Nat.succ_pos _, ?_, fun _ => Nat.zero_le _, fun _ => rfl⟩
  · by_cases plain : flags = 0
    · rw [if_pos plain, plain]
    · rw [if_neg plain]
      rfl
  · by_cases plain : flags = 0
    · rw [if_pos plain, if_neg (not_not.mpr plain)]
    · rw [if_neg plain, if_pos plain]
      rfl
  · show 128 ≤ intMax
    decide

/-! ## Scores and inodes of the entries -/

theorem entryScore_plain {flags : Flags} (plain : has flags readdirDirsFirst = false)
    (type : Byte) (name : List Byte) : entryScore flags type name = 7 := by
  simp [entryScore, plain]

theorem entryScore_dir {flags : Flags} (dirsFirst : has flags readdirDirsFirst = true)
    (name : List Byte) : entryScore flags dtDir name = 0 := by
  have known : ¬ dtDir = dtUnknown := by decide
  rw [entryScore, if_pos dirsFirst, if_neg known, if_pos rfl]

/-- Whatever is not known to be a directory scores from 1 to 7. -/
theorem entryScore_other (flags : Flags) {type : Byte} (other : type ≠ dtDir)
    (name : List Byte) :
    1 ≤ (entryScore flags type name).toNat ∧ (entryScore flags type name).toNat ≤ 7 := by
  unfold entryScore
  rw [if_neg other]
  split
  · split
    · split
      · decide
      · split
        · dsimp only
          split
          · have shortest : 4 - ((name.length : Int) + 1) = 3 ∨
                4 - ((name.length : Int) + 1) = 2 := by omega
            rcases shortest with value | value <;> (rw [value]; decide)
          · split
            · decide
            · split <;> decide
        · decide
    · decide
  · decide

theorem entryScore_small (flags : Flags) (type : Byte) (name : List Byte) :
    (entryScore flags type name).toNat ≤ 7 := by
  by_cases dir : type = dtDir
  · subst dir
    by_cases dirsFirst : has flags readdirDirsFirst = true
    · rw [entryScore_dir dirsFirst]
      decide
    · rw [entryScore_plain (by simpa using dirsFirst)]
      decide
  · exact (entryScore_other flags dir name).2

theorem inodesOf_getLsbD (listed : List Entry) (k : Nat) :
    (inodesOf listed).getLsbD k = listed.any fun entry => entry.ino.getLsbD k := by
  have folded : ∀ bits : InoT, (listed.foldl (fun bits entry => bits ||| entry.ino) bits).getLsbD k =
      (bits.getLsbD k || listed.any fun entry => entry.ino.getLsbD k) := by
    induction listed with
    | nil => simp
    | cons entry rest ih =>
      intro bits
      rw [List.foldl_cons, ih, BitVec.getLsbD_or, List.any_cons, Bool.or_assoc]
  rw [inodesOf, folded]
  simp

/-- Every `eio_dirent` is that of a listed entry. -/
theorem mem_dentsOf {flags : Flags} {dent : EioDirent} {listed : List Entry} :
    ∀ {offset : Nat}, dent ∈ dentsOf flags offset listed →
      ∃ entry ∈ listed, dent.inode = entry.ino ∧ dent.type = entryType entry.dtype ∧
        dent.score = entryScore flags (entryType entry.dtype) entry.name := by
  induction listed with
  | nil => exact fun member => absurd member List.not_mem_nil
  | cons entry rest ih =>
    intro offset member
    rcases List.mem_cons.mp member with rfl | later
    · exact ⟨entry, List.mem_cons_self, rfl, rfl, rfl⟩
    · obtain ⟨other, inRest, same⟩ := ih later
      exact ⟨other, List.mem_cons_of_mem entry inRest, same⟩

/-- Any entries of a listing whose scores the tested bits tell apart are covered. -/
theorem covered_dents {flags : Flags} {listed : List Entry} {scoreBits : BitVec 8}
    {dents : List EioDirent} (from_listing : ∀ dent ∈ dents, dent ∈ dentsOf flags 0 listed)
    (scores : scoreBits = 7 ∨ ∀ x ∈ dents, ∀ y ∈ dents, x.score = y.score) :
    Covered scoreBits (inodesOf listed) dents := by
  have absent : ∀ x ∈ dents, ∀ k, (inodesOf listed).getLsbD k = false →
      x.inode.getLsbD k = false := by
    intro x xIn k clear
    obtain ⟨entry, member, inode, -⟩ := mem_dentsOf (from_listing x xIn)
    rw [inodesOf_getLsbD, List.any_eq_false] at clear
    rw [inode]
    simpa using clear entry member
  intro x xIn y yIn
  refine ⟨fun k clear => ?_, fun k clear => ?_⟩
  · rcases scores with rfl | same
    · have high : 3 ≤ k := by
        by_contra low
        have small : k < 3 := by omega
        have set : ∀ k < 3, (7 : BitVec 8).getLsbD k = true := by decide
        rw [set k small] at clear
        exact absurd clear Bool.true_eq_false.mp
      have zero : ∀ z ∈ dents, z.score.getLsbD k = false := by
        intro z zIn
        obtain ⟨entry, -, -, -, score⟩ := mem_dentsOf (from_listing z zIn)
        have small := entryScore_small flags (entryType entry.dtype) entry.name
        rw [← score] at small
        refine Nat.testBit_lt_two_pow (Nat.lt_of_le_of_lt small ?_)
        calc 7 < 2 ^ 3 := by decide
          _ ≤ 2 ^ k := Nat.pow_le_pow_right (by decide) high
      rw [zero x xIn, zero y yIn]
    · rw [same x xIn y yIn]
  · rw [absent x xIn k clear, absent y yIn k clear]

/-! ## How the entries are arranged -/

/-- The order that the flags ask for: with `EIO_READDIR_DIRS_FIRST` the directories come
first, with `EIO_READDIR_STAT_ORDER` alone the inodes rise. -/
def Arranged (flags : Flags) (dents : List EioDirent) : Prop :=
  (has flags readdirDirsFirst = true →
    dents.Pairwise fun x y => y.type = dtDir → x.type = dtDir) ∧
  (has flags readdirStatOrder = true → has flags readdirDirsFirst = false →
    dents.Pairwise fun x y => x.inode.toNat ≤ y.inode.toNat)

/-- Entries in the order of `eio_dent_cmp` are as the flags ask. -/
theorem arranged_of_sorted {flags : Flags} {listed : List Entry} {dents : List EioDirent}
    (from_listing : ∀ dent ∈ dents, dent ∈ dentsOf flags 0 listed)
    (sorted : dents.Pairwise DentOrder) : Arranged flags dents := by
  refine ⟨fun dirsFirst => ?_, fun _ plain => ?_⟩
  · refine sorted.imp_of_mem fun {x y} xIn yIn inOrder yDir => ?_
    obtain ⟨xEntry, -, -, xType, xScore⟩ := mem_dentsOf (from_listing x xIn)
    obtain ⟨yEntry, -, -, yType, yScore⟩ := mem_dentsOf (from_listing y yIn)
    by_contra other
    rw [← yType, yDir, entryScore_dir dirsFirst] at yScore
    rw [← xType] at xScore
    have above := (entryScore_other flags other xEntry.name).1
    rw [← xScore] at above
    unfold DentOrder at inOrder
    rw [yScore] at inOrder
    simp at inOrder
    omega
  · refine sorted.imp_of_mem fun {x y} xIn yIn inOrder => ?_
    obtain ⟨xEntry, -, -, -, xScore⟩ := mem_dentsOf (from_listing x xIn)
    obtain ⟨yEntry, -, -, -, yScore⟩ := mem_dentsOf (from_listing y yIn)
    rw [entryScore_plain plain] at xScore yScore
    unfold DentOrder at inOrder
    rw [xScore, yScore] at inOrder
    omega

/-- Directories, then the rest, are as `EIO_READDIR_DIRS_FIRST` asks. -/
theorem arranged_of_parted {flags : Flags} {dirs others : List EioDirent}
    (statOrder : has flags readdirStatOrder = false)
    (allDirs : ∀ dent ∈ dirs, dent.type = dtDir)
    (noDirs : ∀ dent ∈ others, dent.type ≠ dtDir) : Arranged flags (dirs ++ others) := by
  refine ⟨fun _ => List.pairwise_append.mpr ⟨?_, ?_, ?_⟩, fun set => ?_⟩
  · exact List.pairwise_of_forall_mem_list fun x xIn _ _ _ => allDirs x xIn
  · exact List.pairwise_of_forall_mem_list fun _ _ y yIn yDir => absurd yDir (noDirs y yIn)
  · exact fun x xIn _ _ _ => allDirs x xIn
  · rw [statOrder] at set
    exact absurd set Bool.false_eq_true.mp

/-- Few entries, or one with an inode number: there is a bit to sort by. -/
def Sighted (listed : List Entry) : Prop :=
  listed.length ≤ eioSortFast ∨ ∃ entry ∈ listed, entry.ino ≠ 0

theorem Sighted.inodesOf_ne_zero {listed : List Entry} (sighted : Sighted listed)
    (many : eioSortFast < listed.length) : inodesOf listed ≠ 0 := by
  rcases sighted with few | ⟨entry, member, nonzero⟩
  · omega
  intro zero
  refine nonzero (BitVec.eq_of_getLsbD_eq fun k _ => ?_)
  have clear : (inodesOf listed).getLsbD k = false := by rw [zero]; simp
  rw [inodesOf_getLsbD, List.any_eq_false] at clear
  simpa using clear entry member

/-- `eio_dent_sort` on a part of the listing. -/
theorem eioDentSort_dents {flags : Flags} {listed : List Entry} (scoreBits : BitVec 8)
    (cells after : List EioDirent)
    (from_listing : ∀ dent ∈ cells, dent ∈ dentsOf flags 0 listed)
    (few : cells.length ≤ listed.length) (sighted : Sighted listed)
    (scores : scoreBits = 7 ∨ ∀ x ∈ cells, ∀ y ∈ cells, x.score = y.score) :
    ∃ out, eioDentSort order (cells ++ after) cells.length scoreBits (inodesOf listed) =
        some (out ++ after) ∧
      out.Perm cells ∧ out.Pairwise DentOrder := by
  have valid : ∀ x ∈ cells, ValidScore x := by
    intro x xIn
    obtain ⟨entry, -, -, -, score⟩ := mem_dentsOf (from_listing x xIn)
    have small := entryScore_small flags (entryType entry.dtype) entry.name
    rw [← score] at small
    unfold ValidScore
    omega
  exact eioDentSort_apply order cells after valid (covered_dents from_listing scores)
    fun large none => sighted.inodesOf_ne_zero (by omega) none.2

variable {final : Locals}

/-- The entries are sorted as asked, or left as they came. -/
theorem sortDents_arranged (set : flags ≠ 0) (dents : DentsGathered flags listed final)
    (count : final.dentoffs = listed.length) (sighted : Sighted listed) :
    ∃ out, sortDents order final (dentsOf flags 0 listed) = some out ∧
      out.Perm (dentsOf flags 0 listed) ∧ Arranged flags out ∧
      (has flags readdirDirsFirst = false → has flags readdirStatOrder = false →
        out = dentsOf flags 0 listed) := by
  have flagsNow := dents.flagsNow
  rw [if_neg set] at flagsNow
  obtain ⟨dirsFirstNow, statOrderNow⟩ := has_flagsOf flags listed
  have size : final.dentoffs = (dentsOf flags 0 listed).length := by rw [count, dentsOf_length]
  have whole : ∀ dent ∈ dentsOf flags 0 listed, dent ∈ dentsOf flags 0 listed := fun _ here => here
  have all : (dentsOf flags 0 listed).length ≤ listed.length :=
    Nat.le_of_eq (dentsOf_length flags listed 0)
  unfold sortDents
  rw [flagsNow, dirsFirstNow, statOrderNow, dents.inodes set, size]
  by_cases statOrder : has flags readdirStatOrder = true
  · -- the whole listing by score and inode
    have scores : (if has flags readdirDirsFirst = true then (7 : BitVec 8) else 0) = 7 ∨
        ∀ x ∈ dentsOf flags 0 listed, ∀ y ∈ dentsOf flags 0 listed, x.score = y.score := by
      by_cases dirsFirst : has flags readdirDirsFirst = true
      · exact Or.inl (if_pos dirsFirst)
      · have seven : ∀ x ∈ dentsOf flags 0 listed, x.score = 7 := by
          intro x xIn
          obtain ⟨entry, -, -, -, score⟩ := mem_dentsOf xIn
          rw [score, entryScore_plain (by simpa using dirsFirst)]
        exact Or.inr fun x xIn y yIn => (seven x xIn).trans (seven y yIn).symm
    obtain ⟨out, ran, perm, sorted⟩ :=
      eioDentSort_dents order _ (dentsOf flags 0 listed) [] whole all sighted scores
    rw [List.append_nil, List.append_nil] at ran
    refine ⟨out, ?_, perm, arranged_of_sorted (fun x xIn => perm.mem_iff.mp xIn) sorted, ?_⟩
    · rw [if_pos statOrder, ran]
    · intro _ plain
      rw [statOrder] at plain
      exact absurd plain Bool.true_eq_false.mp
  rw [if_neg statOrder]
  by_cases dirsFirst : has flags readdirDirsFirst = true
  · rw [if_pos dirsFirst]
    by_cases unknown : has (flagsOf flags listed) readdirFoundUnknown = true
    · -- some types are not known: the whole listing by score and inode
      obtain ⟨out, ran, perm, sorted⟩ :=
        eioDentSort_dents order 7 (dentsOf flags 0 listed) [] whole all sighted (Or.inl rfl)
      rw [List.append_nil, List.append_nil] at ran
      refine ⟨out, ?_, perm, arranged_of_sorted (fun x xIn => perm.mem_iff.mp xIn) sorted, ?_⟩
      · rw [if_pos unknown, ran]
      · intro plain
        rw [dirsFirst] at plain
        exact absurd plain Bool.true_eq_false.mp
    · -- all types are known: directories to the front, and only these sorted
      rw [if_neg unknown]
      obtain ⟨dirs, others, parted, ran⟩ := partition_segment
        (fun dent => dent.type != dtDir) (dentsOf flags 0 listed).length []
        (dentsOf flags 0 listed) [] rfl
      simp only [List.nil_append, List.append_nil, List.length_nil, Nat.zero_add] at ran
      have allDirs : ∀ dent ∈ dirs, dent.type = dtDir := fun dent member => by
        simpa using parted.fails dent member
      have noDirs : ∀ dent ∈ others, dent.type ≠ dtDir := fun dent member => by
        simpa using parted.passes dent member
      have from_listing : ∀ dent ∈ dirs, dent ∈ dentsOf flags 0 listed := fun dent member =>
        parted.perm.mem_iff.mp (List.mem_append_left others member)
      have zero : ∀ x ∈ dirs, x.score = 0 := by
        intro x xIn
        obtain ⟨entry, -, -, type, score⟩ := mem_dentsOf (from_listing x xIn)
        rw [score, ← type, allDirs x xIn, entryScore_dir dirsFirst]
      have few : dirs.length ≤ listed.length := by
        have lengths := parted.length_eq
        omega
      obtain ⟨out, sorted, perm, -⟩ := eioDentSort_dents order 0 dirs others from_listing few
        sighted (Or.inr fun x xIn y yIn => (zero x xIn).trans (zero y yIn).symm)
      refine ⟨out ++ others, ?_, (perm.append_right others).trans parted.perm,
        arranged_of_parted (by simpa using statOrder)
          (fun dent member => allDirs dent (perm.mem_iff.mp member)) noDirs, ?_⟩
      · rw [ran, Option.bind_eq_bind, Option.bind_some]
        exact sorted
      · intro plain
        rw [dirsFirst] at plain
        exact absurd plain Bool.true_eq_false.mp
  · rw [if_neg dirsFirst]
    refine ⟨dentsOf flags 0 listed, rfl, .refl _, ?_, fun _ _ => rfl⟩
    exact ⟨fun asked => absurd asked dirsFirst, fun asked => absurd asked statOrder⟩

/-! ## Reading the listing back -/

/-- What the caller of `readdir` reads from one entry: inode, type, and the text that
`nameofs` points to, which must end with a NUL after `namelen` bytes. -/
def readBack (names : List Byte) (dent : EioDirent) : Option (InoT × Byte × List Byte) :=
  let rest := names.drop dent.nameofs.toNat
  let text := rest.takeWhile (· ≠ 0)
  if text.length < rest.length ∧ text.length = dent.namelen.toNat then
    some (dent.inode, dent.type, text)
  else none

/-- A name as file systems allow it. -/
def NameOk (entry : Entry) : Prop := 0 ∉ entry.name ∧ entry.name.length < 2 ^ 16

theorem readBack_dentOf (flags : Flags) (before after : List Byte) {entry : Entry}
    (ok : NameOk entry) (small : before.length < 2 ^ 32) :
    readBack (before ++ (entry.name ++ [0] ++ after)) (dentOf flags before.length entry) =
      some (entry.ino, entryType entry.dtype, entry.name) := by
  have offset : (BitVec.ofNat 32 before.length).toNat = before.length := by
    rw [BitVec.toNat_ofNat, Nat.mod_eq_of_lt small]
  have length : (BitVec.ofNat 16 entry.name.length).toNat = entry.name.length := by
    rw [BitVec.toNat_ofNat, Nat.mod_eq_of_lt ok.2]
  have text : (entry.name ++ [0] ++ after).takeWhile (· ≠ 0) = entry.name := by
    rw [List.append_assoc, List.takeWhile_append_of_pos]
    · simp
    · intro byte member
      have nonzero : byte ≠ 0 := fun zero => ok.1 (zero ▸ member)
      simpa using nonzero
  unfold readBack
  simp only [dentOf, offset, length, List.drop_left, text, and_true]
  rw [if_pos (by simp)]

/-- Every entry is read back from its place among the names. -/
theorem readBack_dentsOf (flags : Flags) (listed : List Entry)
    (ok : ∀ entry ∈ listed, NameOk entry) :
    ∀ before : List Byte, before.length + (nameBytes listed).length ≤ 2 ^ 30 →
      (dentsOf flags before.length listed).map (readBack (before ++ nameBytes listed)) =
        listed.map fun entry => some (entry.ino, entryType entry.dtype, entry.name) := by
  induction listed with
  | nil => exact fun _ _ => rfl
  | cons entry rest ih =>
    intro before small
    have names : nameBytes (entry :: rest) = entry.name ++ [0] ++ nameBytes rest := by
      simp [nameBytes]
    have length : (before ++ (entry.name ++ [0])).length =
        before.length + (entry.name.length + 1) := by simp
    have later := ih (fun other member => ok other (List.mem_cons_of_mem entry member))
      (before ++ (entry.name ++ [0])) (by rw [length]; simp [names] at small; omega)
    rw [length] at later
    rw [dentsOf, List.map_cons, List.map_cons, names,
      readBack_dentOf flags before (nameBytes rest) (ok entry List.mem_cons_self) (by omega),
      ← later]
    simp

/-- What a call of `readdir` promises for the entries `listed` and the flags. -/
structure Lists (flags : Flags) (listed : List Entry) (listing : Listing) : Prop where
  result : listing.result = listed.length
  names : ∃ block, listing.ptr2 = some block ∧ block.written = nameBytes listed
  nameless : flags = 0 → listing.ptr1 = none
  dents : flags ≠ 0 → ∃ block, listing.ptr1 = some block ∧
    (block.written.map (readBack (nameBytes listed))).Perm
      (listed.map fun entry => some (entry.ino, entryType entry.dtype, entry.name)) ∧
    Arranged flags block.written ∧
    (has flags readdirDirsFirst = false → has flags readdirStatOrder = false →
      block.written.map (readBack (nameBytes listed)) =
        listed.map fun entry => some (entry.ino, entryType entry.dtype, entry.name))

theorem scandir_lists (undisturbed : Undisturbed env) (int1 : Flags)
    (ok : ∀ entry ∈ env.entries, NameOk entry)
    (small : (nameBytes (listedOf env.entries)).length ≤ 2 ^ 30)
    (sighted : Sighted (listedOf env.entries)) :
    ∃ listing, eioScandir order env int1 = some listing ∧
      Lists (askedFlags int1) (listedOf env.entries) listing := by
  obtain ⟨final, ran, names, dents⟩ := eioScandir_gathered order undisturbed int1 small
  have listedOk : ∀ entry ∈ listedOf env.entries, NameOk entry := fun entry member =>
    ok entry (List.mem_filter.mp member).1
  have back := readBack_dentsOf (askedFlags int1) (listedOf env.entries) listedOk []
    (by simpa using small)
  rw [List.nil_append, List.length_nil] at back
  have texts : ∃ block, final.names = some block ∧
      block.written = nameBytes (listedOf env.entries) := ⟨_, names.names, rfl⟩
  rw [ran, finish, dents.dents]
  by_cases plain : askedFlags int1 = 0
  · simp only [if_pos plain]
    exact ⟨_, rfl, by simp [names.dentoffs], texts, fun _ => rfl, fun set => absurd plain set⟩
  · obtain ⟨out, sorted, perm, arranged, asCame⟩ :=
      sortDents_arranged order plain dents names.dentoffs sighted
    simp only [if_neg plain, sorted, Option.bind_eq_bind, Option.bind_some]
    refine ⟨_, rfl, by simp [names.dentoffs], texts, fun set => absurd set plain, fun _ =>
      ⟨_, rfl, ?_, arranged, fun noDirs noStat => ?_⟩⟩
    · rw [← back]
      exact perm.map _
    · rw [asCame noDirs noStat, back]

/-- `.`, a file and a directory, whose types are known. -/
def smallStream : Surroundings where
  opens := true
  entries := [⟨2, 4, [46]⟩, ⟨9, 8, [98]⟩, ⟨5, 4, [97, 46, 100]⟩]
  fails := false
  cancelled _ := false
  mallocDents := true
  mallocNames := true
  reallocDents _ := true
  reallocNames _ := true

theorem scandir_lists_small :
    ∃ listing, eioScandir .little smallStream (readdirDents ||| readdirDirsFirst) = some listing ∧
      Lists (askedFlags (readdirDents ||| readdirDirsFirst)) (listedOf smallStream.entries)
        listing :=
  scandir_lists .little
    ⟨rfl, rfl, fun _ => rfl, rfl, rfl, fun _ => rfl, fun _ => rfl⟩ _
    (by unfold NameOk smallStream; decide) (by decide) (Or.inl (by decide))

end WebbitAsyncio.Guarantees.DirectoryListing
