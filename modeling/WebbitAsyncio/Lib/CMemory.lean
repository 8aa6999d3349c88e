import WebbitAsyncio.Lib.Allocation
import WebbitAsyncio.Lib.Utf16

/-!
# Memory as C sees it, byte by byte

Bytes at natural-number addresses, of which those in live extents may be accessed; an
access anywhere else is undefined behaviour. Every access is logged. The functions of
the C library that walk over memory are recursions over the number of bytes still to
go, each with the bytes it leaves and the addresses it touches.
-/
namespace WebbitAsyncio.Lib.CMemory
open WebbitAsyncio.Lib.Utf16 (Byte)
open WebbitAsyncio.Lib.Allocation

structure Extent where
  base : Nat
  size : Nat
  deriving DecidableEq, Repr

/-- The `n` addresses from `base` on. -/
def Within (base n a : Nat) : Prop := base ≤ a ∧ a < base + n

instance (base n a : Nat) : Decidable (Within base n a) := inferInstanceAs (Decidable (_ ∧ _))

structure Memory where
  bytes : Nat → Byte
  live : List Extent
  /-- The addresses read, the latest first. -/
  reads : List Nat
  writes : List Nat

def Live (m : Memory) (a : Nat) : Prop := ∃ e ∈ m.live, Within e.base e.size a

instance (m : Memory) (a : Nat) : Decidable (Live m a) :=
  inferInstanceAs (Decidable (∃ e ∈ m.live, Within e.base e.size a))

/-- C code; `none` is undefined behaviour. -/
abbrev Program : Type → Type := StateT Memory Option

def load (a : Nat) : Program Byte := do
  let m ← get
  if Live m a then
    set { m with reads := a :: m.reads }
    return m.bytes a
  else failure

def put (a : Nat) (b : Byte) : Program Unit := do
  let m ← get
  if Live m a then
    set { m with bytes := Function.update m.bytes a b, writes := a :: m.writes }
  else failure

/-- `memcpy`, on ranges that do not overlap. -/
def copy (dest src : Nat) : Nat → Program Unit
  | 0 => return
  | n + 1 => do
    let b ← load src
    put dest b
    copy (dest + 1) (src + 1) n

/-- `memset`. -/
def fill (a : Nat) (b : Byte) : Nat → Program Unit
  | 0 => return
  | n + 1 => do
    put a b
    fill (a + 1) b n

/-- After the NUL the rest of the `n` bytes is filled with zeros. -/
def strncpy (dest src : Nat) : Nat → Program Unit
  | 0 => return
  | n + 1 => do
    let b ← load src
    put dest b
    if b = 0 then fill (dest + 1) 0 n else strncpy (dest + 1) (src + 1) n

/-- Store one byte after the other. -/
def storeAll (a : Nat) : List Byte → Program Unit
  | [] => return
  | b :: rest => do
    put a b
    storeAll (a + 1) rest

/-- The bytes before the NUL, of which `fuel` may be looked at. -/
def scan (a : Nat) : Nat → Program (List Byte)
  | 0 => failure
  | fuel + 1 => do
    let b ← load a
    if b = 0 then return [] else
      let rest ← scan (a + 1) fuel
      return b :: rest

/-- Nothing is live from here on. -/
def reach (m : Memory) : Nat := (m.live.map fun e => e.base + e.size).foldr max 0

/-- What a function that takes a C string reads. -/
def cString (a : Nat) : Program (List Byte) := do
  let m ← get
  scan a (reach m + 1)

def malloc (answer : Option Nat) (n : Nat) : Program Nat := do
  match answer with
  | none => return 0
  | some a =>
    modify fun m => { m with live := ⟨a, n⟩ :: m.live }
    return a

def free (a : Nat) : Program Unit := do
  let m ← get
  if a = 0 then return
  else if ∃ e ∈ m.live, e.base = a then
    set { m with live := m.live.filter fun e => e.base ≠ a }
  else failure

/-! ### Blocks -/

/-- The memory with one block more. -/
def allocated (a n : Nat) (m : Memory) : Memory := { m with live := ⟨a, n⟩ :: m.live }

theorem malloc_apply (a n : Nat) (m : Memory) : malloc (some a) n m = some (a, allocated a n m) := rfl

theorem free_apply {a : Nat} {m : Memory} (block : ∃ e ∈ m.live, e.base = a) :
    ∃ m', free a m = some ((), m') ∧ m'.reads = m.reads ∧ m'.writes = m.writes := by
  simp only [free, bind_apply, get_apply, Option.bind_some]
  by_cases null : a = 0
  · exact ⟨m, by rw [if_pos null]; rfl, rfl, rfl⟩
  · refine ⟨{ m with live := m.live.filter fun e => e.base ≠ a }, ?_, rfl, rfl⟩
    rw [if_neg null, if_pos block]
    rfl

theorem malloc_refused (n : Nat) (m : Memory) : malloc none n m = some (0, m) := rfl

/-! ### One access -/

section
variable {m m' : Memory} {a : Nat} {b : Byte}

theorem load_apply (live : Live m a) :
    load a m = some (m.bytes a, { m with reads := a :: m.reads }) := by
  simp only [load, bind_apply, get_apply, Option.bind_some, if_pos live]
  rfl

theorem put_apply (b : Byte) (live : Live m a) :
    put a b m = some ((), { m with bytes := Function.update m.bytes a b, writes := a :: m.writes }) := by
  simp only [put, bind_apply, get_apply, Option.bind_some, if_pos live]
  rfl

theorem put_none (b : Byte) (dead : ¬ Live m a) : put a b m = none := by
  simp only [put, bind_apply, get_apply, Option.bind_some, if_neg dead, failure_apply]

/-- An address that is live is below `reach`. -/
theorem lt_reach (live : Live m a) : a < reach m := by
  obtain ⟨e, member, _, below⟩ := live
  unfold reach
  generalize m.live = extents at member ⊢
  induction extents with
  | nil => cases member
  | cons head rest ih =>
    rw [List.map_cons, List.foldr_cons]
    rcases List.mem_cons.mp member with rfl | inRest
    · omega
    · have bound := ih inRest
      omega

end

/-! ### What a piece of code touches -/

/-- Between `m` and `m'` only addresses of the one kind have been read and only
those of the other written. -/
structure Touches (read written : Nat → Prop) (m m' : Memory) : Prop where
  live : m'.live = m.live
  reads : ∃ new, m'.reads = new ++ m.reads ∧ ∀ a ∈ new, read a
  writes : ∃ new, m'.writes = new ++ m.writes ∧ ∀ a ∈ new, written a
  bytes : ∀ a, ¬ written a → m'.bytes a = m.bytes a

section
variable {read written read' written' : Nat → Prop} {m m' m'' : Memory}

theorem Touches.refl (read written : Nat → Prop) (m : Memory) : Touches read written m m :=
  ⟨rfl, ⟨[], rfl, by simp⟩, ⟨[], rfl, by simp⟩, fun _ _ => rfl⟩

/-- Two logs after one another. -/
theorem append_logs {log log' log'' : List Nat} {kind : Nat → Prop}
    (first : ∃ new, log' = new ++ log ∧ ∀ a ∈ new, kind a)
    (second : ∃ new, log'' = new ++ log' ∧ ∀ a ∈ new, kind a) :
    ∃ new, log'' = new ++ log ∧ ∀ a ∈ new, kind a := by
  obtain ⟨new, rfl, all⟩ := first
  obtain ⟨newer, rfl, all'⟩ := second
  refine ⟨newer ++ new, by rw [List.append_assoc], ?_⟩
  intro a member
  rcases List.mem_append.mp member with inNewer | inNew
  · exact all' a inNewer
  · exact all a inNew

theorem Touches.trans (first : Touches read written m m') (second : Touches read written m' m'') :
    Touches read written m m'' := by
  constructor
  · rw [second.live, first.live]
  · exact append_logs first.reads second.reads
  · exact append_logs first.writes second.writes
  · intro a outside
    rw [second.bytes a outside, first.bytes a outside]

theorem Touches.mono (touches : Touches read written m m') (more : ∀ a, read a → read' a)
    (more' : ∀ a, written a → written' a) : Touches read' written' m m' := by
  obtain ⟨reads, isReads, all⟩ := touches.reads
  obtain ⟨writes, isWrites, all'⟩ := touches.writes
  exact ⟨touches.live, ⟨reads, isReads, fun a member => more a (all a member)⟩,
    ⟨writes, isWrites, fun a member => more' a (all' a member)⟩,
    fun a outside => touches.bytes a fun inside => outside (more' a inside)⟩

theorem Touches.isLive (touches : Touches read written m m') {a : Nat} : Live m' a ↔ Live m a := by
  unfold Live
  rw [touches.live]

theorem touches_load (read written : Nat → Prop) (a : Nat) (m : Memory) (here : read a) :
    Touches read written m { m with reads := a :: m.reads } :=
  ⟨rfl, ⟨[a], rfl, by simpa using here⟩, ⟨[], rfl, by simp⟩, fun _ _ => rfl⟩

theorem touches_put (read written : Nat → Prop) (a : Nat) (b : Byte) (m : Memory) (here : written a) :
    Touches read written m { m with bytes := Function.update m.bytes a b, writes := a :: m.writes } := by
  refine ⟨rfl, ⟨[], rfl, by simp⟩, ⟨[a], rfl, by simpa using here⟩, ?_⟩
  intro c outside
  have different : c ≠ a := by
    rintro rfl
    exact outside here
  exact Function.update_of_ne different ..

end

/-! ### The loops -/

theorem within_first (a n : Nat) : Within a (n + 1) a := ⟨by omega, by omega⟩

theorem within_rest {a n c : Nat} (inside : Within (a + 1) n c) : Within a (n + 1) c := by
  unfold Within at *
  omega

theorem within_succ {a n c : Nat} (inside : Within a (n + 1) c) : c = a ∨ Within (a + 1) n c := by
  unfold Within at *
  omega

theorem not_within_zero {a c : Nat} (inside : Within a 0 c) : False := by
  unfold Within at inside
  omega

section
variable {read written : Nat → Prop}

theorem fill_apply (read : Nat → Prop) (b : Byte) (n a : Nat) (m : Memory) (live : ∀ c, Within a n c → Live m c) :
    ∃ m', fill a b n m = some ((), m') ∧ Touches read (Within a n) m m' ∧
      ∀ c, Within a n c → m'.bytes c = b := by
  induction n generalizing a m with
  | zero => exact ⟨m, rfl, .refl _ _ m, fun c inside => (not_within_zero inside).elim⟩
  | succ n ih =>
    have first := put_apply b (live a (within_first a n))
    have one := touches_put read (Within a (n + 1)) a b m (within_first a n)
    obtain ⟨m', ran, touches, filled⟩ :=
      ih (a + 1) _ fun c inside => one.isLive.mpr (live c (within_rest inside))
    refine ⟨m', ?_, one.trans (touches.mono (fun _ => id) fun _ => within_rest), ?_⟩
    · simp only [fill, bind_apply, first, Option.bind_some, ran]
    · intro c inside
      rcases within_succ inside with rfl | later
      · rw [touches.bytes c fun before => absurd before.1 (by omega)]
        exact Function.update_self ..
      · exact filled c later

theorem copy_apply (n dest src : Nat) (m : Memory) (source : ∀ c, Within src n c → Live m c)
    (target : ∀ c, Within dest n c → Live m c) (apart : ∀ c, Within src n c → ¬ Within dest n c) :
    ∃ m', copy dest src n m = some ((), m') ∧ Touches (Within src n) (Within dest n) m m' ∧
      ∀ i, i < n → m'.bytes (dest + i) = m.bytes (src + i) := by
  induction n generalizing dest src m with
  | zero => exact ⟨m, rfl, .refl _ _ m, fun i below => absurd below (Nat.not_lt_zero i)⟩
  | succ n ih =>
    have got := load_apply (source src (within_first src n))
    have one := touches_load (Within src (n + 1)) (Within dest (n + 1)) src m
      (within_first src n)
    have stored := put_apply (m.bytes src) (one.isLive.mpr (target dest (within_first dest n)))
    have two := one.trans (touches_put _ _ dest (m.bytes src) _ (within_first dest n))
    obtain ⟨m', ran, touches, copied⟩ := ih (dest + 1) (src + 1) _
      (fun c inside => two.isLive.mpr (source c (within_rest inside)))
      (fun c inside => two.isLive.mpr (target c (within_rest inside)))
      (fun c inside inside' => apart c (within_rest inside) (within_rest inside'))
    refine ⟨m', ?_, two.trans (touches.mono (fun _ => within_rest) fun _ => within_rest), ?_⟩
    · simp only [copy, bind_apply, got, Option.bind_some, stored, ran]
    · intro i below
      cases i with
      | zero =>
        rw [Nat.add_zero, touches.bytes dest fun before => absurd before.1 (by omega)]
        exact Function.update_self ..
      | succ i =>
        have later := copied i (by omega)
        have outside : ¬ Within dest (n + 1) (src + (i + 1)) := apart _ ⟨by omega, by omega⟩
        rw [Nat.add_comm i 1, ← Nat.add_assoc, ← Nat.add_assoc, later]
        rw [Nat.add_comm i 1, ← Nat.add_assoc] at outside
        exact two.bytes _ outside

end

/-- A run of `storeAll` has written every byte of its range, and no other. -/
theorem storeAll_ran (l : List Byte) (a : Nat) (m m' : Memory)
    (ran : storeAll a l m = some ((), m')) :
    m'.live = m.live ∧ (∃ new, m'.writes = new ++ m.writes ∧ ∀ c, c ∈ new ↔ Within a l.length c) ∧
      ∀ c, ¬ Within a l.length c → m'.bytes c = m.bytes c := by
  induction l generalizing a m with
  | nil =>
    cases ran
    refine ⟨rfl, ⟨[], rfl, fun c => ?_⟩, fun _ _ => rfl⟩
    simp only [List.not_mem_nil, false_iff]
    exact not_within_zero
  | cons b rest ih =>
    by_cases live : Live m a
    · simp only [storeAll, bind_apply, put_apply b live, Option.bind_some] at ran
      obtain ⟨same, ⟨new, isNew, all⟩, bytes⟩ := ih (a + 1) _ ran
      refine ⟨same, ⟨new ++ [a], ?_, ?_⟩, ?_⟩
      · rw [isNew, List.append_assoc]
        rfl
      · intro c
        rw [List.mem_append, all, List.mem_singleton, List.length_cons]
        unfold Within
        omega
      · intro c outside
        rw [bytes c fun inside => outside (within_rest inside)]
        have different : c ≠ a := by
          rintro rfl
          exact outside (within_first c _)
        exact Function.update_of_ne different ..
    · simp only [storeAll, bind_apply, put_none b live, Option.bind_none] at ran
      cases ran

/-! ### Strings -/

/-- The bytes from `a` on may be accessed and are these. -/
def Holds (m : Memory) (a : Nat) (l : List Byte) : Prop :=
  ∀ i b, l[i]? = some b → Live m (a + i) ∧ m.bytes (a + i) = b

section
variable {m m' : Memory} {a : Nat} {b : Byte} {l l' : List Byte}

theorem holds_nil (m : Memory) (a : Nat) : Holds m a [] := fun _ _ found => by cases found

theorem holds_cons : Holds m a (b :: l) ↔ (Live m a ∧ m.bytes a = b) ∧ Holds m (a + 1) l := by
  constructor
  · intro holds
    refine ⟨holds 0 b rfl, fun i c found => ?_⟩
    have later := holds (i + 1) c found
    rwa [Nat.add_comm i 1, ← Nat.add_assoc] at later
  · rintro ⟨head, tail⟩ i c found
    cases i with
    | zero =>
      cases found
      exact head
    | succ i =>
      have later := tail i c found
      rwa [Nat.add_assoc, Nat.add_comm 1 i] at later

theorem Holds.isLive (holds : Holds m a l) {c : Nat} (inside : Within a l.length c) : Live m c := by
  have below : c - a < l.length := by
    unfold Within at inside
    omega
  have live := (holds _ _ (List.getElem?_eq_getElem below)).1
  rwa [Nat.add_sub_cancel' inside.1] at live

/-- A new block leaves the others. -/
theorem Holds.allocated (holds : Holds m a l) (base n : Nat) : Holds (allocated base n m) a l := by
  intro i b found
  obtain ⟨⟨e, member, inside⟩, same⟩ := holds i b found
  exact ⟨⟨e, List.mem_cons_of_mem _ member, inside⟩, same⟩

theorem Holds.take (holds : Holds m a (l ++ l')) : Holds m a l := by
  intro i c found
  apply holds i c
  rw [List.getElem?_append_left (List.getElem?_eq_some_iff.mp found).1, found]

theorem Holds.concat (holds : Holds m a l) (live : Live m (a + l.length))
    (last : m.bytes (a + l.length) = b) : Holds m a (l ++ [b]) := by
  intro i c found
  rcases Nat.lt_trichotomy i l.length with below | same | above
  · rw [List.getElem?_append_left below] at found
    exact holds i c found
  · subst same
    rw [List.getElem?_concat_length] at found
    cases found
    exact ⟨live, last⟩
  · rw [List.getElem?_eq_none (by simp; omega)] at found
    cases found

theorem Holds.keep {read written : Nat → Prop} (holds : Holds m a l)
    (touches : Touches read written m m') (apart : ∀ c, Within a l.length c → ¬ written c) :
    Holds m' a l := by
  intro i c found
  obtain ⟨live, same⟩ := holds i c found
  have below := (List.getElem?_eq_some_iff.mp found).1
  refine ⟨touches.isLive.mpr live, ?_⟩
  rw [touches.bytes _ (apart _ ⟨by omega, by omega⟩), same]

/-- One run of equal bytes. -/
theorem holds_replicate {n : Nat} (live : ∀ c, Within a n c → Live m c)
    (same : ∀ c, Within a n c → m.bytes c = b) : Holds m a (List.replicate n b) := by
  intro i c found
  simp only [List.getElem?_replicate, Option.some.injEq, Option.ite_none_right_eq_some] at found
  obtain ⟨below, isB⟩ := found
  have inside : Within a n (a + i) := ⟨by omega, by omega⟩
  exact ⟨live _ inside, (same _ inside).trans isB⟩

/-- Memory with one block, which holds these bytes. -/
def holding (a : Nat) (l : List Byte) : Memory := ⟨fun c => l.getD (c - a) 0, [⟨a, l.length⟩], [], []⟩

theorem holding_holds (a : Nat) (l : List Byte) : Holds (holding a l) a l := by
  intro i b found
  have below := (List.getElem?_eq_some_iff.mp found).1
  refine ⟨⟨⟨a, l.length⟩, List.mem_singleton_self _, Nat.le_add_right .., Nat.add_lt_add_left below a⟩, ?_⟩
  simp only [holding, Nat.add_sub_cancel_left, List.getD_eq_getElem?_getD, found, Option.getD_some]

theorem scan_apply (l : List Byte) (a fuel : Nat) (m : Memory) (noNul : 0 ∉ l)
    (enough : l.length < fuel) (holds : Holds m a (l ++ [0])) :
    ∃ m', scan a fuel m = some (l, m') ∧
      Touches (Within a (l.length + 1)) (fun _ => False) m m' := by
  induction l generalizing a fuel m with
  | nil =>
    obtain ⟨⟨live, zero⟩, _⟩ := holds_cons.mp holds
    cases fuel with
    | zero => exact absurd enough (Nat.not_lt_zero _)
    | succ fuel =>
      refine ⟨_, ?_, touches_load _ _ a m (within_first a 0)⟩
      simp only [scan, bind_apply, load_apply live, Option.bind_some, zero, if_true, pure_apply]
  | cons b rest ih =>
    obtain ⟨⟨live, isB⟩, tail⟩ := holds_cons.mp holds
    cases fuel with
    | zero => exact absurd enough (Nat.not_lt_zero _)
    | succ fuel =>
      have nonzero : b ≠ 0 := fun zero => noNul (by simp [zero])
      have one := touches_load (Within a ((b :: rest).length + 1)) (fun _ => False) a m
        (within_first a _)
      obtain ⟨m', ran, touches⟩ := ih (a + 1) fuel _ (fun member => noNul (List.mem_cons_of_mem _ member))
        (by simpa using enough) (tail.keep one fun _ _ => id)
      refine ⟨m', ?_, one.trans (touches.mono (fun _ => within_rest) fun _ => id)⟩
      simp only [scan, bind_apply, load_apply live, Option.bind_some, isB, if_neg nonzero, ran,
        pure_apply]

/-- The bytes before the NUL. -/
theorem cString_apply (noNul : 0 ∉ l) (holds : Holds m a (l ++ [0])) :
    ∃ m', cString a m = some (l, m') ∧
      Touches (Within a (l.length + 1)) (fun _ => False) m m' := by
  have last : (l ++ [0])[l.length]? = some 0 := by simp
  have bound := lt_reach (holds l.length 0 last).1
  obtain ⟨m', ran, touches⟩ := scan_apply l a (reach m + 1) m noNul (by omega) holds
  refine ⟨m', ?_, touches⟩
  simp only [cString, bind_apply, get_apply, Option.bind_some, ran]

/-- What `strncpy` leaves: the string, cut off or filled up. -/
def padded (l : List Byte) (n : Nat) : List Byte := l.take n ++ List.replicate (n - l.length) 0

theorem padded_length (l : List Byte) (n : Nat) : (padded l n).length = n := by
  simp only [padded, List.length_append, List.length_take, List.length_replicate]
  omega

/-- With a NUL behind it, it is a C string in any case. -/
theorem padded_concat (l : List Byte) (n : Nat) :
    padded l n ++ [0] = (l.take n ++ [0]) ++ List.replicate (n - l.length) 0 := by
  have turned : List.replicate (n - l.length) (0 : Byte) ++ [0] = [0] ++ List.replicate (n - l.length) 0 := by
    rw [← List.replicate_succ', List.replicate_succ, List.singleton_append]
  rw [padded, List.append_assoc, turned, List.append_assoc]

theorem strncpy_apply (n : Nat) (l : List Byte) (dest src : Nat) (m : Memory) (noNul : 0 ∉ l)
    (source : Holds m src ((l ++ [0]).take n)) (target : ∀ c, Within dest n c → Live m c)
    (apart : ∀ c, Within src (min n (l.length + 1)) c → ¬ Within dest n c) :
    ∃ m', strncpy dest src n m = some ((), m') ∧
      Touches (Within src (min n (l.length + 1))) (Within dest n) m m' ∧
      Holds m' dest (padded l n) := by
  induction n generalizing l dest src m with
  | zero => exact ⟨m, rfl, .refl _ _ m, by simpa [padded] using holds_nil m dest⟩
  | succ n ih =>
    have here : Within src (min (n + 1) (l.length + 1)) src := ⟨by omega, by omega⟩
    cases l with
    | nil =>
      obtain ⟨⟨live, zero⟩, _⟩ := holds_cons.mp source
      have one := touches_load (Within src (min (n + 1) (([] : List Byte).length + 1)))
        (Within dest (n + 1)) src m here
      have stored := put_apply 0 (one.isLive.mpr (target dest (within_first dest n)))
      have two := one.trans (touches_put _ _ dest 0 _ (within_first dest n))
      obtain ⟨m', ran, touches, filled⟩ := fill_apply _ 0 n (dest + 1) _ fun c inside =>
        two.isLive.mpr (target c (within_rest inside))
      have all := two.trans (touches.mono (fun _ => id) fun _ => within_rest)
      refine ⟨m', ?_, all, ?_⟩
      · simp only [strncpy, bind_apply, load_apply live, Option.bind_some, zero, if_true, stored, ran]
      · apply holds_replicate
        · exact fun c inside => all.isLive.mpr (target c inside)
        · intro c inside
          rcases within_succ inside with rfl | later
          · rw [touches.bytes c fun before => absurd before.1 (by omega)]
            exact Function.update_self ..
          · exact filled c later
    | cons b rest =>
      obtain ⟨⟨live, isB⟩, tail⟩ := holds_cons.mp source
      have nonzero : b ≠ 0 := fun zero => noNul (by simp [zero])
      have one := touches_load (Within src (min (n + 1) ((b :: rest).length + 1))) (Within dest (n + 1))
        src m here
      have stored := put_apply b (one.isLive.mpr (target dest (within_first dest n)))
      have two := one.trans (touches_put _ _ dest b _ (within_first dest n))
      have lower : ∀ c, Within (src + 1) (min n (rest.length + 1)) c →
          Within src (min (n + 1) ((b :: rest).length + 1)) c := by
        intro c inside
        simp only [Within, List.length_cons] at *
        omega
      obtain ⟨m', ran, touches, left⟩ := ih rest (dest + 1) (src + 1) _
        (fun member => noNul (List.mem_cons_of_mem _ member))
        (tail.keep two fun c inside => apart c (lower c (by simpa using inside)))
        (fun c inside => two.isLive.mpr (target c (within_rest inside)))
        (fun c inside inside' => apart c (lower c inside) (within_rest inside'))
      refine ⟨m', ?_, two.trans (touches.mono lower fun _ => within_rest), ?_⟩
      · simp only [strncpy, bind_apply, load_apply live, Option.bind_some, isB, if_neg nonzero, stored,
          ran]
      · have head : Live m' dest ∧ m'.bytes dest = b := by
          refine ⟨touches.isLive.mpr (two.isLive.mpr (target dest (within_first dest n))), ?_⟩
          rw [touches.bytes dest fun before => absurd before.1 (by omega)]
          exact Function.update_self ..
        have both := holds_cons.mpr ⟨head, left⟩
        simpa [padded] using both

end

end WebbitAsyncio.Lib.CMemory
