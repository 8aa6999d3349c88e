import WebbitAsyncio.Invariants.Dispatch
import WebbitAsyncio.Source.NativeFunctions

/-!
# File names

The path operations of asyncio.c:219-359 hand libeio what `GetStringUTFChars` returns,
and `javaString` (jni-native-functions.c:38-40) hands `NewStringUTF` what the file system
returns. Both use modified UTF-8, so a name keeps its meaning exactly if it has no
surrogates; and of two paths only the first is handed over (`lossless_iff`).
-/
namespace WebbitAsyncio.Guarantees.FileNames
open WebbitAsyncio.Lib.Utf16
open WebbitAsyncio.Lib.CMemory (Memory Holds holding holding_holds)
open WebbitAsyncio.Source.Reqq (JInt)
open WebbitAsyncio.Source.EventLoop (Obj Ref)
open WebbitAsyncio.Source.EioRequest WebbitAsyncio.Source.JavaApi
open WebbitAsyncio.Source.JniSubmit (Context World JString cString onPath onTwoPaths eioPathRequest eio2path newReq)
open WebbitAsyncio.Source.NativeFunctions (javaString newStringUTF_apply)
open WebbitAsyncio.Invariants.Submission WebbitAsyncio.Invariants.SubmitShapes
open WebbitAsyncio.Invariants.Dispatch

/-- The paths of a call, in order. -/
def paths {abi : Abi} : SysCall abi → List (List Byte)
  | .stat path _ | .lstat path _ | .statvfs path _ | .readlink path _ => [path]
  | .chown path _ _ | .chmod path _ | .truncate path _ | .open_ path _ _ | .mkdir path _ => [path]
  | .mknod path _ _ | .eioScandir path _ | .utimes path _ => [path]
  | .unlink path | .rmdir path => [path]
  | .rename path newPath | .link path newPath | .symlink path newPath => [path, newPath]
  | _ => []

/-- A call of `function` whose path at index `i` is `s` hands the system call the
standard UTF-8 encoding of `s`, and `javaString` on that encoding, held at `ptr`, returns
`s`. Without memory for its buffer a request makes no system call. -/
structure Lossless (abi : Abi) (buffer : Pointer) (ctx : Context) (w : World) (function : Native)
    (args : Args (cParams function)) (i : Nat) (s : List CodeUnit) (ptr : Pointer) (m : Memory) :
    Prop where
  submits : Granted ctx (strings _ args) → SubmitsOne w (cBody abi ctx function args w)
  handed : ∀ result w' req r, cBody abi ctx function args w = some (result, w') →
    Submits w w' req r → ∃ call : SysCall abi, eioExecute (cString w'.heap) buffer r = some call ∧
      (call ≠ .noMemory → (paths call)[i]? = some (utf8 s))
  back : ∃ m', javaString ptr m = some (s, m')

/-- The first of the paths is spelt like `s`. -/
def FirstIs (s : List CodeUnit) (given : List (Option JString)) : Prop :=
  ∃ first, given.head? = some (some first) ∧ first.units = s

/-! ### From the file system -/

section
variable {s : List CodeUnit} {ptr : Pointer} {m : Memory}

/-- `javaString` understands a name exactly if it has no surrogates. -/
theorem back_iff (formed : WellFormed s) (noNul : 0 ∉ s) (held : Holds m ptr.toNat (utf8 s ++ [0])) :
    (∃ m', javaString ptr m = some (s, m')) ↔ ∀ u ∈ s, ¬ IsSurrogate u := by
  obtain ⟨m', _, ran⟩ := newStringUTF_apply (utf8_ne_zero noNul) held
  have decodes : (∃ m'', javaString ptr m = some (s, m'')) ↔ decodeModified (utf8 s) = some s := by
    rw [javaString, ran]
    cases decodeModified (utf8 s) with
    | none => simp
    | some units => simp
  rw [decodes, decode_utf8_iff formed]

end

/-! ### To the file system -/

section
variable {abi : Abi} {buffer : Pointer} {ctx : Context} {w : World} {function : Native}
  {args : Args (cParams function)} {str : Pointer → Option (List Byte)} {r : EioReq}
  {bytes newBytes : List Byte}

/-- The requests that take one path. -/
def onePath : List EioType :=
  [.open_, .utime, .truncate, .chown, .chmod, .mkdir, .readdir, .rmdir, .unlink, .readlink, .stat,
    .lstat, .statvfs, .mknod]

def twoPaths : List EioType := [.link, .symlink, .rename]

/-- Of the calls that `ALLOC` wraps, only the buffer depends on it. -/
theorem alloc_paths (call : Pointer → SysCall abi) (names : ∀ buf, paths (call buf) = [bytes]) :
    alloc buffer r call = .noMemory ∨ paths (alloc buffer r call) = [bytes] := by
  unfold alloc
  split
  next => exact .inr (names _)
  next =>
    split
    next => exact .inl rfl
    next => exact .inr (names _)

theorem execute_one (abi : Abi) (buffer : Pointer) (one : r.type ∈ onePath) (text : str r.ptr1 = some bytes) :
    ∃ call : SysCall abi, eioExecute str buffer r = some call ∧
      (call = .noMemory ∨ paths call = [bytes]) := by
  unfold eioExecute
  rw [text]
  generalize r.type = type at one
  cases type with
  | open_ | utime | truncate | chown | chmod | mkdir | readdir | rmdir | unlink | mknod =>
    exact ⟨_, rfl, .inr rfl⟩
  | stat | lstat | statvfs | readlink =>
    exact ⟨_, rfl, alloc_paths _ fun _ => rfl⟩
  | _ => simp [onePath] at one

theorem execute_two (abi : Abi) (buffer : Pointer) (two : r.type ∈ twoPaths) (text : str r.ptr1 = some bytes)
    (newText : str r.ptr2 = some newBytes) :
    ∃ call : SysCall abi, eioExecute str buffer r = some call ∧ call ≠ .noMemory ∧
      paths call = [bytes, newBytes] := by
  unfold eioExecute
  rw [text, newText]
  generalize r.type = type at two
  cases type with
  | link | symlink | rename => exact ⟨_, rfl, by simp, rfl⟩
  | _ => simp [twoPaths] at two

/-- For every path of the call the request hands over the first one. -/
def HandsFirst (abi : Abi) (buffer : Pointer) (given : List (Option JString)) (first : JString)
    (w' : World) (r : EioReq) : Prop :=
  ∃ call : SysCall abi, eioExecute (cString w'.heap) buffer r = some call ∧
    (call = .noMemory ∧ given.length = 1 ∨ paths call = given.map fun _ => modifiedUtf8 first.units)

section
variable {callback : Option Obj} {type : EioType} {fill : EioReq → EioReq} {pri : JInt}
  {result : Option Ref} {w' : World} {req : Pointer} {first : JString} {newPath : Option JString}

theorem onPath_hands (one : type ∈ onePath) (keeps : ∀ r, (fill r).type = r.type)
    (fills : Fills fill) (fresh : FreshMemory ctx (sites [some first]) w) (refs : FreshRefs ctx w)
    (ran : onPath ctx (some first) callback (fun chars => eioPathRequest ctx type chars fill pri) w =
      some (result, w'))
    (submits : Submits w w' req r) : HandsFirst abi buffer [some first] first w' r := by
  obtain ⟨_, s, data, ptr1, isPath, rfl, text⟩ :=
    content_of_submits (onPath_outcome (some first) pri fills fresh refs) ran submits
  cases isPath
  have isOne : (clamped (fill (pathReq type pri data ptr1))).type ∈ onePath := by
    simpa only [clamped, keeps, pathReq, newReq] using one
  have isText : cString w'.heap (clamped (fill (pathReq type pri data ptr1))).ptr1 =
      some (modifiedUtf8 first.units) := by
    simpa only [clamped, (fills _).2.2, pathReq] using text
  obtain ⟨call, executes, refused | handed⟩ := execute_one abi buffer isOne isText
  · exact ⟨call, executes, .inl ⟨refused, rfl⟩⟩
  · exact ⟨call, executes, .inr handed⟩

theorem onTwoPaths_hands (two : type ∈ twoPaths)
    (fresh : FreshMemory ctx (sites [some first, newPath]) w) (refs : FreshRefs ctx w)
    (ran : onTwoPaths ctx (some first) newPath callback
      (fun chars newChars => eio2path ctx type chars newChars pri) w = some (result, w'))
    (submits : Submits w w' req r) : HandsFirst abi buffer [some first, newPath] first w' r := by
  obtain ⟨_, s, data, ptr1, ptr2, isPath, rfl, text, newText⟩ :=
    content_of_submits (onTwoPaths_outcome (some first) newPath pri fresh refs) ran submits
  cases isPath
  obtain ⟨call, executes, _, handed⟩ := execute_two abi buffer
    (r := clamped { pathReq type pri data ptr1 with ptr2 := ptr2, ptr2Free := true }) two text newText
  exact ⟨call, executes, .inr handed⟩

end

/-- What a submit operation hands over, of whatever paths it was given. -/
theorem cBody_hands (abi : Abi) (buffer : Pointer) (function : Native) (args : Args (cParams function))
    (fresh : FreshMemory ctx (sites (strings _ args)) w) (refs : FreshRefs ctx w)
    {result : Option Ref} {w' : World} {req : Pointer} {first : JString}
    (ran : cBody abi ctx function args w = some (result, w')) (submits : Submits w w' req r)
    (isFirst : (strings _ args).head? = some (some first)) :
    HandsFirst abi buffer (strings _ args) first w' r := by
  cases function with
  | open_ | utime | truncate | chown | chmod | mkdir | readdir | rmdir | unlink | readlink
  | stat | lstat | statvfs | mknod =>
    obtain ⟨path, _⟩ := args
    cases isFirst
    refine onPath_hands ?_ ?_ ?_ fresh refs ran submits
    · decide
    · exact fun _ => rfl
    · exact fun _ => ⟨rfl, rfl, rfl⟩
  | link | symlink | rename =>
    obtain ⟨path, newPath, _⟩ := args
    cases isFirst
    refine onTwoPaths_hands ?_ fresh refs ran submits
    decide
  | _ => cases isFirst

/-- The second of two paths is handed over if it is spelt like the first. -/
theorem firstIs_of_handed {i : Nat} {path : JString}
    (fresh : FreshMemory ctx (sites (strings _ args)) w) (refs : FreshRefs ctx w)
    (isPath : (strings _ args)[i]? = some (some path)) (granted : Granted ctx (strings _ args))
    {ptr : Pointer} {m : Memory}
    (lossless : Lossless abi buffer ctx w function args i path.units ptr m) :
    FirstIs path.units (strings _ args) := by
  have nonempty : (strings _ args) ≠ [] := by
    intro empty
    rw [empty] at isPath
    cases isPath
  obtain ⟨path₀, others, isCons⟩ := List.exists_cons_of_ne_nil nonempty
  obtain ⟨first, isSome⟩ := Option.ne_none_iff_exists'.mp (granted.given path₀ (by simp [isCons]))
  have isFirst : (strings _ args).head? = some (some first) := by rw [isCons, isSome, List.head?_cons]
  refine ⟨first, isFirst, ?_⟩
  obtain ⟨result, w', req, r, ran, submits⟩ := lossless.submits granted
  obtain ⟨call, executes, given⟩ := lossless.handed result w' req r ran submits
  obtain ⟨call', executes', hands⟩ := cBody_hands abi buffer function args fresh refs ran
    submits isFirst
  cases executes.symm.trans executes'
  rcases hands with ⟨_, single⟩ | handed
  · have below := (List.getElem?_eq_some_iff.mp isPath).1
    have zero : i = 0 := by omega
    rw [zero, ← List.head?_eq_getElem?, isFirst] at isPath
    cases isPath
    rfl
  · have made : call ≠ .noMemory := by
      rintro rfl
      rw [isCons] at handed
      cases handed
    have same := given made
    rw [handed, List.getElem?_map, isPath, Option.map_some, Option.some.injEq] at same
    apply decode_utf8_eq
    rw [← same, decode_modifiedUtf8]

end

/-- File names keep their meaning exactly if they have no surrogates and are the first
or like the first path of the call. -/
theorem lossless_iff (abi : Abi) (buffer : Pointer) (ctx : Context) (w : World) (function : Native)
    (args : Args (cParams function)) (i : Nat) (path : JString) (ptr : Pointer) (m : Memory)
    (isPath : (strings _ args)[i]? = some (some path)) (formed : WellFormed path.units)
    (noNul : 0 ∉ path.units) (fresh : FreshMemory ctx (sites (strings _ args)) w)
    (refs : FreshRefs ctx w) (held : Holds m ptr.toNat (utf8 path.units ++ [0])) :
    Lossless abi buffer ctx w function args i path.units ptr m ↔
      (∀ u ∈ path.units, ¬ IsSurrogate u) ∧
        (Granted ctx (strings _ args) → FirstIs path.units (strings _ args)) := by
  constructor
  · intro lossless
    refine ⟨(back_iff formed noNul held).mp lossless.back, fun granted => ?_⟩
    exact firstIs_of_handed fresh refs isPath granted lossless
  · rintro ⟨free, firstIs⟩
    have outcome := cBody_outcome abi function args fresh refs
    refine ⟨submits_one outcome, ?_, (back_iff formed noNul held).mpr free⟩
    intro result w' req r ran submits
    have granted := (content_of_submits outcome ran submits).1
    obtain ⟨first, isFirst, same⟩ := firstIs granted
    obtain ⟨call, executes, hands⟩ := cBody_hands abi buffer function args fresh refs ran
      submits isFirst
    refine ⟨call, executes, fun made => ?_⟩
    rcases hands with ⟨refused, _⟩ | handed
    · exact absurd refused made
    · rw [handed, List.getElem?_map, isPath, Option.map_some, same,
        (modifiedUtf8_eq_utf8_iff formed noNul).mpr free]

/-- "é" in UTF-8 at address 16. -/
def accentMemory : Memory := holding 16 [0xC3, 0xA9, 0]

theorem lossless_accent : Lossless lp64 112 granting blank .unlink (some ⟨0, [0xE9]⟩, 0, none, ()) 0
    [0xE9] 16 accentMemory := by
  refine (lossless_iff lp64 112 granting blank .unlink (some ⟨0, [0xE9]⟩, 0, none, ()) 0 ⟨0, [0xE9]⟩ 16
    accentMemory rfl ?_ ?_ (granting_fresh _) granting_refs ?_).mpr ⟨?_, fun _ => ⟨_, rfl, rfl⟩⟩
  · show ¬ IsSurrogate 0xE9
    decide
  · show (0 : CodeUnit) ∉ [0xE9]
    decide
  · have letters : utf8 [0xE9] ++ [0] = [0xC3, 0xA9, 0] := by decide
    rw [letters]
    exact holding_holds 16 _
  · exact List.forall_mem_singleton.mpr (by decide)

/-- U+1F600 in UTF-8 at address 16. -/
def emojiMemory : Memory := holding 16 [0xF0, 0x9F, 0x98, 0x80, 0]

/-- `unlink` of U+1F600 removes a file of another name. -/
theorem emoji_lost :
    Becomes 112 blank (cBody lp64 granting .unlink (some ⟨0, [0xD83D, 0xDE00]⟩, 0, none, ()) blank)
        (some (.unlink [0xED, 0xA0, 0xBD, 0xED, 0xB8, 0x80]) : Option (SysCall lp64)) ∧
      utf8 [0xD83D, 0xDE00] = [0xF0, 0x9F, 0x98, 0x80] ∧
      Holds emojiMemory (16 : Pointer).toNat (utf8 [0xD83D, 0xDE00] ++ [0]) ∧
      javaString 16 emojiMemory = none ∧
      ¬ Lossless lp64 112 granting blank .unlink (some ⟨0, [0xD83D, 0xDE00]⟩, 0, none, ()) 0
        [0xD83D, 0xDE00] 16 emojiMemory := by
  have undefined : javaString 16 emojiMemory = none := by decide
  have encoded : utf8 [0xD83D, 0xDE00] = [0xF0, 0x9F, 0x98, 0x80] := by decide
  have fills : Fills id := fun _ => ⟨rfl, rfl, rfl⟩
  refine ⟨?_, encoded, ?_, undefined, ?_⟩
  · refine onPath_becomes _ _ fills (granting_fresh _) granting_refs fun s data ptr1 str isPath text => ?_
    cases isPath
    have bytes : modifiedUtf8 [0xD83D, 0xDE00] = [0xED, 0xA0, 0xBD, 0xED, 0xB8, 0x80] := by decide
    simp only [eioExecute, clamped, pathReq, newReq, id, text, bytes, Option.map_some]
  · rw [encoded]
    exact holding_holds 16 _
  · intro lossless
    obtain ⟨m', back⟩ := lossless.back
    cases undefined.symm.trans back

end WebbitAsyncio.Guarantees.FileNames
