import WebbitAsyncio.Lib.LinkedRing
import WebbitAsyncio.Source.Groups

/-!
# Groups and their members

On every run the requests that were added to a group and have not been finished are a
doubly linked list from the group's first pointer, the group's `size` is their number,
and the group is allocated as long as there is one. Requests are finished once, and a
group that `etp_poll` found too early is finished when its last member is.
-/
namespace WebbitAsyncio.Invariants.Membership
open WebbitAsyncio.Lib.LinkedRing
open WebbitAsyncio.Source.Groups
open WebbitAsyncio.Source.Reqq (Addr)

/-! ### The members of `eio_req` that decide -/

structure Core where
  isGroup : Bool
  size : Nat
  int1 : Int
  grp : Option Addr
  grpPrev : Option Addr
  grpNext : Option Addr
  grpFirst : Option Addr

def core (r : EioReq) : Core :=
  ⟨r.isGroup, r.size, r.int1, r.grp, r.grpPrev, r.grpNext, r.grpFirst⟩

abbrev Cores : Type := Addr → Option Core

def cores (h : Heap) : Cores := fun a => (h a).map core

section
variable {h h' : Heap} {a : Addr} {f : EioReq → EioReq}

theorem store_eq_some : store h a f = some h' ↔
    ∃ r, h a = some r ∧ h' = Function.update h a (some (f r)) := by
  rw [store, Option.map_eq_some_iff]
  exact exists_congr fun r => and_congr_right fun _ => eq_comm

theorem store_read (stored : store h a f = some h') (b : Addr) :
    h' b = (h b).map fun r => if b = a then f r else r := by
  obtain ⟨r, found, rfl⟩ := store_eq_some.mp stored
  by_cases here : b = a
  · subst here
    simp [found]
  · simp [here]

theorem storeAt_read {p : Option Addr} (stored : storeAt h p f = some h') (b : Addr) :
    h' b = (h b).map fun r => if p = some b then f r else r := by
  cases p with
  | none =>
    obtain rfl := Option.some.inj stored
    simp
  | some a =>
    rw [store_read stored b]
    simp [eq_comm]

theorem store_isSome (live : (h a).isSome) : ∃ h', store h a f = some h' := by
  obtain ⟨r, found⟩ := Option.isSome_iff_exists.mp live
  exact ⟨_, store_eq_some.mpr ⟨r, found, rfl⟩⟩

theorem storeAt_isSome {p : Option Addr} (live : ∀ a, p = some a → (h a).isSome) :
    ∃ h', storeAt h p f = some h' := by
  cases p with
  | none => exact ⟨h, rfl⟩
  | some a => exact store_isSome (live a rfl)

theorem store_live (stored : store h a f = some h') (b : Addr) : (h' b).isSome = (h b).isSome := by
  rw [store_read stored b, Option.isSome_map]

theorem storeAt_live {p : Option Addr} (stored : storeAt h p f = some h') (b : Addr) :
    (h' b).isSome = (h b).isSome := by
  rw [storeAt_read stored b, Option.isSome_map]

/-- A store that leaves alone what decides. -/
theorem store_cores (stored : store h a f = some h') (same : ∀ r, core (f r) = core r) :
    cores h' = cores h := by
  funext b
  rw [cores, store_read stored b, cores, Option.map_map]
  congr 1
  funext r
  by_cases here : b = a <;> simp [here, same]

end

/-- The core at `a` after `req` was added to `grp`, whose first member was `first`. -/
def added (grp req : Addr) (first : Option Addr) (a : Addr) (c : Core) : Core where
  isGroup := c.isGroup
  size := if a = grp then c.size + 1 else c.size
  int1 := c.int1
  grp := if a = req then some grp else c.grp
  grpPrev := if first = some a then some req else if a = req then none else c.grpPrev
  grpNext := if a = req then first else c.grpNext
  grpFirst := if a = grp then some req else c.grpFirst

theorem eioGrpAdd_cores {h h' : Heap} {grp req : Addr} (ran : eioGrpAdd h grp req = some h') :
    ∃ g, h grp = some g ∧ ∀ a, cores h' a = (cores h a).map (added grp req g.grpFirst a) := by
  obtain ⟨g, found, ran⟩ := Option.bind_eq_some_iff.mp ran
  split at ran
  next => cases ran
  next =>
    obtain ⟨h₁, first, ran⟩ := Option.bind_eq_some_iff.mp ran
    obtain ⟨h₂, second, ran⟩ := Option.bind_eq_some_iff.mp ran
    obtain ⟨h₃, third, fourth⟩ := Option.bind_eq_some_iff.mp ran
    refine ⟨g, found, fun a => ?_⟩
    rw [cores, store_read fourth, storeAt_read third, store_read second, store_read first, cores]
    cases h a with
    | none => rfl
    | some r =>
      simp only [Option.map_some, Option.some.injEq]
      unfold core added
      split_ifs <;> simp_all

theorem eioGrpAdd_isSome {h : Heap} {grp req : Addr} {g : EioReq} (found : h grp = some g)
    (notOver : g.int1 ≠ 2) (live : (h req).isSome)
    (first : ∀ a, g.grpFirst = some a → (h a).isSome) : ∃ h', eioGrpAdd h grp req = some h' := by
  rw [eioGrpAdd, found, Option.bind_some, if_neg notOver]
  obtain ⟨h₁, ran₁⟩ := store_isSome (h := h) (a := grp)
    (f := fun g => { g with groupadd := true, size := g.size + 1 }) (by rw [found]; rfl)
  have kept₁ := store_live ran₁
  obtain ⟨h₂, ran₂⟩ := store_isSome (h := h₁) (a := req)
    (f := fun r => { r with grp := some grp, grpPrev := none, grpNext := g.grpFirst })
    ((kept₁ req).trans live)
  have kept₂ := store_live ran₂
  obtain ⟨h₃, ran₃⟩ := storeAt_isSome (h := h₂) (p := g.grpFirst)
    (f := fun m => { m with grpPrev := some req })
    fun a same => (kept₂ a).trans ((kept₁ a).trans (first a same))
  have kept₃ := storeAt_live ran₃
  rw [ran₁, Option.bind_some, ran₂, Option.bind_some, ran₃, Option.bind_some]
  refine store_isSome ?_
  rw [kept₃, kept₂, kept₁, found]
  rfl

/-- The core at `a` after `req` was taken out of the list of `grp`, between `prev` and
`next`. -/
def unlinked (grp req : Addr) (prev next : Option Addr) (a : Addr) (c : Core) : Core where
  isGroup := c.isGroup
  size := c.size
  int1 := c.int1
  grp := c.grp
  grpPrev := if next = some a then prev else c.grpPrev
  grpNext := if prev = some a then next else c.grpNext
  grpFirst := if a = grp ∧ c.grpFirst = some req then next else c.grpFirst

theorem unlinkReq_cores {h h' : Heap} {grp req : Addr} {r : EioReq}
    (ran : unlinkReq h req r grp = some h') (a : Addr) :
    cores h' a = (cores h a).map (unlinked grp req r.grpPrev r.grpNext a) := by
  obtain ⟨h₁, first, ran⟩ := Option.bind_eq_some_iff.mp ran
  obtain ⟨h₂, second, third⟩ := Option.bind_eq_some_iff.mp ran
  rw [cores, store_read third, storeAt_read second, storeAt_read first, cores]
  cases h a with
  | none => rfl
  | some r =>
    simp only [Option.map_some, Option.some.injEq]
    unfold core unlinked
    split_ifs <;> simp_all

theorem unlinkReq_isSome {h : Heap} {grp req : Addr} {r : EioReq} (live : (h grp).isSome)
    (next : ∀ a, r.grpNext = some a → (h a).isSome) (prev : ∀ a, r.grpPrev = some a → (h a).isSome) :
    ∃ h', unlinkReq h req r grp = some h' := by
  rw [unlinkReq]
  obtain ⟨h₁, ran₁⟩ := storeAt_isSome (h := h) (p := r.grpNext)
    (f := fun m => { m with grpPrev := r.grpPrev }) next
  have kept₁ := storeAt_live ran₁
  obtain ⟨h₂, ran₂⟩ := storeAt_isSome (h := h₁) (p := r.grpPrev)
    (f := fun m => { m with grpNext := r.grpNext }) fun a same => (kept₁ a).trans (prev a same)
  rw [ran₁, Option.bind_some, ran₂, Option.bind_some]
  exact store_isSome ((storeAt_live ran₂ grp).trans ((kept₁ grp).trans live))

/-! ### The stack -/

/-- The group that the frame works on. -/
def onGroup : Frame → Option Addr
  | .dec grp | .tryFeed grp _ | .feeder grp _ | .fed grp _ | .check grp => some grp
  | _ => none

/-- The group that is finished after this frame, if nothing is left in it. -/
def pending : Frame → Option Addr
  | .dec grp | .tryFeed grp true | .feeder grp true | .fed grp true | .check grp => some grp
  | _ => none

def cancels : Frame → Option Addr
  | .cancel req => some req
  | _ => none

/-- The member at which the cancellation of a group is. -/
def walks : Frame → Option Addr
  | .cancelNext req => some req
  | .cancelFrom req => req
  | _ => none

/-- Frames of `etp_poll` and `eio_finish`. -/
def lower : Frame → Bool
  | .poll | .finish _ | .callback _ | .unlink _ | .destroy _ => true
  | _ => false

/-- Frames that only `etp_poll` and `eio_finish` can lead to. -/
def bottom (f : Frame) : Bool := lower f || (pending f).isSome

/-- Feeders cannot poll: below a frame of `etp_poll`, `eio_finish` or `grp_dec` there are
only frames of the first two. -/
def Shaped : List Frame → Prop
  | [] => True
  | f :: rest => (bottom f = true → ∀ g ∈ rest, lower g = true) ∧ Shaped rest

def owners (stack : List Frame) : List Addr := stack.filterMap Frame.req

/-! ### The invariant -/

/-- Where a request is that is not freed: with the workers, in the result queue, or in a
frame of `eio_finish`. A group may also wait for its members. -/
def places (out done : List Addr) (stack : List Frame) : List Addr := out ++ done ++ owners stack

def IsGroup (c : Cores) (g : Addr) : Prop := ∃ q, c g = some q ∧ q.isGroup = true

/-- The request was added to the group and has not been taken out again. -/
def InGroup (c : Cores) (stack : List Frame) (a g : Addr) : Prop :=
  ∃ q, c a = some q ∧ q.grp = some g ∧ .destroy a ∉ stack

/-- The links of the list of `g`, with the null pointer as its sentinel. -/
def nextOf (c : Cores) (g : Addr) : Option Addr → Option Addr
  | none => (c g).bind Core.grpFirst
  | some a => (c a).bind Core.grpNext

def prevOf (c : Cores) : Option Addr → Option Addr
  | none => none
  | some a => (c a).bind Core.grpPrev

def Listed (c : Cores) (g : Addr) (l : List Addr) : Prop :=
  Ring (fun x => x ≠ none) (nextOf c g) (prevOf c) none (l.map some)

structure Grouped (c : Cores) (out done : List Addr) (stack : List Frame)
    (members : Addr → List Addr) : Prop where
  nodup : (places out done stack).Nodup
  live : ∀ a ∈ places out done stack, (c a).isSome
  known : ∀ a q, c a = some q → a ∈ places out done stack ∨ q.isGroup = true ∧ q.int1 ≠ 0
  plain : ∀ a ∈ out, ∀ q, c a = some q → q.isGroup = false
  unseen : ∀ a ∈ done, ∀ q, c a = some q → q.isGroup = true → q.int1 = 0
  int1 : ∀ a q, c a = some q → q.int1 = 0 ∨ q.int1 = 1
  distinct : ∀ g, (members g).Nodup
  member : ∀ g a, a ∈ members g ↔ InGroup c stack a g
  parent : ∀ a g, InGroup c stack a g → IsGroup c g ∧ g ∉ owners stack
  listed : ∀ g, IsGroup c g → Listed c g (members g)
  size : ∀ g q, c g = some q → q.isGroup = true →
    q.size = (members g).length + if .dec g ∈ stack then 1 else 0
  frames : ∀ f ∈ stack, ∀ g, onGroup f = some g → IsGroup c g ∧ g ∉ owners stack
  childless : ∀ a q, c a = some q → q.isGroup = false → q.grpFirst = none
  cancelled : ∀ f ∈ stack, ∀ a, cancels f = some a → (c a).isSome
  walked : ∀ f ∈ stack, ∀ a, walks f = some a → ∃ g, a ∈ members g
  /-- A group that waits has members, or is just about to be finished. -/
  waiting : ∀ g q, c g = some q → q.isGroup = true → q.int1 ≠ 0 → g ∉ owners stack →
    members g = [] → ∃ f ∈ stack, pending f = some g
  shape : Shaped stack

section
variable {c c' : Cores} {out done : List Addr} {stack stack' rest : List Frame}
  {members : Addr → List Addr} {f : Frame} {req : Addr}

theorem lower_onGroup (low : lower f = true) : onGroup f = none := by
  cases f <;> first | rfl | cases low

theorem lower_cancels (low : lower f = true) : cancels f = none := by
  cases f <;> first | rfl | cases low

theorem lower_walks (low : lower f = true) : walks f = none := by
  cases f <;> first | rfl | cases low

theorem lower_notDec (low : ∀ f ∈ stack, lower f = true) (g : Addr) : .dec g ∉ stack :=
  fun inside => absurd (low _ inside) Bool.false_ne_true

theorem shaped_lower (low : ∀ f ∈ stack, lower f = true) : Shaped stack := by
  induction stack with
  | nil => trivial
  | cons f rest ih =>
    exact ⟨fun _ g inside => low g (List.mem_cons_of_mem f inside),
      ih fun g inside => low g (List.mem_cons_of_mem f inside)⟩

/-- The stack changes above what it says about requests being finished. -/
theorem Grouped.restack (inv : Grouped c out done stack members)
    (same : owners stack' = owners stack)
    (destroys : ∀ a, .destroy a ∈ stack' ↔ .destroy a ∈ stack)
    (decs : ∀ g, .dec g ∈ stack' ↔ .dec g ∈ stack)
    (frames : ∀ f ∈ stack', f ∈ stack ∨
      (∀ g, onGroup f = some g → IsGroup c g ∧ g ∉ owners stack) ∧
      (∀ a, cancels f = some a → (c a).isSome) ∧ ∀ a, walks f = some a → ∃ g, a ∈ members g)
    (waits : ∀ g q, c g = some q → q.size = 0 → q.int1 ≠ 0 → (∃ f ∈ stack, pending f = some g) →
      ∃ f ∈ stack', pending f = some g)
    (shape : Shaped stack') : Grouped c out done stack' members := by
  have joined : ∀ a g, InGroup c stack' a g ↔ InGroup c stack a g := by
    intro a g
    simp only [InGroup, destroys]
  refine ⟨?_, ?_, ?_, inv.plain, inv.unseen, inv.int1, inv.distinct, ?_, ?_, inv.listed, ?_, ?_,
    inv.childless, ?_, ?_, ?_, shape⟩
  · rw [places, same]
    exact inv.nodup
  · rw [places, same]
    exact inv.live
  · rw [places, same]
    exact inv.known
  · intro g a
    rw [joined]
    exact inv.member g a
  · intro a g joins
    rw [same]
    exact inv.parent a g ((joined a g).mp joins)
  · intro g q found isGroup
    rw [inv.size g q found isGroup]
    simp only [decs]
  · intro f inside g on
    rw [same]
    rcases frames f inside with old | new
    · exact inv.frames f old g on
    · exact new.1 g on
  · intro f inside a on
    rcases frames f inside with old | new
    · exact inv.cancelled f old a on
    · exact new.2.1 a on
  · intro f inside a on
    rcases frames f inside with old | new
    · exact inv.walked f old a on
    · exact new.2.2 a on
  · intro g q found isGroup delayed outside none
    rw [same] at outside
    have old := inv.waiting g q found isGroup delayed outside none
    have size := inv.size g q found isGroup
    by_cases zero : q.size = 0
    · exact waits g q found zero delayed old
    · -- the group still counts the request that is being taken out
      rw [none, List.length_nil, Nat.zero_add] at size
      split at size
      next inside => exact ⟨_, (decs g).mpr inside, rfl⟩
      next => exact absurd size zero

theorem owners_lower {g : Addr} : g ∈ owners stack ↔ ∃ f ∈ stack, f.req = some g :=
  List.mem_filterMap

theorem shaped_cons (low : ∀ f ∈ rest, lower f = true) : Shaped (f :: rest) :=
  ⟨fun _ => low, shaped_lower low⟩

theorem lower_notPending (low : lower f = true) : pending f = none := by
  cases f <;> first | rfl | cases low

theorem lower_pending (low : ∀ f ∈ stack, lower f = true) (g : Addr) :
    ¬ ∃ f ∈ stack, pending f = some g := by
  rintro ⟨f, inside, on⟩
  rw [lower_notPending (low f inside)] at on
  cases on

theorem Grouped.one_group (inv : Grouped c out done stack members) {a g g' : Addr}
    (here : a ∈ members g) (there : a ∈ members g') : g = g' := by
  obtain ⟨q, found, inG, -⟩ := (inv.member g a).mp here
  obtain ⟨q', found', inG', -⟩ := (inv.member g' a).mp there
  rw [found, Option.some.injEq] at found'
  subst found'
  exact Option.some.inj (inG.symm.trans inG')

/-- A group whose count is down to nothing has no members left. -/
theorem Grouped.empty (inv : Grouped c out done stack members) {g : Addr} {q : Core}
    (found : c g = some q) (none : q.isGroup = true → q.size = 0) (a : Addr) :
    ¬ InGroup c stack a g := by
  intro joins
  obtain ⟨⟨q', found', isGroup⟩, -⟩ := inv.parent a g joins
  rw [found, Option.some.injEq] at found'
  subst found'
  have size := inv.size g q found isGroup
  rw [none isGroup] at size
  have zero : (members g).length = 0 := by omega
  have inside := (inv.member g a).mpr joins
  rw [List.length_eq_zero_iff.mp zero] at inside
  cases inside

/-- The neighbours of a member belong to the same group. -/
theorem Grouped.neighbour (inv : Grouped c out done stack members) {r : Core} {a g : Addr}
    (found : c req = some r) (inside : req ∈ members g) (isGroup : IsGroup c g)
    (beside : r.grpPrev = some a ∨ r.grpNext = some a) : a ∈ members g := by
  have listed := inv.listed g isGroup
  have member : some req ∈ (members g).map some := List.mem_map_of_mem inside
  rcases beside with before | after
  · have prevMem := listed.prev_mem member (Option.some_ne_none req)
    simpa [prevOf, found, before] using prevMem
  · have nextMem := listed.next_mem (List.mem_cons_of_mem none member)
    simpa [nextOf, found, after] using nextMem

end

end WebbitAsyncio.Invariants.Membership
