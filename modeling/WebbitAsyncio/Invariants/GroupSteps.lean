import WebbitAsyncio.Invariants.Membership

/-!
# The groups of a run

Each step of the thread keeps the members of every group: what `eio_finish`, `grp_dec`,
`eio_grp_add`, `etp_poll` and the workers do, one lemma for each, then all steps and runs.
-/
namespace WebbitAsyncio.Invariants.GroupSteps
open WebbitAsyncio.Lib.TransitionSystem WebbitAsyncio.Lib.LinkedRing
open WebbitAsyncio.Source.Groups WebbitAsyncio.Invariants.Membership
open WebbitAsyncio.Source.Reqq (Addr)

variable {c c' : Cores} {out done : List Addr} {stack stack' rest : List Frame}
  {members : Addr → List Addr} {f : Frame} {req : Addr}

/-! ### Finishing a request -/

/-- `eio_finish` is called for `req`. -/
theorem begin_grouped (inv : Grouped c out done stack members)
    {done' : List Addr} (low : ∀ f ∈ stack', lower f = true)
    (same : owners stack' = owners stack)
    (destroys : ∀ a, .destroy a ∈ stack' ↔ .destroy a ∈ stack)
    (noDec : ∀ g, .dec g ∉ stack)
    (nodup : (places out done' (.finish req :: stack')).Nodup)
    (moved : ∀ a, a ∈ places out done' (.finish req :: stack') ↔
      a = req ∨ a ∈ places out done stack)
    (fewer : ∀ a ∈ done', a ∈ done) (live : (c req).isSome) (nobody : ∀ a, ¬ InGroup c stack a req)
    (waits : ∀ f ∈ stack, ∀ g, pending f = some g → g = req) :
    Grouped c out done' (.finish req :: stack') members := by
  have joined : ∀ a g, InGroup c (.finish req :: stack') a g ↔ InGroup c stack a g := by
    intro a g
    simp [InGroup, destroys]
  have owned : ∀ g, g ∈ owners (.finish req :: stack') ↔ g = req ∨ g ∈ owners stack := by
    intro g
    simp [owners_lower, Frame.req, ← same, eq_comm]
  refine ⟨nodup, ?_, ?_, inv.plain, ?_, inv.int1, inv.distinct, ?_, ?_, inv.listed, ?_, ?_,
    inv.childless, ?_, ?_, ?_, shaped_cons low⟩
  · intro a inside
    rcases (moved a).mp inside with rfl | old
    · exact live
    · exact inv.live a old
  · intro a q found
    rcases inv.known a q found with old | waiting
    · exact Or.inl ((moved a).mpr (Or.inr old))
    · exact Or.inr waiting
  · intro a inside
    exact inv.unseen a (fewer a inside)
  · intro g a
    rw [joined]
    exact inv.member g a
  · intro a g joins
    have old := (joined a g).mp joins
    refine ⟨(inv.parent a g old).1, fun inside => ?_⟩
    rcases (owned g).mp inside with rfl | before
    · exact nobody a old
    · exact (inv.parent a g old).2 before
  · intro g q found isGroup
    have noDec' : .dec g ∉ .finish req :: stack' := by
      simpa using lower_notDec low g
    rw [inv.size g q found isGroup, if_neg (noDec g), if_neg noDec']
  · intro f inside g on
    rcases List.mem_cons.mp inside with rfl | below
    · cases on
    · rw [lower_onGroup (low f below)] at on
      cases on
  · intro f inside a on
    rcases List.mem_cons.mp inside with rfl | below
    · cases on
    · rw [lower_cancels (low f below)] at on
      cases on
  · intro f inside a on
    rcases List.mem_cons.mp inside with rfl | below
    · cases on
    · rw [lower_walks (low f below)] at on
      cases on
  · intro g q found isGroup delayed outside none
    have apart : ¬ (g = req ∨ g ∈ owners stack) := fun inside => outside ((owned g).mpr inside)
    obtain ⟨f, inside, on⟩ :=
      inv.waiting g q found isGroup delayed (fun before => apart (Or.inr before)) none
    exact absurd (waits f inside g on) fun equal => apart (Or.inl equal)

/-- The request that is finished is not in a group. -/
theorem leave_grouped (inv : Grouped c out done (.unlink req :: rest) members) {q : Core}
    (found : c req = some q) (alone : q.grp = none) :
    Grouped c out done (.destroy req :: rest) members := by
  have low := inv.shape.1 rfl
  have joined : ∀ a g,
      InGroup c (.destroy req :: rest) a g ↔ InGroup c (.unlink req :: rest) a g := by
    intro a g
    by_cases same : a = req
    · subst same
      simp [InGroup, found, alone]
    · simp [InGroup, same]
  refine ⟨inv.nodup, inv.live, inv.known, inv.plain, inv.unseen, inv.int1, inv.distinct, ?_, ?_,
    inv.listed, ?_, ?_, inv.childless, ?_, ?_, ?_, shaped_cons low⟩
  · intro g a
    rw [joined]
    exact inv.member g a
  · intro a g joins
    exact inv.parent a g ((joined a g).mp joins)
  · intro g q found isGroup
    simpa using inv.size g q found isGroup
  · intro f inside g on
    rcases List.mem_cons.mp inside with rfl | below
    · cases on
    · exact inv.frames f (List.mem_cons_of_mem _ below) g on
  · intro f inside a on
    rcases List.mem_cons.mp inside with rfl | below
    · cases on
    · exact inv.cancelled f (List.mem_cons_of_mem _ below) a on
  · intro f inside a on
    rcases List.mem_cons.mp inside with rfl | below
    · cases on
    · exact inv.walked f (List.mem_cons_of_mem _ below) a on
  · intro g q found isGroup delayed outside none
    obtain ⟨f, inside, on⟩ := inv.waiting g q found isGroup delayed outside none
    rcases List.mem_cons.mp inside with rfl | below
    · cases on
    · exact ⟨f, List.mem_cons_of_mem _ below, on⟩

/-- `eio_destroy`. -/
theorem free_grouped (inv : Grouped c out done (.destroy req :: rest) members) :
    Grouped (Function.update c req none) out done rest members := by
  have low := inv.shape.1 rfl
  have nodup := inv.nodup
  have order : places out done (.destroy req :: rest) = (out ++ done) ++ req :: owners rest := rfl
  rw [order, List.nodup_middle, List.nodup_cons] at nodup
  have noReq : req ∉ places out done rest := nodup.1
  have once : .destroy req ∉ rest := by
    intro inside
    refine noReq (List.mem_append_right _ (owners_lower.mpr ⟨_, inside, rfl⟩))
  have read : ∀ a q, Function.update c req none a = some q → a ≠ req ∧ c a = some q := by
    intro a q found
    by_cases same : a = req
    · subst same
      simp at found
    · rw [Function.update_of_ne same] at found
      exact ⟨same, found⟩
  have joined : ∀ a g, InGroup (Function.update c req none) rest a g ↔
      InGroup c (.destroy req :: rest) a g := by
    intro a g
    by_cases same : a = req
    · subst same
      simp [InGroup]
    · simp [InGroup, same]
  have isGroup' : ∀ g, IsGroup (Function.update c req none) g ↔ g ≠ req ∧ IsGroup c g := by
    intro g
    by_cases same : g = req
    · subst same
      simp [IsGroup]
    · simp [IsGroup, same]
  have subset : ∀ a ∈ places out done rest, a ∈ places out done (.destroy req :: rest) := by
    intro a inside
    rw [order]
    rcases List.mem_append.mp inside with front | owner
    · exact List.mem_append_left _ front
    · exact List.mem_append_right _ (List.mem_cons_of_mem req owner)
  have owned : ∀ g, g ≠ req → g ∉ owners rest → g ∉ owners (.destroy req :: rest) := by
    intro g apart outside inside
    rcases List.mem_cons.mp (show g ∈ req :: owners rest from inside) with same | below
    · exact apart same
    · exact outside below
  refine ⟨nodup.2, ?_, ?_, ?_, ?_, ?_, inv.distinct, ?_, ?_, ?_, ?_, ?_, ?_, ?_, ?_, ?_,
    inv.shape.2⟩
  · intro a inside
    have apart : a ≠ req := fun same => noReq (same ▸ inside)
    rw [Function.update_of_ne apart]
    exact inv.live a (subset a inside)
  · intro a q found
    obtain ⟨apart, found⟩ := read a q found
    rcases inv.known a q found with inside | waiting
    · rw [order] at inside
      simp only [places, List.mem_append, List.mem_cons] at inside ⊢
      tauto
    · exact Or.inr waiting
  · intro a inside q found
    exact inv.plain a inside q (read a q found).2
  · intro a inside q found
    exact inv.unseen a inside q (read a q found).2
  · intro a q found
    exact inv.int1 a q (read a q found).2
  · intro g a
    rw [joined]
    exact inv.member g a
  · intro a g joins
    obtain ⟨isGroup, outside⟩ := inv.parent a g ((joined a g).mp joins)
    have apart : g ≠ req := fun same => outside (same ▸ List.mem_cons_self)
    exact ⟨(isGroup' g).mpr ⟨apart, isGroup⟩, fun below => outside (List.mem_cons_of_mem req below)⟩
  · intro g isGroup
    obtain ⟨apart, isGroup⟩ := (isGroup' g).mp isGroup
    have notMember : req ∉ members g := fun inside =>
      ((inv.member g req).mp inside).choose_spec.2.2 List.mem_cons_self
    refine (inv.listed g isGroup).congr (fun x inside => ?_) fun x inside _ => ?_
    all_goals
      cases x with
      | none => simp [nextOf, prevOf, apart]
      | some a =>
        have other : a ≠ req := by
          rintro rfl
          exact notMember (by simpa using inside)
        simp [nextOf, prevOf, other]
  · intro g q found isGroup
    simpa using inv.size g q (read g q found).2 isGroup
  · intro f inside g on
    rw [lower_onGroup (low f inside)] at on
    cases on
  · intro a q found
    exact inv.childless a q (read a q found).2
  · intro f inside a on
    rw [lower_cancels (low f inside)] at on
    cases on
  · intro f inside a on
    rw [lower_walks (low f inside)] at on
    cases on
  · intro g q found isGroup delayed outside none
    obtain ⟨apart, found⟩ := read g q found
    obtain ⟨f, inside, on⟩ :=
      inv.waiting g q found isGroup delayed (owned g apart outside) none
    rcases List.mem_cons.mp inside with rfl | below
    · cases on
    · exact ⟨f, below, on⟩

/-! ### The groups' counters -/

section
variable {u : Addr → Core → Core} {g : Addr}

/-- The core at each address changes on its own. -/
def Mapped (u : Addr → Core → Core) (c c' : Cores) : Prop := ∀ a, c' a = (c a).map (u a)

theorem Mapped.read (map : Mapped u c c') {a : Addr} {q : Core} :
    c' a = some q ↔ ∃ p, c a = some p ∧ u a p = q := by
  rw [map a, Option.map_eq_some_iff]

/-- What held of the core before and does not mention what changed holds after. -/
theorem Mapped.each (map : Mapped u c c') {a : Addr} {P : Core → Prop}
    (old : ∀ p, c a = some p → P (u a p)) : ∀ q, c' a = some q → P q := by
  intro q found
  obtain ⟨p, before, rfl⟩ := map.read.mp found
  exact old p before

theorem Mapped.isSome (map : Mapped u c c') (a : Addr) : (c' a).isSome = (c a).isSome := by
  rw [map a, Option.isSome_map]

theorem Mapped.isGroup (map : Mapped u c c') (same : ∀ a q, (u a q).isGroup = q.isGroup)
    (g : Addr) : IsGroup c' g ↔ IsGroup c g := by
  unfold IsGroup
  constructor
  · rintro ⟨q, found, isGroup⟩
    obtain ⟨p, before, rfl⟩ := map.read.mp found
    exact ⟨p, before, same g p ▸ isGroup⟩
  · rintro ⟨q, found, isGroup⟩
    exact ⟨u g q, map.read.mpr ⟨q, found, rfl⟩, (same g q).trans isGroup⟩

theorem Mapped.joined (map : Mapped u c c') {a : Addr} (same : ∀ q, (u a q).grp = q.grp) :
    InGroup c' stack a g ↔ InGroup c stack a g := by
  unfold InGroup
  constructor
  · rintro ⟨q, found, inside, kept⟩
    obtain ⟨p, before, rfl⟩ := map.read.mp found
    exact ⟨p, before, (same p).symm.trans inside, kept⟩
  · rintro ⟨q, found, inside, kept⟩
    exact ⟨u a q, map.read.mpr ⟨q, found, rfl⟩, (same q).trans inside, kept⟩

/-- A list of other members, apart from the links that change, stays. -/
theorem Mapped.others (map : Mapped u c c') {l : List Addr}
    (first : ∀ q, (u g q).grpFirst = q.grpFirst) (next : ∀ a ∈ l, ∀ q, (u a q).grpNext = q.grpNext)
    (prev : ∀ a ∈ l, ∀ q, (u a q).grpPrev = q.grpPrev) (listed : Listed c g l) :
    Listed c' g l := by
  refine Ring.congr listed (fun x inside => ?_) fun x inside _ => ?_
  all_goals
    cases x with
    | none => simp [nextOf, prevOf, map g, Option.bind_map, first]
    | some a =>
      have member : a ∈ l := by simpa using inside
      simp [nextOf, prevOf, map a, Option.bind_map, next a member, prev a member]

/-- `--grp->size`. -/
theorem decrement_grouped (inv : Grouped c out done (.dec g :: rest) members)
    (map : Mapped (fun a q => { q with size := if a = g then q.size - 1 else q.size }) c c') :
    Grouped c' out done (.tryFeed g true :: rest) members := by
  have low := inv.shape.1 rfl
  have joined : ∀ a g', InGroup c' (.tryFeed g true :: rest) a g' ↔
      InGroup c (.dec g :: rest) a g' := by
    intro a g'
    rw [map.joined fun q => rfl]
    simp [InGroup]
  have isGroup' := map.isGroup fun a q => rfl
  refine ⟨inv.nodup, ?_, ?_, ?_, ?_, ?_, inv.distinct, ?_, ?_, ?_, ?_, ?_, ?_, ?_, ?_, ?_,
    shaped_cons low⟩
  · intro a inside
    rw [map.isSome]
    exact inv.live a inside
  · intro a
    exact map.each (inv.known a)
  · intro a inside
    exact map.each (inv.plain a inside)
  · intro a inside
    exact map.each (inv.unseen a inside)
  · intro a
    exact map.each (inv.int1 a)
  · intro g' a
    rw [joined]
    exact inv.member g' a
  · intro a g' joins
    rw [isGroup']
    exact inv.parent a g' ((joined a g').mp joins)
  · intro g' isGroup
    exact map.others (fun q => rfl) (fun a _ q => rfl) (fun a _ q => rfl)
      (inv.listed g' ((isGroup' g').mp isGroup))
  · intro g' q found isGroup
    obtain ⟨p, before, rfl⟩ := map.read.mp found
    have size := inv.size g' p before isGroup
    have noDec := lower_notDec low g'
    by_cases same : g' = g
    · subst same
      simp [noDec] at size ⊢
      omega
    · simpa [same, noDec] using size
  · intro f inside g' on
    rw [isGroup']
    rcases List.mem_cons.mp inside with rfl | below
    · obtain rfl := Option.some.inj on
      exact inv.frames _ List.mem_cons_self g rfl
    · exact inv.frames f (List.mem_cons_of_mem _ below) g' on
  · intro a
    exact map.each (inv.childless a)
  · intro f inside a on
    rw [map.isSome]
    rcases List.mem_cons.mp inside with rfl | below
    · cases on
    · exact inv.cancelled f (List.mem_cons_of_mem _ below) a on
  · intro f inside a on
    rcases List.mem_cons.mp inside with rfl | below
    · cases on
    · exact inv.walked f (List.mem_cons_of_mem _ below) a on
  · intro g' q found isGroup delayed outside none
    obtain ⟨p, before, rfl⟩ := map.read.mp found
    obtain ⟨f, inside, on⟩ := inv.waiting g' p before isGroup delayed outside none
    rcases List.mem_cons.mp inside with rfl | below
    · exact ⟨_, List.mem_cons_self, on⟩
    · exact ⟨f, List.mem_cons_of_mem _ below, on⟩

/-- `etp_poll` finds a group that still has members. -/
theorem delay_grouped (inv : Grouped c out done (.poll :: rest) members) (taken : g ∈ done)
    {q : Core} (found : c g = some q) (isGroup : q.isGroup = true) (size : q.size ≠ 0)
    (map : Mapped (fun a q => { q with int1 := if a = g then 1 else q.int1 }) c c') :
    Grouped c' out (done.erase g) (.poll :: rest) members := by
  have low := inv.shape.1 rfl
  have low' : ∀ f ∈ .poll :: rest, lower f = true := List.forall_mem_cons.mpr ⟨rfl, low⟩
  have joined : ∀ a g', InGroup c' (.poll :: rest) a g' ↔ InGroup c (.poll :: rest) a g' :=
    fun a g' => map.joined fun q => rfl
  have isGroup' := map.isGroup fun a q => rfl
  have subset : ∀ a ∈ places out (done.erase g) (.poll :: rest),
      a ∈ places out done (.poll :: rest) := by
    intro a inside
    simp only [places, List.mem_append] at inside ⊢
    exact inside.imp_left (Or.imp_right List.mem_of_mem_erase)
  have once : done.Nodup := (List.nodup_append.mp (List.nodup_append.mp inv.nodup).1).2.1
  refine ⟨?_, ?_, ?_, ?_, ?_, ?_, inv.distinct, ?_, ?_, ?_, ?_, ?_, ?_, ?_, inv.walked, ?_,
    inv.shape⟩
  · refine inv.nodup.sublist ?_
    exact ((List.erase_sublist).append_left out).append_right _
  · intro a inside
    rw [map.isSome]
    exact inv.live a (subset a inside)
  · intro a q' found'
    obtain ⟨p, before, rfl⟩ := map.read.mp found'
    by_cases same : a = g
    · subst same
      rw [found, Option.some.injEq] at before
      subst before
      exact Or.inr ⟨isGroup, by simp⟩
    · refine (inv.known a p before).imp (fun inside => ?_) fun waiting => by simpa [same] using waiting
      simp only [places, List.mem_append] at inside ⊢
      exact inside.imp_left (Or.imp_right (List.mem_erase_of_ne same).mpr)
  · intro a inside
    exact map.each (inv.plain a inside)
  · intro a inside q' found' isGroup'
    obtain ⟨p, before, rfl⟩ := map.read.mp found'
    obtain ⟨apart, member⟩ := (List.Nodup.mem_erase_iff once).mp inside
    simpa [apart] using inv.unseen a member p before isGroup'
  · intro a q' found'
    obtain ⟨p, before, rfl⟩ := map.read.mp found'
    by_cases same : a = g
    · exact Or.inr (if_pos same)
    · simpa [same] using inv.int1 a p before
  · intro g' a
    rw [joined]
    exact inv.member g' a
  · intro a g' joins
    rw [isGroup']
    exact inv.parent a g' ((joined a g').mp joins)
  · intro g' isGroup
    exact map.others (fun q => rfl) (fun a _ q => rfl) (fun a _ q => rfl)
      (inv.listed g' ((isGroup' g').mp isGroup))
  · intro g' q' found' isGroup'
    obtain ⟨p, before, rfl⟩ := map.read.mp found'
    exact inv.size g' p before isGroup'
  · intro f inside g' on
    rw [lower_onGroup (low' f inside)] at on
    cases on
  · intro a
    exact map.each (inv.childless a)
  · intro f inside a on
    rw [lower_cancels (low' f inside)] at on
    cases on
  · intro g' q' found' isGroup' delayed outside none
    obtain ⟨p, before, rfl⟩ := map.read.mp found'
    by_cases same : g' = g
    · subst same
      rw [found, Option.some.injEq] at before
      subst before
      have count := inv.size g' q found isGroup
      rw [if_neg (lower_notDec low' g'), none] at count
      exact absurd count size
    · exact inv.waiting g' p before isGroup' (by simpa [same] using delayed) outside none

/-- The list of the group after `req` was taken out of it. -/
theorem unlinked_listed (inv : Grouped c out done stack members) {r : Core}
    (found : c req = some r) (inside : req ∈ members g) (isGroup : IsGroup c g)
    (map : Mapped (unlinked g req r.grpPrev r.grpNext) c c') :
    Listed c' g ((members g).erase req) := by
  have listed := inv.listed g isGroup
  have distinct : (none :: (members g).map some).Nodup := by
    rw [List.nodup_cons]
    exact ⟨by simp, (List.nodup_map_iff (Option.some_injective _)).mpr (inv.distinct g)⟩
  obtain ⟨before, after, shape⟩ := List.append_of_mem inside
  have notBefore : req ∉ before := by
    have once := inv.distinct g
    rw [shape, List.nodup_middle, List.nodup_cons] at once
    exact fun front => once.1 (List.mem_append_left after front)
  have erased : (members g).erase req = before ++ after := by
    rw [shape, List.erase_append_right _ notBefore, List.erase_cons_head]
  have live : ∀ a, some a ∈ none :: (members g).map some → (c a).isSome := by
    intro a member
    obtain ⟨q, there, -⟩ := (inv.member g a).mp (by simpa using member)
    rw [there]
    rfl
  have member : some req ∈ (members g).map some := List.mem_map_of_mem inside
  have back : some req ≠ none := Option.some_ne_none req
  have prevMem := listed.prev_mem member back
  have nextMem := listed.next_mem (List.mem_cons_of_mem none member)
  have nextPrev := listed.next_prev member back
  have prevNext := listed.prev_next (x := none) List.mem_cons_self
  have prevReq : prevOf c (some req) = r.grpPrev := by simp [prevOf, found]
  have nextReq : nextOf c g (some req) = r.grpNext := by simp [nextOf, found]
  rw [prevReq] at prevMem nextPrev
  rw [nextReq] at nextMem
  have ring := listed
  have distinct' := distinct
  rw [Listed, shape, List.map_append, List.map_cons] at ring
  rw [shape, List.map_append, List.map_cons] at distinct'
  have cut := ring.unlink distinct' back
  rw [prevReq, nextReq, ← List.map_append, ← erased] at cut
  refine cut.congr (fun x _ => ?_) fun x _ backed => ?_
  · cases x with
    | none =>
      obtain ⟨q, group, -⟩ := isGroup
      simp only [nextOf, map g, group, Option.map_some, Option.bind_some, unlinked, true_and]
      by_cases front : r.grpPrev = none
      · rw [front] at nextPrev ⊢
        have first : q.grpFirst = some req := by simpa [nextOf, group] using nextPrev
        rw [if_pos first, Function.update_self]
      · have other : q.grpFirst ≠ some req := by
          intro first
          have leads : nextOf c g none = some req := by simp [nextOf, group, first]
          rw [leads] at prevNext
          exact front (prevReq ▸ prevNext back)
        rw [if_neg other, Function.update_of_ne (Ne.symm front)]
        simp [nextOf, group]
    | some a =>
      by_cases front : r.grpPrev = some a
      · obtain ⟨q, there⟩ := Option.isSome_iff_exists.mp (live a (front ▸ prevMem))
        simp [nextOf, map a, there, unlinked, front]
      · rw [Function.update_of_ne (Ne.symm front)]
        simp [nextOf, map a, Option.bind_map, unlinked, front]
  · cases x with
    | none => exact absurd rfl backed
    | some a =>
      by_cases behind : r.grpNext = some a
      · obtain ⟨q, there⟩ := Option.isSome_iff_exists.mp (live a (behind ▸ nextMem))
        simp [prevOf, map a, there, unlinked, behind]
      · rw [Function.update_of_ne (Ne.symm behind)]
        simp [prevOf, map a, Option.bind_map, unlinked, behind]

/-- `eio_finish` takes the request out of its group. -/
theorem unlink_grouped (inv : Grouped c out done (.unlink req :: rest) members) {r : Core}
    (found : c req = some r) (parent : r.grp = some g)
    (map : Mapped (unlinked g req r.grpPrev r.grpNext) c c') :
    Grouped c' out done (.dec g :: .destroy req :: rest)
      (Function.update members g ((members g).erase req)) := by
  have low := inv.shape.1 rfl
  have nodup := inv.nodup
  have order : places out done (.unlink req :: rest) = (out ++ done) ++ req :: owners rest := rfl
  rw [order, List.nodup_middle, List.nodup_cons] at nodup
  have once : .destroy req ∉ rest := by
    intro inside
    exact nodup.1 (List.mem_append_right _ (owners_lower.mpr ⟨_, inside, rfl⟩))
  have joins : InGroup c (.unlink req :: rest) req g := ⟨r, found, parent, by simp [once]⟩
  have inside : req ∈ members g := (inv.member g req).mpr joins
  obtain ⟨isGroup, outside⟩ := inv.parent req g joins
  have joined : ∀ a g', InGroup c' (.dec g :: .destroy req :: rest) a g' ↔
      a ≠ req ∧ InGroup c (.unlink req :: rest) a g' := by
    intro a g'
    rw [map.joined fun q => rfl]
    by_cases same : a = req
    · subst same
      simp [InGroup]
    · simp [InGroup, same]
  have isGroup' := map.isGroup fun a q => rfl
  have low' : ∀ f ∈ .destroy req :: rest, lower f = true := List.forall_mem_cons.mpr ⟨rfl, low⟩
  refine ⟨inv.nodup, ?_, ?_, ?_, ?_, ?_, ?_, ?_, ?_, ?_, ?_, ?_, ?_, ?_, ?_, ?_,
    shaped_cons low'⟩
  · intro a inside
    rw [map.isSome]
    exact inv.live a inside
  · intro a
    exact map.each (inv.known a)
  · intro a inside
    exact map.each (inv.plain a inside)
  · intro a inside
    exact map.each (inv.unseen a inside)
  · intro a
    exact map.each (inv.int1 a)
  · intro g'
    by_cases same : g' = g
    · subst same
      rw [Function.update_self]
      exact (inv.distinct g').erase req
    · rw [Function.update_of_ne same]
      exact inv.distinct g'
  · intro g' a
    rw [joined, ← inv.member]
    by_cases same : g' = g
    · subst same
      rw [Function.update_self, (inv.distinct g').mem_erase_iff]
    · rw [Function.update_of_ne same]
      refine ⟨fun there => ⟨?_, there⟩, And.right⟩
      rintro rfl
      exact same (inv.one_group there inside)
  · intro a g' joins'
    rw [isGroup']
    exact inv.parent a g' ((joined a g').mp joins').2
  · intro g' group
    by_cases same : g' = g
    · subst same
      rw [Function.update_self]
      exact unlinked_listed inv found inside isGroup map
    · rw [Function.update_of_ne same]
      refine map.others (fun q => ?_) (fun a member q => ?_) (fun a member q => ?_)
        (inv.listed g' ((isGroup' g').mp group))
      · simp [unlinked, same]
      · refine if_neg fun before => same ?_
        exact inv.one_group member (inv.neighbour found inside isGroup (Or.inl before))
      · refine if_neg fun after => same ?_
        exact inv.one_group member (inv.neighbour found inside isGroup (Or.inr after))
  · intro g' q found' group
    obtain ⟨p, before, rfl⟩ := map.read.mp found'
    have size := inv.size g' p before group
    have noDec : .dec g' ∉ rest := lower_notDec low g'
    by_cases same : g' = g
    · subst same
      have positive := List.length_pos_of_mem inside
      simp only [List.mem_cons, reduceCtorEq, noDec, or_self, if_false] at size
      simp only [unlinked, Function.update_self, List.length_erase_of_mem inside, List.mem_cons,
        true_or, if_true]
      omega
    · simpa [unlinked, same, noDec] using size
  · intro f member g' on
    rw [isGroup']
    rcases List.mem_cons.mp member with rfl | below
    · obtain rfl := Option.some.inj on
      exact ⟨isGroup, outside⟩
    · rw [lower_onGroup (low' f below)] at on
      cases on
  · intro a q found' plain
    obtain ⟨p, before, rfl⟩ := map.read.mp found'
    have other : a ≠ g := by
      rintro rfl
      obtain ⟨q, there, group⟩ := isGroup
      rw [before, Option.some.injEq] at there
      subst there
      exact absurd (plain.symm.trans group) Bool.false_ne_true
    simpa [unlinked, other] using inv.childless a p before plain
  · intro f member a on
    rcases List.mem_cons.mp member with rfl | below
    · cases on
    · rw [lower_cancels (low' f below)] at on
      cases on
  · intro f member a on
    rcases List.mem_cons.mp member with rfl | below
    · cases on
    · rw [lower_walks (low' f below)] at on
      cases on
  · intro g' q found' group delayed apart vacant
    obtain ⟨p, before, rfl⟩ := map.read.mp found'
    by_cases same : g' = g
    · subst same
      exact ⟨_, List.mem_cons_self, rfl⟩
    · rw [Function.update_of_ne same] at vacant
      obtain ⟨f, member, on⟩ := inv.waiting g' p before group delayed apart vacant
      rcases List.mem_cons.mp member with rfl | below
      · cases on
      · exact absurd ⟨f, below, on⟩ (lower_pending low g')

/-- The list of the group after `req` was added to it. -/
theorem added_listed (inv : Grouped c out done stack members) {q r : Core}
    (group : c g = some q) (isGroup : q.isGroup = true) (found : c req = some r)
    (alone : r.grp = none) (map : Mapped (added g req q.grpFirst) c c') :
    Listed c' g (req :: members g) := by
  have listed := inv.listed g ⟨q, group, isGroup⟩
  have fresh : req ∉ members g := by
    intro inside
    obtain ⟨r', found', joins, -⟩ := (inv.member g req).mp inside
    rw [found, Option.some.injEq] at found'
    subst found'
    rw [alone] at joins
    cases joins
  have distinct : (none :: (members g).map some).Nodup := by
    rw [List.nodup_cons]
    exact ⟨by simp, (List.nodup_map_iff (Option.some_injective _)).mpr (inv.distinct g)⟩
  have first : nextOf c g none = q.grpFirst := by simp [nextOf, group]
  have ring := listed.insert distinct (a := some req) (by simpa using fresh)
  rw [first] at ring
  have firstMem := listed.next_mem (x := none) List.mem_cons_self
  rw [first] at firstMem
  refine Ring.congr ring (fun x _ => ?_) fun x _ backed => ?_
  · cases x with
    | none => simp [nextOf, map g, group, added]
    | some a =>
      rw [Function.update_of_ne (Option.some_ne_none a)]
      by_cases same : a = req
      · subst same
        simp [nextOf, map a, found, added]
      · have other : some a ≠ some req := fun equal => same (Option.some.inj equal)
        rw [Function.update_of_ne other]
        simp [nextOf, map a, Option.bind_map, added, same]
  · cases x with
    | none => exact absurd rfl backed
    | some a =>
      by_cases front : q.grpFirst = some a
      · have inside : a ∈ members g := by simpa [front] using firstMem
        obtain ⟨p, there, -⟩ := (inv.member g a).mp inside
        simp [prevOf, map a, there, added, front]
      · rw [Function.update_of_ne (Ne.symm front)]
        by_cases same : a = req
        · subst same
          simp [prevOf, map a, found, added, front]
        · have other : some a ≠ some req := fun equal => same (Option.some.inj equal)
          rw [Function.update_of_ne other]
          simp [prevOf, map a, Option.bind_map, added, same, front]

/-- `eio_grp_add`. -/
theorem add_grouped (inv : Grouped c out done stack members) {q r : Core}
    (group : c g = some q) (isGroup : q.isGroup = true) (unfinished : g ∉ owners stack)
    (found : c req = some r) (alone : r.grp = none) (untouched : req ∉ owners stack)
    (map : Mapped (added g req q.grpFirst) c c') :
    Grouped c' out done stack (Function.update members g (req :: members g)) := by
  have kept : .destroy req ∉ stack := fun inside =>
    untouched (owners_lower.mpr ⟨_, inside, rfl⟩)
  have fresh : ∀ g', req ∉ members g' := by
    intro g' inside
    obtain ⟨r', found', joins, -⟩ := (inv.member g' req).mp inside
    rw [found, Option.some.injEq] at found'
    subst found'
    rw [alone] at joins
    cases joins
  have joined : ∀ a g', InGroup c' stack a g' ↔
      a = req ∧ g' = g ∨ a ≠ req ∧ InGroup c stack a g' := by
    intro a g'
    by_cases same : a = req
    · subst same
      simp [InGroup, map a, found, added, kept, eq_comm]
    · simp [InGroup, map a, added, same]
  have isGroup' := map.isGroup fun a q => rfl
  refine ⟨inv.nodup, ?_, ?_, ?_, ?_, ?_, ?_, ?_, ?_, ?_, ?_, ?_, ?_, ?_, ?_, ?_, inv.shape⟩
  · intro a inside
    rw [map.isSome]
    exact inv.live a inside
  · intro a
    exact map.each (inv.known a)
  · intro a inside
    exact map.each (inv.plain a inside)
  · intro a inside
    exact map.each (inv.unseen a inside)
  · intro a
    exact map.each (inv.int1 a)
  · intro g'
    by_cases same : g' = g
    · subst same
      rw [Function.update_self]
      exact List.nodup_cons.mpr ⟨fresh g', inv.distinct g'⟩
    · rw [Function.update_of_ne same]
      exact inv.distinct g'
  · intro g' a
    rw [joined]
    by_cases same : g' = g
    · subst same
      rw [Function.update_self, List.mem_cons, inv.member]
      refine or_congr (by simp) ⟨fun there => ⟨?_, there⟩, And.right⟩
      rintro rfl
      exact fresh g' ((inv.member g' a).mpr there)
    · rw [Function.update_of_ne same, inv.member]
      refine ⟨fun there => Or.inr ⟨?_, there⟩, fun there => ?_⟩
      · rintro rfl
        exact fresh g' ((inv.member g' a).mpr there)
      · rcases there with ⟨-, equal⟩ | ⟨-, there⟩
        · exact absurd equal same
        · exact there
  · intro a g' joins
    rw [isGroup']
    rcases (joined a g').mp joins with ⟨-, rfl⟩ | ⟨-, old⟩
    · exact ⟨⟨q, group, isGroup⟩, unfinished⟩
    · exact inv.parent a g' old
  · intro g' group'
    by_cases same : g' = g
    · subst same
      rw [Function.update_self]
      exact added_listed inv group isGroup found alone map
    · have firstMem := (inv.listed g ⟨q, group, isGroup⟩).next_mem (x := none) List.mem_cons_self
      have first : nextOf c g none = q.grpFirst := by simp [nextOf, group]
      rw [first] at firstMem
      rw [Function.update_of_ne same]
      refine map.others (fun p => ?_) (fun a member p => ?_) (fun a member p => ?_)
        (inv.listed g' ((isGroup' g').mp group'))
      · exact if_neg same
      · have other : a ≠ req := fun equal => fresh g' (equal ▸ member)
        exact if_neg other
      · have other : a ≠ req := fun equal => fresh g' (equal ▸ member)
        have apart : q.grpFirst ≠ some a := by
          intro front
          rw [front] at firstMem
          exact same (inv.one_group member (by simpa using firstMem))
        simp [added, other, apart]
  · intro g' p' found' group'
    obtain ⟨p, before, rfl⟩ := map.read.mp found'
    have size := inv.size g' p before group'
    by_cases same : g' = g
    · subst same
      simp only [added, Function.update_self, List.length_cons, if_true]
      omega
    · simpa [added, same] using size
  · intro f member g' on
    rw [isGroup']
    exact inv.frames f member g' on
  · intro a p' found' plain
    obtain ⟨p, before, rfl⟩ := map.read.mp found'
    have other : a ≠ g := by
      rintro rfl
      rw [before, Option.some.injEq] at group
      subst group
      exact absurd (plain.symm.trans isGroup) Bool.false_ne_true
    simpa [added, other] using inv.childless a p before plain
  · intro f member a on
    rw [map.isSome]
    exact inv.cancelled f member a on
  · intro f member a on
    obtain ⟨g', inside⟩ := inv.walked f member a on
    refine ⟨g', ?_⟩
    by_cases same : g' = g
    · subst same
      rw [Function.update_self]
      exact List.mem_cons_of_mem req inside
    · rwa [Function.update_of_ne same]
  · intro g' p' found' group' delayed apart vacant
    obtain ⟨p, before, rfl⟩ := map.read.mp found'
    by_cases same : g' = g
    · subst same
      rw [Function.update_self] at vacant
      cases vacant
    · rw [Function.update_of_ne same] at vacant
      exact inv.waiting g' p before group' delayed apart vacant

/-- A request is allocated; it goes to the workers or, if it is a group, to the result
queue. -/
theorem alloc_grouped (inv : Grouped c out done stack members) {out' done' : List Addr} {q : Core}
    (fresh : c req = none) (blank : q = ⟨q.isGroup, 0, 0, none, none, none, none⟩)
    (moved : out' = req :: out ∧ done' = done ∧ q.isGroup = false ∨
      out' = out ∧ done' = req :: done ∧ q.isGroup = true) :
    Grouped (Function.update c req (some q)) out' done' stack members := by
  have absent : req ∉ places out done stack := fun inside => by
    have live := inv.live req inside
    rw [fresh] at live
    cases live
  have order : (places out' done' stack).Perm (req :: places out done stack) := by
    rcases moved with ⟨rfl, rfl, -⟩ | ⟨rfl, rfl, -⟩
    · rfl
    · exact (List.perm_middle.append_right _)
  have read : ∀ a p, Function.update c req (some q) a = some p →
      a = req ∧ p = q ∨ a ≠ req ∧ c a = some p := by
    intro a p found
    by_cases same : a = req
    · subst same
      rw [Function.update_self, Option.some.injEq] at found
      exact Or.inl ⟨rfl, found.symm⟩
    · rw [Function.update_of_ne same] at found
      exact Or.inr ⟨same, found⟩
  have joined : ∀ a g, InGroup (Function.update c req (some q)) stack a g ↔ InGroup c stack a g := by
    intro a g
    by_cases same : a = req
    · subst same
      have alone : q.grp = none := by rw [blank]
      simp [InGroup, fresh, alone]
    · simp [InGroup, same]
  have isGroup' : ∀ g, IsGroup c g → IsGroup (Function.update c req (some q)) g := by
    rintro g ⟨p, found, group⟩
    have apart : g ≠ req := by
      rintro rfl
      rw [fresh] at found
      cases found
    exact ⟨p, by rw [Function.update_of_ne apart, found], group⟩
  have nobody : members req = [] := by
    refine List.eq_nil_iff_forall_not_mem.mpr fun a inside => ?_
    obtain ⟨⟨p, found, -⟩, -⟩ := inv.parent a req ((inv.member req a).mp inside)
    rw [fresh] at found
    cases found
  have notMember : ∀ g, req ∉ members g := by
    intro g inside
    obtain ⟨p, found, -⟩ := (inv.member g req).mp inside
    rw [fresh] at found
    cases found
  have live' : ∀ a, (c a).isSome → (Function.update c req (some q) a).isSome := by
    intro a live
    by_cases same : a = req
    · subst same
      simp
    · rwa [Function.update_of_ne same]
  refine ⟨?_, ?_, ?_, ?_, ?_, ?_, inv.distinct, ?_, ?_, ?_, ?_, ?_, ?_, ?_, inv.walked, ?_,
    inv.shape⟩
  · rw [order.nodup_iff, List.nodup_cons]
    exact ⟨absent, inv.nodup⟩
  · intro a inside
    rcases List.mem_cons.mp (order.mem_iff.mp inside) with rfl | old
    · simp
    · exact live' a (inv.live a old)
  · intro a p found
    rw [order.mem_iff, List.mem_cons]
    rcases read a p found with ⟨rfl, -⟩ | ⟨-, before⟩
    · exact Or.inl (Or.inl rfl)
    · exact (inv.known a p before).imp_left Or.inr
  · intro a inside p found
    rcases read a p found with ⟨rfl, rfl⟩ | ⟨apart, before⟩
    · rcases moved with ⟨-, -, plain⟩ | ⟨rfl, -, -⟩
      · exact plain
      · exact absurd (List.mem_append_left _ (List.mem_append_left _ inside)) absent
    · refine inv.plain a ?_ p before
      rcases moved with ⟨rfl, -, -⟩ | ⟨rfl, -, -⟩
      · exact (List.mem_cons.mp inside).resolve_left apart
      · exact inside
  · intro a inside p found group
    rcases read a p found with ⟨rfl, rfl⟩ | ⟨apart, before⟩
    · rw [blank]
    · refine inv.unseen a ?_ p before group
      rcases moved with ⟨-, rfl, -⟩ | ⟨-, rfl, -⟩
      · exact inside
      · exact (List.mem_cons.mp inside).resolve_left apart
  · intro a p found
    rcases read a p found with ⟨-, rfl⟩ | ⟨-, before⟩
    · rw [blank]
      exact Or.inl rfl
    · exact inv.int1 a p before
  · intro g a
    rw [joined]
    exact inv.member g a
  · intro a g joins
    obtain ⟨group, outside⟩ := inv.parent a g ((joined a g).mp joins)
    exact ⟨isGroup' g group, outside⟩
  · intro g isGroup
    obtain ⟨p, found, group⟩ := isGroup
    rcases read g p found with ⟨rfl, rfl⟩ | ⟨apart, before⟩
    · rw [nobody]
      refine ring_nil.mpr ⟨?_, fun backed => absurd rfl backed⟩
      rw [nextOf, Function.update_self, blank]
      rfl
    · refine (inv.listed g ⟨p, before, group⟩).congr (fun x inside => ?_) fun x inside _ => ?_
      all_goals
        cases x with
        | none => simp [nextOf, prevOf, apart]
        | some a =>
          have other : a ≠ req := by
            rintro rfl
            exact notMember g (by simpa using inside)
          simp [nextOf, prevOf, other]
  · intro g p found group
    rcases read g p found with ⟨rfl, rfl⟩ | ⟨-, before⟩
    · have noDec : .dec g ∉ stack := by
        intro inside
        obtain ⟨⟨p', found', -⟩, -⟩ := inv.frames _ inside g rfl
        rw [fresh] at found'
        cases found'
      rw [nobody, if_neg noDec, blank]
      rfl
    · exact inv.size g p before group
  · intro f inside g on
    obtain ⟨group, outside⟩ := inv.frames f inside g on
    exact ⟨isGroup' g group, outside⟩
  · intro a p found plain
    rcases read a p found with ⟨-, rfl⟩ | ⟨-, before⟩
    · rw [blank]
    · exact inv.childless a p before plain
  · intro f inside a on
    exact live' a (inv.cancelled f inside a on)
  · intro g p found group delayed outside vacant
    rcases read g p found with ⟨-, rfl⟩ | ⟨-, before⟩
    · rw [blank] at delayed
      exact absurd rfl delayed
    · exact inv.waiting g p before group delayed outside vacant

/-- A worker finishes a request. -/
theorem complete_grouped (inv : Grouped c out done stack members) (working : req ∈ out) :
    Grouped c (out.erase req) (req :: done) stack members := by
  have order : (places (out.erase req) (req :: done) stack).Perm (places out done stack) := by
    refine List.Perm.append_right _ ?_
    refine List.perm_middle.trans ?_
    exact (List.perm_cons_erase working).symm.append_right done
  refine ⟨order.nodup_iff.mpr inv.nodup, ?_, ?_, ?_, ?_, inv.int1, inv.distinct, inv.member,
    inv.parent, inv.listed, inv.size, inv.frames, inv.childless, inv.cancelled, inv.walked,
    inv.waiting, inv.shape⟩
  · intro a inside
    exact inv.live a (order.mem_iff.mp inside)
  · intro a q found
    rw [order.mem_iff]
    exact inv.known a q found
  · intro a inside
    exact inv.plain a (List.mem_of_mem_erase inside)
  · intro a inside q found group
    rcases List.mem_cons.mp inside with rfl | old
    · rw [inv.plain a working q found] at group
      cases group
    · exact inv.unseen a old q found group

end

/-! ### All steps -/

section
variable {s s' : State}

theorem cores_update (h : Heap) (a : Addr) (r : Option EioReq) :
    cores (Function.update h a r) = Function.update (cores h) a (r.map core) := by
  funext b
  by_cases same : b = a
  · subst same
    simp [cores]
  · simp [cores, same]

theorem cores_some {h : Heap} {a : Addr} {r : EioReq} (found : h a = some r) :
    cores h a = some (core r) := by
  rw [cores, found]
  rfl

theorem store_mapped {h h' : Heap} {a : Addr} {f : EioReq → EioReq} {u : Addr → Core → Core}
    (stored : store h a f = some h')
    (effect : ∀ b r, core (if b = a then f r else r) = u b (core r)) :
    Mapped u (cores h) (cores h') := by
  intro b
  rw [cores, store_read stored b, cores, Option.map_map, Option.map_map]
  exact congrArg (Option.map · (h b)) (funext (effect b))

theorem untouched_iff : untouched s req = true ↔ req ∉ owners s.stack := by
  rw [owners_lower]
  simp [untouched]

theorem openGroup_iff {g : Addr} : openGroup s g = true ↔
    (∃ q, s.heap g = some q ∧ q.isGroup = true) ∧ g ∉ owners s.stack := by
  rw [openGroup, Bool.and_eq_true, untouched_iff, Option.any_eq_true]

theorem addable_iff : addable s req = true ↔
    (∃ r, s.heap req = some r ∧ r.grp = none) ∧ req ∉ owners s.stack := by
  rw [addable, Bool.and_eq_true, untouched_iff, Option.any_eq_true]
  simp

/-- A call goes on top of the frame it is made from. -/
theorem push_grouped (inv : Grouped c out done stack members) {f : Frame} (req : f.req = none)
    (decs : ∀ g, f ≠ .dec g) (outer : bottom f = true → ∀ f' ∈ stack, lower f' = true)
    (onGroup : ∀ g, onGroup f = some g → IsGroup c g ∧ g ∉ owners stack)
    (cancels : ∀ a, cancels f = some a → (c a).isSome)
    (walks : ∀ a, walks f = some a → ∃ g, a ∈ members g) :
    Grouped c out done (f :: stack) members := by
  refine inv.restack ?_ ?_ ?_ ?_ ?_ ⟨outer, inv.shape⟩
  · simp [owners, req]
  · intro a
    have other : f ≠ .destroy a := by
      rintro rfl
      cases req
    simp [Ne.symm other]
  · intro g
    simp [Ne.symm (decs g)]
  · intro f' inside
    rcases List.mem_cons.mp inside with rfl | old
    · exact Or.inr ⟨onGroup, cancels, walks⟩
    · exact Or.inl old
  · rintro g q - - - ⟨f', inside, on⟩
    exact ⟨f', List.mem_cons_of_mem f inside, on⟩

/-- A frame gives way to another that is about the same requests. -/
theorem swap_grouped (inv : Grouped c out done (f :: rest) members) {f' : Frame}
    (req : f'.req = f.req) (destroys : ∀ a, f' = .destroy a ↔ f = .destroy a)
    (decs : ∀ g, f' = .dec g ↔ f = .dec g) (outer : bottom f' = true → bottom f = true)
    (onGroup : ∀ g, onGroup f' = some g → onGroup f = some g)
    (pends : ∀ g, pending f = some g → pending f' = some g)
    (cancels : ∀ a, cancels f' = some a → (c a).isSome)
    (walks : ∀ a, walks f' = some a → ∃ g, a ∈ members g) :
    Grouped c out done (f' :: rest) members := by
  refine inv.restack ?_ ?_ ?_ ?_ ?_ ⟨fun isBottom => inv.shape.1 (outer isBottom), inv.shape.2⟩
  · rw [owners, owners, List.filterMap_cons, List.filterMap_cons, req]
  · intro a
    simp [destroys, eq_comm]
  · intro g
    simp [decs, eq_comm]
  · intro f₁ inside
    rcases List.mem_cons.mp inside with rfl | old
    · exact Or.inr ⟨fun g on => inv.frames f List.mem_cons_self g (onGroup g on), cancels, walks⟩
    · exact Or.inl (List.mem_cons_of_mem f old)
  · rintro g q - - - ⟨f₁, inside, on⟩
    rcases List.mem_cons.mp inside with rfl | old
    · exact ⟨f', List.mem_cons_self, pends g on⟩
    · exact ⟨f₁, List.mem_cons_of_mem f' old, on⟩

/-- A frame that nothing waits for returns. -/
theorem pop_grouped (inv : Grouped c out done (f :: rest) members) (req : f.req = none)
    (decs : ∀ g, f ≠ .dec g)
    (waits : ∀ g q, c g = some q → q.size = 0 → q.int1 ≠ 0 → pending f ≠ some g) :
    Grouped c out done rest members := by
  refine inv.restack ?_ ?_ ?_ ?_ ?_ inv.shape.2
  · simp [owners, req]
  · intro a
    have other : f ≠ .destroy a := by
      rintro rfl
      cases req
    simp [Ne.symm other]
  · intro g
    simp [Ne.symm (decs g)]
  · intro f' inside
    exact Or.inl (List.mem_cons_of_mem f inside)
  · rintro g q found size delayed ⟨f', inside, on⟩
    rcases List.mem_cons.mp inside with rfl | old
    · exact absurd on (waits g q found size delayed)
    · exact ⟨f', old, on⟩

theorem leaveFeed_grouped {g : Addr} {dec : Bool} (f : Frame)
    (kind : f = .tryFeed g dec ∨ f = .fed g dec)
    (inv : Grouped c out done (f :: rest) members) :
    Grouped c out done (leaveFeed g dec rest) members := by
  cases dec with
  | true =>
    rcases kind with rfl | rfl
    all_goals
      exact swap_grouped inv rfl (by simp) (by simp) (fun _ => rfl) (fun _ on => on)
        (fun _ on => on) (fun _ on => by cases on) (fun _ on => by cases on)
  | false =>
    rcases kind with rfl | rfl
    all_goals
      exact pop_grouped inv rfl (by simp) fun _ _ _ _ _ on => by cases on

theorem first_member (inv : Grouped c out done stack members) {r : Core} {a b : Addr}
    (found : c a = some r) (first : r.grpFirst = some b) : b ∈ members a := by
  cases kind : r.isGroup with
  | false =>
    rw [inv.childless a r found kind] at first
    cases first
  | true =>
    have next := (inv.listed a ⟨r, found, kind⟩).next_mem (x := none) List.mem_cons_self
    simpa [nextOf, found, first] using next

theorem member_live (inv : Grouped c out done stack members) {a g : Addr}
    (inside : a ∈ members g) : (c a).isSome := by
  obtain ⟨q, found, -⟩ := (inv.member g a).mp inside
  rw [found]
  rfl

/-- What holds of the groups in a state. -/
def Sound (s : State) : Prop := ∃ members, Grouped (cores s.heap) s.out s.done s.stack members

/-- `etp_poll` shifts a request and finishes it. -/
theorem take_grouped (inv : Grouped c out done (.poll :: rest) members) (taken : req ∈ done)
    {q : Core}
    (found : c req = some q) (empty : q.isGroup = true → q.size = 0) :
    Grouped c out (done.erase req) (.finish req :: .poll :: rest) members := by
  have low : ∀ f ∈ .poll :: rest, lower f = true :=
    List.forall_mem_cons.mpr ⟨rfl, inv.shape.1 rfl⟩
  have order : (places out (done.erase req) (.finish req :: .poll :: rest)).Perm
      (places out done (.poll :: rest)) := by
    have moved : (out ++ done.erase req ++ req :: owners (.poll :: rest)).Perm
        (out ++ (req :: done.erase req) ++ owners (.poll :: rest)) :=
      List.perm_middle.trans (List.perm_middle.symm.append_right _)
    exact moved.trans (((List.perm_cons_erase taken).symm.append_left out).append_right _)
  have inside : req ∈ places out done (.poll :: rest) :=
    List.mem_append_left _ (List.mem_append_right out taken)
  refine begin_grouped inv low rfl (fun a => Iff.rfl) (lower_notDec low) (order.nodup_iff.mpr inv.nodup)
    (fun a => ?_) (fun a => List.mem_of_mem_erase) ?_ (inv.empty found empty) ?_
  · rw [order.mem_iff]
    exact ⟨Or.inr, fun either => either.elim (fun same => same ▸ inside) id⟩
  · rw [found]
    rfl
  · intro f member g on
    exact absurd ⟨f, member, on⟩ (lower_pending low g)

/-- `grp_dec` finishes the group. -/
theorem check_grouped {g : Addr} (inv : Grouped c out done (.check g :: rest) members) {q : Core}
    (found : c g = some q) (size : q.size = 0) (delayed : q.int1 ≠ 0) :
    Grouped c out done (.finish g :: rest) members := by
  have low := inv.shape.1 rfl
  obtain ⟨⟨q', found', isGroup⟩, outside⟩ := inv.frames _ List.mem_cons_self g rfl
  rw [found, Option.some.injEq] at found'
  subst found'
  have absent : g ∉ places out done (.check g :: rest) := by
    intro inside
    simp only [places, List.mem_append] at inside
    rcases inside with (working | finished) | owned
    · rw [inv.plain g working q found] at isGroup
      cases isGroup
    · exact delayed (inv.unseen g finished q found isGroup)
    · exact outside owned
  have order : (places out done (.finish g :: rest)).Perm
      (g :: places out done (.check g :: rest)) := List.perm_middle
  refine begin_grouped inv low rfl (fun a => by simp) (fun g' => ?_) ?_ (fun a => ?_) (fun a => id) ?_
    (inv.empty found fun _ => size) ?_
  · simpa using lower_notDec low g'
  · rw [order.nodup_iff, List.nodup_cons]
    exact ⟨absent, inv.nodup⟩
  · rw [order.mem_iff, List.mem_cons]
  · rw [found]
    rfl
  · intro f member g' on
    rcases List.mem_cons.mp member with rfl | below
    · exact (Option.some.inj on).symm
    · exact absurd ⟨f, below, on⟩ (lower_pending low g')

theorem goPoll_sound {take : Option Addr}
    (inv : Grouped (cores s.heap) s.out s.done (.poll :: rest) members)
    (on : s.stack = .poll :: rest) (taken : goPoll s rest take = some s') : Sound s' := by
  unfold goPoll at taken
  cases take with
  | none =>
    obtain rfl := Option.some.inj taken
    exact ⟨members, pop_grouped inv rfl (by simp) fun _ _ _ _ _ on => by cases on⟩
  | some req =>
    simp only at taken
    split at taken
    next inside =>
      obtain ⟨r, found, taken⟩ := Option.bind_eq_some_iff.mp taken
      split at taken
      next early =>
        obtain ⟨h, stored, rfl⟩ := Option.map_eq_some_iff.mp taken
        refine ⟨members, ?_⟩
        rw [on]
        refine delay_grouped inv inside (cores_some found) early.1 early.2 ?_
        refine store_mapped stored fun a r => ?_
        by_cases same : a = req <;> simp [same, core]
      next finished =>
        obtain rfl := Option.some.inj taken
        refine ⟨members, ?_⟩
        rw [on]
        refine take_grouped inv inside (cores_some found) fun isGroup => ?_
        exact not_not.mp fun size => finished ⟨isGroup, size⟩
    next => cases taken

theorem goFrame_sound {take : Option Addr}
    (inv : Grouped (cores s.heap) s.out s.done (f :: rest) members)
    (on : s.stack = f :: rest) (taken : goFrame s f rest take = some s') : Sound s' := by
  cases f with
  | poll => exact goPoll_sound inv on taken
  | finish req =>
    obtain ⟨r, found, rfl⟩ := Option.map_eq_some_iff.mp taken
    refine ⟨members, ?_⟩
    split
    all_goals
      exact swap_grouped inv rfl (by simp) (by simp) (fun _ => rfl) (fun _ on => on)
        (fun _ on => on) (fun _ on => by cases on) (fun _ on => by cases on)
  | callback req => cases taken
  | unlink req =>
    obtain ⟨r, found, taken⟩ := Option.bind_eq_some_iff.mp taken
    cases parent : r.grp with
    | none =>
      simp only [parent] at taken
      obtain rfl := Option.some.inj taken
      exact ⟨members, leave_grouped inv (cores_some found) parent⟩
    | some g =>
      simp only [parent] at taken
      obtain ⟨h, ran, rfl⟩ := Option.map_eq_some_iff.mp taken
      exact ⟨_, unlink_grouped inv (cores_some found) parent (unlinkReq_cores ran)⟩
  | destroy req =>
    obtain ⟨r, found, rfl⟩ := Option.map_eq_some_iff.mp taken
    refine ⟨members, ?_⟩
    rw [cores_update]
    exact free_grouped inv
  | dec g =>
    obtain ⟨h, stored, rfl⟩ := Option.map_eq_some_iff.mp taken
    refine ⟨members, decrement_grouped inv (store_mapped stored fun a r => ?_)⟩
    by_cases same : a = g <;> simp [same, core]
  | tryFeed g dec =>
    obtain ⟨q, found, taken⟩ := Option.bind_eq_some_iff.mp taken
    split at taken
    next more =>
      obtain ⟨h, stored, rfl⟩ := Option.map_eq_some_iff.mp taken
      refine ⟨members, ?_⟩
      rw [store_cores stored fun r => rfl]
      split
      all_goals
        exact swap_grouped inv rfl (by simp) (by simp) (by cases dec <;> exact fun low => low)
          (fun _ on => on) (by cases dec <;> exact fun _ on => on)
          (fun _ on => by cases on) (fun _ on => by cases on)
    next =>
      obtain rfl := Option.some.inj taken
      exact ⟨members, leaveFeed_grouped _ (Or.inl rfl) inv⟩
  | feeder g dec => cases taken
  | fed g dec =>
    obtain ⟨q, found, taken⟩ := Option.bind_eq_some_iff.mp taken
    split at taken
    next more =>
      obtain rfl := Option.some.inj taken
      exact ⟨members, swap_grouped inv rfl (by simp) (by simp) (by cases dec <;> exact fun low => low)
        (fun _ on => on) (by cases dec <;> exact fun _ on => on)
        (fun _ on => by cases on) (fun _ on => by cases on)⟩
    next =>
      obtain ⟨h, stored, rfl⟩ := Option.map_eq_some_iff.mp taken
      refine ⟨members, ?_⟩
      rw [store_cores stored fun r => rfl]
      exact leaveFeed_grouped _ (Or.inr rfl) inv
  | check g =>
    obtain ⟨q, found, taken⟩ := Option.bind_eq_some_iff.mp taken
    split at taken
    next empty =>
      obtain rfl := Option.some.inj taken
      exact ⟨members, check_grouped inv (cores_some found) empty.1 empty.2⟩
    next notOver =>
      obtain rfl := Option.some.inj taken
      refine ⟨members, pop_grouped inv rfl (by simp) fun g' q' found' size delayed same => ?_⟩
      obtain rfl := Option.some.inj same
      rw [cores_some found, Option.some.injEq] at found'
      subst found'
      exact notOver ⟨size, delayed⟩
  | cancel req =>
    obtain ⟨r, found, taken⟩ := Option.bind_eq_some_iff.mp taken
    obtain ⟨h, stored, rfl⟩ := Option.map_eq_some_iff.mp taken
    refine ⟨members, ?_⟩
    rw [store_cores stored fun r => rfl]
    exact swap_grouped inv rfl (by simp) (by simp) (fun low => low) (fun _ on => by cases on)
      (fun _ on => on) (fun _ on => by cases on)
      fun a first => ⟨req, first_member inv (cores_some found) first⟩
  | cancelFrom next =>
    cases next with
    | none =>
      obtain rfl := Option.some.inj taken
      exact ⟨members, pop_grouped inv rfl (by simp) fun _ _ _ _ _ on => by cases on⟩
    | some req =>
      obtain rfl := Option.some.inj taken
      obtain ⟨g, inside⟩ := inv.walked _ List.mem_cons_self req rfl
      have walking : Grouped (cores s.heap) s.out s.done (.cancelNext req :: rest) members :=
        swap_grouped inv rfl (by simp) (by simp) (fun low => low) (fun _ on => by cases on)
          (fun _ on => on) (fun _ on => by cases on)
          fun a same => ⟨g, Option.some.inj same ▸ inside⟩
      refine ⟨members, push_grouped walking rfl (by simp) (fun low => by cases low)
        (fun _ on => by cases on) (fun a same => ?_) (fun _ on => by cases on)⟩
      exact Option.some.inj same ▸ member_live inv inside
  | cancelNext req =>
    obtain ⟨r, found, rfl⟩ := Option.map_eq_some_iff.mp taken
    obtain ⟨g, inside⟩ := inv.walked _ List.mem_cons_self req rfl
    obtain ⟨isGroup, -⟩ := inv.parent req g ((inv.member g req).mp inside)
    refine ⟨members, swap_grouped inv rfl (by simp) (by simp) (fun low => low)
      (fun _ on => by cases on) (fun _ on => on) (fun _ on => by cases on) fun a next => ⟨g, ?_⟩⟩
    exact inv.neighbour (cores_some found) inside isGroup (Or.inr next)

theorem step_sound {act : Action} (sound : Sound s) (taken : step s act = some s') : Sound s' := by
  obtain ⟨members, inv⟩ := sound
  cases act with
  | submit req finish =>
    simp only [step] at taken
    split at taken
    next fresh =>
      obtain rfl := Option.some.inj taken
      refine ⟨members, ?_⟩
      rw [cores_update]
      refine alloc_grouped inv ?_ rfl (Or.inl ⟨rfl, rfl, rfl⟩)
      rw [cores, fresh.2]
      rfl
    next => cases taken
  | grp req finish =>
    simp only [step] at taken
    split at taken
    next fresh =>
      obtain rfl := Option.some.inj taken
      refine ⟨members, ?_⟩
      rw [cores_update]
      refine alloc_grouped inv ?_ rfl (Or.inr ⟨rfl, rfl, rfl⟩)
      rw [cores, fresh.2]
      rfl
    next => cases taken
  | add g req =>
    simp only [step] at taken
    split at taken
    next allowed =>
      obtain ⟨h, ran, rfl⟩ := Option.map_eq_some_iff.mp taken
      obtain ⟨⟨q, group, isGroup⟩, unfinished⟩ := openGroup_iff.mp allowed.2.1
      obtain ⟨⟨r, found, alone⟩, free⟩ := addable_iff.mp allowed.2.2
      obtain ⟨q', group', map⟩ := eioGrpAdd_cores ran
      rw [group, Option.some.injEq] at group'
      subst group'
      exact ⟨_, add_grouped inv (cores_some group) isGroup unfinished (cores_some found) alone free map⟩
    next => cases taken
  | feed g limit | limit g limit =>
    simp only [step] at taken
    split at taken
    next allowed =>
      obtain ⟨h, stored, rfl⟩ := Option.map_eq_some_iff.mp taken
      obtain ⟨⟨q, group, isGroup⟩, unfinished⟩ := openGroup_iff.mp allowed.2
      refine ⟨members, ?_⟩
      rw [store_cores stored fun r => rfl]
      refine push_grouped inv rfl (by simp) (fun low => by cases low) (fun g' on => ?_)
        (fun _ on => by cases on) (fun _ on => by cases on)
      obtain rfl := Option.some.inj on
      exact ⟨⟨_, cores_some group, isGroup⟩, unfinished⟩
    next => cases taken
  | cancel req =>
    simp only [step] at taken
    split at taken
    next allowed =>
      obtain rfl := Option.some.inj taken
      refine ⟨members, push_grouped inv rfl (by simp) (fun low => by cases low)
        (fun _ on => by cases on) (fun a same => ?_) (fun _ on => by cases on)⟩
      obtain rfl := Option.some.inj same
      simpa [cores] using allowed.2
    next => cases taken
  | grpCancel g =>
    simp only [step] at taken
    split at taken
    next =>
      obtain ⟨q, found, rfl⟩ := Option.map_eq_some_iff.mp taken
      exact ⟨members, push_grouped inv rfl (by simp) (fun low => by cases low)
        (fun _ on => by cases on) (fun _ on => by cases on) fun a first => ⟨g, first_member inv (cores_some found) first⟩⟩
    next => cases taken
  | poll =>
    simp only [step] at taken
    split at taken
    next allowed =>
      obtain rfl := Option.some.inj taken
      have low : ∀ f ∈ s.stack, lower f = true := by
        cases on : s.stack with
        | nil => exact fun _ inside => by cases inside
        | cons f rest =>
          rw [on] at allowed inv
          cases f <;> try cases allowed
          exact List.forall_mem_cons.mpr ⟨rfl, inv.shape.1 rfl⟩
      exact ⟨members, push_grouped inv rfl (by simp) (fun _ => low) (fun _ on => by cases on)
        (fun _ on => by cases on) (fun _ on => by cases on)⟩
    next => cases taken
  | ret =>
    simp only [step] at taken
    split at taken
    next req rest on =>
      obtain rfl := Option.some.inj taken
      rw [on] at inv
      exact ⟨members, swap_grouped inv rfl (by simp) (by simp) (fun _ => rfl) (fun _ on => on)
        (fun _ on => on) (fun _ on => by cases on) (fun _ on => by cases on)⟩
    next g dec rest on =>
      obtain rfl := Option.some.inj taken
      rw [on] at inv
      exact ⟨members, swap_grouped inv rfl (by simp) (by simp) (by cases dec <;> exact fun low => low)
        (fun _ on => on) (by cases dec <;> exact fun _ on => on)
        (fun _ on => by cases on) (fun _ on => by cases on)⟩
    next => cases taken
  | complete req =>
    simp only [step] at taken
    split at taken
    next working =>
      obtain rfl := Option.some.inj taken
      exact ⟨members, complete_grouped inv working⟩
    next => cases taken
  | go take =>
    cases on : s.stack with
    | nil =>
      simp only [step, on] at taken
      cases taken
    | cons f rest =>
      simp only [step, on] at taken
      rw [on] at inv
      exact goFrame_sound inv on taken

theorem reachable_sound (reached : Reachable groups s) : Sound s := by
  refine reached.invariant (P := Sound) ⟨fun _ => [], ?_⟩
    fun _ _ _ sound _ taken => step_sound sound taken
  have empty : ∀ a q, cores groups.init.heap a ≠ some q := fun a q found => by cases found
  have noGroup : ∀ g, ¬ IsGroup (cores groups.init.heap) g := by
    intro g isGroup
    obtain ⟨q, found, -⟩ := isGroup
    exact empty g q found
  have noMember : ∀ a g, ¬ InGroup (cores groups.init.heap) groups.init.stack a g := by
    intro a g inside
    obtain ⟨q, found, -⟩ := inside
    exact empty a q found
  have noFrame : ∀ f, f ∉ groups.init.stack := fun f => List.not_mem_nil
  exact {
    nodup := List.nodup_nil
    live := fun a inside => absurd inside List.not_mem_nil
    known := fun a q found => absurd found (empty a q)
    plain := fun a inside => absurd inside List.not_mem_nil
    unseen := fun a inside => absurd inside List.not_mem_nil
    int1 := fun a q found => absurd found (empty a q)
    distinct := fun _ => List.nodup_nil
    member := fun g a => iff_of_false List.not_mem_nil (noMember a g)
    parent := fun a g joins => absurd joins (noMember a g)
    listed := fun g isGroup => absurd isGroup (noGroup g)
    size := fun g q found => absurd found (empty g q)
    frames := fun f inside => absurd inside (noFrame f)
    childless := fun a q found => absurd found (empty a q)
    cancelled := fun f inside => absurd inside (noFrame f)
    walked := fun f inside => absurd inside (noFrame f)
    waiting := fun g q found => absurd found (empty g q)
    shape := trivial }

end

end WebbitAsyncio.Invariants.GroupSteps
