import WebbitAsyncio.Invariants.GroupSteps
import WebbitAsyncio.Lib.Ranking

/-!
# Groups finish after their members

Application code may submit, add, cancel and poll as it likes, in callbacks and feeders
too. Every group keeps a proper list of the requests added to it until they are finished,
the library never follows a pointer to a request it has freed, and a group whose members
are finished is finished itself, whether `etp_poll` saw it before or after them.
-/
namespace WebbitAsyncio.Guarantees.GroupCompletion
open WebbitAsyncio.Lib.TransitionSystem WebbitAsyncio.Lib.LinkedRing WebbitAsyncio.Lib.Ranking
open WebbitAsyncio.Source.Groups
open WebbitAsyncio.Invariants.Membership WebbitAsyncio.Invariants.GroupSteps
open WebbitAsyncio.Source.Reqq (Addr)

/-- The requests from `p` on by `grp_next`; each leads back by `grp_prev`. -/
def Chain (h : Heap) : Option Addr → Option Addr → List Addr → Prop
  | _, p, [] => p = none
  | prev, p, a :: rest =>
    p = some a ∧ ∃ r, h a = some r ∧ r.grpPrev = prev ∧ Chain h (some a) r.grpNext rest

/-- The request was added to the group and is not finished. -/
def Member (s : State) (a g : Addr) : Prop :=
  ∃ r, s.heap a = some r ∧ r.grp = some g ∧ .destroy a ∉ s.stack

structure GroupsKept (s : State) (members : Addr → List Addr) : Prop where
  chain : ∀ g q, s.heap g = some q → q.isGroup = true → Chain s.heap none q.grpFirst (members g)
  once : ∀ g, (members g).Nodup
  member : ∀ g a, a ∈ members g ↔ Member s a g
  /-- The group outlives its members. -/
  parent : ∀ a g, Member s a g → openGroup s g = true
  /-- The request that is being taken out is still counted. -/
  size : ∀ g q, s.heap g = some q → q.isGroup = true →
    q.size = (members g).length + if .dec g ∈ s.stack then 1 else 0
  /-- No request is queued, executing, finished or being destroyed twice. -/
  places : (s.out ++ s.done ++ s.stack.filterMap Frame.req).Nodup

variable {s : State} {members : Addr → List Addr}

theorem chain_of_links {h : Heap} {g : Addr} {l : List Addr} {x : Option Addr}
    (path : (x :: (l.map some ++ [none])).IsChain
      (Link (fun x => x ≠ none) (nextOf (cores h) g) (prevOf (cores h))))
    (live : ∀ a ∈ l, (h a).isSome) : Chain h x (nextOf (cores h) g x) l := by
  induction l generalizing x with
  | nil =>
    rw [List.map_nil, List.nil_append, List.isChain_cons_cons] at path
    exact path.1.1
  | cons a rest ih =>
    rw [List.map_cons, List.cons_append, List.isChain_cons_cons] at path
    obtain ⟨⟨next, prev⟩, tail⟩ := path
    obtain ⟨r, found⟩ := Option.isSome_iff_exists.mp (live a List.mem_cons_self)
    have before : r.grpPrev = x := by
      simpa [prevOf, cores_some found, core] using prev (Option.some_ne_none a)
    have after : nextOf (cores h) g (some a) = r.grpNext := by
      simp [nextOf, cores_some found, core]
    refine ⟨next, r, found, before, ?_⟩
    rw [← after]
    exact ih tail fun b inside => live b (List.mem_cons_of_mem a inside)

theorem joined_iff {a g : Addr} : InGroup (cores s.heap) s.stack a g ↔ Member s a g := by
  unfold InGroup Member cores
  constructor
  · rintro ⟨q, found, inside, kept⟩
    obtain ⟨r, read, rfl⟩ := Option.map_eq_some_iff.mp found
    exact ⟨r, read, inside, kept⟩
  · rintro ⟨r, found, inside, kept⟩
    exact ⟨core r, cores_some found, inside, kept⟩

theorem isGroup_iff {h : Heap} {g : Addr} :
    IsGroup (cores h) g ↔ ∃ q, h g = some q ∧ q.isGroup = true := by
  unfold IsGroup cores
  constructor
  · rintro ⟨c, found, isGroup⟩
    obtain ⟨q, read, rfl⟩ := Option.map_eq_some_iff.mp found
    exact ⟨q, read, isGroup⟩
  · rintro ⟨q, found, isGroup⟩
    exact ⟨core q, cores_some found, isGroup⟩

theorem groups_kept (reached : Reachable groups s) : ∃ members, GroupsKept s members := by
  obtain ⟨members, inv⟩ := reachable_sound reached
  refine ⟨members, ?_, inv.distinct, ?_, ?_, ?_, inv.nodup⟩
  · intro g q found isGroup
    have links := inv.listed g (isGroup_iff.mpr ⟨q, found, isGroup⟩)
    have live : ∀ a ∈ members g, (s.heap a).isSome := by
      intro a inside
      obtain ⟨r, there, -⟩ := joined_iff.mp ((inv.member g a).mp inside)
      rw [there]
      rfl
    have first : nextOf (cores s.heap) g none = q.grpFirst := by
      simp [nextOf, cores_some found, core]
    rw [← first]
    exact chain_of_links links live
  · intro g a
    rw [inv.member, joined_iff]
  · intro a g inside
    obtain ⟨isGroup, unfinished⟩ := inv.parent a g (joined_iff.mpr inside)
    exact openGroup_iff.mpr ⟨isGroup_iff.mp isGroup, unfinished⟩
  · intro g q found isGroup
    exact inv.size g (core q) (cores_some found) isGroup

/-- A feeder adds a second request; `etp_poll` sees the group before its members and is
taking the second one out. -/
def fedRun : List Action :=
  [.grp 1 true, .submit 2 true, .add 1 2, .feed 1 2, .go none, .submit 3 false, .add 1 3, .ret,
    .go none, .go none, .poll, .go (some 1), .complete 3, .go (some 3), .go none, .go none]

/-- The feeder adds no more, and the group is finished within its last member. -/
def restRun : List Action :=
  [.go none, .go none, .ret, .go none, .go none, .go none, .complete 2, .go (some 2), .go none,
    .ret, .go none, .go none, .go none, .go none, .go none, .go none, .ret, .go none, .go none,
    .go none, .go none]

theorem groups_kept_fed : ∃ s members, groups.run groups.init fedRun = some s ∧
    GroupsKept s members ∧ s.stack = [.dec 1, .destroy 3, .poll] := by
  have ran : (groups.run groups.init fedRun).map State.stack =
      some [.dec 1, .destroy 3, .poll] := by decide +kernel
  obtain ⟨s, run, stack⟩ := Option.map_eq_some_iff.mp ran
  obtain ⟨members, kept⟩ := groups_kept (reachable_run fedRun .start run)
  exact ⟨s, members, run, kept, stack⟩

/-! ### Freed requests -/

theorem live_of_core {h : Heap} {a : Addr} (live : (cores h a).isSome) :
    ∃ r, h a = some r := by
  rw [cores, Option.isSome_map] at live
  exact Option.isSome_iff_exists.mp live

theorem group_live {h : Heap} {g : Addr} (isGroup : IsGroup (cores h) g) : ∃ q, h g = some q := by
  obtain ⟨q, found, -⟩ := isGroup_iff.mp isGroup
  exact ⟨q, found⟩

/-- Wherever the library is, it can go on. -/
theorem goFrame_isSome {f : Frame} {rest : List Frame} {take : Option Addr}
    (inv : Grouped (cores s.heap) s.out s.done (f :: rest) members) (user : inUser (f :: rest) = false)
    (finished : ∀ req, take = some req → req ∈ s.done) :
    (goFrame s f rest take).isSome := by
  have owner : ∀ req, f.req = some req → ∃ r, s.heap req = some r := by
    intro req on
    refine live_of_core (inv.live req (List.mem_append_right _ ?_))
    exact owners_lower.mpr ⟨f, List.mem_cons_self, on⟩
  have group : ∀ g, onGroup f = some g → ∃ q, s.heap g = some q := fun g on =>
    group_live (inv.frames f List.mem_cons_self g on).1
  cases f with
  | poll =>
    cases take with
    | none => rfl
    | some req =>
      have inside := finished req rfl
      obtain ⟨r, found⟩ := live_of_core (inv.live req
        (List.mem_append_left _ (List.mem_append_right _ inside)))
      simp only [goFrame, goPoll, if_pos inside, found, Option.bind_some]
      split
      · simp [store, found]
      · rfl
  | finish req | destroy req =>
    obtain ⟨r, found⟩ := owner req rfl
    simp [goFrame, found]
  | callback req => cases user
  | unlink req =>
    obtain ⟨r, found⟩ := owner req rfl
    simp only [goFrame, found, Option.bind_some]
    cases parent : r.grp with
    | none => rfl
    | some g =>
      have noDestroy : .destroy req ∉ Frame.unlink req :: rest := by
        intro inside
        have below : .destroy req ∈ rest := by simpa using inside
        have once : (req :: owners rest).Nodup := (List.nodup_append.mp inv.nodup).2.1
        exact (List.nodup_cons.mp once).1 (owners_lower.mpr ⟨_, below, rfl⟩)
      have joins : InGroup (cores s.heap) (.unlink req :: rest) req g :=
        ⟨core r, cores_some found, parent, noDestroy⟩
      have inside := (inv.member g req).mpr joins
      have isGroup := (inv.parent req g joins).1
      have beside : ∀ a, r.grpPrev = some a ∨ r.grpNext = some a → (s.heap a).isSome := by
        intro a next
        obtain ⟨r', there⟩ := live_of_core
          (member_live inv (inv.neighbour (cores_some found) inside isGroup next))
        rw [there]
        rfl
      obtain ⟨q, there⟩ := group_live isGroup
      obtain ⟨h, ran⟩ : ∃ h, unlinkReq s.heap req r g = some h :=
        unlinkReq_isSome (by rw [there]; rfl) (fun a next => beside a (Or.inr next))
          fun a prev => beside a (Or.inl prev)
      simp [ran]
  | dec g =>
    obtain ⟨q, found⟩ := group g rfl
    simp [goFrame, store, found]
  | tryFeed g dec =>
    obtain ⟨q, found⟩ := group g rfl
    simp only [goFrame, found, Option.bind_some]
    split
    · simp [store, found]
    · rfl
  | feeder g dec => cases user
  | fed g dec =>
    obtain ⟨q, found⟩ := group g rfl
    simp only [goFrame, found, Option.bind_some]
    split
    · rfl
    · simp [store, found]
  | check g =>
    obtain ⟨q, found⟩ := group g rfl
    simp only [goFrame, found, Option.bind_some]
    split <;> rfl
  | cancel req =>
    obtain ⟨r, found⟩ := live_of_core (inv.cancelled _ List.mem_cons_self req rfl)
    simp [goFrame, store, found]
  | cancelFrom next => cases next <;> rfl
  | cancelNext req =>
    obtain ⟨g, inside⟩ := inv.walked _ List.mem_cons_self req rfl
    obtain ⟨r, found⟩ := live_of_core (member_live inv inside)
    simp [goFrame, found]

/-- `eio_grp_add` finds its assertion true and the first member allocated. -/
theorem add_isSome {g req : Addr} (inv : Grouped (cores s.heap) s.out s.done s.stack members)
    (isOpen : openGroup s g = true) (free : addable s req = true) :
    ∃ h, eioGrpAdd s.heap g req = some h := by
  obtain ⟨⟨q, group, -⟩, -⟩ := openGroup_iff.mp isOpen
  obtain ⟨⟨r, found, -⟩, -⟩ := addable_iff.mp free
  refine eioGrpAdd_isSome group ?_ (by rw [found]; rfl) fun a first => ?_
  · intro closed
    rcases inv.int1 g (core q) (cores_some group) with zero | one
    · rw [show (core q).int1 = q.int1 from rfl, closed] at zero
      cases zero
    · rw [show (core q).int1 = q.int1 from rfl, closed] at one
      cases one
  · obtain ⟨r', there⟩ := live_of_core (member_live inv (first_member inv (cores_some group) first))
    rw [there]
    rfl

theorem no_freed_access (reached : Reachable groups s) :
    (∀ take, inUser s.stack = false → (∀ req, take = some req → req ∈ s.done) →
      (step s (.go take)).isSome) ∧
    ∀ g req, inUser s.stack = true → openGroup s g = true → addable s req = true →
      (step s (.add g req)).isSome := by
  obtain ⟨members, inv⟩ := reachable_sound reached
  constructor
  · intro take library finished
    cases on : s.stack with
    | nil =>
      rw [on] at library
      cases library
    | cons f rest =>
      rw [on] at inv library
      simp only [step, on]
      exact goFrame_isSome inv library finished
  · intro g req user isOpen free
    obtain ⟨h, ran⟩ := add_isSome inv isOpen free
    simp only [step, if_pos (And.intro user (And.intro isOpen free)), ran]
    rfl

theorem no_freed_access_fed : ∃ s, groups.run groups.init fedRun = some s ∧
    (step s (.go none)).isSome := by
  have ran : (groups.run groups.init fedRun).map State.stack =
      some [.dec 1, .destroy 3, .poll] := by decide +kernel
  obtain ⟨s, run, stack⟩ := Option.map_eq_some_iff.mp ran
  have library : inUser s.stack = false := by
    rw [stack]
    rfl
  exact ⟨s, run, (no_freed_access (reachable_run fedRun .start run)).1 none library
    fun _ none => by cases none⟩

/-! ### Nothing is left -/

/-- No group is added to itself or to a request below it. -/
def noCircle (s : State) : Action → Prop
  | .add grp req => ¬ Relation.ReflTransGen (Member s) grp req
  | _ => True

/-- `req` was added to `g`, and may be finished by now. -/
def Below (h : Heap) (req g : Addr) : Prop := ∃ r, h req = some r ∧ r.grp = some g

/-- `grp` is not changed. -/
def SameGrp (h h' : Heap) : Prop := ∀ a r', h' a = some r' → ∃ r, h a = some r ∧ r'.grp = r.grp

theorem sameGrp_refl (h : Heap) : SameGrp h h := fun _ r' found => ⟨r', found, rfl⟩

theorem SameGrp.trans {h₁ h₂ h₃ : Heap} (first : SameGrp h₁ h₂) (second : SameGrp h₂ h₃) :
    SameGrp h₁ h₃ := by
  intro a r' found
  obtain ⟨r, found, same⟩ := second a r' found
  obtain ⟨r₀, found, same₀⟩ := first a r found
  exact ⟨r₀, found, same.trans same₀⟩

theorem store_sameGrp {h h' : Heap} {a : Addr} {f : EioReq → EioReq} (stored : store h a f = some h')
    (same : ∀ r, (f r).grp = r.grp) : SameGrp h h' := by
  intro b r' found
  rw [store_read stored] at found
  obtain ⟨r, before, rfl⟩ := Option.map_eq_some_iff.mp found
  refine ⟨r, before, ?_⟩
  split
  · exact same r
  · rfl

theorem storeAt_sameGrp {h h' : Heap} {p : Option Addr} {f : EioReq → EioReq}
    (stored : storeAt h p f = some h') (same : ∀ r, (f r).grp = r.grp) : SameGrp h h' := by
  cases p with
  | none =>
    obtain rfl := Option.some.inj stored
    exact sameGrp_refl h
  | some a => exact store_sameGrp stored same

theorem unlinkReq_sameGrp {h h' : Heap} {req g : Addr} {r : EioReq}
    (ran : unlinkReq h req r g = some h') : SameGrp h h' := by
  obtain ⟨h₁, first, ran⟩ := Option.bind_eq_some_iff.mp ran
  obtain ⟨h₂, second, third⟩ := Option.bind_eq_some_iff.mp ran
  refine (storeAt_sameGrp first fun r => rfl).trans
    ((storeAt_sameGrp second fun r => rfl).trans (store_sameGrp third fun r => ?_))
  split <;> rfl

theorem goFrame_sameGrp {s' : State} {f : Frame} {rest : List Frame} {take : Option Addr}
    (taken : goFrame s f rest take = some s') : SameGrp s.heap s'.heap := by
  cases f with
  | poll =>
    cases take with
    | none =>
      obtain rfl := Option.some.inj taken
      exact sameGrp_refl _
    | some req =>
      simp only [goFrame, goPoll] at taken
      split at taken
      next =>
        obtain ⟨r, found, taken⟩ := Option.bind_eq_some_iff.mp taken
        split at taken
        next =>
          obtain ⟨h, stored, rfl⟩ := Option.map_eq_some_iff.mp taken
          exact store_sameGrp stored fun r => rfl
        next =>
          obtain rfl := Option.some.inj taken
          exact sameGrp_refl _
      next => cases taken
  | finish req | cancelNext req =>
    obtain ⟨r, found, rfl⟩ := Option.map_eq_some_iff.mp taken
    exact sameGrp_refl _
  | callback req | feeder g dec => cases taken
  | unlink req =>
    obtain ⟨r, found, taken⟩ := Option.bind_eq_some_iff.mp taken
    cases parent : r.grp with
    | none =>
      simp only [parent] at taken
      obtain rfl := Option.some.inj taken
      exact sameGrp_refl _
    | some g =>
      simp only [parent] at taken
      obtain ⟨h, ran, rfl⟩ := Option.map_eq_some_iff.mp taken
      exact unlinkReq_sameGrp ran
  | destroy req =>
    obtain ⟨r, found, rfl⟩ := Option.map_eq_some_iff.mp taken
    intro a r' found'
    by_cases same : a = req
    · subst same
      simp at found'
    · exact ⟨r', by simpa [same] using found', rfl⟩
  | dec g =>
    obtain ⟨h, stored, rfl⟩ := Option.map_eq_some_iff.mp taken
    exact store_sameGrp stored fun r => rfl
  | tryFeed g dec | fed g dec | check g =>
    obtain ⟨q, found, taken⟩ := Option.bind_eq_some_iff.mp taken
    split at taken
    all_goals
      first
        | obtain rfl := Option.some.inj taken
          exact sameGrp_refl _
        | obtain ⟨h, stored, rfl⟩ := Option.map_eq_some_iff.mp taken
          exact store_sameGrp stored fun r => rfl
  | cancel req =>
    obtain ⟨r, found, taken⟩ := Option.bind_eq_some_iff.mp taken
    obtain ⟨h, stored, rfl⟩ := Option.map_eq_some_iff.mp taken
    exact store_sameGrp stored fun r => rfl
  | cancelFrom next =>
    cases next with
    | none | some req =>
      obtain rfl := Option.some.inj taken
      exact sameGrp_refl _

theorem SameGrp.below {h h' : Heap} (same : SameGrp h h') {a g : Addr} (below : Below h' a g) :
    Below h a g := by
  obtain ⟨r', found, joins⟩ := below
  obtain ⟨r, before, equal⟩ := same a r' found
  exact ⟨r, before, equal ▸ joins⟩

theorem fresh_below {h : Heap} {req a g : Addr} {q : EioReq} (alone : q.grp = none)
    (below : Below (Function.update h req (some q)) a g) : Below h a g := by
  obtain ⟨r, found, joins⟩ := below
  by_cases same : a = req
  · rw [same, Function.update_self, Option.some.injEq] at found
    rw [← found, alone] at joins
    cases joins
  · rw [Function.update_of_ne same] at found
    exact ⟨r, found, joins⟩

theorem add_below {h h' : Heap} {grp req a g : Addr} (ran : eioGrpAdd h grp req = some h')
    (below : Below h' a g) : Below h a g ∨ a = req ∧ g = grp := by
  obtain ⟨r', found, joins⟩ := below
  obtain ⟨q, -, map⟩ := eioGrpAdd_cores ran
  have now := map a
  rw [cores_some found] at now
  obtain ⟨p, before, effect⟩ := Option.map_eq_some_iff.mp now.symm
  obtain ⟨r, read, rfl⟩ := Option.map_eq_some_iff.mp before
  have parent : (if a = req then some grp else r.grp) = some g :=
    (congrArg Core.grp effect).trans joins
  split at parent
  next same => exact Or.inr ⟨same, (Option.some.inj parent).symm⟩
  next => exact Or.inl ⟨r, read, parent⟩

/-- Above a group that is not finished, every request is an unfinished member of the next. -/
theorem member_path (inv : Grouped (cores s.heap) s.out s.done s.stack members) {grp req : Addr}
    (path : Relation.ReflTransGen (Below s.heap) grp req) (kept : grp ∉ owners s.stack) :
    Relation.ReflTransGen (Member s) grp req := by
  induction path using Relation.ReflTransGen.head_induction_on with
  | refl => exact .refl
  | @head a g below _ ih =>
    obtain ⟨r, found, joins⟩ := below
    have unfinished : .destroy a ∉ s.stack := by
      intro inside
      exact kept (owners_lower.mpr ⟨_, inside, rfl⟩)
    have member : Member s a g := ⟨r, found, joins, unfinished⟩
    exact .head member (ih (inv.parent a g (joined_iff.mpr member)).2)

theorem step_ranked {s' : State} {act : Action} (sound : Sound s) (ranked : Ranked (Below s.heap))
    (met : noCircle s act) (taken : step s act = some s') : Ranked (Below s'.heap) := by
  cases act with
  | submit req finish | grp req finish =>
    simp only [step] at taken
    split at taken
    next =>
      obtain rfl := Option.some.inj taken
      exact ranked.mono fun a g => fresh_below rfl
    next => cases taken
  | add g req =>
    simp only [step] at taken
    split at taken
    next allowed =>
      obtain ⟨h, ran, rfl⟩ := Option.map_eq_some_iff.mp taken
      obtain ⟨members, inv⟩ := sound
      have kept := (openGroup_iff.mp allowed.2.1).2
      have free : ¬ Relation.ReflTransGen (Below s.heap) g req :=
        fun path => met (member_path inv path kept)
      exact (ranked.insert free).mono fun a b => add_below ran
    next => cases taken
  | feed g limit | limit g limit =>
    simp only [step] at taken
    split at taken
    next =>
      obtain ⟨h, stored, rfl⟩ := Option.map_eq_some_iff.mp taken
      have same : SameGrp s.heap h := store_sameGrp stored fun r => rfl
      exact ranked.mono fun a g => same.below
    next => cases taken
  | cancel req | poll | complete req =>
    simp only [step] at taken
    split at taken
    next =>
      obtain rfl := Option.some.inj taken
      exact ranked
    next => cases taken
  | grpCancel g =>
    simp only [step] at taken
    split at taken
    next =>
      obtain ⟨q, found, rfl⟩ := Option.map_eq_some_iff.mp taken
      exact ranked
    next => cases taken
  | ret =>
    simp only [step] at taken
    split at taken
    next req rest on =>
      obtain rfl := Option.some.inj taken
      exact ranked
    next g dec rest on =>
      obtain rfl := Option.some.inj taken
      exact ranked
    next => cases taken
  | go take =>
    cases on : s.stack with
    | nil =>
      simp only [step, on] at taken
      cases taken
    | cons f rest =>
      simp only [step, on] at taken
      exact ranked.mono fun a g => (goFrame_sameGrp taken).below

theorem reachable_ranked (reached : ReachableBy groups noCircle s) : Ranked (Below s.heap) := by
  refine ReachableBy.invariant_of (P := fun s => Ranked (Below s.heap))
    (fun s reached => reachable_sound reached.reachable) (ranked_empty fun a g below => ?_)
    (fun _ _ _ sound ranked met taken => step_ranked sound ranked met taken) reached
  obtain ⟨r, found, -⟩ := below
  cases found

/-- With no work left, every request that is not freed is a group that waits for another
such request. -/
theorem waits_for (inv : Grouped (cores s.heap) s.out s.done s.stack members) (idle : s.stack = [])
    (noWork : s.out = []) (noResults : s.done = []) {g : Addr} {q : EioReq}
    (found : s.heap g = some q) : ∃ a, s.heap a ≠ none ∧ Below s.heap a g := by
  have nowhere : ∀ a, a ∉ places s.out s.done s.stack := by
    intro a inside
    rw [idle, noWork, noResults] at inside
    exact List.not_mem_nil inside
  have outside : g ∉ owners s.stack := fun inside => nowhere g (List.mem_append_right _ inside)
  obtain ⟨isGroup, delayed⟩ := (inv.known g _ (cores_some found)).resolve_left (nowhere g)
  cases list : members g with
  | nil =>
    obtain ⟨f, inside, -⟩ := inv.waiting g _ (cores_some found) isGroup delayed outside list
    rw [idle] at inside
    cases inside
  | cons a rest =>
    have inside : a ∈ members g := by
      rw [list]
      exact List.mem_cons_self
    obtain ⟨r, there, joins, -⟩ := joined_iff.mp ((inv.member g a).mp inside)
    exact ⟨a, by simp [there], r, there, joins⟩

/-- Once all work is executed and delivered no request is left, also where groups were added
to groups. -/
theorem all_finished (reached : ReachableBy groups noCircle s) (idle : s.stack = [])
    (noWork : s.out = []) (noResults : s.done = []) (a : Addr) : s.heap a = none := by
  have ranked := reachable_ranked reached
  obtain ⟨members, inv⟩ := reachable_sound reached.reachable
  by_contra live
  refine ranked.descent (P := fun g => s.heap g ≠ none) (fun g left => ?_) a live
  obtain ⟨q, found⟩ := Option.ne_none_iff_exists'.mp left
  exact waits_for inv idle noWork noResults found

/-- Only groups that are in no group are added to. -/
def addsToRoot (s : State) : Action → Bool
  | .add grp req => grp ≠ req && (s.heap grp).all fun q => q.grp = none
  | _ => true

theorem addsToRoot_sound (s : State) (act : Action) (passed : addsToRoot s act = true) :
    noCircle s act := by
  cases act with
  | add grp req =>
    simp only [addsToRoot, Bool.and_eq_true, decide_eq_true_eq, ne_eq] at passed
    intro path
    cases path.cases_head with
    | inl same => exact passed.1 same
    | inr above =>
      obtain ⟨g, member, -⟩ := above
      obtain ⟨q, found, joins, -⟩ := member
      simp [found, joins] at passed
  | _ => trivial

/-- The addresses are used again, for a second group that holds a first one. -/
def againRun : List Action :=
  [.grp 2 true, .grp 1 false, .submit 3 false, .add 1 3, .add 2 1, .complete 3, .poll,
    .go (some 2), .go (some 1), .go (some 3)] ++ List.replicate 11 (.go none) ++ [.ret] ++
    List.replicate 5 (.go none)

theorem all_finished_fed : ∃ s,
    groups.runIf addsToRoot groups.init (fedRun ++ restRun ++ againRun) = some s ∧
      ∀ a, s.heap a = none := by
  have ran : (groups.runIf addsToRoot groups.init (fedRun ++ restRun ++ againRun)).map
      (fun s => (s.stack, s.out, s.done)) = some ([], [], []) := by
    decide +kernel
  obtain ⟨s, run, rest⟩ := Option.map_eq_some_iff.mp ran
  simp only [Prod.mk.injEq] at rest
  have reached := reachableBy_runIf addsToRoot_sound (fedRun ++ restRun ++ againRun) .start run
  exact ⟨s, run, all_finished reached rest.1 rest.2.1 rest.2.2⟩

end WebbitAsyncio.Guarantees.GroupCompletion
