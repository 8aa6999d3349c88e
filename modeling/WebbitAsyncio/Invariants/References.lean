import WebbitAsyncio.Invariants.Memory
import WebbitAsyncio.Invariants.Submitting

/-!
# Global references

Every `java_data` whose clean-up is still to come keeps up to two global
references alive: the callback's from `alloc_java_data` on, the wrapper's from
`wrap_request` on. On the runs of this module no `java_data` is freed before its
submit operation has returned, so `wrap_request` stores into its own block; then
the handles in use are all different, each refers to the object its ticket names,
and a clean-up deletes nobody else's reference.
-/
namespace WebbitAsyncio.Invariants.References
open WebbitAsyncio.Lib.TransitionSystem
open WebbitAsyncio.Source.EventLoop
open WebbitAsyncio.Invariants.Custody WebbitAsyncio.Invariants.Memory
open WebbitAsyncio.Invariants.Submitting
open WebbitAsyncio.Source.Reqq (Addr)

variable {J : Type}

/-- The submit operation of the request has returned. -/
def Returned (t : Ticket J) : Prop := ∃ w, t.submit = .returned w

/-! ### No block is freed before its submit operation has returned -/

def Settled (s : State J) : Prop :=
  ∀ (id : ReqId) t, s.tickets[id]? = some t → dataFreed t = true → Returned t

/-- The steps that free a `java_data` free one whose submit operation has returned. -/
def FreesReturned (s : State J) (a : Action J) : Prop :=
  ∀ j c p rest t, a = .go j c → s.threads j = .poll (.freeData p) :: rest →
    s.tickets[p.id]? = some t → Returned t

section
variable {s s' : State J} {id : ReqId} {f : Ticket J → Ticket J}

theorem Settled.still (settled : Settled s) (tickets : s'.tickets = s.tickets) : Settled s' :=
  fun id t found => settled id t (tickets ▸ found)

theorem Settled.tracked (settled : Settled s) (tickets : s'.tickets = s.tickets.modify id f)
    (kept : ∀ t, s.tickets[id]? = some t → dataFreed (f t) = true → Returned (f t)) : Settled s' := by
  intro k t found freed
  rw [tickets] at found
  rcases getElem?_modify_cases found with ⟨_, found⟩ | ⟨rfl, before, there, rfl⟩
  · exact settled k t found freed
  · exact kept before there freed

theorem submit_settled [DecidableEq J] {j : J} {pri : Source.Reqq.JInt} {callback : Option Obj}
    {req data : Addr} {ref : Ref} (settled : Settled s) :
    Settled (submitted s j pri callback req data ref) := by
  intro k t found freed
  simp only [submitted, State.setStack_tickets, getElem?_appended] at found
  split at found
  next =>
    obtain rfl := Option.some.inj found
    simp [dataFreed, progress] at freed
  next => exact settled k t found freed

end

theorem transition_settled [DecidableEq J] {s s' : State J} {a : Action J} (cust : InCustody s)
    (pending : Pending s) (settled : Settled s) (inOrder : FreesReturned s a)
    (step : Transition s a s') : Settled s' := by
  cases step with
  | submit => exact submit_settled settled
  | control | spawn | count | pollLock | shiftEmpty | donePoll | unlockEmpty | unlockTook | idling
  | workerLock | wantPoll | workerUnlock | quit => exact settled.still rfl
  | @wrap j c p data rest top =>
    refine settled.tracked rfl fun t found freed => ?_
    obtain ⟨w, returned⟩ := settled _ t found freed
    have work : AtWork s ((j, rest.length), false) (p, data) := by simp [AtWork, top, frameSubmits]
    obtain ⟨t', found', _, _, unfinished⟩ := Pending.ticket pending work
    rw [found] at found'
    obtain rfl := Option.some.inj found'
    simp [openFrame, returned] at unfinished
  | readBack => exact settled.tracked rfl fun _ _ _ => ⟨_, rfl⟩
  | enqueue | shiftTook | decReqs | complete | noCallback | upcall | unref | workerTake | exec
  | push =>
    refine settled.tracked rfl fun t _ freed => ?_
    simp [dataFreed, progress] at freed
  | freeData top =>
    exact settled.tracked rfl fun t found _ => inOrder _ _ _ _ t rfl top found
  | destroy top =>
    obtain ⟨t, ticket, _, place⟩ := cust.ticket (held_top top rfl)
    refine settled.tracked rfl fun t' found _ => ?_
    rw [ticket] at found
    obtain rfl := Option.some.inj found
    exact settled _ t ticket (by simp [dataFreed, place, progress])

theorem settled [DecidableEq J] {ok : State J → Action J → Prop}
    (ordered : ∀ s a, ReachableBy (eventLoop J) ok s → ok s a → FreesReturned s a) {s : State J}
    (h : ReachableBy (eventLoop J) ok s) : Settled s := by
  induction h with
  | start =>
    intro id t found
    simp [eventLoop, start] at found
  | next before met taken ih =>
    exact transition_settled (inCustody before) (Submitting.pending before) ih
      (ordered _ _ before met) (step_transition taken)

/-! ### The handles in use -/

inductive Kind where
  | callback
  | request
  deriving DecidableEq, Repr

def handle (d : JavaData J) : Kind → Option Ref
  | .callback => d.javaCallback
  | .request => d.javaRequest

/-- The object that a handle of this kind should refer to. -/
def object (t : Ticket J) : Kind → Option Obj
  | .callback => t.callback
  | .request =>
    match t.submit with
    | .pending _ => none
    | .wrapped _ wrapper => some wrapper
    | .returned wrapper => wrapper

def handlesAt (s : State J) (a : Addr) (k : Kind) : Option Ref := (s.dataAt a).bind (handle · k)

/-- The handle that request `id` keeps alive. -/
def kept (s : State J) (id : ReqId) (k : Kind) : Option Ref :=
  (s.tickets[id]?).bind fun t => if unreffed t then none else handlesAt s t.data k

structure Referenced (s : State J) : Prop where
  live : ∀ id t k h, s.tickets[id]? = some t → kept s id k = some h →
    ∃ o, object t k = some o ∧ s.refs h = some o
  stored : ∀ id t k o, s.tickets[id]? = some t → unreffed t = false → object t k = some o →
    ∃ h, kept s id k = some h
  distinct : ∀ id id' k k' h, kept s id k = some h → kept s id' k' = some h → id = id' ∧ k = k'

/-- What the references of a request depend on in its ticket. -/
def refsOf (t : Ticket J) : Addr × Option Obj × SubmitState × Bool :=
  (t.data, t.callback, t.submit, unreffed t)

section
variable {s s' : State J}

theorem kept_of_ticket {id : ReqId} {t : Ticket J} (found : s.tickets[id]? = some t) (k : Kind) :
    kept s id k = if unreffed t then none else handlesAt s t.data k := by
  rw [kept, found]
  rfl

theorem kept_ticket {id : ReqId} {k : Kind} {h : Ref} (holds : kept s id k = some h) :
    ∃ t d, s.tickets[id]? = some t ∧ unreffed t = false ∧ s.dataAt t.data = some d ∧
      handle d k = some h := by
  rw [kept, Option.bind_eq_some_iff] at holds
  obtain ⟨t, found, holds⟩ := holds
  split at holds
  next => cases holds
  next live =>
    rw [handlesAt, Option.bind_eq_some_iff] at holds
    obtain ⟨d, there, said⟩ := holds
    exact ⟨t, d, found, by simpa using live, there, said⟩

theorem object_congr {t t' : Ticket J} (callback : t'.callback = t.callback)
    (submit : t'.submit = t.submit) (k : Kind) : object t' k = object t k := by
  cases k with
  | callback => exact callback
  | request => simp only [object, submit]

/-- The ticket `t'` of the state after a step asks of the references of kind `k`
no more than the state before the step provides. -/
def AsksNoMore (s : State J) (id : ReqId) (t' : Ticket J) (k : Kind) : Prop :=
  (kept s id k = none ∧ (unreffed t' = true ∨ object t' k = none)) ∨
    ∃ t, s.tickets[id]? = some t ∧ unreffed t' = unreffed t ∧ object t' k = object t k

/-- The step leaves every handle, object and clean-up as it is. -/
structure SameRefs (s s' : State J) : Prop where
  refs : s'.refs = s.refs
  handles : ∀ id k, kept s' id k = kept s id k
  tickets : ∀ id : ReqId, (s'.tickets[id]?).map refsOf = (s.tickets[id]?).map refsOf

theorem asksNoMore_of_view {id : ReqId} {t' : Ticket J}
    (tickets : (s'.tickets[id]?).map refsOf = (s.tickets[id]?).map refsOf)
    (found : s'.tickets[id]? = some t') (k : Kind) : AsksNoMore s id t' k := by
  rw [found, Option.map_some] at tickets
  obtain ⟨t, before, same⟩ := Option.map_eq_some_iff.mp tickets.symm
  simp only [refsOf, Prod.mk.injEq] at same
  exact .inr ⟨t, before, same.2.2.2.symm, object_congr same.2.1.symm same.2.2.1.symm k⟩

/-- Steps that leave the handles in use as they are. -/
theorem Referenced.keep (referenced : Referenced s)
    (refs : ∀ id k h, kept s id k = some h → s'.refs h = s.refs h)
    (handles : ∀ id k, kept s' id k = kept s id k)
    (tickets : ∀ (id : ReqId) t', s'.tickets[id]? = some t' → ∀ k, AsksNoMore s id t' k) :
    Referenced s' := by
  refine ⟨fun id t' k h found holds => ?_, fun id t' k o found live named => ?_,
    fun id id' k k' h one two => ?_⟩
  · rw [handles] at holds
    rcases tickets id t' found k with ⟨none, _⟩ | ⟨t, before, _, same⟩
    · rw [none] at holds
      cases holds
    · rw [same, refs id k h holds]
      exact referenced.live id t k h before holds
  · rw [handles]
    rcases tickets id t' found k with ⟨_, gone | absent⟩ | ⟨t, before, clean, same⟩
    · rw [gone] at live
      cases live
    · rw [absent] at named
      cases named
    · exact referenced.stored id t k o before (clean ▸ live) (same ▸ named)
  · rw [handles] at one two
    exact referenced.distinct id id' k k' h one two

/-- `kept` reads the tickets and the `java_data` blocks they point to. -/
theorem kept_congr (tickets : ∀ id : ReqId, (s'.tickets[id]?).map refsOf = (s.tickets[id]?).map refsOf)
    (blocks : ∀ (id : ReqId) t, s.tickets[id]? = some t → unreffed t = false →
      ∀ k, handlesAt s' t.data k = handlesAt s t.data k) (id : ReqId) (k : Kind) :
    kept s' id k = kept s id k := by
  have view := tickets id
  cases before : s.tickets[id]? with
  | none =>
    rw [before, Option.map_none, Option.map_eq_none_iff] at view
    rw [kept, kept, view, before]
    rfl
  | some t =>
    rw [before, Option.map_some, Option.map_eq_some_iff] at view
    obtain ⟨t', after, same⟩ := view
    simp only [refsOf, Prod.mk.injEq] at same
    rw [kept_of_ticket after, kept_of_ticket before, same.1, same.2.2.2]
    split
    next => rfl
    next live => exact blocks id t before (by simpa using live) k

theorem handlesAt_same (heap : s'.heap = s.heap) (a : Addr) (k : Kind) :
    handlesAt s' a k = handlesAt s a k := by
  rw [handlesAt, handlesAt, State.dataAt, State.dataAt, heap]

/-- Writing a block that is no `java_data` into the place of another such. -/
theorem handlesAt_update_req {a : Addr} {r : EioReq} {new : Option (Block J)}
    (there : s.heap a = some (.req r)) (heap : s'.heap = Function.update s.heap a new)
    (other : ∀ d, new ≠ some (.data d)) (b : Addr) (k : Kind) :
    handlesAt s' b k = handlesAt s b k := by
  by_cases here : b = a
  · subst here
    have before : s.dataAt b = none := by rw [State.dataAt, there]
    have after : s'.dataAt b = none := by
      cases found : s'.dataAt b with
      | none => rfl
      | some d =>
        have stored := dataAt_eq_some.mp found
        rw [heap, Function.update_self] at stored
        exact absurd stored (other d)
    rw [handlesAt, handlesAt, before, after]
  · rw [handlesAt, handlesAt, State.dataAt, State.dataAt, heap, Function.update_of_ne here]

/-! ### The transitions that add and drop handles -/

/-- A fresh handle is in nobody's use. -/
theorem Referenced.fresh {ref : Ref} (referenced : Referenced s) (free : s.refs ref = none)
    (id : ReqId) (k : Kind) : kept s id k ≠ some ref := by
  intro holds
  obtain ⟨t, _, found, _⟩ := kept_ticket holds
  obtain ⟨o, _, stored⟩ := referenced.live id t k ref found holds
  rw [free] at stored
  cases stored

/-- One handle comes into use and refers to the object it is for. -/
theorem Referenced.add {id : ReqId} {k : Kind} {ref : Ref} {o : Obj} (referenced : Referenced s)
    (free : s.refs ref = none) (refs : s'.refs = Function.update s.refs ref (some o))
    (handles : ∀ id' k', kept s' id' k' = if id' = id ∧ k' = k then some ref else kept s id' k')
    (own : ∀ t', s'.tickets[id]? = some t' → object t' k = some o)
    (tickets : ∀ (id' : ReqId) t', s'.tickets[id']? = some t' → ∀ k', ¬ (id' = id ∧ k' = k) →
      AsksNoMore s id' t' k') : Referenced s' := by
  refine ⟨fun id' t' k' h found holds => ?_, fun id' t' k' o' found live named => ?_,
    fun id₁ id₂ k₁ k₂ h one two => ?_⟩
  · rw [handles] at holds
    split at holds
    next same =>
      obtain ⟨rfl, rfl⟩ := same
      obtain rfl := Option.some.inj holds
      exact ⟨o, own t' found, by rw [refs, Function.update_self]⟩
    next other =>
      have apart : h ≠ ref := fun equal => referenced.fresh free id' k' (equal ▸ holds)
      rcases tickets id' t' found k' other with ⟨none, _⟩ | ⟨t, before, _, same⟩
      · rw [none] at holds
        cases holds
      · rw [same, refs, Function.update_of_ne apart]
        exact referenced.live id' t k' h before holds
  · rw [handles]
    split
    next => exact ⟨ref, rfl⟩
    next other =>
      rcases tickets id' t' found k' other with ⟨_, gone | absent⟩ | ⟨t, before, clean, same⟩
      · rw [gone] at live
        cases live
      · rw [absent] at named
        cases named
      · exact referenced.stored id' t k' o' before (clean ▸ live) (same ▸ named)
  · rw [handles] at one two
    split at one
    next first =>
      split at two
      next second => exact ⟨first.1.trans second.1.symm, first.2.trans second.2.symm⟩
      next =>
        obtain rfl := Option.some.inj one
        exact absurd two (referenced.fresh free id₂ k₂)
    next =>
      split at two
      next =>
        obtain rfl := Option.some.inj two
        exact absurd one (referenced.fresh free id₁ k₁)
      next => exact referenced.distinct id₁ id₂ k₁ k₂ h one two

/-- One request's handles go out of use and are deleted. -/
theorem Referenced.drop (id : ReqId) (referenced : Referenced s)
    (refs : ∀ h, (∀ k, kept s id k ≠ some h) → s'.refs h = s.refs h)
    (handles : ∀ id' k, kept s' id' k = if id' = id then none else kept s id' k)
    (gone : ∀ t', s'.tickets[id]? = some t' → unreffed t' = true)
    (tickets : ∀ (id' : ReqId) t', s'.tickets[id']? = some t' → id' ≠ id →
      s.tickets[id']? = some t') : Referenced s' := by
  refine ⟨fun id' t' k h found holds => ?_, fun id' t' k o found live named => ?_,
    fun id₁ id₂ k₁ k₂ h one two => ?_⟩
  · rw [handles] at holds
    split at holds
    next => cases holds
    next other =>
      have untouched : ∀ k', kept s id k' ≠ some h := fun k' same =>
        other (referenced.distinct id' id k k' h holds same).1
      rw [refs h untouched]
      exact referenced.live id' t' k h (tickets id' t' found other) holds
  · rw [handles]
    split
    next same =>
      subst same
      rw [gone t' found] at live
      cases live
    next other => exact referenced.stored id' t' k o (tickets id' t' found other) live named
  · rw [handles] at one two
    split at one
    next => cases one
    next =>
      split at two
      next => cases two
      next => exact referenced.distinct id₁ id₂ k₁ k₂ h one two

theorem dataFreed_of_unreffed {t : Ticket J} (live : unreffed t = false) : dataFreed t = false := by
  simp only [unreffed, dataFreed, decide_eq_false_iff_not] at live ⊢
  omega

theorem kept_submitted [DecidableEq J] (j : J) (pri : Source.Reqq.JInt) (callback : Option Obj)
    {req data : Addr} (ref : Ref) (alloc : Allocated s) (freshReq : s.heap req = none)
    (freshData : s.heap data = none) (apart : req ≠ data) (id : ReqId) (k : Kind) :
    kept (submitted s j pri callback req data ref) id k =
      if id = s.tickets.length ∧ k = .callback then callback.map fun _ => ref else kept s id k := by
  have heap : (submitted s j pri callback req data ref).heap =
      Function.update (Function.update s.heap data (some (.data
        ⟨j, callback.map fun _ => ref, none, false, s.tickets.length⟩))) req
        (some (.req ⟨data, Source.Reqq.submitIndex pri, 0, 0, s.tickets.length⟩)) := rfl
  by_cases new : id = s.tickets.length
  · subst new
    have block : (submitted s j pri callback req data ref).dataAt data =
        some ⟨j, callback.map fun _ => ref, none, false, s.tickets.length⟩ :=
      dataAt_eq_some.mpr (by rw [heap, Function.update_of_ne (Ne.symm apart), Function.update_self])
    cases k <;>
      simp [kept, submitted_tickets, unreffed, progress, handlesAt, block, handle]
  · rw [if_neg (fun both => new both.1)]
    cases found : s.tickets[id]? with
    | none => simp [kept, submitted_tickets, getElem?_appended, new, found]
    | some t =>
      have after : (submitted s j pri callback req data ref).tickets[id]? = some t := by
        simp [submitted_tickets, getElem?_appended, new, found]
      rw [kept_of_ticket after, kept_of_ticket found]
      split
      next => rfl
      next live =>
        obtain ⟨d, there, _⟩ := alloc.data id t found (dataFreed_of_unreffed (by simpa using live))
        have notReq : t.data ≠ req := fun same => by
          rw [same, freshReq] at there
          cases there
        have notData : t.data ≠ data := fun same => by
          rw [same, freshData] at there
          cases there
        rw [handlesAt, handlesAt, State.dataAt, State.dataAt, heap, Function.update_of_ne notReq,
          Function.update_of_ne notData]

theorem submit_referenced [DecidableEq J] {j : J} {pri : Source.Reqq.JInt} {callback : Option Obj}
    {req data : Addr} {ref : Ref} (alloc : Allocated s) (referenced : Referenced s)
    (freshReq : s.heap req = none) (freshData : s.heap data = none) (apart : req ≠ data)
    (freshRef : callback ≠ none → s.refs ref = none) :
    Referenced (submitted s j pri callback req data ref) := by
  have handles := kept_submitted j pri callback ref alloc freshReq freshData apart
  have unknown : ∀ k, kept s s.tickets.length k = none := fun k => by simp [kept]
  have older : ∀ (id : ReqId) t', (submitted s j pri callback req data ref).tickets[id]? = some t' →
      ∀ k, ¬ (id = s.tickets.length ∧ k = .callback) → AsksNoMore s id t' k := by
    intro id t' found k other
    simp only [submitted_tickets, getElem?_appended] at found
    split at found
    next new =>
      obtain rfl := Option.some.inj found
      cases k with
      | callback => exact absurd ⟨new, rfl⟩ other
      | request => exact .inl ⟨new ▸ unknown _, .inr rfl⟩
    next => exact .inr ⟨t', found, rfl, rfl⟩
  cases callback with
  | none =>
    refine referenced.keep (fun _ _ _ _ => rfl) (fun id k => ?_) fun id t' found k => ?_
    · rw [handles]
      split
      next new => rw [new.1, unknown]; rfl
      next => rfl
    · by_cases new : id = s.tickets.length ∧ k = .callback
      · obtain ⟨rfl, rfl⟩ := new
        simp only [submitted_tickets, getElem?_appended, if_true] at found
        obtain rfl := Option.some.inj found
        exact .inl ⟨unknown _, .inr rfl⟩
      · exact older id t' found k new
  | some o =>
    refine referenced.add (freshRef (by simp)) rfl handles (fun t' found => ?_) older
    simp only [submitted_tickets, getElem?_appended, if_true] at found
    obtain rfl := Option.some.inj found
    rfl

/-- The block that `wrap_request` uses is its own. -/
theorem submit_own [DecidableEq J] {j : J} {pc : SubmitPc} {p : Ptr} {data : Addr}
    {rest : List Frame} (alloc : Allocated s) (pending : Pending s) (settled : Settled s)
    (top : s.threads j = .submit pc p data :: rest) :
    ∃ t d, s.tickets[p.id]? = some t ∧ t.data = data ∧
      openFrame t = some ((j, rest.length), decide (pc = .readBack)) ∧
      s.dataAt data = some d ∧ d.id = p.id := by
  have work : AtWork s ((j, rest.length), decide (pc = .readBack)) (p, data) := by
    simp [AtWork, top, frameSubmits]
  obtain ⟨t, found, _, block, unfinished⟩ := Pending.ticket pending work
  have alive : dataFreed t = false := by
    cases freed : dataFreed t with
    | false => rfl
    | true =>
      obtain ⟨w, returned⟩ := settled _ t found freed
      simp [openFrame, returned] at unfinished
  obtain ⟨d, there, did, _⟩ := alloc.data _ t found alive
  rw [show t.data = data from block] at there
  exact ⟨t, d, found, block, unfinished, dataAt_eq_some.mpr there, did⟩

theorem kept_wrapped {p : Ptr} {t : Ticket J} {d : JavaData J} (ref : Ref) (h : Nat)
    (alloc : Allocated s)
    (ticket : s.tickets[p.id]? = some t) (stored : s.dataAt t.data = some d) (did : d.id = p.id)
    (id : ReqId) (k : Kind) :
    kept (wrapped s p t.data ref h) id k =
      if id = p.id ∧ k = .request ∧ unreffed t = false then some ref else kept s id k := by
  have tickets : (wrapped s p t.data ref h).tickets = s.tickets.modify p.id fun t =>
      { t with submit := .wrapped h (.wrapper s.objects) } := rfl
  have heap : (wrapped s p t.data ref h).heap =
      Function.update s.heap t.data (some (.data { d with javaRequest := some ref })) := by
    simp [wrapped, storeRequest, stored]
  have own : (wrapped s p t.data ref h).dataAt t.data = some { d with javaRequest := some ref } :=
    dataAt_eq_some.mpr (by rw [heap, Function.update_self])
  by_cases same : id = p.id
  · subst same
    have after : (wrapped s p t.data ref h).tickets[p.id]? =
        some { t with submit := .wrapped h (.wrapper s.objects) } := by simp [tickets, ticket]
    rw [kept_of_ticket after, kept_of_ticket ticket]
    cases clean : unreffed t with
    | true =>
      have clean' : unreffed { t with submit := .wrapped h (.wrapper s.objects) } = true := clean
      simp [clean']
    | false =>
      have clean' : unreffed { t with submit := .wrapped h (.wrapper s.objects) } = false := clean
      cases k <;> simp [clean', handlesAt, own, stored, handle]
  · rw [if_neg (fun both => same both.1)]
    cases found : s.tickets[id]? with
    | none => simp [kept, tickets, Ne.symm same, found]
    | some t' =>
      have after : (wrapped s p t.data ref h).tickets[id]? = some t' := by
        simp [tickets, Ne.symm same, found]
      rw [kept_of_ticket after, kept_of_ticket found]
      split
      next => rfl
      next live =>
        obtain ⟨d', there, did', _⟩ :=
          alloc.data id t' found (dataFreed_of_unreffed (by simpa using live))
        have elsewhere : t'.data ≠ t.data := fun equal => by
          rw [equal, dataAt_eq_some.mp stored] at there
          cases there
          exact same (did'.symm.trans did)
        rw [handlesAt, handlesAt, State.dataAt, State.dataAt, heap, Function.update_of_ne elsewhere]

theorem wrap_referenced [DecidableEq J] {j : J} {p : Ptr} {data : Addr} {rest : List Frame}
    {ref : Ref} {h : Nat} (alloc : Allocated s) (pending : Pending s) (settled : Settled s)
    (referenced : Referenced s)
    (top : s.threads j = .submit .wrap p data :: rest) (free : s.refs ref = none) :
    Referenced (wrapped s p data ref h) := by
  obtain ⟨t, d, ticket, rfl, unfinished, stored, did⟩ := submit_own alloc pending settled top
  have tickets : (wrapped s p t.data ref h).tickets = s.tickets.modify p.id fun t =>
      { t with submit := .wrapped h (.wrapper s.objects) } := rfl
  have handles := kept_wrapped ref h alloc ticket stored did
  have older : ∀ (id : ReqId) t', (wrapped s p t.data ref h).tickets[id]? = some t' →
      ∀ k, ¬ (id = p.id ∧ k = .request) → AsksNoMore s id t' k := by
    intro id t' found k other
    rw [tickets] at found
    rcases getElem?_modify_cases found with ⟨_, found⟩ | ⟨rfl, t', there, rfl⟩
    · exact .inr ⟨t', found, rfl, rfl⟩
    · cases k with
      | callback => exact .inr ⟨t', there, rfl, rfl⟩
      | request => exact absurd ⟨rfl, rfl⟩ other
  have refs : (wrapped s p t.data ref h).refs =
      Function.update s.refs ref (some (.wrapper s.objects)) := rfl
  cases clean : unreffed t with
  | true =>
    refine referenced.keep (fun id k h holds => ?_) (fun id k => ?_) fun id t' found k => ?_
    · have apart : h ≠ ref := fun equal => referenced.fresh free id k (equal ▸ holds)
      rw [refs, Function.update_of_ne apart]
    · simp [handles, clean]
    · by_cases new : id = p.id ∧ k = .request
      · obtain ⟨rfl, rfl⟩ := new
        simp only [tickets, List.getElem?_modify, ticket] at found
        obtain rfl := Option.some.inj found
        exact .inl ⟨by rw [kept_of_ticket ticket, clean]; rfl, .inl clean⟩
      · exact older id t' found k new
  | false =>
    refine referenced.add (k := .request) free refs (fun id k => ?_) (fun t' found => ?_) older
    · simp [handles, clean]
    · simp only [tickets, List.getElem?_modify, ticket] at found
      obtain rfl := Option.some.inj found
      rfl

/-! Reading the wrapper back changes no reference; of a request whose references are not
deleted yet it yields the wrapper. -/

theorem kept_readBack (p : Ptr) (data : Addr) (id : ReqId) (k : Kind) :
    kept (readBack s p data) id k = kept s id k := by
  have tickets : (readBack s p data).tickets = s.tickets.modify p.id fun t =>
      { t with submit := .returned (requestAt s data) } := rfl
  by_cases same : id = p.id
  · subst same
    rw [kept, kept, tickets, List.getElem?_modify_eq]
    cases s.tickets[p.id]? with
    | none => rfl
    | some t => rfl
  · rw [kept, kept, tickets, List.getElem?_modify_ne _ _ (Ne.symm same)]
    rfl

theorem requestAt_own {id : ReqId} {t : Ticket J} {d : JavaData J} (referenced : Referenced s)
    (ticket : s.tickets[id]? = some t) (stored : s.dataAt t.data = some d)
    (live : unreffed t = false) : requestAt s t.data = object t .request := by
  have own : kept s id .request = d.javaRequest := by
    rw [kept_of_ticket ticket, live, handlesAt, stored]
    rfl
  rw [requestAt, stored, Option.bind_some]
  cases given : d.javaRequest with
  | none =>
    cases named : object t .request with
    | none => rfl
    | some o =>
      obtain ⟨h, holds⟩ := referenced.stored id t .request o ticket live named
      rw [own, given] at holds
      cases holds
  | some h =>
    obtain ⟨o, named, there⟩ := referenced.live id t .request h ticket (own.trans given)
    rw [named, Option.bind_some, there]

theorem readBack_referenced [DecidableEq J] {j : J} {p : Ptr} {data : Addr} {rest : List Frame}
    (alloc : Allocated s) (pending : Pending s) (settled : Settled s) (referenced : Referenced s)
    (top : s.threads j = .submit .readBack p data :: rest) : Referenced (readBack s p data) := by
  obtain ⟨t, d, ticket, rfl, _, stored, _⟩ := submit_own alloc pending settled top
  refine referenced.keep (fun _ _ _ _ => rfl) (kept_readBack p t.data) fun id t' found k => ?_
  rcases getElem?_modify_cases found with ⟨_, found⟩ | ⟨rfl, before, there, rfl⟩
  · exact .inr ⟨t', found, rfl, rfl⟩
  · rw [ticket] at there
    obtain rfl := Option.some.inj there
    cases k with
    | callback => exact .inr ⟨t, ticket, rfl, rfl⟩
    | request =>
      cases live : unreffed t with
      | true => exact .inl ⟨by rw [kept_of_ticket ticket, live]; rfl, .inl live⟩
      | false => exact .inr ⟨t, ticket, rfl, requestAt_own referenced ticket stored live⟩

theorem storeRef_other {r : Option Ref} {h : Ref} (s : State J) (o : Option Obj) (other : r ≠ some h) :
    (s.storeRef r o).refs h = s.refs h := by
  cases r with
  | none => rfl
  | some r =>
    have apart : h ≠ r := fun same => other (by rw [same])
    exact Function.update_of_ne apart ..

/-- The two handles that a clean-up deletes are those its request keeps. -/
theorem unref_handles [DecidableEq J] {j : J} {rest : List Frame} {p : Ptr} {r : EioReq}
    {d : JavaData J} (cust : InCustody s) (alloc : Allocated s)
    (top : s.threads j = .poll (.unref p) :: rest) (read : s.reqAt p.addr = some r)
    (stored : s.dataAt r.data = some d) : ∀ k, kept s p.id k = handle d k := by
  obtain ⟨t, ticket, req, place⟩ := cust.ticket (held_top top rfl)
  have live : reqFreed t = false := by simp [reqFreed, place, progress]
  obtain ⟨_, data, _⟩ := alloc.reqOf ticket req live read
  intro k
  rw [kept_of_ticket ticket, if_neg (by simp [unreffed, place, progress]), handlesAt, ← data, stored,
    Option.bind_some]

theorem kept_unref {p : Ptr} {place : Place J} (heap : s'.heap = s.heap)
    (tickets : s'.tickets = s.tickets.modify p.id fun t => { t with place := place })
    (gone : 9 ≤ progress place) (id : ReqId) (k : Kind) :
    kept s' id k = if id = p.id then none else kept s id k := by
  by_cases same : id = p.id
  · subst same
    rw [if_pos rfl, kept, tickets, List.getElem?_modify]
    cases s.tickets[p.id]? with
    | none => rfl
    | some t => simp [unreffed, gone]
  · rw [if_neg same, kept, kept, tickets, List.getElem?_modify_ne _ _ (Ne.symm same)]
    simp only [handlesAt_same heap]

theorem unref_referenced [DecidableEq J] {j : J} {rest : List Frame} {p : Ptr} {r : EioReq}
    {d : JavaData J} (cust : InCustody s) (alloc : Allocated s) (referenced : Referenced s)
    (top : s.threads j = .poll (.unref p) :: rest) (read : s.reqAt p.addr = some r)
    (stored : s.dataAt r.data = some d) (heap : s'.heap = s.heap)
    (refs : s'.refs = ((s.storeRef d.javaCallback none).storeRef d.javaRequest none).refs)
    (tickets : s'.tickets =
      s.tickets.modify p.id fun t => { t with place := .frame j rest.length .unreffed }) :
    Referenced s' := by
  have own := unref_handles cust alloc top read stored
  refine referenced.drop p.id (fun h unused => ?_) (kept_unref heap tickets (by simp [progress]))
    (fun t' found => ?_) fun id t' found other => ?_
  · have notCallback : d.javaCallback ≠ some h := fun same => unused .callback ((own _).trans same)
    have notRequest : d.javaRequest ≠ some h := fun same => unused .request ((own _).trans same)
    rw [refs, storeRef_other _ _ notRequest, storeRef_other _ _ notCallback]
  · rw [tickets] at found
    rcases getElem?_modify_cases found with ⟨other, _⟩ | ⟨_, t, _, rfl⟩
    · exact absurd rfl other
    · simp [unreffed, progress]
  · rw [tickets] at found
    rcases getElem?_modify_cases found with ⟨_, found⟩ | ⟨same, _⟩
    · exact found
    · exact absurd same other

theorem freeData_handles [DecidableEq J] {j : J} {rest : List Frame} {p : Ptr} {r : EioReq}
    (cust : InCustody s) (alloc : Allocated s) (top : s.threads j = .poll (.freeData p) :: rest)
    (read : s.reqAt p.addr = some r) (heap : s'.heap = Function.update s.heap r.data none)
    (id : ReqId) (t' : Ticket J) (found : s.tickets[id]? = some t') (live : unreffed t' = false)
    (k : Kind) : handlesAt s' t'.data k = handlesAt s t'.data k := by
  obtain ⟨t, ticket, req, place⟩ := cust.ticket (held_top top rfl)
  have liveReq : reqFreed t = false := by simp [reqFreed, place, progress]
  obtain ⟨_, data, _⟩ := alloc.reqOf ticket req liveReq read
  obtain ⟨d, there, did, _⟩ := alloc.data _ t ticket (by simp [dataFreed, place, progress])
  obtain ⟨d', there', did', _⟩ := alloc.data id t' found (dataFreed_of_unreffed live)
  have elsewhere : t'.data ≠ r.data := fun same => by
    rw [same, data, there] at there'
    cases there'
    rw [← did', did, ticket] at found
    obtain rfl := Option.some.inj found
    simp [unreffed, place, progress] at live
  rw [handlesAt, handlesAt, State.dataAt, State.dataAt, heap, Function.update_of_ne elsewhere]

theorem complete_handles {d : JavaData J} {a : Addr} (stored : s.dataAt a = some d)
    (heap : s'.heap = Function.update s.heap a (some (.data { d with complete := true }))) (b : Addr)
    (k : Kind) : handlesAt s' b k = handlesAt s b k := by
  by_cases here : b = a
  · subst here
    have after : s'.dataAt b = some { d with complete := true } :=
      dataAt_eq_some.mpr (by rw [heap, Function.update_self])
    rw [handlesAt, handlesAt, stored, after]
    cases k <;> rfl
  · rw [handlesAt, handlesAt, State.dataAt, State.dataAt, heap, Function.update_of_ne here]

end

/-! ### The step and the run -/

theorem sameRefs_still {s s' : State J} (refs : s'.refs = s.refs) (heap : s'.heap = s.heap)
    (tickets : s'.tickets = s.tickets) : SameRefs s s' := by
  have same : ∀ id : ReqId, (s'.tickets[id]?).map refsOf = (s.tickets[id]?).map refsOf :=
    fun id => by rw [tickets]
  exact ⟨refs, kept_congr same fun _ _ _ _ => handlesAt_same heap _, same⟩

/-- A step that moves one request and keeps the handles of every block in use. -/
theorem sameRefs_moved {s s' : State J} {id : ReqId} {t : Ticket J} {f : Ticket J → Ticket J}
    (found : s.tickets[id]? = some t) (refs : s'.refs = s.refs)
    (tickets : s'.tickets = s.tickets.modify id f) (same : refsOf (f t) = refsOf t)
    (blocks : ∀ (id : ReqId) t, s.tickets[id]? = some t → unreffed t = false →
      ∀ k, handlesAt s' t.data k = handlesAt s t.data k) : SameRefs s s' := by
  have views : ∀ k : ReqId, (s'.tickets[k]?).map refsOf = (s.tickets[k]?).map refsOf := by
    intro k
    rw [tickets]
    refine getElem?_modify_view refsOf (fun a there => ?_) k
    rw [found] at there
    obtain rfl := Option.some.inj there
    exact same
  exact ⟨refs, kept_congr views blocks, views⟩

/-- What a step can do to the references: nothing, or one of four. -/
inductive RefStep [DecidableEq J] (s : State J) (a : Action J) : State J → Prop where
  | same {s' : State J} : SameRefs s s' → RefStep s a s'
  | submit {j : J} {pri : Source.Reqq.JInt} {callback : Option Obj} {req data : Addr} {ref : Ref} :
      s.heap req = none → s.heap data = none → req ≠ data → (callback ≠ none → s.refs ref = none) →
      RefStep s a (submitted s j pri callback req data ref)
  | wrap {j : J} {p : Ptr} {data : Addr} {rest : List Frame} {ref : Ref} :
      s.threads j = .submit .wrap p data :: rest → s.refs ref = none →
      RefStep s a ((wrapped s p data ref rest.length).setStack j (.submit .readBack p data :: rest))
  | readBack {j : J} {p : Ptr} {data : Addr} {rest : List Frame} :
      s.threads j = .submit .readBack p data :: rest →
      RefStep s a ((readBack s p data).setStack j rest)
  | unref {s' : State J} {j : J} {c : Choice} {p : Ptr} {rest : List Frame} {r : EioReq}
      {d : JavaData J} : a = .go j c → s.threads j = .poll (.unref p) :: rest →
      s.reqAt p.addr = some r → s.dataAt r.data = some d → s'.heap = s.heap →
      s'.refs = ((s.storeRef d.javaCallback none).storeRef d.javaRequest none).refs →
      s'.tickets =
        s.tickets.modify p.id (fun t => { t with place := .frame j rest.length .unreffed }) →
      RefStep s a s'

theorem transition_refStep [DecidableEq J] {s s' : State J} {a : Action J} (cust : InCustody s)
    (alloc : Allocated s) (step : Transition s a s') : RefStep s a s' := by
  cases step with
  | submit _ freshReq freshData apart freshRef => exact .submit freshReq freshData apart freshRef
  | wrap top free => exact .wrap top free
  | readBack top => exact .readBack top
  | unref top read stored => exact .unref rfl top read stored rfl rfl rfl
  | control | spawn | count | pollLock | shiftEmpty | donePoll | unlockEmpty | unlockTook | idling
  | workerLock | wantPoll | workerUnlock | quit => exact .same (sameRefs_still rfl rfl rfl)
  | enqueue top | decReqs top | noCallback top | upcall top =>
    obtain ⟨t, ticket, _, place⟩ := cust.ticket (held_top top rfl)
    exact .same (sameRefs_moved ticket rfl rfl (by simp [refsOf, unreffed, place, progress])
      fun _ _ _ _ => handlesAt_same rfl _)
  | shiftTook top took =>
    obtain ⟨t, ticket, _, place⟩ := cust.ticket (held_resQueue took)
    exact .same (sameRefs_moved ticket rfl rfl (by simp [refsOf, unreffed, place, progress])
      fun _ _ _ _ => handlesAt_same rfl _)
  | complete top _ stored =>
    obtain ⟨t, ticket, _, place⟩ := cust.ticket (held_top top rfl)
    exact .same (sameRefs_moved ticket rfl rfl (by simp [refsOf, unreffed, place, progress])
      fun _ _ _ _ => complete_handles stored rfl _)
  | freeData top read =>
    obtain ⟨t, ticket, _, place⟩ := cust.ticket (held_top top rfl)
    exact .same (sameRefs_moved ticket rfl rfl (by simp [refsOf, unreffed, place, progress])
      (freeData_handles cust alloc top read rfl))
  | destroy top =>
    obtain ⟨t, ticket, req, place⟩ := cust.ticket (held_top top rfl)
    obtain ⟨r, there, _⟩ := alloc.req _ t ticket (by simp [reqFreed, place, progress])
    rw [req] at there
    exact .same (sameRefs_moved ticket rfl rfl (by simp [refsOf, unreffed, place, progress])
      fun _ t' _ _ => handlesAt_update_req there rfl (by simp) t'.data)
  | workerTake found shifting took =>
    obtain ⟨t, ticket, _, place⟩ := cust.ticket (held_reqQueue took)
    exact .same (sameRefs_moved ticket rfl rfl (by simp [refsOf, unreffed, place, progress])
      fun _ _ _ _ => handlesAt_same rfl _)
  | exec found read =>
    obtain ⟨t, ticket, _, place⟩ := cust.ticket ((held_own_worker found .running _).mpr rfl)
    exact .same (sameRefs_moved ticket rfl rfl (by simp [refsOf, unreffed, place, progress])
      fun _ t' _ _ => handlesAt_update_req (reqAt_eq_some.mp read) rfl (by simp) t'.data)
  | push found =>
    obtain ⟨t, ticket, _, place⟩ := cust.ticket ((held_own_worker found .executed _).mpr rfl)
    exact .same (sameRefs_moved ticket rfl rfl (by simp [refsOf, unreffed, place, progress])
      fun _ _ _ _ => handlesAt_same rfl _)

theorem Referenced.same {s s' : State J} (referenced : Referenced s) (same : SameRefs s s') :
    Referenced s' :=
  referenced.keep (fun _ _ _ _ => by rw [same.refs]) same.handles
    fun id _ found k => asksNoMore_of_view (same.tickets id) found k

theorem step_referenced [DecidableEq J] {s s' : State J} {a : Action J} (cust : InCustody s)
    (alloc : Allocated s) (pending : Pending s) (settled : Settled s) (referenced : Referenced s)
    (step : RefStep s a s') : Referenced s' := by
  cases step with
  | same same => exact referenced.same same
  | submit freshReq freshData apart freshRef =>
    exact submit_referenced alloc referenced freshReq freshData apart freshRef
  | wrap top free =>
    exact (wrap_referenced alloc pending settled referenced top free).same (sameRefs_still rfl rfl rfl)
  | readBack top =>
    exact (readBack_referenced alloc pending settled referenced top).same (sameRefs_still rfl rfl rfl)
  | unref _ top read stored heap refs tickets =>
    exact unref_referenced cust alloc referenced top read stored heap refs tickets

theorem referenced_start : Referenced (start : State J) := by
  refine ⟨fun id t k h found => ?_, fun id t k o found => ?_, fun id id' k k' h one => ?_⟩
  · simp [start] at found
  · simp [start] at found
  · simp [kept, start] at one

theorem referenced [DecidableEq J] {ok : State J → Action J → Prop}
    (ordered : ∀ s a, ReachableBy (eventLoop J) ok s → ok s a → FreesReturned s a) {s : State J}
    (h : ReachableBy (eventLoop J) ok s) : Referenced s := by
  induction h with
  | start => exact referenced_start
  | next before _ taken ih =>
    have cust := inCustody before
    have alloc := allocated before
    exact step_referenced cust alloc (Submitting.pending before) (References.settled ordered before) ih
      (transition_refStep cust alloc (step_transition taken))

/-! ### No reference outlives its clean-up

If moreover the references of a request are deleted only after its submit
operation has returned, there are no other global references than those in use. -/

def DeletesReturned (s : State J) (a : Action J) : Prop :=
  ∀ j c p rest t, a = .go j c → s.threads j = .poll (.unref p) :: rest →
    s.tickets[p.id]? = some t → Returned t

structure NoLeak (s : State J) : Prop where
  inUse : ∀ h o, s.refs h = some o → ∃ id k, kept s id k = some h
  returned : ∀ (id : ReqId) t, s.tickets[id]? = some t → unreffed t = true → Returned t

theorem NoLeak.same {s s' : State J} (noLeak : NoLeak s) (same : SameRefs s s') : NoLeak s' := by
  refine ⟨fun h o there => ?_, fun id t' found gone => ?_⟩
  · obtain ⟨id, k, holds⟩ := noLeak.inUse h o (same.refs ▸ there)
    exact ⟨id, k, (same.handles id k).trans holds⟩
  · have view := same.tickets id
    rw [found, Option.map_some] at view
    obtain ⟨t, before, equal⟩ := Option.map_eq_some_iff.mp view.symm
    simp only [refsOf, Prod.mk.injEq] at equal
    obtain ⟨w, returned⟩ := noLeak.returned id t before (equal.2.2.2.trans gone)
    exact ⟨w, equal.2.2.1.symm.trans returned⟩

theorem submit_noLeak [DecidableEq J] {s : State J} {j : J} {pri : Source.Reqq.JInt}
    {callback : Option Obj} {req data : Addr} {ref : Ref} (alloc : Allocated s) (noLeak : NoLeak s)
    (freshReq : s.heap req = none) (freshData : s.heap data = none) (apart : req ≠ data) :
    NoLeak (submitted s j pri callback req data ref) := by
  have handles := kept_submitted j pri callback ref alloc freshReq freshData apart
  have older : ∀ h o, s.refs h = some o →
      ∃ id k, kept (submitted s j pri callback req data ref) id k = some h := by
    intro h o there
    obtain ⟨id, k, holds⟩ := noLeak.inUse h o there
    obtain ⟨t, _, found, _⟩ := kept_ticket holds
    have old : id ≠ s.tickets.length := fun same => by
      rw [same, List.getElem?_eq_none (Nat.le_refl _)] at found
      cases found
    exact ⟨id, k, by rw [handles, if_neg (fun both => old both.1), holds]⟩
  refine ⟨fun h o there => ?_, fun id t found gone => ?_⟩
  · cases callback with
    | none => exact older h o there
    | some given =>
      by_cases here : h = ref
      · exact ⟨s.tickets.length, .callback, by rw [handles, here]; simp⟩
      · exact older h o ((Function.update_of_ne here ..).symm.trans there)
  · simp only [submitted_tickets, getElem?_appended] at found
    split at found
    next =>
      obtain rfl := Option.some.inj found
      simp [unreffed, progress] at gone
    next => exact noLeak.returned id t found gone

theorem wrap_noLeak [DecidableEq J] {s : State J} {j : J} {p : Ptr} {data : Addr} {rest : List Frame}
    {ref : Ref} {h : Nat} (alloc : Allocated s) (pending : Pending s) (settled : Settled s)
    (referenced : Referenced s) (noLeak : NoLeak s)
    (top : s.threads j = .submit .wrap p data :: rest) :
    NoLeak (wrapped s p data ref h) := by
  obtain ⟨t, d, ticket, rfl, unfinished, stored, did⟩ := submit_own alloc pending settled top
  have handles := kept_wrapped ref h alloc ticket stored did
  have clean : unreffed t = false := by
    cases gone : unreffed t with
    | false => rfl
    | true =>
      obtain ⟨w, returned⟩ := noLeak.returned _ t ticket gone
      simp [openFrame, returned] at unfinished
  refine ⟨fun h o there => ?_, fun id t' found gone => ?_⟩
  · by_cases here : h = ref
    · exact ⟨p.id, .request, by rw [handles, here]; simp [clean]⟩
    · obtain ⟨id, k, holds⟩ := noLeak.inUse h o ((Function.update_of_ne here ..).symm.trans there)
      refine ⟨id, k, ?_⟩
      rw [handles, if_neg, holds]
      -- the handle that the store replaces was not in use
      rintro ⟨rfl, rfl, _⟩
      obtain ⟨o', named, _⟩ := referenced.live _ t .request h ticket holds
      obtain ⟨_, submit⟩ := openFrame_pending unfinished
      simp [object, submit] at named
  · rcases getElem?_modify_cases found with ⟨_, found⟩ | ⟨_, before, there, rfl⟩
    · exact noLeak.returned id t' found gone
    · obtain rfl := Option.some.inj (ticket.symm.trans there)
      exact absurd (clean.symm.trans gone) Bool.false_ne_true

theorem readBack_noLeak [DecidableEq J] {s : State J} (p : Ptr) (data : Addr) (noLeak : NoLeak s) :
    NoLeak (readBack s p data) := by
  constructor
  · intro h o there
    obtain ⟨id, k, holds⟩ := noLeak.inUse h o there
    exact ⟨id, k, (kept_readBack p data id k).trans holds⟩
  · intro id t' found gone
    rcases getElem?_modify_cases found with ⟨_, found⟩ | ⟨_, before, _, rfl⟩
    · exact noLeak.returned id t' found gone
    · exact ⟨_, rfl⟩

theorem unref_noLeak [DecidableEq J] {s s' : State J} {j : J} {rest : List Frame} {p : Ptr}
    {r : EioReq} {d : JavaData J} (cust : InCustody s) (alloc : Allocated s) (noLeak : NoLeak s)
    (returned : ∀ t, s.tickets[p.id]? = some t → Returned t)
    (top : s.threads j = .poll (.unref p) :: rest) (read : s.reqAt p.addr = some r)
    (stored : s.dataAt r.data = some d) (heap : s'.heap = s.heap)
    (refs : s'.refs = ((s.storeRef d.javaCallback none).storeRef d.javaRequest none).refs)
    (tickets : s'.tickets =
      s.tickets.modify p.id fun t => { t with place := .frame j rest.length .unreffed }) :
    NoLeak s' := by
  have own := unref_handles cust alloc top read stored
  refine ⟨fun h o there => ?_, fun id t' found gone => ?_⟩
  · rw [refs] at there
    have notRequest : d.javaRequest ≠ some h := fun same => by simp [same] at there
    rw [storeRef_other _ _ notRequest] at there
    have notCallback : d.javaCallback ≠ some h := fun same => by simp [same] at there
    rw [storeRef_other _ _ notCallback] at there
    obtain ⟨id, k, holds⟩ := noLeak.inUse h o there
    refine ⟨id, k, ?_⟩
    rw [kept_unref heap tickets (by simp [progress]), if_neg, holds]
    rintro rfl
    rw [own] at holds
    cases k with
    | callback => exact notCallback holds
    | request => exact notRequest holds
  · rw [tickets] at found
    rcases getElem?_modify_cases found with ⟨_, found⟩ | ⟨_, t, before, rfl⟩
    · exact noLeak.returned id t' found gone
    · exact returned t before

theorem noLeak [DecidableEq J] {ok : State J → Action J → Prop}
    (ordered : ∀ s a, ReachableBy (eventLoop J) ok s → ok s a →
      FreesReturned s a ∧ DeletesReturned s a) {s : State J}
    (h : ReachableBy (eventLoop J) ok s) : NoLeak s := by
  have frees := fun s a before met => (ordered s a before met).1
  induction h with
  | start =>
    refine ⟨fun h o there => ?_, fun id t found => ?_⟩
    · simp [eventLoop, start] at there
    · simp [eventLoop, start] at found
  | next before met taken ih =>
    have cust := inCustody before
    have alloc := allocated before
    have pending := Submitting.pending before
    have settled := References.settled frees before
    cases transition_refStep cust alloc (step_transition taken) with
    | same same => exact ih.same same
    | submit freshReq freshData apart _ => exact submit_noLeak alloc ih freshReq freshData apart
    | wrap top _ =>
      exact (wrap_noLeak alloc pending settled (referenced frees before) ih top).same
        (sameRefs_still rfl rfl rfl)
    | readBack top => exact (readBack_noLeak _ _ ih).same (sameRefs_still rfl rfl rfl)
    | unref act top read stored heap refs tickets =>
      exact unref_noLeak cust alloc ih (fun t => (ordered _ _ before met).2 _ _ _ _ t act top) top read
        stored heap refs tickets

end WebbitAsyncio.Invariants.References
