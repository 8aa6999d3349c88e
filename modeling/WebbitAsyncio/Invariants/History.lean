import WebbitAsyncio.Invariants.References

/-!
# Outcomes and upcalls

What the history of a request says against how far it has come: an outcome is
recorded exactly from its execution on; an upcall exactly from the step of
`completion_callback` that makes it on, and then one only. That the upcall gets
the wrapper and the callback of its own request, on the thread of the `JNIEnv` it
uses, is proved for the runs whose steps are `InOrder`.
-/
namespace WebbitAsyncio.Invariants.History
open WebbitAsyncio.Lib.TransitionSystem
open WebbitAsyncio.Source.EventLoop
open WebbitAsyncio.Invariants.Custody WebbitAsyncio.Invariants.Memory
open WebbitAsyncio.Invariants.Submitting WebbitAsyncio.Invariants.References
open WebbitAsyncio.Source.Reqq (Addr)

variable {J : Type}

/-! ### A property of every ticket -/

def Every (P : Ticket J → Prop) (s : State J) : Prop := ∀ (id : ReqId) t, s.tickets[id]? = some t → P t

section
variable {P : Ticket J → Prop} {s s' : State J}

theorem Every.mem (every : Every P s) {t : Ticket J} (member : t ∈ s.tickets) : P t := by
  obtain ⟨id, found⟩ := List.mem_iff_getElem?.mp member
  exact every id t found

theorem Every.still (every : Every P s) (tickets : s'.tickets = s.tickets) : Every P s' :=
  fun id t found => every id t (tickets ▸ found)

theorem Every.tracked {id : ReqId} {t : Ticket J} {f : Ticket J → Ticket J} (every : Every P s)
    (found : s.tickets[id]? = some t) (tickets : s'.tickets = s.tickets.modify id f)
    (kept : P t → P (f t)) : Every P s' := by
  intro k t' after
  rw [tickets] at after
  rcases getElem?_modify_cases after with ⟨_, before⟩ | ⟨_, t'', before, rfl⟩
  · exact every k t' before
  · rw [found] at before
    obtain rfl := Option.some.inj before
    exact kept (every id t found)

theorem Every.submitted [DecidableEq J] {j : J} {pri : Source.Reqq.JInt} {callback : Option Obj}
    {req data : Addr} {ref : Ref} (every : Every P s)
    (new : P ⟨j, callback, req, data, .pending (s.threads j).length,
      .frame j (s.threads j).length .submitting, none, []⟩) :
    Every P (submitted s j pri callback req data ref) := by
  intro k t found
  simp only [submitted_tickets, getElem?_appended] at found
  split at found
  next =>
    obtain rfl := Option.some.inj found
    exact new
  next => exact every k t found

end

/-! ### Outcomes -/

/-- An outcome is recorded if and only if a worker has executed the request. -/
def OutcomeRecorded (t : Ticket J) : Prop := t.outcome.isSome = executed t

theorem transition_outcomes [DecidableEq J] {s s' : State J} {a : Action J} (cust : InCustody s)
    (every : Every OutcomeRecorded s) (step : Transition s a s') : Every OutcomeRecorded s' := by
  cases step with
  | submit => exact every.submitted rfl
  | control | spawn | count | pollLock | shiftEmpty | donePoll | unlockEmpty | unlockTook | idling
  | workerLock | wantPoll | workerUnlock | quit => exact every.still rfl
  | @wrap j c p data rest | @readBack j c p data rest =>
    cases found : s.tickets[p.id]? with
    | none =>
      refine every.still ?_
      exact List.modify_eq_self (List.getElem?_eq_none_iff.mp found)
    | some t => exact every.tracked found rfl id
  | enqueue top | decReqs top | noCallback top | upcall top | complete top | unref top | freeData top
  | destroy top =>
    obtain ⟨t, ticket, _, place⟩ := cust.ticket (held_top top rfl)
    exact every.tracked ticket rfl (by simp [OutcomeRecorded, executed, place, progress])
  | shiftTook top took =>
    obtain ⟨t, ticket, _, place⟩ := cust.ticket (held_resQueue took)
    exact every.tracked ticket rfl (by simp [OutcomeRecorded, executed, place, progress])
  | workerTake found shifting took =>
    obtain ⟨t, ticket, _, place⟩ := cust.ticket (held_reqQueue took)
    exact every.tracked ticket rfl (by simp [OutcomeRecorded, executed, place, progress])
  | exec found =>
    obtain ⟨t, ticket, _, place⟩ := cust.ticket ((held_own_worker found .running _).mpr rfl)
    exact every.tracked ticket rfl (by simp [OutcomeRecorded, executed, progress])
  | push found =>
    obtain ⟨t, ticket, _, place⟩ := cust.ticket ((held_own_worker found .executed _).mpr rfl)
    exact every.tracked ticket rfl (by simp [OutcomeRecorded, executed, place, progress])

theorem outcomes [DecidableEq J] {ok : State J → Action J → Prop} {s : State J}
    (h : ReachableBy (eventLoop J) ok s) : Every OutcomeRecorded s :=
  invariant_of_known (fun _ => inCustody) (fun _ _ found => by simp [start] at found)
    (fun _ _ _ cust every _ step => transition_outcomes cust every step) h

/-! ### What was read back -/

/-- As long as the references of a request are not deleted, its submit operation has
returned the wrapper. -/
def Intact (t : Ticket J) : Prop := unreffed t = false → t.submit ≠ .returned none

theorem Intact.wrapper {t : Ticket J} (intact : Intact t) (live : unreffed t = false)
    (returned : Returned t) : ∃ w, t.submit = .returned (some w) := by
  obtain ⟨read, isRead⟩ := returned
  cases read with
  | none => exact absurd isRead (intact live)
  | some w => exact ⟨w, isRead⟩

theorem transition_intact [DecidableEq J] {s s' : State J} {a : Action J} (cust : InCustody s)
    (alloc : Allocated s) (pending : Pending s) (settled : Settled s) (referenced : Referenced s)
    (every : Every Intact s) (step : Transition s a s') : Every Intact s' := by
  cases step with
  | submit => exact every.submitted fun _ returned => by cases returned
  | control | spawn | count | pollLock | shiftEmpty | donePoll | unlockEmpty | unlockTook | idling
  | workerLock | wantPoll | workerUnlock | quit => exact every.still rfl
  | wrap top =>
    obtain ⟨t, _, ticket, _⟩ := submit_own alloc pending settled top
    exact every.tracked ticket rfl fun _ _ returned => by cases returned
  | readBack top =>
    obtain ⟨t, d, ticket, rfl, unfinished, stored, _⟩ := submit_own alloc pending settled top
    refine every.tracked ticket rfl fun _ live returned => ?_
    obtain ⟨h, w, submit⟩ := openFrame_wrapped unfinished
    have read := requestAt_own referenced ticket stored live
    rw [SubmitState.returned.inj returned, object, submit] at read
    cases read
  | enqueue top | decReqs top | noCallback top | upcall top | complete top | unref top | freeData top
  | destroy top =>
    obtain ⟨t, ticket, _, place⟩ := cust.ticket (held_top top rfl)
    exact every.tracked ticket rfl (by simp [Intact, unreffed, place, progress])
  | shiftTook top took =>
    obtain ⟨t, ticket, _, place⟩ := cust.ticket (held_resQueue took)
    exact every.tracked ticket rfl (by simp [Intact, unreffed, place, progress])
  | workerTake found shifting took =>
    obtain ⟨t, ticket, _, place⟩ := cust.ticket (held_reqQueue took)
    exact every.tracked ticket rfl (by simp [Intact, unreffed, place, progress])
  | exec found =>
    obtain ⟨t, ticket, _, place⟩ := cust.ticket ((held_own_worker found .running _).mpr rfl)
    exact every.tracked ticket rfl (by simp [Intact, unreffed, place, progress])
  | push found =>
    obtain ⟨t, ticket, _, place⟩ := cust.ticket ((held_own_worker found .executed _).mpr rfl)
    exact every.tracked ticket rfl (by simp [Intact, unreffed, place, progress])

theorem intact [DecidableEq J] {ok : State J → Action J → Prop}
    (ordered : ∀ s a, ReachableBy (eventLoop J) ok s → ok s a → FreesReturned s a) {s : State J}
    (h : ReachableBy (eventLoop J) ok s) : Every Intact s := by
  induction h with
  | start =>
    intro id t found
    simp [eventLoop, start] at found
  | next before _ taken ih =>
    exact transition_intact (inCustody before) (allocated before) (Submitting.pending before)
      (References.settled ordered before) (referenced ordered before) ih (step_transition taken)

/-! ### Upcalls -/

/-- A step of `completion_callback` waits for the submit operation: an upcall is
made only after the submit operation of its request has returned, and by the
thread that called it; a `java_data` is freed only after it has returned. -/
structure InOrder (s : State J) (a : Action J) : Prop where
  upcall : ∀ j c p rest t, a = .go j c → s.threads j = .poll (.upcall p) :: rest →
    s.tickets[p.id]? = some t → t.callback ≠ none → Returned t ∧ t.owner = j
  free : FreesReturned s a

/-- The upcalls of a request: one, with its own callback and wrapper, if it has a
callback and has come that far; otherwise none. -/
structure Delivered (t : Ticket J) : Prop where
  before : called t = false → t.upcalls = []
  silent : t.callback = none → t.upcalls = []
  after : ∀ o, called t = true → t.callback = some o →
    ∃ w, t.submit = .returned (some w) ∧ t.upcalls = [⟨some o, some w, t.owner, t.owner⟩]

/-- What `Delivered` reads of a ticket. -/
def deliveryOf (t : Ticket J) : Bool × List (Upcall J) × Option Obj × SubmitState × J :=
  (called t, t.upcalls, t.callback, t.submit, t.owner)

theorem Delivered.congr {t t' : Ticket J} (same : deliveryOf t' = deliveryOf t) (h : Delivered t) :
    Delivered t' := by
  simp only [deliveryOf, Prod.mk.injEq] at same
  obtain ⟨when_, upcalls, callback, submit, owner⟩ := same
  refine ⟨fun early => ?_, fun null => ?_, fun o late given => ?_⟩
  · rw [upcalls]
    exact h.before (when_ ▸ early)
  · rw [upcalls]
    exact h.silent (callback ▸ null)
  · obtain ⟨w, returned, one⟩ := h.after o (when_ ▸ late) (callback ▸ given)
    exact ⟨w, submit.trans returned, by rw [upcalls, one, owner]⟩

/-- The upcalls of a request are none, or the one it is due. -/
theorem Delivered.upcalls {t : Ticket J} (h : Delivered t) : t.upcalls = [] ∨
    ∃ o w, called t = true ∧ t.callback = some o ∧ t.submit = .returned (some w) ∧
      t.upcalls = [⟨some o, some w, t.owner, t.owner⟩] := by
  cases late : called t with
  | false => exact .inl (h.before late)
  | true =>
    cases given : t.callback with
    | none => exact .inl (h.silent given)
    | some o =>
      obtain ⟨w, returned, one⟩ := h.after o late given
      exact .inr ⟨o, w, rfl, rfl, returned, one⟩

section
variable {s s' : State J} {j : J} {p : Ptr} {rest : List Frame} {r : EioReq} {d : JavaData J}

/-- The block read at the upcall is the request's own, with the handles it keeps. -/
theorem upcall_block (cust : InCustody s) (alloc : Allocated s)
    (top : s.threads j = .poll (.upcall p) :: rest) (read : s.reqAt p.addr = some r)
    (stored : s.dataAt r.data = some d) :
    ∃ t, s.tickets[p.id]? = some t ∧ t.place = .frame j rest.length .marked ∧ d.env = t.owner ∧
      ∀ k, kept s p.id k = handle d k := by
  obtain ⟨t, ticket, req, place⟩ := cust.ticket (held_top top rfl)
  obtain ⟨_, data, _⟩ := alloc.reqOf ticket req (by simp [reqFreed, place, progress]) read
  rw [data] at stored
  obtain ⟨_, env, _⟩ := alloc.dataOf ticket (by simp [dataFreed, place, progress]) stored
  refine ⟨t, ticket, place, env, fun k => ?_⟩
  rw [kept_of_ticket ticket, if_neg (by simp [unreffed, place, progress]), handlesAt, stored,
    Option.bind_some]

theorem noCallback_delivered (cust : InCustody s) (alloc : Allocated s) (referenced : Referenced s)
    (every : Every Delivered s) (top : s.threads j = .poll (.upcall p) :: rest)
    (read : s.reqAt p.addr = some r) (stored : s.dataAt r.data = some d)
    (null : d.javaCallback = none)
    (tickets : s'.tickets =
      s.tickets.modify p.id fun t => { t with place := .frame j rest.length .called }) :
    Every Delivered s' := by
  obtain ⟨t, ticket, place, _, own⟩ := upcall_block cust alloc top read stored
  have absent : t.callback = none := by
    cases given : t.callback with
    | none => rfl
    | some o =>
      obtain ⟨h, holds⟩ :=
        referenced.stored _ t .callback o ticket (by simp [unreffed, place, progress]) given
      rw [own, handle, null] at holds
      cases holds
  refine every.tracked ticket tickets fun delivered => ?_
  exact ⟨fun _ => delivered.silent absent, delivered.silent, fun o _ given => by
    rw [show t.callback = some o from given] at absent
    cases absent⟩

theorem upcall_delivered {h : Ref} (cust : InCustody s) (alloc : Allocated s)
    (referenced : Referenced s) (intact : Every Intact s) (every : Every Delivered s)
    (ordered : ∀ t, s.tickets[p.id]? = some t → t.callback ≠ none → Returned t ∧ t.owner = j)
    (top : s.threads j = .poll (.upcall p) :: rest) (read : s.reqAt p.addr = some r)
    (stored : s.dataAt r.data = some d) (given : d.javaCallback = some h)
    (tickets : s'.tickets = s.tickets.modify p.id fun t => { t with
      place := .frame j rest.length .called, upcalls := t.upcalls ++ [upcallOf s j d h] }) :
    Every Delivered s' := by
  obtain ⟨t, ticket, place, env, own⟩ := upcall_block cust alloc top read stored
  obtain ⟨o, callback, there⟩ := referenced.live _ t .callback h ticket ((own _).trans given)
  have live : unreffed t = false := by simp [unreffed, place, progress]
  obtain ⟨given_, owner⟩ := ordered t ticket (by rw [show t.callback = some o from callback]; simp)
  obtain ⟨w, returned⟩ := (intact _ t ticket).wrapper live given_
  obtain ⟨h', holds⟩ := referenced.stored _ t .request w ticket live (by simp [object, returned])
  obtain ⟨w', named, wrapper⟩ := referenced.live _ t .request h' ticket holds
  rw [own] at holds
  have call : upcallOf s j d h = ⟨some o, some w, t.owner, t.owner⟩ := by
    have same : w' = w := by simpa [object, returned] using named.symm
    simp [upcallOf, there, show d.javaRequest = some h' from holds, wrapper, same, env, owner]
  refine every.tracked ticket tickets fun delivered => ?_
  have none_yet : t.upcalls = [] := delivered.before (by simp [called, place, progress])
  refine ⟨fun early => ?_, fun null => ?_, fun o' _ given' => ⟨w, returned, ?_⟩⟩
  · simp [called, progress] at early
  · rw [show t.callback = some o from callback] at null
    cases null
  · rw [show t.callback = some o from callback] at given'
    cases given'
    simp [none_yet, call]

/-- A request whose submit operation is under way has made no upcall yet. -/
theorem submit_delivered {t : Ticket J} {slot : Slot J} {submit : SubmitState}
    (unfinished : openFrame t = some slot) (delivered : Delivered t) :
    Delivered { t with submit } := by
  refine ⟨delivered.before, delivered.silent, fun o late given => ?_⟩
  obtain ⟨w, returned, _⟩ := delivered.after o late given
  simp [openFrame, returned] at unfinished

end

theorem transition_delivered [DecidableEq J] {s s' : State J} {a : Action J} (cust : InCustody s)
    (alloc : Allocated s) (pending : Pending s) (settled : Settled s) (referenced : Referenced s)
    (intact : Every Intact s) (every : Every Delivered s) (inOrder : InOrder s a)
    (step : Transition s a s') : Every Delivered s' := by
  cases step with
  | submit => exact every.submitted ⟨fun _ => rfl, fun _ => rfl, fun _ late => by cases late⟩
  | control | spawn | count | pollLock | shiftEmpty | donePoll | unlockEmpty | unlockTook | idling
  | workerLock | wantPoll | workerUnlock | quit => exact every.still rfl
  | wrap top | readBack top =>
    obtain ⟨t, _, ticket, _, unfinished, _⟩ := submit_own alloc pending settled top
    exact every.tracked ticket rfl (submit_delivered unfinished)
  | noCallback top read stored null =>
    exact noCallback_delivered cust alloc referenced every top read stored null rfl
  | upcall top read stored given =>
    exact upcall_delivered cust alloc referenced intact every
      (fun t => inOrder.upcall _ _ _ _ t rfl top) top read stored given rfl
  | enqueue top | decReqs top | complete top | unref top | freeData top | destroy top =>
    obtain ⟨t, ticket, _, place⟩ := cust.ticket (held_top top rfl)
    exact every.tracked ticket rfl (.congr (by simp [deliveryOf, called, place, progress]))
  | shiftTook top took =>
    obtain ⟨t, ticket, _, place⟩ := cust.ticket (held_resQueue took)
    exact every.tracked ticket rfl (.congr (by simp [deliveryOf, called, place, progress]))
  | workerTake found shifting took =>
    obtain ⟨t, ticket, _, place⟩ := cust.ticket (held_reqQueue took)
    exact every.tracked ticket rfl (.congr (by simp [deliveryOf, called, place, progress]))
  | exec found =>
    obtain ⟨t, ticket, _, place⟩ := cust.ticket ((held_own_worker found .running _).mpr rfl)
    exact every.tracked ticket rfl (.congr (by simp [deliveryOf, called, place, progress]))
  | push found =>
    obtain ⟨t, ticket, _, place⟩ := cust.ticket ((held_own_worker found .executed _).mpr rfl)
    exact every.tracked ticket rfl (.congr (by simp [deliveryOf, called, place, progress]))

/-- On runs in order every upcall is the right one, and `wrap_request` never uses a
block that is no longer its own. -/
theorem delivered [DecidableEq J] {s : State J} (h : ReachableBy (eventLoop J) InOrder s) :
    Every Delivered s ∧ s.stray = [] := by
  have frees : ∀ (s : State J) a, ReachableBy (eventLoop J) InOrder s → InOrder s a →
      FreesReturned s a := fun _ _ _ inOrder => inOrder.free
  induction h with
  | start => exact ⟨fun _ _ found => by simp [eventLoop, start] at found, rfl⟩
  | @next s s' a before met taken ih =>
    have cust := inCustody before
    have alloc := allocated before
    have pending := Submitting.pending before
    have settled := References.settled frees before
    have step := step_transition taken
    refine ⟨transition_delivered cust alloc pending settled (referenced frees before)
      (intact frees before) ih.1 met step, ?_⟩
    cases step with
    | wrap top | readBack top =>
      obtain ⟨_, d, _, _, _, stored, did⟩ := submit_own alloc pending settled top
      simp [wrapped, readBack, strayed, stored, did, ih.2]
    | _ => exact ih.2

end WebbitAsyncio.Invariants.History
