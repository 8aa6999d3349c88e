import WebbitAsyncio.Invariants.Stack
import WebbitAsyncio.Lib.Ledger

/-!
# Submit operations in progress

A ticket is pending exactly while a frame of its owner's stack, at the height
the ticket names, is the submit operation that works on it; that frame carries
the ticket's own two addresses, and the ticket has its wrapper when `wrap_request`
has stored it. Reading the wrapper back is the step that ends the operation.
-/
namespace WebbitAsyncio.Invariants.Submitting
open WebbitAsyncio.Lib.TransitionSystem WebbitAsyncio.Lib.Ledger
open WebbitAsyncio.Source.EventLoop WebbitAsyncio.Invariants.Stack
open WebbitAsyncio.Source.Reqq (Addr)

variable {J : Type} [DecidableEq J]

/-- The request of a submit operation, and whether its wrapper is stored. -/
def frameSubmits : Frame → Option ((Ptr × Addr) × Bool)
  | .submit pc p data => some ((p, data), decide (pc = .readBack))
  | _ => none

/-- A frame, by its thread and height, and whether it has stored its wrapper. -/
abbrev Slot (J : Type) : Type := (J × Nat) × Bool

def AtWork (s : State J) (slot : Slot J) (x : Ptr × Addr) : Prop :=
  cellAt frameSubmits (s.threads slot.1.1) slot.1.2 = some (x, slot.2)

/-- The frame that a pending ticket names. -/
def openFrame (t : Ticket J) : Option (Slot J) :=
  match t.submit with
  | .pending h => some ((t.owner, h), false)
  | .wrapped h _ => some ((t.owner, h), true)
  | .returned _ => none

def pendingAt (s : State J) (x : Ptr × Addr) : Option (Slot J) :=
  (s.tickets[x.1.id]?).bind fun t => if t.req = x.1.addr ∧ t.data = x.2 then openFrame t else none

abbrev Pending (s : State J) : Prop := Agrees (AtWork s) (pendingAt s)

section
variable {s s' : State J} {j : J}

omit [DecidableEq J] in
theorem Pending.ticket {slot : Slot J} {x : Ptr × Addr} (pending : Pending s)
    (work : AtWork s slot x) : ∃ t, s.tickets[x.1.id]? = some t ∧ t.req = x.1.addr ∧ t.data = x.2 ∧
      openFrame t = some slot := by
  have named := (pending slot x).mp work
  rw [pendingAt, Option.bind_eq_some_iff] at named
  obtain ⟨t, found, named⟩ := named
  split at named
  next same => exact ⟨t, found, same.1, same.2, named⟩
  next => cases named

omit [DecidableEq J] in
/-- A ticket is pending only while its frame is on its owner's stack. -/
theorem Pending.frame {id : ReqId} {t : Ticket J} {slot : Slot J} (pending : Pending s)
    (found : s.tickets[id]? = some t) (unfinished : openFrame t = some slot) :
    ∃ pc, .submit pc ⟨t.req, id⟩ t.data ∈ s.threads slot.1.1 := by
  have named : pendingAt s (⟨t.req, id⟩, t.data) = some slot := by
    simp [pendingAt, found, unfinished]
  obtain ⟨f, member, said⟩ := cellAt_mem frameSubmits ((pending _ _).mpr named)
  cases f with
  | submit pc p data =>
    simp only [frameSubmits, Option.some.injEq, Prod.mk.injEq] at said
    obtain ⟨⟨rfl, rfl⟩, -⟩ := said
    exact ⟨pc, member⟩
  | start | poll | block | flush | callback => cases said

omit [DecidableEq J] in
theorem openFrame_owner {t : Ticket J} {slot : Slot J} (unfinished : openFrame t = some slot) :
    slot.1.1 = t.owner := by
  unfold openFrame at unfinished
  split at unfinished
  next => rw [← Option.some.inj unfinished]
  next => rw [← Option.some.inj unfinished]
  next => cases unfinished

omit [DecidableEq J] in
theorem openFrame_pending {t : Ticket J} {i : J × Nat} (unfinished : openFrame t = some (i, false)) :
    ∃ h, t.submit = .pending h := by
  cases submit : t.submit with
  | pending h => exact ⟨h, rfl⟩
  | wrapped h wrapper => simp [openFrame, submit] at unfinished
  | returned w => simp [openFrame, submit] at unfinished

omit [DecidableEq J] in
theorem openFrame_wrapped {t : Ticket J} {i : J × Nat} (unfinished : openFrame t = some (i, true)) :
    ∃ h w, t.submit = .wrapped h w := by
  cases submit : t.submit with
  | pending h => simp [openFrame, submit] at unfinished
  | wrapped h wrapper => exact ⟨h, wrapper, rfl⟩
  | returned w => simp [openFrame, submit] at unfinished

theorem Pending.thread {stack : List Frame} (pending : Pending s)
    (same : cellAt frameSubmits stack = cellAt frameSubmits (s.threads j))
    (threads : s'.threads = Function.update s.threads j stack)
    (kept : ∀ x, pendingAt s' x = pendingAt s x) : Pending s' := by
  refine Agrees.keep pending (fun slot x => ?_) kept
  rw [AtWork, AtWork, cellAt_update threads same]

omit [DecidableEq J] in
theorem Pending.worker (pending : Pending s) (threads : s'.threads = s.threads)
    (kept : ∀ x, pendingAt s' x = pendingAt s x) : Pending s' :=
  Agrees.keep pending (fun slot x => by rw [AtWork, AtWork, threads]) kept

omit [DecidableEq J] in
theorem pendingAt_same (tickets : s'.tickets = s.tickets) (x : Ptr × Addr) :
    pendingAt s' x = pendingAt s x := by rw [pendingAt, tickets]; rfl

omit [DecidableEq J] in
/-- Moving a request does not touch its submission. -/
theorem pendingAt_tracked {id : ReqId} {f : Ticket J → Ticket J}
    (tickets : s'.tickets = s.tickets.modify id f)
    (kept : ∀ t, (f t).req = t.req ∧ (f t).data = t.data ∧ openFrame (f t) = openFrame t)
    (x : Ptr × Addr) : pendingAt s' x = pendingAt s x := by
  simp only [pendingAt, tickets, List.getElem?_modify]
  cases s.tickets[x.1.id]? with
  | none => rfl
  | some t =>
    obtain ⟨req, data, opened⟩ := kept t
    simp only [Option.bind_some]
    split <;> simp [req, data, opened]

/-! ### The two steps that open and close a submission -/

theorem submit_pending {pri : Source.Reqq.JInt} {callback : Option Obj} {req data : Addr} {ref : Ref}
    (pending : Pending s) : Pending (submitted s j pri callback req data ref) := by
  have absent : pendingAt s (⟨req, s.tickets.length⟩, data) = none := by simp [pendingAt]
  have own : (submitted s j pri callback req data ref).threads =
      Function.update s.threads j (.submit .enqueue ⟨req, s.tickets.length⟩ data :: s.threads j) := rfl
  have now : pendingAt (submitted s j pri callback req data ref) (⟨req, s.tickets.length⟩, data) =
      some ((j, (s.threads j).length), false) := by simp [pendingAt, submitted, openFrame]
  refine Agrees.add pending absent ?_ ?_ now ?_
  · intro x
    have vacant : cellAt frameSubmits (s.threads j) (s.threads j).length = none :=
      cellAt_beyond _ (Nat.le_refl _)
    simp [AtWork, own, frameSubmits, vacant, eq_comm]
  · intro slot apart x
    obtain ⟨⟨i, h⟩, stored⟩ := slot
    by_cases equal : i = j
    · subst equal
      by_cases other : h = (s.threads i).length
      · subst other
        have vacant : cellAt frameSubmits (s.threads i) (s.threads i).length = none :=
          cellAt_beyond _ (Nat.le_refl _)
        have wrapped : stored = true := by
          cases stored with
          | true => rfl
          | false => exact absurd rfl apart
        simp [AtWork, own, frameSubmits, vacant, wrapped]
      · simp [AtWork, own, cellAt_other _ _ other]
    · simp [AtWork, own, equal]
  · intro x different
    by_cases new : x.1.id = s.tickets.length
    · have apart : ¬ (req = x.1.addr ∧ data = x.2) := by
        rintro ⟨same, also⟩
        exact different (Prod.ext (by cases h : x.1; simp_all) also.symm)
      simp [pendingAt, submitted, new, apart]
    · simp [pendingAt, submitted, getElem?_appended, new]

omit [DecidableEq J] in
/-- Only the two addresses of its ticket make a submission known. -/
theorem pendingAt_other {t : Ticket J} {p : Ptr} {data : Addr} {x : Ptr × Addr}
    (found : s.tickets[p.id]? = some t) (req : t.req = p.addr) (block : t.data = data)
    (f : Ticket J → Ticket J) (sameReq : (f t).req = t.req) (sameData : (f t).data = t.data)
    (tickets : s'.tickets = s.tickets.modify p.id f) (different : x ≠ (p, data)) :
    pendingAt s' x = pendingAt s x := by
  by_cases id : x.1.id = p.id
  · have apart : ¬ (t.req = x.1.addr ∧ t.data = x.2) := by
      intro same
      refine different (Prod.ext ?_ (same.2.symm.trans block))
      cases own : x.1
      cases p
      simp_all
    simp [pendingAt, tickets, id, found, sameReq, sameData, apart]
  · simp [pendingAt, tickets, Ne.symm id]

theorem wrap_pending {p : Ptr} {data : Addr} {rest : List Frame} {ref : Ref} (pending : Pending s)
    (top : s.threads j = .submit .wrap p data :: rest) :
    Pending ((wrapped s p data ref rest.length).setStack j (.submit .readBack p data :: rest)) := by
  have there : AtWork s ((j, rest.length), false) (p, data) := by simp [AtWork, top, frameSubmits]
  obtain ⟨t, found, req, block, unfinished⟩ := Pending.ticket pending there
  have owner : t.owner = j := (openFrame_owner unfinished).symm
  have kept : (wrapped s p data ref rest.length).threads = s.threads := rfl
  have apart : ((j, rest.length), false) ≠ ((j, rest.length), true) := by simp
  refine Agrees.move pending there apart ?_ ?_ ?_ ?_ ?_
  · intro x
    simp [AtWork, top, frameSubmits, eq_comm]
  · intro x
    simp [AtWork, top, frameSubmits, eq_comm]
  · intro slot notSrc notDst x
    obtain ⟨⟨i, h⟩, stored⟩ := slot
    by_cases equal : i = j
    · subst equal
      have other : h ≠ rest.length := by
        intro same
        cases stored with
        | false => exact notSrc (by rw [same])
        | true => exact notDst (by rw [same])
      simp [AtWork, top, cellAt_other _ _ other]
    · simp [AtWork, kept, equal]
  · simp [pendingAt, wrapped, found, openFrame, req, block, owner]
  · exact fun x => pendingAt_other found req block _ rfl rfl rfl

theorem readBack_pending {p : Ptr} {data : Addr} {rest : List Frame} (pending : Pending s)
    (top : s.threads j = .submit .readBack p data :: rest) :
    Pending ((readBack s p data).setStack j rest) := by
  have there : AtWork s ((j, rest.length), true) (p, data) := by simp [AtWork, top, frameSubmits]
  obtain ⟨t, found, req, block, unfinished⟩ := Pending.ticket pending there
  have kept : (readBack s p data).threads = s.threads := rfl
  have vacant : cellAt frameSubmits rest rest.length = none := cellAt_beyond _ (Nat.le_refl _)
  refine Agrees.remove pending there ?_ ?_ ?_ ?_
  · intro x
    simp [AtWork, vacant, top, frameSubmits, eq_comm]
  · intro slot apart x
    obtain ⟨⟨i, h⟩, stored⟩ := slot
    by_cases equal : i = j
    · subst equal
      by_cases other : h = rest.length
      · subst other
        have unstored : stored = false := by
          cases stored with
          | false => rfl
          | true => exact absurd rfl apart
        simp [AtWork, vacant, top, frameSubmits, unstored]
      · simp [AtWork, top, cellAt_other _ _ other]
    · simp [AtWork, kept, equal]
  · simp [pendingAt, readBack, found, openFrame]
  · exact fun x => pendingAt_other found req block _ rfl rfl rfl

end

/-! ### The step and the run -/

theorem bookkeeping_submits (f : Frame) (h : Bookkeeping f) : frameSubmits f = none := by
  cases h <;> rfl

theorem transition_pending {s s' : State J} {a : Action J} (pending : Pending s)
    (step : Transition s a s') : Pending s' := by
  cases step with
  | submit => exact submit_pending pending
  | control moved =>
    exact pending.thread (control_cellAt bookkeeping_submits moved) rfl (pendingAt_same rfl)
  | enqueue top =>
    refine pending.thread ?_ rfl (pendingAt_tracked rfl fun _ => ⟨rfl, rfl, rfl⟩)
    rw [top]
    exact (cellAt_cons _ _ rfl).trans (cellAt_top _ _ rfl)
  | wrap top => exact wrap_pending pending top
  | readBack top => exact readBack_pending pending top
  | spawn top | pollLock top | shiftEmpty top | donePoll top | unlockTook top =>
    refine pending.thread ?_ rfl (pendingAt_same rfl)
    rw [top]
    exact cellAt_top _ _ rfl
  | count top | unlockEmpty top =>
    refine pending.thread ?_ rfl (pendingAt_same rfl)
    rw [top]
    exact (cellAt_cons _ _ rfl).symm
  | shiftTook top | decReqs top | complete top | noCallback top | unref top | freeData top =>
    refine pending.thread ?_ rfl (pendingAt_tracked rfl fun _ => ⟨rfl, rfl, rfl⟩)
    rw [top]
    exact cellAt_top _ _ rfl
  | upcall top =>
    refine pending.thread ?_ rfl (pendingAt_tracked rfl fun _ => ⟨rfl, rfl, rfl⟩)
    rw [top]
    exact (cellAt_cons _ _ rfl).trans (cellAt_top _ _ rfl)
  | destroy top =>
    refine pending.thread ?_ rfl (pendingAt_tracked rfl fun _ => ⟨rfl, rfl, rfl⟩)
    rw [top, cellAt_cons _ _ rfl]
    split
    next => exact cellAt_cons _ _ rfl
    next => rfl
  | idling | workerLock | wantPoll | workerUnlock | quit =>
    exact pending.worker rfl (pendingAt_same rfl)
  | workerTake | exec | push =>
    exact pending.worker rfl (pendingAt_tracked rfl fun _ => ⟨rfl, rfl, rfl⟩)

omit [DecidableEq J] in
theorem pending_start : Pending (start : State J) := by
  intro slot x
  simp [AtWork, start, pendingAt, cellAt]

theorem pending {ok : State J → Action J → Prop} {s : State J}
    (h : ReachableBy (eventLoop J) ok s) : Pending s :=
  invariant_of_transition pending_start (fun _ _ _ holds _ step => transition_pending holds step) h

omit [DecidableEq J] in
theorem returned_of_closed {t : Ticket J} (closed : openFrame t = none) :
    ∃ w, t.submit = .returned w := by
  cases submit : t.submit with
  | pending h => simp [openFrame, submit] at closed
  | wrapped h wrapper => simp [openFrame, submit] at closed
  | returned w => exact ⟨w, rfl⟩

/-- With one thread, whoever polls has finished every submission. -/
theorem returned_of_poll {s : State Unit} {pc : PollPc} {rest : List Frame} {id : ReqId}
    {t : Ticket Unit} (stacked : Stacked (s.threads ())) (pending : Pending s)
    (top : s.threads () = .poll pc :: rest) (found : s.tickets[id]? = some t) :
    ∃ w, t.submit = .returned w := by
  cases unfinished : openFrame t with
  | none => exact returned_of_closed unfinished
  | some slot =>
    obtain ⟨pc', member⟩ := Pending.frame pending found unfinished
    rcases Stacked.submit_top stacked member with ⟨below, equal⟩ | ⟨start, below, equal⟩
    · rw [top] at equal
      cases equal
    · rw [top] at equal
      cases equal

end WebbitAsyncio.Invariants.Submitting
