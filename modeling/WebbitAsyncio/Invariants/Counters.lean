import WebbitAsyncio.Invariants.Memory
import WebbitAsyncio.Lib.Tally

/-!
# What `nreqs` counts

The unsigned counter that `numRequests()` returns is the number of requests that
`etp_submit` has queued and whose completion has not begun, modulo 2^32: on every
run, with any number of threads. No other step of a request's life changes it.
-/
namespace WebbitAsyncio.Invariants.Counters
open WebbitAsyncio.Lib.TransitionSystem WebbitAsyncio.Lib.Tally
open WebbitAsyncio.Source.EventLoop
open WebbitAsyncio.Invariants.Custody WebbitAsyncio.Invariants.Memory

variable {J : Type}

/-- The request is queued, executing, finished or taken. -/
def inFlight (t : Ticket J) : Bool := 1 ≤ progress t.place ∧ progress t.place ≤ 5

abbrev Counted (s : State J) : Prop := Tallies inFlight s.tickets s.nreqs

section
variable {s s' : State J} {id : ReqId} {t : Ticket J} {f : Ticket J → Ticket J}

theorem Counted.still (counted : Counted s) (tickets : s'.tickets = s.tickets)
    (nreqs : s'.nreqs = s.nreqs) : Counted s' := by
  rw [Counted, tickets, nreqs]
  exact counted

theorem Counted.moved (counted : Counted s) (found : s.tickets[id]? = some t)
    (tickets : s'.tickets = s.tickets.modify id f) (nreqs : s'.nreqs = s.nreqs)
    (same : inFlight (f t) = inFlight t) : Counted s' := by
  rw [Counted, tickets, nreqs, modify_eq_replaced found]
  exact counted.same found same

theorem Counted.entered (counted : Counted s) (found : s.tickets[id]? = some t)
    (tickets : s'.tickets = s.tickets.modify id f) (nreqs : s'.nreqs = s.nreqs + 1)
    (before : inFlight t = false) (after : inFlight (f t) = true) : Counted s' := by
  rw [Counted, tickets, nreqs, modify_eq_replaced found]
  exact counted.enter found before after

theorem Counted.left (counted : Counted s) (found : s.tickets[id]? = some t)
    (tickets : s'.tickets = s.tickets.modify id f) (nreqs : s'.nreqs = s.nreqs - 1)
    (before : inFlight t = true) (after : inFlight (f t) = false) : Counted s' := by
  rw [Counted, tickets, nreqs, modify_eq_replaced found]
  exact counted.leave found before after

end

theorem transition_counted [DecidableEq J] {s s' : State J} {a : Action J} (cust : InCustody s)
    (counted : Counted s) (step : Transition s a s') : Counted s' := by
  cases step with
  | submit =>
    rw [Counted, submitted_tickets]
    exact counted.append rfl
  | control | spawn | count | pollLock | shiftEmpty | donePoll | unlockEmpty | unlockTook | idling
  | workerLock | wantPoll | workerUnlock | quit => exact counted.still rfl rfl
  | @wrap j c p data rest | @readBack j c p data rest =>
    cases found : s.tickets[p.id]? with
    | none => exact counted.still (List.modify_eq_self (List.getElem?_eq_none_iff.mp found)) rfl
    | some t => exact counted.moved found rfl rfl rfl
  | enqueue top =>
    obtain ⟨t, ticket, _, place⟩ := cust.ticket (held_top top rfl)
    exact counted.entered ticket rfl rfl (by simp [inFlight, place, progress]) rfl
  | decReqs top =>
    obtain ⟨t, ticket, _, place⟩ := cust.ticket (held_top top rfl)
    exact counted.left ticket rfl rfl (by simp [inFlight, place, progress]) rfl
  | complete top | noCallback top | upcall top | unref top | freeData top | destroy top =>
    obtain ⟨t, ticket, _, place⟩ := cust.ticket (held_top top rfl)
    exact counted.moved ticket rfl rfl (by simp [inFlight, place, progress])
  | shiftTook top took =>
    obtain ⟨t, ticket, _, place⟩ := cust.ticket (held_resQueue took)
    exact counted.moved ticket rfl rfl (by simp [inFlight, place, progress])
  | workerTake found shifting took =>
    obtain ⟨t, ticket, _, place⟩ := cust.ticket (held_reqQueue took)
    exact counted.moved ticket rfl rfl (by simp [inFlight, place, progress])
  | exec found =>
    obtain ⟨t, ticket, _, place⟩ := cust.ticket ((held_own_worker found .running _).mpr rfl)
    exact counted.moved ticket rfl rfl (by simp [inFlight, place, progress])
  | push found =>
    obtain ⟨t, ticket, _, place⟩ := cust.ticket ((held_own_worker found .executed _).mpr rfl)
    exact counted.moved ticket rfl rfl (by simp [inFlight, place, progress])

theorem counted [DecidableEq J] {ok : State J → Action J → Prop} {s : State J}
    (h : ReachableBy (eventLoop J) ok s) : Counted s :=
  invariant_of_known (fun _ => inCustody) tallies_nil
    (fun _ _ _ cust counted _ step => transition_counted cust counted step) h

end WebbitAsyncio.Invariants.Counters
