import WebbitAsyncio.Lib.JobService
import WebbitAsyncio.Invariants.Memory

/-!
# The event loop as a service

The moments at which a request is submitted, taken up, finished and delivered, and
the state of the service that a state of the event loop stands for: the two queues
as lists in order of arrival, and every request at the station its ticket names.
-/
namespace WebbitAsyncio.Invariants.Stations
open WebbitAsyncio.Lib WebbitAsyncio.Lib.TransitionSystem WebbitAsyncio.Lib.Ledger
open WebbitAsyncio.Lib.JobService WebbitAsyncio.Lib.Refinement
open WebbitAsyncio.Source.EventLoop WebbitAsyncio.Invariants.Custody
open WebbitAsyncio.Invariants.Memory
open WebbitAsyncio.Source.Reqq (Addr numPri)

variable {J : Type}

abbrev Pri : Type := Fin numPri

/-- What is seen of a step: the section of `etp_submit`, a worker's `reqq_shift` and
`reqq_push`, and the `reqq_shift` of `etp_poll`. -/
def visible (s : State J) : Action J → Option (Event ReqId Pri)
  | .go j _ =>
    match s.threads j with
    | .submit .enqueue p _ :: _ => (s.reqAt p.addr).map fun r => .submit ⟨p.id, r.pri⟩
    | .poll .shift :: _ => s.resQueue.shift.map fun taken => .deliver taken.1.id
    | _ => none
  | .worker w _ =>
    match s.workers[w]? with
    | some .shift => s.reqQueue.shift.map fun taken => .take taken.1.id
    | some .woken => s.reqQueue.shift.map fun taken => .take taken.1.id
    | some (.push p) => (s.reqAt p.addr).map fun r => .finish ⟨p.id, r.pri⟩
    | _ => none
  | _ => none

def stationOf : Place J → Option Station
  | .frame _ _ .submitting => none
  | .reqQueue => some .waiting
  | .worker _ _ => some .executing
  | .resQueue => some .finished
  | _ => some .delivered

/-- The station that the ticket of a request names. -/
def stationAt (s : State J) (id : ReqId) : Option Station :=
  ((s.tickets[id]?).map fun t => stationOf t.place).join

/-- The queue holds the jobs, each under its priority and in order of arrival. -/
def QueueOf (jobs : List (Job ReqId Pri)) (queue : ReqQueue) : Prop :=
  ∃ b : Buckets numPri (Job ReqId Pri),
    Buckets.Files Job.pri jobs b ∧ b.map Job.id = queue.queues.map Ptr.id

structure Refines (s : State J) (v : Service ReqId Pri) : Prop where
  waiting : QueueOf v.waiting s.reqQueue
  finished : QueueOf v.finished s.resQueue
  stations : Agrees v.Holds (stationAt s)
  pri : ∀ a r, s.reqAt a = some r → ∀ station, station = .waiting ∨ station = .executing →
    ∀ job ∈ v.jobs station, job.id = r.id → job.pri = r.pri

/-! ### The queues -/

theorem queueOf_empty : QueueOf [] .empty :=
  ⟨Buckets.empty, Buckets.files_empty _, by funext i; rfl⟩

theorem QueueOf.push {jobs : List (Job ReqId Pri)} {queue : ReqQueue}
    (represents : QueueOf jobs queue) (job : Job ReqId Pri) {p : Ptr} (same : job.id = p.id) :
    QueueOf (jobs ++ [job]) (queue.push job.pri p) := by
  obtain ⟨b, files, ids⟩ := represents
  refine ⟨b.push job.pri job, files.push job, ?_⟩
  show (b.push job.pri job).map Job.id = (queue.queues.push job.pri p).map Ptr.id
  rw [Buckets.map_push, Buckets.map_push, ids, same]

theorem QueueOf.shift {jobs : List (Job ReqId Pri)} {queue left : ReqQueue} {p : Ptr}
    (represents : QueueOf jobs queue) (took : queue.shift = some (p, left)) :
    ∃ job rest, Buckets.EarliestLargest Job.pri jobs job rest ∧ job.id = p.id ∧
      QueueOf rest left := by
  obtain ⟨b, files, ids⟩ := represents
  have below : queue.queues.shift = some (p, left.queues) := by
    unfold ReqQueue.shift at took
    split at took
    next => cases took
    next p' rest' taken =>
      simp only [Option.some.injEq, Prod.mk.injEq] at took
      obtain ⟨rfl, rfl⟩ := took
      exact taken
  have both := congrArg Buckets.shift ids
  rw [Buckets.shift_map, Buckets.shift_map, below, Option.map_some, Option.map_eq_some_iff] at both
  obtain ⟨⟨job, b'⟩, shifted, same⟩ := both
  simp only [Prod.mk.injEq] at same
  obtain ⟨rest, best, files'⟩ := files.shift shifted
  exact ⟨job, rest, best, same.1, b', files', same.2⟩

/-! ### Steps that are not seen -/

section
variable {s s' : State J} {v : Service ReqId Pri}

theorem stationAt_ticket {id : ReqId} {t : Ticket J} (found : s.tickets[id]? = some t) :
    stationAt s id = stationOf t.place := by
  rw [stationAt, found]
  rfl

theorem stationAt_same (tickets : s'.tickets = s.tickets) : stationAt s' = stationAt s := by
  funext id
  rw [stationAt, tickets, stationAt]

/-- A request that stays at its station. -/
theorem stationAt_modify {id : ReqId} {f : Ticket J → Ticket J}
    (tickets : s'.tickets = s.tickets.modify id f)
    (same : ∀ t, s.tickets[id]? = some t → stationOf (f t).place = stationOf t.place) :
    stationAt s' = stationAt s := by
  funext other
  have view := getElem?_modify_view (fun t : Ticket J => stationOf t.place) same other
  rw [stationAt, tickets, view, stationAt]

theorem stationAt_kept {id : ReqId} {t : Ticket J} {f : Ticket J → Ticket J}
    (found : s.tickets[id]? = some t) (tickets : s'.tickets = s.tickets.modify id f)
    (same : stationOf (f t).place = stationOf t.place) : stationAt s' = stationAt s := by
  refine stationAt_modify tickets fun t' there => ?_
  rw [found] at there
  obtain rfl := Option.some.inj there
  exact same

/-- The requests' blocks that are left, or are not yet at any station. -/
def BlocksKept (s s' : State J) : Prop :=
  ∀ a r', s'.reqAt a = some r' →
    stationAt s r'.id = none ∨ ∃ r, s.reqAt a = some r ∧ r.id = r'.id ∧ r.pri = r'.pri

theorem blocksKept_same (heap : s'.heap = s.heap) : BlocksKept s s' := by
  intro a r' there
  rw [reqAt_eq_some, heap, ← reqAt_eq_some] at there
  exact Or.inr ⟨r', there, rfl, rfl⟩

/-- One block is written or freed. -/
theorem blocksKept_update {a : Addr} {b : Option (Block J)}
    (heap : s'.heap = Function.update s.heap a b)
    (kept : ∀ r', b = some (.req r') →
      ∃ r, s.reqAt a = some r ∧ r.id = r'.id ∧ r.pri = r'.pri) : BlocksKept s s' := by
  intro a' r' there
  rw [reqAt_eq_some, heap] at there
  by_cases here : a' = a
  · subst here
    rw [Function.update_self] at there
    exact Or.inr (kept r' there)
  · rw [Function.update_of_ne here, ← reqAt_eq_some] at there
    exact Or.inr ⟨r', there, rfl, rfl⟩

theorem Refines.pri_kept (refines : Refines s v) (blocks : BlocksKept s s') :
    ∀ a r, s'.reqAt a = some r → ∀ station, station = .waiting ∨ station = .executing →
      ∀ job ∈ v.jobs station, job.id = r.id → job.pri = r.pri := by
  intro a r there station early job inside same
  rcases blocks a r there with absent | ⟨old, before, id, pri⟩
  · have held : v.Holds station r.id := same ▸ List.mem_map_of_mem inside
    rw [refines.stations, absent] at held
    cases held
  · rw [← pri]
    exact refines.pri a old before station early job inside (same.trans id.symm)

theorem Refines.still (refines : Refines s v) (reqs : s'.reqQueue = s.reqQueue)
    (ress : s'.resQueue = s.resQueue) (stations : stationAt s' = stationAt s)
    (blocks : BlocksKept s s') : Refines s' v := by
  refine ⟨by rw [reqs]; exact refines.waiting, by rw [ress]; exact refines.finished, ?_,
    refines.pri_kept blocks⟩
  rw [stations]
  exact refines.stations

theorem storeRequest_kept (s : State J) (data : Addr) (ref : Ref) {s' : State J}
    (heap : s'.heap = storeRequest s data ref) : BlocksKept s s' := by
  intro a r' there
  rw [reqAt_eq_some, heap] at there
  rcases storeRequest_cases s data ref a with same | ⟨d, _, _, same⟩
  · rw [same, ← reqAt_eq_some] at there
    exact Or.inr ⟨r', there, rfl, rfl⟩
  · rw [same] at there
    cases there

variable [DecidableEq J]

/-- A new request is at no station yet. -/
theorem submitted_refines {j : J} {pri : Source.Reqq.JInt} {callback : Option Obj}
    {req data : Addr} {ref : Ref} (apart : req ≠ data) (refines : Refines s v) :
    Refines (submitted s j pri callback req data ref) v := by
  have outside : stationAt s s.tickets.length = none := by simp [stationAt]
  refine refines.still rfl rfl ?_ fun a r' there => ?_
  · funext id
    by_cases new : id = s.tickets.length
    · subst new
      rw [outside, stationAt, submitted_tickets]
      simp [stationOf]
    · simp [stationAt, submitted_tickets, getElem?_appended, new]
  · have heap : (submitted s j pri callback req data ref).heap =
        Function.update (Function.update s.heap data
          (some (.data ⟨j, callback.map fun _ => ref, none, false, s.tickets.length⟩))) req
          (some (.req ⟨data, Source.Reqq.submitIndex pri, 0, 0, s.tickets.length⟩)) := rfl
    rw [reqAt_eq_some, heap] at there
    by_cases isReq : a = req
    · subst isReq
      rw [Function.update_self] at there
      obtain rfl : _ = r' := by simpa using there
      exact Or.inl outside
    rw [Function.update_of_ne isReq] at there
    by_cases isData : a = data
    · subst isData
      rw [Function.update_self] at there
      cases there
    · rw [Function.update_of_ne isData, ← reqAt_eq_some] at there
      exact Or.inr ⟨r', there, rfl, rfl⟩

/-- Whatever is not seen leaves the service as it is. -/
theorem unseen_refines {a : Action J} (cust : InCustody s) (refines : Refines s v)
    (step : Transition s a s') (unseen : visible s a = none) : Refines s' v := by
  cases step with
  | submit _ _ _ apart => exact submitted_refines apart refines
  | control | spawn | count | pollLock | shiftEmpty | donePoll | unlockEmpty | unlockTook | idling
  | workerLock | wantPoll | workerUnlock | quit =>
    exact refines.still rfl rfl (stationAt_same rfl) (blocksKept_same rfl)
  | enqueue top read =>
    simp [visible, top, read] at unseen
  | shiftTook top took =>
    simp [visible, top, took] at unseen
  | workerTake found shifting took =>
    cases shifting <;> simp [visible, found, took] at unseen
  | push found read =>
    simp [visible, found, read] at unseen
  | wrap top =>
    exact refines.still rfl rfl (stationAt_modify rfl fun _ _ => rfl)
      (storeRequest_kept s _ _ rfl)
  | readBack top =>
    exact refines.still rfl rfl (stationAt_modify rfl fun _ _ => rfl) (blocksKept_same rfl)
  | decReqs top | noCallback top | upcall top | unref top =>
    obtain ⟨t, ticket, _, place⟩ := cust.ticket (held_top top rfl)
    exact refines.still rfl rfl (stationAt_kept ticket rfl (by rw [place]; rfl))
      (blocksKept_same rfl)
  | complete top read stored =>
    obtain ⟨t, ticket, _, place⟩ := cust.ticket (held_top top rfl)
    exact refines.still rfl rfl (stationAt_kept ticket rfl (by rw [place]; rfl))
      (blocksKept_update rfl fun r' same => by cases same)
  | freeData top read =>
    obtain ⟨t, ticket, _, place⟩ := cust.ticket (held_top top rfl)
    exact refines.still rfl rfl (stationAt_kept ticket rfl (by rw [place]; rfl))
      (blocksKept_update rfl fun r' same => by cases same)
  | destroy top =>
    obtain ⟨t, ticket, _, place⟩ := cust.ticket (held_top top rfl)
    exact refines.still rfl rfl (stationAt_kept ticket rfl (by rw [place]; rfl))
      (blocksKept_update rfl fun r' same => by cases same)
  | exec found read =>
    obtain ⟨t, ticket, _, place⟩ :=
      cust.ticket ((held_own_worker found .running _).mpr rfl)
    refine refines.still rfl rfl (stationAt_kept ticket rfl (by rw [place]; rfl))
      (blocksKept_update rfl fun r' same => ?_)
    obtain rfl : _ = r' := by simpa using same
    exact ⟨_, read, rfl, rfl⟩

end

/-! ### Steps that are seen -/

section
variable {s s' : State J} {v : Service ReqId Pri} {events : List (Event ReqId Pri)}

/-- The stations after a request went from one to the next. -/
theorem stationAt_moved {id : ReqId} {t : Ticket J} {place : Place J}
    (found : s.tickets[id]? = some t)
    (tickets : s'.tickets = s.tickets.modify id fun t => { t with place := place }) :
    stationAt s' id = stationOf place ∧
      ∀ other, other ≠ id → stationAt s' other = stationAt s other := by
  refine ⟨?_, fun other different => ?_⟩
  · rw [stationAt, tickets, List.getElem?_modify_eq, found]
    rfl
  · rw [stationAt, tickets, List.getElem?_modify_ne _ _ (Ne.symm different), stationAt]

/-- The two blocks of one request are one. -/
theorem req_unique {a a' : Addr} {r r' : EioReq} (alloc : Allocated s)
    (here : s.reqAt a = some r) (there : s.reqAt a' = some r') (same : r.id = r'.id) : r = r' := by
  obtain ⟨t, found, placed, -⟩ := alloc.owner a _ (reqAt_eq_some.mp here)
  obtain ⟨t', found', placed', -⟩ := alloc.owner a' _ (reqAt_eq_some.mp there)
  simp only [blockId] at found found'
  rw [same, found', Option.some.injEq] at found
  subst found
  rw [← placed, reqAt_eq_some] at here
  rw [← placed', reqAt_eq_some] at there
  rw [here] at there
  simpa using there

theorem mem_ids_of_split {jobs before after : List (Job ReqId Pri)} {job : Job ReqId Pri}
    (split : jobs = before ++ job :: after) (once : (jobs.map Job.id).Nodup) (id : ReqId) :
    id ∈ (before ++ after).map Job.id ↔ id ≠ job.id ∧ id ∈ jobs.map Job.id := by
  subst split
  rw [List.map_append, List.map_cons, List.nodup_middle, List.nodup_cons] at once
  simp only [List.map_append, List.map_cons, List.mem_append, List.mem_cons] at once ⊢
  constructor
  · intro rest
    refine ⟨fun same => once.1 (same ▸ rest), ?_⟩
    rcases rest with first | second
    · exact Or.inl first
    · exact Or.inr (Or.inr second)
  · rintro ⟨different, first | same | second⟩
    · exact Or.inl first
    · exact absurd same different
    · exact Or.inr second

theorem holds_snoc (jobs : List (Job ReqId Pri)) (job : Job ReqId Pri) (id : ReqId) :
    id ∈ (jobs ++ [job]).map Job.id ↔ id = job.id ∨ id ∈ jobs.map Job.id := by
  simp [or_comm]

/-- What a seen step leaves alone, and the request it moves. -/
structure Moves (s s' : State J) (p : Ptr) (t : Ticket J) (place : Place J) : Prop where
  ticket : s.tickets[p.id]? = some t
  heap : s'.heap = s.heap
  tickets : s'.tickets = s.tickets.modify p.id fun t => { t with place := place }

theorem submit_refines {p : Ptr} {t : Ticket J} {r : EioReq} (alloc : Allocated s)
    (refines : Refines s v) (moves : Moves s s' p t .reqQueue) (before : stationOf t.place = none)
    (read : s.reqAt p.addr = some r) (own : r.id = p.id)
    (reqs : s'.reqQueue = s.reqQueue.push r.pri p) (ress : s'.resQueue = s.resQueue) :
    ∃ v', Step v (.submit ⟨p.id, r.pri⟩) v' ∧ Refines s' v' := by
  have absent : stationAt s p.id = none := (stationAt_ticket moves.ticket).trans before
  obtain ⟨now, others⟩ := stationAt_moved moves.ticket moves.tickets
  refine ⟨_, .submit fun station held => ?_, ?_, ?_, ?_, ?_⟩
  · rw [refines.stations, absent] at held
    cases held
  · rw [reqs]
    exact refines.waiting.push ⟨p.id, r.pri⟩ rfl
  · rw [ress]
    exact refines.finished
  · have arrived : stationAt s' p.id = some .waiting := now
    refine refines.stations.add absent ?_ ?_ arrived others
    · exact fun x => holds_snoc _ _ x
    · intro station apart x
      cases station <;> first | exact absurd rfl apart | exact Iff.rfl
  · intro a r' there station early job inside same
    have there' : s.reqAt a = some r' := by
      rw [reqAt_eq_some, ← moves.heap, ← reqAt_eq_some]
      exact there
    rcases early with rfl | rfl
    · rcases List.mem_append.mp inside with old | new
      · exact refines.pri a r' there' .waiting (Or.inl rfl) job old same
      · obtain rfl := List.mem_singleton.mp new
        rw [req_unique alloc read there' (own.trans same)]
    · exact refines.pri a r' there' .executing (Or.inr rfl) job inside same

theorem take_refines {p : Ptr} {t : Ticket J} {w : Nat} {stage : WorkerStage} {queue : ReqQueue}
    (account : Account events v) (refines : Refines s v)
    (moves : Moves s s' p t (.worker w stage)) (before : stationOf t.place = some .waiting)
    (took : s.reqQueue.shift = some (p, queue)) (reqs : s'.reqQueue = queue)
    (ress : s'.resQueue = s.resQueue) :
    ∃ v', Step v (.take p.id) v' ∧ Refines s' v' := by
  obtain ⟨job, rest, best, same, represents⟩ := refines.waiting.shift took
  have ⟨front, back, split, kept, _, _⟩ := best
  have once : (v.waiting.map Job.id).Nodup := account.waiting.queue_nodup
  have there : v.Holds .waiting p.id := by
    rw [refines.stations, stationAt_ticket moves.ticket, before]
  obtain ⟨now, others⟩ := stationAt_moved moves.ticket moves.tickets
  rw [← same] at there now others ⊢
  refine ⟨_, .take best, by rw [reqs]; exact represents, by rw [ress]; exact refines.finished,
    ?_, ?_⟩
  · have arrived : stationAt s' job.id = some .executing := now
    refine refines.stations.move there (by simp) (fun x => ?_) ?_ ?_ arrived others
    · show x ∈ rest.map Job.id ↔ _
      rw [kept]
      exact mem_ids_of_split split once x
    · exact fun x => holds_snoc _ _ x
    · intro station notSrc notDst x
      cases station <;> first | exact absurd rfl notSrc | exact absurd rfl notDst | exact Iff.rfl
  · intro a r there station early job' inside same'
    have there' : s.reqAt a = some r := by
      rw [reqAt_eq_some, ← moves.heap, ← reqAt_eq_some]
      exact there
    have waited : ∀ x, x ∈ rest ∨ x = job → x ∈ v.waiting := by
      rintro x (inRest | rfl)
      · rw [split]
        rw [kept] at inRest
        rcases List.mem_append.mp inRest with first | second
        · exact List.mem_append_left _ first
        · exact List.mem_append_right _ (List.mem_cons_of_mem _ second)
      · simp [split]
    rcases early with rfl | rfl
    · exact refines.pri a r there' .waiting (Or.inl rfl) job' (waited job' (Or.inl inside)) same'
    · rcases List.mem_append.mp inside with old | new
      · exact refines.pri a r there' .executing (Or.inr rfl) job' old same'
      · have isJob := List.mem_singleton.mp new
        exact refines.pri a r there' .waiting (Or.inl rfl) job' (waited job' (Or.inr isJob)) same'

theorem finish_refines {p : Ptr} {t : Ticket J} {r : EioReq} (account : Account events v)
    (refines : Refines s v) (moves : Moves s s' p t .resQueue)
    (before : stationOf t.place = some .executing) (read : s.reqAt p.addr = some r)
    (own : r.id = p.id) (reqs : s'.reqQueue = s.reqQueue)
    (ress : s'.resQueue = s.resQueue.push r.pri p) :
    ∃ v', Step v (.finish ⟨p.id, r.pri⟩) v' ∧ Refines s' v' := by
  have there : v.Holds .executing p.id := by
    rw [refines.stations, stationAt_ticket moves.ticket, before]
  obtain ⟨job, inside, same⟩ := List.mem_map.mp there
  have pri : job.pri = r.pri :=
    refines.pri p.addr r read .executing (Or.inr rfl) job inside (same.trans own.symm)
  obtain rfl : job = ⟨p.id, r.pri⟩ := by
    cases job
    simp only at same pri
    rw [same, pri]
  obtain ⟨front, back, split⟩ := List.append_of_mem inside
  obtain ⟨now, others⟩ := stationAt_moved moves.ticket moves.tickets
  refine ⟨_, .finish split, by rw [reqs]; exact refines.waiting, ?_, ?_, ?_⟩
  · rw [ress]
    exact refines.finished.push ⟨p.id, r.pri⟩ rfl
  · have arrived : stationAt s' p.id = some .finished := now
    refine refines.stations.move there (by simp) ?_ ?_ ?_ arrived others
    · exact fun x => mem_ids_of_split split account.executing_nodup x
    · exact fun x => holds_snoc _ _ x
    · intro station notSrc notDst x
      cases station <;> first | exact absurd rfl notSrc | exact absurd rfl notDst | exact Iff.rfl
  · intro a r' there' station early job' inside' same'
    have stored : s.reqAt a = some r' := by
      rw [reqAt_eq_some, ← moves.heap, ← reqAt_eq_some]
      exact there'
    rcases early with rfl | rfl
    · exact refines.pri a r' stored .waiting (Or.inl rfl) job' inside' same'
    · refine refines.pri a r' stored .executing (Or.inr rfl) job' ?_ same'
      have split' : v.jobs .executing = front ++ ⟨p.id, r.pri⟩ :: back := split
      rw [split']
      rcases List.mem_append.mp inside' with first | second
      · exact List.mem_append_left _ first
      · exact List.mem_append_right _ (List.mem_cons_of_mem _ second)

theorem deliver_refines {p : Ptr} {t : Ticket J} {j : J} {h : Nat} {queue : ReqQueue}
    (account : Account events v) (refines : Refines s v)
    (moves : Moves s s' p t (.frame j h .taken)) (before : stationOf t.place = some .finished)
    (took : s.resQueue.shift = some (p, queue)) (reqs : s'.reqQueue = s.reqQueue)
    (ress : s'.resQueue = queue) : ∃ v', Step v (.deliver p.id) v' ∧ Refines s' v' := by
  obtain ⟨job, rest, best, same, represents⟩ := refines.finished.shift took
  have ⟨front, back, split, kept, _, _⟩ := best
  have there : v.Holds .finished p.id := by
    rw [refines.stations, stationAt_ticket moves.ticket, before]
  obtain ⟨now, others⟩ := stationAt_moved moves.ticket moves.tickets
  rw [← same] at there now others ⊢
  refine ⟨_, .deliver best, by rw [reqs]; exact refines.waiting, by rw [ress]; exact represents,
    ?_, ?_⟩
  · have arrived : stationAt s' job.id = some .delivered := now
    refine refines.stations.move there (by simp) (fun x => ?_) ?_ ?_ arrived others
    · show x ∈ rest.map Job.id ↔ _
      rw [kept]
      exact mem_ids_of_split split account.finished.queue_nodup x
    · exact fun x => holds_snoc _ _ x
    · intro station notSrc notDst x
      cases station <;> first | exact absurd rfl notSrc | exact absurd rfl notDst | exact Iff.rfl
  · intro a r there' station early job' inside same'
    have earlier := refines.pri_kept (blocksKept_same moves.heap) a r there'
    rcases early with rfl | rfl
    · exact earlier .waiting (Or.inl rfl) job' inside same'
    · exact earlier .executing (Or.inr rfl) job' inside same'

/-! ### The simulation -/

/-- The block read for a request is its own. -/
theorem own_read {p : Ptr} {t : Ticket J} {r : EioReq} (alloc : Allocated s)
    (ticket : s.tickets[p.id]? = some t) (addr : t.req = p.addr) (live : reqFreed t = false)
    (read : s.reqAt p.addr = some r) : r.id = p.id := by
  obtain ⟨r', stored, id, -, -⟩ := alloc.req p.id t ticket live
  rw [addr, ← reqAt_eq_some, read] at stored
  obtain rfl := Option.some.inj stored
  exact id

theorem shift_refines {w : Nat} {p : Ptr} {queue : ReqQueue} {idle : UInt}
    (account : Account events v) (cust : InCustody s) (refines : Refines s v)
    (took : s.reqQueue.shift = some (p, queue)) :
    ∃ v', Step v (.take p.id) v' ∧ Refines (workerShift { s with idle := idle } w) v' := by
  obtain ⟨t, ticket, addr, there⟩ := cust.ticket (held_reqQueue took)
  simp only [workerShift, took]
  exact take_refines account refines ⟨ticket, rfl, rfl⟩ (by rw [there]; rfl) took rfl rfl

variable [DecidableEq J]

theorem seen_refines {a : Action J} {e : Event ReqId Pri} (account : Account events v)
    (cust : InCustody s) (alloc : Allocated s) (refines : Refines s v)
    (taken : step s a = some s') (saw : visible s a = some e) :
    ∃ v', Step v e v' ∧ Refines s' v' := by
  cases a with
  | go j c =>
    simp only [visible] at saw
    split at saw
    next p data rest top =>
      obtain ⟨r, read, rfl⟩ := Option.map_eq_some_iff.mp saw
      simp only [step, goThread, top, goSubmit, etpSubmit, read, Option.bind_some,
        Option.map_eq_some_iff] at taken
      obtain ⟨queued, woke, rfl⟩ := taken
      obtain ⟨workers, _, rfl⟩ := signal_cases woke
      obtain ⟨t, ticket, addr, there⟩ := cust.ticket (held_top top rfl)
      have own := own_read alloc ticket addr (by rw [reqFreed, there]; rfl) read
      exact submit_refines alloc refines ⟨ticket, rfl, rfl⟩ (by rw [there]; rfl) read own rfl rfl
    next rest top =>
      obtain ⟨⟨p, queue⟩, took, rfl⟩ := Option.map_eq_some_iff.mp saw
      simp only [step, goThread, top, goPoll, took, Option.some.injEq] at taken
      subst taken
      obtain ⟨t, ticket, addr, there⟩ := cust.ticket (held_resQueue took)
      exact deliver_refines account refines ⟨ticket, rfl, rfl⟩ (by rw [there]; rfl) took rfl rfl
    next => cases saw
  | worker w c =>
    simp only [visible] at saw
    split at saw
    next found =>
      obtain ⟨⟨p, queue⟩, took, rfl⟩ := Option.map_eq_some_iff.mp saw
      simp only [step, found, Option.bind_some, goWorker, Option.some.injEq] at taken
      subst taken
      exact shift_refines account cust refines took
    next found =>
      obtain ⟨⟨p, queue⟩, took, rfl⟩ := Option.map_eq_some_iff.mp saw
      simp only [step, found, Option.bind_some, goWorker, Option.some.injEq] at taken
      subst taken
      exact shift_refines account cust refines took
    next p found =>
      obtain ⟨r, read, rfl⟩ := Option.map_eq_some_iff.mp saw
      simp only [step, found, Option.bind_some, goWorker, read, Option.map_some,
        Option.some.injEq] at taken
      subst taken
      obtain ⟨t, ticket, addr, there⟩ :=
        cust.ticket ((held_own_worker found .executed _).mpr rfl)
      have own := own_read alloc ticket addr (by rw [reqFreed, there]; rfl) read
      exact finish_refines account refines ⟨ticket, rfl, rfl⟩ (by rw [there]; rfl) read own rfl rfl
    next => cases saw
  | submit | poll | block | flush | ret | timeout | spurious => cases saw

/-- Every step of the event loop is seen as a step of the service, or is not seen and
changes nothing there. -/
theorem eventLoop_simulates : Simulates (eventLoop J) visible Step idle Refines := by
  intro s a s' events v reached runs refines taken
  have cust : InCustody s := inCustody reached
  cases saw : visible s a with
  | none => exact ⟨v, .nil, unseen_refines cust refines (step_transition taken) saw⟩
  | some e =>
    obtain ⟨v', step, refines'⟩ :=
      seen_refines (account_of_runs runs) cust (allocated reached) refines taken saw
    exact ⟨v', Runs.nil.snoc step, refines'⟩

omit [DecidableEq J] in
theorem start_refines : Refines (start : State J) idle where
  waiting := queueOf_empty
  finished := queueOf_empty
  stations := fun station id => by cases station <;> simp [Service.Holds, Service.jobs, idle,
    stationAt, start]
  pri := fun a r there => by simp [State.reqAt, start] at there

end

end WebbitAsyncio.Invariants.Stations
