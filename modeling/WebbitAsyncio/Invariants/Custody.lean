import WebbitAsyncio.Invariants.Stack
import WebbitAsyncio.Lib.Ledger

/-!
# Where every request is

At every moment of every run each submitted request is held by exactly one stack
frame, queue or worker, the one its ticket names, until its memory is freed; and
whoever holds a pointer holds the pointer of that ticket. No interleaving of any
number of threads and workers duplicates or loses a request.
-/
namespace WebbitAsyncio.Invariants.Custody
open WebbitAsyncio.Lib.TransitionSystem WebbitAsyncio.Lib.Ledger
open WebbitAsyncio.Source.EventLoop WebbitAsyncio.Invariants.Stack

variable {J : Type} [DecidableEq J]

/-- The request a frame is answerable for, and how far it has brought it. -/
def frameHolds : Frame → Option (Ptr × FrameStage)
  | .submit .enqueue p _ => some (p, .submitting)
  | .poll (.donePoll p) => some (p, .taken)
  | .poll (.unlockRes (some p)) => some (p, .taken)
  | .poll (.decReqs p) => some (p, .taken)
  | .poll (.complete p) => some (p, .begun)
  | .poll (.upcall p) => some (p, .marked)
  | .poll (.unref p) => some (p, .called)
  | .poll (.freeData p) => some (p, .unreffed)
  | .poll (.destroy p _) => some (p, .dataFreed)
  | _ => none

def workerHolds : WorkerPc → Option (Ptr × WorkerStage)
  | .exec p => some (p, .running)
  | .lockRes p => some (p, .executed)
  | .push p => some (p, .executed)
  | _ => none

def crewHolds (workers : List WorkerPc) (w : Nat) : Option (Ptr × WorkerStage) :=
  (workers[w]?).bind workerHolds

def Held (s : State J) : Place J → Ptr → Prop
  | .frame j h k, p => cellAt frameHolds (s.threads j) h = some (p, k)
  | .reqQueue, p => p ∈ s.reqQueue.toList
  | .worker w k, p => crewHolds s.workers w = some (p, k)
  | .resQueue, p => p ∈ s.resQueue.toList
  | .gone, _ => False

def livePlace : Place J → Option (Place J)
  | .gone => none
  | place => some place

/-- Where the tickets say that `p` is; `none` if it is no live request's pointer. -/
def recorded (s : State J) (p : Ptr) : Option (Place J) :=
  (s.tickets[p.id]?).bind fun t => if t.req = p.addr then livePlace t.place else none

structure InCustody (s : State J) : Prop where
  agrees : Agrees (Held s) (recorded s)
  reqDistinct : s.reqQueue.toList.Nodup
  resDistinct : s.resQueue.toList.Nodup

/-! ### Workers -/

theorem crewHolds_set {workers : List WorkerPc} {w : Nat} {old : WorkerPc} (pc : WorkerPc)
    (found : workers[w]? = some old) :
    crewHolds (workers.set w pc) = Function.update (crewHolds workers) w (workerHolds pc) := by
  funext v
  by_cases equal : v = w
  · subst equal
    have bound : v < workers.length := (List.getElem?_eq_some_iff.mp found).1
    simp [crewHolds, bound]
  · simp [crewHolds, List.getElem?_set_ne (Ne.symm equal), Function.update_of_ne equal]

/-- A worker that holds the same before and after changes nothing. -/
theorem crewHolds_set_same {workers : List WorkerPc} {w : Nat} {old pc : WorkerPc}
    (found : workers[w]? = some old) (same : workerHolds pc = workerHolds old) :
    crewHolds (workers.set w pc) = crewHolds workers := by
  have own : crewHolds workers w = workerHolds old := by rw [crewHolds, found]; rfl
  rw [crewHolds_set pc found, same, ← own, Function.update_eq_self]

theorem crewHolds_spawn (workers : List WorkerPc) :
    crewHolds (workers ++ [WorkerPc.shift]) = crewHolds workers := by
  funext w
  simp only [crewHolds, List.getElem?_append]
  split
  next => rfl
  next beyond =>
    rw [List.getElem?_eq_none (Nat.not_lt.mp beyond)]
    cases w - workers.length <;> rfl

theorem waiting_holds {pc : WorkerPc} (waits : pc.waiting = true) : workerHolds pc = none := by
  cases pc with
  | timedWait | wait => rfl
  | _ => simp [WorkerPc.waiting] at waits

theorem crewHolds_signalled {workers workers' : List WorkerPc} (woke : Signalled workers workers') :
    crewHolds workers' = crewHolds workers := by
  cases woke with
  | lost => rfl
  | woken found waits => exact crewHolds_set_same found (waiting_holds waits).symm

omit [DecidableEq J] in
theorem idling_holds {s : State J} {pc pc' : WorkerPc} {idle : UInt} (step : Idling s pc pc' idle) :
    workerHolds pc' = workerHolds pc := by
  cases step with
  | sleep shifting => cases shifting <;> rfl
  | timeout | surplus | stay => rfl
  | spurious waits => exact (waiting_holds waits).symm

/-! ### Tickets -/

omit [DecidableEq J] in
theorem recorded_ticket {s : State J} {p : Ptr} {place : Place J} (h : recorded s p = some place) :
    ∃ t, s.tickets[p.id]? = some t ∧ t.req = p.addr ∧ t.place = place := by
  rw [recorded, Option.bind_eq_some_iff] at h
  obtain ⟨t, found, h⟩ := h
  split at h
  next same =>
    refine ⟨t, found, same, ?_⟩
    cases at_ : t.place <;> rw [at_] at h <;> simp [livePlace] at h <;> exact h
  next => cases h

omit [DecidableEq J] in
/-- Whoever holds a pointer holds the one of a ticket, at the place the ticket names. -/
theorem InCustody.ticket {s : State J} {p : Ptr} {place : Place J} (h : InCustody s)
    (held : Held s place p) : ∃ t, s.tickets[p.id]? = some t ∧ t.req = p.addr ∧ t.place = place :=
  recorded_ticket ((h.agrees place p).mp held)

omit [DecidableEq J] in
/-- A request that is not freed is where its ticket says. -/
theorem InCustody.held {s : State J} {id : ReqId} {t : Ticket J} (h : InCustody s)
    (found : s.tickets[id]? = some t) (live : t.place ≠ .gone) : Held s t.place ⟨t.req, id⟩ := by
  refine (h.agrees _ _).mpr ?_
  simp only [recorded, found, Option.bind_some, if_true]
  cases at_ : t.place <;> first | rfl | exact absurd at_ live

omit [DecidableEq J] in
theorem recorded_same {s s' : State J} {id : ReqId} {f : Ticket J → Ticket J}
    (tickets : s'.tickets = s.tickets.modify id f) (req : ∀ t, (f t).req = t.req)
    (place : ∀ t, (f t).place = t.place) (p : Ptr) : recorded s' p = recorded s p := by
  simp only [recorded, tickets, List.getElem?_modify]
  cases s.tickets[p.id]? with
  | none => rfl
  | some t =>
    simp only [Option.bind_some]
    split <;> simp [req, place]

omit [DecidableEq J] in
theorem recorded_moved {s s' : State J} {p : Ptr} {f : Ticket J → Ticket J} {old new : Place J}
    (tickets : s'.tickets = s.tickets.modify p.id f) (req : ∀ t, (f t).req = t.req)
    (place : ∀ t, (f t).place = new) (before : recorded s p = some old) :
    recorded s' p = livePlace new ∧ ∀ x, x ≠ p → recorded s' x = recorded s x := by
  obtain ⟨t, found, same, _⟩ := recorded_ticket before
  refine ⟨?_, fun x different => ?_⟩
  · simp [recorded, tickets, found, req, place, same]
  · by_cases id : x.id = p.id
    · have apart : t.req ≠ x.addr := fun equal => different (by
        cases x; cases p; simp_all)
      simp [recorded, tickets, found, id, req, apart]
    · simp [recorded, tickets, Ne.symm id]

/-! ### Who holds what -/

omit [DecidableEq J] in
theorem held_top {s : State J} {j : J} {f : Frame} {rest : List Frame} {p : Ptr} {k : FrameStage}
    (top : s.threads j = f :: rest) (holds : frameHolds f = some (p, k)) :
    Held s (.frame j rest.length k) p := by
  simp [Held, top, holds]

omit [DecidableEq J] in
theorem held_reqQueue {s : State J} {p : Ptr} {queue : ReqQueue}
    (took : s.reqQueue.shift = some (p, queue)) : Held s .reqQueue p := by
  simp [Held, ReqQueue.shift_toList took]

omit [DecidableEq J] in
theorem held_resQueue {s : State J} {p : Ptr} {queue : ReqQueue}
    (took : s.resQueue.shift = some (p, queue)) : Held s .resQueue p := by
  simp [Held, ReqQueue.shift_toList took]

omit [DecidableEq J] in
theorem held_own_worker {s : State J} {w : Nat} {pc : WorkerPc} (found : s.workers[w]? = some pc)
    (stage : WorkerStage) (x : Ptr) :
    Held s (.worker w stage) x ↔ workerHolds pc = some (x, stage) := by
  simp [Held, crewHolds, found]

/-! ### The moves -/

section
variable {s s' : State J} {j : J} {p : Ptr}

theorem held_frame {stack : List Frame} (threads : s'.threads = Function.update s.threads j stack)
    (i : J) (h : Nat) (k : FrameStage) (x : Ptr) :
    Held s' (.frame i h k) x ↔
      (if i = j then cellAt frameHolds stack h else cellAt frameHolds (s.threads i) h) = some (x, k) := by
  by_cases equal : i = j
  · subst equal
    simp [Held, threads]
  · simp [Held, threads, equal]

/-- What the slots other than those of one stack cell hold, when the step wrote
only that cell. -/
theorem held_other_frame {f : Frame} {rest stack : List Frame} (cell : Option (Ptr × FrameStage))
    (top : s.threads j = f :: rest) (threads : s'.threads = Function.update s.threads j stack)
    (written : ∀ h, cellAt frameHolds stack h = if h = rest.length then cell else cellAt frameHolds rest h)
    {i : J} {h : Nat} {k : FrameStage} (apart : ¬ (i = j ∧ h = rest.length)) (x : Ptr) :
    Held s' (.frame i h k) x ↔ Held s (.frame i h k) x := by
  rw [held_frame threads]
  by_cases equal : i = j
  · subst equal
    have other : h ≠ rest.length := fun same => apart ⟨rfl, same⟩
    simp [Held, top, written, other, cellAt_other]
  · simp [Held, equal]

omit [DecidableEq J] in
theorem InCustody.keep (cust : InCustody s)
    (threads : ∀ i, cellAt frameHolds (s'.threads i) = cellAt frameHolds (s.threads i))
    (workers : crewHolds s'.workers = crewHolds s.workers) (reqs : s'.reqQueue = s.reqQueue)
    (ress : s'.resQueue = s.resQueue) (same : ∀ x, recorded s' x = recorded s x) : InCustody s' := by
  refine ⟨cust.agrees.keep ?_ same, by rw [reqs]; exact cust.reqDistinct,
    by rw [ress]; exact cust.resDistinct⟩
  intro slot x
  cases slot <;> simp [Held, threads, workers, reqs, ress]

/-- A step of a thread that leaves every request where it is. -/
theorem InCustody.thread {stack : List Frame} (cust : InCustody s)
    (same : cellAt frameHolds stack = cellAt frameHolds (s.threads j))
    (threads : s'.threads = Function.update s.threads j stack)
    (workers : crewHolds s'.workers = crewHolds s.workers) (reqs : s'.reqQueue = s.reqQueue)
    (ress : s'.resQueue = s.resQueue) (kept : ∀ x, recorded s' x = recorded s x) : InCustody s' :=
  cust.keep (cellAt_update threads same) workers reqs ress kept

/-- A frame brings the request it holds one stage further. -/
theorem InCustody.advance {f g : Frame} {rest stack : List Frame} {k k' : FrameStage}
    {move : Ticket J → Ticket J} (cust : InCustody s) (top : s.threads j = f :: rest)
    (before : frameHolds f = some (p, k)) (after : frameHolds g = some (p, k')) (further : k ≠ k')
    (new : cellAt frameHolds stack = cellAt frameHolds (g :: rest))
    (threads : s'.threads = Function.update s.threads j stack) (workers : s'.workers = s.workers)
    (reqs : s'.reqQueue = s.reqQueue) (ress : s'.resQueue = s.resQueue)
    (tickets : s'.tickets = s.tickets.modify p.id move) (req : ∀ t, (move t).req = t.req)
    (place : ∀ t, (move t).place = .frame j rest.length k') : InCustody s' := by
  have there := held_top top before
  have own : s'.threads j = stack := by rw [threads, Function.update_self]
  obtain ⟨now, others⟩ := recorded_moved tickets req place ((cust.agrees _ _).mp there)
  refine ⟨cust.agrees.move there (by simp [further]) ?_ ?_ ?_ now others,
    by rw [reqs]; exact cust.reqDistinct, by rw [ress]; exact cust.resDistinct⟩
  · intro x
    simp [Held, own, new, after, top, before, Ne.symm further, eq_comm]
  · intro x
    simp [Held, own, new, after, top, before, further, eq_comm]
  · intro slot notSrc notDst x
    cases slot with
    | frame i h stage =>
      by_cases cell : i = j ∧ h = rest.length
      · obtain ⟨rfl, rfl⟩ := cell
        have old : stage ≠ k := fun same => notSrc (by rw [same])
        have fresh : stage ≠ k' := fun same => notDst (by rw [same])
        simp [Held, own, new, after, top, before, Ne.symm old, Ne.symm fresh]
      · refine held_other_frame (some (p, k')) top threads (fun h => ?_) cell x
        rw [new, cellAt, after]
    | reqQueue => simp [Held, reqs]
    | worker w stage => simp [Held, workers]
    | resQueue => simp [Held, ress]
    | gone => simp [Held]

/-- A frame gives up the request it holds; `dst` is where it goes, if anywhere. -/
theorem released_frame {f : Frame} {rest stack : List Frame} {k : FrameStage}
    (top : s.threads j = f :: rest) (before : frameHolds f = some (p, k))
    (new : cellAt frameHolds stack = cellAt frameHolds rest)
    (threads : s'.threads = Function.update s.threads j stack) :
    (∀ x, Held s' (.frame j rest.length k) x ↔ x ≠ p ∧ Held s (.frame j rest.length k) x) ∧
    ∀ i h stage, Place.frame i h stage ≠ .frame j rest.length k → ∀ x,
      Held s' (.frame i h stage) x ↔ Held s (.frame i h stage) x := by
  have own : s'.threads j = stack := by rw [threads, Function.update_self]
  have vacant : cellAt frameHolds rest rest.length = none := cellAt_beyond _ (Nat.le_refl _)
  refine ⟨fun x => ?_, fun i h stage apart x => ?_⟩
  · simp [Held, own, new, top, before, vacant, eq_comm]
  · by_cases cell : i = j ∧ h = rest.length
    · obtain ⟨rfl, rfl⟩ := cell
      have old : stage ≠ k := fun same => apart (by rw [same])
      simp [Held, own, new, top, before, vacant, Ne.symm old]
    · refine held_other_frame none top threads (fun h => ?_) cell x
      rw [new]
      split
      next same => rw [same, vacant]
      next => rfl

/-- A frame that held nothing takes a request. -/
theorem acquired_frame {rest : List Frame} {g : Frame} {k : FrameStage}
    (before : cellAt frameHolds (s.threads j) = cellAt frameHolds rest) (after : frameHolds g = some (p, k))
    (threads : s'.threads = Function.update s.threads j (g :: rest)) :
    (∀ x, Held s' (.frame j rest.length k) x ↔ x = p ∨ Held s (.frame j rest.length k) x) ∧
    ∀ i h stage, Place.frame i h stage ≠ .frame j rest.length k → ∀ x,
      Held s' (.frame i h stage) x ↔ Held s (.frame i h stage) x := by
  have own : s'.threads j = g :: rest := by rw [threads, Function.update_self]
  have vacant : cellAt frameHolds rest rest.length = none := cellAt_beyond _ (Nat.le_refl _)
  refine ⟨fun x => ?_, fun i h stage apart x => ?_⟩
  · simp [Held, own, before, after, vacant, eq_comm]
  · by_cases equal : i = j
    · subst equal
      by_cases cell : h = rest.length
      · subst cell
        have other : stage ≠ k := fun same => apart (by rw [same])
        simp [Held, own, before, after, vacant, Ne.symm other]
      · simp [Held, own, before, cellAt_other _ _ cell]
    · simp [Held, threads, equal]

omit [DecidableEq J] in
theorem held_worker {w : Nat} {old pc : WorkerPc} (found : s.workers[w]? = some old)
    (workers : s'.workers = s.workers.set w pc) (v : Nat) (stage : WorkerStage) (x : Ptr) :
    Held s' (.worker v stage) x ↔
      (if v = w then workerHolds pc = some (x, stage) else Held s (.worker v stage) x) := by
  by_cases equal : v = w
  · subst equal
    simp [Held, workers, crewHolds_set pc found]
  · simp [Held, workers, crewHolds_set pc found, equal]

theorem mem_shifted {q rest : ReqQueue} (took : q.shift = some (p, rest)) (distinct : q.toList.Nodup)
    (x : Ptr) : x ∈ rest.toList ↔ x ≠ p ∧ x ∈ q.toList := by
  rw [ReqQueue.shift_toList took, List.nodup_cons] at distinct
  rw [ReqQueue.shift_toList took, List.mem_cons]
  constructor
  · intro member
    exact ⟨fun same => distinct.1 (same ▸ member), .inr member⟩
  · rintro ⟨different, member⟩
    exact member.resolve_left different

theorem nodup_shifted {q rest : ReqQueue} (took : q.shift = some (p, rest))
    (distinct : q.toList.Nodup) : rest.toList.Nodup := by
  rw [ReqQueue.shift_toList took, List.nodup_cons] at distinct
  exact distinct.2

end

/-! ### The transitions that move a request -/

section
variable {s s' : State J}

theorem submit_inCustody {j : J} {pri : Source.Reqq.JInt} {callback : Option Obj}
    {req data : Source.Reqq.Addr} {ref : Ref} (cust : InCustody s) :
    InCustody (submitted s j pri callback req data ref) := by
  have absent : recorded s ⟨req, s.tickets.length⟩ = none := by
    simp [recorded]
  have threads : (submitted s j pri callback req data ref).threads =
      Function.update s.threads j (.submit .enqueue ⟨req, s.tickets.length⟩ data :: s.threads j) := rfl
  obtain ⟨added, frames⟩ := acquired_frame rfl rfl threads
  refine ⟨cust.agrees.add absent added ?_ ?_ ?_, cust.reqDistinct, cust.resDistinct⟩
  · intro slot apart x
    cases slot with
    | frame i h stage => exact frames i h stage apart x
    | reqQueue | worker | resQueue | gone => exact Iff.rfl
  · simp [recorded, submitted, livePlace]
  · intro x different
    by_cases new : x.id = s.tickets.length
    · have apart : req ≠ x.addr := fun equal => different (by cases x; simp_all)
      simp [recorded, submitted, new, apart]
    · simp [recorded, submitted, getElem?_appended, new]

theorem enqueue_inCustody {j : J} {p : Ptr} {data : Source.Reqq.Addr} {rest : List Frame}
    {pri : Fin Source.Reqq.numPri} (cust : InCustody s)
    (top : s.threads j = .submit .enqueue p data :: rest)
    (threads : s'.threads =
      Function.update s.threads j (.start .checkWanted :: .submit .wrap p data :: rest))
    (workers : crewHolds s'.workers = crewHolds s.workers)
    (reqs : s'.reqQueue = s.reqQueue.push pri p) (ress : s'.resQueue = s.resQueue)
    (tickets : s'.tickets = s.tickets.modify p.id fun t => { t with place := .reqQueue }) :
    InCustody s' := by
  have there := held_top top rfl
  obtain ⟨now, others⟩ :=
    recorded_moved tickets (fun _ => rfl) (fun _ => rfl) ((cust.agrees _ _).mp there)
  have new : cellAt frameHolds (.start .checkWanted :: .submit .wrap p data :: rest) = cellAt frameHolds rest :=
    (cellAt_cons _ _ rfl).trans (cellAt_cons _ _ rfl)
  obtain ⟨taken, frames⟩ := released_frame top rfl new threads
  have outside : p ∉ s.reqQueue.toList := fun held => by
    have both := cust.agrees.unique there (show Held s .reqQueue p from held)
    cases both
  refine ⟨cust.agrees.move there (by simp) taken ?_ ?_ now others, ?_, by rw [ress]; exact cust.resDistinct⟩
  · intro x
    simp [Held, reqs, ReqQueue.mem_push]
  · intro slot notSrc notDst x
    cases slot with
    | frame i h stage => exact frames i h stage notSrc x
    | reqQueue => exact absurd rfl notDst
    | worker w stage => simp [Held, workers]
    | resQueue => simp [Held, ress]
    | gone => exact Iff.rfl
  · rw [reqs]
    exact ReqQueue.nodup_push cust.reqDistinct outside

theorem shiftTook_inCustody {j : J} {rest : List Frame} {p : Ptr} {queue : ReqQueue} {g : Frame}
    (cust : InCustody s) (top : s.threads j = .poll .shift :: rest)
    (took : s.resQueue.shift = some (p, queue)) (after : frameHolds g = some (p, .taken))
    (threads : s'.threads = Function.update s.threads j (g :: rest))
    (workers : s'.workers = s.workers) (reqs : s'.reqQueue = s.reqQueue) (ress : s'.resQueue = queue)
    (tickets : s'.tickets =
      s.tickets.modify p.id fun t => { t with place := .frame j rest.length .taken }) :
    InCustody s' := by
  have there := held_resQueue took
  obtain ⟨now, others⟩ :=
    recorded_moved tickets (fun _ => rfl) (fun _ => rfl) ((cust.agrees _ _).mp there)
  have before : cellAt frameHolds (s.threads j) = cellAt frameHolds rest := by
    rw [top]
    exact cellAt_cons _ _ rfl
  obtain ⟨added, frames⟩ := acquired_frame before after threads
  refine ⟨cust.agrees.move there (by simp) ?_ added ?_ now others, by rw [reqs]; exact cust.reqDistinct,
    by rw [ress]; exact nodup_shifted took cust.resDistinct⟩
  · intro x
    simp only [Held, ress]
    exact mem_shifted took cust.resDistinct x
  · intro slot notSrc notDst x
    cases slot with
    | frame i h stage => exact frames i h stage notDst x
    | reqQueue => simp [Held, reqs]
    | worker w stage => simp [Held, workers]
    | resQueue => exact absurd rfl notSrc
    | gone => exact Iff.rfl

theorem destroy_inCustody {j : J} {rest stack : List Frame} {p : Ptr} {res : BitVec 32}
    (cust : InCustody s) (top : s.threads j = .poll (.destroy p res) :: rest)
    (new : cellAt frameHolds stack = cellAt frameHolds rest)
    (threads : s'.threads = Function.update s.threads j stack) (workers : s'.workers = s.workers)
    (reqs : s'.reqQueue = s.reqQueue) (ress : s'.resQueue = s.resQueue)
    (tickets : s'.tickets = s.tickets.modify p.id fun t => { t with place := .gone }) :
    InCustody s' := by
  have there := held_top top rfl
  obtain ⟨now, others⟩ :=
    recorded_moved tickets (fun _ => rfl) (fun _ => rfl) ((cust.agrees _ _).mp there)
  obtain ⟨taken, frames⟩ := released_frame top rfl new threads
  refine ⟨cust.agrees.remove there taken ?_ now others, by rw [reqs]; exact cust.reqDistinct,
    by rw [ress]; exact cust.resDistinct⟩
  intro slot notSrc x
  cases slot with
  | frame i h stage => exact frames i h stage notSrc x
  | reqQueue => simp [Held, reqs]
  | worker w stage => simp [Held, workers]
  | resQueue => simp [Held, ress]
  | gone => exact Iff.rfl

omit [DecidableEq J] in
theorem workerTake_inCustody {w : Nat} {pc : WorkerPc} {p : Ptr} {queue : ReqQueue}
    (cust : InCustody s) (found : s.workers[w]? = some pc) (empty : workerHolds pc = none)
    (took : s.reqQueue.shift = some (p, queue)) (threads : s'.threads = s.threads)
    (workers : s'.workers = s.workers.set w (.exec p)) (reqs : s'.reqQueue = queue)
    (ress : s'.resQueue = s.resQueue)
    (tickets : s'.tickets = s.tickets.modify p.id fun t => { t with place := .worker w .running }) :
    InCustody s' := by
  have runs : workerHolds (.exec p) = some (p, .running) := rfl
  have there := held_reqQueue took
  obtain ⟨now, others⟩ :=
    recorded_moved tickets (fun _ => rfl) (fun _ => rfl) ((cust.agrees _ _).mp there)
  refine ⟨cust.agrees.move there (by simp) ?_ ?_ ?_ now others,
    by rw [reqs]; exact nodup_shifted took cust.reqDistinct, by rw [ress]; exact cust.resDistinct⟩
  · intro x
    simp only [Held, reqs]
    exact mem_shifted took cust.reqDistinct x
  · intro x
    simp [held_worker found workers, held_own_worker found, empty, runs, eq_comm]
  · intro slot notSrc notDst x
    cases slot with
    | frame i h stage => simp [Held, threads]
    | reqQueue => exact absurd rfl notSrc
    | worker v stage =>
      rw [held_worker found workers]
      split
      next same =>
        subst same
        have other : stage ≠ .running := fun equal => notDst (by rw [equal])
        simp [held_own_worker found, empty, runs, Ne.symm other]
      next => exact Iff.rfl
    | resQueue => simp [Held, ress]
    | gone => exact Iff.rfl

omit [DecidableEq J] in
theorem exec_inCustody {w : Nat} {p : Ptr} {move : Ticket J → Ticket J} (cust : InCustody s)
    (found : s.workers[w]? = some (.exec p)) (threads : s'.threads = s.threads)
    (workers : s'.workers = s.workers.set w (.lockRes p)) (reqs : s'.reqQueue = s.reqQueue)
    (ress : s'.resQueue = s.resQueue) (tickets : s'.tickets = s.tickets.modify p.id move)
    (req : ∀ t, (move t).req = t.req) (place : ∀ t, (move t).place = .worker w .executed) :
    InCustody s' := by
  have there : Held s (.worker w .running) p := (held_own_worker found _ _).mpr rfl
  obtain ⟨now, others⟩ := recorded_moved tickets req place ((cust.agrees _ _).mp there)
  refine ⟨cust.agrees.move there (by simp) ?_ ?_ ?_ now others, by rw [reqs]; exact cust.reqDistinct,
    by rw [ress]; exact cust.resDistinct⟩
  · intro x
    simp [held_worker found workers, held_own_worker found, workerHolds, eq_comm]
  · intro x
    simp [held_worker found workers, held_own_worker found, workerHolds, eq_comm]
  · intro slot notSrc notDst x
    cases slot with
    | frame i h stage => simp [Held, threads]
    | reqQueue => simp [Held, reqs]
    | worker v stage =>
      rw [held_worker found workers]
      split
      next same =>
        subst same
        cases stage with
        | running => exact absurd rfl notSrc
        | executed => exact absurd rfl notDst
      next => exact Iff.rfl
    | resQueue => simp [Held, ress]
    | gone => exact Iff.rfl

omit [DecidableEq J] in
theorem push_inCustody {w : Nat} {pc : WorkerPc} {p : Ptr} {pri : Fin Source.Reqq.numPri}
    (cust : InCustody s) (found : s.workers[w]? = some (.push p)) (empty : workerHolds pc = none)
    (threads : s'.threads = s.threads) (workers : s'.workers = s.workers.set w pc)
    (reqs : s'.reqQueue = s.reqQueue) (ress : s'.resQueue = s.resQueue.push pri p)
    (tickets : s'.tickets = s.tickets.modify p.id fun t => { t with place := .resQueue }) :
    InCustody s' := by
  have ran : workerHolds (.push p) = some (p, .executed) := rfl
  have there : Held s (.worker w .executed) p := (held_own_worker found _ _).mpr rfl
  obtain ⟨now, others⟩ :=
    recorded_moved tickets (fun _ => rfl) (fun _ => rfl) ((cust.agrees _ _).mp there)
  have outside : p ∉ s.resQueue.toList := fun held => by
    have both := cust.agrees.unique there (show Held s .resQueue p from held)
    cases both
  refine ⟨cust.agrees.move there (by simp) ?_ ?_ ?_ now others, by rw [reqs]; exact cust.reqDistinct, ?_⟩
  · intro x
    simp [held_worker found workers, held_own_worker found, empty, ran, eq_comm]
  · intro x
    simp [Held, ress, ReqQueue.mem_push]
  · intro slot notSrc notDst x
    cases slot with
    | frame i h stage => simp [Held, threads]
    | reqQueue => simp [Held, reqs]
    | worker v stage =>
      rw [held_worker found workers]
      split
      next same =>
        subst same
        have other : stage ≠ .executed := fun equal => notSrc (by rw [equal])
        simp [held_own_worker found, empty, ran, Ne.symm other]
      next => exact Iff.rfl
    | resQueue => exact absurd rfl notDst
    | gone => exact Iff.rfl
  · rw [ress]
    exact ReqQueue.nodup_push cust.resDistinct outside

end

/-! ### The step and the run -/

theorem transition_inCustody {s s' : State J} {a : Action J} (cust : InCustody s)
    (step : Transition s a s') : InCustody s' := by
  have unmoved : ∀ {s' : State J}, s'.tickets = s.tickets → ∀ x, recorded s' x = recorded s x :=
    fun same x => by rw [recorded, same]; rfl
  cases step with
  | submit => exact submit_inCustody cust
  | control moved =>
    exact cust.thread (control_cellAt (fun _ nothing => by cases nothing <;> rfl) moved) rfl rfl rfl rfl (unmoved rfl)
  | enqueue top _ woke =>
    exact enqueue_inCustody cust top rfl (crewHolds_signalled woke) rfl rfl rfl
  | wrap top =>
    refine cust.thread ?_ rfl rfl rfl rfl (recorded_same rfl (fun _ => rfl) fun _ => rfl)
    rw [top]
    exact cellAt_top _ _ rfl
  | readBack top =>
    refine cust.thread ?_ rfl rfl rfl rfl (recorded_same rfl (fun _ => rfl) fun _ => rfl)
    rw [top]
    exact (cellAt_cons _ _ rfl).symm
  | spawn top =>
    refine cust.thread ?_ rfl (crewHolds_spawn _) rfl rfl (unmoved rfl)
    rw [top]
    exact cellAt_top _ _ rfl
  | count top | unlockEmpty top =>
    refine cust.thread ?_ rfl rfl rfl rfl (unmoved rfl)
    rw [top]
    exact (cellAt_cons _ _ rfl).symm
  | pollLock top | shiftEmpty top | donePoll top | unlockTook top =>
    refine cust.thread ?_ rfl rfl rfl rfl (unmoved rfl)
    rw [top]
    exact cellAt_top _ _ rfl
  | shiftTook top took =>
    refine shiftTook_inCustody cust top took ?_ rfl rfl rfl rfl rfl
    split <;> rfl
  | decReqs top =>
    exact cust.advance top rfl (g := .poll (.complete _)) rfl (by simp) rfl rfl rfl rfl rfl rfl
      (fun _ => rfl) fun _ => rfl
  | complete top =>
    exact cust.advance top rfl (g := .poll (.upcall _)) rfl (by simp) rfl rfl rfl rfl rfl rfl
      (fun _ => rfl) fun _ => rfl
  | noCallback top =>
    exact cust.advance top rfl (g := .poll (.unref _)) rfl (by simp) rfl rfl rfl rfl rfl rfl
      (fun _ => rfl) fun _ => rfl
  | upcall top =>
    exact cust.advance top rfl (g := .poll (.unref _)) rfl (by simp) (cellAt_cons _ _ rfl) rfl rfl
      rfl rfl rfl (fun _ => rfl) fun _ => rfl
  | unref top =>
    exact cust.advance top rfl (g := .poll (.freeData _)) rfl (by simp) rfl rfl rfl rfl rfl rfl
      (fun _ => rfl) fun _ => rfl
  | freeData top =>
    exact cust.advance top rfl (g := .poll (.destroy _ _)) rfl (by simp) rfl rfl rfl rfl rfl rfl
      (fun _ => rfl) fun _ => rfl
  | destroy top =>
    refine destroy_inCustody cust top ?_ rfl rfl rfl rfl rfl
    split
    next => exact cellAt_cons _ _ rfl
    next => rfl
  | idling found idles =>
    exact cust.keep (fun _ => rfl) (crewHolds_set_same found (idling_holds idles)) rfl rfl
      (unmoved rfl)
  | workerTake found shifting took =>
    exact workerTake_inCustody cust found (by cases shifting <;> rfl) took rfl rfl rfl rfl rfl
  | exec found => exact exec_inCustody cust found rfl rfl rfl rfl rfl (fun _ => rfl) fun _ => rfl
  | workerLock found | wantPoll found | workerUnlock found | quit found =>
    exact cust.keep (fun _ => rfl) (crewHolds_set_same found rfl) rfl rfl (unmoved rfl)
  | push found =>
    refine push_inCustody cust found ?_ rfl rfl rfl rfl rfl
    split <;> rfl

omit [DecidableEq J] in
theorem inCustody_start : InCustody (start : State J) := by
  refine ⟨fun slot x => ?_, ?_, ?_⟩
  · cases slot <;> simp [Held, start, recorded, cellAt, crewHolds, ReqQueue.toList, ReqQueue.empty]
  · simp [start, ReqQueue.toList, ReqQueue.empty]
  · simp [start, ReqQueue.toList, ReqQueue.empty]

theorem inCustody {ok : State J → Action J → Prop} {s : State J}
    (h : ReachableBy (eventLoop J) ok s) : InCustody s :=
  invariant_of_transition inCustody_start (fun _ _ _ cust _ step => transition_inCustody cust step) h

end WebbitAsyncio.Invariants.Custody
