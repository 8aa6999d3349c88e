import WebbitAsyncio.Invariants.History
import WebbitAsyncio.Invariants.Workers

/-!
# Who attends to the request queue

With one event-loop thread. As long as no worker has been started nothing was
queued, or the thread is on its way to start one. Afterwards a queued request
needs a worker that will look at the queue again: one that is not in the untimed
wait on `reqwait`. Only one step takes a worker there, and it does not look at
the queue: that of a worker whose timed wait has expired (eio.c:1581-1597). On
the runs on which that step is `SafeToSleep`, somebody always attends.
-/
namespace WebbitAsyncio.Invariants.Attendance
open WebbitAsyncio.Lib.TransitionSystem
open WebbitAsyncio.Source.EventLoop WebbitAsyncio.Invariants.Stack
open WebbitAsyncio.Invariants.Custody WebbitAsyncio.Invariants.Memory
open WebbitAsyncio.Invariants.ResultLock WebbitAsyncio.Invariants.History
open WebbitAsyncio.Invariants.Workers

/-- The test of `etp_maybe_start_thread` that leads to a new worker. -/
def short (threads pending nreqs : UInt) : Prop :=
  ¬ 0 ≤ threads.toInt + pending.toInt - nreqs.toInt

instance (threads pending nreqs : UInt) : Decidable (short threads pending nreqs) :=
  inferInstanceAs (Decidable (¬ _))

/-- `etp_maybe_start_thread` is running and, with the counters as they are, will
start a worker. -/
def willSpawn (s : State Unit) : Prop :=
  match starting (s.threads ()) with
  | some .checkWanted => ¬ wanted ≤ s.started ∧ short s.started s.npending s.nreqs
  | some .readThreads => short s.started s.npending s.nreqs
  | some (.readPending threads) => short threads s.npending s.nreqs
  | some (.readReqs threads pending) => short threads pending s.nreqs
  | some .spawn => True
  | some .count | none => False

section
variable {s s' : State Unit}

theorem not_willSpawn (idle : starting (s.threads ()) = none) : ¬ willSpawn s := by
  simp [willSpawn, idle]

theorem willSpawn_same (threads : s'.threads = s.threads) (started : s'.started = s.started)
    (npending : s'.npending = s.npending) (nreqs : s'.nreqs = s.nreqs) (will : willSpawn s) :
    willSpawn s' := by
  rwa [willSpawn, threads, started, npending, nreqs]

theorem control_willSpawn {stack : List Frame} (moved : Control s (s.threads ()) stack)
    (will : willSpawn s) : willSpawn (s.setStack () stack) := by
  simp only [willSpawn, State.setStack_threads, Function.update_self, State.setStack_started,
    State.setStack_npending, State.setStack_nreqs] at will ⊢
  generalize s.threads () = old at moved will
  cases moved with
  | enter java =>
    rw [starting_java java] at will
    exact will.elim
  | enough many => exact absurd many will.1
  | below => exact will.2
  | readThreads | readPending => exact will
  | served enough => exact absurd enough will
  | short => trivial
  | ret | loop | readable | flushing | flushed | callPoll => exact will.elim

/-! ### Before the first worker -/

/-- What is known while no worker has ever been started. -/
structure Untouched (s : State Unit) : Prop where
  started : s.started = 0
  tickets : Every (fun t => executed t = false) s
  nreqs : s.nreqs = 0 ∨ willSpawn s

def Unstaffed (s : State Unit) : Prop := s.workers = [] → Untouched s

/-- Nothing was executed, so no frame or queue holds a request after its execution. -/
theorem Untouched.stage {p : Ptr} {place : Place Unit} (untouched : Untouched s) (cust : InCustody s)
    (held : Held s place p) : progress place < 3 := by
  obtain ⟨t, found, _, rfl⟩ := cust.ticket held
  have early := untouched.tickets _ t found
  simpa [executed] using early

theorem Untouched.npending (untouched : Untouched s) (cust : InCustody s) (locked : ResLocked s) :
    s.npending = 0 := by
  have empty : s.resQueue.toList = [] := by
    cases queue : s.resQueue.toList with
    | nil => rfl
    | cons p rest =>
      have held : Held s .resQueue p := show p ∈ s.resQueue.toList by simp [queue]
      exact absurd (untouched.stage cust held) (by simp [progress])
  rw [locked.pending, s.resQueue.size_eq_length, empty]
  rfl

theorem Unstaffed.thread (unstaffed : Unstaffed s) (workers : s'.workers = s.workers)
    (started : s'.started = s.started) (nreqs : s'.nreqs = s.nreqs)
    (before : starting (s.threads ()) = none)
    (tickets : Every (fun t => executed t = false) s → Every (fun t => executed t = false) s') :
    Unstaffed s' := by
  intro none
  have untouched := unstaffed (workers ▸ none)
  refine ⟨started.trans untouched.started, tickets untouched.tickets, .inl ?_⟩
  rw [nreqs]
  exact untouched.nreqs.resolve_right (not_willSpawn before)

theorem Unstaffed.later {p : Ptr} {place : Place Unit} (unstaffed : Unstaffed s) (cust : InCustody s)
    (workers : s'.workers = s.workers) (held : Held s place p) (late : 3 ≤ progress place) :
    Unstaffed s' := by
  intro none
  have early := (unstaffed (workers ▸ none)).stage cust held
  omega

theorem Unstaffed.worker {w : Nat} {pc pc' : WorkerPc} (found : s.workers[w]? = some pc)
    (workers : s'.workers = s.workers.set w pc') : Unstaffed s' := by
  intro none
  rw [workers, List.set_eq_nil_iff] at none
  rw [none] at found
  cases found

/-- The first submission starts a worker. -/
theorem Untouched.enqueue (rest : List Frame) (untouched : Untouched s) (cust : InCustody s)
    (locked : ResLocked s) (before : starting (s.threads ()) = none)
    (threads : s'.threads () = .start .checkWanted :: rest) (started : s'.started = s.started)
    (npending : s'.npending = s.npending) (nreqs : s'.nreqs = s.nreqs + 1) : willSpawn s' := by
  have zero := untouched.nreqs.resolve_right (not_willSpawn before)
  rw [willSpawn, threads, starting_cons, frameStarts, started, npending, nreqs, untouched.started,
    untouched.npending cust locked, zero]
  exact ⟨by decide, by decide⟩

end

/-- What `Unstaffed` and `Attended` build on. -/
structure Ground (s : State Unit) : Prop where
  stacked : Stacked (s.threads ())
  cust : InCustody s
  locked : ResLocked s
  staffed : Staffed s

theorem ground {ok : State Unit → Action Unit → Prop} {s : State Unit}
    (h : ReachableBy (eventLoop Unit) ok s) : Ground s :=
  ⟨stacked h (), inCustody h, resLocked h, staffed h⟩

theorem transition_unstaffed {s s' : State Unit} {a : Action Unit} (known : Ground s)
    (unstaffed : Unstaffed s) (step : Transition s a s') : Unstaffed s' := by
  cases step with
  | submit java =>
    exact unstaffed.thread rfl rfl rfl (starting_java java) fun every => every.submitted rfl
  | control moved =>
    intro none
    have untouched := unstaffed none
    exact ⟨untouched.started, untouched.tickets.still rfl,
      untouched.nreqs.imp_right (control_willSpawn moved)⟩
  | @enqueue j c p data rest r workers top read woke =>
    intro none
    have nobody : s.workers = [] := by
      cases woke with
      | lost => exact none
      | woken => exact (List.set_eq_nil_iff ..).mp none
    have untouched := unstaffed nobody
    refine ⟨untouched.started, ?_, .inr (untouched.enqueue (.submit .wrap p data :: rest) known.cust
      known.locked (by rw [top]; rfl) rfl rfl rfl rfl)⟩
    obtain ⟨t, ticket, _⟩ := known.cust.ticket (held_top top rfl)
    exact untouched.tickets.tracked ticket rfl fun _ => rfl
  | @wrap j c p data rest top | @readBack j c p data rest top =>
    refine unstaffed.thread rfl rfl rfl (by rw [top]; rfl) fun every => ?_
    cases found : s.tickets[p.id]? with
    | none => exact every.still (List.modify_eq_self (List.getElem?_eq_none_iff.mp found))
    | some t => exact every.tracked found rfl id
  | spawn =>
    intro none
    cases List.append_eq_nil_iff.mp none with
    | intro _ last => cases last
  | count top =>
    intro none
    have size := known.staffed.size
    rw [show s.workers = [] from none, top] at size
    simp [frameStarts] at size
  | pollLock top | shiftEmpty top | donePoll top | unlockEmpty top | unlockTook top =>
    exact unstaffed.thread rfl rfl rfl (by rw [top]; rfl) fun every => every.still rfl
  | shiftTook top took => exact unstaffed.later known.cust rfl (held_resQueue took) (by simp [progress])
  | decReqs top | complete top | noCallback top | upcall top | unref top | freeData top | destroy top =>
    exact unstaffed.later known.cust rfl (held_top top rfl) (by simp [progress])
  | idling found | workerTake found | exec found | workerLock found | push found | wantPoll found
  | workerUnlock found | quit found => exact .worker found rfl

theorem unstaffed {ok : State Unit → Action Unit → Prop} {s : State Unit}
    (h : ReachableBy (eventLoop Unit) ok s) : Unstaffed s := by
  refine invariant_of_known (fun _ => ground) ?_ ?_ h
  · exact fun _ => ⟨rfl, fun _ _ found => by simp [start] at found, .inl rfl⟩
  · exact fun _ _ _ known holds _ step => transition_unstaffed known holds step

/-! ### A queued request is attended to -/

/-- A worker whose timed wait has expired goes on to the untimed wait only if
nothing is queued, or some other worker is not in the untimed wait, or a worker
is about to be started. -/
def SafeToSleep (s : State Unit) (a : Action Unit) : Prop :=
  ∀ w c, a = .worker w c → s.workers[w]? = some .expired → s.reqQueue.toList = [] ∨
    (∃ (v : Nat) (pc : WorkerPc), v ≠ w ∧ s.workers[v]? = some pc ∧ pc ≠ .wait) ∨ willSpawn s

def Attended (s : State Unit) : Prop :=
  s.reqQueue.toList ≠ [] → (∃ pc ∈ s.workers, pc ≠ .wait) ∨ willSpawn s

section
variable {s s' : State Unit}

theorem Attended.keep (attended : Attended s) (queue : s'.reqQueue = s.reqQueue)
    (workers : s'.workers = s.workers) (spawns : willSpawn s → willSpawn s') : Attended s' := by
  intro filled
  rw [workers]
  exact (attended (queue ▸ filled)).imp_right spawns

theorem Attended.thread (attended : Attended s) (queue : s'.reqQueue = s.reqQueue)
    (workers : s'.workers = s.workers) (before : starting (s.threads ()) = none) : Attended s' :=
  attended.keep queue workers fun will => absurd will (not_willSpawn before)

theorem attended_by {w : Nat} {pc pc' : WorkerPc} (found : s.workers[w]? = some pc)
    (workers : s'.workers = s.workers.set w pc') (awake : pc' ≠ .wait) : Attended s' := by
  intro _
  obtain ⟨bound, _⟩ := List.getElem?_eq_some_iff.mp found
  refine .inl ⟨pc', ?_, awake⟩
  rw [workers]
  exact List.mem_set bound pc'

/-- A signal that wakes nobody finds every worker on its way to the queue, or in a
wait that has expired. -/
theorem enqueue_attended {workers : List WorkerPc} (woke : Signalled s.workers workers)
    (crew : s'.workers = workers) (first : s.workers = [] → willSpawn s') : Attended s' := by
  intro _
  rw [crew]
  cases woke with
  | lost nobody =>
    cases equal : s.workers with
    | nil => exact .inr (first equal)
    | cons pc rest =>
      refine .inl ⟨pc, by simp, fun waits => ?_⟩
      have awake := nobody pc (by simp [equal])
      rw [waits] at awake
      cases awake
  | @woken w pc found =>
    obtain ⟨bound, _⟩ := List.getElem?_eq_some_iff.mp found
    exact .inl ⟨.woken, List.mem_set bound _, by simp⟩

theorem sleep_attended {a : Action Unit} {w : Nat} {c : Choice} (safe : SafeToSleep s a)
    (act : a = .worker w c) (found : s.workers[w]? = some .expired)
    (queue : s'.reqQueue = s.reqQueue) (workers : s'.workers = s.workers.set w .wait)
    (spawns : willSpawn s → willSpawn s') : Attended s' := by
  intro filled
  rcases safe w c act found with empty | ⟨v, pc, other, there, awake⟩ | will
  · exact absurd (queue ▸ empty) filled
  · refine .inl ⟨pc, ?_, awake⟩
    rw [workers]
    refine List.mem_of_getElem? (i := v) ?_
    rw [List.getElem?_set_ne (Ne.symm other), there]
  · exact .inr (spawns will)

end

theorem transition_attended {s s' : State Unit} {a : Action Unit} (known : Ground s)
    (unstaffed : Unstaffed s) (attended : Attended s) (safe : SafeToSleep s a)
    (step : Transition s a s') : Attended s' := by
  cases step with
  | submit java => exact attended.thread rfl rfl (starting_java java)
  | control moved => exact attended.keep rfl rfl (control_willSpawn moved)
  | enqueue top _ woke =>
    refine enqueue_attended woke rfl fun none => ?_
    exact (unstaffed none).enqueue _ known.cust known.locked (by rw [top]; rfl) rfl rfl rfl rfl
  | spawn => exact fun _ => .inl ⟨.shift, by simp, by simp⟩
  | count top =>
    refine attended.keep rfl rfl fun will => ?_
    rw [willSpawn, top] at will
    exact will.elim
  | wrap top | readBack top | pollLock top | shiftEmpty top | shiftTook top | donePoll top
  | unlockEmpty top | unlockTook top | decReqs top | complete top | noCallback top | upcall top
  | unref top | freeData top | destroy top => exact attended.thread rfl rfl (by rw [top]; rfl)
  | idling found step act =>
    cases step with
    | sleep | timeout | spurious | surplus => exact attended_by found rfl (by simp)
    | stay =>
      obtain ⟨c, act⟩ := act rfl
      exact sleep_attended safe act found rfl rfl (willSpawn_same rfl rfl rfl rfl)
  | workerTake found | exec found | workerLock found | wantPoll found | workerUnlock found
  | quit found => exact attended_by found rfl (by simp)
  | push found =>
    refine attended_by found rfl ?_
    split <;> simp

theorem attended {ok : State Unit → Action Unit → Prop}
    (safe : ∀ s a, ok s a → SafeToSleep s a) {s : State Unit}
    (h : ReachableBy (eventLoop Unit) ok s) : Attended s := by
  refine invariant_of_known (Q := fun s => Ground s ∧ Unstaffed s) ?_ ?_ ?_ h
  · exact fun s reached => ⟨ground reached, unstaffed reached⟩
  · exact fun filled => absurd rfl filled
  · exact fun s a _ known holds met step =>
      transition_attended known.1 known.2 holds (safe s a met) step

end WebbitAsyncio.Invariants.Attendance
