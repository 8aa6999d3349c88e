import WebbitAsyncio.Source.EventLoop

/-!
# What one step of the event loop can do

The inversion of `step`: every step is one of the transitions below, with the
guards it passed and the state it leaves. Invariants are proved by cases on
`Transition` and never unfold `step`. The steps that only rearrange the top of
one stack, and touch no request, are one constructor, `control`.
-/
namespace WebbitAsyncio.Source.EventLoop
open WebbitAsyncio.Lib.TransitionSystem
open WebbitAsyncio.Source.Reqq (Addr JInt)

variable {J : Type} [DecidableEq J]

/-- The entry point of a call from Java code other than a submit operation. -/
inductive Entry : Frame → Prop where
  | poll : Entry (.poll .loop)
  | block : Entry .block
  | flush : Entry (.flush .test)

/-- The top of a stack before and after a step that touches no request. -/
inductive Control (s : State J) : List Frame → List Frame → Prop where
  | enter {stack : List Frame} {f : Frame} : inJava stack → Entry f → Control s stack (f :: stack)
  | ret {id : ReqId} {rest : List Frame} : Control s (.callback id :: rest) rest
  | enough {rest : List Frame} : wanted ≤ s.started → Control s (.start .checkWanted :: rest) rest
  | below {rest : List Frame} : ¬ wanted ≤ s.started →
      Control s (.start .checkWanted :: rest) (.start .readThreads :: rest)
  | readThreads {rest : List Frame} :
      Control s (.start .readThreads :: rest) (.start (.readPending s.started) :: rest)
  | readPending {threads : UInt} {rest : List Frame} :
      Control s (.start (.readPending threads) :: rest)
        (.start (.readReqs threads s.npending) :: rest)
  | served {threads pending : UInt} {rest : List Frame} :
      0 ≤ threads.toInt + pending.toInt - s.nreqs.toInt →
      Control s (.start (.readReqs threads pending) :: rest) rest
  | short {threads pending : UInt} {rest : List Frame} :
      ¬ 0 ≤ threads.toInt + pending.toInt - s.nreqs.toInt →
      Control s (.start (.readReqs threads pending) :: rest) (.start .spawn :: rest)
  | loop {rest : List Frame} :
      Control s (.poll .loop :: rest) (.start .checkWanted :: .poll .lockRes :: rest)
  | readable {rest : List Frame} : 0 < s.pipe → Control s (.block :: rest) rest
  | flushing {rest : List Frame} : 0 < numRequests s →
      Control s (.flush .test :: rest) (.block :: .flush .callPoll :: rest)
  | flushed {rest : List Frame} : ¬ 0 < numRequests s → Control s (.flush .test :: rest) rest
  | callPoll {rest : List Frame} :
      Control s (.flush .callPoll :: rest) (.poll .loop :: .flush .test :: rest)

/-- What a signal does to the workers. -/
inductive Signalled (workers : List WorkerPc) : List WorkerPc → Prop where
  | lost : (∀ pc ∈ workers, pc.waiting = false) → Signalled workers workers
  | woken {w : Nat} {pc : WorkerPc} : workers[w]? = some pc → pc.waiting = true →
      Signalled workers (workers.set w .woken)

/-- The program counters from which a worker enters the section that shifts, and
`idle` as that section finds it. -/
inductive Shifting (s : State J) : WorkerPc → UInt → Prop where
  | shift : Shifting s .shift s.idle
  | woken : Shifting s .woken (s.idle - 1)

/-- The steps of a worker that touch no request, and the value of `idle` they leave. -/
inductive Idling (s : State J) : WorkerPc → WorkerPc → UInt → Prop where
  | sleep {pc : WorkerPc} {idle : UInt} : Shifting s pc idle → s.reqQueue.shift = none →
      Idling s pc .timedWait (idle + 1)
  | timeout : Idling s .timedWait .expired s.idle
  | spurious {pc : WorkerPc} : pc.waiting = true → Idling s pc .woken s.idle
  | surplus : maxIdle < s.idle → Idling s .expired .quit (s.idle - 1)
  | stay : ¬ maxIdle < s.idle → Idling s .expired .wait s.idle

inductive Transition (s : State J) : Action J → State J → Prop where
  | submit {j : J} {pri : JInt} {callback : Option Obj} {req data : Addr} {ref : Ref} :
      inJava (s.threads j) → s.heap req = none → s.heap data = none → req ≠ data →
      (callback ≠ none → s.refs ref = none) →
      Transition s (.submit j pri callback req data ref) (submitted s j pri callback req data ref)
  | control {a : Action J} {j : J} {stack : List Frame} : Control s (s.threads j) stack →
      Transition s a (s.setStack j stack)
  | enqueue {j : J} {c : Choice} {p : Ptr} {data : Addr} {rest : List Frame} {r : EioReq}
      {workers : List WorkerPc} : s.threads j = .submit .enqueue p data :: rest →
      s.reqAt p.addr = some r → Signalled s.workers workers →
      Transition s (.go j c) (({ s with
        nreqs := s.nreqs + 1
        nready := s.nready + 1
        reqQueue := s.reqQueue.push r.pri p
        workers := workers }.move p.id .reqQueue).setStack j
          (.start .checkWanted :: .submit .wrap p data :: rest))
  | wrap {j : J} {c : Choice} {p : Ptr} {data : Addr} {rest : List Frame} :
      s.threads j = .submit .wrap p data :: rest → s.refs c.ref = none →
      Transition s (.go j c) ((wrapped s p data c.ref rest.length).setStack j
        (.submit .readBack p data :: rest))
  | readBack {j : J} {c : Choice} {p : Ptr} {data : Addr} {rest : List Frame} :
      s.threads j = .submit .readBack p data :: rest →
      Transition s (.go j c) ((readBack s p data).setStack j rest)
  | spawn {j : J} {c : Choice} {rest : List Frame} : s.threads j = .start .spawn :: rest →
      Transition s (.go j c) ({ s with workers := s.workers ++ [WorkerPc.shift] }.setStack j
        (.start .count :: rest))
  | count {j : J} {c : Choice} {rest : List Frame} : s.threads j = .start .count :: rest →
      Transition s (.go j c) ({ s with started := s.started + 1 }.setStack j rest)
  | pollLock {j : J} {c : Choice} {rest : List Frame} : s.threads j = .poll .lockRes :: rest →
      s.reslock = none →
      Transition s (.go j c) ({ s with reslock := some (.thread j) }.setStack j
        (.poll .shift :: rest))
  | shiftEmpty {j : J} {c : Choice} {rest : List Frame} : s.threads j = .poll .shift :: rest →
      s.resQueue.shift = none →
      Transition s (.go j c) (s.setStack j (.poll (.unlockRes none) :: rest))
  | shiftTook {j : J} {c : Choice} {rest : List Frame} {p : Ptr} {queue : ReqQueue} :
      s.threads j = .poll .shift :: rest → s.resQueue.shift = some (p, queue) →
      Transition s (.go j c) (({ s with resQueue := queue, npending := s.npending - 1 }.move p.id
        (.frame j rest.length .taken)).setStack j
          (.poll (if queue.size = 0 then .donePoll p else .unlockRes (some p)) :: rest))
  | donePoll {j : J} {c : Choice} {rest : List Frame} {p : Ptr} :
      s.threads j = .poll (.donePoll p) :: rest → 0 < s.pipe →
      Transition s (.go j c) ({ s with pipe := s.pipe - 1 }.setStack j
        (.poll (.unlockRes (some p)) :: rest))
  | unlockEmpty {j : J} {c : Choice} {rest : List Frame} :
      s.threads j = .poll (.unlockRes none) :: rest →
      Transition s (.go j c) ({ s with reslock := none }.setStack j rest)
  | unlockTook {j : J} {c : Choice} {rest : List Frame} {p : Ptr} :
      s.threads j = .poll (.unlockRes (some p)) :: rest →
      Transition s (.go j c) ({ s with reslock := none }.setStack j (.poll (.decReqs p) :: rest))
  | decReqs {j : J} {c : Choice} {rest : List Frame} {p : Ptr} :
      s.threads j = .poll (.decReqs p) :: rest →
      Transition s (.go j c) (({ s with nreqs := s.nreqs - 1 }.move p.id
        (.frame j rest.length .begun)).setStack j (.poll (.complete p) :: rest))
  | complete {j : J} {c : Choice} {rest : List Frame} {p : Ptr} {r : EioReq} {d : JavaData J} :
      s.threads j = .poll (.complete p) :: rest → s.reqAt p.addr = some r →
      s.dataAt r.data = some d →
      Transition s (.go j c) (((s.setBlock r.data (some (.data { d with complete := true }))).move p.id
        (.frame j rest.length .marked)).setStack j (.poll (.upcall p) :: rest))
  | noCallback {j : J} {c : Choice} {rest : List Frame} {p : Ptr} {r : EioReq} {d : JavaData J} :
      s.threads j = .poll (.upcall p) :: rest → s.reqAt p.addr = some r →
      s.dataAt r.data = some d → d.javaCallback = none →
      Transition s (.go j c) ((s.move p.id (.frame j rest.length .called)).setStack j
        (.poll (.unref p) :: rest))
  | upcall {j : J} {c : Choice} {rest : List Frame} {p : Ptr} {r : EioReq} {d : JavaData J}
      {handle : Ref} : s.threads j = .poll (.upcall p) :: rest → s.reqAt p.addr = some r →
      s.dataAt r.data = some d → d.javaCallback = some handle →
      Transition s (.go j c) ((s.track p.id fun t => { t with
          place := .frame j rest.length .called
          upcalls := t.upcalls ++ [upcallOf s j d handle] }).setStack j
        (.callback p.id :: .poll (.unref p) :: rest))
  | unref {j : J} {c : Choice} {rest : List Frame} {p : Ptr} {r : EioReq} {d : JavaData J} :
      s.threads j = .poll (.unref p) :: rest → s.reqAt p.addr = some r →
      s.dataAt r.data = some d →
      Transition s (.go j c) ((((s.storeRef d.javaCallback none).storeRef d.javaRequest none).move p.id
        (.frame j rest.length .unreffed)).setStack j (.poll (.freeData p) :: rest))
  | freeData {j : J} {c : Choice} {rest : List Frame} {p : Ptr} {r : EioReq} :
      s.threads j = .poll (.freeData p) :: rest → s.reqAt p.addr = some r →
      Transition s (.go j c) (((s.setBlock r.data none).move p.id
        (.frame j rest.length .dataFreed)).setStack j (.poll (.destroy p c.value) :: rest))
  | destroy {j : J} {c : Choice} {rest : List Frame} {p : Ptr} {res : BitVec 32} :
      s.threads j = .poll (.destroy p res) :: rest →
      Transition s (.go j c) (((s.setBlock p.addr none).move p.id .gone).setStack j
        (if res = 0 then .poll .loop :: rest else rest))
  | idling {a : Action J} {w : Nat} {pc pc' : WorkerPc} {idle : UInt} : s.workers[w]? = some pc →
      Idling s pc pc' idle → (pc = .expired → ∃ c, a = .worker w c) →
      Transition s a ({ s with idle := idle }.setWorker w pc')
  | workerTake {w : Nat} {c : Choice} {pc : WorkerPc} {idle : UInt} {p : Ptr} {queue : ReqQueue} :
      s.workers[w]? = some pc → Shifting s pc idle → s.reqQueue.shift = some (p, queue) →
      Transition s (.worker w c) (({ s with
        idle := idle
        reqQueue := queue
        nready := s.nready - 1 }.move p.id (.worker w .running)).setWorker w (.exec p))
  | exec {w : Nat} {c : Choice} {p : Ptr} {r : EioReq} : s.workers[w]? = some (.exec p) →
      s.reqAt p.addr = some r →
      Transition s (.worker w c) (((s.setBlock p.addr (some (.req { r with
        result := c.result, errorno := c.errorno }))).track p.id fun t => { t with
          place := .worker w .executed
          outcome := some (c.result, c.errorno) }).setWorker w (.lockRes p))
  | workerLock {w : Nat} {c : Choice} {p : Ptr} : s.workers[w]? = some (.lockRes p) →
      s.reslock = none →
      Transition s (.worker w c) ({ s with reslock := some (.worker w) }.setWorker w (.push p))
  | push {w : Nat} {c : Choice} {p : Ptr} {r : EioReq} : s.workers[w]? = some (.push p) →
      s.reqAt p.addr = some r →
      Transition s (.worker w c) (({ s with
        npending := s.npending + 1
        resQueue := s.resQueue.push r.pri p }.move p.id .resQueue).setWorker w
          (if s.resQueue.size = 0 then .wantPoll else .unlockRes))
  | wantPoll {w : Nat} {c : Choice} : s.workers[w]? = some .wantPoll →
      Transition s (.worker w c) ({ s with pipe := s.pipe + 1 }.setWorker w .unlockRes)
  | workerUnlock {w : Nat} {c : Choice} : s.workers[w]? = some .unlockRes →
      Transition s (.worker w c) ({ s with reslock := none }.setWorker w .shift)
  | quit {w : Nat} {c : Choice} : s.workers[w]? = some .quit →
      Transition s (.worker w c) ({ s with started := s.started - 1 }.setWorker w .exited)

/-! ### Every step is a transition -/

omit [DecidableEq J] in
theorem signal_cases {s s' : State J} {wake : Option Nat} (h : signal s wake = some s') :
    ∃ workers, Signalled s.workers workers ∧ s' = { s with workers := workers } := by
  cases wake with
  | none =>
    simp only [signal] at h
    split at h
    next => cases h
    next nobody =>
      obtain rfl := Option.some.inj h
      exact ⟨s.workers, .lost (by simpa using nobody), rfl⟩
  | some w =>
    simp only [signal] at h
    split at h
    next pc found =>
      split at h
      next waits =>
        obtain rfl := Option.some.inj h
        exact ⟨_, .woken found waits, rfl⟩
      next => cases h
    next => cases h

theorem callSubmit_transition {s s' : State J} {j : J} {pri : JInt} {callback : Option Obj}
    {req data : Addr} {ref : Ref} (h : callSubmit s j pri callback req data ref = some s') :
    Transition s (.submit j pri callback req data ref) s' := by
  simp only [callSubmit] at h
  split at h
  next guards =>
    obtain ⟨java, freshReq, freshData, apart, freshRef⟩ := guards
    obtain rfl := Option.some.inj h
    exact .submit java freshReq freshData apart freshRef
  next => cases h

theorem goSubmit_transition {s s' : State J} {j : J} {pc : SubmitPc} {p : Ptr} {data : Addr}
    {rest : List Frame} {c : Choice} (top : s.threads j = .submit pc p data :: rest)
    (h : goSubmit s j pc p data rest c = some s') : Transition s (.go j c) s' := by
  cases pc with
  | enqueue =>
    simp only [goSubmit, etpSubmit, Option.map_eq_some_iff, Option.bind_eq_some_iff] at h
    obtain ⟨queued, ⟨r, found, woke⟩, rfl⟩ := h
    obtain ⟨workers, signalled, rfl⟩ := signal_cases woke
    exact .enqueue top found signalled
  | wrap =>
    simp only [goSubmit, wrapRequest, Option.map_eq_some_iff] at h
    obtain ⟨stored, h, rfl⟩ := h
    split at h
    next fresh =>
      obtain rfl := Option.some.inj h
      exact .wrap top fresh
    next => cases h
  | readBack =>
    obtain rfl := Option.some.inj h
    exact .readBack top

theorem goStart_transition {s : State J} {j : J} {pc : StartPc} {rest : List Frame} (c : Choice)
    (top : s.threads j = .start pc :: rest) : Transition s (.go j c) (goStart s j pc rest) := by
  cases pc with
  | checkWanted =>
    simp only [goStart]
    split
    next enough => exact .control (top ▸ .enough enough)
    next below => exact .control (top ▸ .below below)
  | readThreads => exact .control (top ▸ .readThreads)
  | readPending threads => exact .control (top ▸ .readPending)
  | readReqs threads pending =>
    simp only [goStart]
    split
    next served => exact .control (top ▸ .served served)
    next short => exact .control (top ▸ .short short)
  | spawn => exact .spawn top
  | count => exact .count top

theorem upcall_transition {s s' : State J} {j : J} {p : Ptr} {rest : List Frame} {c : Choice}
    (top : s.threads j = .poll (.upcall p) :: rest) (h : upcall s j p rest = some s') :
    Transition s (.go j c) s' := by
  simp only [upcall, Option.bind_eq_some_iff, Option.map_eq_some_iff] at h
  obtain ⟨r, found, d, stored, h⟩ := h
  split at h
  next null =>
    obtain rfl := h
    exact .noCallback top found stored null
  next handle given =>
    obtain rfl := h
    have merged := Transition.upcall (c := c) top found stored given
    simpa only [State.move, State.track, List.modify_modify_eq, Function.comp_def] using merged

theorem goPoll_transition {s s' : State J} {j : J} {pc : PollPc} {rest : List Frame} {c : Choice}
    (top : s.threads j = .poll pc :: rest) (h : goPoll s j pc rest c = some s') :
    Transition s (.go j c) s' := by
  cases pc with
  | loop =>
    obtain rfl := Option.some.inj h
    exact .control (top ▸ .loop)
  | lockRes =>
    simp only [goPoll] at h
    split at h
    next free =>
      obtain rfl := Option.some.inj h
      exact .pollLock top free
    next => cases h
  | shift =>
    simp only [goPoll] at h
    split at h
    next empty =>
      obtain rfl := Option.some.inj h
      exact .shiftEmpty top empty
    next p queue took =>
      obtain rfl := Option.some.inj h
      exact .shiftTook top took
  | donePoll p =>
    simp only [goPoll] at h
    split at h
    next readable =>
      obtain rfl := Option.some.inj h
      exact .donePoll top readable
    next => cases h
  | unlockRes taken =>
    cases taken with
    | none =>
      obtain rfl := Option.some.inj h
      exact .unlockEmpty top
    | some p =>
      obtain rfl := Option.some.inj h
      exact .unlockTook top
  | decReqs p =>
    obtain rfl := Option.some.inj h
    exact .decReqs top
  | complete p =>
    simp only [goPoll, Option.bind_eq_some_iff, Option.map_eq_some_iff] at h
    obtain ⟨r, found, d, stored, rfl⟩ := h
    exact .complete top found stored
  | upcall p => exact upcall_transition top h
  | unref p =>
    simp only [goPoll, Option.bind_eq_some_iff, Option.map_eq_some_iff] at h
    obtain ⟨r, found, d, stored, rfl⟩ := h
    exact .unref top found stored
  | freeData p =>
    simp only [goPoll, Option.map_eq_some_iff] at h
    obtain ⟨r, found, rfl⟩ := h
    exact .freeData top found
  | destroy p res =>
    obtain rfl := Option.some.inj h
    exact .destroy top

theorem goThread_transition {s s' : State J} {j : J} {c : Choice} (h : goThread s j c = some s') :
    Transition s (.go j c) s' := by
  unfold goThread at h
  split at h
  next => cases h
  next => cases h
  next pc p data rest top => exact goSubmit_transition top h
  next pc rest top =>
    obtain rfl := Option.some.inj h
    exact goStart_transition c top
  next pc rest top => exact goPoll_transition top h
  next rest top =>
    simp only [goBlock] at h
    split at h
    next readable =>
      obtain rfl := Option.some.inj h
      exact .control (top ▸ .readable readable)
    next => cases h
  next pc rest top =>
    obtain rfl := Option.some.inj h
    cases pc with
    | test =>
      simp only [goFlush]
      split
      next more => exact .control (top ▸ .flushing more)
      next done => exact .control (top ▸ .flushed done)
    | callPoll => exact .control (top ▸ .callPoll)

theorem workerShift_transition {s : State J} {w : Nat} {pc : WorkerPc} {idle : UInt} (c : Choice)
    (found : s.workers[w]? = some pc) (shifting : Shifting s pc idle) :
    Transition s (.worker w c) (workerShift { s with idle := idle } w) := by
  simp only [workerShift]
  split
  next empty => exact .idling found (.sleep shifting empty) fun _ => ⟨c, rfl⟩
  next p queue took => exact .workerTake found shifting took

theorem goWorker_transition {s s' : State J} {w : Nat} {pc : WorkerPc} {c : Choice}
    (found : s.workers[w]? = some pc) (h : goWorker s w pc c = some s') :
    Transition s (.worker w c) s' := by
  cases pc with
  | shift =>
    obtain rfl := Option.some.inj h
    exact workerShift_transition c found .shift
  | woken =>
    obtain rfl := Option.some.inj h
    exact workerShift_transition c found .woken
  | timedWait => cases h
  | wait => cases h
  | expired =>
    obtain rfl := Option.some.inj h
    split
    next surplus => exact .idling found (.surplus surplus) fun _ => ⟨c, rfl⟩
    next allowed => exact .idling found (.stay allowed) fun _ => ⟨c, rfl⟩
  | exec p =>
    simp only [goWorker, Option.map_eq_some_iff] at h
    obtain ⟨r, stored, rfl⟩ := h
    exact .exec found stored
  | lockRes p =>
    simp only [goWorker] at h
    split at h
    next free =>
      obtain rfl := Option.some.inj h
      exact .workerLock found free
    next => cases h
  | push p =>
    simp only [goWorker, Option.map_eq_some_iff] at h
    obtain ⟨r, stored, rfl⟩ := h
    exact .push found stored
  | wantPoll =>
    obtain rfl := Option.some.inj h
    exact .wantPoll found
  | unlockRes =>
    obtain rfl := Option.some.inj h
    exact .workerUnlock found
  | quit =>
    obtain rfl := Option.some.inj h
    exact .quit found
  | exited => cases h

theorem step_transition {s s' : State J} {a : Action J} (h : step s a = some s') :
    Transition s a s' := by
  cases a with
  | submit j pri callback req data ref => exact callSubmit_transition h
  | poll j =>
    simp only [step, Option.ite_none_right_eq_some, Option.some.injEq] at h
    obtain ⟨java, rfl⟩ := h
    exact .control (.enter java .poll)
  | block j =>
    simp only [step, Option.ite_none_right_eq_some, Option.some.injEq] at h
    obtain ⟨java, rfl⟩ := h
    exact .control (.enter java .block)
  | flush j =>
    simp only [step, Option.ite_none_right_eq_some, Option.some.injEq] at h
    obtain ⟨java, rfl⟩ := h
    exact .control (.enter java .flush)
  | ret j =>
    simp only [step] at h
    split at h
    next id rest top =>
      obtain rfl := Option.some.inj h
      exact .control (top ▸ .ret)
    next => cases h
  | go j c => exact goThread_transition h
  | worker w c =>
    simp only [step, Option.bind_eq_some_iff] at h
    obtain ⟨pc, found, h⟩ := h
    exact goWorker_transition found h
  | timeout w =>
    simp only [step] at h
    split at h
    next found =>
      obtain rfl := Option.some.inj h
      exact .idling found .timeout fun expired => by cases expired
    next => cases h
  | spurious w =>
    simp only [step] at h
    split at h
    next pc found =>
      simp only [Option.ite_none_right_eq_some, Option.some.injEq] at h
      obtain ⟨waits, rfl⟩ := h
      refine .idling found (.spurious waits) fun expired => ?_
      rw [expired] at waits
      cases waits
    next => cases h

/-! ### Tickets and runs -/

theorem submitted_tickets (s : State J) (j : J) (pri : JInt) (callback : Option Obj) (req data : Addr)
    (ref : Ref) : (submitted s j pri callback req data ref).tickets = s.tickets ++
      [⟨j, callback, req, data, .pending (s.threads j).length,
        .frame j (s.threads j).length .submitting, none, []⟩] := rfl

/-- A new ticket takes the next number. -/
theorem getElem?_appended {α : Type} (l : List α) (a : α) (i : Nat) :
    (l ++ [a])[i]? = if i = l.length then some a else l[i]? := by
  by_cases last : i = l.length
  · simp [last]
  · rw [if_neg last, List.getElem?_append]
    split
    next => rfl
    next beyond =>
      rw [List.getElem?_eq_none (Nat.not_lt.mp beyond)]
      exact List.getElem?_eq_none (by simp; omega)

theorem getElem?_modify_cases {α : Type} {l : List α} {i k : Nat} {f : α → α} {b : α}
    (found : (l.modify i f)[k]? = some b) :
    (k ≠ i ∧ l[k]? = some b) ∨ (k = i ∧ ∃ a, l[i]? = some a ∧ f a = b) := by
  rw [List.getElem?_modify] at found
  by_cases equal : i = k
  · subst equal
    simp only [if_true] at found
    exact .inr ⟨rfl, Option.map_eq_some_iff.mp found⟩
  · simp only [equal, if_false, id_map'] at found
    exact .inl ⟨Ne.symm equal, found⟩

/-- What a change of one ticket keeps, every ticket keeps. -/
theorem getElem?_modify_view {α β : Type} (view : α → β) {l : List α} {i : Nat} {f : α → α}
    (same : ∀ a, l[i]? = some a → view (f a) = view a) (k : Nat) :
    ((l.modify i f)[k]?).map view = (l[k]?).map view := by
  rw [List.getElem?_modify]
  cases found : l[k]? with
  | none => rfl
  | some a =>
    by_cases equal : i = k
    · subst equal
      simp [same a found]
    · simp [equal]

/-- The induction over runs, one transition at a time. -/
theorem invariant_of_transition {ok : State J → Action J → Prop} {P : State J → Prop}
    (first : P start) (next : ∀ s a s', P s → ok s a → Transition s a s' → P s') {s : State J}
    (h : ReachableBy (eventLoop J) ok s) : P s :=
  h.invariant first fun s a s' holds met taken => next s a s' holds met (step_transition taken)

/-- The same, relative to what is already known of the runs. -/
theorem invariant_of_known {ok : State J → Action J → Prop} {P Q : State J → Prop}
    (known : ∀ s, ReachableBy (eventLoop J) ok s → Q s) (first : P start)
    (next : ∀ s a s', Q s → P s → ok s a → Transition s a s' → P s') {s : State J}
    (h : ReachableBy (eventLoop J) ok s) : P s :=
  h.invariant_of known first fun s a s' have_ holds met taken =>
    next s a s' have_ holds met (step_transition taken)

end WebbitAsyncio.Source.EventLoop
