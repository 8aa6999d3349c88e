import WebbitAsyncio.Source.AtFork
import WebbitAsyncio.Guarantees.FlushCompletes

/-!
# The child of `fork()`

Whatever the workers and the other threads were doing, the child destroys every request
that was queued, executing or finished exactly once and starts with empty queues; the
requests whose callbacks the forking thread is in are left to it.
-/
namespace WebbitAsyncio.Guarantees.ForkSafety
open WebbitAsyncio.Lib.TransitionSystem WebbitAsyncio.Lib.Ledger
open WebbitAsyncio.Source.EventLoop WebbitAsyncio.Invariants.Stack
open WebbitAsyncio.Invariants.Custody WebbitAsyncio.Invariants.Memory
open WebbitAsyncio.Invariants.Counters
open WebbitAsyncio.Guarantees.FlushCompletes (suspended_holds)
open WebbitAsyncio.Source.Reqq (Addr)

variable {J : Type} {s s' : State J}

/-! ### Destroying one request after the other -/

def destroyAll : List Ptr → State J → Option (State J)
  | [], s => some s
  | p :: rest, s => (etpDestroy s p).bind (destroyAll rest)

theorem destroyAll_append (ps qs : List Ptr) (s : State J) :
    destroyAll (ps ++ qs) s = (destroyAll ps s).bind (destroyAll qs) := by
  induction ps generalizing s with
  | nil => rfl
  | cons p rest ih =>
    simp only [List.cons_append, destroyAll, Option.bind_assoc]
    exact congrArg _ (funext ih)

theorem toList_nil {queue : ReqQueue} (vacant : queue.toList = []) : queue = .empty := by
  have bucket : queue.queues = Lib.Buckets.empty := by
    funext i
    refine List.eq_nil_iff_forall_not_mem.mpr fun x inside => ?_
    have member : x ∈ queue.toList := (Lib.Buckets.mem_toList _ _).mpr ⟨i, inside⟩
    rw [vacant] at member
    cases member
  have none : queue.size = 0 := by rw [queue.size_eq_length, vacant]; rfl
  cases queue
  simp only at bucket none
  subst bucket none
  rfl

theorem drain_eq (queue : ReqQueue) (s : State J) :
    drain queue s = (destroyAll queue.toList s).map fun s => (.empty, s) := by
  fun_induction drain queue s with
  | case1 queue s vacant =>
    have none := ReqQueue.shift_none.mp vacant
    rw [queue.size_eq_length] at none
    have vacant' : queue.toList = [] := List.length_eq_zero_iff.mp (by omega)
    rw [vacant', toList_nil vacant']
    rfl
  | case2 queue s p left taken ih =>
    rw [ReqQueue.shift_toList taken, destroyAll, Option.map_bind]
    exact congrArg _ (funext ih)

theorem clearWorkers_eq (ring : List WorkerPc) (s : State J) :
    clearWorkers ring s = destroyAll (ring.filterMap WorkerPc.req) s := by
  induction ring generalizing s with
  | nil => rfl
  | cons wrk rest ih =>
    cases busy : wrk.req with
    | none => simp only [clearWorkers, busy, List.filterMap_cons, ih]
    | some p =>
      simp only [clearWorkers, busy, List.filterMap_cons, destroyAll]
      exact congrArg _ (funext ih)

/-- The state after the requests of `ps` have been destroyed. -/
structure Destroyed (ps : List Ptr) (s s' : State J) : Prop where
  heap : ∀ a, s'.heap a = if a ∈ ps.map Ptr.addr then none else s.heap a
  tickets : ∀ id : ReqId, s'.tickets[id]? = (s.tickets[id]?).map fun t =>
    if id ∈ ps.map Ptr.id then { t with place := .gone } else t
  others : s' = { s with heap := s'.heap, tickets := s'.tickets }

theorem destroyAll_destroyed {ps : List Ptr} (ran : destroyAll ps s = some s') :
    Destroyed ps s s' := by
  induction ps generalizing s with
  | nil =>
    obtain rfl := Option.some.inj ran
    exact ⟨fun _ => rfl, fun id => by simp, rfl⟩
  | cons p rest ih =>
    obtain ⟨middle, first, ran⟩ := Option.bind_eq_some_iff.mp ran
    obtain ⟨r, _, rfl⟩ := Option.map_eq_some_iff.mp first
    have after := ih ran
    refine ⟨fun a => ?_, fun id => ?_, ?_⟩
    · rw [after.heap a, State.move_heap, State.setBlock_heap]
      by_cases here : a = p.addr
      · subst here
        simp
      · simp [here]
    · rw [after.tickets id, State.move_tickets, State.setBlock_tickets, List.getElem?_modify]
      cases s.tickets[id]? with
      | none => rfl
      | some t =>
        by_cases own : p.id = id
        · subst own
          simp
        · have other : id ≠ p.id := Ne.symm own
          simp [own, other]
    · rw [after.others]
      rfl

theorem destroyAll_isSome {ps : List Ptr} (live : ∀ p ∈ ps, ∃ r, s.reqAt p.addr = some r)
    (distinct : (ps.map Ptr.addr).Nodup) : ∃ s', destroyAll ps s = some s' := by
  induction ps generalizing s with
  | nil => exact ⟨s, rfl⟩
  | cons p rest ih =>
    obtain ⟨r, read⟩ := live p List.mem_cons_self
    rw [List.map_cons, List.nodup_cons] at distinct
    have live' : ∀ q ∈ rest, ∃ r, ((s.setBlock p.addr none).move p.id .gone).reqAt q.addr = some r := by
      intro q inside
      obtain ⟨r', read'⟩ := live q (List.mem_cons_of_mem p inside)
      have apart : q.addr ≠ p.addr := fun same => distinct.1 (same ▸ List.mem_map_of_mem inside)
      refine ⟨r', ?_⟩
      rw [reqAt_eq_some] at read' ⊢
      simpa [Function.update_of_ne apart] using read'
    obtain ⟨s', ran⟩ := ih live' distinct.2
    refine ⟨s', ?_⟩
    rw [destroyAll, etpDestroy, read]
    exact ran

/-! ### The requests of the library -/

/-- Queued, executing, or finished and not yet taken. -/
def inLibrary : Place J → Bool
  | .reqQueue | .worker _ _ | .resQueue => true
  | _ => false

/-- What the child destroys, in this order. -/
def abandoned (s : State J) : List Ptr :=
  s.reqQueue.toList ++ s.resQueue.toList ++ s.workers.reverse.filterMap WorkerPc.req

theorem workerHolds_req {pc : WorkerPc} {p : Ptr} :
    pc.req = some p ↔ ∃ k, workerHolds pc = some (p, k) := by
  cases pc <;> simp [WorkerPc.req, workerHolds]

theorem mem_abandoned {p : Ptr} :
    p ∈ abandoned s ↔ ∃ place, inLibrary place = true ∧ Held s place p := by
  simp only [abandoned, List.mem_append, List.mem_filterMap, List.mem_reverse]
  constructor
  · rintro ((queued | finished) | ⟨pc, member, busy⟩)
    · exact ⟨.reqQueue, rfl, queued⟩
    · exact ⟨.resQueue, rfl, finished⟩
    · obtain ⟨w, found⟩ := List.mem_iff_getElem?.mp member
      obtain ⟨k, holds⟩ := workerHolds_req.mp busy
      exact ⟨.worker w k, rfl, (held_own_worker found k p).mpr holds⟩
  · rintro ⟨place, inside, held⟩
    cases place with
    | reqQueue => exact Or.inl (Or.inl held)
    | resQueue => exact Or.inl (Or.inr held)
    | worker w k =>
      obtain ⟨pc, found, holds⟩ := Option.bind_eq_some_iff.mp held
      exact Or.inr ⟨pc, List.mem_of_getElem? found, workerHolds_req.mpr ⟨k, holds⟩⟩
    | frame | gone => cases inside

/-- Whoever holds a pointer holds that of an allocated request. -/
theorem held_live {p : Ptr} {place : Place J} (cust : InCustody s) (alloc : Allocated s)
    (held : Held s place p) : ∃ r, s.reqAt p.addr = some r ∧ r.id = p.id := by
  obtain ⟨t, ticket, addr, there⟩ := cust.ticket held
  have live : reqFreed t = false := by
    cases place with
    | frame j h k => cases k <;> simp [reqFreed, there, progress]
    | worker w k => cases k <;> simp [reqFreed, there, progress]
    | reqQueue | resQueue => simp [reqFreed, there, progress]
    | gone => cases held
  obtain ⟨r, stored, id, -⟩ := alloc.req p.id t ticket live
  exact ⟨r, reqAt_eq_some.mpr (addr ▸ stored), id⟩

/-- Two requests that are held have their blocks apart. -/
theorem held_addr {p q : Ptr} {place place' : Place J} (cust : InCustody s) (alloc : Allocated s)
    (held : Held s place p) (held' : Held s place' q) (same : p.addr = q.addr) : p = q := by
  obtain ⟨r, read, id⟩ := held_live cust alloc held
  obtain ⟨r', read', id'⟩ := held_live cust alloc held'
  rw [same, read', Option.some.injEq] at read
  cases p
  cases q
  simp_all

theorem executing_nodup (cust : InCustody s) :
    (s.workers.reverse.filterMap WorkerPc.req).Nodup := by
  rw [List.filterMap_reverse, List.nodup_reverse, List.Nodup, List.pairwise_filterMap,
    List.pairwise_iff_getElem]
  intro v w vBound wBound before p vBusy q wBusy same
  subst same
  obtain ⟨k, holds⟩ := workerHolds_req.mp vBusy
  obtain ⟨k', holds'⟩ := workerHolds_req.mp wBusy
  have one := (held_own_worker (List.getElem?_eq_getElem vBound) k p).mpr holds
  have two := (held_own_worker (List.getElem?_eq_getElem wBound) k' p).mpr holds'
  have place := cust.agrees.unique one two
  simp only [Place.worker.injEq] at place
  omega

theorem abandoned_nodup (cust : InCustody s) (alloc : Allocated s) :
    ((abandoned s).map Ptr.addr).Nodup := by
  have once : (abandoned s).Nodup := by
    refine List.nodup_append.mpr ⟨List.nodup_append.mpr
      ⟨cust.reqDistinct, cust.resDistinct, fun p queued q finished same => ?_⟩,
      executing_nodup cust, fun p waits q busy same => ?_⟩
    · subst same
      have both := cust.agrees.unique (show Held s .reqQueue p from queued)
        (show Held s .resQueue p from finished)
      cases both
    · subst same
      obtain ⟨pc, member, holds⟩ := List.mem_filterMap.mp busy
      obtain ⟨w, found⟩ := List.mem_iff_getElem?.mp (List.mem_reverse.mp member)
      obtain ⟨k, holds⟩ := workerHolds_req.mp holds
      have executing := (held_own_worker found k p).mpr holds
      rcases List.mem_append.mp waits with queued | finished
      · have both := cust.agrees.unique (show Held s .reqQueue p from queued) executing
        cases both
      · have both := cust.agrees.unique (show Held s .resQueue p from finished) executing
        cases both
  refine once.map_on fun p inside q inside' same => ?_
  obtain ⟨place, -, held⟩ := mem_abandoned.mp inside
  obtain ⟨place', -, held'⟩ := mem_abandoned.mp inside'
  exact held_addr cust alloc held held' same

theorem etpAtforkChild_eq (s : State J) :
    etpAtforkChild s = (destroyAll (abandoned s) s).map fun s' => { s with
      heap := s'.heap, tickets := s'.tickets, reqQueue := .empty, resQueue := .empty, workers := []
      started := 0, idle := 0, nreqs := 0, nready := 0, npending := 0, reslock := none } := by
  rw [abandoned, destroyAll_append, destroyAll_append]
  simp only [etpAtforkChild, drain_eq, clearWorkers_eq]
  cases ran : destroyAll s.reqQueue.toList s with
  | none => rfl
  | some first =>
    have kept := (destroyAll_destroyed ran).others
    have results : first.resQueue = s.resQueue := by rw [kept]
    simp only [Option.map_some, Option.bind_some, results]
    cases next : destroyAll s.resQueue.toList first with
    | none => rfl
    | some middle =>
      have kept' := (destroyAll_destroyed next).others
      have workers : middle.workers = s.workers := by rw [kept', kept]
      simp only [Option.map_some, Option.bind_some, workers]
      cases last : destroyAll (s.workers.reverse.filterMap WorkerPc.req) middle with
      | none => rfl
      | some done =>
        have kept'' := (destroyAll_destroyed last).others
        simp only [Option.map_some, Option.some.injEq]
        rw [kept'', kept', kept]

/-! ### The state of the child -/

theorem abandoned_ids (cust : InCustody s) {id : ReqId} {t : Ticket J}
    (found : s.tickets[id]? = some t) :
    id ∈ (abandoned s).map Ptr.id ↔ inLibrary t.place = true := by
  constructor
  · intro member
    obtain ⟨p, inside, rfl⟩ := List.mem_map.mp member
    obtain ⟨place, lib, held⟩ := mem_abandoned.mp inside
    obtain ⟨t', ticket, -, there⟩ := cust.ticket held
    rw [found, Option.some.injEq] at ticket
    rw [ticket, there, lib]
  · intro lib
    have live : t.place ≠ .gone := fun gone => by rw [gone] at lib; cases lib
    have held := cust.held found live
    exact List.mem_map_of_mem (mem_abandoned.mpr ⟨t.place, lib, held⟩)

/-- What `fork()` makes of the library in the child. -/
structure Child (s s' : State J) (j : J) : Prop where
  tickets : ∀ id : ReqId, s'.tickets[id]? = (s.tickets[id]?).map fun t =>
    if inLibrary t.place then { t with place := .gone } else t
  freed : ∀ (id : ReqId) t, s.tickets[id]? = some t → inLibrary t.place = true →
    s'.heap t.req = none
  /-- Nothing else is freed; the `java_data` of the destroyed requests is left behind. -/
  kept : ∀ a, (∀ (id : ReqId) t, s.tickets[id]? = some t → inLibrary t.place = true → t.req ≠ a) →
    s'.heap a = s.heap a
  refs : s'.refs = s.refs
  pipe : s'.pipe = s.pipe
  queues : s'.reqQueue = .empty ∧ s'.resQueue = .empty ∧ s'.workers = []
  counters : s'.nreqs = 0 ∧ s'.nready = 0 ∧ s'.npending = 0 ∧ s'.started = 0 ∧ s'.idle = 0
  unlocked : s'.reslock = none
  stack : s'.threads j = s.threads j
  alone : ∀ i, i ≠ j → s'.threads i = []

variable [DecidableEq J]

theorem forkChild_guards {j : J} (forked : forkChild s j = some s') :
    s.reslock = none ∧ inJava (s.threads j) := by
  unfold forkChild at forked
  split at forked
  next guards => exact guards
  next => cases forked

theorem forkChild_child {j : J} (cust : InCustody s) (forked : forkChild s j = some s') :
    Child s s' j := by
  have guards := forkChild_guards forked
  rw [forkChild, if_pos guards, etpAtforkChild_eq, Option.map_eq_some_iff] at forked
  obtain ⟨left, ran, rfl⟩ := forked
  have after : Destroyed (abandoned s) (copied s j) left := destroyAll_destroyed ran
  refine ⟨fun id => ?_, fun id t found lib => ?_, fun a apart => ?_, rfl, rfl,
    ⟨rfl, rfl, rfl⟩, ⟨rfl, rfl, rfl, rfl, rfl⟩, rfl, ?_, fun i other => ?_⟩
  · refine (after.tickets id).trans ?_
    show (s.tickets[id]?).map _ = _
    cases found : s.tickets[id]? with
    | none => rfl
    | some t => exact congrArg some (if_congr (abandoned_ids cust found) rfl rfl)
  · obtain ⟨p, inside, same⟩ := List.mem_map.mp ((abandoned_ids cust found).mpr lib)
    obtain ⟨place, -, held⟩ := mem_abandoned.mp inside
    obtain ⟨t', ticket, addr, -⟩ := cust.ticket held
    rw [same, found, Option.some.injEq] at ticket
    refine (after.heap t.req).trans (if_pos ?_)
    exact List.mem_map.mpr ⟨p, inside, by rw [← addr, ticket]⟩
  · refine (after.heap a).trans (if_neg fun inside => ?_)
    obtain ⟨p, member, same⟩ := List.mem_map.mp inside
    obtain ⟨place, lib, held⟩ := mem_abandoned.mp member
    obtain ⟨t, ticket, addr, there⟩ := cust.ticket held
    exact apart p.id t ticket (there ▸ lib) (addr.trans same)
  · simp [copied]
  · simp [copied, other]

theorem forkChild_isSome {j : J} (cust : InCustody s) (alloc : Allocated s)
    (unlocked : s.reslock = none) (java : inJava (s.threads j)) :
    ∃ s', forkChild s j = some s' := by
  have live : ∀ p ∈ abandoned s, ∃ r, s.reqAt p.addr = some r := by
    intro p inside
    obtain ⟨place, -, held⟩ := mem_abandoned.mp inside
    obtain ⟨r, read, -⟩ := held_live cust alloc held
    exact ⟨r, read⟩
  have ran : ∃ left, destroyAll (abandoned s) (copied s j) = some left :=
    destroyAll_isSome live (abandoned_nodup cust alloc)
  obtain ⟨left, ran⟩ := ran
  have same : abandoned (copied s j) = abandoned s := rfl
  rw [forkChild, if_pos ⟨unlocked, java⟩, etpAtforkChild_eq, same, ran]
  exact ⟨_, rfl⟩

/-- At every reachable state at which no thread is in the section under `reslock`,
`fork()` in Java code succeeds in the child: no request is destroyed twice. -/
theorem fork_destroys_once {j : J} (h : Reachable (eventLoop J) s) (unlocked : s.reslock = none)
    (java : inJava (s.threads j)) : ∃ s', forkChild s j = some s' ∧ Child s s' j := by
  obtain ⟨s', forked⟩ := forkChild_isSome (inCustody h) (allocated h) unlocked java
  exact ⟨s', forked, forkChild_child (inCustody h) forked⟩

/-- One request waits, one is executing and one has finished. -/
def threeRequests : List (Action Unit) :=
  [.submit () 0 none 16 32 0] ++ List.replicate 7 (.go () {}) ++ [.go () { ref := 1 }, .go () {}] ++
    List.replicate 6 (.worker 0 {}) ++
    [.submit () 0 none 48 64 0] ++ List.replicate 5 (.go () {}) ++ [.go () { ref := 2 }, .go () {}] ++
    [.worker 0 {}] ++
    [.submit () 0 none 80 96 0] ++ List.replicate 7 (.go () {}) ++ [.go () { ref := 3 }, .go () {}]

theorem fork_destroys_once_three : ∃ s s', (eventLoop Unit).run start threeRequests = some s ∧
    s.tickets.map Ticket.place = [.resQueue, .worker 0 .running, .reqQueue] ∧
    forkChild s () = some s' ∧ Child s s' () := by
  have reached : Reachable (eventLoop Unit) _ := reachable_run threeRequests .start rfl
  obtain ⟨s', forked, child⟩ := fork_destroys_once (j := ()) reached rfl rfl
  exact ⟨_, s', rfl, rfl, forked, child⟩

/-! ### Runs with any number of forks -/

section
variable {s s' : State Unit}

omit [DecidableEq J] in
theorem child_recorded {s s' : State J} {j : J} (child : Child s s' j) (p : Ptr) :
    recorded s' p = (recorded s p).filter fun place => !inLibrary place := by
  unfold recorded
  rw [child.tickets p.id]
  cases s.tickets[p.id]? with
  | none => rfl
  | some t =>
    simp only [Option.map_some, Option.bind_some]
    obtain ⟨owner, callback, req, data, submit, place, outcome, upcalls⟩ := t
    by_cases own : req = p.addr
    · cases place <;> simp only [own, inLibrary, Bool.false_eq_true, if_true, if_false] <;> rfl
    · cases place <;> simp only [own, inLibrary, Bool.false_eq_true, if_true, if_false] <;> rfl

theorem child_inCustody (cust : InCustody s) (child : Child s s' ()) : InCustody s' := by
  obtain ⟨reqs, ress, workers⟩ := child.queues
  refine ⟨fun slot p => ?_, by rw [reqs]; exact .nil, by rw [ress]; exact .nil⟩
  rw [child_recorded child, Option.filter_eq_some_iff]
  cases slot with
  | frame j h k =>
    rw [Held, show s'.threads j = s.threads j from child.stack]
    have agrees : cellAt frameHolds (s.threads j) h = some (p, k) ↔
        recorded s p = some (.frame j h k) := cust.agrees (.frame j h k) p
    simpa [inLibrary] using agrees
  | reqQueue => simp [Held, reqs, inLibrary, ReqQueue.toList, ReqQueue.empty]
  | worker w k => simp [Held, workers, inLibrary, crewHolds]
  | resQueue => simp [Held, ress, inLibrary, ReqQueue.toList, ReqQueue.empty]
  | gone =>
    have never : ¬ recorded s p = some .gone := fun there => (cust.agrees .gone p).mpr there
    simp [Held, never]

/-- The thread in Java code has no request that counts. -/
theorem child_counted (stacked : Stacked (s.threads ())) (cust : InCustody s)
    (java : inJava (s.threads ())) (child : Child s s' ()) : Counted s' := by
  have landed : s'.tickets.countP inFlight = 0 := by
    refine List.countP_eq_zero.mpr fun t member => ?_
    obtain ⟨id, found⟩ := List.mem_iff_getElem?.mp member
    have cust' := child_inCustody cust child
    cases place : t.place with
    | frame j h k =>
      have held := cust'.held found (by simp [place])
      rw [place, Held, show s'.threads j = s.threads j from child.stack] at held
      obtain ⟨f, inside, said⟩ := cellAt_mem frameHolds held
      have waits : suspended f := by
        generalize s.threads () = stack at java stacked inside
        cases stack with
        | nil => cases inside
        | cons g rest =>
          rcases List.mem_cons.mp inside with rfl | below
          · cases f <;> first | rfl | cases java
          · exact stacked.suspended f below
      obtain ⟨-, rfl⟩ := suspended_holds waits said
      simp [inFlight, place, progress]
    | reqQueue | worker | resQueue =>
      have held := cust'.held found (by simp [place])
      obtain ⟨reqs, ress, workers⟩ := child.queues
      rw [place] at held
      simp [Held, reqs, ress, workers, ReqQueue.toList, ReqQueue.empty, crewHolds] at held
    | gone => simp [inFlight, place, progress]
  rw [Counted, child.counters.1, Lib.Tally.Tallies, landed]
  rfl

structure Kept (s : State Unit) : Prop where
  stacked : Stacked (s.threads ())
  cust : InCustody s
  counted : Counted s

theorem kept_forking (h : Reachable forking s) : Kept s := by
  refine h.invariant ⟨trivial, inCustody_start, Lib.Tally.tallies_nil⟩ fun s a s' kept _ taken => ?_
  cases a with
  | some a =>
    have step := step_transition taken
    have stacked := transition_stacked step fun _ => kept.stacked
    exact ⟨stacked (), transition_inCustody kept.cust step,
      transition_counted kept.cust kept.counted step⟩
  | none =>
    have child := forkChild_child kept.cust taken
    have java := (forkChild_guards taken).2
    refine ⟨?_, child_inCustody kept.cust child, child_counted kept.stacked kept.cust java child⟩
    rw [child.stack]
    exact kept.stacked

/-- Every request that is not freed is held where its history says, by nobody else, and
`numRequests()` counts those queued, executing or finished. -/
structure Accounted (s : State Unit) : Prop where
  held : ∀ (id : ReqId) t, s.tickets[id]? = some t → t.place ≠ .gone → Held s t.place ⟨t.req, id⟩
  once : ∀ p place place', Held s place p → Held s place' p → place = place'
  known : ∀ p place, Held s place p →
    ∃ t, s.tickets[p.id]? = some t ∧ t.req = p.addr ∧ t.place = place
  numRequests : 2 * s.tickets.countP inFlight < 2 ^ 32 →
    numRequests s = s.tickets.countP inFlight

theorem forks_account (h : Reachable forking s) : Accounted s := by
  have kept := kept_forking h
  exact ⟨fun _ _ => kept.cust.held, fun _ _ _ => kept.cust.agrees.unique,
    fun _ _ => kept.cust.ticket, fun fits => kept.counted.toInt fits⟩

/-- A run without forks. -/
theorem forking_of_eventLoop (h : Reachable (eventLoop Unit) s) : Reachable forking s := by
  induction h with
  | start => exact .start
  | next _ _ taken ih => exact .next (a := some _) ih trivial taken

theorem forks_account_three : ∃ s s', (eventLoop Unit).run start threeRequests = some s ∧
    forkChild s () = some s' ∧ Accounted s' := by
  have reached : Reachable (eventLoop Unit) _ := reachable_run threeRequests .start rfl
  obtain ⟨s', forked⟩ := forkChild_isSome (j := ()) (inCustody reached) (allocated reached) rfl rfl
  exact ⟨_, s', rfl, forked,
    forks_account (.next (a := none) (forking_of_eventLoop reached) trivial forked)⟩

end

end WebbitAsyncio.Guarantees.ForkSafety
