import WebbitAsyncio.Lib.Refinement
import WebbitAsyncio.Source.EtpPoll
import WebbitAsyncio.Source.Transitions

/-!
# A call of `etp_poll` among the steps of the event loop

In `EtpPoll` a call is one recursion; in `EventLoop` it is a frame, whose steps
interleave with those of workers, other threads and callbacks. As long as no other call
takes a finished request, the frame does what the recursion does in the surroundings
that the interleaving makes for it: first for the steps seen of a call, by induction on
what is still to be seen, then for the event loop, each of whose steps is seen as one of
them or changes nothing in the call.
-/
namespace WebbitAsyncio.Invariants.PollCall
open WebbitAsyncio.Lib.TransitionSystem WebbitAsyncio.Lib.Refinement
open WebbitAsyncio.Source.EventLoop WebbitAsyncio.Source.EtpPoll
open WebbitAsyncio.Source.Reqq (numPri)

/-- What a call sees of a step: a worker's `reqq_push`, the section of `etp_submit`, and
of its own steps the `reqq_shift`, `--nreqs` and what `completion_callback` leaves in the
return register. -/
inductive Event where
  | finished (pri : Fin numPri) (p : Ptr)
  | submitted
  | look (taken : Option Ptr)
  | counted
  | value (res : BitVec 32)
  deriving DecidableEq, Repr

/-- Where a call stands: a request taken and perhaps counted off, a value handed back
(0 at its entry), or the queue seen empty. -/
inductive Phase where
  | taken (counted : Bool)
  | handed (res : BitVec 32)
  | empty
  deriving DecidableEq, Repr

/-- What a call returns with when it takes its next step, if it does. -/
def Phase.returning : Phase → Option (BitVec 32)
  | .taken _ => none
  | .handed res => if res = 0 then none else some res
  | .empty => some 0

/-- One more request has been submitted. -/
def more (r : Results) : Results := { r with nreqs := r.nreqs + 1 }

/-- One request has been counted off. -/
def fewer (r : Results) : Results := { r with nreqs := r.nreqs - 1 }

/-- The steps of a call, and of others while no other call takes a request. -/
inductive Step : Phase × Results → Event → Phase × Results → Prop where
  | finished {at_ : Phase} {r : Results} {pri : Fin numPri} {p : Ptr} :
      Step (at_, r) (.finished pri p) (at_, receive r [(pri, p)])
  | submitted {at_ : Phase} {r : Results} : Step (at_, r) .submitted (at_, more r)
  | empty {r : Results} : r.resQueue.shift = none →
      Step (.handed 0, r) (.look none) (.empty, r)
  | took {r : Results} {p : Ptr} {queue : ReqQueue} : r.resQueue.shift = some (p, queue) →
      Step (.handed 0, r) (.look (some p))
        (.taken false, { r with resQueue := queue, npending := r.npending - 1 })
  | counted {r : Results} : Step (.taken false, r) .counted (.taken true, fewer r)
  | value {r : Results} {res : BitVec 32} : Step (.taken true, r) (.value res) (.handed res, r)

/-! ### The surroundings that events make -/

/-- What the workers finish before the `n`-th look from now. -/
def finishedIn : List Event → Nat → List (Fin numPri × Ptr)
  | [], _ => []
  | .finished pri p :: events, 0 => (pri, p) :: finishedIn events 0
  | .look _ :: _, 0 => []
  | .look _ :: events, n + 1 => finishedIn events n
  | _ :: events, n => finishedIn events n

/-- The `n`-th value from now. -/
def valueIn : List Event → Nat → BitVec 32
  | [], _ => 0
  | .value res :: _, 0 => res
  | .value _ :: events, n + 1 => valueIn events n
  | _ :: events, n => valueIn events n

def Event.taken : Event → Option Ptr
  | .look taken => taken
  | _ => none

def takenIn (events : List Event) : List Ptr := events.filterMap Event.taken

def submittedIn : List Event → UInt
  | [] => 0
  | .submitted :: events => submittedIn events + 1
  | _ :: events => submittedIn events

/-- What surrounds a call that looks next, after `values` more values. -/
def around (events : List Event) (values : Nat) : Surroundings where
  finished := finishedIn events
  value := fun n => valueIn events (n + values)
  elapsed := fun _ => 0

/-- The results with what is submitted in the events. -/
def counting (events : List Event) (r : Results) : Results :=
  { r with nreqs := r.nreqs + submittedIn events }

/-- The results at the return of a call that has ended so: with what was finished after
its last look and submitted meanwhile. -/
def leftBy (events : List Event) (ended : Ended) : Results :=
  counting events (receive ended.results
    (finishedIn events (ended.completed.length + ended.sawEmpty.toNat)))

/-! ### What a call still does -/

/-- Surroundings from the next pass on. -/
def afterPass (around : Surroundings) : Surroundings :=
  ⟨fun n => around.finished (n + 1), fun n => around.value (n + 1), fun n => around.elapsed (n + 1)⟩

/-- The loop goes on unless a value other than 0 is handed on. -/
def resume (res : BitVec 32) (around : Surroundings) (r : Results) (fuel : Nat) : Option Ended :=
  if res = 0 then etpPoll around 0 fuel 0 0 r else some ⟨res, [], false, r⟩

/-- The rest of the call, in terms of `etpPoll`. -/
def remaining : Phase → List Event → Results → Nat → Option Ended
  | .handed res, events, r => resume res (around events 0) r
  | .taken true, events, r => resume (valueIn events 0) (around events 1) r
  | .taken false, events, r => resume (valueIn events 0) (around events 1) (fewer r)
  | .empty, _, r => fun _ => some ⟨0, [], false, r⟩

/-- `run` ends, returns `res`, completes what is taken in the events, and leaves `last`. -/
def Ends (events : List Event) (res : BitVec 32) (last : Results) (run : Nat → Option Ended) :
    Prop :=
  ∃ fuel ended, run fuel = some ended ∧ ended.returned = res ∧ ended.completed = takenIn events ∧
    last = leftBy events ended

theorem etpPoll_afterPass (around : Surroundings) (fuel pass : Nat) (r : Results) :
    etpPoll around 0 fuel (pass + 1) 0 r = etpPoll (afterPass around) 0 fuel pass 0 r := by
  induction fuel generalizing pass r with
  | zero => rfl
  | succ fuel ih =>
    rw [etpPoll_pass, etpPoll_pass]
    simp only [ih]
    rfl

/-- The first pass, and what follows it. -/
theorem etpPoll_first (around : Surroundings) (fuel : Nat) (r : Results) :
    etpPoll around 0 (fuel + 1) 0 0 r =
      match (receive r (around.finished 0)).resQueue.shift with
      | none => some ⟨0, [], true, receive r (around.finished 0)⟩
      | some (req, queue) =>
        (resume (around.value 0) (afterPass around)
          (without (receive r (around.finished 0)) queue) fuel).map fun ended =>
            { ended with completed := req :: ended.completed } := by
  rw [etpPoll_pass]
  cases shifted : (receive r (around.finished 0)).resQueue.shift with
  | none => rfl
  | some entry =>
    obtain ⟨req, queue⟩ := entry
    unfold resume
    by_cases zero : around.value 0 = 0
    · simp only [zero, ne_eq, not_true_eq_false, if_false, if_true, etpPoll_afterPass]
    · simp only [zero, ne_eq, not_false_eq_true, if_false, if_true, Option.map_some]

/-- A call that returns from `etpPoll` has looked. -/
theorem looked {around : Surroundings} {fuel : Nat} {r : Results} {ended : Ended}
    (ran : etpPoll around 0 fuel 0 0 r = some ended) :
    0 < ended.completed.length + ended.sawEmpty.toNat := by
  cases fuel with
  | zero => cases ran
  | succ fuel =>
    rw [etpPoll_first] at ran
    split at ran
    next =>
      obtain rfl := Option.some.inj ran
      exact Nat.one_pos
    next =>
      obtain ⟨later, _, rfl⟩ := Option.map_eq_some_iff.mp ran
      rw [List.length_cons]
      omega

theorem receive_nil (r : Results) : receive r [] = r := by simp [receive]

theorem receive_cons (r : Results) (entry : Fin numPri × Ptr) (later : List (Fin numPri × Ptr)) :
    receive r (entry :: later) = receive (receive r [entry]) later := by
  simp only [receive, List.foldl_cons, List.foldl_nil, List.length_cons, List.length_nil,
    BitVec.ofNat_add, Results.mk.injEq, true_and, and_true]
  rw [BitVec.add_assoc, BitVec.add_comm (BitVec.ofNat 32 later.length)]
  simp

/-! ### Events while the call is somewhere -/

theorem fewer_more (r : Results) : fewer (more r) = more (fewer r) := by
  simp only [fewer, more, Results.mk.injEq, true_and]
  bv_omega

theorem without_more (r : Results) (queue : ReqQueue) :
    without (more r) queue = more (without r queue) := by
  simp only [without, more, Results.mk.injEq, true_and]
  bv_omega

theorem leftBy_more (events : List Event) (ended : Ended) :
    leftBy events { ended with results := more ended.results } =
      leftBy (.submitted :: events) ended := by
  simp only [leftBy, counting, receive, more, submittedIn, finishedIn, Results.mk.injEq, true_and]
  bv_omega

section
variable {events : List Event} {ended : Ended} {pri : Fin numPri} {p : Ptr}

theorem leftBy_finished (looked : 0 < ended.completed.length + ended.sawEmpty.toNat) :
    leftBy (.finished pri p :: events) ended = leftBy events ended := by
  obtain ⟨n, passes⟩ := Nat.exists_eq_succ_of_ne_zero (Nat.ne_of_gt looked)
  unfold leftBy
  rw [passes]
  rfl

theorem etpPoll_finished (values fuel : Nat) (r : Results) :
    etpPoll (around (.finished pri p :: events) values) 0 fuel 0 0 r =
      etpPoll (around events values) 0 fuel 0 0 (receive r [(pri, p)]) := by
  cases fuel with
  | zero => rfl
  | succ fuel =>
    have arrived : receive r ((around (.finished pri p :: events) values).finished 0) =
        receive (receive r [(pri, p)]) ((around events values).finished 0) := receive_cons ..
    rw [etpPoll_first, etpPoll_first, arrived]
    rfl

/-- A call that has looked for the last time leaves what is there at its return. -/
theorem ends_stopped {res v : BitVec 32} {r last : Results} :
    Ends events res last (fun _ => some ⟨v, [], false, r⟩) ↔
      v = res ∧ takenIn events = [] ∧ last = counting events (receive r (finishedIn events 0)) := by
  constructor
  · rintro ⟨fuel, ended, ran, returned, completed, left⟩
    obtain rfl := Option.some.inj ran
    exact ⟨returned, completed.symm, left⟩
  · rintro ⟨returned, nothing, left⟩
    exact ⟨0, _, rfl, returned, nothing.symm, left⟩

theorem stopped_finished {res v : BitVec 32} {r last : Results}
    (ends : Ends events res last (fun _ => some ⟨v, [], false, receive r [(pri, p)]⟩)) :
    Ends (.finished pri p :: events) res last (fun _ => some ⟨v, [], false, r⟩) := by
  rw [ends_stopped, ← receive_cons] at ends
  exact ends_stopped.mpr ends

theorem stopped_submitted {res v : BitVec 32} {r last : Results}
    (ends : Ends events res last (fun _ => some ⟨v, [], false, more r⟩)) :
    Ends (.submitted :: events) res last (fun _ => some ⟨v, [], false, r⟩) := by
  obtain ⟨returned, nothing, left⟩ := ends_stopped.mp ends
  exact ends_stopped.mpr ⟨returned, nothing, left.trans (leftBy_more events ⟨v, [], false, r⟩)⟩

theorem resume_zero (surroundings : Surroundings) (r : Results) :
    resume 0 surroundings r = fun fuel => etpPoll surroundings 0 fuel 0 0 r := rfl

theorem resume_other {v : BitVec 32} (other : v ≠ 0) (surroundings : Surroundings) (r : Results) :
    resume v surroundings r = fun _ => some ⟨v, [], false, r⟩ := by
  funext fuel
  rw [resume, if_neg other]

/-- A request finished before the next look, or after the last, is in the results. -/
theorem resume_finished {res v : BitVec 32} {values : Nat} {r last : Results}
    (ends : Ends events res last (resume v (around events values) (receive r [(pri, p)]))) :
    Ends (.finished pri p :: events) res last
      (resume v (around (.finished pri p :: events) values) r) := by
  by_cases zero : v = 0
  · subst zero
    rw [resume_zero] at ends ⊢
    obtain ⟨fuel, ended, ran, returned, completed, left⟩ := ends
    refine ⟨fuel, ended, (etpPoll_finished ..).trans ran, returned, completed, ?_⟩
    rw [leftBy_finished (looked ran)]
    exact left
  · rw [resume_other zero] at ends ⊢
    exact stopped_finished ends

theorem etpPoll_submitted (surroundings : Surroundings) (fuel pass : Nat) (r : Results) :
    etpPoll surroundings 0 fuel pass 0 (more r) =
      (etpPoll surroundings 0 fuel pass 0 r).map fun ended =>
        { ended with results := more ended.results } := by
  induction fuel generalizing pass r with
  | zero => rfl
  | succ fuel ih =>
    have same (later : List (Fin numPri × Ptr)) :
        receive (more r) later = more (receive r later) := rfl
    rw [etpPoll_pass, etpPoll_pass, same]
    have queue : (more (receive r (surroundings.finished pass))).resQueue =
        (receive r (surroundings.finished pass)).resQueue := rfl
    rw [queue]
    cases (receive r (surroundings.finished pass)).resQueue.shift with
    | none => rfl
    | some entry =>
      obtain ⟨req, left⟩ := entry
      simp only [without_more]
      by_cases zero : surroundings.value pass = 0
      · simp only [zero, ne_eq, not_true_eq_false, if_false, ih, Option.map_map]
        rfl
      · simp only [zero, ne_eq, not_false_eq_true, if_true, Option.map_some]

theorem resume_submitted {res v : BitVec 32} {values : Nat} {r last : Results}
    (ends : Ends events res last (resume v (around events values) (more r))) :
    Ends (.submitted :: events) res last (resume v (around (.submitted :: events) values) r) := by
  by_cases zero : v = 0
  · subst zero
    rw [resume_zero] at ends ⊢
    obtain ⟨fuel, ended', ran, returned, completed, left⟩ := ends
    simp only [etpPoll_submitted, Option.map_eq_some_iff] at ran
    obtain ⟨ended, ran, rfl⟩ := ran
    exact ⟨fuel, ended, ran, returned, completed, left.trans (leftBy_more events ended)⟩
  · rw [resume_other zero] at ends ⊢
    exact stopped_submitted ends

end

/-! ### The steps of a call and `etpPoll` -/

/-- What remains before a step is the step, and then what remains after it. -/
theorem Step.ends {events : List Event} {before after : Phase × Results} {e : Event}
    {res : BitVec 32} {last : Results} (step : Step before e after)
    (ends : Ends events res last (remaining after.1 events after.2)) :
    Ends (e :: events) res last (remaining before.1 (e :: events) before.2) := by
  cases step with
  | @finished at_ r pri p =>
    cases at_ with
    | taken counted =>
      cases counted with
      | false => exact resume_finished ends
      | true => exact resume_finished ends
    | handed v => exact resume_finished ends
    | empty => exact stopped_finished ends
  | @submitted at_ r =>
    cases at_ with
    | taken counted =>
      cases counted with
      | false =>
        rw [remaining, fewer_more] at ends
        exact resume_submitted ends
      | true => exact resume_submitted ends
    | handed v => exact resume_submitted ends
    | empty => exact stopped_submitted ends
  | @empty r nothing =>
    obtain ⟨returned, completed, left⟩ := ends_stopped.mp ends
    refine ⟨1, ⟨0, [], true, r⟩, ?_, returned, completed.symm, left⟩
    have here : receive r ((around (.look none :: events) 0).finished 0) = r := receive_nil r
    refine (etpPoll_first (around (.look none :: events) 0) 0 r).trans ?_
    rw [here, nothing]
  | @took r p queue shifted =>
    obtain ⟨fuel, ended, ran, returned, completed, left⟩ := ends
    refine ⟨fuel + 1, { ended with completed := p :: ended.completed }, ?_, returned, ?_, ?_⟩
    · have here : receive r ((around (.look (some p) :: events) 0).finished 0) = r := receive_nil r
      refine (etpPoll_first (around (.look (some p) :: events) 0) fuel r).trans ?_
      rw [here, shifted]
      exact Option.map_eq_some_iff.mpr ⟨ended, ran, rfl⟩
    · rw [completed]
      rfl
    · rw [left, leftBy, leftBy, List.length_cons, Nat.add_right_comm]
      rfl
  | counted => exact ends
  | value => exact ends

/-! ### The call in the event loop -/

def phase : PollPc → Phase
  | .loop | .lockRes | .shift => .handed 0
  | .donePoll _ | .unlockRes (some _) | .decReqs _ => .taken false
  | .complete _ | .upcall _ | .unref _ | .freeData _ => .taken true
  | .destroy _ res => .handed res
  | .unlockRes none => .empty

section
variable {J : Type}

def resultsOf (s : State J) : Results := ⟨s.resQueue, s.npending, s.nreqs⟩

/-- The call of thread `j` above `rest` stands at `pc`. -/
def At (j : J) (rest : List Frame) (s : State J) (pc : PollPc) : Prop :=
  ∃ above, s.threads j = above ++ .poll pc :: rest

def isPoll : Frame → Bool
  | .poll _ => true
  | _ => false

/-- Whether the next step of a call shifts a request or counts one off. -/
def takes (s : State J) : PollPc → Bool
  | .shift => s.resQueue.shift.isSome
  | .decReqs _ => true
  | _ => false

variable [DecidableEq J]

/-- What the call of thread `j` above `rest` sees of a step. -/
def see (j : J) (rest : List Frame) (s : State J) : Action J → Option Event
  | .go i c =>
    match s.threads i with
    | .submit .enqueue _ _ :: _ => some .submitted
    | .poll .shift :: below =>
      if i = j ∧ below = rest then some (.look (s.resQueue.shift.map Prod.fst)) else none
    | .poll (.decReqs _) :: below => if i = j ∧ below = rest then some .counted else none
    | .poll (.freeData _) :: below => if i = j ∧ below = rest then some (.value c.value) else none
    | _ => none
  | .worker w _ =>
    match s.workers[w]? with
    | some (.push p) => (s.reqAt p.addr).map fun r => .finished r.pri p
    | _ => none
  | _ => none

/-- The call does not return, and no other takes a request or counts one off. -/
def undisturbed (j : J) (rest : List Frame) (s : State J) : Action J → Bool
  | .go i _ =>
    match s.threads i with
    | .poll pc :: below =>
      if i = j ∧ below = rest then (phase pc).returning.isNone else !takes s pc
    | _ => true
  | _ => true

end

/-! ### Where the call stands after a step -/

section
variable {J : Type} {j i : J} {s s' : State J} {rest below : List Frame} {pc : PollPc}

/-- The call's frame is on top. -/
theorem At.top {f : Frame} (there : At j rest s pc) (top : s.threads j = f :: rest) :
    f = .poll pc := by
  obtain ⟨above, stack⟩ := there
  rw [top] at stack
  cases above with
  | nil => exact (List.cons.inj stack).1
  | cons g above =>
    have lengths := congrArg List.length stack
    simp only [List.length_cons, List.length_append, List.cons_append] at lengths
    omega

theorem At.same (there : At j rest s pc) (threads : s'.threads = s.threads) : At j rest s' pc := by
  unfold At
  rw [threads]
  exact there

variable [DecidableEq J]

theorem At.pushed (there : At j rest s pc) (new : List Frame)
    (threads : s'.threads = Function.update s.threads i (new ++ s.threads i)) :
    At j rest s' pc := by
  unfold At
  rw [threads]
  obtain ⟨above, stack⟩ := there
  by_cases same : j = i
  · subst same
    rw [Function.update_self, stack]
    exact ⟨new ++ above, (List.append_assoc ..).symm⟩
  · rw [Function.update_of_ne same]
    exact ⟨above, stack⟩

/-- Another frame has taken a step. -/
theorem At.carried {f : Frame} (there : At j rest s pc) (new : List Frame)
    (top : s.threads i = f :: below)
    (threads : s'.threads = Function.update s.threads i (new ++ below))
    (other : ¬ (i = j ∧ below = rest) ∨ isPoll f = false) : At j rest s' pc := by
  unfold At
  rw [threads]
  obtain ⟨above, stack⟩ := there
  by_cases same : j = i
  · subst same
    rw [Function.update_self]
    rw [top] at stack
    cases above with
    | nil =>
      obtain ⟨rfl, rfl⟩ := List.cons.inj stack
      rcases other with different | notPoll
      · exact absurd ⟨rfl, rfl⟩ different
      · cases notPoll
    | cons g above =>
      obtain ⟨rfl, rfl⟩ := List.cons.inj stack
      exact ⟨new ++ above, (List.append_assoc ..).symm⟩
  · rw [Function.update_of_ne same]
    exact ⟨above, stack⟩

/-- A call has taken a step, this one or another. -/
theorem At.moved {old now : PollPc} (there : At j rest s pc) (new : List Frame)
    (top : s.threads i = .poll old :: below)
    (threads : s'.threads = Function.update s.threads i (new ++ .poll now :: below))
    (same : phase now = phase old) : ∃ pc', At j rest s' pc' ∧ phase pc' = phase pc := by
  by_cases own : i = j ∧ below = rest
  · obtain ⟨rfl, rfl⟩ := own
    obtain rfl := Frame.poll.inj (there.top top)
    exact ⟨now, ⟨new, by rw [threads, Function.update_self]⟩, same⟩
  · have carried : At j rest s' pc := there.carried (new ++ [.poll now]) top
      (by rw [threads, List.append_assoc]; rfl) (Or.inl own)
    exact ⟨pc, carried, rfl⟩

theorem control_at {stack : List Frame} (there : At j rest s pc)
    (change : Control s (s.threads i) stack)
    (threads : s'.threads = Function.update s.threads i stack) :
    ∃ pc', At j rest s' pc' ∧ phase pc' = phase pc := by
  generalize top : s.threads i = old at change
  cases change with
  | @enter _ f =>
    exact ⟨pc, there.pushed [f] (by rw [threads, top]; rfl), rfl⟩
  | loop => exact there.moved [.start .checkWanted] top threads rfl
  | ret | enough | served | readable | flushed =>
    exact ⟨pc, there.carried [] top threads (Or.inr rfl), rfl⟩
  | below | readThreads | readPending | short =>
    exact ⟨pc, there.carried [.start _] top threads (Or.inr rfl), rfl⟩
  | flushing | callPoll =>
    exact ⟨pc, there.carried [_, _] top threads (Or.inr rfl), rfl⟩

/-- Whatever the call does not see changes nothing in it. -/
theorem unseen_step {a : Action J} (there : At j rest s pc)
    (allowed : undisturbed j rest s a = true) (step : Transition s a s')
    (unseen : see j rest s a = none) :
    ∃ pc', At j rest s' pc' ∧ phase pc' = phase pc ∧ resultsOf s' = resultsOf s := by
  have still (same : ∃ pc', At j rest s' pc' ∧ phase pc' = phase pc)
      (results : resultsOf s' = resultsOf s) :
      ∃ pc', At j rest s' pc' ∧ phase pc' = phase pc ∧ resultsOf s' = resultsOf s := by
    obtain ⟨pc', there', same⟩ := same
    exact ⟨pc', there', same, results⟩
  cases step with
  | submit =>
    exact still ⟨pc, there.pushed [.submit .enqueue _ _] rfl, rfl⟩ rfl
  | control change =>
    exact still (control_at there change rfl) rfl
  | enqueue top =>
    simp [see, top] at unseen
  | wrap top =>
    exact still ⟨pc, there.carried [.submit .readBack _ _] top rfl (Or.inr rfl), rfl⟩ rfl
  | readBack top | count top =>
    exact still ⟨pc, there.carried [] top rfl (Or.inr rfl), rfl⟩ rfl
  | spawn top =>
    exact still ⟨pc, there.carried [.start .count] top rfl (Or.inr rfl), rfl⟩ rfl
  | pollLock top | donePoll top | unlockTook top | complete top | noCallback top | unref top =>
    exact still (there.moved [] top rfl rfl) rfl
  | upcall top =>
    exact still (there.moved [.callback _] top rfl rfl) rfl
  | @shiftEmpty i c below top =>
    have other : ¬ (i = j ∧ below = rest) := by
      rintro ⟨rfl, rfl⟩
      simp [see, top] at unseen
    exact still ⟨pc, there.carried [.poll _] top rfl (Or.inl other), rfl⟩ rfl
  | @freeData i c below p r top =>
    have other : ¬ (i = j ∧ below = rest) := by
      rintro ⟨rfl, rfl⟩
      simp [see, top] at unseen
    exact still ⟨pc, there.carried [.poll _] top rfl (Or.inl other), rfl⟩ rfl
  | @unlockEmpty i c below top =>
    have other : ¬ (i = j ∧ below = rest) := by
      rintro ⟨rfl, rfl⟩
      simp [undisturbed, top, phase, Phase.returning] at allowed
    exact still ⟨pc, there.carried [] top rfl (Or.inl other), rfl⟩ rfl
  | @shiftTook i c below p queue top took =>
    by_cases own : i = j ∧ below = rest
    · obtain ⟨rfl, rfl⟩ := own
      simp [see, top] at unseen
    · simp [undisturbed, top, own, takes, took] at allowed
  | @decReqs i c below p top =>
    by_cases own : i = j ∧ below = rest
    · obtain ⟨rfl, rfl⟩ := own
      simp [see, top] at unseen
    · simp [undisturbed, top, own, takes] at allowed
  | @destroy i c below p res top =>
    by_cases zero : res = 0
    · subst zero
      exact still (there.moved [] top rfl rfl) rfl
    · have other : ¬ (i = j ∧ below = rest) := by
        rintro ⟨rfl, rfl⟩
        simp [undisturbed, top, phase, Phase.returning] at allowed
        exact zero allowed
      refine still ⟨pc, there.carried [] top ?_ (Or.inl other), rfl⟩ rfl
      rw [if_neg zero]
      rfl
  | idling | workerTake | exec | workerLock | wantPoll | workerUnlock | quit =>
    exact still ⟨pc, there.same rfl, rfl⟩ rfl
  | push found read =>
    simp [see, found, read] at unseen

omit [DecidableEq J] in
theorem phase_taken (queue : ReqQueue) (p : Ptr) :
    phase (if queue.size = 0 then .donePoll p else .unlockRes (some p)) = .taken false := by
  split
  next => rfl
  next => rfl

/-- What the call sees is a step of it, or one that concerns it. -/
theorem seen_step {a : Action J} {e : Event} (there : At j rest s pc)
    (taken : step s a = some s') (saw : see j rest s a = some e) :
    ∃ pc', At j rest s' pc' ∧ Step (phase pc, resultsOf s) e (phase pc', resultsOf s') := by
  cases a with
  | go i c =>
    simp only [see] at saw
    split at saw
    next p data below top =>
      obtain rfl := Option.some.inj saw
      simp only [step, goThread, top, goSubmit, etpSubmit, Option.map_eq_some_iff,
        Option.bind_eq_some_iff] at taken
      obtain ⟨queued, ⟨r, read, woke⟩, rfl⟩ := taken
      obtain ⟨workers, _, rfl⟩ := signal_cases woke
      exact ⟨pc, there.carried [_, _] top rfl (Or.inr rfl), .submitted⟩
    next below top =>
      simp only [Option.ite_none_right_eq_some, Option.some.injEq] at saw
      obtain ⟨⟨rfl, rfl⟩, rfl⟩ := saw
      obtain rfl := Frame.poll.inj (there.top top)
      simp only [step, goThread, top, goPoll] at taken
      cases looked : s.resQueue.shift with
      | none =>
        rw [looked] at taken
        obtain rfl := Option.some.inj taken
        exact ⟨.unlockRes none, ⟨[], Function.update_self ..⟩, .empty looked⟩
      | some entry =>
        obtain ⟨p, queue⟩ := entry
        rw [looked] at taken
        obtain rfl := Option.some.inj taken
        refine ⟨if queue.size = 0 then .donePoll p else .unlockRes (some p),
          ⟨[], Function.update_self ..⟩, ?_⟩
        rw [phase_taken]
        exact .took looked
    next p below top =>
      simp only [Option.ite_none_right_eq_some, Option.some.injEq] at saw
      obtain ⟨⟨rfl, rfl⟩, rfl⟩ := saw
      obtain rfl := Frame.poll.inj (there.top top)
      simp only [step, goThread, top, goPoll, Option.some.injEq] at taken
      subst taken
      exact ⟨.complete p, ⟨[], Function.update_self ..⟩, .counted⟩
    next p below top =>
      simp only [Option.ite_none_right_eq_some, Option.some.injEq] at saw
      obtain ⟨⟨rfl, rfl⟩, rfl⟩ := saw
      obtain rfl := Frame.poll.inj (there.top top)
      simp only [step, goThread, top, goPoll, Option.map_eq_some_iff] at taken
      obtain ⟨r, read, rfl⟩ := taken
      exact ⟨.destroy p c.value, ⟨[], Function.update_self ..⟩, .value⟩
    next => cases saw
  | worker w c =>
    simp only [see] at saw
    split at saw
    next p found =>
      obtain ⟨r, read, rfl⟩ := Option.map_eq_some_iff.mp saw
      simp only [step, found, Option.bind_some, goWorker, read, Option.map_some,
        Option.some.injEq] at taken
      subst taken
      exact ⟨pc, there.same rfl, .finished⟩
    next => cases saw
  | submit | poll | block | flush | ret | timeout | spurious => cases saw

/-! ### A whole call -/

omit [DecidableEq J] in
theorem returning_ends {at_ : Phase} {res : BitVec 32} (returns : at_.returning = some res)
    (r : Results) : Ends [] res r (remaining at_ [] r) := by
  have left : r = counting [] (receive r (finishedIn [] 0)) := by
    simp [counting, finishedIn, receive_nil, submittedIn]
  cases at_ with
  | taken counted => cases returns
  | handed v =>
    simp only [Phase.returning, Option.ite_none_left_eq_some, Option.some.injEq] at returns
    obtain ⟨other, rfl⟩ := returns
    rw [remaining, resume_other other]
    exact ends_stopped.mpr ⟨rfl, rfl, left⟩
  | empty => exact ends_stopped.mpr ⟨Option.some.inj returns, rfl, left⟩

/-- What remains of a call, from any of its steps to its return. -/
theorem call_ends {now : PollPc} {res : BitVec 32} (as : List (Action J)) :
    ∀ {s : State J} {pc : PollPc}, At j rest s pc →
      (eventLoop J).runIf (undisturbed j rest) s as = some s' →
      s'.threads j = .poll now :: rest → (phase now).returning = some res →
      Ends (observe (eventLoop J) (see j rest) s as) res (resultsOf s')
        (remaining (phase pc) (observe (eventLoop J) (see j rest) s as) (resultsOf s)) := by
  induction as with
  | nil =>
    intro s pc there ran top returns
    obtain rfl := Option.some.inj ran
    obtain rfl := Frame.poll.inj (there.top top)
    exact returning_ends returns _
  | cons a as ih =>
    intro s pc there ran top returns
    rw [Machine.runIf] at ran
    split at ran
    next allowed =>
      obtain ⟨middle, taken, ran⟩ := Option.bind_eq_some_iff.mp ran
      rw [observe, taken]
      cases saw : see j rest s a with
      | none =>
        obtain ⟨pc', there', at_, results⟩ := unseen_step there allowed (step_transition taken) saw
        have ends := ih there' ran top returns
        rw [at_, results] at ends
        exact ends
      | some e =>
        obtain ⟨pc', there', seen⟩ := seen_step there taken saw
        exact seen.ends (ih there' ran top returns)
    next => cases ran

/-- An undisturbed call of `etp_poll` in the event loop, from its entry to its return, is
one of `etpPoll`: it returns the same, has completed the same requests in the same order,
and leaves the same results. -/
theorem call_etpPoll {s s' : State J} {as : List (Action J)} {pc : PollPc} {res : BitVec 32}
    (entered : s.threads j = .poll .loop :: rest)
    (ran : (eventLoop J).runIf (undisturbed j rest) s as = some s')
    (last : s'.threads j = .poll pc :: rest) (returns : (phase pc).returning = some res) :
    ∃ fuel ended,
      poll (around (observe (eventLoop J) (see j rest) s as) 0) fuel (resultsOf s) = some ended ∧
        ended.returned = res ∧
        ended.completed = takenIn (observe (eventLoop J) (see j rest) s as) ∧
        resultsOf s' = leftBy (observe (eventLoop J) (see j rest) s as) ended :=
  call_ends as ⟨[], entered⟩ ran last returns

/-- One finished request, at whose completion 1 is left in the register. -/
example :
    (((eventLoop Unit).run start ([.submit () 0 none 16 32 0] ++ List.replicate 9 (.go () {}) ++
      List.replicate 6 (.worker 0 {}) ++ [.poll ()])).bind fun s =>
        ((eventLoop Unit).runIf (undisturbed () []) s (List.replicate 14 (.go () { value := 1 }))).map
          fun s' => (observe (eventLoop Unit) (see () []) s
            (List.replicate 14 (.go () { value := 1 })), s'.threads ())) =
      some ([.look (some ⟨16, 0⟩), .counted, .value 1], [.poll (.destroy ⟨16, 0⟩ 1)]) := by
  decide +kernel

end

end WebbitAsyncio.Invariants.PollCall
