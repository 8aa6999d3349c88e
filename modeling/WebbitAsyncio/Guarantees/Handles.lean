import WebbitAsyncio.Invariants.Memory
import WebbitAsyncio.Invariants.Submitting
import WebbitAsyncio.Source.RequestWrapper

/-!
# How long a request handle stays truthful

A `RequestWrapper` holds the address of an `eio_req`. `completion_callback` frees
the `java_data` behind it and libeio frees the `eio_req` as soon as the upcall has
returned (asyncio.c:92-96, eio.c:695-728), while the wrapper lives on in Java. For
a single event-loop thread and an allocator free to reuse any address, the
accessors tell the truth at exactly the moments before that clean-up.
-/
namespace WebbitAsyncio.Guarantees.Handles
open WebbitAsyncio.Lib.TransitionSystem
open WebbitAsyncio.Source.EventLoop WebbitAsyncio.Source.RequestWrapper
open WebbitAsyncio.Invariants.Stack WebbitAsyncio.Invariants.Custody
open WebbitAsyncio.Invariants.Memory

/-- What the accessors of the handle of request `id` should say: they consult
its own blocks; it is complete if and only if its completion has begun; and from
then on they report the outcome the worker stored. -/
structure Truthful {J : Type} (s : State J) (id : ReqId) (t : Ticket J) : Prop where
  own : ∃ r d, s.reqAt t.req = some r ∧ r.id = id ∧ s.dataAt r.data = some d ∧ d.id = id
  complete : complete s t.req = some (begun t)
  outcome : begun t = true → ∃ res err, t.outcome = some (res, err) ∧
    getResult s t.req = some (res.truncate 32) ∧ getErrorNo s t.req = some err ∧
    success s t.req = some (decide (0 ≤ (res.truncate 32).toInt))

/-- While Java code runs, no frame is between taking a request and its upcall or
between its clean-up and freeing it. -/
theorem java_holds {stack : List Frame} (stacked : Stacked stack) (java : inJava stack) {h : Nat}
    {p : Ptr} {k : FrameStage} (holds : cellAt frameHolds stack h = some (p, k)) : k = .called := by
  obtain ⟨f, member, said⟩ := cellAt_mem frameHolds holds
  have waits : suspended f = true := by
    cases stack with
    | nil => cases member
    | cons g rest =>
      rcases List.mem_cons.mp member with rfl | below
      · cases f with
        | callback => rfl
        | submit | start | poll | block | flush => simp [inJava, Frame.isCallback] at java
      · exact stacked.suspended f below
  cases f with
  | submit pc p data => cases pc <;> simp [suspended, frameHolds] at waits said
  | poll pc =>
    cases pc with
    | unref p =>
      simp only [frameHolds, Option.some.injEq, Prod.mk.injEq] at said
      exact said.2.symm
    | unlockRes taken => cases taken <;> simp [suspended] at waits
    | _ => simp [suspended, frameHolds] at waits said
  | start | block | flush | callback => cases said

/-- Seen from Java code of the only thread, the steps of a completion are one:
it has begun, `complete` is set and the upcall is made, or none of these. -/
theorem java_begun {s : State Unit} {id : ReqId} {t : Ticket Unit} (stacked : Stacked (s.threads ()))
    (cust : InCustody s) (java : inJava (s.threads ())) (found : s.tickets[id]? = some t) :
    begun t = marked t := by
  cases place : t.place with
  | frame j h k =>
    have live : t.place ≠ .gone := by simp [place]
    have held := cust.held found live
    rw [place] at held
    have stage := java_holds stacked java held
    simp [begun, marked, place, stage, progress]
  | worker w k => cases k <;> simp [begun, marked, place, progress]
  | reqQueue | resQueue | gone => simp [begun, marked, place, progress]

theorem success_of {J : Type} {s : State J} {ptr : Source.Reqq.Addr} {res : BitVec 32}
    (done : complete s ptr = some true) (known : result s ptr = some res) :
    success s ptr = some (decide (0 ≤ res.toInt)) := by
  have bound : (-1 < res.toInt) = (0 ≤ res.toInt) := propext (by omega)
  simp only [success, done, known, Option.bind_some, if_true, Option.map_some, bound]

/-- At every moment in Java code of every run of one thread, the handle of a
request tells the truth if and only if the request's clean-up has not run. -/
theorem handle_truthful_iff {s : State Unit} (h : Reachable (eventLoop Unit) s)
    (java : inJava (s.threads ())) {id : ReqId} {t : Ticket Unit} (found : s.tickets[id]? = some t) :
    Truthful s id t ↔ dataFreed t = false := by
  have alloc := allocated h
  have same := java_begun (stacked h ()) (inCustody h) java found
  constructor
  · intro truthful
    obtain ⟨r, d, _, _, stored, did⟩ := truthful.own
    obtain ⟨t', found', _, live⟩ := alloc.owner _ _ (dataAt_eq_some.mp stored)
    rw [blockId, did, found] at found'
    obtain rfl := Option.some.inj found'
    exact live
  · intro live
    have liveReq : reqFreed t = false := by
      simp only [dataFreed, reqFreed, decide_eq_false_iff_not] at live ⊢
      omega
    obtain ⟨r, there, rid, data, outcome⟩ := alloc.req id t found liveReq
    obtain ⟨d, stored, did, _, flag⟩ := alloc.data id t found live
    have atReq := reqAt_eq_some.mpr there
    have atData : s.dataAt r.data = some d := dataAt_eq_some.mpr (data ▸ stored)
    have done : complete s t.req = some (begun t) := by
      simp [complete, atReq, atData, flag, same]
    refine ⟨⟨r, d, atReq, rid, atData, did⟩, done, fun late => ?_⟩
    have ran : executed t = true := by
      simp only [begun, executed, decide_eq_true_eq] at late ⊢
      omega
    have known : result s t.req = some (r.result.truncate 32) := by simp [result, atReq]
    refine ⟨r.result, r.errorno, outcome ran, known, by simp [getErrorNo, errorno, atReq], ?_⟩
    exact success_of (by rw [done, late]) known

/-- A request whose callback is running, and one that was completed and whose
memory the allocator has handed out again. -/
def insideCallback : List (Action Unit) :=
  [.submit () 0 (some (.callback 7)) 16 32 5] ++ List.replicate 7 (.go () {}) ++
    [.go () { ref := 6 }, .go () {}, .worker 0 {}, .worker 0 { result := 42 }] ++
    List.replicate 4 (.worker 0 {}) ++ [.poll ()] ++ List.replicate 12 (.go () {})

theorem handle_truthful_inside_callback :
    ∃ s t, (eventLoop Unit).run start insideCallback = some s ∧ s.tickets[0]? = some t ∧
      getResult s t.req = some 42 ∧ (Truthful s 0 t ↔ dataFreed t = false) :=
  ⟨_, _, rfl, rfl, rfl, handle_truthful_iff (reachable_run insideCallback .start rfl) rfl rfl⟩

/-- One request goes all the way; a second one gets the same two addresses. -/
def addressReused : List (Action Unit) :=
  [.submit () 0 none 16 32 5] ++ List.replicate 7 (.go () {}) ++
    [.go () { ref := 6 }, .go () {}, .worker 0 {}, .worker 0 { result := 42 }] ++
    List.replicate 4 (.worker 0 {}) ++ [.poll ()] ++ List.replicate 13 (.go () {}) ++
    [.go () { value := 1 }, .go () {}, .submit () 0 none 16 32 5] ++ List.replicate 5 (.go () {}) ++
    [.go () { ref := 6 }, .go () {}]

/-- The handle of the first request says that it is not complete. -/
theorem completed_handle_lies :
    ¬ ∀ (s : State Unit) (id : ReqId) (t : Ticket Unit) (w : Obj), Reachable (eventLoop Unit) s →
      inJava (s.threads ()) → s.tickets[id]? = some t → t.submit = .returned (some w) →
      Truthful s id t := by
  intro all
  have reached : ∃ s t w, (eventLoop Unit).run start addressReused = some s ∧
      inJava (s.threads ()) ∧ s.tickets[0]? = some t ∧ t.submit = .returned (some w) ∧ begun t = true ∧
      complete s t.req = some false := ⟨_, _, _, rfl, rfl, rfl, rfl, rfl, rfl⟩
  obtain ⟨s, t, w, ran, java, found, returned, done, lies⟩ := reached
  have told := (all s 0 t w (reachable_run addressReused .start ran) java found returned).complete
  rw [lies, done] at told
  cases told

end WebbitAsyncio.Guarantees.Handles
