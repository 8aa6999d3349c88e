import WebbitAsyncio.Invariants.Stations

/-!
# The event loop is a service that works jobs off by priority

Seen from outside, a run of the event loop with any number of Java threads and
workers is a run of the service: the requests are submitted, taken up, finished and
delivered one event at a time, and what waits or has finished is handed on by priority
and, under one priority, in order of arrival.
-/
namespace WebbitAsyncio.Guarantees.ServiceRefinement
open WebbitAsyncio.Lib WebbitAsyncio.Lib.TransitionSystem
open WebbitAsyncio.Lib.JobService WebbitAsyncio.Lib.Refinement
open WebbitAsyncio.Source.EventLoop WebbitAsyncio.Invariants.Stations
open WebbitAsyncio.Source.Reqq (submitIndex)

variable {J : Type} [DecidableEq J]

/-- What is seen of a run is a run of the service, and the service it leads to has at
each of its stations the requests that the event loop has there. -/
theorem refines_service {s : State J} (as : List (Action J))
    (ran : (eventLoop J).run start as = some s) :
    ∃ v, Runs Step idle (observe (eventLoop J) visible start as) v ∧ Refines s v :=
  eventLoop_simulates.observed start_refines as ran

/-- Two requests are submitted, the second of a higher priority, executed by one worker
and delivered by one `poll`. -/
def urgentLast : List (Action Unit) :=
  [.submit () 0 none 16 32 0] ++ List.replicate 7 (.go () {}) ++ [.go () { ref := 6 }, .go () {}] ++
    [.submit () 4 none 48 64 0] ++ List.replicate 7 (.go () {}) ++ [.go () { ref := 8 }, .go () {}] ++
    List.replicate 11 (.worker 0 {}) ++ [.poll ()] ++ List.replicate 30 (.go () {})

theorem refines_service_urgent : ∃ s v, (eventLoop Unit).run start urgentLast = some s ∧
    Runs Step idle [.submit ⟨0, submitIndex 0⟩, .submit ⟨1, submitIndex 4⟩, .take 1,
      .finish ⟨1, submitIndex 4⟩, .take 0, .finish ⟨0, submitIndex 0⟩, .deliver 1,
      .deliver 0] v ∧ Refines s v := by
  obtain ⟨v, runs, refines⟩ := refines_service urgentLast rfl
  exact ⟨_, v, rfl, runs, refines⟩

/-- Of two requests that came one after the other, the later of no larger priority, the
later does not leave before the earlier. -/
def NoOvertaking (arrivals : List (Job ReqId Pri)) (left : List ReqId) : Prop :=
  ∀ x y : Job ReqId Pri, [x, y].Sublist arrivals → y.pri ≤ x.pri → y.id ∈ left →
    [x.id, y.id].Sublist left

structure Fair (events : List (Event ReqId Pri)) : Prop where
  submittedOnce : ((events.filterMap submittedJob).map Job.id).Nodup
  takenOnce : (events.filterMap takenId).Nodup
  deliveredOnce : (events.filterMap deliveredId).Nodup
  taking : NoOvertaking (events.filterMap submittedJob) (events.filterMap takenId)
  delivering : NoOvertaking (events.filterMap finishedJob) (events.filterMap deliveredId)

/-- Neither the workers nor `etp_poll` let a request be overtaken by a later one of no
larger priority, whatever the interleaving. -/
theorem never_overtaken {s : State J} (as : List (Action J))
    (ran : (eventLoop J).run start as = some s) : Fair (observe (eventLoop J) visible start as) := by
  obtain ⟨v, runs, -⟩ := eventLoop_simulates.observed start_refines as ran
  have account := account_of_runs runs
  exact ⟨account.waiting.distinct, account.waiting.once, account.finished.once,
    account.waiting.noOvertaking, account.finished.noOvertaking⟩

theorem never_overtaken_urgent : (observe (eventLoop Unit) visible start urgentLast).length = 8 ∧
    Fair (observe (eventLoop Unit) visible start urgentLast) :=
  ⟨rfl, never_overtaken urgentLast rfl⟩

end WebbitAsyncio.Guarantees.ServiceRefinement
