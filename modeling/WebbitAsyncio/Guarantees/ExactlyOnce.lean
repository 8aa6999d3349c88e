import WebbitAsyncio.Invariants.Counters
import WebbitAsyncio.Invariants.History

/-!
# Exactly-once delivery with one event-loop thread

`completion_callback` takes no step before the submit operation of its request has
returned when only one thread submits and polls: a poll cannot run inside a submit
operation. The run invariants for an ordered event loop therefore hold of every
run of one thread, whatever `completion_callback` leaves in the return register,
and between two operations the counters, blocks and references of the library are
exactly those of the requests still in progress.
-/
namespace WebbitAsyncio.Guarantees.ExactlyOnce
open WebbitAsyncio.Lib.TransitionSystem
open WebbitAsyncio.Source.EventLoop WebbitAsyncio.Invariants.Stack
open WebbitAsyncio.Invariants.Custody WebbitAsyncio.Invariants.Memory
open WebbitAsyncio.Invariants.Submitting WebbitAsyncio.Invariants.References
open WebbitAsyncio.Invariants.History WebbitAsyncio.Invariants.Counters
open WebbitAsyncio.Source.Reqq (Addr)

/-! ### Runs of one thread are in order -/

structure Ordered {J : Type} (s : State J) (a : Action J) : Prop where
  inOrder : InOrder s a
  deletes : DeletesReturned s a

theorem ordered_of_one {s : State Unit} (h : Reachable (eventLoop Unit) s) (a : Action Unit) :
    Ordered s a := by
  have returned : ∀ {pc rest id t}, s.threads () = .poll pc :: rest → s.tickets[id]? = some t →
      Returned t := fun top found => returned_of_poll (stacked h ()) (pending h) top found
  refine ⟨⟨?_, ?_⟩, ?_⟩
  · rintro j c p rest t rfl top found _
    exact ⟨returned top found, Subsingleton.elim _ _⟩
  · rintro j c p rest t rfl top found
    exact returned top found
  · rintro j c p rest t rfl top found
    exact returned top found

theorem reachable_ordered {s : State Unit} (h : Reachable (eventLoop Unit) s) :
    ReachableBy (eventLoop Unit) Ordered s :=
  h.strengthen fun _ a before _ => ordered_of_one before.reachable a

/-! ### Between two operations -/

/-- The thread is not in a submit operation, nor between deleting the references
of a request and freeing its `java_data`. -/
structure Between (stack : List Frame) : Prop where
  noSubmit : ∀ pc p data, .submit pc p data ∉ stack
  noCleanup : ∀ p rest, stack ≠ .poll (.freeData p) :: rest

/-- The submit operation of a request whose `java_data` is still to be freed. -/
def Unfinished {J : Type} (s : State J) (id : ReqId) (t : Ticket J) : Prop :=
  s.tickets[id]? = some t ∧ dataFreed t = false

/-- The stages that only the excluded frames hold a request in. -/
theorem between_stage {s : State Unit} {id : ReqId} {t : Ticket Unit} (stacked : Stacked (s.threads ()))
    (cust : InCustody s) (between : Between (s.threads ())) (found : s.tickets[id]? = some t) :
    progress t.place ≠ 0 ∧ progress t.place ≠ 9 := by
  have holds : ∀ {j h k}, t.place = .frame j h k → k ≠ .submitting ∧ k ≠ .unreffed := by
    intro j h k place
    have held := cust.held found (by simp [place])
    rw [place] at held
    obtain ⟨f, member, said⟩ := cellAt_mem frameHolds held
    refine ⟨?_, ?_⟩
    · rintro rfl
      cases f with
      | submit pc p data => exact between.noSubmit pc p data member
      | poll pc =>
        cases pc with
        | unlockRes taken => cases taken <;> simp [frameHolds] at said
        | _ => simp [frameHolds] at said
      | start | block | flush | callback => cases said
    · rintro rfl
      cases f with
      | submit pc p data => exact between.noSubmit pc p data member
      | poll pc =>
        cases pc with
        | freeData p =>
          cases stack : s.threads () with
          | nil => rw [stack] at member; cases member
          | cons g rest =>
            rw [stack] at member stacked
            rcases List.mem_cons.mp member with rfl | below
            · exact between.noCleanup p rest stack
            · exact absurd (stacked.suspended _ below) (by simp [suspended])
        | unlockRes taken => cases taken <;> simp [frameHolds] at said
        | _ => simp [frameHolds] at said
      | start | block | flush | callback => cases said
  cases place : t.place with
  | frame j h k =>
    obtain ⟨notSubmitting, notUnreffed⟩ := holds place
    cases k <;> simp [progress] at notSubmitting notUnreffed ⊢
  | worker w k => cases k <;> simp [progress]
  | reqQueue | resQueue | gone => simp [progress]

/-- The library delivers every request once and keeps exactly what the requests
in progress need. -/
structure DeliversOnce (s : State Unit) : Prop where
  atMostOnce : ∀ t ∈ s.tickets, t.upcalls.length ≤ 1
  ownRequest : ∀ t ∈ s.tickets, ∀ u ∈ t.upcalls, u.callback = t.callback ∧ u.callback ≠ none ∧
    ∃ w, t.submit = .returned (some w) ∧ u.request = some w
  executedFirst : ∀ t ∈ s.tickets, t.upcalls ≠ [] → t.outcome ≠ none
  /-- A request whose `java_data` has been freed has had its callback. -/
  delivered : ∀ t ∈ s.tickets, dataFreed t = true → t.callback ≠ none → t.upcalls.length = 1
  numRequests : s.tickets.countP (fun t => !begun t) < 2 ^ 31 →
    numRequests s = s.tickets.countP fun t => !begun t
  /-- There is one live `java_data` for each unfinished request, and no other. -/
  data : ∀ a, s.dataAt a ≠ none ↔ ∃ id t, Unfinished s id t ∧ t.data = a
  dataDistinct : ∀ id t id' t', Unfinished s id t → Unfinished s id' t' → t.data = t'.data → id = id'
  /-- The live global references are those kept by unfinished requests, each to
  the callback or wrapper of its request. -/
  refs : ∀ h o, s.refs h = some o ↔
    ∃ id t k, Unfinished s id t ∧ kept s id k = some h ∧ object t k = some o
  refsAll : ∀ id t k o, Unfinished s id t → object t k = some o → ∃ h, kept s id k = some h
  refsDistinct : ∀ id id' k k' h, kept s id k = some h → kept s id' k' = some h → id = id' ∧ k = k'

theorem between_numRequests {s : State Unit} (stacked : Stacked (s.threads ())) (cust : InCustody s)
    (counted : Counted s) (between : Between (s.threads ()))
    (fits : s.tickets.countP (fun t => !begun t) < 2 ^ 31) :
    numRequests s = s.tickets.countP fun t => !begun t := by
  have same : s.tickets.countP inFlight = s.tickets.countP fun t => !begun t := by
    refine List.countP_congr fun t member => ?_
    obtain ⟨id, found⟩ := List.mem_iff_getElem?.mp member
    have stage := between_stage stacked cust between found
    simp only [inFlight, begun, Bool.not_eq_true', decide_eq_true_eq, decide_eq_false_iff_not]
    omega
  rw [numRequests, counted.toInt (by omega), same]

section
variable {s : State Unit} {id : ReqId} {t : Ticket Unit}

theorem data_iff (alloc : Allocated s) (a : Addr) :
    s.dataAt a ≠ none ↔ ∃ id t, Unfinished s id t ∧ t.data = a := by
  constructor
  · intro there
    obtain ⟨d, stored⟩ := Option.ne_none_iff_exists'.mp there
    obtain ⟨t, found, placed, live⟩ := alloc.owner a _ (dataAt_eq_some.mp stored)
    exact ⟨d.id, t, ⟨found, live⟩, placed⟩
  · rintro ⟨id, t, ⟨found, live⟩, rfl⟩
    obtain ⟨d, stored, _⟩ := alloc.data id t found live
    rw [dataAt_eq_some.mpr stored]
    simp

theorem data_distinct (alloc : Allocated s) {id' : ReqId} {t' : Ticket Unit}
    (one : Unfinished s id t) (two : Unfinished s id' t') (same : t.data = t'.data) : id = id' := by
  obtain ⟨d, stored, did, _⟩ := alloc.data id t one.1 one.2
  obtain ⟨d', stored', did', _⟩ := alloc.data id' t' two.1 two.2
  rw [same, stored', Option.some.injEq, Block.data.injEq] at stored
  rw [← did, ← did', stored]

/-- Between operations a request has its references as long as its `java_data`. -/
theorem unreffed_iff (stage : progress t.place ≠ 9) : unreffed t = dataFreed t := by
  simp only [unreffed, dataFreed, decide_eq_decide]
  omega

end

theorem exactly_once {s : State Unit} (h : Reachable (eventLoop Unit) s)
    (between : Between (s.threads ())) : DeliversOnce s := by
  have ordered := reachable_ordered h
  have alloc := allocated h
  have stage : ∀ (id : ReqId) t, s.tickets[id]? = some t → progress t.place ≠ 0 ∧ progress t.place ≠ 9 :=
    fun _ _ => between_stage (stacked h ()) (inCustody h) between
  have frees : ∀ (s : State Unit) a, ReachableBy (eventLoop Unit) Ordered s → Ordered s a →
      FreesReturned s a ∧ DeletesReturned s a := fun _ _ _ met => ⟨met.inOrder.free, met.deletes⟩
  have referenced := referenced (fun s a before met => (frees s a before met).1) ordered
  have noLeak := noLeak frees ordered
  have every := (delivered (ordered.mono fun _ _ met => met.inOrder)).1
  refine ⟨fun t member => ?_, fun t member u made => ?_, fun t member some_ => ?_,
    fun t member freed given => ?_, between_numRequests (stacked h ()) (inCustody h) (counted h) between,
    data_iff alloc, fun id t id' t' => data_distinct alloc, fun r o => ?_, fun id t k o live named => ?_,
    referenced.distinct⟩
  · rcases (every.mem member).upcalls with none | ⟨_, _, _, _, _, one⟩
    · simp [none]
    · simp [one]
  · rcases (every.mem member).upcalls with none | ⟨o, w, _, given, returned, one⟩
    · rw [none] at made
      cases made
    · rw [one, List.mem_singleton] at made
      subst made
      exact ⟨given.symm, by simp, w, returned, rfl⟩
  · rcases (every.mem member).upcalls with none | ⟨_, _, late, _, _, _⟩
    · exact absurd none some_
    · have recorded := (outcomes h).mem member
      have ran : executed t = true := by
        simp only [called, executed, decide_eq_true_eq] at late ⊢
        omega
      rw [OutcomeRecorded, ran] at recorded
      exact Option.isSome_iff_ne_none.mp recorded
  · obtain ⟨o, callback⟩ := Option.ne_none_iff_exists'.mp given
    have late : called t = true := by
      simp only [called, dataFreed, decide_eq_true_eq] at freed ⊢
      omega
    obtain ⟨w, _, one⟩ := (every.mem member).after o late callback
    simp [one]
  · constructor
    · intro there
      obtain ⟨id, k, holds⟩ := noLeak.inUse r o there
      obtain ⟨t, d, found, live, _, _⟩ := kept_ticket holds
      obtain ⟨o', named, stored⟩ := referenced.live id t k r found holds
      rw [there, Option.some.injEq] at stored
      exact ⟨id, t, k, ⟨found, (unreffed_iff (stage id t found).2) ▸ live⟩, holds, stored ▸ named⟩
    · rintro ⟨id, t, k, ⟨found, _⟩, holds, named⟩
      obtain ⟨o', named', stored⟩ := referenced.live id t k r found holds
      rw [named, Option.some.injEq] at named'
      rw [stored, named']
  · exact referenced.stored id t k o live.1 ((unreffed_iff (stage id t live.1).2).trans live.2) named

/-- A request is delivered, and its callback submits another one. -/
def submitsAgain : List (Action Unit) :=
  [.submit () 0 (some (.callback 7)) 16 32 5] ++ List.replicate 7 (.go () {}) ++
    [.go () { ref := 6 }, .go () {}] ++ List.replicate 6 (.worker 0 {}) ++ [.poll ()] ++
    List.replicate 12 (.go () {}) ++ [.submit () 0 none 48 64 0] ++ List.replicate 5 (.go () {}) ++
    [.go () { ref := 8 }, .go () {}]

theorem exactly_once_submits_again :
    ∃ s, (eventLoop Unit).run start submitsAgain = some s ∧
      s.tickets.map (·.upcalls.length) = [1, 0] ∧ numRequests s = 1 ∧ DeliversOnce s := by
  refine ⟨_, rfl, rfl, rfl, exactly_once (reachable_run submitsAgain .start rfl) ⟨?_, ?_⟩⟩
  · intro pc p data member
    rcases List.mem_cons.mp member with equal | member
    · cases equal
    · rcases List.mem_cons.mp member with equal | member
      · cases equal
      · cases member
  · intro p rest equal
    cases equal

end WebbitAsyncio.Guarantees.ExactlyOnce
