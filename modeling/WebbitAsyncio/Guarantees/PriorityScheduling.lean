import WebbitAsyncio.Source.ReqqRun

/-!
# Which request a worker takes

AsyncIO forwards any `jint` as a priority. `REQ` narrows it to a `signed char`
and `etp_submit` adds 4 in that width before it clamps, so the clamp does not see
the number the caller passed. `ClampedFaithfully` is the exact set of numbers for
which the computed queue is nevertheless that of the clamped priority
(`submitIndex_eq_clamp_iff`); on runs that submit only those, every shift takes
the earliest of the requests of the largest clamped priority. That the index is
always one of the nine and that nothing is lost or handed out twice needs no
condition.
-/
namespace WebbitAsyncio.Guarantees.PriorityScheduling
open WebbitAsyncio.Lib WebbitAsyncio.Lib.TransitionSystem
open WebbitAsyncio.Source.Reqq WebbitAsyncio.Source.ReqqRun

/-- The priority clamped to `[PRI_MIN, PRI_MAX]`. -/
def clampPri (priority : Int) : Int := max priMin (min priMax priority)

/-- The numbers that survive the narrowing to eight bits: those for which adding
4 does not overflow a `signed char`, and beyond these the large ones whose low
byte is a large `signed char` and the small ones whose low byte plus 4 is a
non-positive one. -/
def ClampedFaithfully (priority : Int) : Prop :=
  (-128 ≤ priority ∧ priority ≤ 123) ∨
  (123 < priority ∧ 4 ≤ priority % 256 ∧ priority % 256 ≤ 123) ∨
  (priority < -128 ∧ 124 ≤ priority % 256 ∧ priority % 256 ≤ 252)

instance (p : Int) : Decidable (ClampedFaithfully p) :=
  inferInstanceAs (Decidable (_ ∨ _ ∨ _))

theorem submitIndex_val (priority : JInt) :
    ((submitIndex priority).val : Int) = max 0 (min 8 ((priority.toInt.bmod 256 + 4).bmod 256)) := by
  have value := etpSubmitPri_toInt (reqPri priority)
  rw [reqPri_toInt] at value
  simp only [submitIndex]
  omega

/-- The condition is exact: it holds of a number if and only if the queue index
computed for it is that of the clamped priority. -/
theorem submitIndex_eq_clamp_iff (priority : JInt) :
    ((submitIndex priority).val : Int) = clampPri priority.toInt + 4 ↔
      ClampedFaithfully priority.toInt := by
  rw [submitIndex_val]
  simp only [clampPri, priMin, priMax, ClampedFaithfully, Int.bmod_def]
  split <;> split <;> omega

/-- What a worker may take in a state of the queue: the process is still
running and will not abort; an empty answer means that nothing is queued; a
request handed out is queued, is the earliest of those of the largest clamped
priority, and is the only one that leaves the queue. -/
structure TakesHighestFirst (s : QueueState) : Prop where
  running : s.crashed = false
  noAbort : reqqShift s.links s.reqq ≠ .aborted
  indexed : ∀ priority, ∃ i, priIndex (etpSubmitPri (reqPri priority)) = some i
  empty : reqqShift s.links s.reqq = .empty → s.queued = []
  taken : ∀ req reqq, reqqShift s.links s.reqq = .took req reqq →
    ∃ e, e.req = req ∧
      Buckets.EarliestLargest (fun e => clampPri e.priority.toInt) s.queued e (take s).queued

/-- Only priorities that the narrowing leaves in their place are submitted. -/
def faithfulPriorities : QueueState → QueueOp → Prop
  | _, .submit _ priority => ClampedFaithfully priority.toInt
  | _, .take => True

theorem earliestLargest_of_index {l rest : List Submitted} {e : Submitted}
    (faithful : ∀ x ∈ l, ClampedFaithfully x.priority.toInt)
    (best : Buckets.EarliestLargest (fun x => submitIndex x.priority) l e rest) :
    Buckets.EarliestLargest (fun x => clampPri x.priority.toInt) l e rest := by
  obtain ⟨before, after, split, kept, earlier, later⟩ := best
  have value : ∀ x ∈ l, ((submitIndex x.priority).val : Int) = clampPri x.priority.toInt + 4 :=
    fun x member => (submitIndex_eq_clamp_iff x.priority).mpr (faithful x member)
  have own := value e (by simp [split])
  refine ⟨before, after, split, kept, fun x member => ?_, fun x member => ?_⟩
  · have mine := value x (by simp [split, member])
    have below : (submitIndex x.priority).val < (submitIndex e.priority).val := earlier x member
    simp only
    omega
  · have mine := value x (by simp [split, member])
    have below : (submitIndex x.priority).val ≤ (submitIndex e.priority).val := later x member
    simp only
    omega

/-- Every queued request was submitted with a priority meeting the condition. -/
theorem queued_faithful {s : QueueState} (h : ReachableBy queueMachine faithfulPriorities s) :
    ∀ e ∈ s.queued, ClampedFaithfully e.priority.toInt := by
  refine ReachableBy.invariant_of (P := fun s => ∀ e ∈ s.queued, ClampedFaithfully e.priority.toInt)
    (fun s reached => reachable_filed reached.reachable) (by intro e member; cases member) ?_ h
  rintro s op s' ⟨b, filed⟩ faithful met done
  cases op with
  | submit req priority =>
    simp only [queueMachine, filed.running, Bool.false_eq_true, if_false] at done
    rw [(submit_filed filed done).1]
    intro e member
    rcases List.mem_append.mp member with old | new
    · exact faithful e old
    · rw [List.mem_singleton.mp new]
      exact met
  | take =>
    simp only [queueMachine, filed.running, Bool.false_eq_true, if_false, Option.some.injEq] at done
    subst done
    rcases take_filed filed with ⟨_, _, same⟩ | ⟨e, rest, _, _, ⟨before, after, split, kept, _, _⟩, left, _⟩
    · rwa [same]
    · intro x member
      rw [left, kept] at member
      exact faithful x (by rw [split]; rcases List.mem_append.mp member with m | m <;> simp [m])

/-- On every run that submits only such priorities, in every state reached. -/
theorem priority_scheduling (s : QueueState)
    (h : ReachableBy queueMachine faithfulPriorities s) : TakesHighestFirst s := by
  obtain ⟨b, filed⟩ := reachable_filed h.reachable
  have indexed : ∀ priority, ∃ i, priIndex (etpSubmitPri (reqPri priority)) = some i :=
    fun priority => ⟨_, priIndex_submit priority⟩
  rcases take_filed filed with ⟨vacant, ran, _⟩ | ⟨e, rest, reqq, ran, best, left, _⟩
  · exact ⟨filed.running, by simp [ran], indexed, fun _ => vacant, by simp [ran]⟩
  · refine ⟨filed.running, by simp [ran], indexed, by simp [ran], fun req reqq' took => ?_⟩
    rw [ran, Shifted.took.injEq] at took
    refine ⟨e, took.1, ?_⟩
    rw [left]
    exact earliestLargest_of_index (queued_faithful h) best

/-- Two requests of priorities 0 and 4, submitted in this order. -/
def twoFaithful : List QueueOp := [.submit 16 0, .submit 32 4]

theorem priority_scheduling_two :
    ∃ s, queueMachine.run queueMachine.init twoFaithful = some s ∧ TakesHighestFirst s :=
  ⟨_, rfl, priority_scheduling _
    (.next (a := .submit 32 4)
      (.next (a := .submit 16 0) .start (show ClampedFaithfully 0 by decide) rfl)
      (show ClampedFaithfully 4 by decide) rfl)⟩

/-- Priority 1000 has low byte 232, a `signed char` of -24: the request is filed
in queue 0, and a request of priority 0 is taken before it. -/
theorem large_priority_taken_last :
    ¬ ∀ s, Reachable queueMachine s → TakesHighestFirst s := by
  intro all
  have reached : ∃ s, queueMachine.run queueMachine.init [.submit 16 0, .submit 32 1000] = some s ∧
      s.queued = [⟨16, 0⟩, ⟨32, 1000⟩] ∧ (take s).queued = [⟨32, 1000⟩] ∧
      ∃ reqq, reqqShift s.links s.reqq = .took 16 reqq :=
    ⟨_, rfl, by decide, by decide, _, rfl⟩
  obtain ⟨s, ran, queued, left, reqq, took⟩ := reached
  obtain ⟨e, same, before, after, split, _, _, later⟩ :=
    (all s (reachable_run _ .start ran)).taken 16 reqq took
  rw [queued] at split
  cases before with
  | nil =>
    simp only [List.nil_append, List.cons.injEq] at split
    have smaller := later ⟨32, 1000⟩ (by simp [← split.2])
    rw [← split.1] at smaller
    exact absurd smaller (by decide)
  | cons first more =>
    cases more with
    | nil =>
      simp only [List.cons_append, List.nil_append, List.cons.injEq] at split
      rw [← split.2.1] at same
      exact absurd same (by decide)
    | cons second others =>
      have lengths := congrArg List.length split
      simp at lengths

end WebbitAsyncio.Guarantees.PriorityScheduling
