import Mathlib.Data.List.Nodup
import WebbitAsyncio.Lib.Buckets
import WebbitAsyncio.Lib.Refinement

/-!
# A service that works jobs off by priority

What a queue of jobs, the workers that execute them and a queue of results are for:
a job is submitted, taken up, finished and delivered, each step at one moment. The
waiting job taken up next, and the finished job delivered next, is the earliest of
those of the largest priority. In a run of the service nothing is lost or served
twice, and no job is overtaken by a later one of no larger priority.
-/
namespace WebbitAsyncio.Lib.JobService
open WebbitAsyncio.Lib.Refinement

structure Job (ι κ : Type) where
  id : ι
  pri : κ
  deriving DecidableEq, Repr

variable {ι κ : Type}

/-! ## One queue -/

section Queue

variable [DecidableEq ι] [LinearOrder κ]

/-- A queue at which `arrivals` came, in this order, `left` are the jobs that left, and
`queue` is what is there now. -/
structure Orderly (arrivals : List (Job ι κ)) (left : List ι) (queue : List (Job ι κ)) :
    Prop where
  distinct : (arrivals.map Job.id).Nodup
  once : left.Nodup
  came : ∀ id ∈ left, id ∈ arrivals.map Job.id
  present : queue = arrivals.filter fun job => decide (job.id ∉ left)
  noOvertaking : ∀ x y : Job ι κ, [x, y].Sublist arrivals → y.pri ≤ x.pri → y.id ∈ left →
    [x.id, y.id].Sublist left

variable {arrivals queue rest : List (Job ι κ)} {left : List ι} {job : Job ι κ}

omit [DecidableEq ι] [LinearOrder κ] in
theorem nodup_snoc {α : Type} {l : List α} {a : α} (distinct : l.Nodup) (fresh : a ∉ l) :
    (l ++ [a]).Nodup := by
  refine List.nodup_append.mpr ⟨distinct, by simp, fun b inside c new same => ?_⟩
  rw [List.mem_singleton.mp new] at same
  exact fresh (same ▸ inside)

omit [DecidableEq ι] [LinearOrder κ] in
/-- One element before another in a list with a new last element. -/
theorem pair_snoc {α : Type} {l : List α} {a x y : α} :
    [x, y].Sublist (l ++ [a]) ↔ [x, y].Sublist l ∨ (x ∈ l ∧ y = a) := by
  constructor
  · intro order
    obtain ⟨first, last, shape, inside, new⟩ := List.sublist_append_iff.mp order
    rcases List.sublist_singleton.mp new with rfl | rfl
    · rw [List.append_nil] at shape
      exact Or.inl (shape ▸ inside)
    · have split : [x] ++ [y] = first ++ [a] := shape
      obtain ⟨rfl, same⟩ := List.append_inj' split rfl
      exact Or.inr ⟨List.singleton_sublist.mp inside, List.singleton_inj.mp same⟩
  · rintro (order | ⟨inside, rfl⟩)
    · exact order.trans (List.sublist_append_left l [a])
    · exact (List.singleton_sublist.mpr inside).append (List.Sublist.refl [y])

omit [DecidableEq ι] [LinearOrder κ] in
/-- What comes before an element that occurs once is in front of it. -/
theorem pair_split {α : Type} {before after : List α} {x y : α} (notAfter : y ∉ after)
    (order : [x, y].Sublist (before ++ y :: after)) : x ∈ before := by
  obtain ⟨first, last, shape, inside, later⟩ := List.sublist_append_iff.mp order
  rcases first with _ | ⟨z, first⟩
  · rw [List.nil_append] at shape
    subst shape
    have rest : [y].Sublist after := by
      cases later with
      | cons _ skipped => exact (List.sublist_cons_self x [y]).trans skipped
      | cons_cons _ kept => exact kept
    exact absurd (List.singleton_sublist.mp rest) notAfter
  · have same := (List.cons.inj shape).1
    exact inside.subset (by simp [same])

theorem orderly_empty : Orderly ([] : List (Job ι κ)) ([] : List ι) [] where
  distinct := .nil
  once := .nil
  came := fun _ gone => gone
  present := rfl
  noOvertaking := fun _ _ _ _ gone => absurd gone List.not_mem_nil

theorem Orderly.mem_queue (orderly : Orderly arrivals left queue) {x : Job ι κ} :
    x ∈ queue ↔ x ∈ arrivals ∧ x.id ∉ left := by
  rw [orderly.present, List.mem_filter, decide_eq_true_iff]

theorem Orderly.eq_of_id (orderly : Orderly arrivals left queue) {x y : Job ι κ}
    (xIn : x ∈ arrivals) (yIn : y ∈ arrivals) (same : x.id = y.id) : x = y :=
  List.inj_on_of_nodup_map orderly.distinct xIn yIn same

theorem Orderly.queue_nodup (orderly : Orderly arrivals left queue) :
    (queue.map Job.id).Nodup := by
  rw [orderly.present]
  exact orderly.distinct.sublist ((List.filter_sublist).map Job.id)

/-- A new job goes to the end. -/
theorem Orderly.arrive (orderly : Orderly arrivals left queue)
    (fresh : job.id ∉ arrivals.map Job.id) :
    Orderly (arrivals ++ [job]) left (queue ++ [job]) := by
  have notLeft : job.id ∉ left := fun gone => fresh (orderly.came job.id gone)
  refine ⟨?_, orderly.once, fun id gone => ?_, ?_, fun x y order notAbove gone => ?_⟩
  · rw [List.map_append, List.map_singleton]
    exact nodup_snoc orderly.distinct fresh
  · rw [List.map_append]
    exact List.mem_append_left _ (orderly.came id gone)
  · rw [List.filter_append, ← orderly.present]
    simp [notLeft]
  · -- the later of the two has left, hence it is not the new one
    rcases pair_snoc.mp order with before | ⟨_, rfl⟩
    · exact orderly.noOvertaking x y before notAbove gone
    · exact absurd gone notLeft

/-- The earliest job of the largest priority leaves. -/
theorem Orderly.leave (orderly : Orderly arrivals left queue)
    (best : Buckets.EarliestLargest Job.pri queue job rest) :
    Orderly arrivals (left ++ [job.id]) rest := by
  obtain ⟨before, after, split, kept, lower, -⟩ := best
  have there : job ∈ queue := by simp [split]
  obtain ⟨arrived, notLeft⟩ := orderly.mem_queue.mp there
  have queueNodup := orderly.queue_nodup
  rw [split, List.map_append, List.map_cons, List.nodup_middle, List.nodup_cons] at queueNodup
  have apart : ∀ x ∈ before ++ after, x.id ≠ job.id := by
    intro x inside same
    refine queueNodup.1 ?_
    rw [← List.map_append, ← same]
    exact List.mem_map_of_mem inside
  refine ⟨orderly.distinct, nodup_snoc orderly.once notLeft, fun id gone => ?_, ?_, ?_⟩
  · rcases List.mem_append.mp gone with old | new
    · exact orderly.came id old
    · rw [List.mem_singleton.mp new]
      exact List.mem_map_of_mem arrived
  · -- what is left of the queue is what does not have the job's id
    have others : (before ++ after).filter (fun x => decide (x.id ≠ job.id)) = before ++ after :=
      List.filter_eq_self.mpr fun x inside => by simpa using apart x inside
    have filtered : rest = queue.filter fun x => decide (x.id ≠ job.id) := by
      rw [split, kept, List.filter_append, List.filter_cons]
      simp only [ne_eq, not_true, decide_false, Bool.false_eq_true, if_false]
      rw [← List.filter_append, others]
    rw [filtered, orderly.present, List.filter_filter]
    refine List.filter_congr fun x _ => ?_
    simp [and_comm]
  · intro x y order notAbove gone
    have xIn : x ∈ arrivals := order.subset (by simp)
    have yIn : y ∈ arrivals := order.subset (by simp)
    rcases List.mem_append.mp gone with old | new
    · exact (orderly.noOvertaking x y order notAbove old).trans (List.sublist_append_left _ _)
    obtain rfl := orderly.eq_of_id yIn arrived (List.mem_singleton.mp new)
    refine pair_snoc.mpr (Or.inr ⟨?_, rfl⟩)
    -- were the earlier one still there, the later one would not be the best
    by_contra stays
    have both : [x, y].Sublist (before ++ y :: after) := by
      have still := order.filter fun z => decide (z.id ∉ left)
      rw [← orderly.present, split] at still
      simpa [stays, notLeft] using still
    have notAfter : y ∉ after := fun inside => apart y (List.mem_append_right before inside) rfl
    have xBefore : x ∈ before := pair_split notAfter both
    exact absurd (lower x xBefore) (not_lt_of_ge notAbove)

end Queue

/-! ## The service -/

inductive Event (ι κ : Type) where
  | submit (job : Job ι κ)
  | take (id : ι)
  | finish (job : Job ι κ)
  | deliver (id : ι)
  deriving DecidableEq, Repr

/-- Where the jobs are, each list in the order of arrival. -/
structure Service (ι κ : Type) where
  waiting : List (Job ι κ)
  executing : List (Job ι κ)
  finished : List (Job ι κ)
  delivered : List (Job ι κ)

def idle : Service ι κ := ⟨[], [], [], []⟩

inductive Station where
  | waiting
  | executing
  | finished
  | delivered
  deriving DecidableEq, Repr

def Service.jobs (v : Service ι κ) : Station → List (Job ι κ)
  | .waiting => v.waiting
  | .executing => v.executing
  | .finished => v.finished
  | .delivered => v.delivered

/-- The job `id` is at the station. -/
def Service.Holds (v : Service ι κ) (station : Station) (id : ι) : Prop :=
  id ∈ (v.jobs station).map Job.id

inductive Step [LinearOrder κ] (v : Service ι κ) : Event ι κ → Service ι κ → Prop where
  | submit {job : Job ι κ} : (∀ station, ¬ v.Holds station job.id) →
      Step v (.submit job) { v with waiting := v.waiting ++ [job] }
  | take {job : Job ι κ} {rest : List (Job ι κ)} :
      Buckets.EarliestLargest Job.pri v.waiting job rest →
      Step v (.take job.id) { v with waiting := rest, executing := v.executing ++ [job] }
  | finish {job : Job ι κ} {before after : List (Job ι κ)} :
      v.executing = before ++ job :: after →
      Step v (.finish job)
        { v with executing := before ++ after, finished := v.finished ++ [job] }
  | deliver {job : Job ι κ} {rest : List (Job ι κ)} :
      Buckets.EarliestLargest Job.pri v.finished job rest →
      Step v (.deliver job.id) { v with finished := rest, delivered := v.delivered ++ [job] }

/-! ### What a run has seen -/

def submittedJob : Event ι κ → Option (Job ι κ)
  | .submit job => some job
  | _ => none

def takenId : Event ι κ → Option ι
  | .take id => some id
  | _ => none

def finishedJob : Event ι κ → Option (Job ι κ)
  | .finish job => some job
  | _ => none

def deliveredId : Event ι κ → Option ι
  | .deliver id => some id
  | _ => none

variable [DecidableEq ι] [LinearOrder κ]

/-- The state of the service after the events: both queues are orderly, and every job
taken up is being executed or has finished. -/
structure Account (events : List (Event ι κ)) (v : Service ι κ) : Prop where
  waiting : Orderly (events.filterMap submittedJob) (events.filterMap takenId) v.waiting
  executing : (events.filterMap takenId).Perm
    (v.executing.map Job.id ++ (events.filterMap finishedJob).map Job.id)
  finished : Orderly (events.filterMap finishedJob) (events.filterMap deliveredId) v.finished
  delivered : v.delivered.map Job.id = events.filterMap deliveredId

theorem account_idle : Account ([] : List (Event ι κ)) (idle : Service ι κ) :=
  ⟨orderly_empty, .refl _, orderly_empty, rfl⟩

variable {events : List (Event ι κ)} {v v' : Service ι κ} {e : Event ι κ}

/-- A job that was submitted is at a station. -/
theorem Account.submitted_held (account : Account events v) {id : ι}
    (came : id ∈ (events.filterMap submittedJob).map Job.id) :
    ∃ station, v.Holds station id := by
  by_cases waits : id ∈ events.filterMap takenId
  · rcases List.mem_append.mp (account.executing.mem_iff.mp waits) with runs | done
    · exact ⟨.executing, runs⟩
    by_cases gone : id ∈ events.filterMap deliveredId
    · exact ⟨.delivered, by rw [Service.Holds, Service.jobs, account.delivered]; exact gone⟩
    · obtain ⟨job, inside, rfl⟩ := List.mem_map.mp done
      exact ⟨.finished, List.mem_map_of_mem (account.finished.mem_queue.mpr ⟨inside, gone⟩)⟩
  · obtain ⟨job, inside, rfl⟩ := List.mem_map.mp came
    exact ⟨.waiting, List.mem_map_of_mem (account.waiting.mem_queue.mpr ⟨inside, waits⟩)⟩

omit [DecidableEq ι] [LinearOrder κ] in
theorem filterMap_snoc {β : Type} (seen : Event ι κ → Option β) (events : List (Event ι κ))
    (e : Event ι κ) :
    (events ++ [e]).filterMap seen = events.filterMap seen ++ (seen e).toList := by
  rw [List.filterMap_append]
  cases found : seen e <;> simp [found]

theorem Account.step (account : Account events v) (step : Step v e v') :
    Account (events ++ [e]) v' := by
  cases step with
  | submit fresh =>
    constructor <;> simp only [filterMap_snoc, submittedJob, takenId, finishedJob, deliveredId,
      Option.toList, List.append_nil]
    · refine account.waiting.arrive fun came => ?_
      obtain ⟨station, held⟩ := account.submitted_held came
      exact fresh station held
    · exact account.executing
    · exact account.finished
    · exact account.delivered
  | @take job rest best =>
    constructor <;> simp only [filterMap_snoc, submittedJob, takenId, finishedJob, deliveredId,
      Option.toList, List.append_nil]
    · exact account.waiting.leave best
    · rw [List.map_append, List.map_singleton, List.append_assoc]
      refine (account.executing.append_right [job.id]).trans ?_
      rw [List.append_assoc]
      exact (List.perm_append_comm).append_left _
    · exact account.finished
    · exact account.delivered
  | @finish job before after split =>
    have running : (v.executing.map Job.id ++ (events.filterMap finishedJob).map Job.id).Perm
        ((before ++ after).map Job.id ++ (events.filterMap finishedJob ++ [job]).map Job.id) := by
      simp only [split, List.map_append, List.map_cons, List.map_nil, List.append_assoc]
      refine List.Perm.append_left _ ?_
      rw [List.cons_append, ← List.append_assoc]
      exact (List.perm_append_singleton _ _).symm
    have once := (account.executing.trans running).nodup_iff.mp account.waiting.once
    constructor <;> simp only [filterMap_snoc, submittedJob, takenId, finishedJob, deliveredId,
      Option.toList, List.append_nil]
    · exact account.waiting
    · exact account.executing.trans running
    · refine account.finished.arrive fun came => ?_
      have twice := (List.nodup_append.mp once).2.1
      rw [List.map_append, List.map_singleton] at twice
      exact (List.nodup_append.mp twice).2.2 job.id came job.id (List.mem_singleton_self _) rfl
    · exact account.delivered
  | @deliver job rest best =>
    constructor <;> simp only [filterMap_snoc, submittedJob, takenId, finishedJob, deliveredId,
      Option.toList, List.append_nil]
    · exact account.waiting
    · exact account.executing
    · exact account.finished.leave best
    · rw [List.map_append, List.map_singleton, account.delivered]

theorem Account.executing_nodup (account : Account events v) :
    (v.executing.map Job.id).Nodup :=
  (List.nodup_append.mp (account.executing.nodup_iff.mp account.waiting.once)).1

/-- Every run of the service keeps the account. -/
theorem account_of_runs (runs : Runs Step idle events v) : Account events v := by
  induction runs with
  | nil => exact account_idle
  | snoc _ step ih => exact ih.step step

/-- A job taken up was submitted, one finished was taken up, one delivered had finished;
each at most once. -/
theorem Account.stages (account : Account events v) :
    (∀ id ∈ events.filterMap takenId, id ∈ (events.filterMap submittedJob).map Job.id) ∧
    (∀ id ∈ (events.filterMap finishedJob).map Job.id, id ∈ events.filterMap takenId) ∧
    (∀ id ∈ events.filterMap deliveredId, id ∈ (events.filterMap finishedJob).map Job.id) :=
  ⟨account.waiting.came, fun _ done => account.executing.mem_iff.mpr (List.mem_append_right _ done),
    account.finished.came⟩

end WebbitAsyncio.Lib.JobService
