import WebbitAsyncio.Lib.TransitionSystem
import WebbitAsyncio.Source.Reqq

/-!
# Runs of the request queue

Submissions (asyncio.c:109-112 and its siblings through `REQ` and `etp_submit`,
eio.c:583-616) interleaved in any order with the shifts of the workers
(eio.c:1574). Only the queue is kept here; threads, locks and completion are in
the event-loop model. `queued` is history: the requests in the queue in the order
of their submission, with the priority their Java caller passed.
-/
namespace WebbitAsyncio.Source.ReqqRun
open WebbitAsyncio.Lib WebbitAsyncio.Lib.TransitionSystem WebbitAsyncio.Source.Reqq

structure Submitted where
  req : Addr
  priority : JInt
  deriving DecidableEq, Repr

structure QueueState where
  links : Links
  reqq : EtpReqq
  queued : List Submitted
  /-- The process aborted, or indexed the queue arrays out of bounds. -/
  crashed : Bool

inductive QueueOp where
  | submit (req : Addr) (priority : JInt)
  | take
  deriving DecidableEq, Repr

/-- A submitted request is a block just allocated, so it is not in the queue. -/
def submit (s : QueueState) (req : Addr) (priority : JInt) : Option QueueState :=
  if req ∈ s.queued.map (·.req) then none
  else
    let links := { s.links with
      pri := Function.update s.links.pri req (etpSubmitPri (reqPri priority)) }
    match reqqPush links s.reqq req with
    | some (links, reqq, _) =>
      some { s with links := links, reqq := reqq, queued := s.queued ++ [⟨req, priority⟩] }
    | none => some { s with crashed := true }

def take (s : QueueState) : QueueState :=
  match reqqShift s.links s.reqq with
  | .empty => s
  | .took req reqq => { s with reqq := reqq, queued := s.queued.eraseP fun e => e.req = req }
  | .aborted => { s with crashed := true }

def queueMachine : Machine QueueState QueueOp where
  init := ⟨⟨fun _ => none, fun _ => 0⟩, emptyReqq, [], false⟩
  step s
    | .submit req priority => if s.crashed then none else submit s req priority
    | .take => if s.crashed then none else some (take s)

/-- The pointers represent buckets that file exactly the queued requests. -/
structure Filed (s : QueueState) (b : Buckets numPri Submitted) : Prop where
  represents : Represents s.links s.reqq (b.map (·.req))
  files : Buckets.Files (fun e => submitIndex e.priority) s.queued b
  distinct : (s.queued.map (·.req)).Nodup
  running : s.crashed = false

theorem Filed.mem_iff {s : QueueState} {b : Buckets numPri Submitted} (h : Filed s b) (req : Addr) :
    req ∈ (b.map (·.req)).toList ↔ req ∈ s.queued.map (·.req) := by
  simp only [Buckets.toList_map, List.mem_map, h.files.mem_toList]

theorem filed_start : Filed queueMachine.init Buckets.empty where
  represents := represents_empty _
  files := Buckets.files_empty _
  distinct := List.nodup_nil
  running := rfl

/-- The links a submission is pushed with still represent the old queue: only
the priority of a block outside it changed. -/
theorem represents_setPri {m : Links} {q : EtpReqq} {b : Buckets numPri Addr} (pri : Addr → BitVec 8)
    (rep : Represents m q b) : Represents { m with pri := pri } q b :=
  ⟨rep.chain, rep.tail, rep.size, rep.distinct⟩

theorem submit_filed {s s' : QueueState} {b : Buckets numPri Submitted} {req : Addr}
    {priority : JInt} (h : Filed s b) (done : submit s req priority = some s') :
    s'.queued = s.queued ++ [⟨req, priority⟩] ∧
      Filed s' (b.push (submitIndex priority) ⟨req, priority⟩) := by
  unfold submit at done
  split at done
  next => cases done
  next fresh =>
    have rep := represents_setPri (Function.update s.links.pri req (etpSubmitPri (reqPri priority)))
      h.represents
    have index : priIndex (Function.update s.links.pri req (etpSubmitPri (reqPri priority)) req) =
        some (submitIndex priority) := by
      rw [Function.update_self]
      exact priIndex_submit priority
    have outside : req ∉ (b.map (·.req)).toList := by rwa [h.mem_iff]
    obtain ⟨links, reqq, pushed, _, after⟩ := reqqPush_represents rep outside index
    simp only [pushed, Option.some.injEq] at done
    subst done
    refine ⟨rfl, ?_, h.files.push ⟨req, priority⟩, ?_, h.running⟩
    · rw [Buckets.map_push]
      exact after
    · rw [List.map_append, List.nodup_append]
      exact ⟨h.distinct, by simp, fun a member c single equal => by
        simp only [List.map_cons, List.map_nil, List.mem_singleton] at single
        exact fresh (single ▸ equal ▸ member)⟩

/-- Erasing by address removes the very entry that was taken. -/
theorem eraseP_taken {before after : List Submitted} {e : Submitted}
    (distinct : ((before ++ e :: after).map (·.req)).Nodup) :
    (before ++ e :: after).eraseP (fun x => x.req = e.req) = before ++ after := by
  rw [List.map_append, List.nodup_append] at distinct
  have skipped : ∀ x ∈ before, ¬ decide (x.req = e.req) = true := by
    intro x member same
    exact distinct.2.2 x.req (List.mem_map_of_mem member) e.req (by simp) (of_decide_eq_true same)
  rw [List.eraseP_append_right _ skipped, List.eraseP_cons_of_pos (by simp)]

/-- What a worker's shift does in a filed queue: nothing when nothing is queued,
else it takes the earliest request of the largest index. -/
theorem take_filed {s : QueueState} {b : Buckets numPri Submitted} (h : Filed s b) :
    (s.queued = [] ∧ reqqShift s.links s.reqq = .empty ∧ take s = s) ∨
    ∃ e rest reqq, reqqShift s.links s.reqq = .took e.req reqq ∧
      Buckets.EarliestLargest (fun e => submitIndex e.priority) s.queued e rest ∧
      (take s).queued = rest ∧ ∃ b', Filed (take s) b' := by
  have shifted := reqqShift_represents h.represents
  rw [Buckets.shift_map] at shifted
  cases taken : b.shift with
  | none =>
    rw [taken] at shifted
    have vacant : s.queued = [] := by
      apply List.eq_nil_iff_forall_not_mem.mpr
      intro e member
      rw [← h.files.mem_toList, Buckets.shift_none.mp taken] at member
      cases member
    have ran : reqqShift s.links s.reqq = .empty := shifted
    exact .inl ⟨vacant, ran, by simp only [take, ran]⟩
  | some pair =>
    obtain ⟨e, b'⟩ := pair
    rw [taken] at shifted
    obtain ⟨reqq, ran, rep⟩ := shifted
    obtain ⟨rest, best, files⟩ := h.files.shift taken
    obtain ⟨before, after, split, kept, _, _⟩ := id best
    have distinct := h.distinct
    rw [split] at distinct
    have erased : s.queued.eraseP (fun x => x.req = e.req) = rest := by
      rw [split, kept]
      exact eraseP_taken distinct
    have result : take s = { s with reqq := reqq, queued := rest } := by
      simp only [take, ran, erased]
    refine .inr ⟨e, rest, reqq, ran, best, by rw [result], b', ?_⟩
    rw [result]
    refine ⟨rep, files, ?_, h.running⟩
    rw [kept]
    exact distinct.sublist (by simp)

theorem step_filed {s s' : QueueState} {op : QueueOp} (h : ∃ b, Filed s b)
    (done : queueMachine.step s op = some s') : ∃ b, Filed s' b := by
  obtain ⟨b, filed⟩ := h
  cases op with
  | submit req priority =>
    simp only [queueMachine, filed.running, Bool.false_eq_true, if_false] at done
    exact ⟨_, (submit_filed filed done).2⟩
  | take =>
    simp only [queueMachine, filed.running, Bool.false_eq_true, if_false, Option.some.injEq] at done
    subst done
    rcases take_filed filed with ⟨_, _, same⟩ | ⟨_, _, _, _, _, _, after⟩
    · exact ⟨b, by rwa [same]⟩
    · exact after

/-- No priority, no interleaving and no length of the run loses the
representation; in particular the process neither aborts nor leaves the arrays. -/
theorem reachable_filed {s : QueueState} (h : Reachable queueMachine s) : ∃ b, Filed s b :=
  h.invariant ⟨_, filed_start⟩ fun _ _ _ filed _ done => step_filed filed done

end WebbitAsyncio.Source.ReqqRun
