import WebbitAsyncio.Source.CompletionCallback

/-!
# Callbacks that throw

While an exception is pending, JNI permits no upcall, and `completion_callback`
(asyncio.c:82-96) makes one all the same. A call of `poll()` does no harm exactly if no
request with a callback is taken from the result queue after one whose callback throws
(`harmless_iff`).
-/
namespace WebbitAsyncio.Guarantees.ThrowingCallbacks
open WebbitAsyncio.Source.EventLoop WebbitAsyncio.Source.EtpPoll
open WebbitAsyncio.Source.CompletionCallback

/-- The requests that the workers finish before one of the first `n` passes. -/
def arrivals (around : Surroundings) (n : Nat) : List Ptr :=
  (List.range n).flatMap fun pass => (around.finished pass).map (·.2)

/-- The requests whose callback has run: it was called while nothing was pending. -/
def haveRun (env : JniEnv) : List Ptr := (env.upcalls.filter fun u => !u.pending).map (·.request)

def withCallback (callback : Ptr → Callback) (l : List Ptr) : List Ptr :=
  l.filter fun req => callback req ≠ .null

/-- No upcall has been made while an exception was pending, one that was thrown is
pending, so that the Java code that called `poll()` gets it, and the finished requests
whose callback has not run are in the queue. -/
structure Harmless (around : Surroundings) (callback : Ptr → Callback) (results : Results)
    (call : Polling) : Prop where
  upcalls : ∀ u ∈ call.env.upcalls, u.pending = false
  propagates : ∀ u ∈ call.env.upcalls, callback u.request = .throws → call.env.pending = true
  kept : (withCallback callback (results.resQueue.toList ++ arrivals around call.pass)).Perm
    (haveRun call.env ++ withCallback callback call.results.resQueue.toList)

/-- What `reqq_shift` yields in the pass `k` passes after `pass`, if the loop gets there. -/
def taken (around : Surroundings) : Nat → Results → Nat → Option Ptr
  | pass, before, 0 => (receive before (around.finished pass)).resQueue.shift.map (·.1)
  | pass, before, k + 1 =>
    match (receive before (around.finished pass)).resQueue.shift with
    | none => none
    | some (_, queue) =>
      taken around (pass + 1) (without (receive before (around.finished pass)) queue) k

/-- After a request whose callback throws, and as long as 0 is handed back, the queue
yields requests without a callback only. -/
def ThrowsLast (around : Surroundings) (callback : Ptr → Callback) (results : Results) : Prop :=
  ∀ i j p q, i < j → taken around 0 results i = some p → taken around 0 results j = some q →
    (∀ k, k < j → around.value k = 0) → callback p = .throws → callback q = .null

/-! ### One completion after the other -/

section
variable {callback : Ptr → Callback}

/-- Of the requests completed, those with a callback are called. -/
theorem foldl_requests (callback : Ptr → Callback) (l : List Ptr) (env : JniEnv) :
    (l.foldl (completionCallback callback) env).upcalls.map (·.request) =
      env.upcalls.map (·.request) ++ withCallback callback l := by
  induction l generalizing env with
  | nil => exact (List.append_nil _).symm
  | cons req rest ih =>
    rw [List.foldl_cons, ih]
    cases kind : callback req with
    | null => simp [completionCallback, withCallback, kind]
    | returns => simp [completionCallback, callObjectMethod, withCallback, kind]
    | throws => simp [completionCallback, callObjectMethod, withCallback, kind]

/-- Nothing clears an exception. -/
theorem foldl_pending (callback : Ptr → Callback) (l : List Ptr) (env : JniEnv) :
    (l.foldl (completionCallback callback) env).pending = true ↔
      env.pending = true ∨ ∃ req ∈ l, callback req = .throws := by
  induction l generalizing env with
  | nil => simp
  | cons req rest ih =>
    rw [List.foldl_cons, ih, List.exists_mem_cons_iff, ← or_assoc]
    cases kind : callback req with
    | null => simp [completionCallback, kind]
    | returns => simp [completionCallback, callObjectMethod, kind]
    | throws => simp [completionCallback, callObjectMethod, kind]

theorem callObjectMethod_upcalls (env : JniEnv) (req : Ptr) (throws : Bool) :
    (∀ u ∈ (callObjectMethod env req throws).upcalls, u.pending = false) ↔
      (∀ u ∈ env.upcalls, u.pending = false) ∧ env.pending = false := by
  rw [callObjectMethod, List.forall_mem_append, List.forall_mem_singleton]

theorem callObjectMethod_pending (env : JniEnv) (req : Ptr) (throws : Bool) :
    (callObjectMethod env req throws).pending = (env.pending || throws) := rfl

/-- An upcall with an exception pending is one that follows a throwing callback. -/
theorem foldl_upcalls_iff (callback : Ptr → Callback) (l : List Ptr) (env : JniEnv) :
    (∀ u ∈ (l.foldl (completionCallback callback) env).upcalls, u.pending = false) ↔
      (∀ u ∈ env.upcalls, u.pending = false) ∧
        (env.pending = true → ∀ req ∈ l, callback req = .null) ∧
        l.Pairwise fun p q => callback p = .throws → callback q = .null := by
  induction l generalizing env with
  | nil => simp
  | cons req rest ih =>
    rw [List.foldl_cons, ih, List.pairwise_cons, List.forall_mem_cons]
    cases kind : callback req with
    | null => simp [completionCallback, kind]
    | returns =>
      simp only [completionCallback, kind, callObjectMethod_upcalls, callObjectMethod_pending]
      cases env.pending <;> simp
    | throws =>
      simp only [completionCallback, kind, callObjectMethod_upcalls, callObjectMethod_pending]
      cases env.pending <;> simp

end

/-! ### One pass after the other -/

section
variable {around : Surroundings} {callback : Ptr → Callback} {results : Results} {call : Polling}

/-- The requests completed and those in the queue are those that have finished, and the
first were completed one after the other. -/
structure Account (around : Surroundings) (callback : Ptr → Callback) (results : Results)
    (call : Polling) : Prop where
  finished : (results.resQueue.toList ++ arrivals around call.pass).Perm
    (call.completed ++ call.results.resQueue.toList)
  env : call.env = call.completed.foldl (completionCallback callback) ⟨false, []⟩

theorem account_enter (around : Surroundings) (callback : Ptr → Callback) (results : Results) :
    Account around callback results (enter results) := by
  refine ⟨?_, rfl⟩
  simp [arrivals, enter]

theorem arrivals_succ (around : Surroundings) (n : Nat) :
    arrivals around (n + 1) = arrivals around n ++ (around.finished n).map (·.2) := by
  rw [arrivals, List.range_succ, List.flatMap_append, List.flatMap_singleton]
  rfl

theorem Account.onePass (account : Account around callback results call) :
    Account around callback results (onePass around callback call) := by
  cases state : call.returned with
  | some value =>
    have same := passes_returned around callback value state 1
    rw [passes, passes] at same
    rwa [same]
  | none =>
    have received := receive_queue_perm call.results (around.finished call.pass)
    cases shifted : (receive call.results (around.finished call.pass)).resQueue.shift with
    | none =>
      rw [onePass_empty _ _ state shifted]
      refine ⟨?_, account.env⟩
      have both := shift_none_nil shifted
      rw [both] at received
      obtain ⟨nothing, _⟩ := List.append_eq_nil_iff.mp (List.nil_perm.mp received)
      show List.Perm _ (call.completed ++ (receive call.results (around.finished call.pass)).resQueue.toList)
      rw [both, ← nothing]
      exact account.finished
    | some entry =>
      obtain ⟨req, queue⟩ := entry
      rw [onePass_took _ _ state shifted]
      rw [ReqQueue.shift_toList shifted] at received
      constructor
      · show List.Perm (_ ++ arrivals around (call.pass + 1)) ((call.completed ++ [req]) ++ queue.toList)
        rw [arrivals_succ, ← List.append_assoc, List.append_assoc call.completed]
        refine (account.finished.append_right _).trans ?_
        rw [List.append_assoc]
        exact received.symm.append_left _
      · show completionCallback callback call.env req = _
        rw [account.env, completing, List.foldl_append]
        rfl

theorem Account.passes (n : Nat) (account : Account around callback results call) :
    Account around callback results (passes around callback n call) := by
  induction n generalizing call with
  | zero => exact account
  | succ n ih => exact ih account.onePass

/-- With no upcall while an exception is pending, nothing else can go wrong. -/
theorem harmless_iff_pairwise (account : Account around callback results call) :
    Harmless around callback results call ↔
      call.completed.Pairwise fun p q => callback p = .throws → callback q = .null := by
  have clean := foldl_upcalls_iff callback call.completed ⟨false, []⟩
  have requests := foldl_requests callback call.completed ⟨false, []⟩
  have pending := foldl_pending callback call.completed ⟨false, []⟩
  rw [← account.env] at clean requests pending
  constructor
  · intro harmless
    exact (clean.mp harmless.upcalls).2.2
  · intro last
    have none_ : ∀ u ∈ call.env.upcalls, u.pending = false := clean.mpr ⟨by simp, by simp, last⟩
    refine ⟨none_, ?_, ?_⟩
    · intro u member throws
      have called : u.request ∈ call.env.upcalls.map (·.request) := List.mem_map_of_mem member
      rw [requests] at called
      exact pending.mpr (.inr ⟨u.request, (List.mem_filter.mp called).1, throws⟩)
    · have run : haveRun call.env = withCallback callback call.completed := by
        rw [haveRun, List.filter_eq_self.mpr fun u member => by simp [none_ u member], requests]
        rfl
      rw [run, withCallback, withCallback, withCallback, ← List.filter_append]
      exact account.finished.filter _

theorem completed_prefix (around : Surroundings) (callback : Ptr → Callback) (n : Nat) (call : Polling) :
    call.completed <+: (passes around callback n call).completed := by
  induction n generalizing call with
  | zero => exact List.prefix_refl _
  | succ n ih =>
    refine List.IsPrefix.trans ?_ (ih _)
    cases state : call.returned with
    | some value => simp [onePass, state]
    | none =>
      cases shifted : (receive call.results (around.finished call.pass)).resQueue.shift with
      | none =>
        have same : (onePass around callback call).completed = call.completed := by
          rw [onePass_empty _ _ state shifted]
        exact same.symm ▸ List.prefix_refl call.completed
      | some entry =>
        rw [onePass_took _ _ state shifted]
        exact List.prefix_append ..

theorem taken_none {pass : Nat} {before : Results}
    (empty : (receive before (around.finished pass)).resQueue.shift = none) (k : Nat) :
    taken around pass before k = none := by
  cases k with
  | zero => rw [taken, empty, Option.map_none]
  | succ k => rw [taken, empty]

theorem taken_zero {pass : Nat} {before : Results} {req : Ptr} {queue : ReqQueue}
    (took : (receive before (around.finished pass)).resQueue.shift = some (req, queue)) :
    taken around pass before 0 = some req := by
  rw [taken, took, Option.map_some]

theorem taken_succ {pass : Nat} {before : Results} {req : Ptr} {queue : ReqQueue}
    (took : (receive before (around.finished pass)).resQueue.shift = some (req, queue)) (k : Nat) :
    taken around pass before (k + 1) =
      taken around (pass + 1) (without (receive before (around.finished pass)) queue) k := by
  rw [taken, took]

theorem completing_length (req : Ptr) (queue : ReqQueue) (returned : Option (BitVec 32)) :
    (completing around callback call req queue returned).completed.length =
      call.completed.length + 1 := List.length_append

/-- What follows in the call leaves the first completion. -/
theorem completed_first (n : Nat) (req : Ptr) (queue : ReqQueue) (returned : Option (BitVec 32)) :
    (passes around callback n
        (completing around callback call req queue returned)).completed[call.completed.length]? =
      some req := by
  obtain ⟨more, isMore⟩ := completed_prefix around callback n
    (completing around callback call req queue returned)
  rw [← isMore, completing, List.append_assoc, List.getElem?_append_right (Nat.le_refl _),
    Nat.sub_self]
  rfl

/-- The requests that the passes complete: those that the queue yields, as long as 0 is
handed back. -/
theorem completed_iff (around : Surroundings) (callback : Ptr → Callback) (n : Nat) (call : Polling)
    (running : call.returned = none) (i : Nat) (p : Ptr) :
    (passes around callback n call).completed[call.completed.length + i]? = some p ↔
      i < n ∧ taken around call.pass call.results i = some p ∧
        ∀ k, k < i → around.value (call.pass + k) = 0 := by
  induction n generalizing call i with
  | zero => simp [passes]
  | succ n ih =>
    rw [passes]
    cases shifted : (receive call.results (around.finished call.pass)).resQueue.shift with
    | none =>
      rw [onePass_empty _ _ running shifted, passes_returned _ _ 0 rfl, taken_none shifted]
      simp
    | some entry =>
      obtain ⟨req, queue⟩ := entry
      rw [onePass_took _ _ running shifted]
      cases i with
      | zero => simp [completed_first, taken_zero shifted]
      | succ i =>
        rw [taken_succ shifted]
        by_cases nonzero : around.value call.pass ≠ 0
        · rw [if_pos nonzero, passes_returned _ _ (around.value call.pass) rfl]
          constructor
          · intro found
            have below := (List.getElem?_eq_some_iff.mp found).1
            rw [completing_length] at below
            omega
          · rintro ⟨_, _, zeros⟩
            exact absurd (zeros 0 (Nat.succ_pos i)) nonzero
        · rw [if_neg nonzero]
          have later := ih (completing around callback call req queue none) rfl i
          rw [completing_length, Nat.add_right_comm] at later
          have shift : ∀ k, call.pass + 1 + k = call.pass + (k + 1) := fun k => by omega
          simp only [← Nat.add_assoc] at later ⊢
          rw [later]
          simp only [completing, shift]
          constructor
          · rintro ⟨below, took, zeros⟩
            refine ⟨by omega, took, fun k bound => ?_⟩
            cases k with
            | zero => exact not_not.mp nonzero
            | succ k => exact zeros k (by omega)
          · rintro ⟨below, took, zeros⟩
            exact ⟨by omega, took, fun k bound => zeros (k + 1) (by omega)⟩

end

/-- During no call of `poll()`, however many passes it makes, is any harm done, if and
only if the queue yields nothing but requests without a callback after a throwing one. -/
theorem harmless_iff (around : Surroundings) (callback : Ptr → Callback) (results : Results) :
    (∀ n, Harmless around callback results (passes around callback n (enter results))) ↔
      ThrowsLast around callback results := by
  have completed (n i : Nat) (p : Ptr) :
      (passes around callback n (enter results)).completed[i]? = some p ↔
        i < n ∧ taken around 0 results i = some p ∧ ∀ k, k < i → around.value k = 0 := by
    have general := completed_iff around callback n (enter results) rfl i p
    simpa only [enter, List.length_nil, Nat.zero_add] using general
  have pairwise (n : Nat) := harmless_iff_pairwise ((account_enter around callback results).passes n)
  simp only [pairwise, List.pairwise_iff_getElem]
  constructor
  · intro last i j p q before takenI takenJ zeros throws
    have atI := (completed (j + 1) i p).mpr ⟨by omega, takenI, fun k below => zeros k (by omega)⟩
    have atJ := (completed (j + 1) j q).mpr ⟨by omega, takenJ, zeros⟩
    obtain ⟨boundI, isP⟩ := List.getElem?_eq_some_iff.mp atI
    obtain ⟨boundJ, isQ⟩ := List.getElem?_eq_some_iff.mp atJ
    have apart := last (j + 1) i j boundI boundJ before
    rw [isP, isQ] at apart
    exact apart throws
  · intro last n i j boundI boundJ before throws
    obtain ⟨_, takenI, _⟩ := (completed n i _).mp (List.getElem?_eq_getElem boundI)
    obtain ⟨_, takenJ, zeros⟩ := (completed n j _).mp (List.getElem?_eq_getElem boundJ)
    exact last i j _ _ before takenI takenJ zeros throws

/-- Nothing arrives, and 0 is handed back each time. -/
def quiet : Surroundings where
  finished := fun _ => []
  value := fun _ => 0
  elapsed := fun _ => 0

/-- Of two finished requests, the callback of the first throws, that of the second is called all the same. -/
theorem second_upcall_pending :
    (passes quiet (fun req => if req.addr = 16 then .throws else .returns) 2 (enter twoFinished)).env =
        ⟨true, [⟨⟨16, 0⟩, false⟩, ⟨⟨32, 1⟩, true⟩]⟩ ∧
      ¬ ∀ around callback results n,
        Harmless around callback results (passes around callback n (enter results)) := by
  have env : (passes quiet (fun req => if req.addr = 16 then .throws else .returns) 2
      (enter twoFinished)).env = ⟨true, [⟨⟨16, 0⟩, false⟩, ⟨⟨32, 1⟩, true⟩]⟩ := rfl
  refine ⟨env, fun harmless => ?_⟩
  have upcalls := (harmless quiet (fun req => if req.addr = 16 then .throws else .returns) twoFinished
    2).upcalls
  rw [env] at upcalls
  have pending := upcalls ⟨⟨32, 1⟩, true⟩ (by simp)
  cases pending

end WebbitAsyncio.Guarantees.ThrowingCallbacks
