import WebbitAsyncio.Invariants.Workers
import WebbitAsyncio.Lib.Census

/-!
# How many workers there are

With any number of Java threads. `etp_maybe_start_thread` reads `started` without a
lock, so that threads that find too few workers at the same time all start one. What
bounds the crew is that a thread on its way to starting one had found fewer than
`wanted`: the workers, and the threads on their way, are never more than three and the
number of Java threads.
-/
namespace WebbitAsyncio.Invariants.Crew
open WebbitAsyncio.Lib.TransitionSystem WebbitAsyncio.Lib.Tally WebbitAsyncio.Lib.Census
open WebbitAsyncio.Source.EventLoop WebbitAsyncio.Invariants.Stack WebbitAsyncio.Invariants.Workers

variable {J : Type}

/-- The worker has not left. -/
def alive : WorkerPc → Bool
  | .exited => false
  | _ => true

def crew (s : State J) : Nat := s.workers.countP alive

/-- Too few workers were found, and none is started yet. -/
def hires : StartPc → Bool
  | .readThreads | .readPending _ | .readReqs _ _ | .spawn => true
  | .checkWanted | .count => false

/-- A worker is started and not counted yet. -/
def counts : StartPc → Bool
  | .count => true
  | .checkWanted | .readThreads | .readPending _ | .readReqs _ _ | .spawn => false

def hiring (stack : List Frame) : Bool := (starting stack).any hires

def counting (stack : List Frame) : Bool := (starting stack).any counts

@[simp] theorem hiring_start (pc : StartPc) (rest : List Frame) :
    hiring (.start pc :: rest) = hires pc := rfl

@[simp] theorem counting_start (pc : StartPc) (rest : List Frame) :
    counting (.start pc :: rest) = counts pc := rfl

def stage (stack : List Frame) : Bool × Bool := (hiring stack, counting stack)

theorem stage_none {stack : List Frame} (outside : starting stack = none) :
    stage stack = (false, false) := by
  rw [stage, hiring, counting, outside]
  rfl

theorem hiring_not_counting (stack : List Frame) (early : hiring stack = true) :
    counting stack = false := by
  unfold hiring at early
  unfold counting
  cases found : starting stack with
  | none => rfl
  | some pc =>
    rw [found] at early
    cases pc <;> first | rfl | cases early

structure Crewed [Fintype J] (s : State J) : Prop where
  counted : s.started + BitVec.ofNat 32 (census counting s.threads) = BitVec.ofNat 32 (crew s)
  bound : crew s + census hiring s.threads ≤ 3 + Fintype.card J

theorem signalled_alive {workers workers' : List WorkerPc} (woke : Signalled workers workers') :
    workers'.countP alive = workers.countP alive := by
  cases woke with
  | lost => rfl
  | @woken w pc found waits =>
    have lives : alive pc = true := by cases pc <;> first | rfl | cases waits
    have count := countP_replaced (P := alive) found .woken
    rw [lives] at count
    exact Nat.add_right_cancel count

section
variable [Fintype J] {s s' : State J}

theorem crewed_start : Crewed (start : State J) := by
  have nobody : census counting (start : State J).threads = 0 := by
    unfold census
    exact Finset.sum_eq_zero fun _ _ => rfl
  have noOne : census hiring (start : State J).threads = 0 := by
    unfold census
    exact Finset.sum_eq_zero fun _ _ => rfl
  refine ⟨by rw [nobody]; rfl, ?_⟩
  rw [noOne]
  exact Nat.zero_le _

theorem Crewed.keep (crewed : Crewed s) (started : s'.started = s.started) (same : crew s' = crew s)
    (stages : ∀ i, stage (s'.threads i) = stage (s.threads i)) : Crewed s' := by
  have hire : census hiring s'.threads = census hiring s.threads :=
    census_congr fun i => congrArg Prod.fst (stages i)
  have count : census counting s'.threads = census counting s.threads :=
    census_congr fun i => congrArg Prod.snd (stages i)
  refine ⟨?_, ?_⟩
  · rw [started, same, count]
    exact crewed.counted
  · rw [same, hire]
    exact crewed.bound

theorem Crewed.worker {w : Nat} {pc pc' : WorkerPc} (crewed : Crewed s)
    (found : s.workers[w]? = some pc) (started : s'.started = s.started)
    (workers : s'.workers = s.workers.set w pc') (threads : s'.threads = s.threads)
    (same : alive pc' = alive pc) : Crewed s' := by
  refine crewed.keep started ?_ fun i => by rw [threads]
  have count := countP_replaced (P := alive) found pc'
  rw [same] at count
  rw [crew, workers, crew]
  exact Nat.add_right_cancel count

variable [DecidableEq J]

theorem Crewed.thread {j : J} {stack : List Frame} (crewed : Crewed s)
    (started : s'.started = s.started) (same : crew s' = crew s)
    (threads : s'.threads = Function.update s.threads j stack)
    (stays : stage stack = stage (s.threads j)) : Crewed s' := by
  refine crewed.keep started same fun i => ?_
  by_cases own : i = j
  · rw [own, threads, Function.update_self, stays]
  · rw [threads, Function.update_of_ne own]

/-- What a step of one thread does to the two counts. -/
theorem census_stack {j : J} {stack : List Frame}
    (threads : s'.threads = Function.update s.threads j stack) :
    census hiring s'.threads + (hiring (s.threads j)).toNat =
        census hiring s.threads + (hiring stack).toNat ∧
      census counting s'.threads + (counting (s.threads j)).toNat =
        census counting s.threads + (counting stack).toNat := by
  rw [threads]
  exact ⟨census_update _ _ _ _, census_update _ _ _ _⟩

/-- The thread has found fewer than `wanted`. -/
theorem below_crewed {j : J} {rest : List Frame} (few : Fintype.card J + 3 < 2 ^ 32)
    (crewed : Crewed s) (top : s.threads j = .start .checkWanted :: rest)
    (low : ¬ wanted ≤ s.started) :
    Crewed (s.setStack j (.start .readThreads :: rest)) := by
  have ⟨hire, count⟩ := census_stack (s := s) (j := j)
    (State.setStack_threads s j (.start .readThreads :: rest))
  have first : hiring (s.threads j) = false := by rw [top]; rfl
  have second : counting (s.threads j) = false := by rw [top]; rfl
  have parties := census_add_lt hiring_not_counting first second
  have started : s.started.toNat < 4 := by
    rw [BitVec.not_le] at low
    exact low
  have number := congrArg BitVec.toNat crewed.counted
  have bound := crewed.bound
  rw [BitVec.toNat_add, BitVec.toNat_ofNat, BitVec.toNat_ofNat] at number
  have fits : crew s < 2 ^ 32 := by omega
  rw [Nat.mod_eq_of_lt fits] at number
  simp only [first, second, hiring_start, counting_start, hires, counts, Bool.toNat_true,
    Bool.toNat_false, Nat.add_zero] at hire count
  refine ⟨?_, ?_⟩
  · rw [State.setStack_started, count]
    exact crewed.counted
  · show crew s + _ ≤ _
    omega

theorem control_crewed {j : J} {stack : List Frame} (few : Fintype.card J + 3 < 2 ^ 32)
    (crewed : Crewed s) (stacked : Stacked (s.threads j)) (moved : Control s (s.threads j) stack) :
    Crewed (s.setStack j stack) := by
  generalize before : s.threads j = old at moved stacked
  have stays : stage stack = stage old → Crewed (s.setStack j stack) := fun same =>
    crewed.thread rfl rfl rfl (by rw [before]; exact same)
  cases moved with
  | enter java entry =>
    refine stays ?_
    rw [stage_none (starting_java java)]
    cases entry <;> rfl
  | ret | enough | readable | flushed =>
    refine stays ?_
    rw [stage_none (starting_below stacked)]
    rfl
  | below low => exact below_crewed few crewed before low
  | readThreads | readPending | short | loop | flushing | callPoll => exact stays rfl
  | served =>
    have ⟨hire, count⟩ := census_stack (s := s) (j := j) (State.setStack_threads s j stack)
    have outside := stage_none (starting_below stacked)
    simp only [stage, Prod.mk.injEq] at outside
    simp only [before, outside, hiring_start, counting_start, hires, counts, Bool.toNat_true,
      Bool.toNat_false, Nat.add_zero] at hire count
    have bound := crewed.bound
    refine ⟨?_, ?_⟩
    · rw [State.setStack_started, count]
      exact crewed.counted
    · show crew s + _ ≤ _
      omega

theorem spawn_crewed {j : J} {rest : List Frame} (crewed : Crewed s)
    (top : s.threads j = .start .spawn :: rest)
    (workers : s'.workers = s.workers ++ [WorkerPc.shift]) (started : s'.started = s.started)
    (threads : s'.threads = Function.update s.threads j (.start .count :: rest)) : Crewed s' := by
  have ⟨hire, count⟩ := census_stack threads
  simp only [top, hiring_start, counting_start, hires, counts, Bool.toNat_true, Bool.toNat_false,
    Nat.add_zero] at hire count
  have more : crew s' = crew s + 1 := by
    rw [crew, workers, List.countP_append]
    rfl
  have bound := crewed.bound
  refine ⟨?_, ?_⟩
  · rw [more, count, started, BitVec.ofNat_add, BitVec.ofNat_add, ← crewed.counted,
      BitVec.add_assoc]
  · omega

theorem count_crewed {j : J} {rest : List Frame} (crewed : Crewed s)
    (stacked : Stacked (s.threads j)) (top : s.threads j = .start .count :: rest)
    (workers : s'.workers = s.workers) (started : s'.started = s.started + 1)
    (threads : s'.threads = Function.update s.threads j rest) : Crewed s' := by
  have ⟨hire, count⟩ := census_stack threads
  rw [top] at stacked
  have outside := stage_none (starting_below stacked)
  simp only [stage, Prod.mk.injEq] at outside
  simp only [top, outside, hiring_start, counting_start, hires, counts, Bool.toNat_true,
    Bool.toNat_false, Nat.add_zero] at hire count
  have same : crew s' = crew s := by rw [crew, workers, crew]
  have bound := crewed.bound
  refine ⟨?_, ?_⟩
  · rw [same, started, ← crewed.counted, ← count, BitVec.ofNat_add, BitVec.add_assoc,
      BitVec.add_comm 1]
    rfl
  · omega

omit [DecidableEq J] in
theorem quit_crewed {w : Nat} (crewed : Crewed s) (found : s.workers[w]? = some .quit)
    (workers : s'.workers = s.workers.set w .exited) (started : s'.started = s.started - 1)
    (threads : s'.threads = s.threads) : Crewed s' := by
  have count := countP_replaced (P := alive) found .exited
  have less : crew s' + 1 = crew s := by
    rw [crew, workers]
    exact count
  have bound := crewed.bound
  refine ⟨?_, ?_⟩
  · have counted := crewed.counted
    rw [← less, BitVec.ofNat_add] at counted
    rw [started, threads]
    generalize BitVec.ofNat 32 (census counting s.threads) = onTheWay at counted ⊢
    generalize BitVec.ofNat 32 (crew s') = left at counted ⊢
    bv_omega
  · rw [threads]
    omega

/-! ### The step and the run -/

theorem transition_crewed {a : Action J} (few : Fintype.card J + 3 < 2 ^ 32)
    (stacked : ∀ j, Stacked (s.threads j)) (crewed : Crewed s) (step : Transition s a s') :
    Crewed s' := by
  cases step with
  | submit java =>
    refine crewed.thread rfl rfl rfl ?_
    rw [stage_none (starting_java java)]
    rfl
  | control moved => exact control_crewed few crewed (stacked _) moved
  | enqueue top _ woke =>
    refine crewed.thread rfl (signalled_alive woke) rfl ?_
    rw [top]
    rfl
  | spawn top => exact spawn_crewed crewed top rfl rfl rfl
  | @count j c rest top => exact count_crewed crewed (stacked j) top rfl rfl rfl
  | @readBack j c p data rest top =>
    have below := stacked j
    rw [top] at below
    refine crewed.thread rfl rfl rfl ?_
    rw [top, stage_none (starting_below below)]
    rfl
  | @unlockEmpty j c rest top =>
    have below := stacked j
    rw [top] at below
    refine crewed.thread rfl rfl rfl ?_
    rw [top, stage_none (starting_below below)]
    rfl
  | wrap top | pollLock top | shiftEmpty top | shiftTook top | donePoll top | unlockTook top
  | decReqs top | complete top | noCallback top | upcall top | unref top | freeData top =>
    refine crewed.thread rfl rfl rfl ?_
    rw [top]
    rfl
  | @destroy j c rest p res top =>
    have below := stacked j
    rw [top] at below
    refine crewed.thread rfl rfl rfl ?_
    rw [top]
    split
    next => rfl
    next => rw [stage_none (starting_below below)]; rfl
  | idling found step =>
    refine crewed.worker found rfl rfl rfl ?_
    cases step with
    | sleep shifting => cases shifting <;> rfl
    | spurious waits => cases ‹WorkerPc› <;> first | rfl | cases waits
    | timeout | surplus | stay => rfl
  | workerTake found shifting =>
    refine crewed.worker found rfl rfl rfl ?_
    cases shifting <;> rfl
  | exec found | workerLock found | wantPoll found | workerUnlock found =>
    exact crewed.worker found rfl rfl rfl rfl
  | push found =>
    refine crewed.worker found rfl rfl rfl ?_
    split <;> rfl
  | quit found => exact quit_crewed crewed found rfl rfl rfl

theorem crewed (few : Fintype.card J + 3 < 2 ^ 32) {ok : State J → Action J → Prop}
    (h : ReachableBy (eventLoop J) ok s) : Crewed s :=
  invariant_of_known (fun _ => stacked) crewed_start
    (fun _ _ _ known holds _ step => transition_crewed few known holds step) h

end

end WebbitAsyncio.Invariants.Crew
