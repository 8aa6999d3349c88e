import Mathlib.Tactic.Simps.Basic
import WebbitAsyncio.Lib.TransitionSystem
import WebbitAsyncio.Source.Reqq

/-!
# Java threads, libeio's workers and the memory they share

One step relation for asyncio.c:15-112 and the part of libeio it drives:
`etp_submit` (eio.c:583-616), `etp_maybe_start_thread` (474-487), `etp_poll`
(506-556), `eio_finish` (703-728) and the worker loop `etp_proc` (1558-1629).
Any number of Java threads, each with its own call stack, interleave with any
number of workers.

What is a step. A section under `reqlock` or `wrklock` is one step (no such
section calls out of libeio, and none holds two locks); a wait on `reqwait`
splits it where POSIX does, so that waking, timing out and re-acquiring are steps
of their own. Sections under `reslock` call `want_poll`/`done_poll`, hence their
lock, body, pipe access and unlock are separate. Counters read without a lock are
read one at a time.

What is left out. Requests of type `EIO_GROUP` or -1, cancellation and poll
limits, none of which AsyncIO can produce (max_poll_reqs and max_poll_time stay
0, so the opening section of `etp_poll` has no effect); what a request asks the
worker to do, of which only the outcome it stores is kept. The heap holds each
`eio_req` and each `java_data`; the strings and result buffers of requests and the
workers' own structures are not in it. Allocations succeed and return any free
address. Unsigned counters wrap at 2^32; `size` of a queue is
an `int` whose overflow C leaves undefined, and is a plain integer here.
-/
namespace WebbitAsyncio.Source.EventLoop
open WebbitAsyncio.Lib WebbitAsyncio.Lib.TransitionSystem
open WebbitAsyncio.Source.Reqq (Addr JInt numPri submitIndex)

/-- A JNI global reference; handles, like addresses, may be handed out again. -/
abbrev Ref : Type := Nat

/-- The number of a submission, in the order of the calls. -/
abbrev ReqId : Type := Nat

/-- `unsigned int`. -/
abbrev UInt : Type := BitVec 32

def wanted : UInt := 4
def maxIdle : UInt := 4

inductive Obj where
  | callback (n : Nat)
  | wrapper (n : Nat)
  deriving DecidableEq, Repr

/-- A pointer to an `eio_req`. `id` names the submission it was made for; it is
history, and no branch of a step depends on it. -/
structure Ptr where
  addr : Addr
  id : ReqId
  deriving DecidableEq, Repr

/-- `struct java_data`, asyncio.c:66-71. `javaRequest` is `none` until
`wrap_request` stores it: the `bzero` in `alloc_java_data` clears the first eight
bytes only, so that until then the member is indeterminate. -/
structure JavaData (J : Type) where
  env : J
  javaCallback : Option Ref
  javaRequest : Option Ref
  complete : Bool
  id : ReqId
  deriving DecidableEq, Repr

/-- The members of `eio_req` used between submission and completion. -/
structure EioReq where
  data : Addr
  pri : Fin numPri
  result : BitVec 64
  errorno : BitVec 32
  id : ReqId
  deriving DecidableEq, Repr

inductive Block (J : Type) where
  | req (r : EioReq)
  | data (d : JavaData J)
  deriving DecidableEq, Repr

/-- `etp_reqq` as nine lists; `Represents` in the pointer model is what connects
the two. The element count is part of the structure, with the proof that it is one. -/
structure ReqQueue where
  queues : Buckets numPri Ptr
  size : Int
  size_eq : size = queues.toList.length

def ReqQueue.empty : ReqQueue := ⟨Buckets.empty, 0, by simp⟩

def ReqQueue.toList (q : ReqQueue) : List Ptr := q.queues.toList

def ReqQueue.push (q : ReqQueue) (pri : Fin numPri) (p : Ptr) : ReqQueue :=
  ⟨q.queues.push pri p, q.size + 1, by rw [Buckets.toList_push_length, q.size_eq]; omega⟩

def ReqQueue.shift (q : ReqQueue) : Option (Ptr × ReqQueue) :=
  match taken : q.queues.shift with
  | none => none
  | some (p, rest) =>
    some (p, ⟨rest, q.size - 1, by
      rw [q.size_eq, Buckets.shift_toList taken, List.length_cons]; omega⟩)

theorem ReqQueue.shift_none {q : ReqQueue} : q.shift = none ↔ q.size = 0 := by
  unfold ReqQueue.shift
  split
  next vacant => simp [q.size_eq, Buckets.shift_none.mp vacant]
  next p rest taken => simp [q.size_eq, Buckets.shift_toList taken]; omega

theorem ReqQueue.shift_toList {q rest : ReqQueue} {p : Ptr} (h : q.shift = some (p, rest)) :
    q.toList = p :: rest.toList := by
  unfold ReqQueue.shift at h
  split at h
  next => cases h
  next p' rest' taken =>
    simp only [Option.some.injEq, Prod.mk.injEq] at h
    obtain ⟨rfl, rfl⟩ := h
    exact Buckets.shift_toList taken

theorem ReqQueue.size_eq_length (q : ReqQueue) : q.size = q.toList.length := q.size_eq

theorem ReqQueue.size_shift {q rest : ReqQueue} {p : Ptr} (h : q.shift = some (p, rest)) :
    rest.size = q.size - 1 := by
  rw [size_eq_length, size_eq_length, shift_toList h, List.length_cons]
  omega

theorem ReqQueue.mem_push {q : ReqQueue} {pri : Fin numPri} {p x : Ptr} :
    x ∈ (q.push pri p).toList ↔ x = p ∨ x ∈ q.toList := Buckets.mem_toList_push ..

theorem ReqQueue.nodup_push {q : ReqQueue} {pri : Fin numPri} {p : Ptr} (distinct : q.toList.Nodup)
    (fresh : p ∉ q.toList) : (q.push pri p).toList.Nodup :=
  (Buckets.toList_push_perm q.queues pri p).nodup_iff.mpr (List.nodup_cons.mpr ⟨fresh, distinct⟩)

/-- Where `etp_maybe_start_thread` stands. -/
inductive StartPc where
  | checkWanted
  | readThreads
  | readPending (threads : UInt)
  | readReqs (threads pending : UInt)
  | spawn
  | count
  deriving DecidableEq, Repr

/-- Where a submit operation stands after `alloc_java_data` and `REQ`. -/
inductive SubmitPc where
  | enqueue
  | wrap
  | readBack
  deriving DecidableEq, Repr

/-- Where `etp_poll` stands, down through `eio_finish` and `completion_callback`. -/
inductive PollPc where
  | loop
  | lockRes
  | shift
  | donePoll (p : Ptr)
  | unlockRes (taken : Option Ptr)
  | decReqs (p : Ptr)
  | complete (p : Ptr)
  | upcall (p : Ptr)
  | unref (p : Ptr)
  | freeData (p : Ptr)
  | destroy (p : Ptr) (res : BitVec 32)
  deriving DecidableEq, Repr

inductive FlushPc where
  | test
  | callPoll
  deriving DecidableEq, Repr

/-- A frame of a Java thread's stack. The empty stack is the program itself. -/
inductive Frame where
  | submit (pc : SubmitPc) (p : Ptr) (data : Addr)
  | start (pc : StartPc)
  | poll (pc : PollPc)
  | block
  | flush (pc : FlushPc)
  | callback (id : ReqId)
  deriving DecidableEq, Repr

/-- Where a worker stands in `etp_proc`. -/
inductive WorkerPc where
  | shift
  | timedWait
  | expired
  | wait
  | woken
  | exec (p : Ptr)
  | lockRes (p : Ptr)
  | push (p : Ptr)
  | wantPoll
  | unlockRes
  | quit
  | exited
  deriving DecidableEq, Repr

/-- How far the frame that holds a request has brought it. -/
inductive FrameStage where
  | submitting
  | taken
  | begun
  | marked
  | called
  | unreffed
  | dataFreed
  deriving DecidableEq, Repr

inductive WorkerStage where
  | running
  | executed
  deriving DecidableEq, Repr

/-- Where a request is: held by the frame at height `h` of a stack, in a queue,
held by a worker, or freed. -/
inductive Place (J : Type) where
  | frame (j : J) (h : Nat) (k : FrameStage)
  | reqQueue
  | worker (w : Nat) (k : WorkerStage)
  | resQueue
  | gone
  deriving DecidableEq, Repr

/-- One `CallObjectMethod` of `completion_callback`. -/
structure Upcall (J : Type) where
  callback : Option Obj
  request : Option Obj
  env : J
  thread : J
  deriving DecidableEq, Repr

/-- Whether the submit operation has returned, and what; until then the height of its
frame, and the wrapper once it is stored. -/
inductive SubmitState where
  | pending (h : Nat)
  | wrapped (h : Nat) (wrapper : Obj)
  | returned (wrapper : Option Obj)
  deriving DecidableEq, Repr

/-- The history of one submission. -/
structure Ticket (J : Type) where
  owner : J
  callback : Option Obj
  req : Addr
  data : Addr
  submit : SubmitState
  place : Place J
  outcome : Option (BitVec 64 × BitVec 32)
  upcalls : List (Upcall J)
  deriving DecidableEq, Repr

/-- Who holds `reslock`. -/
inductive Holder (J : Type) where
  | thread (j : J)
  | worker (w : Nat)
  deriving DecidableEq, Repr

structure State (J : Type) where
  heap : Addr → Option (Block J)
  refs : Ref → Option Obj
  objects : Nat
  reqQueue : ReqQueue
  resQueue : ReqQueue
  nreqs : UInt
  nready : UInt
  npending : UInt
  started : UInt
  idle : UInt
  reslock : Option (Holder J)
  pipe : Nat
  workers : List WorkerPc
  threads : J → List Frame
  tickets : List (Ticket J)
  /-- Submissions whose `wrap_request` used a `java_data` no longer theirs. -/
  stray : List ReqId

/-- What the environment decides in a step of C code: which waiter a signal
wakes, the handle `NewGlobalRef` returns, the value that `completion_callback`
leaves in the return register, and what the executed system call yields. -/
structure Choice where
  wake : Option Nat := none
  ref : Ref := 0
  value : BitVec 32 := 0
  result : BitVec 64 := 0
  errorno : BitVec 32 := 0
  deriving DecidableEq, Repr

inductive Action (J : Type) where
  /-- Java code calls a submit operation; `req`, `data` and `ref` are what the
  allocators return. -/
  | submit (j : J) (pri : JInt) (callback : Option Obj) (req data : Addr) (ref : Ref)
  | poll (j : J)
  | block (j : J)
  | flush (j : J)
  /-- A callback returns normally. -/
  | ret (j : J)
  /-- The C code, or `flush`, on top of the stack takes its next step. -/
  | go (j : J) (choice : Choice)
  | worker (w : Nat) (choice : Choice)
  /-- The timed wait of a worker expires. -/
  | timeout (w : Nat)
  /-- A wait on `reqwait` returns without a signal, as POSIX allows. -/
  | spurious (w : Nat)
  deriving DecidableEq, Repr

variable {J : Type} [DecidableEq J]

namespace State

@[simps -fullyApplied]
def setStack (s : State J) (j : J) (stack : List Frame) : State J :=
  { s with threads := Function.update s.threads j stack }

@[simps -fullyApplied]
def setWorker (s : State J) (w : Nat) (pc : WorkerPc) : State J :=
  { s with workers := s.workers.set w pc }

@[simps -fullyApplied]
def setBlock (s : State J) (a : Addr) (b : Option (Block J)) : State J :=
  { s with heap := Function.update s.heap a b }

@[simps -fullyApplied]
def setRef (s : State J) (r : Ref) (o : Option Obj) : State J :=
  { s with refs := Function.update s.refs r o }

/-- `DeleteGlobalRef` accepts the null handle, and `NewGlobalRef` of null is null. -/
@[simps -fullyApplied]
def storeRef (s : State J) (r : Option Ref) (o : Option Obj) : State J :=
  { s with refs := r.elim s.refs fun r => Function.update s.refs r o }

@[simps -fullyApplied]
def track (s : State J) (id : ReqId) (f : Ticket J → Ticket J) : State J :=
  { s with tickets := s.tickets.modify id f }

@[simps! -fullyApplied]
def move (s : State J) (id : ReqId) (place : Place J) : State J :=
  s.track id fun t => { t with place := place }

def reqAt (s : State J) (a : Addr) : Option EioReq :=
  match s.heap a with
  | some (.req r) => some r
  | _ => none

def dataAt (s : State J) (a : Addr) : Option (JavaData J) :=
  match s.heap a with
  | some (.data d) => some d
  | _ => none

end State

def Frame.isCallback : Frame → Bool
  | .callback _ => true
  | _ => false

/-- The thread is in Java code of the application: in its program or in a callback. -/
def inJava (stack : List Frame) : Bool :=
  match stack with
  | [] => true
  | f :: _ => f.isCallback

def WorkerPc.waiting : WorkerPc → Bool
  | .timedWait | .wait => true
  | _ => false

/-- `pthread_cond_signal`: one of the threads waiting at this moment wakes up; if
there is none, nothing happens. -/
def signal (s : State J) (wake : Option Nat) : Option (State J) :=
  match wake with
  | none => if s.workers.any WorkerPc.waiting then none else some s
  | some w =>
    match s.workers[w]? with
    | some pc => if pc.waiting then some (s.setWorker w .woken) else none
    | none => none

/-- The state after `alloc_java_data` and `REQ`. -/
def submitted (s : State J) (j : J) (pri : JInt) (callback : Option Obj) (req data : Addr)
    (ref : Ref) : State J :=
  let stack := s.threads j
  let id := s.tickets.length
  let handle := callback.map fun _ => ref
  let s := s.setBlock data (some (.data ⟨j, handle, none, false, id⟩))
  let s := s.setBlock req (some (.req ⟨data, submitIndex pri, 0, 0, id⟩))
  let s := s.storeRef handle callback
  let ticket : Ticket J := ⟨j, callback, req, data, .pending stack.length,
    .frame j stack.length .submitting, none, []⟩
  { s with tickets := s.tickets ++ [ticket] }.setStack j (.submit .enqueue ⟨req, id⟩ data :: stack)

/-- A submit operation up to `eio_submit`; only fresh memory is touched. -/
def callSubmit (s : State J) (j : J) (pri : JInt) (callback : Option Obj) (req data : Addr)
    (ref : Ref) : Option (State J) :=
  if inJava (s.threads j) ∧ s.heap req = none ∧ s.heap data = none ∧ req ≠ data ∧
      (callback ≠ none → s.refs ref = none) then
    some (submitted s j pri callback req data ref)
  else none

/-- The critical section of `etp_submit`. -/
def etpSubmit (s : State J) (p : Ptr) (wake : Option Nat) : Option (State J) :=
  (s.reqAt p.addr).bind fun r =>
    signal ({ s with
      nreqs := s.nreqs + 1
      nready := s.nready + 1
      reqQueue := s.reqQueue.push r.pri p }.move p.id .reqQueue) wake

/-- The heap after `data->java_request = ref`, whatever is at `data` now. -/
def storeRequest (s : State J) (data : Addr) (ref : Ref) : Addr → Option (Block J) :=
  match s.dataAt data with
  | some d => Function.update s.heap data (some (.data { d with javaRequest := some ref }))
  | none => s.heap

/-- The submissions that have gone astray, once `wrap_request` has used `data`. -/
def strayed (s : State J) (p : Ptr) (data : Addr) : List ReqId :=
  if (s.dataAt data).map JavaData.id = some p.id then s.stray else p.id :: s.stray

/-- The state after the store in `wrap_request`, in which the address passed in is used
without regard to what became of the block. -/
def wrapped (s : State J) (p : Ptr) (data : Addr) (ref : Ref) (h : Nat) : State J :=
  let wrapper := Obj.wrapper s.objects
  { s.setRef ref (some wrapper) with
    heap := storeRequest s data ref
    objects := s.objects + 1
    stray := strayed s p data }.track p.id fun t => { t with submit := .wrapped h wrapper }

def wrapRequest (s : State J) (p : Ptr) (data : Addr) (ref : Ref) (h : Nat) : Option (State J) :=
  if s.refs ref = none then some (wrapped s p data ref h) else none

/-- The object of the handle `data->java_request`, whatever is at `data` now. -/
def requestAt (s : State J) (data : Addr) : Option Obj :=
  (s.dataAt data).bind fun d => d.javaRequest.bind s.refs

/-- The state after `return data->java_request`. -/
def readBack (s : State J) (p : Ptr) (data : Addr) : State J :=
  { s with stray := strayed s p data }.track p.id fun t =>
    { t with submit := .returned (requestAt s data) }

def goSubmit (s : State J) (j : J) (pc : SubmitPc) (p : Ptr) (data : Addr) (rest : List Frame)
    (choice : Choice) : Option (State J) :=
  match pc with
  | .enqueue => (etpSubmit s p choice.wake).map fun s =>
      s.setStack j (.start .checkWanted :: .submit .wrap p data :: rest)
  | .wrap => (wrapRequest s p data choice.ref rest.length).map fun s =>
      s.setStack j (.submit .readBack p data :: rest)
  | .readBack => some ((readBack s p data).setStack j rest)

/-- `etp_maybe_start_thread`; the decision is taken in `int`. -/
def goStart (s : State J) (j : J) (pc : StartPc) (rest : List Frame) : State J :=
  match pc with
  | .checkWanted =>
    if wanted ≤ s.started then s.setStack j rest else s.setStack j (.start .readThreads :: rest)
  | .readThreads => s.setStack j (.start (.readPending s.started) :: rest)
  | .readPending threads => s.setStack j (.start (.readReqs threads s.npending) :: rest)
  | .readReqs threads pending =>
    if 0 ≤ threads.toInt + pending.toInt - s.nreqs.toInt then s.setStack j rest
    else s.setStack j (.start .spawn :: rest)
  | .spawn => { s with workers := s.workers ++ [WorkerPc.shift] }.setStack j (.start .count :: rest)
  | .count => { s with started := s.started + 1 }.setStack j rest

/-- `CallObjectMethod` of `completion_callback`, run by thread `j`. -/
def upcallOf (s : State J) (j : J) (d : JavaData J) (handle : Ref) : Upcall J :=
  ⟨s.refs handle, d.javaRequest.bind s.refs, d.env, j⟩

/-- The upcall of `completion_callback`, made if the callback is not null. -/
def upcall (s : State J) (j : J) (p : Ptr) (rest : List Frame) : Option (State J) :=
  (s.reqAt p.addr).bind fun r => (s.dataAt r.data).map fun d =>
    let moved := s.move p.id (.frame j rest.length .called)
    match d.javaCallback with
    | none => moved.setStack j (.poll (.unref p) :: rest)
    | some handle =>
      let call := upcallOf s j d handle
      (moved.track p.id fun t => { t with upcalls := t.upcalls ++ [call] }).setStack j
        (.callback p.id :: .poll (.unref p) :: rest)

def goPoll (s : State J) (j : J) (pc : PollPc) (rest : List Frame) (choice : Choice) :
    Option (State J) :=
  let h := rest.length
  match pc with
  | .loop => some (s.setStack j (.start .checkWanted :: .poll .lockRes :: rest))
  | .lockRes =>
    if s.reslock = none then
      some ({ s with reslock := some (.thread j) }.setStack j (.poll .shift :: rest))
    else none
  | .shift =>
    match s.resQueue.shift with
    | none => some (s.setStack j (.poll (.unlockRes none) :: rest))
    | some (p, queue) =>
      let s := { s with resQueue := queue, npending := s.npending - 1 }.move p.id (.frame j h .taken)
      some (s.setStack j
        (.poll (if queue.size = 0 then .donePoll p else .unlockRes (some p)) :: rest))
  | .donePoll p =>
    if 0 < s.pipe then
      some ({ s with pipe := s.pipe - 1 }.setStack j (.poll (.unlockRes (some p)) :: rest))
    else none
  | .unlockRes none => some ({ s with reslock := none }.setStack j rest)
  | .unlockRes (some p) => some ({ s with reslock := none }.setStack j (.poll (.decReqs p) :: rest))
  | .decReqs p =>
    some (({ s with nreqs := s.nreqs - 1 }.move p.id (.frame j h .begun)).setStack j
      (.poll (.complete p) :: rest))
  | .complete p =>
    (s.reqAt p.addr).bind fun r => (s.dataAt r.data).map fun d =>
      ((s.setBlock r.data (some (.data { d with complete := true }))).move p.id
        (.frame j h .marked)).setStack j (.poll (.upcall p) :: rest)
  | .upcall p => upcall s j p rest
  | .unref p =>
    (s.reqAt p.addr).bind fun r => (s.dataAt r.data).map fun d =>
      (((s.storeRef d.javaCallback none).storeRef d.javaRequest none).move p.id
        (.frame j h .unreffed)).setStack j (.poll (.freeData p) :: rest)
  | .freeData p =>
    (s.reqAt p.addr).map fun r =>
      ((s.setBlock r.data none).move p.id (.frame j h .dataFreed)).setStack j
        (.poll (.destroy p choice.value) :: rest)
  | .destroy p res =>
    let s := (s.setBlock p.addr none).move p.id .gone
    some (s.setStack j (if res = 0 then .poll .loop :: rest else rest))

/-- `numRequests()`, a `jint`. -/
def numRequests (s : State J) : Int := s.nreqs.toInt

/-- `numPending()`, a `jint`. -/
def numPending (s : State J) : Int := s.npending.toInt

/-- `poll(&pfd, 1, -1)` returns only when the pipe is readable. -/
def goBlock (s : State J) (j : J) (rest : List Frame) : Option (State J) :=
  if 0 < s.pipe then some (s.setStack j rest) else none

/-- `while (numRequests() > 0) { block(); poll(); }`. -/
def goFlush (s : State J) (j : J) (pc : FlushPc) (rest : List Frame) : State J :=
  match pc with
  | .test =>
    if 0 < numRequests s then s.setStack j (.block :: .flush .callPoll :: rest)
    else s.setStack j rest
  | .callPoll => s.setStack j (.poll .loop :: .flush .test :: rest)

def goThread (s : State J) (j : J) (choice : Choice) : Option (State J) :=
  match s.threads j with
  | [] => none
  | .callback _ :: _ => none
  | .submit pc p data :: rest => goSubmit s j pc p data rest choice
  | .start pc :: rest => some (goStart s j pc rest)
  | .poll pc :: rest => goPoll s j pc rest choice
  | .block :: rest => goBlock s j rest
  | .flush pc :: rest => some (goFlush s j pc rest)

/-- The section of `etp_proc` that shifts, and waits if there is nothing. -/
def workerShift (s : State J) (w : Nat) : State J :=
  match s.reqQueue.shift with
  | none => { s with idle := s.idle + 1 }.setWorker w .timedWait
  | some (p, queue) =>
    ({ s with reqQueue := queue, nready := s.nready - 1 }.move p.id (.worker w .running)).setWorker w
      (.exec p)

def goWorker (s : State J) (w : Nat) (pc : WorkerPc) (choice : Choice) : Option (State J) :=
  match pc with
  | .shift => some (workerShift s w)
  | .woken => some (workerShift { s with idle := s.idle - 1 } w)
  | .timedWait => none
  | .wait => none
  | .expired =>
    some (if maxIdle < s.idle then { s with idle := s.idle - 1 }.setWorker w .quit
      else s.setWorker w .wait)
  | .exec p =>
    (s.reqAt p.addr).map fun r =>
      ((s.setBlock p.addr (some (.req { r with
        result := choice.result, errorno := choice.errorno }))).track p.id fun t =>
          { t with place := .worker w .executed
                   outcome := some (choice.result, choice.errorno) }).setWorker w (.lockRes p)
  | .lockRes p =>
    if s.reslock = none then
      some ({ s with reslock := some (.worker w) }.setWorker w (.push p))
    else none
  | .push p =>
    (s.reqAt p.addr).map fun r =>
      ({ s with npending := s.npending + 1, resQueue := s.resQueue.push r.pri p }.move p.id
        .resQueue).setWorker w (if s.resQueue.size = 0 then .wantPoll else .unlockRes)
  | .wantPoll => some ({ s with pipe := s.pipe + 1 }.setWorker w .unlockRes)
  | .unlockRes => some ({ s with reslock := none }.setWorker w .shift)
  | .quit => some ({ s with started := s.started - 1 }.setWorker w .exited)
  | .exited => none

def step (s : State J) : Action J → Option (State J)
  | .submit j pri callback req data ref => callSubmit s j pri callback req data ref
  | .poll j => if inJava (s.threads j) then some (s.setStack j (.poll .loop :: s.threads j)) else none
  | .block j => if inJava (s.threads j) then some (s.setStack j (.block :: s.threads j)) else none
  | .flush j =>
    if inJava (s.threads j) then some (s.setStack j (.flush .test :: s.threads j)) else none
  | .ret j =>
    match s.threads j with
    | .callback _ :: rest => some (s.setStack j rest)
    | _ => none
  | .go j choice => goThread s j choice
  | .worker w choice => (s.workers[w]?).bind fun pc => goWorker s w pc choice
  | .timeout w =>
    match s.workers[w]? with
    | some .timedWait => some (s.setWorker w .expired)
    | _ => none
  | .spurious w =>
    match s.workers[w]? with
    | some pc => if pc.waiting then some (s.setWorker w .woken) else none
    | none => none

/-- The library after `init()`, before any other call. -/
def start : State J where
  heap := fun _ => none
  refs := fun _ => none
  objects := 0
  reqQueue := .empty
  resQueue := .empty
  nreqs := 0
  nready := 0
  npending := 0
  started := 0
  idle := 0
  reslock := none
  pipe := 0
  workers := []
  threads := fun _ => []
  tickets := []
  stray := []

def eventLoop (J : Type) [DecidableEq J] : Machine (State J) (Action J) := ⟨start, step⟩

end WebbitAsyncio.Source.EventLoop
