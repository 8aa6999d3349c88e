import Mathlib.Logic.Function.Basic
import WebbitAsyncio.Lib.TransitionSystem
import WebbitAsyncio.Source.Reqq

/-!
# Request groups

What the thread of the event loop does with groups: `eio_grp` and the functions for
groups (eio.c:2011-2062), cancellation (574-581, 730-739), `grp_try_feed`, `grp_dec`,
`eio_destroy` and `eio_finish` (658-728), and the loop of `etp_poll` (506-572) that calls
them. Every access to a request goes through the heap, where it fails if the request is
freed. Callbacks and feeders are arbitrary code: they submit, add, cancel and poll.

Which request a worker finishes next and which one `etp_poll` takes next is left open, as
is when `etp_poll` returns; counters, locks and priorities are those of the event loop.
`size` counts in `Nat`, the limit of a feeder is compared as the `size_t` it becomes.
-/
namespace WebbitAsyncio.Source.Groups
open WebbitAsyncio.Lib.TransitionSystem
open WebbitAsyncio.Source.Reqq (Addr)

/-- The members of `eio_req` that groups use; `isGroup` is `type == EIO_GROUP`, and
`finish` and `feed` say whether these functions are set. -/
structure EioReq where
  isGroup : Bool
  size : Nat := 0
  int1 : Int := 0
  int2 : BitVec 64 := 0
  cancelled : Bool := false
  groupadd : Bool := false
  finish : Bool
  feed : Bool := false
  grp : Option Addr := none
  grpPrev : Option Addr := none
  grpNext : Option Addr := none
  grpFirst : Option Addr := none
  deriving DecidableEq, Repr

abbrev Heap : Type := Addr → Option EioReq

/-- A store through a pointer. -/
def store (h : Heap) (a : Addr) (f : EioReq → EioReq) : Option Heap :=
  (h a).map fun r => Function.update h a (some (f r))

/-- `if (p) p->member = value;` -/
def storeAt (h : Heap) (p : Option Addr) (f : EioReq → EioReq) : Option Heap :=
  match p with
  | none => some h
  | some a => store h a f

def eioGrpAdd (h : Heap) (grp req : Addr) : Option Heap :=
  (h grp).bind fun g =>
    -- the assertion
    if g.int1 = 2 then none
    else
      (store h grp fun g => { g with groupadd := true, size := g.size + 1 }).bind fun h =>
      (store h req fun r => { r with
        grp := some grp, grpPrev := none, grpNext := g.grpFirst }).bind fun h =>
      (storeAt h g.grpFirst fun m => { m with grpPrev := some req }).bind fun h =>
      store h grp fun g => { g with grpFirst := some req }

/-- The part of `eio_finish` that takes `req` out of the list of `grp`. -/
def unlinkReq (h : Heap) (req : Addr) (r : EioReq) (grp : Addr) : Option Heap :=
  (storeAt h r.grpNext fun m => { m with grpPrev := r.grpPrev }).bind fun h =>
  (storeAt h r.grpPrev fun m => { m with grpNext := r.grpNext }).bind fun h =>
  store h grp fun g => if g.grpFirst = some req then { g with grpFirst := r.grpNext } else g

/-- What is on the stack of the thread. `dec` tells whether `grp_try_feed` was called
from `grp_dec`. -/
inductive Frame where
  | poll
  | finish (req : Addr)
  | callback (req : Addr)
  | unlink (req : Addr)
  | destroy (req : Addr)
  | dec (grp : Addr)
  | tryFeed (grp : Addr) (dec : Bool)
  | feeder (grp : Addr) (dec : Bool)
  | fed (grp : Addr) (dec : Bool)
  | check (grp : Addr)
  | cancel (req : Addr)
  | cancelFrom (req : Option Addr)
  | cancelNext (req : Addr)
  deriving DecidableEq, Repr

structure State where
  heap : Heap
  /-- Queued or executing. -/
  out : List Addr
  /-- Finished by a worker, or a group that `etp_poll` has not seen yet. -/
  done : List Addr
  stack : List Frame

inductive Action where
  | submit (req : Addr) (finish : Bool)
  | grp (req : Addr) (finish : Bool)
  | add (grp req : Addr)
  | feed (grp : Addr) (limit : BitVec 32)
  | limit (grp : Addr) (limit : BitVec 32)
  | cancel (req : Addr)
  | grpCancel (grp : Addr)
  | poll
  /-- A callback or a feeder returns. -/
  | ret
  /-- A worker finishes a request. -/
  | complete (req : Addr)
  /-- The library takes its next step; `take` is the request `etp_poll` shifts. -/
  | go (take : Option Addr)
  deriving DecidableEq, Repr

/-- The request that `eio_finish` is working on in this frame. -/
def Frame.req : Frame → Option Addr
  | .finish req | .callback req | .unlink req | .destroy req => some req
  | _ => none

/-- Application code runs: the program, a callback or a feeder. -/
def inUser : List Frame → Bool
  | [] | .callback _ :: _ | .feeder _ _ :: _ => true
  | _ => false

/-- `eio_poll` may be called by the program and by callbacks, not by feeders. -/
def mayPoll : List Frame → Bool
  | [] | .callback _ :: _ => true
  | _ => false

/-- `eio_finish` has not been called for the request yet. -/
def untouched (s : State) (req : Addr) : Bool := s.stack.all fun f => f.req != some req

/-- A group that may still be added to. -/
def openGroup (s : State) (grp : Addr) : Bool :=
  (s.heap grp).any (·.isGroup) && untouched s grp

/-- A request that may be added to a group. -/
def addable (s : State) (req : Addr) : Bool :=
  (s.heap req).any (·.grp = none) && untouched s req

/-- `grp_try_feed` is done. -/
def leaveFeed (grp : Addr) (dec : Bool) (rest : List Frame) : List Frame :=
  if dec then .check grp :: rest else rest

def goPoll (s : State) (rest : List Frame) (take : Option Addr) : Option State :=
  match take with
  | none => some { s with stack := rest }
  | some req =>
    if req ∈ s.done then
      (s.heap req).bind fun r =>
        if r.isGroup ∧ r.size ≠ 0 then
          (store s.heap req fun r => { r with int1 := 1 }).map fun h =>
            { s with heap := h, done := s.done.erase req }
        else some { s with done := s.done.erase req, stack := .finish req :: s.stack }
    else none

def goFrame (s : State) (f : Frame) (rest : List Frame) (take : Option Addr) : Option State :=
  match f with
  | .poll => goPoll s rest take
  | .finish req => (s.heap req).map fun r =>
      { s with stack := (if r.finish && !r.cancelled then .callback req else .unlink req) :: rest }
  | .unlink req => (s.heap req).bind fun r =>
      match r.grp with
      | none => some { s with stack := .destroy req :: rest }
      | some grp => (unlinkReq s.heap req r grp).map fun h =>
          { s with heap := h, stack := .dec grp :: .destroy req :: rest }
  | .destroy req => (s.heap req).map fun _ =>
      { s with heap := Function.update s.heap req none, stack := rest }
  | .dec grp => (store s.heap grp fun g => { g with size := g.size - 1 }).map fun h =>
      { s with heap := h, stack := .tryFeed grp true :: rest }
  | .tryFeed grp dec => (s.heap grp).bind fun g =>
      if g.size < g.int2.toNat ∧ g.cancelled = false then
        (store s.heap grp fun g => { g with groupadd := false }).map fun h =>
          { s with heap := h, stack := (if g.feed then .feeder grp dec else .fed grp dec) :: rest }
      else some { s with stack := leaveFeed grp dec rest }
  | .fed grp dec => (s.heap grp).bind fun g =>
      if g.groupadd then some { s with stack := .tryFeed grp dec :: rest }
      else (store s.heap grp fun g => { g with feed := false }).map fun h =>
        { s with heap := h, stack := leaveFeed grp dec rest }
  | .check grp => (s.heap grp).bind fun g =>
      if g.size = 0 ∧ g.int1 ≠ 0 then some { s with stack := .finish grp :: rest }
      else some { s with stack := rest }
  | .cancel req => (s.heap req).bind fun r =>
      (store s.heap req fun r => { r with cancelled := true }).map fun h =>
        { s with heap := h, stack := .cancelFrom r.grpFirst :: rest }
  | .cancelFrom none => some { s with stack := rest }
  | .cancelFrom (some req) => some { s with stack := .cancel req :: .cancelNext req :: rest }
  | .cancelNext req => (s.heap req).map fun r => { s with stack := .cancelFrom r.grpNext :: rest }
  | .callback _ | .feeder _ _ => none

def step (s : State) : Action → Option State
  | .submit req finish =>
    if inUser s.stack ∧ s.heap req = none then
      some { s with
        heap := Function.update s.heap req (some { isGroup := false, finish })
        out := req :: s.out }
    else none
  | .grp req finish =>
    if inUser s.stack ∧ s.heap req = none then
      some { s with
        heap := Function.update s.heap req (some { isGroup := true, finish })
        done := req :: s.done }
    else none
  | .add grp req =>
    if inUser s.stack ∧ openGroup s grp ∧ addable s req then
      (eioGrpAdd s.heap grp req).map fun h => { s with heap := h }
    else none
  | .feed grp limit =>
    if inUser s.stack ∧ openGroup s grp then
      (store s.heap grp fun g => { g with int2 := limit.signExtend 64, feed := true }).map fun h =>
        { s with heap := h, stack := .tryFeed grp false :: s.stack }
    else none
  | .limit grp limit =>
    if inUser s.stack ∧ openGroup s grp then
      (store s.heap grp fun g => { g with int2 := limit.signExtend 64 }).map fun h =>
        { s with heap := h, stack := .tryFeed grp false :: s.stack }
    else none
  | .cancel req =>
    if inUser s.stack ∧ (s.heap req).isSome then some { s with stack := .cancel req :: s.stack }
    else none
  | .grpCancel grp =>
    if inUser s.stack then
      (s.heap grp).map fun g => { s with stack := .cancelFrom g.grpFirst :: s.stack }
    else none
  | .poll => if mayPoll s.stack then some { s with stack := .poll :: s.stack } else none
  | .ret =>
    match s.stack with
    | .callback req :: rest => some { s with stack := .unlink req :: rest }
    | .feeder grp dec :: rest => some { s with stack := .fed grp dec :: rest }
    | _ => none
  | .complete req =>
    if req ∈ s.out then some { s with out := s.out.erase req, done := req :: s.done } else none
  | .go take =>
    match s.stack with
    | [] => none
    | f :: rest => goFrame s f rest take

def groups : Machine State Action := ⟨⟨fun _ => none, [], [], []⟩, step⟩

end WebbitAsyncio.Source.Groups
