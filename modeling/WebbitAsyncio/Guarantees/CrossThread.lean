import WebbitAsyncio.Invariants.History

/-!
# Submitting and polling from different threads

A request is in libeio's queue before `wrap_request` has stored its wrapper, and
the `JNIEnv` in its `java_data` is that of the thread that submitted it
(asyncio.c:66-112). Nothing makes a polling thread wait for the first or be the
second. On the runs in which `completion_callback` happens to find both as it
needs them (`InOrder`), every upcall is right and `wrap_request` never touches a
freed block; with one thread that is every run, with two it is not.
-/
namespace WebbitAsyncio.Guarantees.CrossThread
open WebbitAsyncio.Lib.TransitionSystem
open WebbitAsyncio.Source.EventLoop
open WebbitAsyncio.Invariants.References WebbitAsyncio.Invariants.History
open WebbitAsyncio.Invariants.Submitting

variable {J : Type} [DecidableEq J]

/-- `InOrder` as a test. -/
def inOrder (s : State J) : Action J → Bool
  | .go j _ =>
    match s.threads j with
    | .poll (.upcall p) :: _ =>
      (s.tickets[p.id]?).all fun t => t.callback.isNone || (openFrame t).isNone && t.owner == j
    | .poll (.freeData p) :: _ => (s.tickets[p.id]?).all fun t => (openFrame t).isNone
    | _ => true
  | _ => true

end WebbitAsyncio.Guarantees.CrossThread
