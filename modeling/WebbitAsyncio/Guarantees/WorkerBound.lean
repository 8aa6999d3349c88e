import WebbitAsyncio.Invariants.Crew

/-!
# The number of workers

`wanted` is 4, but the test of `etp_maybe_start_thread` and the start of a worker are
not one section: with `n` Java threads there can be `n + 3` workers at a time, and never
more.
-/
namespace WebbitAsyncio.Guarantees.WorkerBound
open WebbitAsyncio.Lib.TransitionSystem
open WebbitAsyncio.Source.EventLoop WebbitAsyncio.Invariants.Crew

theorem workers_bounded {J : Type} [Fintype J] [DecidableEq J] (few : Fintype.card J + 3 < 2 ^ 32)
    {s : State J} (h : Reachable (eventLoop J) s) : crew s ≤ 3 + Fintype.card J :=
  Nat.le_trans (Nat.le_add_right _ _) (crewed few h).bound

/-- The submit operation that thread `j` makes with request and data at `req` and
`data`, up to the decision to start a worker. -/
def upToSpawn (j : Bool) (req data : Nat) : List (Action Bool) :=
  .submit j 0 none req data 0 :: List.replicate 5 (.go j {})

/-- Two threads find three workers at the same time. -/
def bothSpawn : List (Action Bool) :=
  upToSpawn false 16 24 ++ [.go false {}, .go false {}, .go false { ref := 1 }, .go false {}] ++
    upToSpawn false 32 40 ++ [.go false {}, .go false {}, .go false { ref := 2 }, .go false {}] ++
    upToSpawn false 48 56 ++ [.go false {}, .go false {}, .go false { ref := 3 }, .go false {}] ++
    upToSpawn false 64 72 ++ upToSpawn true 80 88 ++ [.go false {}, .go true {}]

theorem workers_bounded_two_threads :
    ∃ s, (eventLoop Bool).run start bothSpawn = some s ∧ crew s = 5 ∧
      crew s ≤ 3 + Fintype.card Bool :=
  ⟨_, rfl, rfl, workers_bounded (by decide) (reachable_run bothSpawn .start rfl)⟩

end WebbitAsyncio.Guarantees.WorkerBound
