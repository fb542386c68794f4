import Polling.Error

/-! # Scripts

A `Script` says what a source does on each poll, or a callback on each invocation: some entries,
each used a number of times, and one that is used for ever after.  An entry has a latency, acts
that are done once the latency is over, and an outcome. -/

namespace Polling

/-- What happens, invocation by invocation. -/
structure Script (β : Type) where
  /-- Entries, each with the number of times that it is still to be used. -/
  entries : List (Nat × β) := []
  /-- The entry for everything after that. -/
  rest : β

namespace Script

/-- The first entry that is still to be used, and the entries after that use. -/
def nextOf {β : Type} (rest : β) : List (Nat × β) → β × List (Nat × β)
  | [] => (rest, [])
  | (0, _) :: es => nextOf rest es
  | (n + 1, b) :: es => (b, (n, b) :: es)

/-- The entry for this invocation, and the script for the later ones. -/
def next {β : Type} (s : Script β) : β × Script β :=
  let (b, entries) := nextOf s.rest s.entries
  (b, { s with entries })

end Script

/-- Something that a source or a callback does beside its own work. -/
inductive Act (α : Type) where
  /-- It stops a poller. -/
  | stop (poller : String)
  | raise (signal : String)
  | lower (signal : String)
  /-- It appends payloads to the queue that a poller polls. -/
  | push (queue : String) (payloads : List α)
deriving DecidableEq

/-- How a poll ends. -/
inductive PollOutcome (α : Type) where
  | empty
  | payload (a : α)
  /-- The front of the queue if there is one, else nothing. -/
  | dequeue
  | failed (reason : String)
  | panicked (p : Panic)
  /-- It panics while it is cleaned up, after it has found something. -/
  | cleanupPanicked (p : Panic)
deriving DecidableEq

/-- What a source does on one poll. -/
structure Attempt (α : Type) where
  latency : Nat := 0
  acts : List (Act α) := []
  outcome : PollOutcome α := .dequeue
deriving DecidableEq

/-- How a callback ends. -/
inductive CallbackOutcome where
  | done
  | failed (reason : String)
  | panicked (p : Panic)
  /-- It panics on invocation, before it does anything. -/
  | panickedAtOnce (p : Panic)
deriving DecidableEq

/-- What a callback does with one payload. -/
structure Handling (α : Type) where
  latency : Nat := 0
  acts : List (Act α) := []
  outcome : CallbackOutcome := .done
deriving DecidableEq

end Polling
