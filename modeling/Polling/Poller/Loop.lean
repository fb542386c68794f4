import Polling.Poller.Basic
import Polling.Polled

/-! # Moves of a poll loop

Each function here is one move of one loop of a poller.  A loop that is spawned begins with the
backlog, if there is one; then it goes round: it checks whether it has to end, gets the poll lock,
polls, and either hands over a payload or pauses.  All ways in which a loop ends by itself go
through `Poller.finish`, which records the end in the life cycle and hands the outcome to the
consumer, or keeps it for a later call.  The runtime may put an end to the task of a loop, too,
wherever it waits (`Stage.awaits`); that is `Poller.discard`, and nothing is recorded then. -/

namespace Polling

/-- Why a loop ends. -/
inductive Ending (α : Type) where
  /-- It has a payload for the waiter. -/
  | delivered (payload : α)
  /-- It was asked to end. -/
  | cancelled
  /-- The signal that it observes is raised. -/
  | signalled
  /-- The waiter has gone. -/
  | abandoned
  | failed (f : Failure)
deriving DecidableEq

/-- Whether the whole poller stops when a loop ends like this. -/
def Ending.stops {α : Type} : Ending α → Bool
  | signalled => true
  | failed _ => true
  | _ => false

/-- What ends a pause. -/
inductive Wake where
  | timer
  | cancelled
  | signalled
  | abandoned
deriving DecidableEq

/-- A loop whose task was discarded.  It has recorded no end. -/
def Loop.discarded {α : Type} (l : Loop α) : Loop α :=
  { l with
    runs := false
    -- A task that is discarded lets go of the callback, too, and that may panic.
    stage := .ended (match l.releasePanic with
      | some message => .panicked message
      | none => .destroyed) }

namespace Poller

variable {α : Type}

/-- The poller on its way to a stop, because the signal is raised. -/
def beginStopping (p : Poller α) : Poller α :=
  { p with
    stopRequested := true
    phase := if p.phase = .running then .stopping else p.phase }

/-- Leaves the life cycle without a loop, if it still has this one. -/
def vacate (p : Poller α) (i : Nat) : Poller α :=
  if p.current.any fun a => a.loop = i then
    { p with
      current := none
      consumer := none
      phase := if p.stopRequested then .stopped else .idle }
  else
    p

/-- Whether a call is still waiting for the answer of a loop. -/
def isListening (p : Poller α) (id : String) (i : Nat) : Bool :=
  match p.call? id with
  | some c =>
    match c.stage with
    | .receiving j none => i = j
    | _ => false
  | none => false

/-- Hands the outcome of a loop to its consumer.  A payload or a failure that the waiter is not
there to take is kept, and so is a failure of a subscription. -/
def handOver (p : Poller α) (i : Nat) : Consumer → Ending α → Poller α
  | .waiter id, .delivered x =>
    if p.isListening id i then p.setCallStage id (.receiving i (some (.ok (some x))))
    else { p with parked := some x }
  | .waiter id, .failed f =>
    if p.isListening id i then p.setCallStage id (.receiving i (some (.error (.failed f))))
    else { p with failure := some f }
  | .waiter id, .cancelled | .waiter id, .signalled =>
    if p.isListening id i then p.setCallStage id (.receiving i (some (.ok none))) else p
  | .waiter _, .abandoned => p
  | .subscriber _, .delivered x => { p with parked := some x }
  | .subscriber _, .failed f => { p with failure := some f }
  | .subscriber _, _ => p

/-- How the task of a loop comes to its end once the end is recorded. -/
def exitOf (l : Loop α) : Exit :=
  match l.releasePanic with
  | some message => .panicked message
  | none => .finished

/-- Ends a loop. -/
def finish (p : Poller α) (l : Loop α) (e : Ending α) : Poller α :=
  let p := { p with stopRequested := p.stopRequested || e.stops }
  -- The life cycle is left before the outcome is handed over, so whoever learns the outcome finds
  -- the poller ready for the next consumer, or stopped.
  ((p.vacate l.id).handOver l.id l.consumer e).setStage l.id (.ended (exitOf l))

/-- A loop whose task runs for the first time: a backlog goes to the consumer before anything is
polled. -/
def beginLoop (p : Poller α) (l : Loop α) (backlog : Option α) : Poller α :=
  let p := p.recordDelay l.backoff.current
  match backlog, l.consumer with
  | none, _ => p.setStage l.id .checking
  -- A backlog is handed over even if the loop was asked to end before it began.
  | some x, .waiter _ => p.finish l (.delivered x)
  | some x, .subscriber _ => p.setStage l.id (.handing x)

/-- Whether a loop was asked to end, alone or with all others. -/
def isCancelled (p : Poller α) (l : Loop α) : Bool := l.cancelled || p.stopRequested

/-- Why a loop that is about to poll has to end instead. -/
def interruption? (p : Poller α) (l : Loop α) (raised : Bool) : Option Wake :=
  if p.isCancelled l then some .cancelled
  else if raised then some .signalled
  else none

/-- Grows the pause after an empty poll, and goes on. -/
def resume (p : Poller α) (l : Loop α) : Poller α :=
  let b := l.backoff.advance
  (p.recordDelay b.current).updateLoop l.id fun l => { l with backoff := b, stage := .checking }

/-- What a loop does that has been woken. -/
def wake (p : Poller α) (l : Loop α) : Wake → Poller α
  | .timer => p.resume l
  | .cancelled => p.finish l .cancelled
  | .signalled => p.beginStopping.finish l .signalled
  | .abandoned => p.finish l .abandoned

/-- A loop that has the poll lock begins to poll. -/
def beginPoll (p : Poller α) (l : Loop α) (a : Attempt α) (now : Nat) : Poller α :=
  p.setStage l.id (.polling a (now + (Duration.ofMillis a.latency).timer))

/-- A poll that found nothing is followed by a pause. -/
def foundNothing (p : Poller α) (l : Loop α) (now : Nat) : Poller α :=
  let p := { p with emptyPolls := p.emptyPolls + 1 }
  -- A pause of no length never looks at the clock, and nothing can cut it short.
  if l.backoff.current.isZero then p.setStage l.id .yielded
  else p.setStage l.id (.asleep l.backoff.current (now + l.backoff.current.timer))

/-- A poll that found a payload resets the pause and hands the payload over. -/
def foundPayload (p : Poller α) (l : Loop α) (x : α) : Poller α :=
  let b := l.backoff.reset
  let p := { p with payloadPolls := p.payloadPolls + 1 }
  let p := (p.recordDelay b.current).updateLoop l.id fun l => { l with backoff := b }
  -- A payload is handed over even if the loop was asked to end during the poll.
  match l.consumer with
  | .waiter _ => p.finish l (.delivered x)
  | .subscriber _ => p.setStage l.id (.handing x)

/-- A poll is over. -/
def endPoll (p : Poller α) (l : Loop α) (now : Nat) : Except Failure (Polled α) → Poller α
  | .ok .empty => p.foundNothing l now
  | .ok (.payload x) => p.foundPayload l x
  | .error f => p.finish l (.failed f)

/-- A loop invokes the callback. -/
def beginCallback (p : Poller α) (l : Loop α) (now : Nat) : Poller α :=
  let (h, script) := l.script.next
  -- The entry is used up even if the callback panics on invocation.
  let p := p.updateLoop l.id fun l => { l with script }
  match h.outcome with
  | .panickedAtOnce panic => p.finish l (.failed (.callbackPanic panic.message))
  | _ => p.setStage l.id (.calling h (now + (Duration.ofMillis h.latency).timer))

/-- The callback is over. -/
def endCallback (p : Poller α) (l : Loop α) : CallbackOutcome → Poller α
  | .done => p.setStage l.id .checking
  | .failed reason => p.finish l (.failed (.callback reason))
  | .panicked panic | .panickedAtOnce panic =>
    p.finish l (.failed (.callbackPanic panic.message))

/-- Whether the waiter that a loop polls for has gone. -/
def waiterGone (p : Poller α) (l : Loop α) : Bool :=
  match l.consumer with
  | .waiter id => (p.call? id).isNone
  | .subscriber _ => false

/-- All that could end the pause of a loop at this moment. -/
def wakes (p : Poller α) (l : Loop α) (due now : Nat) (raised : Bool) : List Wake :=
  (if due ≤ now then [.timer] else []) ++ (if p.isCancelled l then [.cancelled] else [])
    ++ (if raised then [.signalled] else []) ++ (if p.waiterGone l then [.abandoned] else [])

/-- Discards the task of a loop. -/
def discard (p : Poller α) (i : Nat) : Poller α := p.updateLoop i Loop.discarded

end Poller

end Polling
