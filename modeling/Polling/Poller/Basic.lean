import Polling.Backoff
import Polling.Gauges
import Polling.Script

/-! # Pollers

A `Poller` runs a source in a loop on behalf of one consumer at a time: a call that waits for one
payload, or a subscriber whose callback takes all of them.

Its state has three parts.  The life cycle says which phase the poller is in, who consumes, and
which loop polls for that consumer.  Two slots hold what could not be handed over: a payload whose
waiter had gone is `parked`, a failure that nobody was told about is kept in `failure`.  Then there
are the tasks, each a list: the loops that were ever started and the calls that are pending.

This module holds the state and the operations that are done in one go.  How loops and calls move
on is in `Polling.Poller.Loop` and `Polling.Poller.Call`. -/

namespace Polling

/-- Who consumes what a poller polls. -/
inductive Consumer where
  /-- A pending call that waits for one payload. -/
  | waiter (call : String)
  | subscriber (subscription : String)
deriving DecidableEq

/-- How the task of a loop came to its end. -/
inductive Exit where
  | finished
  /-- It panicked after it had recorded its end. -/
  | panicked (message : String)
  /-- It was discarded and never recorded an end. -/
  | destroyed
deriving DecidableEq

/-- Where a loop stands. -/
inductive Stage (α : Type) where
  /-- Its task has not run yet.  The backlog is a payload that was parked. -/
  | spawned (backlog : Option α)
  /-- It is about to poll unless it has to end. -/
  | checking
  /-- It is in line for the poll lock, or has just been given it. -/
  | queued
  /-- Its poll is in progress until the clock shows `due`. -/
  | polling (attempt : Attempt α) (due : Nat)
  /-- It has a payload for the callback. -/
  | handing (payload : α)
  /-- Its callback is in progress until the clock shows `due`. -/
  | calling (handling : Handling α) (due : Nat)
  /-- It has let the other tasks run, in place of a pause of no length. -/
  | yielded
  /-- It has asked for a pause of this length, which lasts until the clock shows `due`. -/
  | asleep (pause : Duration) (due : Nat)
  | ended (exit : Exit)
deriving DecidableEq

/-- A poll loop and its task. -/
structure Loop (α : Type) where
  id : Nat
  consumer : Consumer
  /-- What the subscriber's callback does. -/
  script : Script (Handling α)
  /-- Whether this loop alone was asked to end. -/
  cancelled : Bool
  backoff : Backoff
  stage : Stage α
  /-- Whether its task gets to run: it does not if its runtime never comes to it, or has discarded
  it. -/
  runs : Bool
  /-- The panic of the task when it releases the callback, which it does last of all. -/
  releasePanic : Option String

/-- Whether the task of a loop that stands here waits for something, if only for its turn.  From
everywhere else it goes on at once. -/
def Stage.awaits {α : Type} : Stage α → Bool
  | .checking | .handing _ | .ended _ => false
  | _ => true

/-- Whether a loop's task is gone. -/
def Loop.hasEnded {α : Type} (l : Loop α) : Bool :=
  match l.stage with
  | .ended _ => true
  | _ => false

/-- What a call returns: a payload, nothing, or an error. -/
abbrev CallResult (α : Type) := Except Error (Option α)

/-- What a call does once the loop that it joined is gone. -/
inductive Sequel where
  /-- A wait tries again to have a loop of its own. -/
  | reenter
  /-- A wait whose loop is gone without an answer returns what is known. -/
  | conclude
  /-- The end of a subscription is over. -/
  | leave
  /-- A shutdown reports what nobody was told about. -/
  | close
deriving DecidableEq

/-- Where a pending call stands. -/
inductive CallStage (α : Type) where
  /-- A wait that is about to look at the life cycle. -/
  | entering
  /-- A wait that has let the other tasks run before it looks again. -/
  | yielded
  /-- The end of a subscription that is about to look at the life cycle. -/
  | unsubscribing (subscription : String)
  /-- A shutdown that is about to look at the life cycle. -/
  | closing
  /-- It waits until a loop is gone. -/
  | joining (loop : Nat) (sequel : Sequel)
  /-- A wait for the answer of its loop. -/
  | receiving (loop : Nat) (answer : Option (CallResult α))

/-- A pending call. -/
structure Call (α : Type) where
  id : String
  /-- Whether a loop that it starts gets to run. -/
  runs : Bool
  stage : CallStage α

/-- The loop that polls for the present consumer. -/
structure Attachment where
  loop : Nat
  /-- Whether the loop can still be joined; it can be joined once. -/
  joinable : Bool
deriving DecidableEq

/-- A poller. -/
structure Poller (α : Type) where
  name : String
  pacing : Pacing
  phase : Phase
  consumer : Option Consumer
  current : Option Attachment
  /-- How many loops have been started. -/
  started : Nat
  /-- Whether all loops, present and to come, have been asked to end. -/
  stopRequested : Bool
  disposed : Bool
  /-- A payload whose waiter had gone. -/
  parked : Option α
  /-- A failure that nobody was told about. -/
  failure : Option Failure
  emptyPolls : Nat
  payloadPolls : Nat
  /-- The pause after the next empty poll. -/
  delayMillis : Nat
  loops : List (Loop α)
  calls : List (Call α)

namespace Poller

variable {α : Type}

/-- An idle poller with a usable pacing. -/
def idle (name : String) (pacing : Pacing) : Poller α where
  name
  pacing
  phase := .idle
  consumer := none
  current := none
  started := 0
  stopRequested := false
  disposed := false
  parked := none
  failure := none
  emptyPolls := 0
  payloadPolls := 0
  delayMillis := pacing.initial.millis
  loops := []
  calls := []

/-- Builds a poller, unless its pacing cannot be used. -/
def build (name : String) (pacing : Pacing) : Except Error (Poller α) :=
  match pacing.flaw? with
  | some flaw => .error (.invalidPacing flaw.message)
  | none => .ok (idle name pacing)

/-- The loop with a given number. -/
def loop? (p : Poller α) (i : Nat) : Option (Loop α) := p.loops.find? fun l => l.id = i

/-- Changes the loop with a given number. -/
def updateLoop (p : Poller α) (i : Nat) (f : Loop α → Loop α) : Poller α :=
  { p with loops := p.loops.map fun l => if l.id = i then f l else l }

/-- Moves a loop to another stage. -/
def setStage (p : Poller α) (i : Nat) (s : Stage α) : Poller α :=
  p.updateLoop i fun l => { l with stage := s }

/-- Asks one loop to end. -/
def cancelLoop (p : Poller α) (i : Nat) : Poller α :=
  p.updateLoop i fun l => { l with cancelled := true }

/-- Whether the task of a loop is gone. -/
def hasEnded (p : Poller α) (i : Nat) : Bool :=
  match p.loop? i with
  | some l => l.hasEnded
  | none => true

/-- The pending call with a given name. -/
def call? (p : Poller α) (id : String) : Option (Call α) := p.calls.find? fun c => c.id = id

/-- Moves a pending call to another stage. -/
def setCallStage (p : Poller α) (id : String) (s : CallStage α) : Poller α :=
  { p with calls := p.calls.map fun c => if c.id = id then { c with stage := s } else c }

/-- Drops a pending call on the spot, with all that it holds. -/
def dropCall (p : Poller α) (id : String) : Poller α :=
  { p with calls := p.calls.filter fun c => c.id ≠ id }

/-- Records the pause after the next empty poll. -/
def recordDelay (p : Poller α) (d : Duration) : Poller α := { p with delayMillis := d.millis }

/-- Asks the poller to stop.  A poller that has been asked to stop never polls again once its
loop has ended. -/
def stop (p : Poller α) : Poller α :=
  { p with stopRequested := true, phase := p.phase.afterStop }

/-- Lets go of the poller: its loop is asked to end, and nobody looks at its phase again. -/
def release (p : Poller α) : Poller α := { p with stopRequested := true }

/-- Whether there is a subscriber. -/
def isSubscribed (p : Poller α) : Bool :=
  match p.consumer with
  | some (.subscriber _) => true
  | _ => false

/-- The gauges of the poller. -/
def gauges (p : Poller α) : Gauges := ⟨p.phase, p.emptyPolls, p.payloadPolls, p.delayMillis⟩

/-- What every call meets first: a poller that was shut down refuses it, and a failure that
nobody was told about is its result. -/
def screen (p : Poller α) : Option Error × Poller α :=
  if p.disposed then (some .disposed, p)
  else
    match p.failure with
    | some f => (some (.failed f), { p with failure := none })
    | none => (none, p)

/-- Why a poller that has a consumer refuses another one. -/
def busyError (p : Poller α) : Error :=
  if p.isSubscribed then .alreadySubscribed else .waitInProgress

/-- The loop of a waiter that has gone. -/
def abandoned? (p : Poller α) : Option Attachment :=
  match p.consumer with
  -- A call that has returned left no consumer behind, so one that is not pending was dropped.
  | some (.waiter id) => if (p.call? id).isNone then p.current else none
  | _ => none

/-- Starts a loop for a consumer.  It takes over a payload that is parked. -/
def startLoop (p : Poller α) (consumer : Consumer) (script : Script (Handling α)) (runs : Bool)
    (releasePanic : Option String) : Poller α :=
  { p with
    phase := .running
    consumer := some consumer
    current := some ⟨p.started + 1, true⟩
    started := p.started + 1
    parked := none
    loops := p.loops ++ [{
      id := p.started + 1
      consumer
      script
      cancelled := false
      backoff := .start p.pacing
      stage := .spawned p.parked
      runs
      releasePanic }] }

/-- Asks a loop to end, and gives up the right to join it. -/
def retire (p : Poller α) (a : Attachment) : Poller α :=
  { p.cancelLoop a.loop with current := some { a with joinable := false } }

/-- Makes a subscriber the consumer, if there is none. -/
def subscribe (p : Poller α) (runtime : Bool) (subscription : String)
    (script : Script (Handling α)) (runs : Bool) (releasePanic : Option String) :
    Poller α × Except Error Unit :=
  match p.screen with
  | (some e, p) => (p, .error e)
  | (none, p) =>
    match p.phase with
    | .stopping | .stopped => (p, .error .stopped)
    -- A waiter that has gone keeps its place until its loop has noticed.
    | .running => (p, .error p.busyError)
    | .idle =>
      -- Without a runtime nothing is taken: a parked payload stays where it is.
      if runtime then
        (p.startLoop (.subscriber subscription) script runs releasePanic, .ok ())
      else
        (p, .error .noRuntime)

end Poller

end Polling
