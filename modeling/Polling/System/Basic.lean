import Polling.Poller.Call
import Polling.Poller.Loop
import Polling.Signal
import Polling.Table

/-! # Systems of pollers

A `System` is a number of pollers with what they share: a clock, signals, queues that are polled,
and poll locks.  A lock has no state of its own: loops that want to poll take a ticket, and of the
tickets for one lock the oldest holds it, so locks are handed over first come, first served. -/

namespace Polling

/-- Which lock a poller polls under: one that has a name and may be shared, or its own. -/
inductive LockId where
  | named (name : String)
  | own (poller : String)
deriving DecidableEq

/-- A place in the line for a lock. -/
structure Ticket where
  lock : LockId
  poller : String
  loop : Nat
deriving DecidableEq

/-- A poller with its surroundings. -/
structure Member (α : Type) where
  poller : Poller α
  source : Script (Attempt α)
  lock : LockId
  /-- The signal that the poller observes. -/
  signal : Option String
  /-- Whether everybody has let go of the poller. -/
  dropped : Bool

/-- Something that can be seen from outside. -/
inductive Happening (α : Type) where
  /-- A poll that takes time has begun. -/
  | pollBegan
  /-- A poll is over. -/
  | polled (o : PollOutcome α)
  /-- A callback was invoked. -/
  | invoked (payload : α)
  /-- A callback is over. -/
  | handled (o : CallbackOutcome)
  /-- A call has returned. -/
  | returned (r : CallResult α)

/-- A happening with its time and with the poller or the call that it happened to. -/
structure Event (α : Type) where
  time : Nat
  agent : String
  happening : Happening α

/-- A system of pollers. -/
structure System (α : Type) where
  /-- Milliseconds since the start. -/
  clock : Nat := 0
  /-- Whether tasks can be started at all. -/
  runtime : Bool := true
  members : Table (Member α) := []
  signals : Signals := {}
  queues : Table (List α) := []
  /-- Tickets in the order in which they were taken. -/
  tickets : List Ticket := []
  /-- Events in the order in which they happened. -/
  events : List (Event α) := []

namespace System

variable {α : Type}

/-- The poller with a given name. -/
def member? (s : System α) (p : String) : Option (Member α) := s.members.find? p

/-- Changes a poller. -/
def update (s : System α) (p : String) (f : Poller α → Poller α) : System α :=
  { s with members := s.members.modify p fun m => { m with poller := f m.poller } }

/-- Notes an event. -/
def note (s : System α) (agent : String) (h : Happening α) : System α :=
  { s with events := s.events ++ [⟨s.clock, agent, h⟩] }

/-- Whether the signal that a poller observes is raised. -/
def isSignalled (s : System α) (m : Member α) : Bool :=
  match m.signal with
  | some name => s.signals.isRaised name
  | none => false

/-- Takes a ticket. -/
def enqueue (s : System α) (t : Ticket) : System α := { s with tickets := s.tickets ++ [t] }

/-- Gives a ticket back. -/
def dequeue (s : System α) (t : Ticket) : System α :=
  { s with tickets := s.tickets.filter fun u => u ≠ t }

/-- The ticket that holds a lock. -/
def holder? (s : System α) (l : LockId) : Option Ticket := s.tickets.find? fun t => t.lock = l

/-- The payloads of a queue. -/
def queue (s : System α) (q : String) : List α := (s.queues.find? q).getD []

/-- Appends payloads to a queue. -/
def push (s : System α) (q : String) (xs : List α) : System α :=
  { s with queues := s.queues.insert q (s.queue q ++ xs) }

/-- Does what a source or a callback does beside its own work. -/
def act (s : System α) : Act α → System α
  | .stop p => s.update p Poller.stop
  | .raise name => { s with signals := s.signals.raise name }
  | .lower name => { s with signals := s.signals.lower name }
  | .push q xs => s.push q xs

/-- Does some acts one after the other. -/
def acts (s : System α) (as : List (Act α)) : System α := as.foldl act s

end System

/-- What a poll comes to. -/
def PollOutcome.result {α : Type} : PollOutcome α → Except Failure (Polled α)
  -- `System.resolve` has looked into the queue by then.
  | .empty | .dequeue => .ok .empty
  | .payload x => .ok (.payload x)
  | .failed reason => .error (.poll reason)
  | .panicked p | .cleanupPanicked p => .error (.pollPanic p.message)

end Polling
