import Polling.Pacing.Description
import Polling.System.Run

/-! # Sessions

A `Session` drives a system from outside, step by step.  A step is a command, several commands
with nothing in between, some time that passes, or something that befalls the whole system.  After
every step the system settles, and the step is reported with its reply, its events and a look at
every poller. -/

namespace Polling

/-- Which lock a poller is built with. -/
inductive LockChoice where
  | own
  | named (name : String)
  /-- The lock of another poller. -/
  | sameAs (poller : String)
deriving DecidableEq

/-- What a poller is built from. -/
structure Plan (α : Type) where
  name : Option String := none
  pacing : Pacing := {}
  signal : Option String := none
  lock : LockChoice := .own
  source : Script (Attempt α)

/-- The plan without what only a builder can set: the poller has a name of its own, observes no
signal and shares no lock. -/
def Plan.plain {α : Type} (p : Plan α) : Plan α := { pacing := p.pacing, source := p.source }

/-- The name of a poller that is given none.  Identities that are generated are shown by their
role, between angle brackets. -/
def generatedName : String := "poller-<uuid7>"

/-- The identity that is generated for a subscription. -/
def generatedIdentity (subscription : String) : String := "<" ++ subscription ++ ">"

/-- Something that is asked of a system.  Calls and subscriptions are given names, too. -/
inductive Command (α : Type) where
  | build (poller : String) (plan : Plan α)
  | subscribe (poller subscription : String) (script : Script (Handling α)) (runs : Bool)
      (releasePanic : Option Panic)
  | wait (poller call : String) (runs : Bool)
  | unsubscribe (poller subscription call : String)
  | shutdown (poller call : String)
  /-- Drops a pending call. -/
  | cancel (call : String)
  | stop (poller : String)
  | raise (signal : String)
  | lower (signal : String)
  | isRaised (signal : String)
  | push (queue : String) (payloads : List α)
  /-- Lets go of a poller. -/
  | drop (poller : String)
  | gauges (poller : String)
  | pacing (poller : String)
  | describe (poller : String)
  | sharesLock (poller other : String)

/-- What a command comes back with. -/
inductive Reply where
  | nothing
  | built (name : String)
  | subscribed
  | flag (b : Bool)
  | count (n : Nat)
  | text (cs : List Char)
  | pacing (p : Pacing)
  | refused (e : Error)

/-- A command that names something which is not there, or gives a name that is taken. -/
inductive Misuse where
  | unknownPoller (name : String)
  | unknownSubscription (name : String)
  | nameTaken (name : String)
deriving DecidableEq

/-- What can be seen of a poller. -/
structure Sight where
  gauges : Gauges
  subscribed : Bool
deriving DecidableEq

/-- A look at every poller; there is nothing to see of one that everybody has let go of. -/
abbrev Snapshot := Table (Option Sight)

/-- A system with the names that were given to calls and subscriptions. -/
structure Session (α : Type) where
  system : System α := {}
  /-- The poller of each call. -/
  calls : Table String := []
  subscriptions : List String := []

/-- How a poller is shown to a person who looks for a fault. -/
def Poller.describe {α : Type} (p : Poller α) : String :=
  "AdaptivePoller \x7b name: " ++ Quoted.text p.name ++ ", config: " ++ p.pacing.describe
    ++ ", .. \x7d"

namespace Session

variable {α : Type}

/-- A look at every poller. -/
def snapshot (s : Session α) : Snapshot :=
  s.system.members.map fun (p, m) =>
    (p, if m.dropped then none else some ⟨m.poller.gauges, m.poller.isSubscribed⟩)

/-- The poller with a given name, if somebody still has hold of it. -/
def member (s : Session α) (p : String) : Except Misuse (Member α) :=
  match s.system.member? p with
  | some m => if m.dropped then .error (.unknownPoller p) else .ok m
  | none => .error (.unknownPoller p)

/-- The lock that is chosen for a poller. -/
def lock (s : Session α) (p : String) : LockChoice → Except Misuse LockId
  | .own => .ok (.own p)
  | .named name => .ok (.named name)
  | .sameAs q => (s.member q).map fun m => m.lock

/-- Builds a poller. -/
def build (s : Session α) (p : String) (plan : Plan α) : Except Misuse (Session α × Reply) := do
  if (s.system.member? p).isSome then throw (.nameTaken p)
  let lock ← s.lock p plan.lock
  match Poller.build (plan.name.getD generatedName) plan.pacing with
  | .error e => return (s, .refused e)
  | .ok poller =>
    let m := { poller, source := plan.source, lock, signal := plan.signal, dropped := false }
    let system := { s.system with members := s.system.members.insert p m }
    return ({ s with system }, .built poller.name)

/-- Makes a callback the consumer of a poller. -/
def subscribe (s : Session α) (p subscription : String) (script : Script (Handling α))
    (runs : Bool) (releasePanic : Option Panic) : Except Misuse (Session α × Reply) := do
  let m ← s.member p
  if subscription ∈ s.subscriptions then throw (.nameTaken subscription)
  let (q, r) := m.poller.subscribe s.system.runtime (generatedIdentity subscription) script runs
    (releasePanic.map Panic.message)
  let system := s.system.update p fun _ => q
  match r with
  | .ok () =>
    -- A name is taken only by a subscription that came about.
    return ({ s with system, subscriptions := subscription :: s.subscriptions }, .subscribed)
  | .error e => return ({ s with system }, .refused e)

/-- Makes a call on a poller. -/
def call (s : Session α) (p : String) (c : Call α) : Except Misuse (Session α × Reply) := do
  let _ ← s.member p
  if (s.calls.find? c.id).isSome then throw (.nameTaken c.id)
  return ({ s with system := s.system.beginCall p c, calls := s.calls.insert c.id p }, .nothing)

/-- Drops a call, if it is pending. -/
def cancel (s : Session α) (id : String) : Session α × Reply :=
  match (s.calls.find? id).bind fun p => (s.system.member? p).map fun m => (p, m) with
  | some (p, m) =>
    ({ s with system := s.system.update p fun q => q.dropCall id },
      .flag (m.poller.call? id).isSome)
  | none => (s, .flag false)

/-- Lets go of a poller. -/
def drop (s : Session α) (p : String) : Session α :=
  let release (m : Member α) : Member α :=
    { m with poller := m.poller.release, dropped := true }
  { s with system := { s.system with members := s.system.members.modify p release } }

/-- Does an act. -/
def act (s : Session α) (a : Act α) : Session α := { s with system := s.system.act a }

/-- Carries out a command. -/
def perform (s : Session α) : Command α → Except Misuse (Session α × Reply)
  | .build p plan => s.build p plan
  | .subscribe p subscription script runs releasePanic =>
    s.subscribe p subscription script runs releasePanic
  | .wait p id runs => s.call p ⟨id, runs, .entering⟩
  | .unsubscribe p subscription id =>
    if subscription ∈ s.subscriptions then
      s.call p ⟨id, true, .unsubscribing (generatedIdentity subscription)⟩
    else
      .error (.unknownSubscription subscription)
  | .shutdown p id => s.call p ⟨id, true, .closing⟩
  | .cancel id => .ok (s.cancel id)
  | .stop p => (s.member p).map fun _ => (s.act (.stop p), .nothing)
  | .raise name => .ok (s.act (.raise name), .nothing)
  | .lower name => .ok (s.act (.lower name), .nothing)
  | .isRaised name => .ok (s, .flag (s.system.signals.isRaised name))
  | .push q xs =>
    let s := s.act (.push q xs)
    .ok (s, .count (s.system.queue q).length)
  | .drop p => (s.member p).map fun _ => (s.drop p, .nothing)
  | .gauges p => (s.member p).map fun m => (s, .text m.poller.gauges.json)
  | .pacing p => (s.member p).map fun m => (s, .pacing m.poller.pacing)
  | .describe p => (s.member p).map fun m => (s, .text m.poller.describe.toList)
  | .sharesLock p q => do
    let m ← s.member p
    let n ← s.member q
    return (s, .flag (m.lock == n.lock))

end Session

/-- One step of a session. -/
inductive Step (α : Type) where
  | command (c : Command α)
  /-- Several commands with nothing in between. -/
  | batch (cs : List (Command α))
  /-- Some milliseconds pass. -/
  | advance (ms : Nat)
  /-- An interrupt from outside raises some signals. -/
  | interrupt (signals : List String)
  /-- The tasks that never got to run are discarded. -/
  | discard

/-- What a step comes back with: one reply, or for each of several commands its reply and a look
at every poller right after it. -/
inductive StepReply where
  | one (r : Reply)
  | many (rs : List (Reply × Snapshot))

/-- The report of a step. -/
structure Report (α : Type) where
  time : Nat
  reply : StepReply
  events : List (Event α)
  snapshot : Snapshot

/-- Events are reported by time, and those of one time by agent. -/
def Event.notAfter {α : Type} (a b : Event α) : Bool :=
  a.time < b.time || (a.time == b.time && !(decide (b.agent < a.agent)))

namespace Session

variable {α : Type}

/-- Carries out several commands. -/
def performAll (s : Session α) :
    List (Command α) → Except Misuse (Session α × List (Reply × Snapshot))
  | [] => .ok (s, [])
  | c :: cs => do
    let (s, r) ← s.perform c
    let (t, rs) ← s.performAll cs
    return (t, (r, s.snapshot) :: rs)

/-- What a step does before the system settles. -/
def begin (s : Session α) : Step α → Except Misuse (Session α × StepReply)
  | .command c => do
    let (s, r) ← s.perform c
    return (s, .one r)
  | .batch cs => do
    let (s, rs) ← s.performAll cs
    return (s, .many rs)
  | .advance ms =>
    -- The clock belongs to the runtime and stands still without it.
    let system := if s.system.runtime then s.system.advance ms else s.system
    .ok ({ s with system }, .one .nothing)
  | .interrupt names =>
    .ok ({ s with system := s.system.acts (names.map Act.raise) }, .one .nothing)
  | .discard =>
    .ok ({ s with system := s.system.tasks.foldl System.discardUnrun s.system }, .one .nothing)

/-- One step and its report. -/
def step (s : Session α) (st : Step α) : Except Misuse (Session α × Report α) := do
  let (s, reply) ← s.begin st
  let settled := s.system.settle
  -- The events of a step are reported once and then forgotten.
  let s := { s with system := { settled with events := [] } }
  return (s, {
    time := settled.clock
    reply
    events := settled.events.mergeSort Event.notAfter
    snapshot := s.snapshot })

/-- Several steps and their reports. -/
def steps (s : Session α) : List (Step α) → Except Misuse (List (Report α))
  | [] => .ok []
  | st :: sts => do
    let (s, r) ← s.step st
    return r :: (← s.steps sts)

/-- A session with nothing in it yet. -/
def start (runtime : Bool) : Session α := { system := { runtime } }

end Session

end Polling
