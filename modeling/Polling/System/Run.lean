import Polling.System.Basic

/-! # Runs of a system

The tasks of a system are its loops and its pending calls.  `System.loopMoves` lists the states
that one move of a loop may lead to; there is none if the loop has to wait, and more than one if
several reasons could end its pause.  A task runs until it has to wait or lets the others run
(`runLoop`, `runCall`).  A system settles by letting its tasks run, round after round, until none is
left but those that wait or go round in circles, and `advance` moves the clock from one due time to
the next and settles at each. -/

namespace Polling

/-- A loop or a pending call of a poller. -/
inductive Task where
  | loop (poller : String) (id : Nat)
  | call (poller : String) (id : String)
deriving DecidableEq

namespace System

variable {α : Type}

/-- A loop begins to poll. -/
def beginPoll (s : System α) (p : String) (m : Member α) (l : Loop α) : System α :=
  let (a, source) := m.source.next
  let s := { s with members := s.members.modify p fun m => { m with source } }
  let s := s.update p fun q => q.beginPoll l a s.clock
  if a.latency = 0 then s else s.note p .pollBegan

/-- Takes the front of the queue, if that is how the poll ends. -/
def resolve (s : System α) (q : String) : PollOutcome α → PollOutcome α × System α
  | .dequeue =>
    match s.queue q with
    | [] => (.empty, s)
    | x :: xs => (.payload x, { s with queues := s.queues.insert q xs })
  | o => (o, s)

/-- A loop ends its poll, gives the lock back and goes on with what it found. -/
def endPoll (s : System α) (p : String) (m : Member α) (l : Loop α) (a : Attempt α) : System α :=
  let (o, s) := (s.acts a.acts).resolve p a.outcome
  -- The lock is free again before the loop looks at what it found, however the poll ended.
  let s := (s.note p (.polled o)).dequeue ⟨m.lock, p, l.id⟩
  s.update p fun q => q.endPoll l s.clock o.result

/-- A loop invokes the callback. -/
def beginCallback (s : System α) (p : String) (l : Loop α) (x : α) : System α :=
  let s := s.note p (.invoked x)
  s.update p fun q => q.beginCallback l s.clock

/-- A callback is over. -/
def endCallback (s : System α) (p : String) (l : Loop α) (h : Handling α) : System α :=
  let s := (s.acts h.acts).note p (.handled h.outcome)
  s.update p fun q => q.endCallback l h.outcome

/-- The task of a loop is discarded, which gives its place in line back. -/
def discard (s : System α) (p : String) (m : Member α) (i : Nat) : System α :=
  (s.dequeue ⟨m.lock, p, i⟩).update p fun q => q.discard i

/-- The states that one move of a loop may lead to. -/
def movesOf (s : System α) (p : String) (m : Member α) (l : Loop α) : List (System α) :=
  match l.stage with
  | .spawned backlog => if l.runs then [s.update p fun q => q.beginLoop l backlog] else []
  | .checking =>
    match m.poller.interruption? l (s.isSignalled m) with
    | some w => [s.update p fun q => q.wake l w]
    -- From here on nothing stops the poll: the loop keeps its place in line until it has polled.
    | none => [(s.update p fun q => q.setStage l.id .queued).enqueue ⟨m.lock, p, l.id⟩]
  | .queued => if s.holder? m.lock = some ⟨m.lock, p, l.id⟩ then [s.beginPoll p m l] else []
  | .polling a due => if due ≤ s.clock then [s.endPoll p m l a] else []
  | .handing x => [s.beginCallback p l x]
  | .calling h due => if due ≤ s.clock then [s.endCallback p l h] else []
  | .yielded => [s.update p fun q => q.resume l]
  | .asleep _ due =>
    (m.poller.wakes l due s.clock (s.isSignalled m)).map fun w => s.update p fun q => q.wake l w
  | .ended _ => []

/-- The states that one move of a loop, given by its poller and its number, may lead to. -/
def loopMoves (s : System α) (p : String) (i : Nat) : List (System α) :=
  match s.member? p with
  | some m =>
    match m.poller.loop? i with
    | some l => s.movesOf p m l
    | none => []
  | none => []

/-- Whether a loop has let the other tasks run. -/
def hasYielded (s : System α) (p : String) (i : Nat) : Bool :=
  match (s.member? p).bind fun m => m.poller.loop? i with
  | some l =>
    match l.stage with
    | .yielded => true
    | _ => false
  | none => false

/-- The most moves that a loop makes in one run. -/
def loopMovesPerRun : Nat := 640

/-- Lets a loop run until it has to wait, ends, or lets the other tasks run. -/
def runLoop (p : String) (i : Nat) : Nat → System α → System α
  | 0, s => s
  | n + 1, s =>
    match s.loopMoves p i with
    | [] => s
    -- Of several reasons to end a pause any may be met first; the first of the list is taken.
    | t :: _ => if t.hasYielded p i then t else runLoop p i n t

/-- Notes the return of a call. -/
def noteReturn (s : System α) (id : String) : Option (CallResult α) → System α
  | some r => s.note id (.returned r)
  | none => s

/-- Changes a poller by something that a call does, and notes the return of the call. -/
def withCall (s : System α) (p : String) (id : String)
    (f : Poller α → Poller α × Option (CallResult α)) : System α :=
  match s.member? p with
  | some m =>
    let (q, r) := f m.poller
    (s.update p fun _ => q).noteReturn id r
  | none => s

/-- Lets a call run until it returns, has to wait, or lets the other tasks run. -/
def runCall (s : System α) (p : String) (id : String) : System α :=
  s.withCall p id (Poller.runCall s.runtime id Poller.callMoves)

/-- Makes a call on a poller, which runs at once as far as it gets. -/
def beginCall (s : System α) (p : String) (c : Call α) : System α :=
  s.withCall p c.id fun q => q.beginCall s.runtime c

/-- Whether a task can run. -/
def canRun (s : System α) : Task → Bool
  | .loop p i => !(s.loopMoves p i).isEmpty
  | .call p id =>
    match s.member? p with
    | some m =>
      match m.poller.call? id with
      | some c => m.poller.callReady c
      | none => false
    | none => false

/-- Whether a task is a call that goes round in circles. -/
def circles (s : System α) : Task → Bool
  | .loop _ _ => false
  | .call p id =>
    match s.member? p with
    | some m => (m.poller.call? id).any m.poller.circles
    | none => false

/-- Whether letting a task run gets the system any further. -/
def canProgress (s : System α) (t : Task) : Bool := s.canRun t && !s.circles t

/-- Lets a task run. -/
def run (s : System α) : Task → System α
  | .loop p i => runLoop p i loopMovesPerRun s
  | .call p id => s.runCall p id

/-- The tasks of a poller. -/
def tasksOf (p : String) (m : Member α) : List Task :=
  ((m.poller.loops.filter fun l => !l.hasEnded).map fun l => Task.loop p l.id)
    ++ m.poller.calls.map fun c => Task.call p c.id

/-- All tasks. -/
def tasks (s : System α) : List Task := s.members.flatMap fun (p, m) => tasksOf p m

/-- Discards a task that never gets to run. -/
def discardUnrun (s : System α) : Task → System α
  | .loop p i =>
    match s.member? p with
    | some m =>
      match m.poller.loop? i with
      | some l => if !l.runs && l.stage.awaits then s.discard p m i else s
      | none => s
    | none => s
  | .call _ _ => s

/-- Whether no task can run before time passes or somebody makes a call. -/
def isSettled (s : System α) : Bool := s.tasks.all fun t => !s.canRun t

/-- The most rounds in which a system settles. -/
def maxRounds : Nat := 100000

/-- Lets the tasks run that can, for a number of rounds or until none gets the system further. -/
def settleWithin : Nat → System α → System α
  | 0, s => s
  | n + 1, s =>
    if s.tasks.any s.canProgress then
      -- A task that is ready at the start of a round may have nothing to do when its turn comes,
      -- and a call that goes round in circles may find that it can go on.
      settleWithin n ((s.tasks.filter s.canRun).foldl run s)
    else
      s

/-- Lets everything happen that can happen without time passing. -/
def settle (s : System α) : System α := settleWithin maxRounds s

/-- The time at which a loop is due, if it waits for the clock. -/
def dueOf? (l : Loop α) : Option Nat :=
  match l.stage with
  | .polling _ due | .calling _ due | .asleep _ due => some due
  | _ => none

/-- The next time at which a loop is due. -/
def nextDue? (s : System α) : Option Nat :=
  (s.members.flatMap fun (_, m) =>
    (m.poller.loops.filterMap dueOf?).filter fun due => s.clock < due).min?

/-- Moves the clock to `target`, with at most `stops` stops on the way. -/
def advanceWithin (target : Nat) : (stops : Nat) → System α → System α
  | 0, s => { s with clock := target }
  | n + 1, s =>
    match s.nextDue? with
    | some due =>
      -- All that is due at one time settles together, also at the target itself.
      if due ≤ target then advanceWithin target n (settle { s with clock := due })
      else { s with clock := target }
    | none => { s with clock := target }

/-- Lets some milliseconds pass.  Every stop on the way is later than the one before. -/
def advance (s : System α) (ms : Nat) : System α := advanceWithin (s.clock + ms) ms s

end System

end Polling
