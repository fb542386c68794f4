import Polling.Poller.Call
import Polling.Poller.Loop

/-!
# Histories of a poller

A `Move` is the least that can happen to a poller without interruption: one move of one of its
loops, one move of one of its calls, or something that is done to it from outside.  It comes with
its occurrences, in the order in which they happen.  A `Run` is any number of moves, with all their
occurrences.

Moves leave open whatever a poller does not decide by itself: which task moves next, what the clock
shows, when a poll gets the lock and what it finds, whether a signal is raised, which of the tasks
that wait its runtime discards, and what anybody asks of the poller at any moment.  So what holds
for every run holds whatever the surroundings do.
-/

namespace Polling

/-- Something that happens in the life of a poller. -/
inductive Occurrence (α : Type) where
  | called (call : String) (stage : CallStage α)
  /-- A pending call was dropped, with the answer of its loop if that was there but unread. -/
  | dropped (call : String) (unread : Option (CallResult α))
  /-- A wait returned the answer of its loop. -/
  | answered (call : String) (r : CallResult α)
  /-- A call returned anything else. -/
  | returned (call : String) (r : CallResult α)
  | subscribed (subscription : String)
  /-- A subscription did not come about. -/
  | refused (e : Error)
  | pollBegan (loop : Nat)
  | polled (loop : Nat) (r : Except Failure (Polled α))
  /-- The callback was invoked. -/
  | invoked (loop : Nat) (payload : α)
  /-- The callback was over. -/
  | handled (loop : Nat) (o : CallbackOutcome)
  /-- A loop ended with a failure, and answered it to a wait if that was still listening. -/
  | failed (loop : Nat) (f : Failure) (listener : Option String)
  /-- A call that had joined a loop found that its task had panicked. -/
  | noticed (f : Failure)
  /-- A failure that nobody had been told about was replaced by another one. -/
  | overwritten (f : Failure)
  /-- The task of a loop was discarded, with the payloads that it held. -/
  | discarded (loop : Nat) (payloads : List α)

variable {α : Type}

/-- The payloads that a loop has in its hands. -/
def Stage.payloads : Stage α → List α
  | .spawned backlog => backlog.toList
  | .handing x => [x]
  | _ => []

/-- Whether a call that stands here has not moved yet. -/
def CallStage.isFirst : CallStage α → Bool
  | .entering | .unsubscribing _ | .closing => true
  | _ => false

/-- The answer that a wait has not read yet. -/
def Call.unread (c : Call α) : Option (CallResult α) :=
  match c.stage with
  | .receiving _ r => r
  | _ => none

/-- The return of a call. -/
def Call.returning (c : Call α) (r : CallResult α) : Occurrence α :=
  match c.stage with
  | .receiving _ (some _) => .answered c.id r
  | _ => .returned c.id r

theorem Call.returning_eq (c : Call α) (r : CallResult α) :
    c.returning r = .answered c.id r ∨ c.returning r = .returned c.id r := by
  unfold returning
  split
  · exact .inl rfl
  · exact .inr rfl

namespace Poller

/-- The wait that listens for the answer of a loop. -/
def listener? (p : Poller α) (l : Loop α) : Option String :=
  match l.consumer with
  | .waiter id => if p.isListening id l.id then some id else none
  | .subscriber _ => none

/-- The failure that the task of a loop leaves to whoever joins it. -/
def panicOf? (p : Poller α) (i : Nat) : Option Failure :=
  match p.loop? i with
  | some l =>
    match l.stage with
    | .ended (.panicked message) => some (.pollPanic message)
    | _ => none
  | none => none

/-- What befalls the pending failure when another one takes its place. -/
def overwriting (p : Poller α) : List (Occurrence α) := p.failure.toList.map .overwritten

/-- A loop ends with a failure. -/
def failing (p : Poller α) (l : Loop α) (f : Failure) : List (Occurrence α) :=
  match p.listener? l with
  | some id => [.failed l.id f (some id)]
  | none => p.overwriting ++ [.failed l.id f none]

/-- The poll of a loop comes to its end. -/
def polling (p : Poller α) (l : Loop α) : Except Failure (Polled α) → List (Occurrence α)
  | .ok r => [.polled l.id (.ok r)]
  | .error f => .polled l.id (.error f) :: p.failing l f

/-- A loop invokes the callback, which may panic at once. -/
def invoking (p : Poller α) (l : Loop α) (x : α) : List (Occurrence α) :=
  .invoked l.id x ::
    match l.script.next.1.outcome with
    | .panickedAtOnce panic => p.failing l (.callbackPanic panic.message)
    | _ => []

/-- The callback of a loop comes to its end. -/
def handling (p : Poller α) (l : Loop α) (o : CallbackOutcome) : List (Occurrence α) :=
  .handled l.id o ::
    match o with
    | .done => []
    | .failed reason => p.failing l (.callback reason)
    | .panicked panic | .panickedAtOnce panic => p.failing l (.callbackPanic panic.message)

/-- A call takes note of how the loop that it joined came to its end. -/
def noticing (p : Poller α) (c : Call α) : List (Occurrence α) :=
  match c.stage with
  | .joining i _ =>
    match p.panicOf? i with
    | some f => p.overwriting ++ [.noticed f]
    | none => []
  | _ => []

/-- A subscription comes about or is refused. -/
def subscribing (subscription : String) : Except Error Unit → List (Occurrence α)
  | .ok () => [.subscribed subscription]
  | .error e => [.refused e]

theorem mem_failing {p : Poller α} {l : Loop α} {f : Failure} {o : Occurrence α}
    (ho : o ∈ p.failing l f) :
    (∃ g, o = .overwritten g) ∨ ∃ listener, o = .failed l.id f listener := by
  unfold failing overwriting at ho
  split at ho
  · exact .inr ⟨_, List.mem_singleton.1 ho⟩
  · rcases List.mem_append.1 ho with ho | ho
    · obtain ⟨g, -, rfl⟩ := List.mem_map.1 ho
      exact .inl ⟨g, rfl⟩
    · exact .inr ⟨none, List.mem_singleton.1 ho⟩

theorem mem_noticing {p : Poller α} {c : Call α} {o : Occurrence α} (ho : o ∈ p.noticing c) :
    (∃ f, o = .overwritten f) ∨ ∃ f, o = .noticed f := by
  unfold noticing overwriting at ho
  split at ho
  · split at ho
    · rcases List.mem_append.1 ho with ho | ho
      · obtain ⟨f, -, rfl⟩ := List.mem_map.1 ho
        exact .inl ⟨f, rfl⟩
      · exact .inr ⟨_, List.mem_singleton.1 ho⟩
    · cases ho
  · cases ho

/-- One move of a loop. -/
inductive LoopMove (p : Poller α) (l : Loop α) : List (Occurrence α) → Poller α → Prop
  | begins {backlog} (stage : l.stage = .spawned backlog) (runs : l.runs = true) :
      LoopMove p l [] (p.beginLoop l backlog)
  | interrupted {raised w} (stage : l.stage = .checking)
      (why : p.interruption? l raised = some w) :
      LoopMove p l [] (p.wake l w)
  | queues {raised} (stage : l.stage = .checking) (why : p.interruption? l raised = none) :
      LoopMove p l [] (p.setStage l.id .queued)
  | beginsPoll {attempt now} (stage : l.stage = .queued) :
      LoopMove p l [.pollBegan l.id] (p.beginPoll l attempt now)
  | endsPoll {attempt due r now} (stage : l.stage = .polling attempt due) :
      LoopMove p l (p.polling l r) (p.endPoll l now r)
  | beginsCallback {x now} (stage : l.stage = .handing x) :
      LoopMove p l (p.invoking l x) (p.beginCallback l now)
  | endsCallback {handling due} (stage : l.stage = .calling handling due) :
      LoopMove p l (p.handling l handling.outcome) (p.endCallback l handling.outcome)
  | resumes (stage : l.stage = .yielded) : LoopMove p l [] (p.resume l)
  | wakes {pause due now raised w} (stage : l.stage = .asleep pause due)
      (why : w ∈ p.wakes l due now raised) :
      LoopMove p l [] (p.wake l w)

/-- One move of a poller.  Names of calls and of subscriptions are not used twice. -/
inductive Move : Poller α → List (Occurrence α) → Poller α → Prop
  | loop {p q : Poller α} {l : Loop α} {es} (mem : l ∈ p.loops) (move : p.LoopMove l es q) :
      Move p es q
  | proceed {p q : Poller α} {c : Call α} {runtime stage} (mem : c ∈ p.calls)
      (ready : p.callReady c = true) (goes : p.moveCall runtime c = (q, .goesOn stage)) :
      Move p (p.noticing c) (q.setCallStage c.id stage)
  | finish {p q : Poller α} {c : Call α} {runtime r} (mem : c ∈ p.calls)
      (ready : p.callReady c = true) (goes : p.moveCall runtime c = (q, .returned r)) :
      Move p (p.noticing c ++ [c.returning r]) (q.dropCall c.id)
  | call {p : Poller α} {c : Call α} (first : c.stage.isFirst = true)
      (new : ∀ d ∈ p.calls, d.id ≠ c.id) (fresh : ∀ l ∈ p.loops, l.consumer ≠ .waiter c.id) :
      Move p [.called c.id c.stage] { p with calls := p.calls ++ [c] }
  | drop {p : Poller α} {c : Call α} (mem : c ∈ p.calls) :
      Move p [.dropped c.id c.unread] (p.dropCall c.id)
  | subscribe {p : Poller α} {runtime subscription script runs releasePanic}
      (fresh : ∀ l ∈ p.loops, l.consumer ≠ .subscriber subscription) :
      Move p
        (subscribing subscription (p.subscribe runtime subscription script runs releasePanic).2)
        (p.subscribe runtime subscription script runs releasePanic).1
  | stop {p : Poller α} : Move p [] p.stop
  | release {p : Poller α} : Move p [] p.release
  | discard {p : Poller α} {l : Loop α} (mem : l ∈ p.loops) (waits : l.stage.awaits = true) :
      Move p [.discarded l.id l.stage.payloads] (p.discard l.id)

/-- Any number of moves, one after the other. -/
inductive Run : Poller α → List (Occurrence α) → Poller α → Prop
  | nil {p : Poller α} : Run p [] p
  | snoc {p q r : Poller α} {tr es} : Run p tr q → Move q es r → Run p (tr ++ es) r

/-- A poller that has come about by any number of moves since it was built. -/
def Reachable (p : Poller α) : Prop := ∃ name pacing tr, Run (idle name pacing) tr p

namespace Run

theorem single {p q : Poller α} {es} (h : Move p es q) : Run p es q := by
  simpa using Run.snoc .nil h

theorem append {p q r : Poller α} {tr ts} (h : Run p tr q) (h' : Run q ts r) :
    Run p (tr ++ ts) r := by
  induction h' with
  | nil => simpa using h
  | snoc _ hmove ih => simpa using ih.snoc hmove

theorem cons {p q r : Poller α} {es tr} (h : Move p es q) (h' : Run q tr r) :
    Run p (es ++ tr) r := (single h).append h'

/-- What every move preserves holds at the end of a run if it holds at its beginning. -/
theorem preserves {I : Poller α → Prop} (hmove : ∀ {p q es}, I p → Move p es q → I q)
    {p q : Poller α} {tr} (h : Run p tr q) (hp : I p) : I q := by
  induction h with
  | nil => exact hp
  | snoc _ hm ih => exact hmove ih hm

end Run

theorem Reachable.run {p q : Poller α} {tr} (hp : p.Reachable) (h : Run p tr q) : q.Reachable := by
  obtain ⟨name, pacing, ts, hts⟩ := hp
  exact ⟨name, pacing, ts ++ tr, hts.append h⟩

/-- What an idle poller has and every move preserves holds of every reachable poller. -/
theorem Reachable.preserves {I : Poller α → Prop} (hidle : ∀ name pacing, I (idle name pacing))
    (hmove : ∀ {p q es}, I p → Move p es q → I q) {p : Poller α} (h : p.Reachable) : I p := by
  obtain ⟨name, pacing, tr, htr⟩ := h
  exact htr.preserves hmove (hidle name pacing)

end Poller

end Polling
