import Polling.Proofs.LifeCycle

/-!
# What a move of a loop does

A move of a loop has one of two effects.  Either the loop goes on: then nothing but its own place
and the gauges change.  Or it ends: then it also leaves the life cycle, and its outcome goes to the
wait that listens for it or is kept.  `LoopMove.effect` says so for all nine kinds of moves, and
what is proved about loops elsewhere is proved for these two cases.
-/

namespace Polling

variable {α : Type}

namespace Occurrence

/-- The loop that begins or ends to poll or to run the callback. -/
def workOf? : Occurrence α → Option Nat
  | pollBegan i | polled i _ | invoked i _ | handled i _ => some i
  | _ => none

/-- The payload that a poll brings in. -/
def acquired : Occurrence α → List α
  | polled _ (.ok (.payload x)) => [x]
  | _ => []

/-- The payload that a caller or the callback gets. -/
def delivered : Occurrence α → List α
  | answered _ (.ok (some x)) | returned _ (.ok (some x)) | invoked _ x => [x]
  | _ => []

end Occurrence

/-- What a loop answers when it ends. -/
def Ending.answer : Ending α → Option (CallResult α)
  | .delivered x => some (.ok (some x))
  | .failed f => some (.error (.failed f))
  | .cancelled | .signalled => some (.ok none)
  | .abandoned => none

/-- The payload that a loop ends with. -/
def Ending.payloads : Ending α → List α
  | .delivered x => [x]
  | _ => []

namespace Poller

/-- The calls after a loop has ended: the wait that listens has its answer. -/
def answering (p : Poller α) (l : Loop α) (e : Ending α) : List (Call α) :=
  match p.listener? l, e.answer with
  | some id, some r =>
    p.calls.map fun c => if c.id = id then { c with stage := .receiving l.id (some r) } else c
  | _, _ => p.calls

/-- The parked payload after a loop has ended. -/
def parking (p : Poller α) (l : Loop α) (e : Ending α) : Option α :=
  match p.listener? l, e with
  | none, .delivered x => some x
  | _, _ => p.parked

/-- The pending failure after a loop has ended. -/
def keeping (p : Poller α) (l : Loop α) (e : Ending α) : Option Failure :=
  match p.listener? l, e with
  | none, .failed f => some f
  | _, _ => p.failure

/-- What is to be told of the end of a loop. -/
def ending (p : Poller α) (l : Loop α) : Ending α → List (Occurrence α)
  | .failed f => p.failing l f
  | _ => []

/-- The poller without a loop that has ended. -/
def ended (p : Poller α) (l : Loop α) (e : Ending α) : Poller α :=
  { p with
    stopRequested := p.stopRequested || e.stops
    phase := if p.stopRequested || e.stops then .stopped else .idle
    current := none
    consumer := none
    calls := p.answering l e
    parked := p.parking l e
    failure := p.keeping l e }

theorem handOver_eq (p : Poller α) (l : Loop α) (e : Ending α) :
    p.handOver l.id l.consumer e =
      { p with
        calls := p.answering l e
        parked := p.parking l e
        failure := p.keeping l e } := by
  simp only [handOver, answering, parking, keeping, listener?]
  cases l.consumer with
  | waiter id =>
    by_cases h : p.isListening id l.id = true <;>
      cases e <;> simp [h, Ending.answer, setCallStage]
  | subscriber subscription => cases e <;> simp

/-- A loop that the life cycle names leaves it when it ends. -/
theorem finish_eq {p : Poller α} {l : Loop α} {j : Bool} (h : p.current = some ⟨l.id, j⟩)
    (e : Ending α) : p.finish l e = (p.ended l e).setStage l.id (.ended (exitOf l)) := by
  simp only [finish, vacate, h, Option.any_some, decide_true, if_true, handOver_eq]
  rfl

/-- What a move of a loop does. -/
inductive LoopEffect (p : Poller α) (l : Loop α) : List (Occurrence α) → Poller α → Prop
  /-- The loop goes on as `m`. -/
  | goesOn {m : Loop α} {es emptyPolls payloadPolls delayMillis} (ran : l.runs = true)
      (same : l.SameTask m)
      (alive : m.hasEnded = false) (work : ∀ o ∈ es, o.workOf? = some l.id)
      (payloads : l.stage.payloads ++ es.flatMap Occurrence.acquired =
        es.flatMap Occurrence.delivered ++ m.stage.payloads)
      (count : payloadPolls = p.payloadPolls + (es.flatMap Occurrence.acquired).length) :
      LoopEffect p l es { p.withLoop m with emptyPolls, payloadPolls, delayMillis }
  /-- The loop ends as `m`. -/
  | ends {m : Loop α} {e : Ending α} {es payloadPolls delayMillis} (ran : l.runs = true)
      (same : l.SameTask m)
      (exit : m.stage = .ended (exitOf l)) (work : ∀ o ∈ es, o.workOf? = some l.id)
      (payloads : l.stage.payloads ++ es.flatMap Occurrence.acquired =
        es.flatMap Occurrence.delivered ++ e.payloads)
      (count : payloadPolls = p.payloadPolls + (es.flatMap Occurrence.acquired).length)
      (gone : e = .abandoned → p.waiterGone l = true)
      (asked : e = .cancelled → p.isCancelled l = true) :
      LoopEffect p l (es ++ p.ending l e)
        { (p.ended l e).withLoop m with payloadPolls, delayMillis }

/-- A loop that ends leaves the life cycle, whatever became of its backoff and its script. -/
theorem finish_withLoop {p : Poller α} (h : p.Consistent) {l : Loop α} (hl : l ∈ p.loops)
    (hal : l.hasEnded = false) (e : Ending α) {m : Loop α} (hm : m.id = l.id) (n d : Nat) :
    finish { p.withLoop m with payloadPolls := n, delayMillis := d } l e =
      { (p.ended l e).withLoop { m with stage := .ended (exitOf l) } with
        payloadPolls := n, delayMillis := d } := by
  obtain ⟨j, hj⟩ := h.alive l hl hal
  rw [finish_eq (p := { p.withLoop m with payloadPolls := n, delayMillis := d }) hj]
  -- The end is recorded in the loop that stands in the place of `l`.
  have hstage : ((p.ended l e).withLoop m).setStage m.id (.ended (exitOf l)) =
      (p.ended l e).withLoop { m with stage := .ended (exitOf l) } :=
    updateLoop_withLoop (p.ended l e) m rfl
  rw [← hstage, hm]
  rfl

section

variable {p : Poller α} {l : Loop α}

/-- A loop that moves has not ended. -/
theorem LoopMove.alive {es q} (hmove : p.LoopMove l es q) : l.hasEnded = false := by
  cases hmove <;> simp_all [Loop.hasEnded]

/-- Only a loop whose task gets to run moves. -/
theorem LoopMove.ran (h : p.Consistent) (hl : l ∈ p.loops) {es q} (hmove : p.LoopMove l es q) :
    l.runs = true := by
  by_contra hr
  obtain ⟨b, hb⟩ := h.unrun l hl (by simpa using hr) hmove.alive
  cases hmove <;> simp_all

/-- A loop that goes on, with the gauges as they are then. -/
private theorem goesOn_as (ran : l.runs = true) {m : Loop α} (same : l.SameTask m)
    (alive : m.hasEnded = false) {es : List (Occurrence α)}
    (work : ∀ o ∈ es, o.workOf? = some l.id)
    (payloads : l.stage.payloads ++ es.flatMap Occurrence.acquired =
      es.flatMap Occurrence.delivered ++ m.stage.payloads) (n d : Nat) :
    p.LoopEffect l es
      { p.withLoop m with
        emptyPolls := n
        payloadPolls := p.payloadPolls + (es.flatMap Occurrence.acquired).length
        delayMillis := d } :=
  .goesOn ran same alive work payloads rfl

private theorem goesOn_update (h : p.Consistent) (hl : l ∈ p.loops) (ran : l.runs = true)
    {f : Loop α → Loop α} (same : l.SameTask (f l)) (alive : (f l).hasEnded = false)
    {es : List (Occurrence α)} (work : ∀ o ∈ es, o.workOf? = some l.id)
    (payloads : l.stage.payloads ++ es.flatMap Occurrence.acquired =
      es.flatMap Occurrence.delivered ++ (f l).stage.payloads)
    (n d : Nat) :
    p.LoopEffect l es
      { p.updateLoop l.id f with
        emptyPolls := n
        payloadPolls := p.payloadPolls + (es.flatMap Occurrence.acquired).length
        delayMillis := d } := by
  rw [updateLoop_eq h.ids hl same.id]
  exact goesOn_as ran same alive work payloads n d

private theorem ends_finish (h : p.Consistent) (hl : l ∈ p.loops) (hal : l.hasEnded = false)
    (ran : l.runs = true) {m : Loop α} (same : l.SameTask m) {e : Ending α}
    {es : List (Occurrence α)} (work : ∀ o ∈ es, o.workOf? = some l.id)
    (payloads : l.stage.payloads ++ es.flatMap Occurrence.acquired =
      es.flatMap Occurrence.delivered ++ e.payloads)
    (gone : e = .abandoned → p.waiterGone l = true)
    (asked : e = .cancelled → p.isCancelled l = true) (d : Nat) :
    p.LoopEffect l (es ++ p.ending l e)
      (finish { p.withLoop m with
        payloadPolls := p.payloadPolls + (es.flatMap Occurrence.acquired).length
        delayMillis := d } l e) := by
  rw [finish_withLoop h hl hal e same.id]
  exact .ends ran ⟨same.id, same.consumer, same.runs⟩ rfl work payloads rfl gone asked

/-- A loop that ends before it does anything. -/
private theorem ends_here (h : p.Consistent) (hl : l ∈ p.loops) (hal : l.hasEnded = false)
    (ran : l.runs = true) {e : Ending α} (payloads : l.stage.payloads = e.payloads)
    (gone : e = .abandoned → p.waiterGone l = true)
    (asked : e = .cancelled → p.isCancelled l = true) (d : Nat) :
    p.LoopEffect l (p.ending l e) (finish { p with delayMillis := d } l e) := by
  have heffect : p.LoopEffect l ([] ++ p.ending l e) _ := ends_finish h hl hal ran (m := l)
    ⟨rfl, rfl, rfl⟩ (by simp) (by simp [payloads]) gone asked d
  rw [h.withLoop_self hl] at heffect
  exact heffect

/-- A stop that is on its way makes no difference to a loop that ends because of it. -/
theorem beginStopping_finish {j : Bool} (hj : p.current = some ⟨l.id, j⟩) :
    p.beginStopping.finish l .signalled = p.finish l .signalled := by
  -- Who listens and what is parked or pending does not depend on the phase.
  have hended : p.beginStopping.ended l .signalled = p.ended l .signalled := by
    have hcalls : p.beginStopping.answering l .signalled = p.answering l .signalled := rfl
    have hparked : p.beginStopping.parking l .signalled = p.parking l .signalled := rfl
    have hfailure : p.beginStopping.keeping l .signalled = p.keeping l .signalled := rfl
    simp only [ended, hcalls, hparked, hfailure]
    simp [beginStopping, Ending.stops]
  rw [finish_eq hj, finish_eq (p := p.beginStopping) hj, hended]

/-- Why a loop that is about to poll has to end instead. -/
theorem interruption?_eq_some {raised : Bool} {w : Wake} (h : p.interruption? l raised = some w) :
    w = .cancelled ∧ p.isCancelled l = true ∨ w = .signalled ∧ raised = true := by
  unfold interruption? at h
  split at h
  · next hc => exact .inl ⟨(Option.some.inj h).symm, hc⟩
  · split at h
    · next hr => exact .inr ⟨(Option.some.inj h).symm, hr⟩
    · cases h

/-- What wakes a loop is there. -/
theorem of_mem_wakes {due now : Nat} {raised : Bool} {w : Wake} (h : w ∈ p.wakes l due now raised) :
    (w = .cancelled → p.isCancelled l = true) ∧ (w = .signalled → raised = true) ∧
      (w = .abandoned → p.waiterGone l = true) := by
  simp only [wakes, List.mem_append] at h
  refine ⟨?_, ?_, ?_⟩ <;>
  · rintro rfl
    by_contra hnot
    simp [hnot] at h

/-- A pause is over when its time has come. -/
theorem due_le_of_timer {due now : Nat} {raised : Bool}
    (h : .timer ∈ p.wakes l due now raised) : due ≤ now := by
  by_contra hlt
  simp [wakes, hlt] at h

/-- What wakes a loop makes it go on or end. -/
private theorem wake_effect (h : p.Consistent) (hl : l ∈ p.loops) (hal : l.hasEnded = false)
    (ran : l.runs = true) (hnone : l.stage.payloads = []) {w : Wake}
    (gone : w = .abandoned → p.waiterGone l = true)
    (asked : w = .cancelled → p.isCancelled l = true) : p.LoopEffect l [] (p.wake l w) := by
  cases w with
  | timer =>
    exact goesOn_update h hl ran
      (f := fun m => { m with backoff := l.backoff.advance, stage := .checking })
      ⟨rfl, rfl, rfl⟩ rfl (by simp) (by rw [hnone]; rfl) p.emptyPolls
      l.backoff.advance.current.millis
  | cancelled =>
    exact ends_here h hl hal ran (e := .cancelled) hnone (by simp) (fun _ => asked rfl)
      p.delayMillis
  | signalled =>
    obtain ⟨j, hj⟩ := h.alive l hl hal
    rw [wake, beginStopping_finish hj]
    exact ends_here h hl hal ran (e := .signalled) hnone (by simp) (by simp) p.delayMillis
  | abandoned =>
    exact ends_here h hl hal ran (e := .abandoned) hnone (fun _ => gone rfl) (by simp) p.delayMillis

private theorem setStage_withLoop (p : Poller α) (m : Loop α) (s : Stage α) :
    (p.withLoop m).setStage m.id s = p.withLoop { m with stage := s } :=
  updateLoop_withLoop p m rfl

/-- A loop that is alive and brings nothing in changes its stage. -/
private theorem setStage_effect (h : p.Consistent) (hl : l ∈ p.loops) (ran : l.runs = true)
    {s : Stage α} (alive : ({ l with stage := s } : Loop α).hasEnded = false)
    {es : List (Occurrence α)} (work : ∀ o ∈ es, o.workOf? = some l.id)
    (acquired : es.flatMap Occurrence.acquired = [])
    (payloads : l.stage.payloads = es.flatMap Occurrence.delivered ++ s.payloads) (n d : Nat) :
    p.LoopEffect l es { p.setStage l.id s with emptyPolls := n, delayMillis := d } := by
  have heffect := goesOn_update h hl ran (f := fun m => { m with stage := s }) ⟨rfl, rfl, rfl⟩
    alive work (by rw [acquired, List.append_nil, payloads]) n d
  rw [acquired] at heffect
  exact heffect

/-- A loop fails once it has handed over whatever it had. -/
private theorem failed_effect (h : p.Consistent) (hl : l ∈ p.loops) (hal : l.hasEnded = false)
    (ran : l.runs = true) (f : Failure) {m : Loop α} (same : l.SameTask m)
    {es : List (Occurrence α)} (work : ∀ o ∈ es, o.workOf? = some l.id)
    (acquired : es.flatMap Occurrence.acquired = [])
    (payloads : l.stage.payloads = es.flatMap Occurrence.delivered) :
    p.LoopEffect l (es ++ p.failing l f) ((p.withLoop m).finish l (.failed f)) := by
  have heffect := ends_finish h hl hal ran same (e := .failed f) work
    (by rw [acquired, payloads]; rfl) (by simp) (by simp) p.delayMillis
  rw [acquired] at heffect
  exact heffect

/-- A loop begins with its backlog, if there is one. -/
private theorem beginLoop_effect (h : p.Consistent) (hl : l ∈ p.loops) (hal : l.hasEnded = false)
    (ran : l.runs = true) {backlog : Option α} (hs : l.stage = .spawned backlog) :
    p.LoopEffect l [] (p.beginLoop l backlog) := by
  simp only [beginLoop]
  cases backlog with
  | none => exact setStage_effect h hl ran rfl (by simp) rfl (by rw [hs]; rfl) _ _
  | some x =>
    cases hc : l.consumer with
    | waiter id =>
      exact ends_here h hl hal ran (e := .delivered x) (by rw [hs]; rfl) (by simp) (by simp)
        l.backoff.current.millis
    | subscriber subscription =>
      exact setStage_effect h hl ran rfl (by simp) rfl (by rw [hs]; rfl) _ _

/-- A poll that found a payload hands it over, or has it ready for the callback. -/
private theorem foundPayload_effect (h : p.Consistent) (hl : l ∈ p.loops)
    (hal : l.hasEnded = false) (ran : l.runs = true) (hnone : l.stage.payloads = []) (x : α) :
    p.LoopEffect l [.polled l.id (.ok (.payload x))] (p.foundPayload l x) := by
  have hupdate : p.updateLoop l.id (fun m => { m with backoff := l.backoff.reset }) =
      p.withLoop { l with backoff := l.backoff.reset } := updateLoop_eq h.ids hl rfl
  have work : ∀ o ∈ ([.polled l.id (.ok (.payload x))] : List (Occurrence α)),
      o.workOf? = some l.id := by simp [Occurrence.workOf?]
  cases hc : l.consumer with
  | waiter id =>
    -- The backoff is reset before the loop ends, which makes no difference to its end.
    have heffect := ends_finish h hl hal ran (m := { l with backoff := l.backoff.reset })
      ⟨rfl, rfl, rfl⟩ (e := .delivered x) work (by rw [hnone]; rfl) (by simp) (by simp)
      l.backoff.reset.current.millis
    rw [← hupdate] at heffect
    simp only [foundPayload, hc]
    exact heffect
  | subscriber subscription =>
    have heffect := goesOn_as (p := p) ran
      (m := { l with backoff := l.backoff.reset, stage := .handing x }) ⟨rfl, rfl, rfl⟩ rfl work
      (by rw [hnone]; rfl) p.emptyPolls l.backoff.reset.current.millis
    rw [← setStage_withLoop p { l with backoff := l.backoff.reset }, ← hupdate] at heffect
    simp only [foundPayload, hc]
    exact heffect

/-- A poll comes to its end. -/
private theorem endPoll_effect (h : p.Consistent) (hl : l ∈ p.loops) (hal : l.hasEnded = false)
    (ran : l.runs = true) (hnone : l.stage.payloads = []) (r : Except Failure (Polled α))
    (now : Nat) : p.LoopEffect l (p.polling l r) (p.endPoll l now r) := by
  cases r with
  | error f =>
    have heffect : p.LoopEffect l ([.polled l.id (.error f)] ++ p.failing l f) _ :=
      failed_effect h hl hal ran f ⟨rfl, rfl, rfl⟩ (by simp [Occurrence.workOf?]) rfl hnone
    rw [h.withLoop_self hl] at heffect
    exact heffect
  | ok r =>
    cases r with
    | empty =>
      simp only [endPoll, foundNothing]
      split
      · exact setStage_effect h hl ran rfl (by simp [polling, Occurrence.workOf?]) rfl
          (by rw [hnone]; rfl) _ _
      · exact setStage_effect h hl ran rfl (by simp [polling, Occurrence.workOf?]) rfl
          (by rw [hnone]; rfl) _ _
    | payload x => exact foundPayload_effect h hl hal ran hnone x

/-- The callback is invoked, or panics at once. -/
private theorem beginCallback_effect (h : p.Consistent) (hl : l ∈ p.loops)
    (hal : l.hasEnded = false) (ran : l.runs = true) {x : α} (hs : l.stage = .handing x)
    (now : Nat) : p.LoopEffect l (p.invoking l x) (p.beginCallback l now) := by
  have hupdate : p.updateLoop l.id (fun m => { m with script := l.script.next.2 }) =
      p.withLoop { l with script := l.script.next.2 } := updateLoop_eq h.ids hl rfl
  have work : ∀ o ∈ ([.invoked l.id x] : List (Occurrence α)), o.workOf? = some l.id := by
    simp [Occurrence.workOf?]
  -- The entry of the script is used up in either case.
  have hcalls : p.LoopEffect l [.invoked l.id x]
      ((p.withLoop { l with script := l.script.next.2 }).setStage l.id
        (.calling l.script.next.1
          (now + (Duration.ofMillis l.script.next.1.latency).timer))) := by
    have heffect := goesOn_as (p := p) ran
      (m := { l with
        script := l.script.next.2
        stage := .calling l.script.next.1
          (now + (Duration.ofMillis l.script.next.1.latency).timer) })
      ⟨rfl, rfl, rfl⟩ rfl work (by rw [hs]; rfl) p.emptyPolls p.delayMillis
    rw [← setStage_withLoop p { l with script := l.script.next.2 }] at heffect
    exact heffect
  simp only [beginCallback, invoking, hupdate]
  cases ho : l.script.next.1.outcome with
  | panickedAtOnce panic =>
    have heffect : p.LoopEffect l
        ([.invoked l.id x] ++ p.failing l (.callbackPanic panic.message)) _ :=
      failed_effect h hl hal ran (.callbackPanic panic.message)
        (m := { l with script := l.script.next.2 }) ⟨rfl, rfl, rfl⟩ work rfl (by rw [hs]; rfl)
    exact heffect
  | done | failed reason | panicked panic => exact hcalls

/-- The callback comes to its end. -/
private theorem endCallback_effect (h : p.Consistent) (hl : l ∈ p.loops)
    (hal : l.hasEnded = false) (ran : l.runs = true) (hnone : l.stage.payloads = [])
    (o : CallbackOutcome) : p.LoopEffect l (p.handling l o) (p.endCallback l o) := by
  have work : ∀ o' ∈ ([.handled l.id o] : List (Occurrence α)), o'.workOf? = some l.id := by
    simp [Occurrence.workOf?]
  have hfail : ∀ f, p.LoopEffect l ([.handled l.id o] ++ p.failing l f)
      (p.finish l (.failed f)) := by
    intro f
    have heffect := failed_effect h hl hal ran f ⟨rfl, rfl, rfl⟩ work rfl hnone
    rw [h.withLoop_self hl] at heffect
    exact heffect
  cases o with
  | done => exact setStage_effect h hl ran rfl work rfl (by rw [hnone]; rfl) _ _
  | failed reason => exact hfail (.callback reason)
  | panicked panic | panickedAtOnce panic => exact hfail (.callbackPanic panic.message)

/-- Every move of a loop lets it go on or ends it. -/
theorem LoopMove.effect (h : p.Consistent) (hl : l ∈ p.loops) {es q}
    (hmove : p.LoopMove l es q) : p.LoopEffect l es q := by
  have hal := hmove.alive
  have ran := hmove.ran h hl
  cases hmove with
  | begins hs => exact beginLoop_effect h hl hal ran hs
  | interrupted hs why =>
    -- A loop that is about to poll does not ask whether its waiter is still there.
    rcases interruption?_eq_some why with ⟨rfl, hc⟩ | ⟨rfl, -⟩
    · exact wake_effect h hl hal ran (by rw [hs]; rfl) (by simp) fun _ => hc
    · exact wake_effect h hl hal ran (by rw [hs]; rfl) (by simp) (by simp)
  | queues hs => exact setStage_effect h hl ran rfl (by simp) rfl (by rw [hs]; rfl) _ _
  | beginsPoll hs =>
    exact setStage_effect h hl ran rfl (by simp [Occurrence.workOf?]) rfl (by rw [hs]; rfl) _ _
  | endsPoll hs => exact endPoll_effect h hl hal ran (by rw [hs]; rfl) _ _
  | beginsCallback hs => exact beginCallback_effect h hl hal ran hs _
  | endsCallback hs => exact endCallback_effect h hl hal ran (by rw [hs]; rfl) _
  | resumes hs => exact wake_effect h hl hal ran (by rw [hs]; rfl) (w := .timer) (by simp) (by simp)
  | wakes hs why =>
    obtain ⟨cancelled, -, gone⟩ := of_mem_wakes why
    exact wake_effect h hl hal ran (by rw [hs]; rfl) gone cancelled

end

end Poller

end Polling
