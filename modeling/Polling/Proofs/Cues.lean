import Polling.Proofs.LifeCycle

/-!
# Moves on cue

A `Cue` settles what a move leaves open: whose turn it is, and what the surroundings do.
`Poller.act?` is the move that a cue leads to, if it can be made at this moment, and
`Poller.perform?` makes one move after the other.  All that they come to are moves and runs, so a
run is given by its cues; and every move is made on some cue (`Move.exists_act?`), so cues can tell
what did not happen in a run.
-/

namespace Polling

variable {α : Type}

/-- What a move of a loop leaves open. -/
inductive LoopCue (α : Type) where
  /-- It goes on by itself. -/
  | go
  | check (raised : Bool)
  | beginPoll (attempt : Attempt α) (now : Nat)
  | endPoll (r : Except Failure (Polled α)) (now : Nat)
  | callBack (now : Nat)
  | wake (w : Wake) (now : Nat) (raised : Bool)

/-- What a move of a poller leaves open. -/
inductive Cue (α : Type) where
  | loop (loop : Nat) (cue : LoopCue α)
  | call (call : Call α)
  /-- A pending call goes on, within a runtime or without. -/
  | resume (call : String) (runtime : Bool)
  | drop (call : String)
  | subscribe (runtime : Bool) (subscription : String) (script : Script (Handling α)) (runs : Bool)
      (releasePanic : Option String)
  | stop
  | release
  /-- The task of a loop is discarded. -/
  | discard (loop : Nat)

/-- What a cue shows of the signal. -/
def LoopCue.shown? : LoopCue α → Option Bool
  | .check raised | .wake _ _ raised => some raised
  | _ => none

/-- What a cue shows of the clock. -/
def LoopCue.now? : LoopCue α → Option Nat
  | .beginPoll _ now | .endPoll _ now | .callBack now | .wake _ now _ => some now
  | _ => none

namespace Cue

/-- Whether it is the turn of a loop. -/
def isOf (i : Nat) : Cue α → Bool
  | .loop j _ => j = i
  | _ => false

/-- Whether a cue shows nothing else of the signal. -/
def Shows (raised : Bool) : Cue α → Prop
  | .loop _ cue => ∀ b, cue.shown? = some b → b = raised
  | _ => True

end Cue

namespace Poller

/-- The move of a loop on cue. -/
def loopAct? (p : Poller α) (l : Loop α) (cue : LoopCue α) :
    Option (List (Occurrence α) × Poller α) :=
  match l.stage, cue with
  | .spawned backlog, .go => if l.runs then some ([], p.beginLoop l backlog) else none
  | .checking, .check raised =>
    match p.interruption? l raised with
    | some w => some ([], p.wake l w)
    | none => some ([], p.setStage l.id .queued)
  | .queued, .beginPoll attempt now => some ([.pollBegan l.id], p.beginPoll l attempt now)
  | .polling _ _, .endPoll r now => some (p.polling l r, p.endPoll l now r)
  | .handing x, .callBack now => some (p.invoking l x, p.beginCallback l now)
  | .calling h _, .go => some (p.handling l h.outcome, p.endCallback l h.outcome)
  | .yielded, .go => some ([], p.resume l)
  | .asleep _ due, .wake w now raised =>
    if w ∈ p.wakes l due now raised then some ([], p.wake l w) else none
  | _, _ => none

/-- The move of a pending call. -/
def callAct? (p : Poller α) (runtime : Bool) (c : Call α) :
    Option (List (Occurrence α) × Poller α) :=
  if p.callReady c then
    match p.moveCall runtime c with
    | (q, .goesOn stage) => some (p.noticing c, q.setCallStage c.id stage)
    | (q, .returned r) => some (p.noticing c ++ [c.returning r], q.dropCall c.id)
  else none

/-- The move on cue. -/
def act? (p : Poller α) : Cue α → Option (List (Occurrence α) × Poller α)
  | .loop i cue => (p.loop? i).bind fun l => p.loopAct? l cue
  | .call c =>
    if c.stage.isFirst && p.calls.all (·.id ≠ c.id) && p.loops.all (·.consumer ≠ .waiter c.id) then
      some ([.called c.id c.stage], { p with calls := p.calls ++ [c] })
    else none
  | .resume id runtime => (p.call? id).bind (p.callAct? runtime)
  | .drop id => (p.call? id).map fun c => ([.dropped c.id c.unread], p.dropCall c.id)
  | .subscribe runtime subscription script runs releasePanic =>
    if p.loops.all (·.consumer ≠ .subscriber subscription) then
      some (subscribing subscription (p.subscribe runtime subscription script runs releasePanic).2,
        (p.subscribe runtime subscription script runs releasePanic).1)
    else none
  | .stop => some ([], p.stop)
  | .release => some ([], p.release)
  | .discard i => (p.loop? i).bind fun l =>
    if l.stage.awaits then some ([.discarded i l.stage.payloads], p.discard i) else none

/-- All the moves on cue, one after the other. -/
def perform? (p : Poller α) : List (Cue α) → Option (List (Occurrence α) × Poller α)
  | [] => some ([], p)
  | cue :: cues =>
    (p.act? cue).bind fun (es, q) => (q.perform? cues).map fun (tr, r) => (es ++ tr, r)

variable {p q : Poller α} {l : Loop α} {c : Call α}

theorem loopMove_of_loopAct? {cue : LoopCue α} {es} (h : p.loopAct? l cue = some (es, q)) :
    p.LoopMove l es q := by
  unfold loopAct? at h
  split at h
  · next backlog hs =>
    split at h
    · next runs =>
      cases h
      exact .begins hs runs
    · cases h
  · next raised hs =>
    split at h
    · next w why =>
      cases h
      exact .interrupted hs why
    · next why =>
      cases h
      exact .queues hs why
  · next hs =>
    cases h
    exact .beginsPoll hs
  · next hs =>
    cases h
    exact .endsPoll hs
  · next hs =>
    cases h
    exact .beginsCallback hs
  · next hs =>
    cases h
    exact .endsCallback hs
  · next hs =>
    cases h
    exact .resumes hs
  · next hs =>
    split at h
    · next why =>
      cases h
      exact .wakes hs why
    · cases h
  · cases h

theorem move_of_callAct? {runtime : Bool} {es} (hc : c ∈ p.calls)
    (h : p.callAct? runtime c = some (es, q)) : p.Move es q := by
  unfold callAct? at h
  split at h
  · next ready =>
    split at h
    · next goes =>
      cases h
      exact .proceed hc ready goes
    · next goes =>
      cases h
      exact .finish hc ready goes
  · cases h

/-- A call that moves on cue does what it does, and then goes on or has returned. -/
theorem exists_of_callAct? {runtime : Bool} {es} (h : p.callAct? runtime c = some (es, q)) :
    ∃ r v, p.moveCall runtime c = (r, v) ∧ q = { r with calls := q.calls } ∧
      ∀ o ∈ es, o ∈ p.noticing c ∨ ∃ x, o = c.returning x := by
  unfold callAct? at h
  split at h
  · split at h
    · next r stage goes =>
      cases h
      exact ⟨r, _, goes, rfl, fun o ho => .inl ho⟩
    · next r x goes =>
      cases h
      refine ⟨r, _, goes, rfl, fun o ho => (List.mem_append.1 ho).imp_right fun ho => ?_⟩
      exact ⟨x, List.mem_singleton.1 ho⟩
  · cases h

/-- A task is discarded on cue where it waits. -/
theorem discard_of_act? {i : Nat} {es} (h : p.act? (.discard i) = some (es, q)) :
    ∃ l ∈ p.loops, l.id = i ∧ l.stage.awaits = true ∧ es = [.discarded i l.stage.payloads] ∧
      q = p.discard i := by
  obtain ⟨l, hl, hact⟩ := Option.bind_eq_some_iff.1 h
  obtain ⟨hmem, hid⟩ := loop?_eq_some hl
  split at hact
  · next waits =>
    cases hact
    exact ⟨l, hmem, hid, waits, rfl, rfl⟩
  · cases hact

/-- What is done on cue is a move. -/
theorem move_of_act? (cue : Cue α) {es} (h : p.act? cue = some (es, q)) : p.Move es q := by
  cases cue with
  | loop i cue =>
    obtain ⟨l, hl, hact⟩ := Option.bind_eq_some_iff.1 h
    exact .loop (loop?_eq_some hl).1 (loopMove_of_loopAct? hact)
  | call c =>
    simp only [act?] at h
    split at h
    · next hnew =>
      simp only [Bool.and_eq_true, List.all_eq_true, decide_eq_true_eq] at hnew
      obtain ⟨⟨first, new⟩, fresh⟩ := hnew
      cases h
      exact .call first new fresh
    · cases h
  | resume id runtime =>
    obtain ⟨c, hc, hact⟩ := Option.bind_eq_some_iff.1 h
    exact move_of_callAct? (call?_eq_some hc).1 hact
  | drop id =>
    obtain ⟨c, hc, hact⟩ := Option.map_eq_some_iff.1 h
    cases hact
    exact .drop (call?_eq_some hc).1
  | subscribe runtime subscription script runs releasePanic =>
    simp only [act?] at h
    split at h
    · next fresh =>
      simp only [List.all_eq_true, decide_eq_true_eq] at fresh
      cases h
      exact .subscribe fresh
    · cases h
  | stop =>
    cases h
    exact .stop
  | release =>
    cases h
    exact .release
  | discard i =>
    obtain ⟨l, hl, rfl, waits, rfl, rfl⟩ := discard_of_act? h
    exact .discard hl waits

/-- Every move of a loop is made on some cue. -/
theorem LoopMove.exists_loopAct? {es} (hmove : p.LoopMove l es q) :
    ∃ cue, p.loopAct? l cue = some (es, q) := by
  cases hmove with
  | begins hs runs => exact ⟨.go, by simp [loopAct?, hs, runs]⟩
  | @interrupted raised _ hs why => exact ⟨.check raised, by simp [loopAct?, hs, why]⟩
  | @queues raised hs why => exact ⟨.check raised, by simp [loopAct?, hs, why]⟩
  | @beginsPoll attempt now hs => exact ⟨.beginPoll attempt now, by simp [loopAct?, hs]⟩
  | @endsPoll _ _ r now hs => exact ⟨.endPoll r now, by simp [loopAct?, hs]⟩
  | @beginsCallback _ now hs => exact ⟨.callBack now, by simp [loopAct?, hs]⟩
  | endsCallback hs | resumes hs => exact ⟨.go, by simp [loopAct?, hs]⟩
  | @wakes _ _ now raised w hs why => exact ⟨.wake w now raised, by simp [loopAct?, hs, why]⟩

/-- Every move is made on some cue. -/
theorem Move.exists_act? (h : p.Consistent) {es} (hmove : p.Move es q) :
    ∃ cue, p.act? cue = some (es, q) := by
  cases hmove with
  | @loop _ l _ mem move =>
    obtain ⟨cue, hcue⟩ := move.exists_loopAct?
    exact ⟨.loop l.id cue, by simpa [act?, h.loop?_of_mem mem] using hcue⟩
  | @proceed _ c runtime _ mem ready goes | @finish _ c runtime _ mem ready goes =>
    exact ⟨.resume c.id runtime, by simp [act?, h.call?_of_mem mem, callAct?, ready, goes]⟩
  | @call c first new fresh =>
    refine ⟨.call c, if_pos ?_⟩
    simpa [first] using ⟨new, fresh⟩
  | @drop c mem => exact ⟨.drop c.id, by simp [act?, h.call?_of_mem mem]⟩
  | @subscribe runtime subscription script runs releasePanic fresh =>
    exact ⟨.subscribe runtime subscription script runs releasePanic, if_pos (by simpa using fresh)⟩
  | stop => exact ⟨.stop, rfl⟩
  | release => exact ⟨.release, rfl⟩
  | @discard l mem waits => exact ⟨.discard l.id, by simp [act?, h.loop?_of_mem mem, waits]⟩

/-- What is done on cue, move by move, is a run. -/
theorem run_of_perform? (cues : List (Cue α)) {tr} (h : p.perform? cues = some (tr, q)) :
    Run p tr q := by
  induction cues generalizing p tr with
  | nil =>
    cases h
    exact .nil
  | cons cue cues ih =>
    obtain ⟨⟨es, r⟩, hact, hrest⟩ := Option.bind_eq_some_iff.1 h
    obtain ⟨⟨ts, r'⟩, hperform, hpair⟩ := Option.map_eq_some_iff.1 hrest
    cases hpair
    exact Run.cons (move_of_act? cue hact) (ih hperform)

/-- One more move on cue. -/
theorem perform?_snoc {cues : List (Cue α)} {cue : Cue α} {tr es} {r : Poller α}
    (h : p.perform? cues = some (tr, q)) (hact : q.act? cue = some (es, r)) :
    p.perform? (cues ++ [cue]) = some (tr ++ es, r) := by
  induction cues generalizing p tr with
  | nil =>
    cases h
    simp [perform?, hact]
  | cons first cues ih =>
    obtain ⟨⟨es', u⟩, hfirst, hrest⟩ := Option.bind_eq_some_iff.1 h
    obtain ⟨⟨ts, u'⟩, hperform, hpair⟩ := Option.map_eq_some_iff.1 hrest
    cases hpair
    simp [perform?, hfirst, ih hperform]

end Poller

end Polling
