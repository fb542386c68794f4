import Polling.Proofs.Cues
import Polling.Proofs.LoopHistory
import Polling.Proofs.Readings

/-!
# One thing at a time

A poller polls or runs a callback, never both, and never two of either.  Told by its occurrences:
a poll or a callback begins only while neither is in progress, and what ends is what was in progress
(`Occurrence.after?`).  This needs no lock of the poller's own.  It follows from there being at most
one loop that has not ended, and from what one loop does move by move (`LoopMove.goingOn`).
-/

namespace Polling

variable {α : Type}

/-- What a loop may be busy with. -/
inductive Activity where
  | poll (loop : Nat)
  | callback (loop : Nat)
deriving DecidableEq

/-- What a loop is busy with. -/
def Loop.activity? (l : Loop α) : Option Activity :=
  match l.stage with
  | .polling _ _ => some (.poll l.id)
  | .calling _ _ => some (.callback l.id)
  | _ => none

/-- What is in progress after an occurrence, if that may happen while `now` is in progress. -/
def Occurrence.after? (now : Option Activity) : Occurrence α → Option (Option Activity)
  | pollBegan i => if now = none then some (some (.poll i)) else none
  | polled i _ => if now = some (.poll i) then some none else none
  | invoked i _ => if now = none then some (some (.callback i)) else none
  | handled i _ => if now = some (.callback i) then some none else none
  -- A callback that panics on invocation is over when its loop has failed.
  | failed i _ _ => if now = none ∨ now = some (.callback i) then some none else none
  -- A task that is discarded leaves off in the middle of what it does.
  | discarded i _ =>
    if now = none ∨ now = some (.poll i) ∨ now = some (.callback i) then some none else none
  | _ => some now

/-- What is in progress after some occurrences, if they may happen one after the other. -/
def goingOn? (now : Option Activity) (tr : List (Occurrence α)) : Option (Option Activity) :=
  tr.foldlM Occurrence.after? now

theorem goingOn?_append (now : Option Activity) (tr ts : List (Occurrence α)) :
    goingOn? now (tr ++ ts) = (goingOn? now tr).bind fun next => goingOn? next ts :=
  List.foldlM_append

/-- What is neither work nor the end of a loop may happen at any moment. -/
theorem goingOn?_of_still {tr : List (Occurrence α)} (now : Option Activity)
    (still : ∀ o ∈ tr, o.workOf? = none ∧ ∀ i f listener, o ≠ .failed i f listener)
    (kept : ∀ i xs, .discarded i xs ∉ tr) : goingOn? now tr = some now := by
  induction tr with
  | nil => rfl
  | cons o tr ih =>
    have hafter : o.after? now = some now := by
      obtain ⟨hwork, hfailed⟩ := still o List.mem_cons_self
      cases o with
      | pollBegan | polled | invoked | handled => cases hwork
      | failed i f listener => exact absurd rfl (hfailed i f listener)
      | discarded i xs => exact absurd List.mem_cons_self (kept i xs)
      | _ => rfl
    have hrest := ih (fun o' ho' => still o' (List.mem_cons_of_mem _ ho')) fun i xs ho =>
      kept i xs (List.mem_cons_of_mem _ ho)
    simp only [goingOn?, List.foldlM_cons, hafter] at hrest ⊢
    exact hrest

/-- A task that has not run is busy with nothing. -/
theorem activity?_of_spawned (l : Loop α) (b : Option α) (hs : l.stage = .spawned b) :
    l.activity?.toList = [] := by
  simp [Loop.activity?, hs]

theorem reads_activity : Loop.Reads fun l : Loop α => l.activity?.toList where
  ended l hend := by
    cases hs : l.stage with
    | ended exit => simp [Loop.activity?, hs]
    | _ => simp [Loop.hasEnded, hs] at hend
  spawned l hs := activity?_of_spawned l none hs
  cancelled l b := rfl

namespace Poller

/-- What the loops of a poller are busy with. -/
def activities (p : Poller α) : List Activity := p.read fun l => l.activity?.toList

variable {p q : Poller α} {l : Loop α} {c : Call α}

/-- Whether a loop is busy with nothing after a move. -/
def Rests (p : Poller α) (l : Loop α) (q : Poller α) : Prop :=
  ∃ f : Loop α → Loop α, q.loops = (p.updateLoop l.id f).loops ∧ (f l).activity? = none

theorem loops_finish (p : Poller α) (l : Loop α) (e : Ending α) :
    (p.finish l e).loops = (p.setStage l.id (.ended (exitOf l))).loops := by
  simp only [finish, handOver_eq, vacate, setStage, updateLoop]
  split <;> rfl

/-- A loop may be changed twice. -/
theorem loops_updateLoop_updateLoop (p : Poller α) (i : Nat) {f f' : Loop α → Loop α}
    (hf : ∀ k, (f k).id = k.id) :
    ((p.updateLoop i f).updateLoop i f').loops = (p.updateLoop i (f' ∘ f)).loops := by
  simp only [updateLoop, List.map_map]
  apply List.map_congr_left
  intro k _
  by_cases hk : k.id = i <;> simp [hk, hf]

theorem rests_finish (p : Poller α) (l : Loop α) (e : Ending α) : p.Rests l (p.finish l e) :=
  ⟨_, loops_finish p l e, rfl⟩

/-- A loop that ends rests, whatever was changed in it before. -/
theorem rests_finish_updateLoop (p : Poller α) (l : Loop α) (e : Ending α) {f : Loop α → Loop α}
    (hf : ∀ k, (f k).id = k.id) (hq : q.loops = (p.updateLoop l.id f).loops) :
    p.Rests l (q.finish l e) := by
  refine ⟨(fun m => { m with stage := .ended (exitOf l) }) ∘ f, ?_, rfl⟩
  rw [loops_finish, setStage, updateLoop, hq]
  exact loops_updateLoop_updateLoop p l.id hf

theorem rests_beginLoop (p : Poller α) (l : Loop α) (backlog : Option α) :
    p.Rests l (p.beginLoop l backlog) := by
  unfold beginLoop
  split
  · exact ⟨_, rfl, rfl⟩
  · exact rests_finish (p.recordDelay l.backoff.current) l _
  · exact ⟨_, rfl, rfl⟩

theorem rests_wake (p : Poller α) (l : Loop α) (w : Wake) : p.Rests l (p.wake l w) := by
  cases w with
  | timer => exact ⟨_, rfl, rfl⟩
  | signalled => exact rests_finish p.beginStopping l _
  | cancelled | abandoned => exact p.rests_finish l _

theorem rests_endPoll (p : Poller α) (l : Loop α) (now : Nat) (r : Except Failure (Polled α)) :
    p.Rests l (p.endPoll l now r) := by
  rcases r with f | _ | x
  · exact p.rests_finish l _
  · simp only [endPoll, foundNothing]
    split <;> exact ⟨_, rfl, rfl⟩
  · have hf : ∀ k : Loop α, ({ k with backoff := l.backoff.reset } : Loop α).id = k.id :=
      fun _ => rfl
    simp only [endPoll, foundPayload]
    split
    · exact rests_finish_updateLoop p l _ hf rfl
    · exact ⟨_, loops_updateLoop_updateLoop p l.id hf, rfl⟩

theorem rests_endCallback (p : Poller α) (l : Loop α) (o : CallbackOutcome) :
    p.Rests l (p.endCallback l o) := by
  cases o with
  | done => exact ⟨_, rfl, rfl⟩
  | _ => exact p.rests_finish l _

/-- A failure ends a callback that is in progress, if there is one. -/
theorem goingOn?_failing (p : Poller α) (l : Loop α) (f : Failure) {now : Option Activity}
    (hnow : now = none ∨ now = some (.callback l.id)) :
    goingOn? now (p.failing l f) = some none := by
  unfold failing overwriting
  split
  · simp [goingOn?, Occurrence.after?, hnow]
  · cases p.failure <;> simp [goingOn?, Occurrence.after?, hnow]

/-- A poll comes to its end, and a failure may follow. -/
theorem goingOn?_polling (p : Poller α) (l : Loop α) (r : Except Failure (Polled α)) :
    goingOn? (some (.poll l.id)) (p.polling l r) = some none := by
  have hends : ∀ es : List (Occurrence α),
      goingOn? (some (.poll l.id)) (.polled l.id r :: es) = goingOn? none es := by
    intro es
    simp [goingOn?, Occurrence.after?]
  cases r with
  | ok x => exact hends []
  | error f => exact (hends _).trans (p.goingOn?_failing l f (.inl rfl))

/-- A callback comes to its end, and a failure may follow. -/
theorem goingOn?_handling (p : Poller α) (l : Loop α) (o : CallbackOutcome) :
    goingOn? (some (.callback l.id)) (p.handling l o) = some none := by
  have hends : ∀ es : List (Occurrence α),
      goingOn? (some (.callback l.id)) (.handled l.id o :: es) = goingOn? none es := by
    intro es
    simp [goingOn?, Occurrence.after?]
  cases o with
  | done => exact hends []
  | _ => exact (hends _).trans (p.goingOn?_failing l _ (.inl rfl))

/-- A callback is in progress from its invocation, unless that panics. -/
theorem goingOn_beginCallback (p : Poller α) (l : Loop α) (x : α) (now : Nat) :
    ∃ f : Loop α → Loop α, (p.beginCallback l now).loops = (p.updateLoop l.id f).loops ∧
      goingOn? none (p.invoking l x) = some (f l).activity? := by
  have hf : ∀ k : Loop α, ({ k with script := l.script.next.2 } : Loop α).id = k.id :=
    fun _ => rfl
  have hbegins : ∀ es : List (Occurrence α),
      goingOn? none (.invoked l.id x :: es) = goingOn? (some (.callback l.id)) es := by
    intro es
    simp [goingOn?, Occurrence.after?]
  simp only [beginCallback, invoking, hbegins]
  cases l.script.next.1.outcome with
  | panickedAtOnce panic =>
    obtain ⟨f, hloops, hrests⟩ := rests_finish_updateLoop p l
      (.failed (.callbackPanic panic.message)) hf rfl
    refine ⟨f, hloops, ?_⟩
    rw [hrests]
    exact p.goingOn?_failing l _ (.inr rfl)
  | done | failed reason | panicked panic =>
    exact ⟨_, loops_updateLoop_updateLoop p l.id hf, rfl⟩

/-- What a loop does in one move may happen while it is busy with what it is busy with. -/
theorem LoopMove.goingOn {es} (hmove : p.LoopMove l es q) :
    ∃ f : Loop α → Loop α, q.loops = (p.updateLoop l.id f).loops ∧
      goingOn? l.activity? es = some (f l).activity? := by
  have hrests : p.Rests l q → goingOn? l.activity? es = some none →
      ∃ f : Loop α → Loop α, q.loops = (p.updateLoop l.id f).loops ∧
        goingOn? l.activity? es = some (f l).activity? := by
    rintro ⟨f, hloops, hf⟩ hes
    exact ⟨f, hloops, hf ▸ hes⟩
  -- Most stages are no activity, and most moves tell nothing.
  have hidle : es = [] → l.activity? = none → goingOn? l.activity? es = some none := by
    rintro rfl hnone
    rw [hnone]
    rfl
  cases hmove with
  | begins hs =>
    exact hrests (p.rests_beginLoop l _) (hidle rfl (by simp [Loop.activity?, hs]))
  | interrupted hs | wakes hs =>
    exact hrests (p.rests_wake l _) (hidle rfl (by simp [Loop.activity?, hs]))
  | queues hs => exact hrests ⟨_, rfl, rfl⟩ (hidle rfl (by simp [Loop.activity?, hs]))
  | resumes hs => exact hrests ⟨_, rfl, rfl⟩ (hidle rfl (by simp [Loop.activity?, hs]))
  | beginsPoll hs =>
    refine ⟨_, rfl, ?_⟩
    simp [goingOn?, Occurrence.after?, Loop.activity?, hs]
  | @endsPoll _ _ r _ hs =>
    refine hrests (p.rests_endPoll l _ r) ?_
    simpa [Loop.activity?, hs] using p.goingOn?_polling l r
  | @beginsCallback x now hs =>
    simpa [Loop.activity?, hs] using p.goingOn_beginCallback l x now
  | @endsCallback handling _ hs =>
    refine hrests (p.rests_endCallback l _) ?_
    simpa [Loop.activity?, hs] using p.goingOn?_handling l handling.outcome

/-- A task that is discarded may be busy with anything. -/
theorem goingOn?_discarded (l : Loop α) (xs : List α) :
    goingOn? l.activity? [.discarded l.id xs] = some none := by
  unfold Loop.activity?
  split <;> simp [goingOn?, Occurrence.after?]

/-- Whatever happens in a move may happen while the poller is busy with what it is busy with. -/
theorem Move.goingOn (h : p.Sound) {es} (hmove : p.Move es q) {now : Option Activity}
    (hnow : p.activities = now.toList) :
    ∃ next, q.activities = next.toList ∧ goingOn? now es = some next := by
  -- All that the poller can be busy with is what its one loop does that has not ended.
  have hbusy : ∀ l ∈ p.loops, l.hasEnded = false → now = l.activity? := fun l hl hal => by
    simpa using congrArg List.head? (hnow.symm.trans (h.read_of_alive reads_activity hl hal))
  have hloop : ∀ l ∈ p.loops, p.LoopMove l es q →
      ∃ next, q.activities = next.toList ∧ goingOn? now es = some next := by
    intro l hl move
    rw [hbusy l hl move.alive]
    obtain ⟨f, hloops, hes⟩ := move.goingOn
    exact ⟨_, h.read_updateLoop reads_activity hl move.alive hloops, hes⟩
  by_cases hgone : ∃ i xs, .discarded i xs ∈ es
  · obtain ⟨i, xs, ho⟩ := hgone
    obtain ⟨l, hl, waits, rfl, rfl⟩ := hmove.discards h ho
    have hal := Stage.alive_of_awaits waits
    rw [hbusy l hl hal]
    exact ⟨none, h.read_discard reads_activity hl hal, goingOn?_discarded l _⟩
  rcases hmove.loop_or_still with ⟨l, hl, move⟩ | still
  · exact hloop l hl move
  · have hsame : q.activities = p.activities →
        ∃ next, q.activities = next.toList ∧ goingOn? now es = some next :=
      fun hq => ⟨now, hq.trans hnow,
        goingOn?_of_still now still fun i xs ho => hgone ⟨i, xs, ho⟩⟩
    cases hmove with
    | loop mem move => exact hloop _ mem move
    | proceed mem _ goes | finish mem _ goes =>
      have hread := (callEffect_of_moveCall h mem goes).read_eq reads_activity
      exact hsame hread
    | subscribe =>
      exact hsame ((subscribeEffect p _ _ _ _ _).read_eq activity?_of_spawned)
    | discard => exact absurd ⟨_, _, List.mem_cons_self⟩ hgone
    | _ => exact hsame rfl

/-- Whatever happens in a run may happen while the poller is busy with what it is busy with. -/
theorem Run.goingOn {tr} (hrun : Run p tr q) (h : p.Sound) {now : Option Activity}
    (hnow : p.activities = now.toList) :
    ∃ next, q.activities = next.toList ∧ goingOn? now tr = some next := by
  induction hrun with
  | nil => exact ⟨now, hnow, rfl⟩
  | snoc hrun hmove ih =>
    obtain ⟨next, hq, htr⟩ := ih
    obtain ⟨last, hr, hes⟩ := hmove.goingOn (h.run hrun) hq
    exact ⟨last, hr, by rw [goingOn?_append, htr]; exact hes⟩

/-- At any moment at most one poll or callback is in progress.  In a run each begins while nothing
is in progress, and ends before anything else begins; and nothing is in progress while the poller
is idle or stopped. -/
theorem one_activity_at_a_time {name : String} {pacing : Pacing} {tr : List (Occurrence α)}
    (h : Run (idle name pacing) tr p) :
    ∃ now, p.activities = now.toList ∧ goingOn? none tr = some now ∧
      (p.phase = .idle ∨ p.phase = .stopped → now = none) := by
  have hsound : p.Sound := (sound_idle name pacing).run h
  have hidle : (idle name pacing : Poller α).activities = (none : Option Activity).toList := rfl
  obtain ⟨now, hnow, htr⟩ := h.goingOn (sound_idle name pacing) hidle
  refine ⟨now, hnow, htr, fun hphase => ?_⟩
  have hread := hsound.read_of_vacant reads_activity (hsound.current_of_phase hphase)
  exact Option.toList_eq_nil_iff.1 (hnow.symm.trans hread)

/-- A subscription whose callback is running. -/
def deliveryUnderWay : List (Cue Nat) :=
  [.subscribe true "s" ⟨[], {}⟩ true none, .loop 1 .go, .loop 1 (.check false),
    .loop 1 (.beginPoll {} 0), .loop 1 (.endPoll (.ok (.payload 7)) 0), .loop 1 (.callBack 0)]

theorem one_activity_at_a_time_delivery : ∃ (tr : List (Occurrence Nat)) (p : Poller Nat),
    Run (idle "a" default) tr p ∧ .pollBegan 1 ∈ tr ∧ .invoked 1 7 ∈ tr ∧
      p.activities = [.callback 1] ∧ goingOn? none tr = some (some (.callback 1)) := by
  have hrun : Run (idle "a" default) [.subscribed "s", .pollBegan 1, .polled 1 (.ok (.payload 7)),
      .invoked 1 7] _ := run_of_perform? deliveryUnderWay rfl
  refine ⟨_, _, hrun, by simp, by simp, rfl, ?_⟩
  obtain ⟨now, hnow, htr, -⟩ := one_activity_at_a_time hrun
  obtain rfl : now = some (.callback 1) := Option.toList_eq_singleton_iff.1 hnow.symm
  exact htr

end Poller

end Polling
