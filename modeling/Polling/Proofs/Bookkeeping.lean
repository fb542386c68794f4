import Polling.Proofs.Handover

/-!
# What a move of a loop leaves alone

The books of a poller are its life cycle, its two slots, its calls and the numbers of its loops.  A
move of a loop does not touch them, but for a stop that it may announce, until the loop ends; and
all that ends it is `Poller.finish` (`LoopMove.outline`).  This holds of every poller, whether or
not it is sound.
-/

namespace Polling

variable {α : Type}

namespace Poller

variable {p q : Poller α} {l : Loop α}

/-- Whether the books of two pollers agree, but for a stop that has been asked for since. -/
structure SameBooks (p q : Poller α) : Prop where
  consumer : q.consumer = p.consumer
  current : q.current = p.current
  started : q.started = p.started
  parked : q.parked = p.parked
  failure : q.failure = p.failure
  calls : q.calls = p.calls
  ids : q.loops.map Loop.id = p.loops.map Loop.id
  requested : p.stopRequested = true → q.stopRequested = true

theorem SameBooks.refl (p : Poller α) : p.SameBooks p :=
  ⟨rfl, rfl, rfl, rfl, rfl, rfl, rfl, fun h => h⟩

theorem SameBooks.trans {r : Poller α} (h : p.SameBooks q) (h' : q.SameBooks r) :
    p.SameBooks r where
  consumer := h'.consumer.trans h.consumer
  current := h'.current.trans h.current
  started := h'.started.trans h.started
  parked := h'.parked.trans h.parked
  failure := h'.failure.trans h.failure
  calls := h'.calls.trans h.calls
  ids := h'.ids.trans h.ids
  requested hs := h'.requested (h.requested hs)

/-- The gauges are not in the books. -/
theorem SameBooks.gauges (p : Poller α) (emptyPolls payloadPolls delayMillis : Nat) :
    p.SameBooks { p with emptyPolls, payloadPolls, delayMillis } :=
  ⟨rfl, rfl, rfl, rfl, rfl, rfl, rfl, fun h => h⟩

theorem map_id_updateLoop (p : Poller α) (i : Nat) {f : Loop α → Loop α}
    (hf : ∀ k, (f k).id = k.id) : (p.updateLoop i f).loops.map Loop.id = p.loops.map Loop.id := by
  rw [updateLoop, List.map_map]
  refine List.map_congr_left fun k _ => ?_
  dsimp only [Function.comp]
  split
  · exact hf k
  · rfl

/-- A loop that changes has its number still, and the books are as they were. -/
theorem SameBooks.updateLoop (p : Poller α) (i : Nat) {f : Loop α → Loop α}
    (hf : ∀ k, (f k).id = k.id) : p.SameBooks (p.updateLoop i f) :=
  ⟨rfl, rfl, rfl, rfl, rfl, rfl, map_id_updateLoop p i hf, fun h => h⟩

theorem SameBooks.setStage (p : Poller α) (i : Nat) (s : Stage α) : p.SameBooks (p.setStage i s) :=
  .updateLoop p i fun _ => rfl

/-- A loop goes on and leaves the books alone, or it ends having left them alone so far. -/
def KeepsOrEnds (p : Poller α) (l : Loop α) (q : Poller α) : Prop :=
  p.SameBooks q ∨ ∃ (r : Poller α) (e : Ending α), p.SameBooks r ∧ q = r.finish l e

theorem keepsOrEnds_wake (p : Poller α) (l : Loop α) (w : Wake) :
    p.KeepsOrEnds l (p.wake l w) := by
  cases w with
  | timer =>
    exact .inl ((SameBooks.gauges p p.emptyPolls p.payloadPolls _).trans
      (.updateLoop _ l.id fun _ => rfl))
  | cancelled => exact .inr ⟨p, .cancelled, .refl p, rfl⟩
  | signalled =>
    exact .inr ⟨p.beginStopping, .signalled, { SameBooks.refl p with requested := fun _ => rfl },
      rfl⟩
  | abandoned => exact .inr ⟨p, .abandoned, .refl p, rfl⟩

theorem keepsOrEnds_beginLoop (p : Poller α) (l : Loop α) (backlog : Option α) :
    p.KeepsOrEnds l (p.beginLoop l backlog) := by
  have hgauges := SameBooks.gauges p p.emptyPolls p.payloadPolls l.backoff.current.millis
  unfold beginLoop
  split
  · exact .inl (hgauges.trans (.setStage _ l.id .checking))
  · exact .inr ⟨_, _, hgauges, rfl⟩
  · exact .inl (hgauges.trans (.setStage _ l.id _))

theorem keepsOrEnds_endPoll (p : Poller α) (l : Loop α) (now : Nat)
    (r : Except Failure (Polled α)) : p.KeepsOrEnds l (p.endPoll l now r) := by
  cases r with
  | error f => exact .inr ⟨p, .failed f, .refl p, rfl⟩
  | ok r =>
    cases r with
    | empty =>
      have hgauges := SameBooks.gauges p (p.emptyPolls + 1) p.payloadPolls p.delayMillis
      simp only [endPoll, foundNothing]
      split <;> exact .inl (hgauges.trans (.setStage _ l.id _))
    | payload x =>
      -- The backoff of the loop is reset before it is settled who gets the payload.
      have hreset : p.SameBooks (updateLoop { p with
          payloadPolls := p.payloadPolls + 1, delayMillis := l.backoff.reset.current.millis } l.id
            fun k => { k with backoff := l.backoff.reset }) :=
        (SameBooks.gauges p p.emptyPolls _ _).trans (.updateLoop _ l.id fun _ => rfl)
      simp only [endPoll, foundPayload]
      split
      · exact .inr ⟨_, .delivered x, hreset, rfl⟩
      · exact .inl (hreset.trans (.setStage _ l.id (.handing x)))

theorem keepsOrEnds_beginCallback (p : Poller α) (l : Loop α) (now : Nat) :
    p.KeepsOrEnds l (p.beginCallback l now) := by
  have hscript : p.SameBooks (p.updateLoop l.id fun k => { k with script := l.script.next.2 }) :=
    .updateLoop p l.id fun _ => rfl
  unfold beginCallback
  dsimp only
  split
  · next panic _ => exact .inr ⟨_, .failed (.callbackPanic panic.message), hscript, rfl⟩
  · exact .inl (hscript.trans (.setStage _ l.id _))

theorem keepsOrEnds_endCallback (p : Poller α) (l : Loop α) (o : CallbackOutcome) :
    p.KeepsOrEnds l (p.endCallback l o) := by
  cases o with
  | done => exact .inl (.setStage p l.id .checking)
  | failed reason => exact .inr ⟨p, .failed (.callback reason), .refl p, rfl⟩
  | panicked panic | panickedAtOnce panic =>
    exact .inr ⟨p, .failed (.callbackPanic panic.message), .refl p, rfl⟩

/-- A move of a loop leaves the books alone until the loop ends. -/
theorem LoopMove.outline {es} (hmove : p.LoopMove l es q) : p.KeepsOrEnds l q := by
  cases hmove with
  | begins => exact keepsOrEnds_beginLoop p l _
  | interrupted | wakes => exact keepsOrEnds_wake p l _
  | queues => exact .inl (.setStage p l.id _)
  | beginsPoll => exact .inl (.setStage p l.id _)
  | endsPoll => exact keepsOrEnds_endPoll p l _ _
  | beginsCallback => exact keepsOrEnds_beginCallback p l _
  | endsCallback => exact keepsOrEnds_endCallback p l _
  | resumes => exact keepsOrEnds_wake p l .timer

/-! ### The end of a loop -/

/-- A loop that leaves the life cycle leaves that of another loop as it is. -/
theorem vacate_of_ne (p : Poller α) {i : Nat} (hne : ∀ j, p.current ≠ some ⟨i, j⟩) :
    p.vacate i = p := by
  unfold vacate
  split
  · next hnamed =>
    obtain ⟨⟨j, joinable⟩, ha, hj⟩ := (Option.any_eq_true _ _).1 hnamed
    obtain rfl : j = i := of_decide_eq_true hj
    exact absurd ha (hne joinable)
  · rfl

/-- A loop that ends never clears the life cycle of another loop. -/
theorem lifeCycle_finish_of_ne (p : Poller α) (l : Loop α) (e : Ending α)
    (hne : ∀ j, p.current ≠ some ⟨l.id, j⟩) :
    (p.finish l e).phase = p.phase ∧ (p.finish l e).current = p.current ∧
      (p.finish l e).consumer = p.consumer := by
  have hvacate := vacate_of_ne { p with stopRequested := p.stopRequested || e.stops } hne
  simp only [finish, hvacate, handOver_eq]
  exact ⟨rfl, rfl, rfl⟩

theorem current_vacate (p : Poller α) (i : Nat) :
    (p.vacate i).current = p.current ∨ (p.vacate i).current = none := by
  unfold vacate
  split
  · exact .inr rfl
  · exact .inl rfl

theorem current_finish (p : Poller α) (l : Loop α) (e : Ending α) :
    (p.finish l e).current = p.current ∨ (p.finish l e).current = none := by
  rw [finish, handOver_eq]
  exact current_vacate { p with stopRequested := p.stopRequested || e.stops } l.id

theorem failure_finish (p : Poller α) (l : Loop α) (e : Ending α) :
    (p.finish l e).failure = p.keeping l e := by
  simp only [finish, handOver_eq, vacate]
  split <;> rfl

theorem started_finish (p : Poller α) (l : Loop α) (e : Ending α) :
    (p.finish l e).started = p.started := by
  simp only [finish, handOver_eq, vacate]
  split <;> rfl

theorem map_id_finish (p : Poller α) (l : Loop α) (e : Ending α) :
    (p.finish l e).loops.map Loop.id = p.loops.map Loop.id := by
  rw [loops_finish]
  exact map_id_updateLoop p l.id fun _ => rfl

end Poller

end Polling
