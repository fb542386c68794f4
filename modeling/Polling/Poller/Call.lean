import Polling.Poller.Basic

/-! # Calls on a poller

A call is a task of its own: it runs until it has to wait for a loop and goes on when the loop has
answered or is gone.  `Poller.moveCall` is one move of a call that is ready, `Poller.runCall` lets
a call run as far as it gets.  A call that returns is no longer pending; one that is dropped leaves
nothing behind but what it has already asked of its loop.

A wait that finds a loop which another call joins already cannot wait for that loop itself.  It
lets the other tasks run and looks again, for as long as the loop is there; that such a look changes
nothing is `moveCall_of_circles`. -/

namespace Polling

/-- What a move of a call comes to. -/
inductive Verdict (α : Type) where
  | returned (r : CallResult α)
  | goesOn (stage : CallStage α)

namespace Poller

variable {α : Type}

/-- Takes note of how a loop came to its end: a panic that nobody else saw is a failure. -/
def absorb (p : Poller α) (i : Nat) : Poller α :=
  match p.loop? i with
  | some l =>
    match l.stage with
    | .ended (.panicked message) => { p with failure := some (.pollPanic message) }
    | _ => p
  | none => p

/-- A wait looks at the life cycle: it gets a parked payload, starts a loop, makes way for the
loop of a waiter that has gone, or returns. -/
def enter (p : Poller α) (runtime : Bool) (c : Call α) : Poller α × Verdict α :=
  match p.screen with
  | (some e, p) => (p, .returned (.error e))
  | (none, p) =>
    match p.phase with
    | .stopping | .stopped => (p, .returned (.ok none))
    | .running =>
      match p.abandoned? with
      | some a =>
        -- Where another call joins the loop already, all that is left is to look again later.
        (p.retire a, .goesOn (if a.joinable then .joining a.loop .reenter else .yielded))
      | none => (p, .returned (.error p.busyError))
    | .idle =>
      -- What is parked was polled earlier than anything a new loop could find.
      match p.parked with
      | some x => ({ p with parked := none }, .returned (.ok (some x)))
      | none =>
        if runtime then
          (p.startLoop (.waiter c.id) ⟨[], {}⟩ c.runs none,
            .goesOn (.receiving (p.started + 1) none))
        else
          (p, .returned (.error .noRuntime))

/-- The end of a subscription looks at the life cycle. -/
def endSubscription (p : Poller α) (subscription : String) : Poller α × Verdict α :=
  match p.screen with
  | (some e, p) => (p, .returned (.error e))
  | (none, p) =>
    match p.consumer, p.current with
    | some (.subscriber s), some a =>
      if s = subscription then
        -- Where another call joins the loop already, this one does not wait for its end.
        (p.retire a, if a.joinable then .goesOn (.joining a.loop .leave) else .returned (.ok none))
      else
        (p, .returned (.error (.unknownSubscription subscription)))
    | _, _ => (p, .returned (.error (.unknownSubscription subscription)))

/-- Reports a failure that nobody was told about. -/
def report (p : Poller α) : Poller α × Verdict α :=
  match p.failure with
  | some f => ({ p with failure := none }, .returned (.error (.failed f)))
  | none => (p, .returned (.ok none))

/-- A shutdown stops the poller, closes it to further calls and waits for its loop. -/
def close (p : Poller α) : Poller α × Verdict α :=
  let p := { p.stop with disposed := true }
  -- The loop can be joined once, by whoever asks first.
  match p.current with
  | some ⟨i, true⟩ => ({ p with current := some ⟨i, false⟩ }, .goesOn (.joining i .close))
  | _ => p.report

/-- A wait returns what is known about a loop that gave no answer. -/
def conclude (p : Poller α) : Poller α × Verdict α :=
  match p.failure with
  | some f => ({ p with failure := none }, .returned (.error (.failed f)))
  | none =>
    if p.stopRequested then (p, .returned (.ok none))
    else (p, .returned (.error (.failed (.pollPanic "poll loop exited without a result"))))

/-- A wait clears up after a loop that is gone without an answer. -/
def clearUp (p : Poller α) (i : Nat) : Poller α × Verdict α :=
  match p.current with
  | some a =>
    -- The life cycle is cleared only of the loop that is gone, never of a later one.
    if a.loop = i then
      let p := { p with
        current := none, consumer := none, phase := .stopped, stopRequested := true }
      if a.joinable then (p, .goesOn (.joining i .conclude)) else p.conclude
    else
      p.conclude
  | none => p.conclude

/-- What a call does once the loop that it joined is gone. -/
def afterJoin (p : Poller α) : Sequel → Poller α × Verdict α
  | .reenter => (p, .goesOn .entering)
  | .conclude => p.conclude
  | .leave => (p, .returned (.ok none))
  | .close => p.report

/-- Whether a call can move. -/
def callReady (p : Poller α) (c : Call α) : Bool :=
  match c.stage with
  | .joining i _ => p.hasEnded i
  -- A loop that is gone gives no answer any more.
  | .receiving i none => p.hasEnded i
  | _ => true

/-- One move of a call that can move. -/
def moveCall (p : Poller α) (runtime : Bool) (c : Call α) : Poller α × Verdict α :=
  match c.stage with
  | .entering | .yielded => p.enter runtime c
  | .unsubscribing subscription => p.endSubscription subscription
  | .closing => p.close
  | .joining i sequel => (p.absorb i).afterJoin sequel
  | .receiving _ (some r) => (p, .returned r)
  | .receiving i none => p.clearUp i

/-- Whether the next move of a call is to let the other tasks run once more, and nothing else. -/
def circles (p : Poller α) (c : Call α) : Bool :=
  match c.stage, p.abandoned? with
  | .yielded, some a =>
    !p.disposed && p.failure.isNone && p.phase == .running && !a.joinable &&
      p.loops.all fun l => l.id != a.loop || l.cancelled
  | _, _ => false

/-- Who abandoned a loop was the consumer of the present one. -/
theorem current_of_abandoned? {p : Poller α} {a : Attachment} (h : p.abandoned? = some a) :
    p.current = some a := by
  unfold abandoned? at h
  split at h
  · split at h
    · exact h
    · simp at h
  · simp at h

/-- A loop that has been asked to end and cannot be joined cannot be retired further. -/
theorem retire_of_retired {p : Poller α} {a : Attachment} (hc : p.current = some a)
    (hj : a.joinable = false) (hl : ∀ l ∈ p.loops, l.id = a.loop → l.cancelled = true) :
    p.retire a = p := by
  have hloops : (p.loops.map fun l => if l.id = a.loop then { l with cancelled := true } else l)
      = p.loops := by
    refine (List.map_congr_left fun l hmem => ?_).trans (List.map_id _)
    split
    · next h => simp [← hl l hmem h]
    · rfl
  have ha : ({ a with joinable := false } : Attachment) = a := by rw [← hj]
  simp only [retire, cancelLoop, updateLoop, hloops, ha, ← hc]

/-- A call that goes round in circles leaves its poller as it is. -/
theorem moveCall_of_circles {p : Poller α} {c : Call α} (runtime : Bool)
    (h : p.circles c = true) : p.moveCall runtime c = (p, .goesOn .yielded) := by
  unfold circles at h
  split at h
  · next a hstage habandoned =>
    simp only [Bool.and_eq_true, Bool.not_eq_true', Option.isNone_iff_eq_none, beq_iff_eq,
      List.all_eq_true, Bool.or_eq_true, bne_iff_ne] at h
    obtain ⟨⟨⟨⟨hd, hf⟩, hp⟩, hj⟩, hl⟩ := h
    have hr : p.retire a = p := by
      refine retire_of_retired (current_of_abandoned? habandoned) hj fun l hmem hid => ?_
      exact (hl l hmem).resolve_left (fun hne => hne hid)
    have hs : p.screen = (none, p) := by simp [screen, hd, hf]
    simp only [moveCall, hstage, enter, hs, hp, habandoned, hr, hj, Bool.false_eq_true, if_false]
  · simp at h

/-- The most moves that a call makes in one run. -/
def callMoves : Nat := 8

/-- Lets a call run until it returns, has to wait, or lets the other tasks run. -/
def runCall (runtime : Bool) (id : String) : Nat → Poller α → Poller α × Option (CallResult α)
  | 0, p => (p, none)
  | n + 1, p =>
    match p.call? id with
    | none => (p, none)
    | some c =>
      if p.callReady c then
        match p.moveCall runtime c with
        | (p, .returned r) => (p.dropCall id, some r)
        -- The other tasks come first; the call is ready again at once.
        | (p, .goesOn .yielded) => (p.setCallStage id .yielded, none)
        | (p, .goesOn stage) => runCall runtime id n (p.setCallStage id stage)
      else
        (p, none)

/-- Makes a call, which runs at once as far as it gets. -/
def beginCall (p : Poller α) (runtime : Bool) (c : Call α) : Poller α × Option (CallResult α) :=
  runCall runtime c.id callMoves { p with calls := p.calls ++ [c] }

end Poller

end Polling
