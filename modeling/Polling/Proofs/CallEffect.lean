import Polling.Proofs.LifeCycle

/-!
# What a move of a call does

`callEffect_of_moveCall` lists all that a move of a call may do to a sound poller, with what it
comes to: the call returns, or it goes on and stands elsewhere.  `subscribeEffect` does the same for
subscriptions, which come about or are refused on the spot.  Proofs about calls take these cases in
place of the functions behind `Poller.moveCall`.
-/

namespace Polling

variable {α : Type}

/-- Whether a call is a wait that is about to look at the life cycle. -/
def CallStage.isWait : CallStage α → Bool
  | .entering | .yielded => true
  | _ => false

/-- Whether a call is about to look at the life cycle, and is no shutdown. -/
def CallStage.isScreened : CallStage α → Bool
  | .entering | .yielded | .unsubscribing _ => true
  | _ => false

namespace Poller

/-- What a call returns that asks for the pending failure. -/
def owed (p : Poller α) : CallResult α :=
  match p.failure with
  | some f => .error (.failed f)
  | none => .ok none

/-- The poller after a wait has cleared up after its loop. -/
def cleared (p : Poller α) : Poller α :=
  { p with current := none, consumer := none, phase := .stopped, stopRequested := true }

/-- What a move of a call does. -/
inductive CallEffect (p : Poller α) (c : Call α) : Poller α → Verdict α → Prop
  /-- The call was made at the wrong time, and nothing changes. -/
  | refused {e : Error} (screened : c.stage.isScreened = true) (harmless : e.isFatal = false)
      (told : p.disposed = true ∨ p.failure = none) :
      CallEffect p c p (.returned (.error e))
  | collects {f : Failure} (screened : c.stage.isScreened = true) (usable : p.disposed = false)
      (pending : p.failure = some f) :
      CallEffect p c { p with failure := none } (.returned (.error (.failed f)))
  /-- A wait finds the poller stopped. -/
  | late (wait : c.stage.isWait = true) (phase : p.phase = .stopping ∨ p.phase = .stopped)
      (told : p.failure = none) :
      CallEffect p c p (.returned (.ok none))
  | unparks {x : α} (wait : c.stage.isWait = true) (phase : p.phase = .idle)
      (parked : p.parked = some x) :
      CallEffect p c { p with parked := none } (.returned (.ok (some x)))
  | starts (wait : c.stage.isWait = true) (phase : p.phase = .idle) (parked : p.parked = none)
      (told : p.failure = none) :
      CallEffect p c (p.startLoop (.waiter c.id) ⟨[], {}⟩ c.runs none)
        (.goesOn (.receiving (p.started + 1) none))
  /-- A wait finds the loop of a waiter that has gone. -/
  | replaces {a : Attachment} (wait : c.stage.isWait = true) (current : p.current = some a)
      (told : p.failure = none) (gone : p.abandoned? = some a) :
      CallEffect p c (p.retire a)
        (.goesOn (if a.joinable then .joining a.loop .reenter else .yielded))
  | unsubscribes {a : Attachment} {subscription : String}
      (stage : c.stage = .unsubscribing subscription)
      (consumer : p.consumer = some (.subscriber subscription)) (current : p.current = some a)
      (told : p.failure = none) :
      CallEffect p c (p.retire a)
        (if a.joinable then .goesOn (.joining a.loop .leave) else .returned (.ok none))
  /-- A shutdown finds a loop that it can join. -/
  | closes {i : Nat} (stage : c.stage = .closing) (current : p.current = some ⟨i, true⟩) :
      CallEffect p c { p.stop with disposed := true, current := some ⟨i, false⟩ }
        (.goesOn (.joining i .close))
  /-- A shutdown finds no loop, or one that somebody else joins. -/
  | closed (stage : c.stage = .closing) (current : ∀ i, p.current ≠ some ⟨i, true⟩) :
      CallEffect p c { p.stop with disposed := true, failure := none } (.returned p.owed)
  | reenters {i : Nat} (stage : c.stage = .joining i .reenter) :
      CallEffect p c (p.absorb i) (.goesOn .entering)
  | leaves {i : Nat} (stage : c.stage = .joining i .leave) :
      CallEffect p c (p.absorb i) (.returned (.ok none))
  /-- A call asks for the pending failure once the loop that it joined is gone. -/
  | reports {i : Nat} {s : Sequel} (stage : c.stage = .joining i s)
      (sequel : s = .close ∨ s = .conclude) :
      CallEffect p c { p.absorb i with failure := none } (.returned (p.absorb i).owed)
  | answered {i : Nat} {r : CallResult α} (stage : c.stage = .receiving i (some r)) :
      CallEffect p c p (.returned r)
  /-- A wait clears up after its loop, which nobody joins yet. -/
  | clears {i : Nat} (stage : c.stage = .receiving i none) (current : p.current = some ⟨i, true⟩) :
      CallEffect p c p.cleared (.goesOn (.joining i .conclude))
  /-- A wait clears up after its loop, which somebody else has joined. -/
  | cleared {i : Nat} (stage : c.stage = .receiving i none)
      (current : p.current = some ⟨i, false⟩) :
      CallEffect p c { p.cleared with failure := none } (.returned p.owed)

/-- What asking for a subscription does. -/
inductive SubscribeEffect (p : Poller α) (subscription : String) :
    Poller α → Except Error Unit → Prop
  | refused {e : Error} (harmless : e.isFatal = false)
      (told : p.disposed = true ∨ p.failure = none) :
      SubscribeEffect p subscription p (.error e)
  | collects {f : Failure} (usable : p.disposed = false) (pending : p.failure = some f) :
      SubscribeEffect p subscription { p with failure := none } (.error (.failed f))
  | starts {script runs releasePanic} (phase : p.phase = .idle) (usable : p.disposed = false)
      (told : p.failure = none) :
      SubscribeEffect p subscription
        (p.startLoop (.subscriber subscription) script runs releasePanic) (.ok ())

theorem report_eq (p : Poller α) : p.report = ({ p with failure := none }, .returned p.owed) := by
  cases hf : p.failure with
  | some f => simp [report, owed, hf]
  | none =>
    have hp : { p with failure := none } = p := by rw [← hf]
    simp [report, owed, hf, hp]

/-- A wait that clears up has stopped the poller, so it knows what to return. -/
theorem conclude_eq {p : Poller α} (h : p.stopRequested = true) : p.conclude = p.report := by
  simp only [conclude, report, h, if_true]

theorem absorb_eq (p : Poller α) (i : Nat) :
    p.absorb i = { p with failure := (p.panicOf? i).or p.failure } := by
  cases hl : p.loop? i with
  | none => simp [absorb, panicOf?, hl]
  | some l =>
    cases hs : l.stage with
    | ended exit => cases exit <;> simp [absorb, panicOf?, hl, hs]
    | _ => simp [absorb, panicOf?, hl, hs]

variable {p q : Poller α} {c : Call α} {v : Verdict α}

/-- A call touches no other call. -/
theorem CallEffect.calls_eq (heffect : p.CallEffect c q v) : q.calls = p.calls := by
  cases heffect with
  | reenters | leaves | reports => rw [absorb_eq]
  | _ => rfl

theorem SubscribeEffect.calls_eq {subscription : String} {r : Except Error Unit}
    (heffect : p.SubscribeEffect subscription q r) : q.calls = p.calls := by
  cases heffect <;> rfl

/-- A call that is screened goes on only if nobody has shut the poller down and nothing is owed. -/
private theorem screen_effect (screened : c.stage.isScreened = true) :
    (∃ e p', p.screen = (some e, p') ∧ p.CallEffect c p' (.returned (.error e))) ∨
      p.screen = (none, p) ∧ p.failure = none := by
  cases hd : p.disposed with
  | true =>
    exact .inl ⟨.disposed, p, by simp [screen, hd], .refused screened rfl (.inl hd)⟩
  | false =>
    cases hf : p.failure with
    | some f =>
      exact .inl ⟨.failed f, _, by simp [screen, hd, hf], .collects screened hd hf⟩
    | none => exact .inr ⟨by simp [screen, hd, hf], rfl⟩

theorem isScreened_of_isWait {s : CallStage α} (h : s.isWait = true) :
    s.isScreened = true := by
  cases s <;> simp_all [CallStage.isWait, CallStage.isScreened]

private theorem isFatal_busyError (p : Poller α) : p.busyError.isFatal = false := by
  unfold busyError
  split <;> rfl

private theorem enter_effect {runtime : Bool} (wait : c.stage.isWait = true)
    (hm : p.enter runtime c = (q, v)) : p.CallEffect c q v := by
  have screened := isScreened_of_isWait wait
  rcases screen_effect (p := p) screened with ⟨e, p', hs, heffect⟩ | ⟨hs, told⟩
  · simp only [enter, hs, Prod.mk.injEq] at hm
    obtain ⟨rfl, rfl⟩ := hm
    exact heffect
  · simp only [enter, hs] at hm
    cases hp : p.phase with
    | stopping | stopped =>
      simp only [hp, Prod.mk.injEq] at hm
      obtain ⟨rfl, rfl⟩ := hm
      exact .late wait (by simp [hp]) told
    | running =>
      cases ha : p.abandoned? with
      | some a =>
        simp only [hp, ha, Prod.mk.injEq] at hm
        obtain ⟨rfl, rfl⟩ := hm
        exact .replaces wait (current_of_abandoned? ha) told ha
      | none =>
        simp only [hp, ha, Prod.mk.injEq] at hm
        obtain ⟨rfl, rfl⟩ := hm
        exact .refused screened (isFatal_busyError p) (.inr told)
    | idle =>
      cases hx : p.parked with
      | some x =>
        simp only [hp, hx, Prod.mk.injEq] at hm
        obtain ⟨rfl, rfl⟩ := hm
        simpa only [hp] using CallEffect.unparks wait hp hx
      | none =>
        cases runtime with
        | true =>
          simp only [hp, hx, if_true, Prod.mk.injEq] at hm
          obtain ⟨rfl, rfl⟩ := hm
          exact .starts wait hp hx told
        | false =>
          simp only [hp, hx, Bool.false_eq_true, if_false, Prod.mk.injEq] at hm
          obtain ⟨rfl, rfl⟩ := hm
          exact .refused screened rfl (.inr told)

private theorem endSubscription_effect {subscription : String}
    (stage : c.stage = .unsubscribing subscription)
    (hm : p.endSubscription subscription = (q, v)) : p.CallEffect c q v := by
  have screened : c.stage.isScreened = true := by rw [stage]; rfl
  rcases screen_effect (p := p) screened with ⟨e, p', hs, heffect⟩ | ⟨hs, told⟩
  · simp only [endSubscription, hs, Prod.mk.injEq] at hm
    obtain ⟨rfl, rfl⟩ := hm
    exact heffect
  · simp only [endSubscription, hs] at hm
    split at hm
    · next s a hcons hcur =>
      split at hm
      · next heq =>
        subst heq
        obtain ⟨rfl, rfl⟩ := Prod.mk.inj hm
        exact .unsubscribes stage hcons hcur told
      · obtain ⟨rfl, rfl⟩ := Prod.mk.inj hm
        exact .refused screened rfl (.inr told)
    · obtain ⟨rfl, rfl⟩ := Prod.mk.inj hm
      exact .refused screened rfl (.inr told)

private theorem close_effect (stage : c.stage = .closing) (hm : p.close = (q, v)) :
    p.CallEffect c q v := by
  simp only [close] at hm
  split at hm
  · next i hi =>
    obtain ⟨rfl, rfl⟩ := Prod.mk.inj hm
    exact .closes stage hi
  · next hne =>
    rw [report_eq] at hm
    obtain ⟨rfl, rfl⟩ := Prod.mk.inj hm
    exact .closed stage hne

private theorem clearUp_effect (h : p.Sound) (hc : c ∈ p.calls) {i : Nat}
    (stage : c.stage = .receiving i none) (hm : p.clearUp i = (q, v)) : p.CallEffect c q v := by
  -- A wait without an answer is the consumer, so the loop that is gone is the one named.
  obtain ⟨-, j, hj⟩ := (h.fits c hc).awaiting i stage
  simp only [clearUp, hj, if_true] at hm
  cases j with
  | true =>
    obtain ⟨rfl, rfl⟩ := Prod.mk.inj hm
    exact .clears stage hj
  | false =>
    rw [if_neg (by simp), conclude_eq rfl, report_eq] at hm
    obtain ⟨rfl, rfl⟩ := Prod.mk.inj hm
    exact .cleared stage hj

private theorem conclude_effect (h : p.Sound) (hc : c ∈ p.calls) {i : Nat}
    (stage : c.stage = .joining i .conclude) (hm : (p.absorb i).conclude = (q, v)) :
    p.CallEffect c q v := by
  -- Whoever cleared up has stopped the poller, so there is something to return.
  have hstop := ((h.fits c hc).joining i _ stage).conclude rfl
  have hstop' : (p.absorb i).stopRequested = true := by
    rw [absorb_eq]
    exact hstop
  rw [conclude_eq hstop', report_eq] at hm
  obtain ⟨rfl, rfl⟩ := Prod.mk.inj hm
  exact .reports stage (.inr rfl)

/-- What a move of a call does, sound or not the poller may be, as long as it has nothing to clear
up and to conclude. -/
theorem callEffect_or_settles {runtime : Bool} (hm : p.moveCall runtime c = (q, v)) :
    p.CallEffect c q v ∨ (∃ i, c.stage = .receiving i none ∧ p.clearUp i = (q, v)) ∨
      ∃ i, c.stage = .joining i .conclude ∧ (p.absorb i).conclude = (q, v) := by
  unfold moveCall at hm
  split at hm
  · next stage => exact .inl (enter_effect (by rw [stage]; rfl) hm)
  · next stage => exact .inl (enter_effect (by rw [stage]; rfl) hm)
  · next subscription stage => exact .inl (endSubscription_effect stage hm)
  · next stage => exact .inl (close_effect stage hm)
  · next i s stage =>
    cases s with
    | reenter =>
      obtain ⟨rfl, rfl⟩ := Prod.mk.inj hm
      exact .inl (.reenters stage)
    | leave =>
      obtain ⟨rfl, rfl⟩ := Prod.mk.inj hm
      exact .inl (.leaves stage)
    | close =>
      rw [afterJoin, report_eq] at hm
      obtain ⟨rfl, rfl⟩ := Prod.mk.inj hm
      exact .inl (.reports stage (.inl rfl))
    | conclude => exact .inr (.inr ⟨i, stage, hm⟩)
  · next i r stage =>
    obtain ⟨rfl, rfl⟩ := Prod.mk.inj hm
    exact .inl (.answered stage)
  · next i stage => exact .inr (.inl ⟨i, stage, hm⟩)

/-- What a move of a call of a sound poller does. -/
theorem callEffect_of_moveCall (h : p.Sound) (hc : c ∈ p.calls) {runtime : Bool}
    (hm : p.moveCall runtime c = (q, v)) : p.CallEffect c q v := by
  rcases callEffect_or_settles hm with heffect | ⟨i, stage, hclear⟩ | ⟨i, stage, hconclude⟩
  · exact heffect
  · exact clearUp_effect h hc stage hclear
  · exact conclude_effect h hc stage hconclude

/-- What asking for a subscription does. -/
theorem subscribeEffect (p : Poller α) (runtime : Bool) (subscription : String)
    (script : Script (Handling α)) (runs : Bool) (releasePanic : Option String) :
    p.SubscribeEffect subscription
      (p.subscribe runtime subscription script runs releasePanic).1
      (p.subscribe runtime subscription script runs releasePanic).2 := by
  cases hd : p.disposed with
  | true =>
    have hs : p.screen = (some .disposed, p) := by simp [screen, hd]
    simp only [subscribe, hs]
    exact .refused rfl (.inl hd)
  | false =>
    cases hf : p.failure with
    | some f =>
      have hs : p.screen = (some (.failed f), { p with failure := none }) := by
        simp [screen, hd, hf]
      simp only [subscribe, hs]
      exact .collects hd hf
    | none =>
      have hs : p.screen = (none, p) := by simp [screen, hd, hf]
      simp only [subscribe, hs]
      cases hp : p.phase with
      | stopping | stopped => exact .refused rfl (.inr hf)
      | running => exact .refused (isFatal_busyError p) (.inr hf)
      | idle =>
        cases runtime with
        | true => exact .starts hp hd hf
        | false => exact .refused rfl (.inr hf)

end Poller

end Polling
