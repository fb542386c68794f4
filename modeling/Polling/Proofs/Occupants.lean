import Polling.Proofs.Names
import Polling.Proofs.Pending
import Polling.Proofs.Refusals

/-!
# Who keeps a poller busy

A poller that is busy tells the next caller with whom.  A wait is told of another wait only while
that is pending, since it replaces the loop of a waiter that has gone.  Who asks for a subscription
is told of a wait whatever has become of it: until the loop of a waiter that was dropped has
noticed, the waiter is still named (`busy_is_told`).

What carries this is that a wait which the life cycle names listens to its loop
(`Poller.Attended`): so it is not the one that asks, and it does not return while it is named.
-/

namespace Polling

variable {α : Type}

/-- Whether an error says that the poller has a consumer already. -/
def Error.isBusy : Error → Bool
  | alreadySubscribed | waitInProgress => true
  | _ => false

theorem Error.isFatal_of_isBusy {e : Error} (busy : e.isBusy = true) : e.isFatal = false := by
  cases e <;> first | rfl | cases busy

namespace Poller

variable {p q r : Poller α} {l : Loop α} {c d : Call α} {es tr : List (Occurrence α)}
  {id : String}

/-- What ties the consumer of a poller to the pending calls. -/
structure Attended (p : Poller α) : Prop where
  /-- A wait that is the consumer listens. -/
  listens : ∀ c ∈ p.calls, p.consumer = some (.waiter c.id) → ∃ i, c.stage = .receiving i none
  /-- No loop answers with a refusal. -/
  answers : ∀ c ∈ p.calls, ∀ i e, c.stage = .receiving i (some (.error e)) → e.isFatal = true

theorem attended_idle (name : String) (pacing : Pacing) :
    (idle name pacing : Poller α).Attended := by
  constructor <;> simp [idle]

/-- Calls may go, as long as no other consumer comes. -/
theorem Attended.mono (h : p.Attended) (calls : ∀ c ∈ q.calls, c ∈ p.calls)
    (consumer : ∀ id, q.consumer = some (.waiter id) → p.consumer = some (.waiter id)) :
    q.Attended where
  listens c hc hcons := h.listens c (calls c hc) (consumer c.id hcons)
  answers c hc := h.answers c (calls c hc)

theorem LoopEffect.attended (h : p.Attended) (heffect : p.LoopEffect l es q) : q.Attended := by
  cases heffect with
  | goesOn => exact ⟨h.listens, h.answers⟩
  | ends =>
    refine ⟨fun c _ hcons => (by cases hcons), fun c hc i e hs => ?_⟩
    rcases mem_answering hc with ⟨hc, -⟩ | ⟨d, -, r, answer, -, rfl⟩
    · exact h.answers c hc i e hs
    · -- The only error that a loop answers with is a failure.
      obtain rfl := Option.some.inj (CallStage.receiving.inj hs).2
      unfold Ending.answer at answer
      split at answer <;> cases answer
      rfl

/-- No call makes another one the consumer. -/
theorem CallEffect.consumer_eq {v : Verdict α} (heffect : p.CallEffect c q v) (hne : id ≠ c.id)
    (hq : q.consumer = some (.waiter id)) : p.consumer = some (.waiter id) := by
  cases heffect with
  | starts => exact absurd (Consumer.waiter.inj (Option.some.inj hq)).symm hne
  | clears | cleared => cases hq
  | reenters | leaves | reports =>
    rw [absorb_eq] at hq
    exact hq
  | _ => exact hq

/-- A call that moves listens afterwards if it is the consumer then. -/
theorem CallEffect.listens {s : CallStage α} (h : p.Attended) (hc : c ∈ p.calls)
    (heffect : p.CallEffect c q (.goesOn s)) (hq : q.consumer = some (.waiter c.id)) :
    ∃ i, s = .receiving i none := by
  -- A call that listens already goes on only by clearing up, and is not the consumer any more.
  have hlistens := fun hp => h.listens c hc hp
  generalize hv : Verdict.goesOn s = v at heffect
  cases heffect with
  | starts => exact ⟨_, Verdict.goesOn.inj hv⟩
  | clears => cases hq
  | replaces wait =>
    obtain ⟨i, hi⟩ := hlistens hq
    simp [hi, CallStage.isWait] at wait
  | unsubscribes stage | closes stage =>
    obtain ⟨i, hi⟩ := hlistens hq
    simp [stage] at hi
  | reenters stage =>
    rw [absorb_eq] at hq
    obtain ⟨i, hi⟩ := hlistens hq
    simp [stage] at hi
  | _ => cases hv

/-- A call that goes on has no answer. -/
theorem CallEffect.unanswered {s : CallStage α} (heffect : p.CallEffect c q (.goesOn s)) (i : Nat)
    (x : CallResult α) : s ≠ .receiving i (some x) := by
  rintro rfl
  generalize hv : Verdict.goesOn (.receiving i (some x)) = v at heffect
  cases heffect with
  | replaces | unsubscribes => split at hv <;> cases hv
  | _ => cases hv

/-- A call that returns is not the consumer any more. -/
theorem CallEffect.gone_of_returned {x : CallResult α} (h : p.Attended) (hc : c ∈ p.calls)
    (heffect : p.CallEffect c q (.returned x)) : q.consumer ≠ some (.waiter c.id) := by
  intro hq
  generalize hv : Verdict.returned x = v at heffect
  have hlistens : p.consumer = some (.waiter c.id) → ∃ i, c.stage = .receiving i none :=
    h.listens c hc
  cases heffect with
  | cleared => cases hq
  | refused screened | collects screened =>
    obtain ⟨i, hi⟩ := hlistens hq
    simp [hi, CallStage.isScreened] at screened
  | late wait | unparks wait =>
    obtain ⟨i, hi⟩ := hlistens hq
    simp [hi, CallStage.isWait] at wait
  | unsubscribes stage | closed stage | answered stage =>
    obtain ⟨i, hi⟩ := hlistens hq
    simp [stage] at hi
  | leaves stage | reports stage =>
    rw [absorb_eq] at hq
    obtain ⟨i, hi⟩ := hlistens hq
    simp [stage] at hi
  | _ => cases hv

theorem Attended.move (ha : p.Attended) (h : p.Sound) (hmove : p.Move es q) : q.Attended := by
  cases hmove with
  | loop mem move => exact (move.effect h.toConsistent mem).attended ha
  | @proceed q c runtime s mem _ goes =>
    have heffect := callEffect_of_moveCall h mem goes
    constructor
    · intro d hd hcons
      obtain ⟨e, he, rfl⟩ := List.mem_map.1 hd
      rw [heffect.calls_eq] at he
      by_cases hid : e.id = c.id
      · rw [if_pos hid] at hcons ⊢
        exact heffect.listens ha mem (hid ▸ hcons)
      · rw [if_neg hid] at hcons ⊢
        exact ha.listens e he (heffect.consumer_eq hid hcons)
    · intro d hd i x hs
      obtain ⟨e, he, rfl⟩ := List.mem_map.1 hd
      rw [heffect.calls_eq] at he
      split at hs
      · exact absurd hs (heffect.unanswered i _)
      · exact ha.answers e he i x hs
  | @finish q c runtime x mem _ goes =>
    have heffect := callEffect_of_moveCall h mem goes
    constructor
    · intro d hd hcons
      obtain ⟨hd, hne⟩ := List.mem_filter.1 hd
      exact ha.listens d (heffect.calls_eq ▸ hd)
        (heffect.consumer_eq (by simpa using hne) hcons)
    · intro d hd
      exact ha.answers d (heffect.calls_eq ▸ (List.mem_filter.1 hd).1)
  | call first _ fresh =>
    constructor
    · intro d hd hcons
      rcases List.mem_append.1 hd with hd | hd
      · exact ha.listens d hd hcons
      · -- Whoever is new is not the consumer, since that has a loop.
        obtain rfl := List.mem_singleton.1 hd
        have hcurrent : p.current ≠ none := by
          intro hnone
          rw [(h.detached hnone).1] at hcons
          cases hcons
        obtain ⟨a, ha⟩ := Option.ne_none_iff_exists'.1 hcurrent
        obtain ⟨l, hl, -, hcons'⟩ := h.joins ha
        exact absurd (Option.some.inj (hcons'.symm.trans hcons)) (fresh l hl)
    · intro d hd i x hs
      rcases List.mem_append.1 hd with hd | hd
      · exact ha.answers d hd i x hs
      · obtain rfl := List.mem_singleton.1 hd
        simp [hs, CallStage.isFirst] at first
  | drop => exact ha.mono (fun d hd => (List.mem_filter.1 hd).1) fun _ hcons => hcons
  | @subscribe runtime subscription script runs releasePanic =>
    have heffect := p.subscribeEffect runtime subscription script runs releasePanic
    refine ha.mono (fun d hd => heffect.calls_eq ▸ hd) fun id hcons => ?_
    generalize (p.subscribe runtime subscription script runs releasePanic).2 = r at heffect
    generalize (p.subscribe runtime subscription script runs releasePanic).1 = q at heffect hcons
    cases heffect with
    | starts => cases hcons
    | _ => exact hcons
  | stop | release | discard => exact ⟨ha.listens, ha.answers⟩

theorem Reachable.attended (h : p.Reachable) : p.Attended :=
  (h.preserves (I := fun p => p.Sound ∧ p.Attended)
    (fun name pacing => ⟨sound_idle name pacing, attended_idle name pacing⟩)
    fun hp hmove => ⟨hp.1.move hmove, hp.2.move hp.1 hmove⟩).2

/-- A waiter that is named and no longer pending was so before, unless it is dropped just then. -/
theorem Move.consumer_dropped (ha : p.Attended) (h : p.Sound) (hmove : p.Move es q)
    (hq : q.consumer = some (.waiter id)) (gone : ∀ c ∈ q.calls, c.id ≠ id) :
    p.consumer = some (.waiter id) ∧
      ((∀ c ∈ p.calls, c.id ≠ id) ∨ ∃ unread, .dropped id unread ∈ es) := by
  cases hmove with
  | loop mem move =>
    cases move.effect h.toConsistent mem with
    | goesOn => exact ⟨hq, .inl gone⟩
    | ends => cases hq
  | @proceed q c runtime s mem _ goes =>
    have heffect := callEffect_of_moveCall h mem goes
    have hgone : ∀ d ∈ p.calls, d.id ≠ id := by
      intro d hd hid
      refine gone _ (List.mem_map_of_mem (heffect.calls_eq ▸ hd)) ?_
      split <;> exact hid
    exact ⟨heffect.consumer_eq (Ne.symm (hgone c mem)) hq, .inl hgone⟩
  | @finish q c runtime x mem _ goes =>
    have heffect := callEffect_of_moveCall h mem goes
    have hne : id ≠ c.id := by
      rintro rfl
      exact heffect.gone_of_returned ha mem hq
    refine ⟨heffect.consumer_eq hne hq, .inl fun d hd hid => ?_⟩
    refine gone d (List.mem_filter.2 ⟨heffect.calls_eq ▸ hd, ?_⟩) hid
    simpa [hid] using hne
  | call => exact ⟨hq, .inl fun c hc => gone c (List.mem_append_left _ hc)⟩
  | @drop c mem =>
    refine ⟨hq, ?_⟩
    by_cases hid : c.id = id
    · exact .inr ⟨c.unread, List.mem_singleton.2 (by rw [hid])⟩
    · refine .inl fun d hd hd' => gone d (List.mem_filter.2 ⟨hd, ?_⟩) hd'
      simpa [hd'] using Ne.symm hid
  | @subscribe runtime subscription script runs releasePanic =>
    have heffect := p.subscribeEffect runtime subscription script runs releasePanic
    have hgone : ∀ c ∈ p.calls, c.id ≠ id := fun c hc => gone c (heffect.calls_eq ▸ hc)
    generalize (p.subscribe runtime subscription script runs releasePanic).2 = r at heffect
    generalize (p.subscribe runtime subscription script runs releasePanic).1 = q at heffect hq
    cases heffect with
    | starts => cases hq
    | _ => exact ⟨hq, .inl hgone⟩
  | stop | release | discard => exact ⟨hq, .inl gone⟩

/-- A waiter that is named and no longer pending was dropped. -/
theorem Run.consumer_dropped {name : String} {pacing : Pacing} (hrun : Run (idle name pacing) tr p)
    (hp : p.consumer = some (.waiter id)) (gone : ∀ c ∈ p.calls, c.id ≠ id) :
    ∃ unread, .dropped id unread ∈ tr := by
  induction hrun with
  | nil => cases hp
  | @snoc q r tr es hrun hmove ih =>
    have hq : q.Reachable := ⟨name, pacing, tr, hrun⟩
    obtain ⟨hcons, hgone | ⟨unread, ho⟩⟩ :=
      hmove.consumer_dropped hq.attended hq.sound hp gone
    · obtain ⟨unread, ho⟩ := ih hcons hgone
      exact ⟨unread, List.mem_append_left _ ho⟩
    · exact ⟨unread, List.mem_append_right _ ho⟩

/-- Being screened tells nobody that the poller is busy. -/
theorem screen_cases (p : Poller α) :
    p.screen = (none, p) ∧ p.disposed = false ∧ p.failure = none ∨
      (p.disposed = true ∨ p.failure ≠ none) ∧
        ∃ e q, p.screen = (some e, q) ∧ e.isBusy = false := by
  unfold screen
  cases hd : p.disposed with
  | true => exact .inr ⟨.inl rfl, _, _, rfl, rfl⟩
  | false =>
    cases hf : p.failure with
    | some f => exact .inr ⟨.inr (by simp), _, _, rfl, rfl⟩
    | none => exact .inl ⟨rfl, rfl, rfl⟩

/-- A wait is told that the poller is busy only by a consumer that has not gone. -/
theorem busy_of_enter {runtime : Bool} {e : Error} (busy : e.isBusy = true)
    (hm : p.enter runtime c = (q, .returned (.error e))) :
    p.phase = .running ∧ p.abandoned? = none ∧ p.busyError = e := by
  rcases p.screen_cases with ⟨hs, -⟩ | ⟨-, e', r, hs, hnot⟩
  · simp only [enter, hs] at hm
    cases hphase : p.phase with
    | running =>
      cases hgone : p.abandoned? with
      | none =>
        simp only [hphase, hgone, Prod.mk.injEq, Verdict.returned.injEq, Except.error.injEq] at hm
        exact ⟨rfl, rfl, hm.2⟩
      | some a => simp [hphase, hgone] at hm
    | idle =>
      cases hparked : p.parked <;> cases runtime <;> simp [hphase, hparked] at hm
      obtain ⟨-, rfl⟩ := hm
      cases busy
    | stopping | stopped => simp [hphase] at hm
  · simp only [enter, hs, Prod.mk.injEq, Verdict.returned.injEq, Except.error.injEq] at hm
    rw [← hm.2, hnot] at busy
    cases busy

/-- Only a wait is told that the poller is busy. -/
theorem busy_of_moveCall (h : p.Sound) (ha : p.Attended) (hc : c ∈ p.calls) {runtime : Bool}
    {e : Error} (busy : e.isBusy = true) (hm : p.moveCall runtime c = (q, .returned (.error e))) :
    c.stage.isWait = true ∧ p.phase = .running ∧ p.abandoned? = none ∧ p.busyError = e := by
  have harmless := Error.isFatal_of_isBusy busy
  obtain ⟨-, screened | ⟨i, hs⟩⟩ := (callEffect_of_moveCall h hc hm).of_harmless rfl harmless
  · cases hs : c.stage with
    | entering | yielded =>
      simp only [moveCall, hs] at hm
      exact ⟨rfl, busy_of_enter busy hm⟩
    | unsubscribing subscription =>
      simp only [moveCall, hs, endSubscription] at hm
      rcases p.screen_cases with ⟨hs, -⟩ | ⟨-, e', r, hs, hnot⟩
      · simp only [hs] at hm
        split at hm
        · split at hm
          · split at hm <;> cases hm
          · cases hm
            cases busy
        · cases hm
          cases busy
      · simp only [hs, Prod.mk.injEq, Verdict.returned.injEq, Except.error.injEq] at hm
        rw [← hm.2, hnot] at busy
        cases busy
    | _ => simp [hs, CallStage.isScreened] at screened
  · rw [ha.answers c hc i e hs] at harmless
    cases harmless

/-- Who asks for a subscription is told that the poller is busy whenever it runs. -/
theorem busy_of_subscribe {runtime : Bool} {subscription : String} {script : Script (Handling α)}
    {runs : Bool} {releasePanic : Option String} {e : Error} (busy : e.isBusy = true) :
    (p.subscribe runtime subscription script runs releasePanic).2 = .error e ↔
      p.disposed = false ∧ p.failure = none ∧ p.phase = .running ∧ p.busyError = e := by
  rcases p.screen_cases with ⟨hs, hd, hf⟩ | ⟨hdf, e', r, hs, hnot⟩
  · simp only [subscribe, hs, hd, hf, true_and]
    cases hphase : p.phase with
    | running => simp
    | idle =>
      cases runtime with
      | true => simp
      | false =>
        simp only [Bool.false_eq_true, if_false, reduceCtorEq, false_and, iff_false]
        rintro ⟨⟩
        cases busy
    | stopping | stopped =>
      simp only [reduceCtorEq, false_and, iff_false]
      rintro ⟨⟩
      cases busy
  · simp only [subscribe, hs, Except.error.injEq]
    constructor
    · rintro rfl
      rw [hnot] at busy
      cases busy
    · rintro ⟨hd, hf, -⟩
      rcases hdf with hd' | hf'
      · rw [hd] at hd'
        cases hd'
      · exact absurd hf hf'

/-- A running poller has a loop and its consumer. -/
theorem Sound.attached_of_running (h : p.Sound) (hphase : p.phase = .running) :
    ∃ a l, p.current = some a ∧ l ∈ p.loops ∧ p.consumer = some l.consumer ∧
      (l.hasEnded = true → l.runs = false) := by
  have hcurrent : p.current ≠ none := by
    intro hnone
    rcases (h.detached hnone).2 with hp | hp <;> rw [hphase] at hp <;> cases hp
  obtain ⟨a, ha⟩ := Option.ne_none_iff_exists'.1 hcurrent
  obtain ⟨l, hl, -, hcons, hend⟩ := h.attached a ha
  exact ⟨a, l, ha, hl, hcons, hend⟩

/-- Whether a pending wait is the consumer, and listens to its loop. -/
def ServesWait (p : Poller α) (id : String) : Prop :=
  p.consumer = some (.waiter id) ∧ ∃ c ∈ p.calls, c.id = id ∧ ∃ i, c.stage = .receiving i none

/-- Whether a subscription that came about is the consumer, with a loop that has not ended by
itself. -/
def ServesSubscription (p : Poller α) (tr : List (Occurrence α)) (subscription : String) : Prop :=
  p.consumer = some (.subscriber subscription) ∧ .subscribed subscription ∈ tr ∧
    ∃ l ∈ p.loops, l.consumer = .subscriber subscription ∧ (l.hasEnded = true → l.runs = false)

/-- A running poller whose consumer is no subscriber is there for a wait. -/
theorem Sound.waiter_of_running (h : p.Sound) (hphase : p.phase = .running)
    (hbusy : p.busyError = .waitInProgress) : ∃ id, p.consumer = some (.waiter id) := by
  obtain ⟨a, l, -, -, hcons, -⟩ := h.attached_of_running hphase
  cases hk : l.consumer with
  | waiter id => exact ⟨id, by rw [hcons, hk]⟩
  | subscriber subscription => simp [busyError, isSubscribed, hcons, hk] at hbusy

/-- A running poller whose consumer is a subscriber is there for a subscription that came about. -/
theorem Run.servesSubscription {name : String} {pacing : Pacing}
    (hrun : Run (idle name pacing) tr p) (hphase : p.phase = .running) (hbusy : p.busyError = .alreadySubscribed) :
    ∃ subscription, p.ServesSubscription tr subscription := by
  have h : p.Sound := (sound_idle name pacing).run hrun
  obtain ⟨a, l, -, hl, hcons, hend⟩ := h.attached_of_running hphase
  cases hk : l.consumer with
  | waiter id => simp [busyError, isSubscribed, hcons, hk] at hbusy
  | subscriber subscription =>
    refine ⟨subscription, by rw [hcons, hk], ?_, l, hl, hk, hend⟩
    rcases hrun.uses (sound_idle name pacing) (.inl ⟨l, hl, hk⟩) with hused | ⟨o, ho, hnew⟩
    · exact absurd hused (uses_idle name pacing)
    · cases o <;> cases hnew
      exact ho

/-- A wait is told that another one is in progress only while that is pending and listens.  Who asks
for a subscription is told so whenever the poller runs for a wait, and then that is pending and
listens, or it was dropped.  And whoever is told of a subscription is told of one that came about,
whose loop has not ended, unless its task was discarded. -/
theorem busy_is_told {name : String} {pacing : Pacing} (hrun : Run (idle name pacing) tr p) :
    (∀ c ∈ p.calls, ∀ runtime q,
      p.moveCall runtime c = (q, .returned (.error .waitInProgress)) →
        ∃ id, id ≠ c.id ∧ p.ServesWait id) ∧
    (∀ runtime subscription script runs releasePanic,
      (p.subscribe runtime subscription script runs releasePanic).2 = .error .waitInProgress ↔
        p.disposed = false ∧ p.failure = none ∧ p.phase = .running ∧
          ∃ id, p.consumer = some (.waiter id)) ∧
    (∀ id, p.consumer = some (.waiter id) →
      p.ServesWait id ∨ (∀ c ∈ p.calls, c.id ≠ id) ∧ ∃ unread, .dropped id unread ∈ tr) ∧
    (∀ c ∈ p.calls, ∀ runtime q,
      p.moveCall runtime c = (q, .returned (.error .alreadySubscribed)) →
        ∃ subscription, p.ServesSubscription tr subscription) ∧
    ∀ runtime subscription script runs releasePanic,
      (p.subscribe runtime subscription script runs releasePanic).2 = .error .alreadySubscribed →
        ∃ subscription, p.ServesSubscription tr subscription := by
  have hp : p.Reachable := ⟨name, pacing, tr, hrun⟩
  have h := hp.sound
  refine ⟨?wait, ?subscribe, ?named, ?subscribedWait, ?subscribed⟩
  case wait =>
    intro c hc runtime q hm
    obtain ⟨wait, hphase, hgone, hbusy⟩ := busy_of_moveCall h hp.attended hc rfl hm
    obtain ⟨id, hcons⟩ := h.waiter_of_running hphase hbusy
    obtain ⟨a, l, ha, -⟩ := h.attached_of_running hphase
    -- The wait that is named is pending, since nobody has abandoned its loop.
    cases hd : p.call? id with
    | none => simp [abandoned?, hcons, hd, ha] at hgone
    | some d =>
      obtain ⟨hmem, rfl⟩ := call?_eq_some hd
      obtain ⟨i, hi⟩ := hp.attended.listens d hmem hcons
      refine ⟨d.id, fun hid => ?_, hcons, d, hmem, rfl, i, hi⟩
      obtain rfl := h.eq_of_callId hc hmem hid
      simp [hi, CallStage.isWait] at wait
  case subscribe =>
    intro runtime subscription script runs releasePanic
    rw [busy_of_subscribe rfl]
    constructor
    · rintro ⟨hd, hf, hphase, hbusy⟩
      exact ⟨hd, hf, hphase, h.waiter_of_running hphase hbusy⟩
    · rintro ⟨hd, hf, hphase, id, hcons⟩
      exact ⟨hd, hf, hphase, by simp [busyError, isSubscribed, hcons]⟩
  case named =>
    intro id hcons
    by_cases hpending : ∃ c ∈ p.calls, c.id = id
    · obtain ⟨c, hc, rfl⟩ := hpending
      exact .inl ⟨hcons, c, hc, rfl, hp.attended.listens c hc hcons⟩
    · have hgone : ∀ c ∈ p.calls, c.id ≠ id := fun c hc hid => hpending ⟨c, hc, hid⟩
      exact .inr ⟨hgone, hrun.consumer_dropped hcons hgone⟩
  case subscribedWait =>
    intro c hc runtime q hm
    obtain ⟨-, hphase, -, hbusy⟩ := busy_of_moveCall h hp.attended hc rfl hm
    exact hrun.servesSubscription hphase hbusy
  case subscribed =>
    intro runtime subscription script runs releasePanic hq
    obtain ⟨-, -, hphase, hbusy⟩ := (busy_of_subscribe rfl).1 hq
    exact hrun.servesSubscription hphase hbusy

/-- A wait starts a loop, which polls. -/
def waitThatPolls : List (Cue Nat) :=
  [.call ⟨"w", true, .entering⟩, .resume "w" true, .loop 1 .go, .loop 1 (.check false),
    .loop 1 (.beginPoll {} 0)]

/-- The wait that comes second is told of the first one. -/
theorem busy_is_told_second : ∃ (tr : List (Occurrence Nat)) (p : Poller Nat) (c : Call Nat)
    (id : String), Run (idle "a" default) tr p ∧ c ∈ p.calls ∧
      p.moveCall true c = (p, .returned (.error .waitInProgress)) ∧ id ≠ c.id ∧
      p.ServesWait id := by
  have hrun : Run (idle "a" default) _ _ :=
    run_of_perform? (waitThatPolls ++ [.call ⟨"v", true, .entering⟩]) rfl
  obtain ⟨id, hne, hserves⟩ := (busy_is_told hrun).1 _ (mem_of_call? "v" rfl) true _ rfl
  exact ⟨_, _, _, id, hrun, mem_of_call? "v" rfl, rfl, hne, hserves⟩

/-- Who asks for a subscription is told of a wait that was dropped. -/
theorem busy_with_nobody : ¬ ∀ (p : Poller Nat) (runtime : Bool) (subscription : String)
    (script : Script (Handling Nat)) (runs : Bool) (releasePanic : Option String), p.Reachable →
      (p.subscribe runtime subscription script runs releasePanic).2 = .error .waitInProgress →
        ∃ c ∈ p.calls, c.stage.isWaiting = true := by
  intro h
  have hrun : Run (idle "a" default) _ _ :=
    run_of_perform? (waitThatPolls ++ [.drop "w"]) rfl
  obtain ⟨c, hc, -⟩ := h _ true "s" ⟨[], {}⟩ true none ⟨_, _, _, hrun⟩ rfl
  cases hc

end Poller

end Polling
