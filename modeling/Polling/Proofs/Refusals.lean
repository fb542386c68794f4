import Polling.Proofs.Cues
import Polling.Proofs.Shutdown

/-!
# Requests at the wrong time

Whoever asks a poller for something at the wrong time is told so, and nothing else happens: the
poller is the same afterwards (`refusal_is_harmless`).  What is left of a call that was refused is
only that it is still on the list of calls, and no loop looks there for a call that it does not
serve; so all loops go on alike whether the call was made or not (`perform?_dropCall`).
-/

namespace Polling

variable {α : Type}

namespace Poller

variable {p q : Poller α} {l : Loop α} {c : Call α} {id : String}

/-- Whether every loop that has not ended is there for somebody else than a call. -/
def Unserved (p : Poller α) (id : String) : Prop :=
  ∀ l ∈ p.loops, l.hasEnded = false → l.consumer ≠ .waiter id

/-- A call that listens to no loop is served by none. -/
theorem CallFits.unserved (h : p.CallFits c) (hs : ∀ i, c.stage ≠ .receiving i none) :
    p.Unserved c.id :=
  fun l hl hal hcons => hs l.id (h.listening l hl hal hcons)

/-- A loop that moves serves whom it has served. -/
theorem LoopEffect.unserved (hl : l ∈ p.loops) (hal : l.hasEnded = false) {es}
    (heffect : p.LoopEffect l es q) (hp : p.Unserved id) : q.Unserved id := by
  have hkept : ∀ m : Loop α, l.SameTask m → ∀ k ∈ (p.withLoop m).loops, k.hasEnded = false →
      k.consumer ≠ .waiter id := by
    intro m same k hk hkal
    rcases mem_withLoop hk with rfl | ⟨hk, -⟩
    · rw [same.consumer]
      exact hp l hl hal
    · exact hp k hk hkal
  cases heffect with
  | goesOn _ same => exact hkept _ same
  | ends _ same => exact hkept _ same

section

variable {other : String} (hne : other ≠ id)

include hne

theorem call?_dropCall : (p.dropCall id).call? other = p.call? other := by
  simp only [call?, dropCall, List.find?_filter]
  congr 1
  funext d
  by_cases hd : d.id = other <;> simp [hd, hne]

theorem isListening_dropCall (i : Nat) :
    (p.dropCall id).isListening other i = p.isListening other i := by
  simp only [isListening, call?_dropCall hne]

end

theorem setCallStage_dropCall (p : Poller α) (id other : String) (s : CallStage α) :
    (p.dropCall id).setCallStage other s = (p.setCallStage other s).dropCall id := by
  have hcalls : (p.calls.filter fun d => d.id ≠ id).map
        (fun d => if d.id = other then { d with stage := s } else d) =
      (p.calls.map fun d => if d.id = other then { d with stage := s } else d).filter
        fun d => d.id ≠ id := by
    rw [List.filter_map]
    congr 2
    funext d
    dsimp only [Function.comp]
    split <;> rfl
  simp only [setCallStage, dropCall, hcalls]

theorem vacate_dropCall (p : Poller α) (id : String) (i : Nat) :
    (p.dropCall id).vacate i = (p.vacate i).dropCall id := by
  rw [vacate, vacate, apply_ite (fun r : Poller α => r.dropCall id)]
  rfl

section

variable (hcons : l.consumer ≠ .waiter id)

include hcons

theorem handOver_dropCall (i : Nat) (e : Ending α) :
    (p.dropCall id).handOver i l.consumer e = (p.handOver i l.consumer e).dropCall id := by
  cases hk : l.consumer with
  | subscriber subscription => cases e <;> rfl
  | waiter other =>
    have hne : other ≠ id := fun heq => hcons (heq ▸ hk)
    cases e <;> simp only [handOver, isListening_dropCall hne, setCallStage_dropCall] <;>
      first | rfl | split <;> rfl

/-- A loop ends alike without a call that it does not serve. -/
theorem finish_dropCall (e : Ending α) :
    (p.dropCall id).finish l e = (p.finish l e).dropCall id := by
  let r : Poller α := { p with stopRequested := p.stopRequested || e.stops }
  show (((r.dropCall id).vacate l.id).handOver l.id l.consumer e).setStage l.id _ = _
  rw [vacate_dropCall, handOver_dropCall hcons]
  rfl

theorem wake_dropCall (w : Wake) : (p.dropCall id).wake l w = (p.wake l w).dropCall id := by
  cases w with
  | timer => rfl
  | cancelled | abandoned => exact finish_dropCall hcons _
  | signalled => exact finish_dropCall (p := p.beginStopping) hcons _

theorem listener?_dropCall : (p.dropCall id).listener? l = p.listener? l := by
  unfold listener?
  split
  · next other hk => rw [isListening_dropCall fun heq => hcons (hk.trans (congrArg _ heq))]
  · rfl

theorem failing_dropCall (f : Failure) : (p.dropCall id).failing l f = p.failing l f := by
  simp only [failing, listener?_dropCall hcons]
  rfl

theorem wakes_dropCall (due now : Nat) (raised : Bool) :
    (p.dropCall id).wakes l due now raised = p.wakes l due now raised := by
  have hgone : (p.dropCall id).waiterGone l = p.waiterGone l := by
    unfold waiterGone
    split
    · next other hk => rw [call?_dropCall fun heq => hcons (hk.trans (congrArg _ heq))]
    · rfl
  simp only [wakes, hgone]
  rfl

theorem beginLoop_dropCall (backlog : Option α) :
    (p.dropCall id).beginLoop l backlog = (p.beginLoop l backlog).dropCall id := by
  simp only [beginLoop]
  split
  · rfl
  · exact finish_dropCall (p := p.recordDelay l.backoff.current) hcons _
  · rfl

theorem endPoll_dropCall (now : Nat) (r : Except Failure (Polled α)) :
    (p.dropCall id).endPoll l now r = (p.endPoll l now r).dropCall id := by
  rcases r with f | _ | x
  · exact finish_dropCall hcons _
  · simp only [endPoll, foundNothing]
    split <;> rfl
  · let r : Poller α := ({ p with payloadPolls := p.payloadPolls + 1 }.recordDelay
      l.backoff.reset.current).updateLoop l.id fun m => { m with backoff := l.backoff.reset }
    simp only [endPoll, foundPayload]
    split
    · exact finish_dropCall (p := r) hcons (.delivered x)
    · rfl

theorem beginCallback_dropCall (now : Nat) :
    (p.dropCall id).beginCallback l now = (p.beginCallback l now).dropCall id := by
  simp only [beginCallback]
  split
  · exact finish_dropCall (p := p.updateLoop l.id _) hcons _
  · rfl

theorem endCallback_dropCall (o : CallbackOutcome) :
    (p.dropCall id).endCallback l o = (p.endCallback l o).dropCall id := by
  cases o with
  | done => rfl
  | failed | panicked | panickedAtOnce => exact finish_dropCall hcons _

/-- A loop moves alike without a call that it does not serve. -/
theorem loopAct?_dropCall (own : LoopCue α) :
    (p.dropCall id).loopAct? l own =
      (p.loopAct? l own).map fun (es, q) => (es, q.dropCall id) := by
  have hfailing := fun f => failing_dropCall (p := p) hcons f
  unfold loopAct?
  split
  · next backlog _ =>
    rw [beginLoop_dropCall hcons]
    split <;> rfl
  · next raised _ =>
    have hwhy : (p.dropCall id).interruption? l raised = p.interruption? l raised := rfl
    rw [hwhy]
    split
    · rw [wake_dropCall hcons]
      rfl
    · rfl
  · rfl
  · next r now _ =>
    have htold : (p.dropCall id).polling l r = p.polling l r := by
      cases r <;> simp only [polling, hfailing]
    rw [endPoll_dropCall hcons, htold]
    rfl
  · next x now _ =>
    have htold : (p.dropCall id).invoking l x = p.invoking l x := by
      simp only [invoking, hfailing]
    rw [beginCallback_dropCall hcons, htold]
    rfl
  · next h _ _ =>
    have htold : (p.dropCall id).handling l h.outcome = p.handling l h.outcome := by
      simp only [handling, hfailing]
    rw [endCallback_dropCall hcons, htold]
    rfl
  · rfl
  · rw [wakes_dropCall hcons, wake_dropCall hcons]
    split <;> rfl
  · rfl

end

/-- A loop that has ended does not move, and any other one moves alike. -/
theorem Unserved.loopAct? (hp : p.Unserved id) (hl : l ∈ p.loops) (own : LoopCue α) :
    (p.dropCall id).loopAct? l own =
      (p.loopAct? l own).map fun (es, q) => (es, q.dropCall id) := by
  cases hal : l.hasEnded with
  | false => exact loopAct?_dropCall (hp l hl hal) own
  | true =>
    unfold Loop.hasEnded at hal
    split at hal
    · next hs => simp [Poller.loopAct?, hs]
    · cases hal

/-- All loops go on alike without a call that none of them serves. -/
theorem perform?_dropCall (h : p.Sound) (hp : p.Unserved id) {cues : List (Cue α)}
    (loops : ∀ cue ∈ cues, ∃ i own, cue = .loop i own) :
    (p.dropCall id).perform? cues =
      (p.perform? cues).map fun (tr, q) => (tr, q.dropCall id) := by
  induction cues generalizing p with
  | nil => rfl
  | cons cue cues ih =>
    obtain ⟨i, own, rfl⟩ := loops cue List.mem_cons_self
    have hact : (p.dropCall id).act? (.loop i own) =
        (p.act? (.loop i own)).map fun (es, q) => (es, q.dropCall id) := by
      have hloop : (p.dropCall id).loop? i = p.loop? i := rfl
      simp only [act?, hloop]
      cases hl : p.loop? i with
      | none => rfl
      | some l => exact hp.loopAct? (loop?_eq_some hl).1 own
    simp only [perform?, hact]
    cases hmove : p.act? (.loop i own) with
    | none => rfl
    | some moved =>
      obtain ⟨es, q⟩ := moved
      -- The loop that has moved is there for the same consumer.
      obtain ⟨l, hl, hown⟩ := Option.bind_eq_some_iff.1 hmove
      have hmem := (loop?_eq_some hl).1
      have move := loopMove_of_loopAct? hown
      have hq := (move.effect h.toConsistent hmem).unserved hmem move.alive hp
      simp only [Option.map_some, Option.bind_some,
        ih (h.move (.loop hmem move)) hq fun cue hcue => loops cue (List.mem_cons_of_mem _ hcue),
        Option.map_map]
      rfl

/-- A call that returns an error that is not fatal was refused, or reads that error as an answer. -/
theorem CallEffect.of_harmless {v : Verdict α} {e : Error} (heffect : p.CallEffect c q v)
    (hv : v = .returned (.error e)) (harmless : e.isFatal = false) :
    q = p ∧ (c.stage.isScreened = true ∨ ∃ i, c.stage = .receiving i (some (.error e))) := by
  have hfatal : ∀ r : Poller α, .returned r.owed = v → False := by
    rintro r rfl
    unfold owed at hv
    split at hv
    · cases hv
      cases harmless
    · cases hv
  cases heffect with
  | refused screened => exact ⟨rfl, .inl screened⟩
  | @answered i _ stage =>
    obtain rfl := Verdict.returned.inj hv
    exact ⟨rfl, .inr ⟨i, stage⟩⟩
  | collects =>
    cases hv
    cases harmless
  | closed => exact (hfatal p rfl).elim
  | @reports i => exact (hfatal (p.absorb i) rfl).elim
  | cleared => exact (hfatal p rfl).elim
  | unsubscribes =>
    split at hv <;> cases hv
  | _ => cases hv

/-- The end of another subscription than the present one leaves that alone, and comes to an
error. -/
theorem CallEffect.of_stranger {v : Verdict α} {mine theirs : String}
    (heffect : p.CallEffect c q v) (stage : c.stage = .unsubscribing mine)
    (consumer : p.consumer = some (.subscriber theirs)) (hne : mine ≠ theirs) :
    (∃ e, v = .returned (.error e)) ∧ q = { p with failure := q.failure } := by
  have hwait : c.stage.isWait = false := by rw [stage]; rfl
  cases heffect with
  | refused => exact ⟨⟨_, rfl⟩, rfl⟩
  | collects => exact ⟨⟨_, rfl⟩, rfl⟩
  | late wait | unparks wait | starts wait | replaces wait => simp [hwait] at wait
  | unsubscribes stage' consumer' =>
    rw [stage] at stage'
    rw [consumer] at consumer'
    obtain rfl := CallStage.unsubscribing.inj stage'
    exact absurd (Consumer.subscriber.inj (Option.some.inj consumer')).symm hne
  | closes stage' | closed stage' | reenters stage' | leaves stage' | reports stage'
  | answered stage' | clears stage' | cleared stage' => simp [stage] at stage'

/-- Whoever is refused with an error that is not fatal has changed nothing at all, be it a call or
somebody who asks for a subscription, and with the call gone from the list of those that are pending
all loops go on as they would have with it.  And the end of a subscription that is not the present
one leaves that alone, whatever else it finds. -/
theorem refusal_is_harmless (hp : p.Reachable) :
    (∀ c ∈ p.calls, ∀ runtime q e, p.moveCall runtime c = (q, .returned (.error e)) →
      e.isFatal = false → q = p ∧
        ∀ cues : List (Cue α), (∀ cue ∈ cues, ∃ i own, cue = .loop i own) →
          (p.dropCall c.id).perform? cues =
            (p.perform? cues).map fun (tr, r) => (tr, r.dropCall c.id)) ∧
    (∀ runtime subscription script runs releasePanic q e,
      p.subscribe runtime subscription script runs releasePanic = (q, .error e) →
        e.isFatal = false → q = p) ∧
    ∀ c ∈ p.calls, ∀ mine theirs, c.stage = .unsubscribing mine →
      p.consumer = some (.subscriber theirs) → mine ≠ theirs →
        ∀ runtime q v, p.moveCall runtime c = (q, v) →
          (∃ e, v = .returned (.error e)) ∧ q = { p with failure := q.failure } := by
  have h := hp.sound
  refine ⟨?calls, ?subscriptions, ?strangers⟩
  case calls =>
    intro c hc runtime q e hmove harmless
    obtain ⟨hq, hs⟩ := (callEffect_of_moveCall h hc hmove).of_harmless rfl harmless
    have hnot : ∀ i, c.stage ≠ .receiving i none := by
      intro i hi
      simp [hi, CallStage.isScreened] at hs
    exact ⟨hq, fun cues loops => perform?_dropCall h ((h.fits c hc).unserved hnot) loops⟩
  case subscriptions =>
    intro runtime subscription script runs releasePanic q e hq harmless
    have heffect := p.subscribeEffect runtime subscription script runs releasePanic
    rw [hq] at heffect
    cases heffect with
    | refused => rfl
    | collects => cases harmless
  case strangers =>
    intro c hc mine theirs stage consumer hne runtime q v hmove
    exact (callEffect_of_moveCall h hc hmove).of_stranger stage consumer hne

/-- A subscription polls, a wait wants to, and somebody ends another subscription. -/
def askedDuringPoll : List (Cue Nat) :=
  [.subscribe true "s" ⟨[], {}⟩ true none, .loop 1 .go, .loop 1 (.check false),
    .loop 1 (.beginPoll {} 0), .call ⟨"w", true, .entering⟩,
    .call ⟨"u", true, .unsubscribing "t"⟩]

/-- The waiter of a poll goes away, and what the poll finds is parked. -/
def parkedAfterDrop : List (Cue Nat) :=
  [.call ⟨"w", true, .entering⟩, .resume "w" true, .loop 1 .go, .loop 1 (.check false),
    .loop 1 (.beginPoll {} 0), .drop "w", .loop 1 (.endPoll (.ok (.payload 7)) 0)]

/-- The poll goes on whoever asks, and what is parked stays parked without a runtime. -/
theorem refusal_is_harmless_during_poll : ∃ (p r : Poller Nat) (c d : Call Nat),
    p.Reachable ∧ c ∈ p.calls ∧ d ∈ p.calls ∧
      p.moveCall true c = (p, .returned (.error .alreadySubscribed)) ∧
      p.moveCall true d = (p, .returned (.error (.unknownSubscription "t"))) ∧
      (∃ tr q, (p.dropCall c.id).perform? [.loop 1 (.endPoll (.ok (.payload 7)) 0),
        .loop 1 (.callBack 0)] = some (tr, q) ∧ .invoked 1 7 ∈ tr) ∧
      r.Reachable ∧ r.parked = some 7 ∧
      r.subscribe false "s" ⟨[], {}⟩ true none = (r, .error .noRuntime) := by
  have hp : Reachable _ := ⟨"a", default, _, run_of_perform? askedDuringPoll rfl⟩
  have hr : Reachable _ := ⟨"a", default, _, run_of_perform? parkedAfterDrop rfl⟩
  obtain ⟨hcalls, -, hothers⟩ := refusal_is_harmless hp
  obtain ⟨hwait, honward⟩ :=
    hcalls _ (mem_of_call? "w" rfl) true _ .alreadySubscribed rfl rfl
  obtain ⟨-, hend⟩ :=
    hothers _ (mem_of_call? "u" rfl) "t" "s" rfl rfl (by decide) true _ _ rfl
  have hsubscribe := (refusal_is_harmless hr).2.1 false "s" ⟨[], {}⟩ true none _ .noRuntime rfl rfl
  refine ⟨_, _, _, _, hp, mem_of_call? "w" rfl, mem_of_call? "u" rfl, Prod.ext hwait rfl,
    Prod.ext hend rfl, ⟨_, _, honward _ (by simp), ?_⟩, hr, rfl, Prod.ext hsubscribe rfl⟩
  exact List.mem_cons_of_mem _ List.mem_cons_self

end Poller

end Polling
