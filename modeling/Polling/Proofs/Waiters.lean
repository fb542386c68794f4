import Polling.Proofs.Cues
import Polling.Proofs.Soundness

/-!
# The loops of waiters

A loop that polls for a wait has nothing to do with callbacks: it starts without a backlog, since a
wait takes what is parked itself, it hands a payload over in the move that found it, and its task
has nothing to release at its end.  So between its moves it holds nothing (`Loop.Bare`), and one
move of it is soon told: it goes on, having begun a poll or found nothing if anything, or it ends in
one of five ways (`Poller.WaiterEffect`).
-/

namespace Polling

variable {α : Type}

/-- Whether a loop that stands here holds no payload, and has left nobody a panic. -/
def Stage.isBare : Stage α → Bool
  | .spawned (some _) | .handing _ | .calling _ _ | .ended (.panicked _) => false
  | _ => true

/-- Whether a loop holds nothing, and releases nothing at its end. -/
structure Loop.Bare (l : Loop α) : Prop where
  stage : l.stage.isBare = true
  silent : l.releasePanic = none

theorem exitOf_of_silent {l : Loop α} (h : l.releasePanic = none) :
    Poller.exitOf l = .finished := by
  simp [Poller.exitOf, h]

namespace Poller

variable {p q : Poller α} {l m : Loop α} {c : Call α} {es : List (Occurrence α)} {w : String}

/-- How the loop of a waiter may end, what is told of it, and what was shown of the signal. -/
inductive Closes (p : Poller α) (l : Loop α) (shown : Option Bool) :
    Ending α → List (Occurrence α) → Prop
  | cancelled : Closes p l shown .cancelled []
  | signalled (raised : shown = some true) : Closes p l shown .signalled []
  | abandoned : Closes p l shown .abandoned []
  | delivered {x : α} : Closes p l shown (.delivered x) [.polled l.id (.ok (.payload x))]
  | failed {f : Failure} : Closes p l shown (.failed f) (.polled l.id (.error f) :: p.failing l f)

/-- What a move of the loop of a waiter does. -/
inductive WaiterEffect (p : Poller α) (l : Loop α) (shown : Option Bool) :
    List (Occurrence α) → Poller α → Prop
  /-- The loop goes on as `m`. -/
  | goesOn {m : Loop α} {es emptyPolls delayMillis} (same : l.SameTask m) (bare : m.Bare)
      (vain : ∀ o ∈ es, o = .pollBegan l.id ∨ o = .polled l.id (.ok .empty)) :
      WaiterEffect p l shown es { p.withLoop m with emptyPolls, delayMillis }
  /-- The loop ends as `m`. -/
  | ends {m : Loop α} {e : Ending α} {es payloadPolls delayMillis} (same : l.SameTask m)
      (bare : m.Bare) (closes : p.Closes l shown e es) :
      WaiterEffect p l shown es
        { (p.ended l e).withLoop m with payloadPolls, delayMillis }

section

variable (h : p.Consistent) (hl : l ∈ p.loops) (hal : l.hasEnded = false) (bare : l.Bare)
  {shown : Option Bool}

include h hl bare

theorem waiterEffect_setStage {s : Stage α} (hs : s.isBare = true)
    (vain : ∀ o ∈ es, o = .pollBegan l.id ∨ o = .polled l.id (.ok .empty)) (n d : Nat) :
    p.WaiterEffect l shown es { p.setStage l.id s with emptyPolls := n, delayMillis := d } := by
  rw [setStage, updateLoop_eq h.ids hl rfl]
  exact .goesOn ⟨rfl, rfl, rfl⟩ ⟨hs, bare.silent⟩ vain

include hal

theorem waiterEffect_finish {e : Ending α} (closes : p.Closes l shown e es) :
    p.WaiterEffect l shown es (p.finish l e) := by
  have hfinish := finish_withLoop h hl hal e (m := l) rfl p.payloadPolls p.delayMillis
  rw [h.withLoop_self hl] at hfinish
  rw [show p.finish l e = _ from hfinish]
  exact .ends ⟨rfl, rfl, rfl⟩ ⟨by rw [exitOf_of_silent bare.silent]; rfl, bare.silent⟩ closes

theorem waiterEffect_wake {wake : Wake} (signalled : wake = .signalled → shown = some true) :
    p.WaiterEffect l shown [] (p.wake l wake) := by
  cases wake with
  | timer =>
    rw [Poller.wake, resume, recordDelay]
    have hupdate := updateLoop_eq h.ids hl
      (f := fun k => { k with backoff := l.backoff.advance, stage := .checking }) rfl
    have heffect : p.WaiterEffect l shown [] { p.withLoop _ with
        emptyPolls := p.emptyPolls, delayMillis := l.backoff.advance.current.millis } :=
      .goesOn (m := { l with backoff := l.backoff.advance, stage := .checking }) ⟨rfl, rfl, rfl⟩
        ⟨rfl, bare.silent⟩ (by simp)
    rw [← hupdate] at heffect
    exact heffect
  | cancelled => exact waiterEffect_finish h hl hal bare .cancelled
  | abandoned => exact waiterEffect_finish h hl hal bare .abandoned
  | signalled =>
    obtain ⟨j, hj⟩ := h.alive l hl hal
    rw [Poller.wake, beginStopping_finish hj]
    exact waiterEffect_finish h hl hal bare (.signalled (signalled rfl))

theorem waiterEffect_endPoll (hcons : l.consumer = .waiter w) (now : Nat)
    (r : Except Failure (Polled α)) :
    p.WaiterEffect l shown (p.polling l r) (p.endPoll l now r) := by
  rcases r with f | _ | x
  · exact waiterEffect_finish h hl hal bare .failed
  · have vain : ∀ o ∈ p.polling l (.ok .empty),
        o = .pollBegan l.id ∨ o = .polled l.id (.ok .empty) := by simp [polling]
    simp only [endPoll, foundNothing]
    split
    · exact waiterEffect_setStage h hl bare rfl vain (p.emptyPolls + 1) p.delayMillis
    · exact waiterEffect_setStage h hl bare rfl vain (p.emptyPolls + 1) p.delayMillis
  · -- The backoff is reset before the loop ends, which makes no difference to its end.
    let m : Loop α := { l with backoff := l.backoff.reset }
    have hupdate : p.updateLoop l.id (fun k => { k with backoff := l.backoff.reset }) =
        p.withLoop m := updateLoop_eq h.ids hl rfl
    have heffect : p.WaiterEffect l shown [.polled l.id (.ok (.payload x))]
        (finish { p.withLoop m with
          payloadPolls := p.payloadPolls + 1
          delayMillis := l.backoff.reset.current.millis } l (.delivered x)) := by
      rw [finish_withLoop h hl hal (.delivered x) (m := m) rfl]
      exact .ends ⟨rfl, rfl, rfl⟩ ⟨by rw [exitOf_of_silent bare.silent]; rfl, bare.silent⟩
        .delivered
    rw [← hupdate] at heffect
    simp only [endPoll, foundPayload, hcons]
    exact heffect

end

/-- What the loop of a waiter does in one move. -/
theorem waiterEffect_of_loopAct? (h : p.Consistent) (hl : l ∈ p.loops)
    (hcons : l.consumer = .waiter w) (bare : l.Bare) {own : LoopCue α}
    (hact : p.loopAct? l own = some (es, q)) : p.WaiterEffect l own.shown? es q := by
  have hal := (loopMove_of_loopAct? hact).alive
  have hstage := bare.stage
  unfold loopAct? at hact
  split at hact
  · next backlog hs =>
    split at hact
    · cases hact
      cases backlog with
      | none => exact waiterEffect_setStage h hl bare rfl (by simp) p.emptyPolls _
      | some x => simp [hs, Stage.isBare] at hstage
    · cases hact
  · next raised hs =>
    split at hact
    · next wake why =>
      cases hact
      refine waiterEffect_wake h hl hal bare ?_
      rintro rfl
      obtain ⟨hwake, -⟩ | ⟨-, rfl⟩ := interruption?_eq_some why
      · cases hwake
      · rfl
    · cases hact
      exact waiterEffect_setStage h hl bare rfl (by simp) p.emptyPolls p.delayMillis
  · cases hact
    exact waiterEffect_setStage h hl bare rfl (by simp) p.emptyPolls p.delayMillis
  · cases hact
    exact waiterEffect_endPoll h hl hal bare hcons _ _
  · next hs => simp [hs, Stage.isBare] at hstage
  · next hs => simp [hs, Stage.isBare] at hstage
  · cases hact
    have heffect : p.WaiterEffect l none [] (p.wake l .timer) :=
      waiterEffect_wake h hl hal bare (by simp)
    exact heffect
  · next due wake now raised hs =>
    split at hact
    · next why =>
      cases hact
      refine waiterEffect_wake h hl hal bare fun hwake => ?_
      rw [(of_mem_wakes why).2.1 hwake]
      rfl
    · cases hact
  · cases hact

/-- Whether the loops of waiters are bare. -/
def WaitersBare (p : Poller α) : Prop :=
  ∀ l ∈ p.loops, ∀ w, l.consumer = .waiter w → l.Bare

/-- Loops may be changed one by one, as long as they keep their consumers. -/
theorem WaitersBare.mapLoops (hp : p.WaitersBare) {f : Loop α → Loop α}
    (hq : q.loops = p.loops.map f) (hf : ∀ l ∈ p.loops, (f l).consumer = l.consumer ∧
      (l.Bare → (f l).Bare)) : q.WaitersBare := by
  intro k hk w hcons
  rw [hq] at hk
  obtain ⟨l, hl, rfl⟩ := List.mem_map.1 hk
  obtain ⟨consumer, bare⟩ := hf l hl
  exact bare (hp l hl w (consumer.symm.trans hcons))

theorem WaitersBare.startLoop (hp : p.WaitersBare) {consumer script runs releasePanic}
    (waiter : ∀ w, consumer = .waiter w → p.parked = none ∧ releasePanic = none) :
    (p.startLoop consumer script runs releasePanic).WaitersBare := by
  intro k hk w hcons
  rcases List.mem_append.1 hk with hk | hk
  · exact hp k hk w hcons
  · obtain rfl := List.mem_singleton.1 hk
    obtain ⟨hparked, hsilent⟩ := waiter w hcons
    exact ⟨by rw [hparked]; rfl, hsilent⟩

theorem WaitersBare.withLoop (hp : p.WaitersBare) (bare : ∀ w, m.consumer = .waiter w → m.Bare) :
    (p.withLoop m).WaitersBare := by
  intro k hk w hcons
  rcases mem_withLoop hk with rfl | ⟨hk, -⟩
  · exact bare w hcons
  · exact hp k hk w hcons

theorem WaitersBare.loopMove (hp : p.WaitersBare) (h : p.Consistent) (hl : l ∈ p.loops)
    (hmove : p.LoopMove l es q) : q.WaitersBare := by
  cases hk : l.consumer with
  | waiter w =>
    obtain ⟨own, hact⟩ := hmove.exists_loopAct?
    cases waiterEffect_of_loopAct? h hl hk (hp l hl w hk) hact with
    | goesOn _ bare => exact hp.withLoop fun _ _ => bare
    | ends _ bare => exact WaitersBare.withLoop (p := p.ended l _) hp fun _ _ => bare
  | subscriber subscription =>
    have hnot : ∀ m : Loop α, l.SameTask m → ∀ w, m.consumer = .waiter w → m.Bare := by
      intro m same w hcons
      rw [same.consumer, hk] at hcons
      cases hcons
    cases hmove.effect h hl with
    | goesOn _ same => exact hp.withLoop (hnot _ same)
    | ends _ same => exact WaitersBare.withLoop (p := p.ended l _) hp (hnot _ same)

theorem WaitersBare.callEffect (hp : p.WaitersBare) {v : Verdict α}
    (heffect : p.CallEffect c q v) : q.WaitersBare := by
  cases heffect with
  | starts _ _ parked => exact hp.startLoop fun _ _ => ⟨parked, rfl⟩
  | replaces | unsubscribes =>
    refine hp.mapLoops (q := p.retire _) rfl fun l _ => ?_
    split
    · exact ⟨rfl, fun bare => ⟨bare.stage, bare.silent⟩⟩
    · exact ⟨rfl, id⟩
  | reenters | leaves | reports =>
    rw [absorb_eq]
    exact hp
  | _ => exact hp

theorem WaitersBare.move (hp : p.WaitersBare) (h : p.Sound) (hmove : p.Move es q) :
    q.WaitersBare := by
  cases hmove with
  | loop mem move => exact hp.loopMove h.toConsistent mem move
  | proceed mem _ goes | finish mem _ goes =>
    -- Where the call stands afterwards is no matter of loops.
    have hq := hp.callEffect (callEffect_of_moveCall h mem goes)
    exact hq
  | @subscribe runtime subscription script runs releasePanic =>
    have heffect := p.subscribeEffect runtime subscription script runs releasePanic
    generalize (p.subscribe runtime subscription script runs releasePanic).2 = r at heffect
    generalize (p.subscribe runtime subscription script runs releasePanic).1 = q at heffect
    cases heffect with
    | starts => exact hp.startLoop (by simp)
    | _ => exact hp
  | @discard k =>
    refine hp.mapLoops (q := p.discard k.id) rfl fun l _ => ?_
    split
    · exact ⟨rfl, fun bare => ⟨by simp only [Loop.discarded, bare.silent]; rfl, bare.silent⟩⟩
    · exact ⟨rfl, id⟩
  | call | drop | stop | release => exact hp

/-- The loops of waiters are bare, at any time. -/
theorem Reachable.waitersBare (h : p.Reachable) : p.WaitersBare :=
  (h.preserves (I := fun p => p.Sound ∧ p.WaitersBare)
    (fun name pacing => ⟨sound_idle name pacing, fun l hl => by cases hl⟩)
    fun hp hmove => ⟨hp.1.move hmove, hp.2.move hp.1 hmove⟩).2

end Poller

end Polling
