import Polling.Proofs.Cues
import Polling.Proofs.LoopHistory

/-!
# What the end of a subscription leaves behind

A subscription has one loop.  Once that has ended by itself, nothing names the subscription any
more, and since its name is not used again nothing ever will.  The end of a subscription that joins
the loop therefore keeps its promise, unless the task was discarded.  One that finds the loop
already joined by somebody else returns while the loop goes on.
-/

namespace Polling

variable {α : Type}

namespace Poller

variable {p q : Poller α} {l m : Loop α} {c : Call α} {subscription : String}

/-- Nothing of a subscription is left, and the poller is free for the next consumer or stopped. -/
structure Unsubscribed (p : Poller α) (subscription : String) : Prop where
  ended : ∀ l ∈ p.loops, l.consumer = .subscriber subscription → l.hasEnded = true
  consumer : p.consumer ≠ some (.subscriber subscription)
  current : ∀ a, p.current = some a →
    ∀ l ∈ p.loops, l.id = a.loop → l.consumer ≠ .subscriber subscription
  phase : p.current = none → p.phase = .idle ∨ p.phase = .stopped ∧ p.stopRequested = true

/-- Nothing of a subscription is left, and its loops never work again. -/
def UnsubscribedForGood (p : Poller α) (subscription : String) : Prop :=
  p.Unsubscribed subscription ∧ ∀ tr q, Run p tr q → q.Unsubscribed subscription ∧
    ∀ o ∈ tr, ∀ l ∈ q.loops, l.consumer = .subscriber subscription → o.workOf? ≠ some l.id

/-- The loop of a subscription has ended by itself. -/
structure Gone (p : Poller α) (subscription : String) : Prop where
  known : ∃ l ∈ p.loops, l.consumer = .subscriber subscription
  ended : ∀ l ∈ p.loops, l.consumer = .subscriber subscription →
    l.hasEnded = true ∧ l.runs = true

theorem Gone.unsubscribed (hg : p.Gone subscription) (h : p.Consistent) :
    p.Unsubscribed subscription := by
  -- A loop that has ended and run is not named any more.
  have hnot : ∀ a, p.current = some a → ∀ l ∈ p.loops, l.id = a.loop →
      l.consumer ≠ .subscriber subscription := by
    intro a ha l hl hid hcons
    obtain ⟨k, hk, hid', -, hgone⟩ := h.attached a ha
    obtain rfl := h.eq_of_id hl hk (hid'.trans hid.symm)
    obtain ⟨hend, hruns⟩ := hg.ended k hk hcons
    rw [hgone hend] at hruns
    cases hruns
  refine ⟨fun l hl hcons => (hg.ended l hl hcons).1, fun hcons => ?_, hnot, fun hnone => ?_⟩
  · cases ha : p.current with
    | none => simp [(h.detached ha).1] at hcons
    | some a =>
      obtain ⟨k, hk, hid, hcons', -⟩ := h.attached a ha
      exact hnot a ha k hk hid (Option.some.inj (hcons'.symm.trans hcons))
  · exact (h.detached hnone).2.imp id fun hphase => ⟨hphase, h.halted (.inr hphase)⟩

/-- The loop of a subscription that has ended by itself stays the only one. -/
theorem Gone.follow (hg : p.Gone subscription) (hfollow : p.LoopsFollow q) :
    q.Gone subscription where
  known := by
    obtain ⟨l, hl, hcons⟩ := hg.known
    obtain ⟨m, hm, hbecomes⟩ := hfollow.kept l hl
    exact ⟨m, hm, hbecomes.consumer.trans hcons⟩
  ended m hm hcons := by
    rcases hfollow.known m hm with ⟨l, hl, hbecomes⟩ | hnew
    · obtain ⟨hend, hruns⟩ := hg.ended l hl (hbecomes.consumer.symm.trans hcons)
      refine ⟨hbecomes.ended hend, ?_⟩
      rcases hbecomes.runs with hsame | ⟨hal, -⟩
      · exact hsame.trans hruns
      · rw [hend] at hal
        cases hal
    · obtain ⟨l, hl, hcons'⟩ := hg.known
      exact absurd hcons' (hnew subscription hcons l hl)

/-- A subscription whose loop has ended by itself is over for good. -/
theorem Gone.forGood (hg : p.Gone subscription) (h : p.Sound) :
    p.UnsubscribedForGood subscription := by
  refine ⟨hg.unsubscribed h.toConsistent, fun tr q hrun => ?_⟩
  -- That the loop is gone is the invariant, and soundness is needed to keep it.
  have hend : q.Gone subscription ∧ q.Sound ∧
      ∀ o ∈ tr, ∀ l ∈ q.loops, l.consumer = .subscriber subscription → o.workOf? ≠ some l.id := by
    induction hrun with
    | nil => exact ⟨hg, h, by simp⟩
    | @snoc q r tr es _ hmove ih =>
      obtain ⟨hq, hsound, hidle⟩ := ih
      have hfollow := hmove.loopsFollow hsound
      have hr := hq.follow hfollow
      have hsound' := hsound.move hmove
      refine ⟨hr, hsound', fun o ho m hm hcons hwork => ?_⟩
      -- The loop was there before the move, and it had ended.
      obtain ⟨l, hl, hbecomes⟩ | hnew := hfollow.known m hm
      · have hcons' := hbecomes.consumer.symm.trans hcons
        rw [hbecomes.id] at hwork
        rcases List.mem_append.1 ho with ho | ho
        · exact hidle o ho l hl hcons' hwork
        · obtain ⟨k, hk, hid, hal⟩ := hmove.worker hsound ho hwork
          obtain rfl := hsound.eq_of_id hl hk hid
          rw [(hq.ended k hk hcons').1] at hal
          cases hal
      · obtain ⟨l, hl, hcons'⟩ := hq.known
        exact absurd hcons' (hnew subscription hcons l hl)
  exact ⟨hend.1.unsubscribed hend.2.1.toConsistent, hend.2.2⟩

/-- The end of a subscription that returns at once has asked the loop to end, and no more. -/
theorem CallEffect.unsubscribing {v : Verdict α} (stage : c.stage = .unsubscribing subscription)
    (heffect : p.CallEffect c q v) (hv : v = .returned (.ok none)) :
    p.consumer = some (.subscriber subscription) ∧ ∃ a, q = p.retire a := by
  have hwait : c.stage.isWait = false := by rw [stage]; rfl
  cases heffect with
  | refused | collects | closes | reenters | clears => cases hv
  | late wait | unparks wait | starts wait | replaces wait => simp [hwait] at wait
  | @unsubscribes a s stage' consumer =>
    rw [stage] at stage'
    obtain rfl := CallStage.unsubscribing.inj stage'
    exact ⟨consumer, a, rfl⟩
  | closed stage' | leaves stage' | reports stage' | answered stage' | cleared stage' =>
    simp [stage] at stage'

/-- The end of a subscription that returns without an error leaves nothing of the subscription
behind if it has joined its loop, and the task of the loop was not discarded. -/
theorem unsubscribedForGood_iff (hp : p.Reachable) (hc : c ∈ p.calls)
    (handle : c.stage = .unsubscribing subscription ∨ ∃ i, c.stage = .joining i .leave ∧
      ∃ l ∈ p.loops, l.id = i ∧ l.consumer = .subscriber subscription)
    (ready : p.callReady c = true) {runtime : Bool}
    (returns : p.moveCall runtime c = (q, .returned (.ok none))) :
    (q.dropCall c.id).UnsubscribedForGood subscription ↔
      ∃ i l, c.stage = .joining i .leave ∧ p.loop? i = some l ∧ l.runs = true := by
  have h := hp.sound
  have heffect := callEffect_of_moveCall h hc returns
  rcases handle with hs | ⟨i, hs, l, hl, rfl, hcons⟩
  · obtain ⟨hconsumer, a, rfl⟩ := heffect.unsubscribing hs rfl
    constructor
    · exact fun hgone => absurd hconsumer hgone.1.consumer
    · rintro ⟨i, l, hs', -⟩
      simp [hs] at hs'
  · -- All that the call does is to take note of how the loop ended.
    have hq : q = p.absorb l.id := by
      simp only [moveCall, hs, afterJoin] at returns
      exact (Prod.mk.inj returns).1.symm
    rw [absorb_eq] at hq
    have hend : l.hasEnded = true := by
      rw [← h.hasEnded_of_mem hl]
      simpa [callReady, hs] using ready
    constructor
    · intro hgone
      refine ⟨l.id, l, hs, h.loop?_of_mem hl, ?_⟩
      -- A task that was discarded is still named by the life cycle.
      by_contra hruns
      obtain ⟨j, hj⟩ := h.stuck l hl (by simpa using hruns) subscription hcons
      subst hq
      exact hgone.1.current _ hj l hl rfl hcons
    · rintro ⟨i, k, hs', hk, hruns⟩
      rw [hs] at hs'
      obtain ⟨rfl, -⟩ := CallStage.joining.inj hs'
      rw [h.loop?_of_mem hl] at hk
      obtain rfl := Option.some.inj hk
      -- A subscription has one loop, and this one has ended.
      have hgone : p.Gone subscription := by
        refine ⟨⟨l, hl, hcons⟩, fun m hm hcons' => ?_⟩
        obtain rfl := h.eq_of_id hl hm (h.solo l hl m hm subscription hcons hcons')
        exact ⟨hend, hruns⟩
      have hloops : (q.dropCall c.id).loops = p.loops := by rw [hq]; rfl
      exact (hgone.follow (.of_eq hloops)).forGood (heffect.sound h hc ready).1.dropCall

/-- A subscription whose callback is in progress, and which somebody ends meanwhile. -/
def endedDuringCallback : List (Cue Nat) :=
  [.subscribe true "s" ⟨[], {}⟩ true none, .loop 1 .go, .loop 1 (.check false),
    .loop 1 (.beginPoll {} 0), .loop 1 (.endPoll (.ok (.payload 7)) 0), .loop 1 (.callBack 0),
    .call ⟨"u", true, .unsubscribing "s"⟩, .resume "u" true]

/-- The end of a subscription waits for the callback if it is the first to ask for it. -/
theorem unsubscribedForGood_first : ∃ (p q : Poller Nat) (c : Call Nat), p.Reachable ∧
    c ∈ p.calls ∧ c.stage = .joining 1 .leave ∧ p.callReady c = true ∧
      p.moveCall true c = (q, .returned (.ok none)) ∧
        (q.dropCall c.id).UnsubscribedForGood "s" := by
  have hrun : Run (idle "a" default) _ _ := run_of_perform?
    (endedDuringCallback ++ [.loop 1 .go, .loop 1 (.check false)]) rfl
  have hp : Reachable _ := ⟨_, _, _, hrun⟩
  refine ⟨_, _, _, hp, mem_of_call? "u" rfl, rfl, rfl, rfl, ?_⟩
  exact (unsubscribedForGood_iff hp (mem_of_call? "u" rfl)
    (.inr ⟨1, rfl, _, List.mem_singleton.2 rfl, rfl, rfl⟩) rfl
    (rfl : moveCall _ true _ = _)).2 ⟨1, _, rfl, rfl, rfl⟩

/-- The end of a subscription that is asked for twice returns to the second caller at once, with the
callback still in progress. -/
theorem unsubscribe_returns_during_callback : ¬ ∀ (p q : Poller Nat) (c : Call Nat),
    p.Reachable → c ∈ p.calls → c.stage = .unsubscribing "s" → p.callReady c = true →
      p.moveCall true c = (q, .returned (.ok none)) →
        (q.dropCall c.id).UnsubscribedForGood "s" := by
  intro h
  have hrun : Run (idle "a" default) _ _ := run_of_perform?
    (endedDuringCallback ++ [.call ⟨"v", true, .unsubscribing "s"⟩]) rfl
  have hgone := h _ _ _ ⟨_, _, _, hrun⟩ (mem_of_call? "v" rfl) rfl rfl rfl
  exact hgone.1.consumer rfl

end Poller

end Polling
