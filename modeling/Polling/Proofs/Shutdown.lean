import Polling.Proofs.Cues
import Polling.Proofs.LoopHistory

/-!
# What a shutdown leaves behind

A poller without a loop that has stopped never has a loop again, so nothing is polled, handed over
or failed any more.  All that may still happen to it is that a call which had joined a loop finds
that its task panicked.  `Poller.Unalarmed` excludes that too, and `Finished.run` shows that it
stays excluded.

A shutdown that joins the loop itself therefore really waits.  One that finds the loop already
joined by somebody else does not: it returns while the loop goes on.
-/

namespace Polling

variable {α : Type}

/-- The failure that is recorded. -/
def Occurrence.arisen : Occurrence α → List Failure
  | failed _ f _ | noticed f => [f]
  | _ => []

namespace Poller

variable {p q : Poller α} {l : Loop α} {c : Call α}

/-- The poller has stopped and all its loops have ended. -/
structure AtEnd (p : Poller α) : Prop where
  ended : ∀ l ∈ p.loops, l.hasEnded = true
  stopped : p.phase = .stopped

/-- The poller has stopped, and no loop polls, runs the callback or fails ever again. -/
def OverForGood (p : Poller α) : Prop :=
  p.AtEnd ∧ ∀ tr q, Run p tr q → q.AtEnd ∧ ∀ o ∈ tr, o.workOf? = none ∧ o.arisen = []

/-- The poller has stopped without a loop. -/
structure Finished (p : Poller α) : Prop where
  vacant : p.current = none
  stopped : p.phase = .stopped

/-- No call is about to find that the task of a loop has panicked. -/
def Unalarmed (p : Poller α) : Prop :=
  ∀ c ∈ p.calls, ∀ i s, c.stage = .joining i s → p.panicOf? i = none

theorem Finished.atEnd (h : p.Finished) (hp : p.Consistent) : p.AtEnd where
  ended _ hl := hp.hasEnded_of_current h.vacant hl
  stopped := h.stopped

theorem panicOf?_congr (loops : q.loops = p.loops) (i : Nat) : q.panicOf? i = p.panicOf? i := by
  simp only [panicOf?, loop?, loops]

theorem noticing_eq_nil (h : ∀ i s, c.stage = .joining i s → p.panicOf? i = none) :
    p.noticing c = [] := by
  unfold noticing
  split
  · next i s hs => rw [h i s hs]
  · rfl

/-- A call finds a finished poller as it is, and does not wait for anything again. -/
theorem CallEffect.finished {v : Verdict α} (h : p.Finished) (heffect : p.CallEffect c q v) :
    q.Finished ∧ q.loops = p.loops ∧ q.calls = p.calls ∧ ∀ s, v = .goesOn s → s = .entering := by
  -- No call finds a loop, and none can start one.
  have hnone : ∀ a, p.current ≠ some a := by simp [h.vacant]
  have hidle : p.phase ≠ .idle := by simp [h.stopped]
  cases heffect with
  | refused | late | answered => exact ⟨h, rfl, rfl, by simp⟩
  | collects => exact ⟨⟨h.vacant, h.stopped⟩, rfl, rfl, by simp⟩
  | unparks _ hphase | starts _ hphase => exact absurd hphase hidle
  | replaces _ ha | unsubscribes _ _ ha | closes _ ha | clears _ ha | cleared _ ha =>
    exact absurd ha (hnone _)
  | closed =>
    refine ⟨⟨h.vacant, ?_⟩, rfl, rfl, by simp⟩
    simp [stop, h.stopped, Phase.afterStop]
  | reenters =>
    rw [absorb_eq]
    refine ⟨⟨h.vacant, h.stopped⟩, rfl, rfl, fun s hs => ?_⟩
    exact (Verdict.goesOn.inj hs).symm
  | leaves | reports =>
    rw [absorb_eq]
    exact ⟨⟨h.vacant, h.stopped⟩, rfl, rfl, by simp⟩

/-- A finished poller refuses every subscription. -/
theorem SubscribeEffect.finished {subscription : String} {r : Except Error Unit} (h : p.Finished)
    (heffect : p.SubscribeEffect subscription q r) :
    q.Finished ∧ q.loops = p.loops ∧ q.calls = p.calls ∧ ∃ e, r = .error e := by
  cases heffect with
  | refused => exact ⟨h, rfl, rfl, _, rfl⟩
  | collects => exact ⟨⟨h.vacant, h.stopped⟩, rfl, rfl, _, rfl⟩
  | starts hphase => simp [h.stopped] at hphase

/-- No loop of a finished poller moves. -/
theorem Finished.not_loopMove (h : p.Finished) (hp : p.Consistent) (hl : l ∈ p.loops) {es} :
    ¬p.LoopMove l es q := by
  intro hmove
  have hend := (h.atEnd hp).ended l hl
  rw [hmove.alive] at hend
  cases hend

/-- No task of a finished poller is there to be discarded. -/
theorem Finished.awaits_eq_false (h : p.Finished) (hp : p.Consistent) (hl : l ∈ p.loops) :
    l.stage.awaits = false := by
  by_contra hwaits
  have hend := (h.atEnd hp).ended l hl
  rw [Stage.alive_of_awaits (by simpa using hwaits)] at hend
  cases hend

theorem Unalarmed.mono (h : p.Unalarmed) (loops : q.loops = p.loops)
    (calls : ∀ d ∈ q.calls, d ∈ p.calls ∨ ∀ i s, d.stage ≠ .joining i s) : q.Unalarmed := by
  intro d hd i s hs
  rw [panicOf?_congr loops]
  rcases calls d hd with hmem | hnot
  · exact h d hmem i s hs
  · exact absurd hs (hnot i s)

/-- Nothing happens in a finished poller but calls, and their answers. -/
theorem Finished.move (hf : p.Finished) (h : p.Sound) {es} (hmove : p.Move es q) :
    q.Finished ∧ q.loops = p.loops ∧
      (∀ o ∈ es, o.workOf? = none ∧ ∀ i f listener, o ≠ .failed i f listener) ∧
      (p.Unalarmed → q.Unalarmed ∧ ∀ o ∈ es, o.arisen = []) := by
  have still : ∀ o ∈ es, o.workOf? = none ∧ ∀ i f listener, o ≠ .failed i f listener := by
    rcases hmove.loop_or_still with ⟨l, hl, move⟩ | still
    · exact absurd move (hf.not_loopMove h.toConsistent hl)
    · exact still
  cases hmove with
  | loop mem move => exact absurd move (hf.not_loopMove h.toConsistent mem)
  | @proceed q c runtime s mem ready goes =>
    obtain ⟨hq, hloops, hcalls, hentering⟩ := (callEffect_of_moveCall h mem goes).finished hf
    -- A wait that goes on looks at the life cycle again, and joins nothing.
    obtain rfl := hentering s rfl
    refine ⟨⟨hq.vacant, hq.stopped⟩, hloops, still, fun hcalm => ?_⟩
    refine ⟨hcalm.mono hloops fun d hd => ?_, ?_⟩
    · obtain ⟨d', hd', rfl⟩ := List.mem_map.1 hd
      split
      · exact .inr (by simp)
      · exact .inl (hcalls ▸ hd')
    · rw [noticing_eq_nil (hcalm c mem)]
      exact (by simp)
  | @finish q c runtime r mem ready goes =>
    obtain ⟨hq, hloops, hcalls, -⟩ := (callEffect_of_moveCall h mem goes).finished hf
    refine ⟨⟨hq.vacant, hq.stopped⟩, hloops, still, fun hcalm => ⟨?_, fun o ho => ?_⟩⟩
    · exact hcalm.mono hloops fun d hd => .inl (hcalls ▸ (List.mem_filter.1 hd).1)
    · rw [noticing_eq_nil (hcalm c mem)] at ho
      obtain rfl := List.mem_singleton.1 ho
      rcases c.returning_eq r with hr | hr <;> rw [hr] <;> rfl
  | @call c first =>
    refine ⟨⟨hf.vacant, hf.stopped⟩, rfl, still, fun hcalm => ⟨?_, ?_⟩⟩
    · refine hcalm.mono rfl fun d hd => ?_
      rcases List.mem_append.1 hd with hd | hd
      · exact .inl hd
      · obtain rfl := List.mem_singleton.1 hd
        refine .inr fun i s hs => ?_
        simp [hs, CallStage.isFirst] at first
    · simp [Occurrence.arisen]
  | drop =>
    refine ⟨⟨hf.vacant, hf.stopped⟩, rfl, still, fun hcalm => ⟨?_, ?_⟩⟩
    · exact hcalm.mono rfl fun d hd => .inl (List.mem_filter.1 hd).1
    · simp [Occurrence.arisen]
  | @subscribe runtime subscription script runs releasePanic =>
    obtain ⟨hq, hloops, hcalls, e, he⟩ :=
      (subscribeEffect p runtime subscription script runs releasePanic).finished hf
    refine ⟨hq, hloops, still, fun hcalm => ⟨?_, ?_⟩⟩
    · exact hcalm.mono hloops fun d hd => .inl (hcalls ▸ hd)
    · simp [he, subscribing, Occurrence.arisen]
  | stop =>
    refine ⟨⟨hf.vacant, ?_⟩, rfl, still, fun hcalm => ⟨hcalm, by simp⟩⟩
    simp [Poller.stop, hf.stopped, Phase.afterStop]
  | release => exact ⟨⟨hf.vacant, hf.stopped⟩, rfl, still, fun hcalm => ⟨hcalm, by simp⟩⟩
  | discard mem waits => simp [hf.awaits_eq_false h.toConsistent mem] at waits

/-- A finished poller stays finished. -/
theorem Finished.run (hf : p.Finished) (h : p.Sound) {tr} (hrun : Run p tr q) :
    q.Finished ∧ (∀ o ∈ tr, o.workOf? = none ∧ ∀ i f listener, o ≠ .failed i f listener) ∧
      (p.Unalarmed → q.Unalarmed ∧ ∀ o ∈ tr, o.arisen = []) := by
  induction hrun with
  | nil => exact ⟨hf, by simp, fun hcalm => ⟨hcalm, by simp⟩⟩
  | @snoc q r tr es hrun hmove ih =>
    have hq : q.Sound := h.run hrun
    obtain ⟨hqf, hstill, hcalm⟩ := ih
    obtain ⟨hrf, -, hstill', hcalm'⟩ := hqf.move hq hmove
    refine ⟨hrf, fun o ho => ?_, fun hp => ⟨(hcalm' (hcalm hp).1).1, fun o ho => ?_⟩⟩
    · exact (List.mem_append.1 ho).elim (hstill o) (hstill' o)
    · exact (List.mem_append.1 ho).elim ((hcalm hp).2 o) ((hcalm' (hcalm hp).1).2 o)

/-- It is over for good with a finished poller, unless a call is about to find a panic. -/
theorem overForGood_iff (h : p.Sound) : p.OverForGood ↔ p.Finished ∧ p.Unalarmed := by
  constructor
  · rintro ⟨hend, hrest⟩
    -- A poller with a loop would be running or stopping.
    have hvacant : p.current = none := by
      by_contra hne
      rcases h.engaged hne with hphase | hphase
      · simp [hend.stopped] at hphase
      · simp [hend.stopped] at hphase
    refine ⟨⟨hvacant, hend.stopped⟩, fun c hc i s hs => ?_⟩
    -- Otherwise the next move of this call would take note of the panic.
    by_contra hpanic
    obtain ⟨f, hf⟩ := Option.ne_none_iff_exists'.1 hpanic
    have hmem : Occurrence.noticed f ∈ p.noticing c := by simp [noticing, hs, hf]
    have hready : p.callReady c = true := by
      obtain ⟨l, hl, hid, -⟩ := ((h.fits c hc).joining i s hs).loop
      simp only [callReady, hs, ← hid, h.hasEnded_of_mem hl, hend.ended l hl]
    cases hm : p.moveCall true c with
    | mk q v =>
      cases v with
      | goesOn t => cases ((hrest _ _ (.single (.proceed hc hready hm))).2 _ hmem).2
      | returned r =>
        have hmem' := List.mem_append_left [c.returning r] hmem
        cases ((hrest _ _ (.single (.finish hc hready hm))).2 _ hmem').2
  · rintro ⟨hf, hcalm⟩
    refine ⟨hf.atEnd h.toConsistent, fun tr q hrun => ?_⟩
    obtain ⟨hqf, hstill, hquiet⟩ := hf.run h hrun
    have hq : q.Sound := h.run hrun
    exact ⟨hqf.atEnd hq.toConsistent, fun o ho => ⟨(hstill o ho).1, (hquiet hcalm).2 o ho⟩⟩

/-- A shutdown that returns has changed no loop and no call, and has stopped a poller without a
loop. -/
theorem CallEffect.shutdown {r : CallResult α} (h : p.Sound) (hc : c ∈ p.calls)
    (shutdown : c.stage = .closing ∨ ∃ i, c.stage = .joining i .close)
    (heffect : p.CallEffect c q (.returned r)) :
    q.current = p.current ∧ q.loops = p.loops ∧ q.calls = p.calls ∧
      (p.current = none → q.phase = .stopped) := by
  -- A shutdown is neither screened nor waiting for an answer, which leaves two cases.
  generalize hv : Verdict.returned r = v at heffect
  have hnot : c.stage.isScreened = false ∧ ∀ i r, c.stage ≠ .receiving i r := by
    rcases shutdown with hs | ⟨i, hs⟩ <;> simp [hs, CallStage.isScreened]
  cases heffect with
  | refused screened | collects screened => simp [hnot.1] at screened
  | late wait | unparks wait | starts wait | replaces wait =>
    have screened := isScreened_of_isWait wait
    simp [hnot.1] at screened
  | unsubscribes stage => rcases shutdown with hs | ⟨i, hs⟩ <;> simp [stage] at hs
  | closes | reenters | clears => cases hv
  | closed =>
    refine ⟨rfl, rfl, rfl, fun hnone => ?_⟩
    rcases (h.detached hnone).2 with hphase | hphase
    · simp [stop, hphase, Phase.afterStop]
    · simp [stop, hphase, Phase.afterStop]
  | leaves stage => rcases shutdown with hs | ⟨i, hs⟩ <;> simp [stage] at hs
  | @reports i s stage =>
    obtain rfl : s = .close := by
      rcases shutdown with hs | ⟨j, hs⟩ <;> simp_all
    rw [absorb_eq]
    refine ⟨rfl, rfl, rfl, fun hnone => ?_⟩
    have hclosed := h.disposed (((h.fits c hc).joining i _ stage).close rfl).1
    exact hclosed.resolve_left fun hphase => by simpa [hphase] using (h.detached hnone).2
  | answered stage | cleared stage => exact absurd stage (hnot.2 _ _)

/-- A shutdown that returns leaves a poller behind with which it is over for good if the poller had
no loop any more, and no other call is about to find that the task of a loop has panicked.  The
former is so if the shutdown joined the loop itself, unless the task of the loop was discarded. -/
theorem overForGood_of_shutdown_iff (hp : p.Reachable) (hc : c ∈ p.calls)
    (shutdown : c.stage = .closing ∨ ∃ i, c.stage = .joining i .close)
    (ready : p.callReady c = true) {runtime : Bool} {r : CallResult α}
    (returns : p.moveCall runtime c = (q, .returned r)) :
    ((q.dropCall c.id).OverForGood ↔ p.current = none ∧
        ∀ d ∈ p.calls, d.id ≠ c.id → ∀ i s, d.stage = .joining i s → p.panicOf? i = none) ∧
      ∀ i l, c.stage = .joining i .close → p.loop? i = some l → l.runs = true →
        p.current = none := by
  have h := hp.sound
  have heffect := callEffect_of_moveCall h hc returns
  constructor
  · obtain ⟨hcurrent, hloops, hcalls, hstopped⟩ := heffect.shutdown h hc shutdown
    have hcalm : (q.dropCall c.id).Unalarmed ↔
        ∀ d ∈ p.calls, d.id ≠ c.id → ∀ i s, d.stage = .joining i s → p.panicOf? i = none := by
      simp only [Unalarmed, Poller.dropCall, hcalls, List.mem_filter, decide_eq_true_eq, and_imp,
        ← panicOf?_congr hloops]
      rfl
    rw [overForGood_iff (heffect.sound h hc ready).1.dropCall, hcalm, ← hcurrent]
    exact and_congr_left' ⟨fun hf => hf.vacant, fun hnone => ⟨hnone, hstopped (hcurrent ▸ hnone)⟩⟩
  · intro i l hs hl hruns
    by_contra hne
    obtain ⟨a, ha⟩ := Option.ne_none_iff_exists'.1 hne
    obtain ⟨k, hk, hid, -, hgone⟩ := h.attached a ha
    -- The loop that is still named is the one that was joined, and it has ended without
    -- leaving the life cycle: only a discarded task does that.
    have hai := (((h.fits c hc).joining i _ hs).close rfl).2 a ha
    have hki : k.id = i := by rw [hid, hai]
    have hend : k.hasEnded = true := by
      rw [← h.hasEnded_of_mem hk, hki]
      simpa [callReady, hs] using ready
    have hkl := h.loop?_of_mem hk
    rw [hki, hl] at hkl
    obtain rfl := Option.some.inj hkl
    rw [hgone hend] at hruns
    cases hruns

/-- A wait starts a loop, and is shut down during its poll. -/
def shutDuringPoll : List (Cue Nat) :=
  [.call ⟨"w", true, .entering⟩, .resume "w" true, .loop 1 .go, .loop 1 (.check false),
    .loop 1 (.beginPoll {} 0), .call ⟨"x", true, .closing⟩, .resume "x" true]

/-- A shutdown that is the only one waits for the poll. -/
theorem overForGood_of_shutdown_alone : ∃ (p q : Poller Nat) (c : Call Nat) (r : CallResult Nat),
    p.Reachable ∧ c ∈ p.calls ∧ c.stage = .joining 1 .close ∧ p.callReady c = true ∧
      p.moveCall true c = (q, .returned r) ∧ (q.dropCall c.id).OverForGood := by
  have hrun : Run (idle "a" default) _ _ := run_of_perform?
    (shutDuringPoll ++ [.loop 1 (.endPoll (.ok (.payload 7)) 0), .resume "w" true]) rfl
  have hp : Reachable _ := ⟨_, _, _, hrun⟩
  refine ⟨_, _, _, .ok none, hp, mem_of_call? "x" rfl, rfl, rfl, rfl, ?_⟩
  refine (overForGood_of_shutdown_iff hp (mem_of_call? "x" rfl) (.inr ⟨1, rfl⟩) rfl
    (rfl : moveCall _ true _ = _)).1.2 ⟨rfl, ?_⟩
  intro d hd hne
  rw [List.mem_singleton.1 hd] at hne
  exact absurd rfl hne

/-- A shutdown that comes second returns at once, with the poll still in progress. -/
theorem shutdown_returns_during_poll : ¬ ∀ (p q : Poller Nat) (c : Call Nat) (r : CallResult Nat),
    p.Reachable → c ∈ p.calls → (c.stage = .closing ∨ ∃ i, c.stage = .joining i .close) →
      p.callReady c = true → p.moveCall true c = (q, .returned r) →
        (q.dropCall c.id).OverForGood := by
  intro h
  have hrun : Run (idle "a" default) _ _ :=
    run_of_perform? (shutDuringPoll ++ [.call ⟨"y", true, .closing⟩]) rfl
  have hover := h _ _ _ (.ok none) ⟨_, _, _, hrun⟩ (mem_of_call? "y" rfl) (.inl rfl) rfl rfl
  cases hover.1.stopped

end Poller

end Polling
