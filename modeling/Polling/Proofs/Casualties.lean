import Polling.Proofs.Fatality
import Polling.Proofs.Mortality
import Polling.Proofs.Succession

/-!
# Clearing up after a dead task

A wait whose loop is gone without an answer clears up after it.  Main statement: whatever has been
done to the poller and whichever tasks have died, the wait returns; it stops the poller if the life
cycle still names its loop, and leaves the life cycle to whom it belongs otherwise; it tells the
panic of the task if it is the one who joins it, else what nobody was told about, and nobody is told
of that panic again (`dead_task_cleared_up`).
-/

namespace Polling

variable {α : Type}

namespace Poller

variable {p q : Poller α} {l : Loop α} {c : Call α} {i : Nat} {f : Failure}
  {es tr : List (Occurrence α)}

theorem Run.mortal (hrun : Run p tr q) : p.MortalRun q := by
  induction hrun with
  | nil => exact .refl
  | snoc _ hmove ih => exact ih.tail (.moves hmove)

/-- What becomes of the life cycle when somebody clears up after a loop that is gone. -/
structure ClearsUp (p : Poller α) (i : Nat) (q : Poller α) : Prop where
  named : ∀ j, p.current = some ⟨i, j⟩ → q.phase = .stopped ∧ q.current = none ∧
    q.consumer = none ∧ q.stopRequested = true
  /-- The life cycle of another loop, or of none, is nobody's business. -/
  others : (∀ j, p.current ≠ some ⟨i, j⟩) → q.phase = p.phase ∧ q.current = p.current ∧
    q.consumer = p.consumer ∧ q.stopRequested = p.stopRequested

theorem ClearsUp.mono {r : Poller α} (h : p.ClearsUp i q) (phase : r.phase = q.phase)
    (current : r.current = q.current) (consumer : r.consumer = q.consumer)
    (stop : r.stopRequested = q.stopRequested) : p.ClearsUp i r := by
  refine ⟨fun j hj => ?_, fun hne => ?_⟩
  · rw [phase, current, consumer, stop]
    exact h.named j hj
  · rw [phase, current, consumer, stop]
    exact h.others hne

/-- Nobody can join a loop any more that somebody has cleared up after. -/
theorem ClearsUp.current_ne (h : p.ClearsUp i q) (j : Bool) : q.current ≠ some ⟨i, j⟩ := by
  by_cases hnamed : ∃ k, p.current = some ⟨i, k⟩
  · obtain ⟨k, hk⟩ := hnamed
    simp [(h.named k hk).2.1]
  · have hothers : ∀ k, p.current ≠ some ⟨i, k⟩ := fun k hk => hnamed ⟨k, hk⟩
    rw [(h.others hothers).2.1]
    exact hothers j

/-- A wait that clears up joins its loop if the life cycle offers that, and concludes if not. -/
theorem clearUp_cases (p : Poller α) (i : Nat) :
    p.current = some ⟨i, true⟩ ∧ p.clearUp i = (p.cleared, .goesOn (.joining i .conclude)) ∨
      ∃ r : Poller α, p.current ≠ some ⟨i, true⟩ ∧ p.ClearsUp i r ∧ r.failure = p.failure ∧
        r.calls = p.calls ∧ p.clearUp i = ({ r with failure := none }, .returned r.concluded) := by
  by_cases hnamed : ∃ j, p.current = some ⟨i, j⟩
  · obtain ⟨j, hj⟩ := hnamed
    cases j with
    | true => exact .inl ⟨hj, by simp only [clearUp, hj, if_true]; rfl⟩
    | false =>
      refine .inr ⟨p.cleared, by simp [hj], ⟨fun _ _ => ⟨rfl, rfl, rfl, rfl⟩, fun hne => ?_⟩, rfl,
        rfl, ?_⟩
      · exact absurd hj (hne false)
      · simp only [clearUp, hj, if_true, Bool.false_eq_true, if_false]
        exact conclude_returns p.cleared
  · have hne : ∀ j, p.current ≠ some ⟨i, j⟩ := fun j hj => hnamed ⟨j, hj⟩
    refine .inr ⟨p, hne true, ⟨fun j hj => absurd hj (hne j), fun _ => ⟨rfl, rfl, rfl, rfl⟩⟩, rfl,
      rfl, ?_⟩
    unfold clearUp
    split
    · next a ha =>
      rw [if_neg fun hi => hne a.joinable (by rw [ha, ← hi])]
      exact conclude_returns p
    · exact conclude_returns p

theorem clearsUp_cleared {j : Bool} (hj : p.current = some ⟨i, j⟩) : p.ClearsUp i p.cleared :=
  ⟨fun _ _ => ⟨rfl, rfl, rfl, rfl⟩, fun hne => absurd hj (hne j)⟩

theorem clearsUp_clearUp (p : Poller α) (i : Nat) : p.ClearsUp i (p.clearUp i).1 := by
  rcases p.clearUp_cases i with ⟨hfree, hclear⟩ | ⟨r, -, hclears, -, -, hclear⟩
  · rw [hclear]
    exact clearsUp_cleared hfree
  · rw [hclear]
    exact hclears.mono rfl rfl rfl rfl

/-- What a wait returns that has something to tell, or whose poller is stopped. -/
theorem concluded_eq (h : p.failure = none → p.stopRequested = true) :
    p.concluded = p.owed := by
  unfold concluded owed
  cases hf : p.failure with
  | some f => rfl
  | none => simp [h hf]

/-- What is told of a loop that a call has joined, or else of what nobody was told about. -/
def told (p : Poller α) (i : Nat) : CallResult α :=
  match (p.panicOf? i).or p.failure with
  | some f => .error (.failed f)
  | none => .ok none

theorem owed_absorb (p : Poller α) (i : Nat) : (p.absorb i).owed = p.told i := by
  rw [absorb_eq]
  rfl

/-- A wait that has joined its loop returns what is told of it. -/
theorem Accounted.moveCall_of_concluding (h : p.Accounted) (hc : c ∈ p.calls)
    (hs : c.stage = .joining i .conclude) (runtime : Bool) :
    p.moveCall runtime c = ({ p with failure := none }, .returned (p.told i)) := by
  have hstop : (p.absorb i).stopRequested = true := by
    rw [absorb_eq]
    exact h.stopped c hc i hs
  simp only [moveCall, hs, afterJoin]
  rw [conclude_returns, concluded_eq fun _ => hstop, owed_absorb, absorb_eq]

theorem call?_setCallStage {id : String} (hc : p.call? id = some c) (s : CallStage α) :
    (p.setCallStage id s).call? id = some { c with stage := s } := by
  have hid := (call?_eq_some hc).2
  simp only [call?, setCallStage, List.find?_map] at hc ⊢
  have hsame : ((fun c : Call α => decide (c.id = id)) ∘
      fun c => if c.id = id then { c with stage := s } else c) = fun c => decide (c.id = id) := by
    funext d
    dsimp only [Function.comp]
    split <;> rfl
  rw [hsame, hc, Option.map_some, if_pos hid]

/-- A failure becomes pending when a loop fails, or when a call notices that a task has panicked. -/
theorem Move.failure_arises (hmove : p.Move es q) (hf : q.failure = some f) :
    p.failure = some f ∨ .noticed f ∈ es ∨
      ∃ l ∈ p.loops, ∃ r, p.SameBooks r ∧ q = r.finish l (.failed f) := by
  have hcall : ∀ {c : Call α} {runtime v} {r : Poller α}, p.moveCall runtime c = (r, v) →
      r.failure = some f → p.failure = some f ∨ .noticed f ∈ p.noticing c := by
    intro c runtime v r hm hr
    -- All that a call does to the slot is to empty it, unless it has joined a loop.
    have habsorb : ∀ i s, c.stage = .joining i s → (p.absorb i).failure = some f →
        p.failure = some f ∨ .noticed f ∈ p.noticing c := by
      intro i s hs hf
      rw [absorb_eq] at hf
      rcases Option.or_eq_some_iff.1 hf with hpanic | ⟨-, hpending⟩
      · right
        simp [noticing, hs, hpanic]
      · exact .inl hpending
    rcases callEffect_or_settles hm with heffect | ⟨i, -, hclear⟩ | ⟨i, -, hconclude⟩
    · cases heffect with
      | collects | closed | cleared | reports => cases hr
      | reenters stage | leaves stage => exact habsorb _ _ stage hr
      | _ => exact .inl hr
    · rcases p.clearUp_cases i with ⟨-, hclear'⟩ | ⟨u, -, -, -, -, hclear'⟩
      · rw [hclear'] at hclear
        obtain ⟨rfl, -⟩ := Prod.mk.inj hclear
        exact .inl hr
      · rw [hclear'] at hclear
        obtain ⟨rfl, -⟩ := Prod.mk.inj hclear
        cases hr
    · rw [conclude_returns] at hconclude
      obtain ⟨rfl, -⟩ := Prod.mk.inj hconclude
      cases hr
  cases hmove with
  | @loop q l es mem move =>
    rcases move.outline with same | ⟨r, e, same, rfl⟩
    · exact .inl (same.failure ▸ hf)
    · rw [failure_finish] at hf
      unfold keeping at hf
      split at hf
      · obtain rfl := Option.some.inj hf
        exact .inr (.inr ⟨l, mem, r, same, rfl⟩)
      · exact .inl (same.failure ▸ hf)
  | proceed _ _ goes => exact (hcall goes hf).imp_right .inl
  | finish _ _ goes => exact (hcall goes hf).imp_right fun h => .inl (List.mem_append_left _ h)
  | @subscribe runtime subscription script runs releasePanic =>
    have heffect := subscribeEffect p runtime subscription script runs releasePanic
    generalize (p.subscribe runtime subscription script runs releasePanic).1 = q at heffect hf
    generalize (p.subscribe runtime subscription script runs releasePanic).2 = r at heffect
    cases heffect with
    | collects => cases hf
    | refused | starts => exact .inl hf
  | _ => exact .inl hf

/-- A loop notices nothing of another one. -/
theorem LoopMove.not_noticed (hmove : p.LoopMove l es q) : .noticed f ∉ es := by
  have hfailing : ∀ g, .noticed f ∉ p.failing l g := by
    intro g ho
    rcases mem_failing ho with ⟨g', hg⟩ | ⟨listener, hg⟩ <;> cases hg
  intro ho
  cases hmove with
  | @endsPoll _ _ r => cases r <;> simp [polling, hfailing] at ho
  | beginsCallback =>
    unfold invoking at ho
    split at ho <;> simp [hfailing] at ho
  | @endsCallback handling =>
    cases hout : handling.outcome <;> simp [hout, Poller.handling, hfailing] at ho
  | beginsPoll => simp at ho
  | _ => cases ho

/-- Who notices that a task has panicked has joined it. -/
theorem Move.joined_of_noticed (hmove : p.Move es q) (ho : .noticed f ∈ es) :
    ∃ d ∈ p.calls, ∃ k s, d.stage = .joining k s ∧ p.panicOf? k = some f := by
  cases hmove with
  | @proceed q c runtime s mem =>
    obtain ⟨k, t, hs, hpanic⟩ := of_noticed_mem ho
    exact ⟨c, mem, k, t, hs, hpanic⟩
  | @finish q c runtime r mem =>
    rcases List.mem_append.1 ho with ho | ho
    · obtain ⟨k, t, hs, hpanic⟩ := of_noticed_mem ho
      exact ⟨c, mem, k, t, hs, hpanic⟩
    · rcases c.returning_eq r with hr | hr <;> simp [hr] at ho
  | loop _ move => exact absurd ho move.not_noticed
  | @subscribe runtime subscription script runs releasePanic =>
    cases hr : (p.subscribe runtime subscription script runs releasePanic).2 <;>
      simp [hr, subscribing] at ho
  | _ => simp at ho

/-- What a wait returns that has cleared up after its loop, and left the poller as `q`. -/
structure Concludes (p : Poller α) (i : Nat) (q : Poller α) (r : CallResult α) : Prop where
  /-- The wait has joined a task that had panicked. -/
  panicked : ∀ f, p.current = some ⟨i, true⟩ → p.panicOf? i = some f → r = .error (.failed f)
  pending : ∀ f, (p.current = some ⟨i, true⟩ → p.panicOf? i = none) → p.failure = some f →
    r = .error (.failed f)
  nothing : (p.current = some ⟨i, true⟩ → p.panicOf? i = none) → p.failure = none →
    q.stopRequested = true → r = .ok none
  /-- The failure has been told. -/
  told : q.failure = none

theorem concludes_told (hfree : p.current = some ⟨i, true⟩) (hq : q.failure = none) :
    p.Concludes i q (p.told i) := by
  refine ⟨fun f _ hpanic => ?_, fun f hnone hf => ?_, fun hnone hf _ => ?_, hq⟩
  · simp [told, hpanic]
  · simp [told, hnone hfree, hf]
  · simp [told, hnone hfree, hf]

theorem concludes_concluded {r : Poller α} (hfree : p.current ≠ some ⟨i, true⟩)
    (hr : r.failure = p.failure) (hq : q.failure = none)
    (hstop : q.stopRequested = r.stopRequested) : p.Concludes i q r.concluded := by
  refine ⟨fun f hcur => absurd hcur hfree, fun f _ hf => ?_, fun _ hf hs => ?_, hq⟩
  · simp [concluded, hr, hf]
  · simp [concluded, hr, hf, hstop ▸ hs]

/-- A wait whose loop is gone without an answer returns, in one or two moves. -/
theorem Accounted.runCall_of_gone (h : p.Accounted) (hc : c ∈ p.calls)
    (hs : c.stage = .receiving i none) (gone : p.hasEnded i = true) (runtime : Bool) :
    ∃ q r, p.runCall runtime c.id callMoves = (q, some r) ∧ p.MortalRun q ∧ p.ClearsUp i q ∧
      p.Concludes i q r ∧ ∀ d ∈ q.calls, d ∈ p.calls ∧ d.id ≠ c.id := by
  have hcall := h.call?_of_mem hc
  have ready : p.callReady c = true := by simpa only [callReady, hs] using gone
  have hmove : p.moveCall runtime c = p.clearUp i := by simp only [moveCall, hs]
  rcases p.clearUp_cases i with ⟨hfree, hclear⟩ | ⟨u, hfree, hclears, hfailure, hcalls, hclear⟩
  · -- The wait joins the task, which has ended already, and so it goes on at once.
    let u : Poller α := p.cleared.setCallStage c.id (.joining i .conclude)
    let d : Call α := { c with stage := .joining i .conclude }
    have hstep : p.MortalMove u := .moves (.proceed hc ready (hmove.trans hclear))
    have hu : u.Accounted := h.proceed (h.mortalMove hstep)
    have hd : u.call? c.id = some d := call?_setCallStage (p := p.cleared) hcall _
    have hmem : d ∈ u.calls := (call?_eq_some hd).1
    have hready : u.callReady d = true := gone
    have hconclude := hu.moveCall_of_concluding hmem rfl runtime
    refine ⟨dropCall { u with failure := none } c.id, p.told i, ?_, ?_, ?_, ?_, fun e he => ?_⟩
    · rw [callMoves, runCall_of_goesOn hcall ready (hmove.trans hclear) (by simp) 7]
      exact runCall_of_returned hd hready hconclude 6
    · exact .tail (.single hstep) (.moves (Move.finish (c := d) hmem hready hconclude))
    · exact (clearsUp_cleared hfree).mono rfl rfl rfl rfl
    · exact concludes_told hfree rfl
    · obtain ⟨he, hne⟩ := List.mem_filter.1 he
      obtain ⟨e', he', rfl⟩ := List.mem_map.1 he
      by_cases hid : e'.id = c.id
      · simp [hid] at hne
      · rw [if_neg hid]
        exact ⟨he', hid⟩
  · refine ⟨dropCall { u with failure := none } c.id, u.concluded, ?_, ?_, ?_, ?_, fun e he => ?_⟩
    · exact runCall_of_returned hcall ready (hmove.trans hclear) 7
    · exact .single (.moves (.finish hc ready (hmove.trans hclear)))
    · exact hclears.mono rfl rfl rfl rfl
    · exact concludes_concluded hfree hfailure rfl rfl
    · obtain ⟨he, hne⟩ := List.mem_filter.1 he
      exact ⟨hcalls ▸ he, by simpa using hne⟩

/-- A wait whose loop is gone without an answer, whatever else has died, clears up and returns.  If
the life cycle names its loop the poller is stopped for good, otherwise the life cycle stays as it
is.  The wait tells the panic of the task if it is the one to join it, else a failure that is
pending, and nothing if there is none and the poller is stopped.  Once a task is joined nobody else
joins it, so a panic is not told again: whoever notices one later has joined another task, or had
taken the right to join this one before.  Other moves may come between its clearing up and its
return.  Loops are numbered in the order of their start, and one that ends leaves the life cycle of
another one alone. -/
theorem dead_task_cleared_up {name : String} {pacing : Pacing}
    (hp : (idle name pacing).MortalRun p) (hc : c ∈ p.calls) (hs : c.stage = .receiving i none)
    (gone : p.hasEnded i = true) (runtime : Bool) :
    p.ClearsUp i (p.moveCall runtime c).1 ∧
      (∃ q r, p.runCall runtime c.id callMoves = (q, some r) ∧ p.MortalRun q ∧ p.ClearsUp i q ∧
        p.Concludes i q r ∧
        ∀ t, q.MortalRun t →
          (∀ d ∈ t.calls, ∀ s, d.stage = .joining i s →
            d ∈ p.calls ∧ d.id ≠ c.id ∧ p.current ≠ some ⟨i, true⟩) ∧
          ∀ es u f, t.Move es u →
            (.noticed f ∈ es → ∃ d ∈ t.calls, ∃ k s, d.stage = .joining k s ∧
              t.panicOf? k = some f ∧ (p.current = some ⟨i, true⟩ → k ≠ i)) ∧
            (u.failure = some f → t.failure = some f ∨ .noticed f ∈ es ∨
              ∃ l ∈ t.loops, ∃ v, t.SameBooks v ∧ u = v.finish l (.failed f))) ∧
      (∀ t, p.MortalRun t → ∀ d ∈ t.calls, d.stage = .joining i .conclude →
        t.moveCall runtime d = ({ t with failure := none }, .returned (t.told i))) ∧
      (∀ t, p.MortalRun t → t.loops.map Loop.id = List.range' 1 t.started ∧
        p.started ≤ t.started) ∧
      ∀ (t : Poller α) (l : Loop α) (e : Ending α), (∀ j, t.current ≠ some ⟨l.id, j⟩) →
        (t.finish l e).phase = t.phase ∧ (t.finish l e).current = t.current ∧
          (t.finish l e).consumer = t.consumer := by
  have h : p.Accounted := (accounted_idle name pacing).mortalRun hp
  refine ⟨?_, ?_, fun t ht d hd hs => (h.mortalRun ht).moveCall_of_concluding hd hs runtime,
    fun t ht => ⟨(h.mortalRun ht).ids, h.started_le ht⟩, lifeCycle_finish_of_ne⟩
  · simpa only [moveCall, hs] using p.clearsUp_clearUp i
  · obtain ⟨q, r, hreturns, hq, hclears, hconcludes, hcalls⟩ := h.runCall_of_gone hc hs gone runtime
    refine ⟨q, r, hreturns, hq, hclears, hconcludes, fun t ht => ?_⟩
    -- Nobody can come to join the loop any more.
    have htaken : q.Taken i :=
      ⟨Nat.le_trans (h.awaited c hc i none hs) (h.started_le hq), hclears.current_ne true⟩
    have hjoiners : ∀ d ∈ t.calls, ∀ s, d.stage = .joining i s →
        d ∈ p.calls ∧ d.id ≠ c.id ∧ p.current ≠ some ⟨i, true⟩ := by
      intro d hd s hs
      have hmem := ((h.mortalRun hq).taken_of_run htaken ht).2 d hd s hs
      obtain ⟨hold, hne⟩ := hcalls d hmem
      exact ⟨hold, hne, (h.joined d hold i s hs).2⟩
    refine ⟨hjoiners, fun es u f hmove => ⟨fun ho => ?_, hmove.failure_arises⟩⟩
    obtain ⟨d, hd, k, s, hjoins, hpanic⟩ := hmove.joined_of_noticed ho
    exact ⟨d, hd, k, s, hjoins, hpanic, fun hfree hk =>
      (hjoiners d hd s (hk ▸ hjoins)).2.2 hfree⟩

/-- A wait that polls. -/
def polls : List (Cue Nat) :=
  [.call ⟨"w", true, .entering⟩, .resume "w" true, .loop 1 .go, .loop 1 (.check false),
    .loop 1 (.beginPoll {} 0)]

/-- A task that panics in the midst of its poll. -/
theorem dead_task_cleared_up_panic : ∃ (p q : Poller Nat) (c : Call Nat),
    (idle "a" default).MortalRun p ∧ c ∈ p.calls ∧ c.stage = .receiving 1 none ∧
      p.hasEnded 1 = true ∧
      p.runCall true c.id callMoves = (q, some (.error (.failed (.pollPanic "boom")))) ∧
      q.phase = .stopped ∧ q.current = none ∧ q.consumer = none ∧ q.stopRequested = true ∧
      q.failure = none := by
  have hrun : Run (idle "a" default) [.called "w" .entering, .pollBegan 1] _ :=
    run_of_perform? polls rfl
  have hdead := hrun.mortal.tail
    (.dies (List.mem_singleton.2 rfl) (.early (.panicked "boom") rfl))
  obtain ⟨-, ⟨q, r, hreturns, -, hclears, hconcludes, -⟩, -⟩ :=
    dead_task_cleared_up hdead (List.mem_singleton.2 rfl) rfl rfl true
  obtain rfl := hconcludes.panicked (.pollPanic "boom") rfl rfl
  obtain ⟨hphase, hcurrent, hconsumer, hstop⟩ := hclears.named true rfl
  exact ⟨_, q, _, hdead, List.mem_singleton.2 rfl, rfl, rfl, hreturns, hphase, hcurrent, hconsumer,
    hstop, hconcludes.told⟩

end Poller

end Polling
