import Polling.Proofs.Failures

/-!
# Fatal errors

Whoever is told of a failure should find the poller stopped for good.  That is so for every failure
of a loop, which stops the poller before anybody can be told of it.  It is not so for the panic of a
task that comes after the loop has recorded its end: a call that has joined the task finds the panic
and makes it the pending failure, but does not stop the poller (`Move.noticed`).

No failure comes about in any other way: what is owed or reported after a move was owed before, or
it arose in this move (`Move.failure_of`), which is read off the ledger of failures.
-/

namespace Polling

variable {α : Type}

namespace Poller

variable {p q r : Poller α} {c : Call α} {f : Failure} {es tr ts : List (Occurrence α)}

/-- The poller has stopped, and no loop polls or runs the callback ever again. -/
def StoppedForGood (p : Poller α) : Prop :=
  p.stopRequested = true ∧
    ∀ tr q, Run p tr q → q.phase = .stopped ∧ ∀ o ∈ tr, o.workOf? = none

/-- Whether a poller has a failure that somebody is to be told of, or somebody has just been
told. -/
def Tells (q : Poller α) (f : Failure) (es : List (Occurrence α)) : Prop :=
  q.failure = some f ∨ ∃ o ∈ es, o.reported = [f]

/-- Whether some call of a run has found that a task which it joined panicked with `f`, and the
poller had not stopped. -/
def Startled (p : Poller α) (tr : List (Occurrence α)) (q : Poller α) (f : Failure) : Prop :=
  ∃ before es after r s, tr = before ++ es ++ after ∧ Run p before r ∧ r.Move es s ∧
    Run s after q ∧ .noticed f ∈ es ∧ r.phase ≠ .stopped

theorem Startled.append (h : p.Startled tr q f) (hrun : Run q ts r) :
    p.Startled (tr ++ ts) r f := by
  obtain ⟨before, es, after, s, t, rfl, hbefore, hmove, hafter, hnoticed, hphase⟩ := h
  exact ⟨before, es, after ++ ts, s, t, by simp, hbefore, hmove, hafter.append hrun, hnoticed,
    hphase⟩

theorem Startled.mem (h : p.Startled tr q f) : .noticed f ∈ tr := by
  obtain ⟨before, es, after, -, -, rfl, -, -, -, hnoticed, -⟩ := h
  exact List.mem_append_left _ (List.mem_append_right _ hnoticed)

/-- A poller that has stopped has no loop. -/
theorem Consistent.finished_iff (h : p.Consistent) : p.Finished ↔ p.phase = .stopped := by
  refine ⟨fun hf => hf.stopped, fun hphase => ⟨?_, hphase⟩⟩
  by_contra hne
  simpa [hphase] using h.engaged hne

theorem Finished.stoppedForGood (hf : p.Finished) (h : p.Sound) : p.StoppedForGood := by
  refine ⟨h.halted (.inr hf.stopped), fun tr q hrun => ?_⟩
  obtain ⟨hq, hstill, -⟩ := hf.run h hrun
  exact ⟨hq.stopped, fun o ho => (hstill o ho).1⟩

/-- A failure that is reported stands for itself in the ledger. -/
theorem mem_flatMap_reported {o : Occurrence α} (ho : o ∈ es) (hf : o.reported = [f]) :
    f ∈ es.flatMap Occurrence.reported :=
  List.mem_flatMap.2 ⟨o, ho, by simp [hf]⟩

theorem Tells.mem (h : q.Tells f es) :
    f ∈ ((es.flatMap Occurrence.reported : List Failure) : Multiset Failure) + q.owing := by
  rcases h with hf | ⟨o, ho, hf⟩
  · exact Multiset.mem_add.2 (.inr (by simp [owing, hf]))
  · exact Multiset.mem_add.2 (.inl (mem_flatMap_reported ho hf))

/-- A failure that is reported in a move or owed afterwards was owed before, or it arose in this
move: a loop failed, and the poller is finished now, or a call found that a task had panicked. -/
theorem Move.failure_of (h : p.Sound) (hmove : p.Move es q)
    (hf : f ∈ ((es.flatMap Occurrence.reported : List Failure) : Multiset Failure) + q.owing) :
    f ∈ p.owing ∨ q.Finished ∨ .noticed f ∈ es := by
  have hledger := hmove.failures h
  have hmem : f ∈ p.owing + (es.flatMap Occurrence.arisen : List Failure) := by
    rw [hledger]
    exact Multiset.mem_add.2 (.inl hf)
  rcases Multiset.mem_add.1 hmem with howing | harisen
  · exact .inl howing
  · obtain ⟨o, ho, hfo⟩ := List.mem_flatMap.1 (Multiset.mem_coe.1 harisen)
    cases o with
    | failed i g listener =>
      exact .inr (.inl (hmove.failed h ho).2.1)
    | noticed g =>
      obtain rfl := List.mem_singleton.1 hfo
      exact .inr (.inr ho)
    | _ => cases hfo

/-- If a poller that owes a failure is finished or was startled by it, so is one that owes or
reports it after another move. -/
theorem Startled.step {p₀ : Poller α} (h : p₀.Sound) (hrun : Run p₀ tr p) (hmove : p.Move es q)
    (hbefore : f ∈ p.owing → p.Finished ∨ p₀.Startled tr p f)
    (hf : f ∈ ((es.flatMap Occurrence.reported : List Failure) : Multiset Failure) + q.owing) :
    q.Finished ∨ p₀.Startled (tr ++ es) q f := by
  have hp := h.run hrun
  have hstays : p.Finished → q.Finished := fun hfin => (hfin.move hp hmove).1
  rcases hmove.failure_of hp hf with howing | hfinished | hnoticed
  · exact (hbefore howing).imp hstays fun hs => hs.append (.single hmove)
  · exact .inl hfinished
  · by_cases hphase : p.phase = .stopped
    · exact .inl (hstays (hp.finished_iff.2 hphase))
    · exact .inr ⟨tr, es, [], p, q, by simp, hrun, hmove, .nil, hnoticed, hphase⟩

/-- A poller that owes a failure is finished, unless it was startled by the panic of a task. -/
theorem Run.finished_of_owing {name : String} {pacing : Pacing}
    (hrun : Run (idle name pacing) tr q) (howing : f ∈ q.owing) :
    q.Finished ∨ (idle name pacing).Startled tr q f := by
  induction hrun with
  | nil => simp [owing, callsHold, idle] at howing
  | snoc hrun hmove ih =>
    exact Startled.step (sound_idle name pacing) hrun hmove ih (Multiset.mem_add.2 (.inr howing))

/-- A task that has panicked was found by a call that had joined it. -/
theorem of_noticed_mem (ho : .noticed f ∈ p.noticing c) :
    ∃ i s, c.stage = .joining i s ∧ p.panicOf? i = some f := by
  unfold noticing at ho
  split at ho
  · next i s stage =>
    cases hg : p.panicOf? i with
    | none => simp [hg] at ho
    | some g =>
      simp only [hg, overwriting, List.mem_append, List.mem_map, reduceCtorEq, and_false,
        exists_false, List.mem_singleton, Occurrence.noticed.injEq, false_or] at ho
      exact ⟨i, s, stage, ho ▸ hg⟩
  · cases ho

/-- A call that finds that a task has panicked makes the panic the pending failure or reports it,
and leaves the phase of the poller as it is. -/
theorem CallEffect.noticed {v : Verdict α} {i : Nat} {s : Sequel} (heffect : p.CallEffect c q v)
    (stage : c.stage = .joining i s) (hpanic : p.panicOf? i = some f) :
    q.phase = p.phase ∧ (q.failure = some f ∨ v = .returned (.error (.failed f))) := by
  have hnot : c.stage.isScreened = false := by rw [stage]; rfl
  cases heffect with
  | refused screened | collects screened => simp [hnot] at screened
  | late wait | unparks wait | starts wait | replaces wait =>
    simp [isScreened_of_isWait wait] at hnot
  | unsubscribes stage' | closes stage' | closed stage' | answered stage' | clears stage'
    | cleared stage' => simp [stage] at stage'
  | reenters stage' | leaves stage' =>
    rw [stage] at stage'
    obtain ⟨rfl, -⟩ := CallStage.joining.inj stage'
    rw [absorb_eq]
    exact ⟨rfl, .inl (by simp [hpanic])⟩
  | reports stage' =>
    rw [stage] at stage'
    obtain ⟨rfl, -⟩ := CallStage.joining.inj stage'
    rw [absorb_eq]
    exact ⟨rfl, .inr (by simp [owed, hpanic])⟩

/-- The panic of a task is owed or reported once a call has found it, and stops nothing. -/
theorem Move.noticed (h : p.Sound) (hmove : p.Move es q) (ho : .noticed f ∈ es) :
    q.phase = p.phase ∧ q.Tells f es := by
  cases hmove with
  | @loop q l es mem move =>
    cases move.effect h.toConsistent mem with
    | goesOn _ _ _ work => cases work _ ho
    | @ends _ e _ _ _ _ _ _ work =>
      rcases List.mem_append.1 ho with ho | ho
      · cases work _ ho
      · cases e with
        | failed g => obtain ⟨g', hg⟩ | ⟨listener, hg⟩ := mem_failing ho <;> cases hg
        | _ => cases ho
  | @proceed q c runtime s mem ready goes =>
    obtain ⟨i, t, stage, hpanic⟩ := of_noticed_mem ho
    obtain ⟨hphase, hf | hv⟩ := (callEffect_of_moveCall h mem goes).noticed stage hpanic
    · exact ⟨hphase, .inl hf⟩
    · cases hv
  | @finish q c runtime r mem ready goes =>
    rcases List.mem_append.1 ho with ho | ho
    · obtain ⟨i, t, stage, hpanic⟩ := of_noticed_mem ho
      obtain ⟨hphase, hf | hv⟩ := (callEffect_of_moveCall h mem goes).noticed stage hpanic
      · exact ⟨hphase, .inl hf⟩
      · obtain rfl := Verdict.returned.inj hv
        refine ⟨hphase, .inr ⟨_, List.mem_append_right _ (List.mem_singleton.2 rfl), ?_⟩⟩
        exact c.reported_returning _
    · rcases c.returning_eq r with hr | hr <;> rw [hr] at ho <;> cases List.mem_singleton.1 ho
  | call | drop | discard => cases List.mem_singleton.1 ho
  | @subscribe runtime subscription script runs releasePanic =>
    cases hr : (p.subscribe runtime subscription script runs releasePanic).2 <;>
    · rw [hr] at ho
      cases List.mem_singleton.1 ho
  | stop | release => cases ho

/-- Whenever a failure is pending or somebody is told of it, the poller has stopped for good, unless
it was startled by the panic of a task.  And it is startled whenever a call finds such a panic while
the poller has not stopped: the panic is pending or reported then, and the poller goes on. -/
theorem stoppedForGood_of_fatal {name : String} {pacing : Pacing}
    (hrun : Run (idle name pacing) tr p) :
    (∀ f, p.failure = some f → p.StoppedForGood ∨ (idle name pacing).Startled tr p f) ∧
    (∀ es q f, p.Move es q → (∃ o ∈ es, o.reported = [f]) →
      q.StoppedForGood ∨ (idle name pacing).Startled (tr ++ es) q f) ∧
    ∀ es q f, p.Move es q → .noticed f ∈ es → p.phase ≠ .stopped →
      q.Tells f es ∧ ¬q.StoppedForGood := by
  have h₀ := sound_idle (α := α) name pacing
  have h := h₀.run hrun
  refine ⟨fun f hf => ?_, fun es q f hmove hreported => ?_, fun es q f hmove hnoticed hphase => ?_⟩
  · have howing : f ∈ p.owing := Multiset.mem_add.2 (.inl (by simp [hf]))
    exact (hrun.finished_of_owing howing).imp_left fun hfin => hfin.stoppedForGood h
  · have htells : q.Tells f es := .inr hreported
    have hstep := Startled.step h₀ hrun hmove hrun.finished_of_owing htells.mem
    exact hstep.imp_left fun hfin => hfin.stoppedForGood (h.move hmove)
  · obtain ⟨hsame, htells⟩ := hmove.noticed h hnoticed
    refine ⟨htells, fun hgood => hphase ?_⟩
    rw [← hsame]
    exact (hgood.2 [] q .nil).1

/-- A poller whose callback has failed has stopped for good. -/
theorem stoppedForGood_of_callback : ∃ (tr : List (Occurrence Nat)) (p : Poller Nat),
    Run (idle "a" default) tr p ∧ p.failure = some (.callback "boom") ∧ p.StoppedForGood := by
  have hrun : Run (idle "a" default) [.subscribed "s", .pollBegan 1, .polled 1 (.ok (.payload 7)),
      .invoked 1 7, .handled 1 (.failed "boom"), .failed 1 (.callback "boom") none] _ :=
    run_of_perform? (failedCallback ++ [.loop 1 .go]) rfl
  refine ⟨_, _, hrun, rfl, ((stoppedForGood_of_fatal hrun).1 _ rfl).resolve_right fun h => ?_⟩
  simpa using h.mem

/-- A subscription ends, whose task panics when it releases the callback. -/
def panickedRelease : List (Cue Nat) :=
  [.subscribe true "s" ⟨[], {}⟩ true (some "rel"), .call ⟨"u", true, .unsubscribing "s"⟩,
    .resume "u" true, .loop 1 .go, .loop 1 (.check false), .resume "u" true]

/-- A wait is told of a fatal error by a poller that has not stopped. -/
theorem fatal_while_idle : ¬ ∀ (tr es : List (Occurrence Nat)) (p q : Poller Nat) (f : Failure),
    Run (idle "a" default) tr p → p.Move es q → (∃ o ∈ es, o.reported = [f]) →
      q.StoppedForGood := by
  intro h
  have hrun : Run (idle "a" default) _ _ :=
    run_of_perform? (panickedRelease ++ [.call ⟨"w", true, .entering⟩]) rfl
  have hgood := h _ _ _ _ (.pollPanic "rel") hrun (move_of_act? (.resume "w" true) rfl)
    ⟨_, List.mem_cons_self, rfl⟩
  cases hgood.1

end Poller

end Polling
