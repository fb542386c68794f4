import Polling.Proofs.Cues
import Polling.Proofs.Holdings
import Polling.Proofs.Pending

/-!
# Who is told of a failure

Every failure that is recorded is reported, owed or spoiled, and never in two of these at once
(`Run.failures`).  The poller owes it while it is pending, or in an answer that nobody has read.
It is spoiled in two ways only: with the answer of a wait that is dropped before it looks, and by
the panic of a task that somebody joins while the failure is pending.
-/

namespace Polling

variable {α : Type}

/-- The failure in an answer that nobody has read. -/
def CallStage.failures : CallStage α → List Failure
  | .receiving _ (some (.error (.failed f))) => [f]
  | _ => []

/-- The failure that a loop ends with. -/
def Ending.failures : Ending α → List Failure
  | .failed f => [f]
  | _ => []

/-- The failure that a move of a call comes to. -/
def Verdict.failures : Verdict α → List Failure
  | .goesOn s => s.failures
  | .returned (.error (.failed f)) => [f]
  | .returned _ => []

namespace Occurrence

/-- The failure that a caller is told of. -/
def reported : Occurrence α → List Failure
  | answered _ (.error (.failed f)) | returned _ (.error (.failed f)) | refused (.failed f) => [f]
  | _ => []

/-- The failure that nobody will be told of any more. -/
def spoiled : Occurrence α → List Failure
  | dropped _ (some (.error (.failed f))) | overwritten f => [f]
  | _ => []

/-- Whether this settles what becomes of a failure that waits for a caller in one place: in the
answer to a wait, or as the pending failure. -/
def settles (listener : Option String) : Occurrence α → Bool
  | answered id _ | dropped id _ => listener = some id
  | returned _ (.error (.failed _)) | refused (.failed _) | overwritten _ => listener = none
  | _ => false

/-- Work is no matter of failures. -/
theorem carriesNone_of_workOf? {o : Occurrence α} {i : Nat} (h : o.workOf? = some i) :
    o.arisen = [] ∧ o.reported = [] ∧ o.spoiled = [] := by
  cases o with
  | pollBegan | polled | invoked | handled => exact ⟨rfl, rfl, rfl⟩
  | _ => cases h

end Occurrence

theorem Call.reported_returning (c : Call α) (r : CallResult α) :
    (c.returning r).reported = (Verdict.returned r).failures := by
  unfold returning
  split <;> rcases r with (_ | _) | _ <;> rfl

/-- The answer of a loop carries the failure that it ends with. -/
theorem Ending.failures_of_answer {e : Ending α} {r : CallResult α} (h : e.answer = some r)
    (i : Nat) : (CallStage.receiving i (some r)).failures = e.failures := by
  cases e with
  | abandoned => cases h
  | _ =>
    obtain rfl := Option.some.inj h
    rfl

namespace Poller

variable {p q : Poller α} {l m : Loop α} {c : Call α}

/-- The failures that a poller owes to its callers. -/
def owing (p : Poller α) : Multiset Failure := p.failure.toList + p.callsHold CallStage.failures

theorem spoiled_overwriting (p : Poller α) :
    p.overwriting.flatMap Occurrence.arisen = [] ∧ p.overwriting.flatMap Occurrence.reported = [] ∧
      p.overwriting.flatMap Occurrence.spoiled = p.failure.toList := by
  unfold overwriting
  cases p.failure with
  | none => exact ⟨rfl, rfl, rfl⟩
  | some f => exact ⟨rfl, rfl, rfl⟩

/-- A loop that ends without a failure leaves the poller what it owes. -/
theorem Consistent.owing_ended (h : p.Consistent) {e : Ending α} (hnot : e.failures = []) :
    (p.ended l e).owing = p.owing := by
  have hfailure : (p.ended l e).failure = p.failure := by
    simp only [ended, keeping]
    split
    · cases hnot
    · rfl
  have hcalls : (p.ended l e).callsHold CallStage.failures = p.callsHold CallStage.failures := by
    cases hlis : p.listener? l with
    | none =>
      have hsame : (p.ended l e).calls = p.calls := by simp [ended, answering, hlis]
      exact callsHold_congr hsame _
    | some id =>
      cases hans : e.answer with
      | none =>
        have hsame : (p.ended l e).calls = p.calls := by simp [ended, answering, hlis, hans]
        exact callsHold_congr hsame _
      | some r =>
        have hanswer := h.callsHold_answering hlis hans CallStage.failures
        rw [Ending.failures_of_answer hans, hnot] at hanswer
        exact add_right_cancel hanswer
  rw [owing, owing, hfailure, hcalls]

/-- The failure of a loop that ends is pending or in the answer to its waiter. -/
theorem Consistent.failures_ended (h : p.Consistent) (e : Ending α) :
    p.owing + ((p.ending l e).flatMap Occurrence.arisen : List Failure) =
        (p.ended l e).owing + ((p.ending l e).flatMap Occurrence.spoiled : List Failure) ∧
      (p.ending l e).flatMap Occurrence.reported = [] := by
  cases e with
  | failed f =>
    simp only [ending, failing]
    cases hlis : p.listener? l with
    | some id =>
      -- The waiter listens: its answer holds the failure.
      have hanswer := h.callsHold_answering hlis (e := .failed f) rfl CallStage.failures
      have hfailure : (p.ended l (.failed f)).failure = p.failure := by simp [ended, keeping, hlis]
      have hcalls : (p.ended l (.failed f)).callsHold CallStage.failures =
          p.callsHold CallStage.failures + ([f] : List Failure) :=
        (add_zero _).symm.trans hanswer
      rw [owing, owing, hfailure, hcalls, ← add_assoc]
      exact ⟨(add_zero _).symm, rfl⟩
    | none =>
      -- Nobody listens: the failure takes the place of the pending one.
      obtain ⟨ha, hr, hs⟩ := p.spoiled_overwriting
      have hfailure : (p.ended l (.failed f)).failure = some f := by simp [ended, keeping, hlis]
      have hcalls : (p.ended l (.failed f)).calls = p.calls := by simp [ended, answering, hlis]
      simp only [List.flatMap_append, ha, hr, hs, List.nil_append, List.append_nil,
        List.flatMap_singleton, Occurrence.arisen, Occurrence.spoiled, Occurrence.reported]
      rw [owing, owing, hfailure, callsHold_congr hcalls]
      refine ⟨?_, trivial⟩
      simp only [Option.toList]
      ac_rfl
  | _ => exact ⟨by rw [h.owing_ended rfl]; rfl, rfl⟩

/-- A loop owes nothing. -/
theorem LoopEffect.failures (h : p.Consistent) {es} (heffect : p.LoopEffect l es q) :
    p.owing + (es.flatMap Occurrence.arisen : List Failure) =
        q.owing + (es.flatMap Occurrence.spoiled : List Failure) ∧
      es.flatMap Occurrence.reported = [] := by
  -- A loop that works records no failure but the one that it ends with.
  have hnone : ∀ es : List (Occurrence α), (∀ o ∈ es, o.workOf? = some l.id) →
      es.flatMap Occurrence.arisen = [] ∧ es.flatMap Occurrence.reported = [] ∧
        es.flatMap Occurrence.spoiled = [] := by
    intro es work
    refine ⟨?_, ?_, ?_⟩ <;> refine List.flatMap_eq_nil_iff.2 fun o ho => ?_
    · exact (Occurrence.carriesNone_of_workOf? (work o ho)).1
    · exact (Occurrence.carriesNone_of_workOf? (work o ho)).2.1
    · exact (Occurrence.carriesNone_of_workOf? (work o ho)).2.2
  cases heffect with
  | goesOn _ _ _ work =>
    obtain ⟨ha, hr, hs⟩ := hnone _ work
    rw [ha, hr, hs]
    exact ⟨rfl, rfl⟩
  | @ends m e es _ _ _ _ _ work =>
    obtain ⟨ha, hr, hs⟩ := hnone es work
    simp only [List.flatMap_append, ha, hr, hs, List.nil_append]
    exact h.failures_ended e

/-- The panic that a call finds takes the place of the pending failure. -/
theorem failures_absorb {i : Nat} {s : Sequel} (stage : c.stage = .joining i s) :
    (p.failure.toList + (p.noticing c).flatMap Occurrence.arisen : Multiset Failure) =
        (p.absorb i).failure.toList + (p.noticing c).flatMap Occurrence.spoiled ∧
      (p.noticing c).flatMap Occurrence.reported = [] := by
  obtain ⟨ha, hr, hs⟩ := p.spoiled_overwriting
  rw [absorb_eq]
  cases hpanic : p.panicOf? i with
  | none =>
    have hnone : p.noticing c = [] := by simp [noticing, stage, hpanic]
    rw [hnone]
    exact ⟨rfl, rfl⟩
  | some f =>
    have hsome : p.noticing c = p.overwriting ++ [.noticed f] := by simp [noticing, stage, hpanic]
    simp only [hsome, List.flatMap_append, ha, hr, hs, List.nil_append, List.append_nil,
      List.flatMap_singleton, Occurrence.arisen, Occurrence.spoiled]
    exact ⟨add_comm _ _, rfl⟩

theorem failures_owed (p : Poller α) : (Verdict.returned p.owed).failures = p.failure.toList := by
  unfold owed
  cases p.failure <;> rfl

/-- A call is told of the failure that the poller owes, or leaves it there. -/
theorem CallEffect.failures {v : Verdict α} (heffect : p.CallEffect c q v) :
    (p.failure.toList + (p.noticing c).flatMap Occurrence.arisen + c.stage.failures :
        Multiset Failure) =
          q.failure.toList + (p.noticing c).flatMap Occurrence.spoiled + v.failures ∧
      (p.noticing c).flatMap Occurrence.reported = [] := by
  have hscreened : c.stage.isScreened = true →
      c.stage.failures = [] ∧ ∀ i s, c.stage ≠ .joining i s := by
    intro h
    cases hs : c.stage <;> simp_all [CallStage.isScreened, CallStage.failures]
  -- Whoever has joined no loop notices nothing, and takes no more than what the poller owes.
  have hquiet : ∀ {q : Poller α} {v : Verdict α}, (∀ i s, c.stage ≠ .joining i s) →
      (p.failure.toList + c.stage.failures : Multiset Failure) = q.failure.toList + v.failures →
      (p.failure.toList + (p.noticing c).flatMap Occurrence.arisen + c.stage.failures :
          Multiset Failure) =
            q.failure.toList + (p.noticing c).flatMap Occurrence.spoiled + v.failures ∧
        (p.noticing c).flatMap Occurrence.reported = [] := by
    intro q v hs hbalance
    have hnone : p.noticing c = [] := noticing_eq_nil fun i s hi => absurd hi (hs i s)
    simp only [hnone, List.flatMap_nil, Multiset.coe_nil, add_zero]
    exact ⟨hbalance, trivial⟩
  cases heffect with
  | @refused e screened harmless =>
    obtain ⟨hnone, hs⟩ := hscreened screened
    refine hquiet hs ?_
    cases e with
    | failed f => cases harmless
    | _ => rw [hnone]; rfl
  | collects screened usable pending =>
    obtain ⟨hnone, hs⟩ := hscreened screened
    refine hquiet hs ?_
    rw [hnone, pending]
    exact add_comm _ _
  | late wait | unparks wait | starts wait =>
    obtain ⟨hnone, hs⟩ := hscreened (isScreened_of_isWait wait)
    exact hquiet hs (by rw [hnone]; rfl)
  | replaces wait =>
    obtain ⟨hnone, hs⟩ := hscreened (isScreened_of_isWait wait)
    refine hquiet hs ?_
    rw [hnone]
    split <;> rfl
  | unsubscribes stage =>
    refine hquiet (by simp [stage]) ?_
    rw [stage]
    split <;> rfl
  | closes stage | clears stage => exact hquiet (by simp [stage]) (by rw [stage]; rfl)
  | closed stage | cleared stage =>
    refine hquiet (by simp [stage]) ?_
    rw [stage, failures_owed]
    exact add_comm _ _
  | reenters stage | leaves stage =>
    obtain ⟨hbalance, hreported⟩ := failures_absorb (p := p) stage
    rw [hbalance, stage]
    exact ⟨rfl, hreported⟩
  | reports stage =>
    obtain ⟨hbalance, hreported⟩ := failures_absorb (p := p) stage
    rw [hbalance, stage, failures_owed]
    refine ⟨?_, hreported⟩
    exact (add_zero _).trans ((add_comm _ _).trans (by simp))
  | @answered i r stage =>
    refine hquiet (by simp [stage]) ?_
    rw [stage]
    rcases r with (_ | _) | _ <;> rfl

/-- A subscription that is refused tells the failure that the poller owes. -/
theorem SubscribeEffect.failures {subscription : String} {r : Except Error Unit}
    (heffect : p.SubscribeEffect subscription q r) :
    p.owing = ((subscribing subscription r : List (Occurrence α)).flatMap Occurrence.reported :
      List Failure) + q.owing := by
  cases heffect with
  | @refused e harmless =>
    cases e with
    | failed f => cases harmless
    | _ => exact (zero_add _).symm
  | collects _ pending =>
    rw [owing, pending]
    exact congrArg _ (zero_add _).symm
  | starts => exact (zero_add _).symm

/-- No move makes a failure appear or vanish, but for those that arise, are reported or spoiled. -/
theorem Move.failures (h : p.Sound) {es} (hmove : p.Move es q) :
    p.owing + (es.flatMap Occurrence.arisen : List Failure) =
      (es.flatMap Occurrence.reported : List Failure) + q.owing +
        (es.flatMap Occurrence.spoiled : List Failure) := by
  have hquiet : ∀ {es : List (Occurrence α)} {q : Poller α},
      es.flatMap Occurrence.arisen = [] ∧ es.flatMap Occurrence.reported = [] ∧
        es.flatMap Occurrence.spoiled = [] → q.owing = p.owing →
      p.owing + (es.flatMap Occurrence.arisen : List Failure) =
        (es.flatMap Occurrence.reported : List Failure) + q.owing +
          (es.flatMap Occurrence.spoiled : List Failure) := by
    rintro es q ⟨ha, hr, hs⟩ howing
    rw [ha, hr, hs, howing]
    simp
  cases hmove with
  | loop mem move =>
    obtain ⟨hfailures, hreported⟩ := (move.effect h.toConsistent mem).failures h.toConsistent
    rw [hfailures, hreported, Multiset.coe_nil, zero_add]
  | @proceed q c runtime s mem ready goes =>
    have heffect := callEffect_of_moveCall h mem goes
    have hq := (heffect.sound h mem ready).1.toConsistent
    obtain ⟨hbalance, hreported⟩ := heffect.failures
    have hset := hq.balance_setCallStage heffect.calls_eq mem hbalance
    rw [hreported, Multiset.coe_nil, zero_add, owing, add_right_comm, hset, add_right_comm]
    rfl
  | @finish q c runtime r mem ready goes =>
    have heffect := callEffect_of_moveCall h mem goes
    have hq := (heffect.sound h mem ready).1.toConsistent
    obtain ⟨hbalance, hreported⟩ := heffect.failures
    have hdrop := hq.balance_dropCall heffect.calls_eq mem hbalance
    have hreturn : (c.returning r).arisen = [] ∧ (c.returning r).spoiled = [] := by
      rcases c.returning_eq r with hr | hr <;> rw [hr] <;> exact ⟨rfl, rfl⟩
    simp only [List.flatMap_append, List.flatMap_singleton, hreported, hreturn, List.nil_append,
      List.append_nil, c.reported_returning]
    calc p.owing + ((p.noticing c).flatMap Occurrence.arisen : List Failure)
        = q.failure.toList + (p.noticing c).flatMap Occurrence.spoiled +
            (Verdict.returned r).failures + (q.dropCall c.id).callsHold CallStage.failures := by
          rw [← hdrop, owing, add_right_comm]
      _ = (Verdict.returned r).failures + (q.failure.toList + (q.dropCall c.id).callsHold
            CallStage.failures) + (p.noticing c).flatMap Occurrence.spoiled := by ac_rfl
  | @call c first =>
    refine hquiet ⟨rfl, rfl, rfl⟩ ?_
    have hnone : c.stage.failures = [] := by
      cases hs : c.stage <;> simp_all [CallStage.isFirst, CallStage.failures]
    have hhold : ({ p with calls := p.calls ++ [c] } : Poller α).callsHold CallStage.failures =
        p.callsHold CallStage.failures := by
      simp [callsHold, hnone]
    rw [owing, hhold]
    rfl
  | @drop c mem =>
    have hdrop := h.balance_dropCall (g := CallStage.failures) rfl mem
      (rfl : (p.failure.toList + c.stage.failures : Multiset Failure) = _)
    have hspoiled : (Occurrence.dropped c.id c.unread : Occurrence α).spoiled =
        c.stage.failures := by
      unfold Call.unread CallStage.failures
      rcases c.stage with _ | _ | _ | _ | _ | ⟨i, _ | (_ | _) | _⟩ <;> rfl
    rw [List.flatMap_singleton, List.flatMap_singleton, List.flatMap_singleton, hspoiled]
    rw [add_right_comm] at hdrop
    exact (add_zero _).trans (hdrop.trans (congrArg (· + _) (zero_add _).symm))
  | @subscribe runtime subscription script runs releasePanic =>
    have hfailures := (subscribeEffect p runtime subscription script runs releasePanic).failures
    have hnone : ∀ r : Except Error Unit,
        (subscribing subscription r : List (Occurrence α)).flatMap Occurrence.arisen = [] ∧
          (subscribing subscription r : List (Occurrence α)).flatMap Occurrence.spoiled = [] := by
      intro r
      cases r <;> exact ⟨rfl, rfl⟩
    rw [(hnone _).1, (hnone _).2, Multiset.coe_nil, add_zero, add_zero]
    exact hfailures
  | stop => exact hquiet ⟨rfl, rfl, rfl⟩ rfl
  | release => exact hquiet ⟨rfl, rfl, rfl⟩ rfl
  | discard => exact hquiet ⟨rfl, rfl, rfl⟩ rfl

/-- Every failure that has been recorded was reported, is owed or was spoiled. -/
theorem Run.failures {tr} (hrun : Run p tr q) (h : p.Sound) :
    p.owing + (tr.flatMap Occurrence.arisen : List Failure) =
      (tr.flatMap Occurrence.reported : List Failure) + q.owing +
        (tr.flatMap Occurrence.spoiled : List Failure) := by
  induction hrun with
  | nil => simp
  | @snoc q r tr es hrun hmove ih =>
    have hq : q.Sound := h.run hrun
    have hfailures := hmove.failures hq
    simp only [List.flatMap_append, ← Multiset.coe_add]
    rw [← add_assoc, ih, add_right_comm, add_assoc _ q.owing, hfailures]
    ac_rfl

/-- Where the failure of a loop waits for a caller: in the answer to the wait that listens, or as
the pending failure if there is none. -/
def Keeps (p : Poller α) (f : Failure) : Option String → Prop
  | some id => ∃ c ∈ p.calls, c.id = id ∧ ∃ i, c.stage = .receiving i (some (.error (.failed f)))
  | none => p.failure = some f

/-- What becomes of the failure of a loop: it is kept until something settles it, which tells a
caller of this failure or spoils it. -/
def Fate (q : Poller α) (f : Failure) (listener : Option String) (tr : List (Occurrence α)) :
    Prop :=
  match tr.find? (Occurrence.settles listener) with
  | none => q.Keeps f listener
  | some o => o.reported = [f] ∨ o.spoiled = [f]

/-- Only a loop that ends fails, and it ends the poller. -/
theorem LoopEffect.failed {es} (heffect : p.LoopEffect l es q) {i : Nat} {f : Failure}
    {listener : Option String} (ho : .failed i f listener ∈ es) :
    l.id = i ∧ listener = p.listener? l ∧ q.Finished ∧ q.Keeps f listener := by
  cases heffect with
  | goesOn _ _ _ work => cases work _ ho
  | @ends m e es _ _ _ _ _ work =>
    rcases List.mem_append.1 ho with ho | ho
    · cases work _ ho
    · cases e with
      | failed g =>
        -- A failure stops the whole poller.
        have hfinished : ((p.ended l (.failed g)).withLoop m).Finished := by
          refine ⟨rfl, ?_⟩
          simp [withLoop, updateLoop, ended, Ending.stops]
        simp only [ending, failing] at ho
        cases hlis : p.listener? l with
        | some id =>
          simp only [hlis, List.mem_singleton, Occurrence.failed.injEq] at ho
          obtain ⟨rfl, rfl, rfl⟩ := ho
          refine ⟨rfl, rfl, ⟨hfinished.vacant, hfinished.stopped⟩, ?_⟩
          obtain ⟨-, c, hc, hid, hs⟩ := listener?_eq_some hlis
          have hmem : ({ c with stage := .receiving l.id (some (.error (.failed f))) } : Call α) ∈
              p.answering l (.failed f) := by
            simp only [answering, hlis, Ending.answer]
            exact List.mem_map.2 ⟨c, hc, if_pos hid⟩
          exact ⟨_, hmem, hid, l.id, rfl⟩
        | none =>
          simp only [hlis, overwriting, List.mem_append, List.mem_map, List.mem_singleton,
            Occurrence.failed.injEq, reduceCtorEq, and_false, exists_false, false_or] at ho
          obtain ⟨rfl, rfl, rfl⟩ := ho
          refine ⟨rfl, rfl, ⟨hfinished.vacant, hfinished.stopped⟩, ?_⟩
          simp [Keeps, withLoop, updateLoop, ended, keeping, hlis]
      | _ => cases ho

/-- The failure of a loop goes to the wait that the loop serves, if its call is still pending. -/
theorem Move.failed (h : p.Sound) {es} (hmove : p.Move es q) {i : Nat} {f : Failure}
    {listener : Option String} (ho : .failed i f listener ∈ es) :
    (∃ l ∈ p.loops, l.id = i ∧
      ∀ id, listener = some id ↔ l.consumer = .waiter id ∧ ∃ c ∈ p.calls, c.id = id) ∧
      q.Finished ∧ q.Keeps f listener := by
  rcases hmove.loop_or_still with ⟨l, hl, move⟩ | still
  · obtain ⟨hid, rfl, hq, hkeeps⟩ := (move.effect h.toConsistent hl).failed ho
    refine ⟨⟨l, hl, hid, fun id => ⟨fun hlis => ?_, ?_⟩⟩, hq, hkeeps⟩
    · obtain ⟨hcons, c, hc, hcid, -⟩ := listener?_eq_some hlis
      exact ⟨hcons, c, hc, hcid⟩
    · rintro ⟨hcons, c, hc, rfl⟩
      have hs := (h.fits c hc).listening l hl move.alive hcons
      exact listener?_of_receiving h.toConsistent hc hcons hs
  · exact absurd rfl ((still _ ho).2 i f listener)

/-- What is told of a move of a call. -/
def telling (p : Poller α) (c : Call α) : Verdict α → List (Occurrence α)
  | .goesOn _ => p.noticing c
  | .returned r => p.noticing c ++ [c.returning r]

/-- A call that has no answer to read returns something of its own. -/
theorem returning_of_unanswered (hs : ∀ i r, c.stage ≠ .receiving i (some r)) (r : CallResult α) :
    c.returning r = .returned c.id r := by
  unfold Call.returning
  split
  · next i r' h => exact absurd h (hs i r')
  · rfl

/-- A call settles the pending failure or leaves it there. -/
theorem CallEffect.fate {v : Verdict α} (heffect : p.CallEffect c q v) {f : Failure}
    (hf : p.failure = some f) : q.Fate f none (p.telling c v) := by
  by_cases hcalm : ∀ i s, c.stage = .joining i s → p.panicOf? i = none
  · have hnone : p.noticing c = [] := noticing_eq_nil hcalm
    -- The call leaves the failure where it is, or it is told of it.
    have hkept : ∀ {q : Poller α} {v : Verdict α}, q.failure = p.failure →
        (∀ r, v = .returned r → (c.returning r).settles none = false) →
        q.Fate f none (p.telling c v) := by
      intro q v hq hv
      have hkeeps : q.Keeps f none := hq.trans hf
      cases v with
      | goesOn s => simpa [Fate, telling, hnone] using hkeeps
      | returned r => simpa [Fate, telling, hnone, hv r rfl] using hkeeps
    have htold : ∀ {q : Poller α} {r : CallResult α}, (∀ i r, c.stage ≠ .receiving i (some r)) →
        r = .error (.failed f) → q.Fate f none (p.telling c (.returned r)) := by
      rintro q r hs rfl
      simp [Fate, telling, hnone, returning_of_unanswered hs, Occurrence.settles,
        Occurrence.reported]
    have howed : p.owed = .error (.failed f) := by simp [owed, hf]
    have hscreened : c.stage.isScreened = true → ∀ i r, c.stage ≠ .receiving i (some r) := by
      intro h i r hs
      simp [hs, CallStage.isScreened] at h
    cases heffect with
    | @refused e screened harmless =>
      apply hkept rfl
      intro r hr
      cases hr
      rw [returning_of_unanswered (hscreened screened)]
      cases e with
      | failed g => cases harmless
      | _ => rfl
    | collects screened usable pending =>
      obtain rfl := Option.some.inj (pending.symm.trans hf)
      exact htold (hscreened screened) rfl
    | late _ _ told | starts _ _ _ told | replaces _ _ told | unsubscribes _ _ _ told =>
      rw [hf] at told
      cases told
    | unparks wait =>
      apply hkept rfl
      intro r hr
      cases hr
      rw [returning_of_unanswered (hscreened (isScreened_of_isWait wait))]
      rfl
    | closes | clears => exact hkept rfl (by simp)
    | closed stage | cleared stage => exact htold (by simp [stage]) howed
    | reenters stage =>
      rw [absorb_eq, hcalm _ _ stage]
      exact hkept rfl (by simp)
    | leaves stage =>
      rw [absorb_eq, hcalm _ _ stage]
      apply hkept rfl
      intro r hr
      cases hr
      rw [returning_of_unanswered (by simp [stage])]
      rfl
    | reports stage =>
      rw [absorb_eq, hcalm _ _ stage]
      exact htold (by simp [stage]) howed
    | answered stage =>
      apply hkept rfl
      intro r hr
      cases hr
      simp [Call.returning, stage, Occurrence.settles]
  · -- The panic that the call finds takes the place of the failure.
    simp only [not_forall] at hcalm
    obtain ⟨i, s, hs, hpanic⟩ := hcalm
    obtain ⟨g, hg⟩ := Option.ne_none_iff_exists'.1 hpanic
    have hnoticing : p.noticing c = [.overwritten f, .noticed g] := by
      simp [noticing, hs, hg, overwriting, hf]
    cases v <;> simp [Fate, telling, hnoticing, Occurrence.settles, Occurrence.spoiled]

/-- A subscription settles the pending failure or leaves it there. -/
theorem SubscribeEffect.fate {subscription : String} {r : Except Error Unit}
    (heffect : p.SubscribeEffect subscription q r) {f : Failure} (hf : p.failure = some f) :
    q.Fate f none (subscribing subscription r) := by
  cases heffect with
  | @refused e harmless =>
    have hkeeps : p.Keeps f none := hf
    cases e with
    | failed g => cases harmless
    | _ => simpa [Fate, subscribing, Occurrence.settles] using hkeeps
  | collects _ pending =>
    obtain rfl := Option.some.inj (pending.symm.trans hf)
    simp [Fate, subscribing, Occurrence.settles, Occurrence.reported]
  | starts _ _ told =>
    rw [hf] at told
    cases told

/-- A move of a finished poller settles the pending failure or leaves it there. -/
theorem Move.fate_pending (h : p.Sound) (hf : p.Finished) {f : Failure}
    (hkeeps : p.failure = some f) {es} (hmove : p.Move es q) : q.Fate f none es := by
  have hquiet : ∀ {es : List (Occurrence α)} {q : Poller α},
      (∀ o ∈ es, o.settles none = false) → q.failure = p.failure → q.Fate f none es := by
    intro es q hes hq
    have hnone : es.find? (Occurrence.settles none) = none :=
      List.find?_eq_none.2 (by simpa using hes)
    rw [Fate, hnone]
    exact hq.trans hkeeps
  cases hmove with
  | loop mem move => exact absurd move (hf.not_loopMove h.toConsistent mem)
  | proceed mem ready goes => exact (callEffect_of_moveCall h mem goes).fate hkeeps
  | finish mem ready goes => exact (callEffect_of_moveCall h mem goes).fate hkeeps
  | call | drop => exact hquiet (by simp [Occurrence.settles]) rfl
  | @subscribe runtime subscription script runs releasePanic =>
    exact (subscribeEffect p runtime subscription script runs releasePanic).fate hkeeps
  | stop => exact hquiet (by simp) rfl
  | release => exact hquiet (by simp) rfl
  | discard mem waits => simp [hf.awaits_eq_false h.toConsistent mem] at waits

/-- A move settles the failure in an answer or leaves it there. -/
theorem Move.fate_answer (h : p.Sound) {f : Failure} {id : String}
    (hkeeps : p.Keeps f (some id)) {es} (hmove : p.Move es q) : q.Fate f (some id) es := by
  -- Whatever settles an answer closes the call that has it.
  have hcloses : ∀ o : Occurrence α, o.closes id = false → o.settles (some id) = false := by
    intro o ho
    cases o with
    | answered c | dropped c => simpa [Occurrence.settles, Occurrence.closes, eq_comm] using ho
    | returned c r => rcases r with (_ | _) | _ <;> rfl
    | refused e => cases e <;> rfl
    | _ => rfl
  have hanswer := hmove.keepsAnswer h hkeeps
  unfold KeepsAnswer at hanswer
  unfold Fate
  cases hclosed : es.find? (Occurrence.closes id) with
  | none =>
    have hes := List.find?_eq_none.1 hclosed
    have hnone : es.find? (Occurrence.settles (some id)) = none :=
      List.find?_eq_none.2 fun o ho => by simpa using hcloses o (by simpa using hes o ho)
    rw [hclosed] at hanswer
    rw [hnone]
    exact hanswer
  | some o =>
    obtain ⟨-, before, after, rfl, hbefore⟩ := List.find?_eq_some_iff_append.1 hclosed
    have hnone : before.find? (Occurrence.settles (some id)) = none :=
      List.find?_eq_none.2 fun o ho => by simpa using hcloses o (by simpa using hbefore o ho)
    rw [hclosed] at hanswer
    rw [List.find?_append, hnone]
    rcases hanswer with rfl | rfl <;>
      simp [Occurrence.settles, Occurrence.reported, Occurrence.spoiled]

/-- The fate of a failure, move by move. -/
theorem Run.fate (h : p.Sound) (hf : p.Finished) {f : Failure} {listener : Option String}
    (hkeeps : p.Keeps f listener) {tr} (hrun : Run p tr q) : q.Fate f listener tr := by
  induction hrun with
  | nil => exact hkeeps
  | @snoc q r tr es hrun hmove ih =>
    have hq : q.Sound := h.run hrun
    have hqf := (hf.run h hrun).1
    unfold Fate at ih ⊢
    rw [List.find?_append]
    -- What has settled the failure before this move is what settles it for good.
    cases hsettled : tr.find? (Occurrence.settles listener) with
    | some o =>
      rw [hsettled] at ih
      exact ih
    | none =>
      rw [hsettled] at ih
      cases listener with
      | some id => exact hmove.fate_answer hq ih
      | none => exact hmove.fate_pending hq hqf ih

/-- Whoever looks next is told of a failure: any call and any subscription unless the poller was
shut down, and in any case a shutdown, or a call that asks once the loop that it joined is gone. -/
structure TellsNext (p : Poller α) (f : Failure) : Prop where
  call : p.disposed = false → ∀ c ∈ p.calls, c.stage.isScreened = true →
    ∀ runtime, (p.moveCall runtime c).2 = .returned (.error (.failed f))
  subscription : p.disposed = false → ∀ runtime name script runs releasePanic,
    (p.subscribe runtime name script runs releasePanic).2 = .error (.failed f)
  shutdown : ∀ c ∈ p.calls, c.stage = .closing →
    ∀ runtime, (p.moveCall runtime c).2 = .returned (.error (.failed f))
  joined : ∀ c ∈ p.calls, ∀ i s, c.stage = .joining i s → s = .close ∨ s = .conclude →
    p.panicOf? i = none → ∀ runtime, (p.moveCall runtime c).2 = .returned (.error (.failed f))
  disposed : p.disposed = true → ∀ c ∈ p.calls, c.stage.isScreened = true →
    ∀ runtime, p.moveCall runtime c = (p, .returned (.error .disposed))

theorem Finished.tellsNext (h : p.Finished) {f : Failure} (hf : p.failure = some f) :
    p.TellsNext f where
  call hd c _ hs runtime := by
    have hscreen : p.screen = (some (.failed f), { p with failure := none }) := by
      simp [screen, hd, hf]
    cases hstage : c.stage <;>
      simp_all [CallStage.isScreened, moveCall, enter, endSubscription]
  subscription hd runtime name script runs releasePanic := by
    simp [subscribe, screen, hd, hf]
  shutdown c _ hs runtime := by
    simp [moveCall, hs, close, stop, h.vacant, report, hf]
  joined c _ i s hs hseq hpanic runtime := by
    rcases hseq with rfl | rfl <;>
      simp [moveCall, hs, absorb_eq, hpanic, afterJoin, report, conclude, hf]
  disposed hd c _ hs runtime := by
    have hscreen : p.screen = (some .disposed, p) := by simp [screen, hd]
    cases hstage : c.stage <;>
      simp_all [CallStage.isScreened, moveCall, enter, endSubscription]

/-- A poller with a loop that has failed is finished. -/
theorem Run.finished_of_failed (h : p.Sound) {tr} (hrun : Run p tr q) {i : Nat} {f : Failure}
    {listener : Option String} (ho : .failed i f listener ∈ tr) : q.Finished := by
  induction hrun with
  | nil => cases ho
  | @snoc q r tr es hrun hmove ih =>
    have hq : q.Sound := h.run hrun
    rcases List.mem_append.1 ho with ho | ho
    · exact ((ih ho).move hq hmove).1
    · exact (hmove.failed hq ho).2.1

/-- No failure is spoiled unless another one takes its place or its wait is dropped. -/
theorem flatMap_spoiled_eq_nil (tr : List (Occurrence α)) :
    tr.flatMap Occurrence.spoiled = [] ↔ (∀ f, Occurrence.overwritten f ∉ tr) ∧
      ∀ id f, Occurrence.dropped id (some (.error (.failed f))) ∉ tr := by
  rw [List.flatMap_eq_nil_iff]
  constructor
  · intro h
    exact ⟨fun f hmem => List.cons_ne_nil _ _ (h _ hmem),
      fun id f hmem => List.cons_ne_nil _ _ (h _ hmem)⟩
  · rintro ⟨hoverwritten, hdropped⟩ o ho
    unfold Occurrence.spoiled
    split
    · exact absurd ho (hdropped _ _)
    · exact absurd ho (hoverwritten _)
    · rfl

/-- A poller fails once, and the failure goes to the wait that its loop serves if the call is still
pending, else to whoever looks next.  There it is kept until a caller is told of it, or it is
spoiled.  Of all failures that are recorded each one is reported once or still owed, unless the
panic of a task takes the place of the pending one or a wait is dropped with its answer. -/
theorem failures_told_once {name : String} {pacing : Pacing} {ts es : List (Occurrence α)}
    (hrun : Run (idle name pacing) ts p) (hmove : p.Move es q) {i : Nat} {f : Failure}
    {listener : Option String} (ho : .failed i f listener ∈ es) :
    (∃ l ∈ p.loops, l.id = i ∧
      ∀ id, listener = some id ↔ l.consumer = .waiter id ∧ ∃ c ∈ p.calls, c.id = id) ∧
    ∀ tr r, Run q tr r →
      (∀ o ∈ ts ++ tr, ∀ j g w, o ≠ .failed j g w) ∧
      r.Fate f listener tr ∧ (r.failure = some f → r.TellsNext f) ∧
      ((ts ++ es ++ tr).flatMap Occurrence.arisen : Multiset Failure) =
        (ts ++ es ++ tr).flatMap Occurrence.reported + r.owing +
          (ts ++ es ++ tr).flatMap Occurrence.spoiled ∧
      (((ts ++ es ++ tr).flatMap Occurrence.arisen : Multiset Failure) =
          (ts ++ es ++ tr).flatMap Occurrence.reported + r.owing ↔
        (∀ g, .overwritten g ∉ ts ++ es ++ tr) ∧
          ∀ id g, .dropped id (some (.error (.failed g))) ∉ ts ++ es ++ tr) := by
  have hp : p.Sound := Reachable.sound ⟨name, pacing, ts, hrun⟩
  obtain ⟨hserved, hq, hkeeps⟩ := hmove.failed hp ho
  have hqs := hp.move hmove
  refine ⟨hserved, fun tr r hrest => ?_⟩
  obtain ⟨hr, hstill, -⟩ := hq.run hqs hrest
  -- The whole history, from the poller as it was built.
  have hledger := ((hrun.snoc hmove).append hrest).failures (sound_idle name pacing)
  have hidle : (idle name pacing : Poller α).owing = 0 := rfl
  rw [hidle, zero_add] at hledger
  refine ⟨fun o ho' => ?_, hrest.fate hqs hq hkeeps, fun hf => hr.tellsNext hf, hledger, ?_⟩
  · rcases List.mem_append.1 ho' with ho' | ho'
    · rintro j g w rfl
      have hfinished := hrun.finished_of_failed (sound_idle name pacing) ho'
      exact ((hfinished.move hp hmove).2.2.1 _ ho).2 _ _ _ rfl
    · exact (hstill o ho').2
  · rw [hledger, add_eq_left, Multiset.coe_eq_zero]
    exact flatMap_spoiled_eq_nil _

/-- A subscription whose callback fails, and whose task panics when it releases the callback. -/
def failedCallback : List (Cue Nat) :=
  [.subscribe true "s" ⟨[], { outcome := .failed "boom" }⟩ true (some "rel"), .loop 1 .go,
    .loop 1 (.check false), .loop 1 (.beginPoll {} 0), .loop 1 (.endPoll (.ok (.payload 7)) 0),
    .loop 1 (.callBack 0)]

/-- The failure of a subscription is told to the next caller. -/
theorem failures_told_once_next : ∃ (ts es tr : List (Occurrence Nat)) (p q r : Poller Nat),
    Run (idle "a" default) ts p ∧ p.Move es q ∧ .failed 1 (.callback "boom") none ∈ es ∧
      Run q tr r ∧ tr.find? (Occurrence.settles none) =
        some (.returned "x" (.error (.failed (.callback "boom")))) ∧
      ((ts ++ es ++ tr).flatMap Occurrence.arisen : Multiset Failure) =
        (ts ++ es ++ tr).flatMap Occurrence.reported + r.owing := by
  have hrun : Run (idle "a" default) [.subscribed "s", .pollBegan 1, .polled 1 (.ok (.payload 7)),
      .invoked 1 7] _ := run_of_perform? failedCallback rfl
  refine ⟨_, [.handled 1 (.failed "boom"), .failed 1 (.callback "boom") none],
    [.called "x" .closing, .returned "x" (.error (.failed (.callback "boom")))], _, _, _, hrun,
    move_of_act? (.loop 1 .go) rfl, by simp,
    run_of_perform? [.call ⟨"x", true, .closing⟩, .resume "x" true] rfl, rfl, ?_⟩
  have htold := (failures_told_once hrun (move_of_act? (.loop 1 .go) rfl)
    (List.mem_cons_of_mem _ List.mem_cons_self)).2 _ _
    (run_of_perform? [.call ⟨"x", true, .closing⟩, .resume "x" true] rfl)
  exact htold.2.2.2.2.2 ((flatMap_spoiled_eq_nil _).1 rfl)

/-- The panic of a task that a shutdown joins takes the place of the failure that it was to
report. -/
theorem failure_overwritten_by_panic : ¬ ∀ (tr : List (Occurrence Nat)) (p : Poller Nat),
    Run (idle "a" default) tr p →
      (tr.flatMap Occurrence.arisen : Multiset Failure) =
        tr.flatMap Occurrence.reported + p.owing := by
  intro h
  have hrun : Run (idle "a" default) [.subscribed "s", .pollBegan 1, .polled 1 (.ok (.payload 7)),
      .invoked 1 7, .called "y" .closing, .handled 1 (.failed "boom"),
      .failed 1 (.callback "boom") none, .overwritten (.callback "boom"),
      .noticed (.pollPanic "rel"), .returned "y" (.error (.failed (.pollPanic "rel")))] _ :=
    run_of_perform? (failedCallback ++ [.call ⟨"y", true, .closing⟩, .resume "y" true, .loop 1 .go,
      .resume "y" true]) rfl
  cases congrArg Multiset.card (h _ _ hrun)

end Poller

end Polling
