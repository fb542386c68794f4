import Polling.Proofs.Cues
import Polling.Proofs.Holdings
import Polling.Proofs.Soundness

/-!
# Where the payloads are

Every payload that a poll brings in is delivered, held or lost, and never in two of these at once
(`Run.payloads`).  The poller holds it while it is parked, with a loop that has not handed it
over, or in an answer that nobody has read.  It is lost in two ways only: with the answer of a wait
that is dropped before it looks, and with a task that is discarded before it runs.
-/

namespace Polling

variable {α : Type}

/-- The payload in an answer that nobody has read. -/
def CallStage.payloads : CallStage α → List α
  | .receiving _ (some (.ok (some x))) => [x]
  | _ => []

/-- A payload that a new loop has taken over. -/
def Stage.backlog : Stage α → List α
  | .spawned backlog => backlog.toList
  | _ => []

/-- Whether a loop has just polled a payload that it has not handed over yet. -/
def Stage.isHanding : Stage α → Bool
  | .handing _ => true
  | _ => false

/-- The payloads that nobody will get any more. -/
def Occurrence.lost : Occurrence α → List α
  | dropped _ (some (.ok (some x))) => [x]
  | discarded _ xs => xs
  | _ => []

/-- The payload that a move of a call comes to. -/
def Verdict.payloads : Verdict α → List α
  | .goesOn s => s.payloads
  | .returned (.ok (some x)) => [x]
  | .returned _ => []

theorem Call.delivered_returning (c : Call α) (r : CallResult α) :
    (c.returning r).delivered = (Verdict.returned r).payloads := by
  unfold returning
  split <;> rcases r with e | _ | x <;> rfl

theorem Occurrence.lost_of_workOf? {o : Occurrence α} {i : Nat} (h : o.workOf? = some i) :
    o.lost = [] := by
  cases o with
  | pollBegan | polled | invoked | handled => rfl
  | _ => cases h

/-- The answer of a loop carries the payload that it ends with. -/
theorem Ending.payloads_of_answer {e : Ending α} {r : CallResult α} (h : e.answer = some r)
    (i : Nat) : (CallStage.receiving i (some r)).payloads = e.payloads := by
  cases e with
  | abandoned => cases h
  | _ =>
    obtain rfl := Option.some.inj h
    rfl

theorem Ending.payloads_of_answer_none {e : Ending α} (h : e.answer = none) : e.payloads = [] := by
  cases e with
  | abandoned => rfl
  | _ => cases h

/-- A call that has not moved yet has no answer. -/
theorem CallStage.payloads_of_isFirst {s : CallStage α} (h : s.isFirst = true) :
    s.payloads = [] := by
  cases s <;> simp_all [CallStage.isFirst, CallStage.payloads]

namespace Poller

/-- The payloads that are parked or with a loop. -/
def stored (p : Poller α) : Multiset α := p.parked.toList + p.loopsHold Stage.payloads

/-- The payloads that a poller holds. -/
def payloads (p : Poller α) : Multiset α := p.stored + p.callsHold CallStage.payloads

/-- Whether the poller is between two runs of its tasks, which never leave a payload half-way. -/
def atRest (p : Poller α) : Bool := p.loops.all fun l => !l.stage.isHanding

/-- The payloads that a poller at rest holds: parked, as a backlog, or in an answer that nobody has
read. -/
def held (p : Poller α) : Multiset α :=
  p.parked.toList + p.loopsHold Stage.backlog + p.callsHold CallStage.payloads

variable {p q : Poller α} {l m : Loop α} {c : Call α}

/-- What is told of the end of a loop is no payload. -/
theorem failing_carries (p : Poller α) (l : Loop α) (f : Failure) :
    (p.failing l f).flatMap Occurrence.acquired = [] ∧
      (p.failing l f).flatMap Occurrence.delivered = [] ∧
      (p.failing l f).flatMap Occurrence.lost = [] := by
  simp only [List.flatMap_eq_nil_iff]
  refine ⟨fun o ho => ?_, fun o ho => ?_, fun o ho => ?_⟩ <;>
    obtain ⟨g, rfl⟩ | ⟨listener, rfl⟩ := mem_failing ho <;> rfl

theorem ending_carries (p : Poller α) (l : Loop α) (e : Ending α) :
    (p.ending l e).flatMap Occurrence.acquired = [] ∧
      (p.ending l e).flatMap Occurrence.delivered = [] ∧
      (p.ending l e).flatMap Occurrence.lost = [] := by
  cases e with
  | failed f => exact p.failing_carries l f
  | _ => exact ⟨rfl, rfl, rfl⟩

theorem noticing_carries (p : Poller α) (c : Call α) :
    (p.noticing c).flatMap Occurrence.acquired = [] ∧
      (p.noticing c).flatMap Occurrence.delivered = [] ∧
      (p.noticing c).flatMap Occurrence.lost = [] := by
  simp only [List.flatMap_eq_nil_iff]
  refine ⟨fun o ho => ?_, fun o ho => ?_, fun o ho => ?_⟩ <;>
    obtain ⟨f, rfl⟩ | ⟨f, rfl⟩ := mem_noticing ho <;> rfl

theorem lost_of_work {es : List (Occurrence α)} {i : Nat} (h : ∀ o ∈ es, o.workOf? = some i) :
    es.flatMap Occurrence.lost = [] :=
  List.flatMap_eq_nil_iff.2 fun o ho => Occurrence.lost_of_workOf? (h o ho)

/-- What a loop ends with is parked or in the answer to its waiter. -/
theorem Consistent.payloads_ended (h : p.Consistent) (hl : l ∈ p.loops) (hal : l.hasEnded = false)
    (e : Ending α) :
    ((p.ended l e).parked.toList + (p.ended l e).callsHold CallStage.payloads : Multiset α) =
      p.parked.toList + p.callsHold CallStage.payloads + e.payloads := by
  -- Nothing was parked as long as there was a loop, so nothing is parked over.
  have hvacant := h.parked_of_alive hl hal
  cases hlis : p.listener? l with
  | some id =>
    have hparked : (p.ended l e).parked = p.parked := by simp [ended, parking, hlis]
    rw [hparked, add_assoc]
    congr 1
    cases hans : e.answer with
    | some r =>
      have hcalls := h.callsHold_answering hlis hans CallStage.payloads
      rw [Ending.payloads_of_answer hans] at hcalls
      simp only [CallStage.payloads, Multiset.coe_nil, add_zero] at hcalls
      exact hcalls
    | none =>
      have hcalls : (p.ended l e).calls = p.calls := by simp [ended, answering, hlis, hans]
      rw [Ending.payloads_of_answer_none hans, Multiset.coe_nil, add_zero, callsHold_congr hcalls]
  | none =>
    have hcalls : (p.ended l e).calls = p.calls := by simp [ended, answering, hlis]
    have hparked : (p.ended l e).parked.toList = e.payloads := by
      cases e <;> simp [ended, parking, hlis, hvacant, Ending.payloads]
    rw [hparked, callsHold_congr hcalls, hvacant]
    exact (add_comm _ _).trans (by simp)

/-- Neither by going on nor by ending does a loop make a payload appear or vanish. -/
theorem LoopEffect.payloads (h : p.Consistent) (hl : l ∈ p.loops) (hal : l.hasEnded = false) {es}
    (heffect : p.LoopEffect l es q) :
    p.payloads + (es.flatMap Occurrence.acquired : List α) =
        (es.flatMap Occurrence.delivered : List α) + q.payloads ∧
      es.flatMap Occurrence.lost = [] ∧
      q.payloadPolls = p.payloadPolls + (es.flatMap Occurrence.acquired).length := by
  cases heffect with
  | @goesOn m es n k d ran same alive work hcarried count =>
    refine ⟨?_, lost_of_work work, count⟩
    have hloops := h.loopsHold_withLoop hl same.id Stage.payloads
    have hcarried : (l.stage.payloads + es.flatMap Occurrence.acquired : Multiset α) =
        es.flatMap Occurrence.delivered + m.stage.payloads := congrArg _ hcarried
    show p.parked.toList + p.loopsHold Stage.payloads + p.callsHold CallStage.payloads + _ =
      _ + (p.parked.toList + (p.withLoop m).loopsHold Stage.payloads +
        p.callsHold CallStage.payloads : Multiset α)
    -- `hloops` is about both stages of the loop, so the new one is added on both sides.
    refine add_right_cancel (b := (m.stage.payloads : Multiset α)) ?_
    calc _ = p.parked.toList + p.callsHold CallStage.payloads + es.flatMap Occurrence.acquired +
          (p.loopsHold Stage.payloads + m.stage.payloads) := by ac_rfl
      _ = p.parked.toList + p.callsHold CallStage.payloads + (p.withLoop m).loopsHold Stage.payloads
          + (l.stage.payloads + es.flatMap Occurrence.acquired) := by rw [← hloops]; ac_rfl
      _ = _ := by rw [hcarried]; ac_rfl
  | @ends m e es k d ran same exit work hcarried count gone =>
    obtain ⟨hacquired, hdelivered, hlost⟩ := p.ending_carries l e
    simp only [List.flatMap_append, hacquired, hdelivered, hlost, List.append_nil]
    refine ⟨?_, lost_of_work work, count⟩
    have hloops := h.loopsHold_withLoop hl same.id Stage.payloads
    have hended := h.payloads_ended hl hal e
    have hcarried : (l.stage.payloads + es.flatMap Occurrence.acquired : Multiset α) =
        es.flatMap Occurrence.delivered + e.payloads := congrArg _ hcarried
    -- A loop that has ended holds nothing: the poller or the waiter has it.
    have hnone : m.stage.payloads = [] := by rw [exit]; rfl
    rw [hnone, Multiset.coe_nil, add_zero] at hloops
    show p.parked.toList + p.loopsHold Stage.payloads + p.callsHold CallStage.payloads + _ =
      _ + ((p.ended l e).parked.toList + (p.withLoop m).loopsHold Stage.payloads +
        (p.ended l e).callsHold CallStage.payloads : Multiset α)
    calc _ = p.parked.toList + p.callsHold CallStage.payloads + (p.withLoop m).loopsHold
          Stage.payloads + (l.stage.payloads + es.flatMap Occurrence.acquired) := by
          rw [← hloops]; ac_rfl
      _ = es.flatMap Occurrence.delivered + (p.parked.toList + p.callsHold CallStage.payloads +
          e.payloads) + (p.withLoop m).loopsHold Stage.payloads := by rw [hcarried]; ac_rfl
      _ = _ := by rw [← hended]; ac_rfl

/-- Asking a loop to end leaves it what it holds. -/
theorem stored_retire (p : Poller α) (a : Attachment) : (p.retire a).stored = p.stored := by
  have hloops : (p.retire a).loopsHold Stage.payloads = p.loopsHold Stage.payloads := by
    simp only [loopsHold, retire, cancelLoop, updateLoop, List.flatMap_map]
    refine congrArg _ (List.flatMap_congr fun k _ => ?_)
    split <;> rfl
  rw [stored, stored, hloops]
  rfl

/-- A new loop takes over what is parked. -/
theorem stored_startLoop (p : Poller α) (consumer : Consumer) (script : Script (Handling α))
    (runs : Bool) (releasePanic : Option String) :
    (p.startLoop consumer script runs releasePanic).stored = p.stored := by
  have hloops : (p.startLoop consumer script runs releasePanic).loopsHold Stage.payloads =
      p.loopsHold Stage.payloads + p.parked.toList := by
    simp [loopsHold, startLoop, Stage.payloads]
  rw [stored, hloops, stored]
  exact (zero_add _).trans (add_comm _ _)

/-- What the poller owes is no payload. -/
theorem payloads_owed (p : Poller α) : (Verdict.returned p.owed).payloads = [] := by
  unfold owed
  split <;> rfl

/-- A payload goes from the poller to the caller, or stays where it is. -/
theorem CallEffect.payloads {v : Verdict α} (heffect : p.CallEffect c q v) :
    p.stored + c.stage.payloads = q.stored + v.payloads ∧ q.payloadPolls = p.payloadPolls := by
  have hscreened : c.stage.isScreened = true → c.stage.payloads = [] := by
    intro h
    cases hs : c.stage <;> simp_all [CallStage.isScreened, CallStage.payloads]
  -- Whoever has no answer to read leaves the poller what it has, but for a parked payload.
  have hkeeps : ∀ {q : Poller α} {v : Verdict α}, c.stage.payloads = [] → v.payloads = [] →
      q.stored = p.stored → p.stored + c.stage.payloads = q.stored + v.payloads := by
    intro q v hc hv hq
    rw [hc, hv, hq]
  cases heffect with
  | refused screened | collects screened => exact ⟨hkeeps (hscreened screened) rfl rfl, rfl⟩
  | late wait => exact ⟨hkeeps (hscreened (isScreened_of_isWait wait)) rfl rfl, rfl⟩
  | unparks wait _ hparked =>
    refine ⟨?_, rfl⟩
    rw [hscreened (isScreened_of_isWait wait), stored, hparked]
    simp only [stored, Verdict.payloads, Option.toList, Multiset.coe_nil, add_zero, zero_add]
    exact add_comm _ _
  | starts wait =>
    exact ⟨hkeeps (hscreened (isScreened_of_isWait wait)) rfl (stored_startLoop ..), rfl⟩
  | replaces wait =>
    refine ⟨hkeeps (hscreened (isScreened_of_isWait wait)) ?_ (stored_retire ..), rfl⟩
    split <;> rfl
  | unsubscribes stage =>
    refine ⟨hkeeps (by rw [stage]; rfl) ?_ (stored_retire ..), rfl⟩
    split <;> rfl
  | closes stage | clears stage => exact ⟨hkeeps (by rw [stage]; rfl) rfl rfl, rfl⟩
  | closed stage | cleared stage =>
    exact ⟨hkeeps (by rw [stage]; rfl) p.payloads_owed rfl, rfl⟩
  | reenters stage | leaves stage =>
    rw [absorb_eq]
    exact ⟨hkeeps (by rw [stage]; rfl) rfl rfl, rfl⟩
  | reports stage =>
    rw [absorb_eq]
    exact ⟨hkeeps (by rw [stage]; rfl) (payloads_owed _) rfl, rfl⟩
  | @answered i r stage =>
    have hr : c.stage.payloads = (Verdict.returned r).payloads := by
      rw [stage]
      rcases r with e | _ | x <;> rfl
    exact ⟨by rw [hr], rfl⟩

/-- A subscription takes over what is parked, or leaves it there. -/
theorem SubscribeEffect.payloads {subscription : String} {r : Except Error Unit}
    (heffect : p.SubscribeEffect subscription q r) :
    q.payloads = p.payloads ∧ q.payloadPolls = p.payloadPolls := by
  cases heffect with
  | refused | collects => exact ⟨rfl, rfl⟩
  | starts => exact ⟨congrArg (· + p.callsHold CallStage.payloads) (stored_startLoop ..), rfl⟩

/-- What a discarded task held is lost. -/
theorem Consistent.payloads_discard (h : p.Consistent) (hl : l ∈ p.loops) :
    p.payloads = (p.discard l.id).payloads + l.stage.payloads := by
  have hloops := h.loopsHold_withLoop hl (m := l.discarded) rfl Stage.payloads
  have hnone : l.discarded.stage.payloads = [] := rfl
  rw [hnone, Multiset.coe_nil, add_zero] at hloops
  rw [h.discard_eq hl]
  show p.parked.toList + p.loopsHold Stage.payloads + p.callsHold CallStage.payloads =
    (p.parked.toList + (p.withLoop l.discarded).loopsHold Stage.payloads +
      p.callsHold CallStage.payloads + l.stage.payloads : Multiset α)
  rw [← hloops]
  ac_rfl

/-- A call that goes on takes its payload along. -/
theorem CallEffect.payloads_setCallStage {s : CallStage α} (h : q.Consistent) (hc : c ∈ p.calls)
    (heffect : p.CallEffect c q (.goesOn s)) : (q.setCallStage c.id s).payloads = p.payloads := by
  exact (h.balance_setCallStage heffect.calls_eq hc heffect.payloads.1).symm

/-- A call that returns hands its payload over. -/
theorem CallEffect.payloads_dropCall {r : CallResult α} (h : q.Consistent) (hc : c ∈ p.calls)
    (heffect : p.CallEffect c q (.returned r)) :
    p.payloads = (Verdict.returned r).payloads + (q.dropCall c.id).payloads := by
  have hdrop := h.balance_dropCall heffect.calls_eq hc heffect.payloads.1
  rw [add_comm q.stored, add_assoc] at hdrop
  exact hdrop

/-- No move makes a payload appear or vanish, but for those that are polled, delivered or lost. -/
theorem Move.payloads (h : p.Sound) {es} (hmove : p.Move es q) :
    p.payloads + (es.flatMap Occurrence.acquired : List α) =
        (es.flatMap Occurrence.delivered : List α) + q.payloads +
          (es.flatMap Occurrence.lost : List α) ∧
      q.payloadPolls = p.payloadPolls + (es.flatMap Occurrence.acquired).length := by
  -- Most moves neither poll nor deliver nor lose anything.
  have hquiet : ∀ {es : List (Occurrence α)} {q : Poller α},
      es.flatMap Occurrence.acquired = [] ∧ es.flatMap Occurrence.delivered = [] ∧
        es.flatMap Occurrence.lost = [] → q.payloads = p.payloads →
      q.payloadPolls = p.payloadPolls →
      p.payloads + (es.flatMap Occurrence.acquired : List α) =
          (es.flatMap Occurrence.delivered : List α) + q.payloads +
            (es.flatMap Occurrence.lost : List α) ∧
        q.payloadPolls = p.payloadPolls + (es.flatMap Occurrence.acquired).length := by
    rintro es q ⟨ha, hd, hl⟩ hpayloads hcount
    rw [ha, hd, hl, hpayloads, hcount]
    exact ⟨by simp, rfl⟩
  cases hmove with
  | loop mem move =>
    obtain ⟨hpayloads, hlost, hcount⟩ :=
      (move.effect h.toConsistent mem).payloads h.toConsistent mem move.alive
    rw [hlost]
    exact ⟨hpayloads.trans (add_zero _).symm, hcount⟩
  | @proceed q c runtime s mem ready goes =>
    have heffect := callEffect_of_moveCall h mem goes
    have hq := (heffect.sound h mem ready).1.toConsistent
    exact hquiet (p.noticing_carries c) (heffect.payloads_setCallStage hq mem) heffect.payloads.2
  | @finish q c runtime r mem ready goes =>
    have heffect := callEffect_of_moveCall h mem goes
    have hq := (heffect.sound h mem ready).1.toConsistent
    obtain ⟨ha, hd, hl⟩ := p.noticing_carries c
    have hreturn : (c.returning r).acquired = [] ∧ (c.returning r).lost = [] := by
      rcases c.returning_eq r with hr | hr <;> rw [hr] <;> exact ⟨rfl, rfl⟩
    simp only [List.flatMap_append, List.flatMap_singleton, ha, hd, hl, hreturn, List.nil_append,
      c.delivered_returning]
    refine ⟨?_, heffect.payloads.2⟩
    rw [heffect.payloads_dropCall hq mem]
  | @call c first =>
    refine hquiet ⟨rfl, rfl, rfl⟩ ?_ rfl
    have hhold : ({ p with calls := p.calls ++ [c] } : Poller α).callsHold CallStage.payloads =
        p.callsHold CallStage.payloads := by
      simp [callsHold, CallStage.payloads_of_isFirst first]
    rw [payloads, hhold]
    rfl
  | @drop c mem =>
    have hdrop := h.balance_dropCall (g := CallStage.payloads) rfl mem
      (rfl : p.stored + c.stage.payloads = _)
    -- What is lost with a call is what it had not read.
    have hlost : (Occurrence.dropped c.id c.unread : Occurrence α).lost = c.stage.payloads := by
      unfold Call.unread CallStage.payloads
      rcases c.stage with _ | _ | _ | _ | _ | ⟨i, _ | e | _ | x⟩ <;> rfl
    rw [List.flatMap_singleton, List.flatMap_singleton, List.flatMap_singleton, hlost]
    refine ⟨?_, rfl⟩
    rw [add_right_comm] at hdrop
    exact (add_zero _).trans (hdrop.trans (zero_add _).symm)
  | @subscribe runtime subscription script runs releasePanic =>
    obtain ⟨hpayloads, hcount⟩ :=
      (subscribeEffect p runtime subscription script runs releasePanic).payloads
    refine hquiet ?_ hpayloads hcount
    cases (p.subscribe runtime subscription script runs releasePanic).2 <;> exact ⟨rfl, rfl, rfl⟩
  | stop => exact hquiet ⟨rfl, rfl, rfl⟩ rfl rfl
  | release => exact hquiet ⟨rfl, rfl, rfl⟩ rfl rfl
  | @discard l mem waits =>
    refine ⟨?_, rfl⟩
    simp only [List.flatMap_singleton, Occurrence.acquired, Occurrence.delivered, Occurrence.lost,
      Multiset.coe_nil, add_zero, zero_add]
    exact h.payloads_discard mem

/-- Every payload that a poll has brought in was delivered, is held or was lost. -/
theorem Run.payloads {tr} (hrun : Run p tr q) (h : p.Sound) :
    p.payloads + (tr.flatMap Occurrence.acquired : List α) =
        (tr.flatMap Occurrence.delivered : List α) + q.payloads +
          (tr.flatMap Occurrence.lost : List α) ∧
      q.payloadPolls = p.payloadPolls + (tr.flatMap Occurrence.acquired).length := by
  induction hrun with
  | nil => simp
  | @snoc q r tr es hrun hmove ih =>
    have hq : q.Sound := h.run hrun
    obtain ⟨hpayloads, hcount⟩ := ih
    obtain ⟨hpayloads', hcount'⟩ := hmove.payloads hq
    simp only [List.flatMap_append, List.length_append, ← Multiset.coe_add]
    refine ⟨?_, by omega⟩
    rw [← add_assoc, hpayloads, add_right_comm, add_assoc _ q.payloads, hpayloads']
    ac_rfl

/-- A poller at rest has no payload in its hands. -/
theorem payloads_eq_held (h : p.atRest = true) : p.payloads = p.held := by
  have hloops : p.loopsHold Stage.payloads = p.loopsHold Stage.backlog := by
    refine congrArg _ (List.flatMap_congr fun l hl => ?_)
    have hrest := List.all_eq_true.1 h l hl
    cases hs : l.stage with
    | handing x => simp [hs, Stage.isHanding] at hrest
    | _ => rfl
  rw [payloads, stored, hloops, held]

/-- Nothing is lost unless a wait is dropped with its payload or a task is discarded with one. -/
theorem flatMap_lost_eq_nil (tr : List (Occurrence α)) :
    tr.flatMap Occurrence.lost = [] ↔
      (∀ id x, Occurrence.dropped id (some (.ok (some x))) ∉ tr) ∧
        ∀ i x xs, Occurrence.discarded i (x :: xs) ∉ tr := by
  rw [List.flatMap_eq_nil_iff]
  constructor
  · intro h
    exact ⟨fun id x hmem => List.cons_ne_nil _ _ (h _ hmem),
      fun i x xs hmem => List.cons_ne_nil _ _ (h _ hmem)⟩
  · rintro ⟨hdropped, hdiscarded⟩ o ho
    unfold Occurrence.lost
    split
    · exact absurd ho (hdropped _ _)
    · next i xs =>
      cases xs with
      | nil => rfl
      | cons x xs => exact absurd ho (hdiscarded _ _ _)
    · rfl

/-- Every payload that a poll has brought in, and no other, is delivered, held or lost.  At rest
it is held in one of three places, and all that was brought in is delivered or held unless a wait
has been dropped with its payload or a task has been discarded with one. -/
theorem payloads_conserved {name : String} {pacing : Pacing} {tr : List (Occurrence α)}
    (h : Run (idle name pacing) tr p) :
    p.payloadPolls = (tr.flatMap Occurrence.acquired).length ∧
      (tr.flatMap Occurrence.acquired : Multiset α) =
        tr.flatMap Occurrence.delivered + p.payloads + tr.flatMap Occurrence.lost ∧
      (p.atRest = true → p.payloads = p.held ∧
        ((tr.flatMap Occurrence.acquired : Multiset α) = tr.flatMap Occurrence.delivered + p.held ↔
          (∀ id x, Occurrence.dropped id (some (.ok (some x))) ∉ tr) ∧
            ∀ i x xs, Occurrence.discarded i (x :: xs) ∉ tr)) := by
  obtain ⟨hpayloads, hcount⟩ := h.payloads (sound_idle name pacing)
  have hidle : (idle name pacing : Poller α).payloads = 0 := rfl
  have hzero : (idle name pacing : Poller α).payloadPolls = 0 := rfl
  rw [hidle, zero_add] at hpayloads
  rw [hzero, Nat.zero_add] at hcount
  refine ⟨hcount, hpayloads, fun hrest => ⟨payloads_eq_held hrest, ?_⟩⟩
  rw [hpayloads, payloads_eq_held hrest, add_eq_left, Multiset.coe_eq_zero]
  exact flatMap_lost_eq_nil tr

/-- A wait is dropped during its poll, and a subscriber takes over the payload that is found. -/
def takeover (runs : Bool) : List (Cue Nat) :=
  [.call ⟨"w", true, .entering⟩, .resume "w" true, .loop 1 .go, .loop 1 (.check false),
    .loop 1 (.beginPoll {} 0), .drop "w", .loop 1 (.endPoll (.ok (.payload 7)) 0),
    .subscribe true "s" ⟨[], {}⟩ runs none]

/-- The payload of a waiter that has gone is not lost. -/
theorem payloads_conserved_takeover : ∃ (tr : List (Occurrence Nat)) (p : Poller Nat),
    Run (idle "a" default) tr p ∧ p.held = {7} ∧
      (tr.flatMap Occurrence.acquired : Multiset Nat) =
        tr.flatMap Occurrence.delivered + p.held := by
  have hrun : Run (idle "a" default) [.called "w" .entering, .pollBegan 1, .dropped "w" none,
      .polled 1 (.ok (.payload 7)), .subscribed "s"] _ := run_of_perform? (takeover true) rfl
  refine ⟨_, _, hrun, rfl, ?_⟩
  have hrest := (payloads_conserved hrun).2.2 rfl
  exact hrest.2.2 ⟨by simp, by simp⟩

/-- A task that is discarded before it runs takes its backlog with it. -/
theorem payload_lost_by_discard : ¬ ∀ (tr : List (Occurrence Nat)) (p : Poller Nat),
    Run (idle "a" default) tr p → p.atRest = true →
      (tr.flatMap Occurrence.acquired : Multiset Nat) =
        tr.flatMap Occurrence.delivered + p.held := by
  intro h
  have hrun : Run (idle "a" default) [.called "w" .entering, .pollBegan 1, .dropped "w" none,
      .polled 1 (.ok (.payload 7)), .subscribed "s", .discarded 2 [7]] _ :=
    run_of_perform? (takeover false ++ [.discard 2]) rfl
  have hlost := h _ _ hrun rfl
  cases congrArg Multiset.card hlost

end Poller

end Polling
