import Polling.Proofs.Payloads
import Polling.Proofs.Stages

/-!
# What a poller counts

A poller counts the polls that came back empty and those that came back with a payload, and nothing
else: neither polls that fail nor payloads that are handed over later (`Run.counters`).  Its pacing
never changes, and every loop begins with the first pause of it (`Reachable.fresh`).
-/

namespace Polling

variable {α : Type}

/-- Whether a poll came back empty. -/
def Occurrence.isEmptyPoll : Occurrence α → Bool
  | polled _ (.ok .empty) => true
  | _ => false

theorem Stage.Leads.ne_spawned {s t : Stage α} (h : s.Leads t) (b : Option α) : t ≠ .spawned b := by
  cases h <;> simp

namespace Poller

variable {p q : Poller α} {l : Loop α} {c : Call α} {es tr : List (Occurrence α)}

/-- What is told of a failure is no poll. -/
theorem countP_isEmptyPoll_failing (p : Poller α) (l : Loop α) (f : Failure) :
    (p.failing l f).countP Occurrence.isEmptyPoll = 0 := by
  refine List.countP_eq_zero.2 fun o ho => ?_
  obtain ⟨g, rfl⟩ | ⟨listener, rfl⟩ := mem_failing ho <;> simp [Occurrence.isEmptyPoll]

theorem countP_isEmptyPoll_noticing (p : Poller α) (c : Call α) :
    (p.noticing c).countP Occurrence.isEmptyPoll = 0 := by
  refine List.countP_eq_zero.2 fun o ho => ?_
  obtain ⟨f, rfl⟩ | ⟨f, rfl⟩ := mem_noticing ho <;> simp [Occurrence.isEmptyPoll]

/-- A loop that ends counts nothing. -/
theorem emptyPolls_finish (p : Poller α) (l : Loop α) (e : Ending α) :
    (p.finish l e).emptyPolls = p.emptyPolls ∧ (p.finish l e).pacing = p.pacing := by
  simp only [finish, handOver_eq, vacate]
  split <;> exact ⟨rfl, rfl⟩

theorem emptyPolls_wake (p : Poller α) (l : Loop α) (w : Wake) :
    (p.wake l w).emptyPolls = p.emptyPolls ∧ (p.wake l w).pacing = p.pacing := by
  cases w with
  | timer => exact ⟨rfl, rfl⟩
  | cancelled | abandoned => exact emptyPolls_finish p l _
  | signalled => exact emptyPolls_finish p.beginStopping l _

/-- A poll is counted as empty if it came back so. -/
theorem emptyPolls_endPoll (p : Poller α) (l : Loop α) (now : Nat)
    (r : Except Failure (Polled α)) :
    (p.endPoll l now r).emptyPolls =
        p.emptyPolls + (p.polling l r).countP Occurrence.isEmptyPoll ∧
      (p.endPoll l now r).pacing = p.pacing := by
  rcases r with f | _ | x
  · obtain ⟨hcount, hpacing⟩ := emptyPolls_finish p l (.failed f)
    refine ⟨hcount.trans ?_, hpacing⟩
    simp [polling, Occurrence.isEmptyPoll, countP_isEmptyPoll_failing]
  · simp only [endPoll, foundNothing]
    split <;> exact ⟨rfl, rfl⟩
  · simp only [endPoll, foundPayload]
    split
    · exact emptyPolls_finish _ l _
    · exact ⟨rfl, rfl⟩

theorem emptyPolls_beginCallback (p : Poller α) (l : Loop α) (now : Nat) (x : α) :
    (p.beginCallback l now).emptyPolls =
        p.emptyPolls + (p.invoking l x).countP Occurrence.isEmptyPoll ∧
      (p.beginCallback l now).pacing = p.pacing := by
  have hinvoked : ∀ es : List (Occurrence α), es.countP Occurrence.isEmptyPoll = 0 →
      (.invoked l.id x :: es).countP Occurrence.isEmptyPoll = 0 := by
    intro es hes
    simp [Occurrence.isEmptyPoll, hes]
  simp only [beginCallback, invoking]
  cases l.script.next.1.outcome with
  | panickedAtOnce panic =>
    rw [hinvoked _ (countP_isEmptyPoll_failing p l _)]
    exact emptyPolls_finish _ l _
  | done | failed reason | panicked panic => exact ⟨rfl, rfl⟩

theorem emptyPolls_endCallback (p : Poller α) (l : Loop α) (o : CallbackOutcome) :
    (p.endCallback l o).emptyPolls =
        p.emptyPolls + (p.handling l o).countP Occurrence.isEmptyPoll ∧
      (p.endCallback l o).pacing = p.pacing := by
  cases o with
  | done => exact ⟨rfl, rfl⟩
  | failed | panicked | panickedAtOnce =>
    obtain ⟨hcount, hpacing⟩ := emptyPolls_finish p l _
    refine ⟨hcount.trans ?_, hpacing⟩
    simp [handling, Occurrence.isEmptyPoll, countP_isEmptyPoll_failing]

/-- A loop counts the polls of its own that come back empty. -/
theorem LoopMove.emptyPolls (hmove : p.LoopMove l es q) :
    q.emptyPolls = p.emptyPolls + es.countP Occurrence.isEmptyPoll ∧ q.pacing = p.pacing := by
  cases hmove with
  | @begins backlog =>
    simp only [beginLoop]
    split
    · exact ⟨rfl, rfl⟩
    · exact emptyPolls_finish _ l _
    · exact ⟨rfl, rfl⟩
  | interrupted | wakes => exact emptyPolls_wake p l _
  | queues | beginsPoll | resumes => exact ⟨rfl, rfl⟩
  | endsPoll => exact emptyPolls_endPoll p l _ _
  | beginsCallback => exact emptyPolls_beginCallback p l _ _
  | endsCallback => exact emptyPolls_endCallback p l _

/-- A call counts nothing. -/
theorem CallEffect.emptyPolls {v : Verdict α} (heffect : p.CallEffect c q v) :
    q.emptyPolls = p.emptyPolls ∧ q.pacing = p.pacing := by
  cases heffect with
  | reenters | leaves | reports =>
    rw [absorb_eq]
    exact ⟨rfl, rfl⟩
  | _ => exact ⟨rfl, rfl⟩

theorem SubscribeEffect.emptyPolls {subscription : String} {r : Except Error Unit}
    (heffect : p.SubscribeEffect subscription q r) :
    q.emptyPolls = p.emptyPolls ∧ q.pacing = p.pacing := by
  cases heffect <;> exact ⟨rfl, rfl⟩

theorem Move.emptyPolls (h : p.Sound) (hmove : p.Move es q) :
    q.emptyPolls = p.emptyPolls + es.countP Occurrence.isEmptyPoll ∧ q.pacing = p.pacing := by
  cases hmove with
  | loop mem move => exact move.emptyPolls
  | proceed mem _ goes =>
    rw [countP_isEmptyPoll_noticing]
    exact (callEffect_of_moveCall h mem goes).emptyPolls
  | @finish q c runtime r mem _ goes =>
    have hreturn : (c.returning r).isEmptyPoll = false := by
      rcases c.returning_eq r with hr | hr <;> rw [hr] <;> rfl
    rw [List.countP_append, countP_isEmptyPoll_noticing, List.countP_singleton, hreturn]
    exact (callEffect_of_moveCall h mem goes).emptyPolls
  | @subscribe runtime subscription script runs releasePanic =>
    obtain ⟨hcount, hpacing⟩ :=
      (subscribeEffect p runtime subscription script runs releasePanic).emptyPolls
    refine ⟨hcount.trans ?_, hpacing⟩
    cases (p.subscribe runtime subscription script runs releasePanic).2 <;> rfl
  | call | drop | stop | release | discard => exact ⟨rfl, rfl⟩

/-- What is counted in a run. -/
theorem Run.counters (h : p.Sound) (hrun : Run p tr q) :
    q.emptyPolls = p.emptyPolls + tr.countP Occurrence.isEmptyPoll ∧
      q.payloadPolls = p.payloadPolls + (tr.flatMap Occurrence.acquired).length ∧
      q.pacing = p.pacing := by
  have hempty : q.emptyPolls = p.emptyPolls + tr.countP Occurrence.isEmptyPoll ∧
      q.pacing = p.pacing := by
    induction hrun with
    | nil => exact ⟨rfl, rfl⟩
    | snoc hrun hmove ih =>
      obtain ⟨hcount, hpacing⟩ := hmove.emptyPolls (h.run hrun)
      rw [List.countP_append]
      exact ⟨by omega, hpacing.trans ih.2⟩
  exact ⟨hempty.1, (hrun.payloads h).2, hempty.2⟩

/-- Whether each loop that has not run yet begins with the first pause. -/
def Fresh (p : Poller α) : Prop :=
  ∀ l ∈ p.loops, ∀ b, l.stage = .spawned b → l.backoff = .start p.pacing

/-- Where a loop comes from that is there after a move of a call: it was there before, and has been
asked to end if anything, or it has just been started. -/
theorem CallEffect.origin {v : Verdict α} (heffect : p.CallEffect c q v) {k : Loop α}
    (hk : k ∈ q.loops) : (∃ l ∈ p.loops, l.Stays k) ∨
      k.backoff = .start p.pacing ∧ ∃ b, k.stage = .spawned b := by
  cases heffect with
  | starts =>
    rcases List.mem_append.1 hk with hk | hk
    · exact .inl ⟨k, hk, .refl k⟩
    · obtain rfl := List.mem_singleton.1 hk
      exact .inr ⟨rfl, _, rfl⟩
  | replaces | unsubscribes =>
    obtain ⟨l, hl, rfl⟩ := List.mem_map.1 hk
    refine .inl ⟨l, hl, ?_⟩
    split
    · exact l.stays_cancelled
    · exact .refl l
  | reenters | leaves | reports =>
    rw [absorb_eq] at hk
    exact .inl ⟨k, hk, .refl k⟩
  | _ => exact .inl ⟨k, hk, .refl k⟩

/-- Where a loop comes from that is there after a move: it has stayed where it was, it has moved, or
it has just been started. -/
theorem Move.origin (h : p.Sound) (hmove : p.Move es q) {k : Loop α} (hk : k ∈ q.loops) :
    (∃ l ∈ p.loops, l.Stays k) ∨ (∃ l ∈ p.loops, p.LoopMove l es q ∧ k.id = l.id) ∨
      k.backoff = .start p.pacing ∧ ∃ b, k.stage = .spawned b := by
  cases hmove with
  | @loop _ l _ mem move =>
    obtain ⟨f, hq, same, -⟩ := move.advances
    by_cases hid : k.id = l.id
    · exact .inr (.inl ⟨l, mem, move, hid⟩)
    · rw [hq] at hk
      obtain ⟨k₀, hk₀, rfl⟩ := List.mem_map.1 hk
      split at hid
      · next h₀ =>
        rw [h.eq_of_id mem hk₀ h₀] at hid
        exact absurd same.id hid
      · next h₀ => exact .inl ⟨k₀, hk₀, by rw [if_neg h₀]; exact .refl k₀⟩
  | proceed mem _ goes =>
    exact ((callEffect_of_moveCall h mem goes).origin hk).imp_right .inr
  | finish mem _ goes =>
    exact ((callEffect_of_moveCall h mem goes).origin hk).imp_right .inr
  | @subscribe runtime subscription script runs releasePanic =>
    have heffect := subscribeEffect p runtime subscription script runs releasePanic
    generalize (p.subscribe runtime subscription script runs releasePanic).2 = r at heffect
    generalize (p.subscribe runtime subscription script runs releasePanic).1 = q at heffect hk
    cases heffect with
    | starts =>
      rcases List.mem_append.1 hk with hk | hk
      · exact .inl ⟨k, hk, .refl k⟩
      · obtain rfl := List.mem_singleton.1 hk
        exact .inr (.inr ⟨rfl, _, rfl⟩)
    | _ => exact .inl ⟨k, hk, .refl k⟩
  | discard mem waits =>
    obtain ⟨f, hloops, hstays⟩ := stays_discard h.toConsistent mem (Stage.alive_of_awaits waits)
    rw [hloops] at hk
    obtain ⟨l, hl, rfl⟩ := List.mem_map.1 hk
    exact .inl ⟨l, hl, hstays l hl⟩
  | call | drop | stop | release => exact .inl ⟨k, hk, .refl k⟩

theorem Move.fresh (h : p.Sound) (hp : p.Fresh) (hmove : p.Move es q) : q.Fresh := by
  intro k hk b hs
  rw [(hmove.emptyPolls h).2]
  rcases hmove.origin h hk with ⟨l, hl, hstays⟩ | ⟨l, hl, move, hid⟩ | ⟨hstart, -⟩
  · have hstage := hstays.stage_eq_of_alive (by simp [Loop.hasEnded, hs])
    exact hstays.backoff.trans (hp l hl b (hstage.symm.trans hs))
  · -- A loop that moves has run.
    obtain ⟨f, hq, -, -, hstage⟩ := move.advances
    obtain rfl := h.eq_of_updateLoop hl hq hk hid
    rcases hstage with hleads | ⟨hend, -⟩
    · exact absurd hs (hleads.ne_spawned b)
    · simp [Loop.hasEnded, hs] at hend
  · exact hstart

/-- Every loop begins with the first pause. -/
theorem Reachable.fresh (h : p.Reachable) : p.Fresh :=
  (h.preserves (I := fun p => p.Sound ∧ p.Fresh)
    (fun name pacing => ⟨sound_idle name pacing, fun l hl => by cases hl⟩)
    fun hp hmove => ⟨hp.1.move hmove, hmove.fresh hp.1 hp.2⟩).2

end Poller

end Polling
