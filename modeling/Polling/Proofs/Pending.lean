import Polling.Proofs.Holdings
import Polling.Proofs.Shutdown

/-!
# How long a call is pending

A call is pending until it is over, which is when it returns or is dropped (`Move.pending`), and a
call that is a wait stays one.  The answer of its loop stays with it that long, too: nothing but the
return of exactly this answer takes it away, or the drop of the call (`Move.keepsAnswer`).
-/

namespace Polling

variable {α : Type}

/-- Whether a call that stands here is a wait. -/
def CallStage.isWaiting : CallStage α → Bool
  | .entering | .yielded | .receiving _ _ | .joining _ .reenter | .joining _ .conclude => true
  | .unsubscribing _ | .closing | .joining _ .leave | .joining _ .close => false

/-- Whether a call is over: it returned, or it was dropped. -/
def Occurrence.closes (id : String) : Occurrence α → Bool
  | dropped c _ | answered c _ | returned c _ => c = id
  | _ => false

namespace Poller

variable {p q r : Poller α} {l k : Loop α} {c d : Call α} {es tr : List (Occurrence α)}

/-- What a call returns closes it. -/
theorem closes_returning (c : Call α) (r : CallResult α) (id : String) :
    (c.returning r).closes id = decide (c.id = id) := by
  rcases c.returning_eq r with hr | hr <;> rw [hr] <;> rfl

/-- What a call notices closes no call. -/
theorem closes_of_mem_noticing {o : Occurrence α} (ho : o ∈ p.noticing c) (id : String) :
    o.closes id = false := by
  obtain ⟨f, rfl⟩ | ⟨f, rfl⟩ := mem_noticing ho <;> rfl

/-- A loop that moves closes no call. -/
theorem LoopEffect.closes {o : Occurrence α} (heffect : p.LoopEffect l es q) (ho : o ∈ es)
    (id : String) : o.closes id = false := by
  have hwork : ∀ i, o.workOf? = some i → o.closes id = false := by
    intro i hi
    cases o <;> first | rfl | cases hi
  cases heffect with
  | goesOn _ _ _ work => exact hwork _ (work o ho)
  | @ends _ e _ _ _ _ _ _ work =>
    rcases List.mem_append.1 ho with ho | ho
    · exact hwork _ (work o ho)
    · cases e with
      | failed f => obtain ⟨g, rfl⟩ | ⟨listener, rfl⟩ := mem_failing ho <;> rfl
      | _ => cases ho

/-- A call is there after a loop has ended, and as it was if it did not listen. -/
theorem exists_mem_answering (hc : c ∈ p.calls) (l : Loop α) (e : Ending α) :
    ∃ d ∈ p.answering l e, d.id = c.id ∧
      (d = c ∨ p.listener? l = some c.id ∧ ∃ r, d.stage = .receiving l.id (some r)) := by
  unfold answering
  split
  · next id r hlis _ =>
    refine ⟨_, List.mem_map_of_mem hc, ?_⟩
    split
    · next hid => exact ⟨rfl, .inr ⟨by rw [hlis, hid], r, rfl⟩⟩
    · exact ⟨rfl, .inl rfl⟩
  · exact ⟨c, hc, rfl, .inl rfl⟩

/-- A wait that goes on is a wait. -/
theorem CallEffect.waits {s : CallStage α} (heffect : p.CallEffect c q (.goesOn s))
    (hs : c.stage.isWaiting = true) : s.isWaiting = true := by
  generalize hv : Verdict.goesOn s = v at heffect
  cases heffect with
  | starts | reenters | clears =>
    obtain rfl := Verdict.goesOn.inj hv
    rfl
  | replaces =>
    obtain rfl := Verdict.goesOn.inj hv
    split <;> rfl
  | unsubscribes stage | closes stage => simp [stage, CallStage.isWaiting] at hs
  | _ => cases hv

/-- A call is pending until it is over, and a wait stays one. -/
theorem Move.pending (h : p.Sound) (hmove : p.Move es q) (hc : c ∈ p.calls)
    (unclosed : ∀ o ∈ es, o.closes c.id = false) :
    ∃ d ∈ q.calls, d.id = c.id ∧ (c.stage.isWaiting = true → d.stage.isWaiting = true) := by
  cases hmove with
  | loop mem move =>
    cases move.effect h.toConsistent mem with
    | goesOn => exact ⟨c, hc, rfl, id⟩
    | @ends _ e =>
      obtain ⟨d, hd, hid, rfl | ⟨-, r, hs⟩⟩ := exists_mem_answering hc _ e
      · exact ⟨d, hd, rfl, id⟩
      · exact ⟨d, hd, hid, fun _ => by rw [hs]; rfl⟩
  | @proceed q d runtime s mem _ goes =>
    have heffect := callEffect_of_moveCall h mem goes
    refine ⟨_, List.mem_map_of_mem (heffect.calls_eq ▸ hc), ?_⟩
    split
    · next hid =>
      obtain rfl := h.eq_of_callId mem hc hid
      exact ⟨rfl, heffect.waits⟩
    · exact ⟨rfl, id⟩
  | @finish q d runtime r mem _ goes =>
    have hcalls := (callEffect_of_moveCall h mem goes).calls_eq
    have hne : c.id ≠ d.id := by
      intro hid
      have hcloses := unclosed (d.returning r) (List.mem_append_right _ (List.mem_singleton.2 rfl))
      simp [closes_returning, hid] at hcloses
    exact ⟨c, List.mem_filter.2 ⟨hcalls ▸ hc, by simpa using hne⟩, rfl, id⟩
  | call => exact ⟨c, List.mem_append_left _ hc, rfl, id⟩
  | @drop d mem =>
    have hne : c.id ≠ d.id := by
      intro hid
      simp [Occurrence.closes, hid] at unclosed
    exact ⟨c, List.mem_filter.2 ⟨hc, by simpa using hne⟩, rfl, id⟩
  | subscribe => exact ⟨c, (subscribeEffect p _ _ _ _ _).calls_eq ▸ hc, rfl, id⟩
  | stop | release | discard => exact ⟨c, hc, rfl, id⟩

theorem Run.pending (h : p.Sound) (hrun : Run p tr q) (hc : c ∈ p.calls)
    (unclosed : ∀ o ∈ tr, o.closes c.id = false) :
    ∃ d ∈ q.calls, d.id = c.id ∧ (c.stage.isWaiting = true → d.stage.isWaiting = true) := by
  induction hrun with
  | nil => exact ⟨c, hc, rfl, id⟩
  | snoc hrun hmove ih =>
    obtain ⟨d, hd, hid, hwaits⟩ := ih fun o ho => unclosed o (List.mem_append_left _ ho)
    obtain ⟨d', hd', hid', hwaits'⟩ := hmove.pending (h.run hrun) hd fun o ho => by
      rw [hid]
      exact unclosed o (List.mem_append_right _ ho)
    exact ⟨d', hd', hid'.trans hid, hwaits' ∘ hwaits⟩

/-- Whether a wait has an answer from its loop, which it has not returned yet. -/
def HasAnswer (p : Poller α) (id : String) (r : CallResult α) : Prop :=
  ∃ c ∈ p.calls, c.id = id ∧ ∃ i, c.stage = .receiving i (some r)

/-- What becomes of a wait that has an answer: it has it still, or it returned exactly this answer
or was dropped with it. -/
def KeepsAnswer (q : Poller α) (id : String) (r : CallResult α) (tr : List (Occurrence α)) : Prop :=
  match tr.find? (Occurrence.closes id) with
  | none => q.HasAnswer id r
  | some o => o = .answered id r ∨ o = .dropped id (some r)

/-- The answer of a loop stays with the call until that returns it or is dropped. -/
theorem Move.keepsAnswer (h : p.Sound) (hmove : p.Move es q) {id : String} {r : CallResult α}
    (hanswer : p.HasAnswer id r) : q.KeepsAnswer id r es := by
  obtain ⟨c, hc, rfl, i, hs⟩ := hanswer
  have hkeeps : ∀ {es : List (Occurrence α)} {q : Poller α},
      (∀ o ∈ es, o.closes c.id = false) → c ∈ q.calls → q.KeepsAnswer c.id r es := by
    intro es q hes hq
    have hnone : es.find? (Occurrence.closes c.id) = none :=
      List.find?_eq_none.2 (by simpa using hes)
    rw [KeepsAnswer, hnone]
    exact ⟨c, hq, rfl, i, hs⟩
  cases hmove with
  | @loop q l es mem move =>
    have heffect := move.effect h.toConsistent mem
    refine hkeeps (fun o ho => heffect.closes ho _) ?_
    cases heffect with
    | goesOn => exact hc
    | @ends _ e =>
      obtain ⟨d, hd, -, rfl | ⟨hlis, -⟩⟩ := exists_mem_answering hc l e
      · exact hd
      · -- Who listens has no answer yet.
        obtain ⟨-, d', hd', hid, hnone⟩ := listener?_eq_some hlis
        obtain rfl := h.eq_of_callId hc hd' hid
        rw [hs] at hnone
        cases hnone
  | @proceed q d runtime s mem ready goes =>
    refine hkeeps (fun o ho => closes_of_mem_noticing ho _) ?_
    have hcalls := (callEffect_of_moveCall h mem goes).calls_eq
    -- A call that has its answer returns, so the one that goes on is another.
    have hne : c.id ≠ d.id := by
      intro hid
      obtain rfl := h.eq_of_callId mem hc hid
      simp [moveCall, hs] at goes
    exact List.mem_map.2 ⟨c, hcalls ▸ hc, if_neg hne⟩
  | @finish q d runtime r' mem ready goes =>
    have hcalls := (callEffect_of_moveCall h mem goes).calls_eq
    by_cases hid : d.id = c.id
    · obtain rfl := h.eq_of_callId hc mem hid
      obtain rfl : r = r' := by simpa [moveCall, hs] using congrArg Prod.snd goes
      have hnone : p.noticing d = [] := noticing_eq_nil fun j s hj => by simp [hs] at hj
      simp [KeepsAnswer, hnone, Call.returning, hs, Occurrence.closes]
    · refine hkeeps (fun o ho => ?_) ?_
      · rcases List.mem_append.1 ho with ho | ho
        · exact closes_of_mem_noticing ho _
        · obtain rfl := List.mem_singleton.1 ho
          simpa [closes_returning] using hid
      · exact List.mem_filter.2 ⟨hcalls ▸ hc, by simpa using Ne.symm hid⟩
  | call => exact hkeeps (by simp [Occurrence.closes]) (List.mem_append_left _ hc)
  | @drop d mem =>
    by_cases hid : d.id = c.id
    · obtain rfl := h.eq_of_callId hc mem hid
      simp [KeepsAnswer, Call.unread, hs, Occurrence.closes]
    · refine hkeeps (by simpa [Occurrence.closes] using hid) ?_
      exact List.mem_filter.2 ⟨hc, by simpa using Ne.symm hid⟩
  | @subscribe runtime subscription script runs releasePanic =>
    refine hkeeps ?_ ((subscribeEffect p _ _ _ _ _).calls_eq ▸ hc)
    cases (p.subscribe runtime subscription script runs releasePanic).2 <;>
      simp [subscribing, Occurrence.closes]
  | stop => exact hkeeps (by simp) hc
  | release => exact hkeeps (by simp) hc
  | discard => exact hkeeps (by simp [Occurrence.closes]) hc

theorem Run.keepsAnswer (h : p.Sound) (hrun : Run p tr q) {id : String} {r : CallResult α}
    (hanswer : p.HasAnswer id r) : q.KeepsAnswer id r tr := by
  induction hrun with
  | nil => exact hanswer
  | @snoc _ _ tr _ hrun hmove ih =>
    unfold KeepsAnswer at ih ⊢
    rw [List.find?_append]
    cases hclosed : tr.find? (Occurrence.closes id) with
    | none =>
      rw [hclosed] at ih
      exact hmove.keepsAnswer (h.run hrun) ih
    | some o =>
      rw [hclosed] at ih
      exact ih

end Poller

end Polling
