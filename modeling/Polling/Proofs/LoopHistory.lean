import Polling.Proofs.Soundness

/-!
# How the loops of a poller come along

Loops are never forgotten: each move keeps every loop under its number and for its consumer, and
none that has ended starts again (`LoopsFollow.kept`).  A subscription never gets a second loop,
since its name is new when its loop starts (`LoopsFollow.known`).  Only a loop that has not ended
works (`Move.worker`).
-/

namespace Polling

variable {α : Type}

namespace Poller

variable {p q r : Poller α} {l m : Loop α} {c : Call α}

/-- The loops of one poller and what has become of them. -/
structure LoopsFollow (p q : Poller α) : Prop where
  kept : ∀ l ∈ p.loops, ∃ m ∈ q.loops, l.Becomes m
  known : ∀ m ∈ q.loops, (∃ l ∈ p.loops, l.Becomes m) ∨
    ∀ subscription, m.consumer = .subscriber subscription →
      ∀ l ∈ p.loops, l.consumer ≠ .subscriber subscription

theorem LoopsFollow.of_eq (h : q.loops = p.loops) : p.LoopsFollow q where
  kept l hl := ⟨l, h ▸ hl, .refl l⟩
  known m hm := .inl ⟨m, h ▸ hm, .refl m⟩

/-- Loops may be changed one by one. -/
theorem LoopsFollow.of_map {f : Loop α → Loop α} (h : q.loops = p.loops.map f)
    (hf : ∀ l ∈ p.loops, l.Becomes (f l)) : p.LoopsFollow q where
  kept l hl := ⟨f l, h ▸ List.mem_map_of_mem hl, hf l hl⟩
  known m hm := by
    rw [h] at hm
    obtain ⟨l, hl, rfl⟩ := List.mem_map.1 hm
    exact .inl ⟨l, hl, hf l hl⟩

/-- A new loop may be started. -/
theorem LoopsFollow.of_append (h : q.loops = p.loops ++ [m])
    (fresh : ∀ subscription, m.consumer = .subscriber subscription →
      ∀ l ∈ p.loops, l.consumer ≠ .subscriber subscription) : p.LoopsFollow q where
  kept l hl := ⟨l, h ▸ List.mem_append_left _ hl, .refl l⟩
  known k hk := by
    rw [h] at hk
    rcases List.mem_append.1 hk with hk | hk
    · exact .inl ⟨k, hk, .refl k⟩
    · obtain rfl := List.mem_singleton.1 hk
      exact .inr fresh

/-- A loop that has not ended may come further. -/
theorem LoopsFollow.of_withLoop (hp : p.Consistent) (hl : l ∈ p.loops) (hal : l.hasEnded = false)
    (same : l.SameTask m) (h : q.loops = (p.withLoop m).loops) : p.LoopsFollow q := by
  apply LoopsFollow.of_map h
  intro k hk
  split
  · next hid =>
    obtain rfl := hp.eq_of_id hl hk (hid.trans same.id)
    exact same.becomes fun hend => by simp [hal] at hend
  · exact .refl k

theorem loopsFollow_retire (p : Poller α) (a : Attachment) : p.LoopsFollow (p.retire a) := by
  apply LoopsFollow.of_map (q := p.retire a) rfl
  intro k _
  split
  · exact ⟨rfl, rfl, id, .inl rfl⟩
  · exact .refl k

theorem loopsFollow_discard (h : p.Consistent) (hl : l ∈ p.loops) (hal : l.hasEnded = false) :
    p.LoopsFollow (p.discard l.id) := by
  apply LoopsFollow.of_map (q := p.discard l.id) rfl
  intro k hk
  split
  · next hid =>
    obtain rfl := h.eq_of_id hl hk hid
    exact Loop.becomes_discarded hal
  · exact .refl k

theorem LoopEffect.loopsFollow (h : p.Consistent) (hl : l ∈ p.loops) (hal : l.hasEnded = false) {es}
    (heffect : p.LoopEffect l es q) : p.LoopsFollow q := by
  cases heffect with
  | goesOn _ same => exact .of_withLoop h hl hal same rfl
  | ends _ same => exact .of_withLoop h hl hal same rfl

theorem CallEffect.loopsFollow {v : Verdict α} (heffect : p.CallEffect c q v) :
    p.LoopsFollow q := by
  cases heffect with
  | starts => exact .of_append rfl (by simp)
  | replaces | unsubscribes => exact loopsFollow_retire p _
  | reenters | leaves | reports =>
    rw [absorb_eq]
    exact .of_eq rfl
  | _ => exact .of_eq rfl

theorem SubscribeEffect.loopsFollow {subscription : String} {r : Except Error Unit}
    (fresh : ∀ l ∈ p.loops, l.consumer ≠ .subscriber subscription)
    (heffect : p.SubscribeEffect subscription q r) : p.LoopsFollow q := by
  cases heffect with
  | starts =>
    apply LoopsFollow.of_append rfl
    intro s hs
    obtain rfl := Consumer.subscriber.inj hs
    exact fresh
  | _ => exact .of_eq rfl

/-- Every move takes all loops along. -/
theorem Move.loopsFollow (h : p.Sound) {es} (hmove : p.Move es q) : p.LoopsFollow q := by
  cases hmove with
  | loop mem move =>
    exact (move.effect h.toConsistent mem).loopsFollow h.toConsistent mem move.alive
  | proceed mem _ goes =>
    -- Where the call stands afterwards is no matter of loops.
    have hfollow := (callEffect_of_moveCall h mem goes).loopsFollow
    exact ⟨hfollow.kept, hfollow.known⟩
  | finish mem _ goes =>
    have hfollow := (callEffect_of_moveCall h mem goes).loopsFollow
    exact ⟨hfollow.kept, hfollow.known⟩
  | subscribe fresh => exact (subscribeEffect p _ _ _ _ _).loopsFollow fresh
  | discard mem waits => exact loopsFollow_discard h.toConsistent mem (Stage.alive_of_awaits waits)
  | _ => exact .of_eq rfl

/-- No loop is forgotten in any number of moves. -/
theorem Run.kept (h : p.Sound) {tr} (hrun : Run p tr q) (hl : l ∈ p.loops) :
    ∃ m ∈ q.loops, l.Becomes m := by
  induction hrun with
  | nil => exact ⟨l, hl, .refl l⟩
  | @snoc q r tr es hrun hmove ih =>
    have hq : q.Sound := h.run hrun
    obtain ⟨m, hm, hbecomes⟩ := ih
    obtain ⟨k, hk, hbecomes'⟩ := (hmove.loopsFollow hq).kept m hm
    exact ⟨k, hk, hbecomes.trans hbecomes'⟩

/-- What is told of a failure is no work. -/
theorem workOf?_of_mem_failing {f : Failure} {o : Occurrence α} (ho : o ∈ p.failing l f) :
    o.workOf? = none := by
  obtain ⟨g, rfl⟩ | ⟨listener, rfl⟩ := mem_failing ho <;> rfl

/-- What a call notices is neither work nor the failure of a loop. -/
theorem still_of_mem_noticing {o : Occurrence α} (ho : o ∈ p.noticing c) :
    o.workOf? = none ∧ ∀ i f listener, o ≠ .failed i f listener := by
  obtain ⟨f, rfl⟩ | ⟨f, rfl⟩ := mem_noticing ho <;> exact ⟨rfl, by simp⟩

/-- Only loops work and fail: whatever else is told in a move is neither. -/
theorem Move.loop_or_still {es} (hmove : p.Move es q) : (∃ l ∈ p.loops, p.LoopMove l es q) ∨
    ∀ o ∈ es, o.workOf? = none ∧ ∀ i f listener, o ≠ .failed i f listener := by
  cases hmove with
  | loop mem move => exact .inl ⟨_, mem, move⟩
  | proceed => exact .inr fun o ho => still_of_mem_noticing ho
  | @finish _ c _ r =>
    refine .inr fun o ho => ?_
    rcases List.mem_append.1 ho with ho | ho
    · exact still_of_mem_noticing ho
    · obtain rfl := List.mem_singleton.1 ho
      rcases c.returning_eq r with hr | hr <;> rw [hr] <;> exact ⟨rfl, by simp⟩
  | call | drop => exact .inr (by simp [Occurrence.workOf?])
  | @subscribe runtime subscription script runs releasePanic =>
    refine .inr ?_
    cases (p.subscribe runtime subscription script runs releasePanic).2 <;>
      simp [subscribing, Occurrence.workOf?]
  | stop | release => exact .inr (by simp)
  | discard => exact .inr (by simp [Occurrence.workOf?])

/-- Whatever works in a move is a loop that has not ended. -/
theorem Move.worker (h : p.Sound) {es} (hmove : p.Move es q) {o : Occurrence α} (ho : o ∈ es)
    {i : Nat} (hi : o.workOf? = some i) : ∃ l ∈ p.loops, l.id = i ∧ l.hasEnded = false := by
  rcases hmove.loop_or_still with ⟨l, hl, move⟩ | still
  · refine ⟨l, hl, ?_, move.alive⟩
    have heffect := move.effect h.toConsistent hl
    cases heffect with
    | goesOn _ _ _ work => exact Option.some.inj ((work o ho).symm.trans hi)
    | @ends m e es _ _ _ _ _ work =>
      rcases List.mem_append.1 ho with ho | ho
      · exact Option.some.inj ((work o ho).symm.trans hi)
      · cases e with
        | failed f => simp [workOf?_of_mem_failing ho] at hi
        | _ => cases ho
  · simp [(still o ho).1] at hi

/-- When a task is discarded, that is all that happens. -/
theorem Move.discards (h : p.Sound) {es} (hmove : p.Move es q) {i : Nat} {xs : List α}
    (ho : .discarded i xs ∈ es) : ∃ l ∈ p.loops, l.stage.awaits = true ∧
      es = [.discarded l.id l.stage.payloads] ∧ q = p.discard l.id := by
  cases hmove with
  | discard mem waits => exact ⟨_, mem, waits, rfl, rfl⟩
  | loop mem move =>
    have heffect := move.effect h.toConsistent mem
    cases heffect with
    | goesOn _ _ _ work => cases work _ ho
    | @ends _ e _ _ _ _ _ _ work =>
      rcases List.mem_append.1 ho with ho | ho
      · cases work _ ho
      · cases e with
        | failed f => obtain ⟨g, hg⟩ | ⟨listener, hg⟩ := mem_failing ho <;> cases hg
        | _ => cases ho
  | proceed => obtain ⟨f, hf⟩ | ⟨f, hf⟩ := mem_noticing ho <;> cases hf
  | @finish _ c _ r =>
    rcases List.mem_append.1 ho with ho | ho
    · obtain ⟨f, hf⟩ | ⟨f, hf⟩ := mem_noticing ho <;> cases hf
    · rcases c.returning_eq r with hr | hr <;> simp [hr] at ho
  | call | drop => simp at ho
  | @subscribe runtime subscription script runs releasePanic =>
    cases hr : (p.subscribe runtime subscription script runs releasePanic).2 <;>
      simp [hr, subscribing] at ho
  | stop | release => cases ho

end Poller

end Polling
