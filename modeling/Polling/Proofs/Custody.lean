import Polling.Proofs.Bookkeeping
import Polling.Proofs.Order

/-!
# At most one payload is in the hands of a poller

A loop that ends parks its payload without a look at the slot.  The slot is empty whenever that
happens: no move of a loop touches it before the end of that loop (`LoopMove.parks`), and the slot
is empty as long as there is a loop.  Main statement: in every run nothing that is parked is
overwritten, and of all payloads that were polled at most one has neither been handed over nor been
discarded with a task (`parked_slot_never_overwritten`).
-/

namespace Polling

variable {α : Type}

theorem Stage.length_payloads_le (s : Stage α) : s.payloads.length ≤ 1 := by
  cases s with
  | spawned backlog => cases backlog <;> simp [Stage.payloads]
  | _ => simp [Stage.payloads]

namespace Poller

variable {p q : Poller α} {l : Loop α} {c : Call α}

/-- Whether a loop ends with a payload that nobody listens for, and parks it.  The books are then
still what they were when the move began. -/
def Parks (p : Poller α) (l : Loop α) (q : Poller α) : Prop :=
  ∃ (r : Poller α) (x : α), p.SameBooks r ∧ r.listener? l = none ∧
    q = r.finish l (.delivered x) ∧ q.parked = some x

/-- A move of a loop leaves the slot as it is, unless the loop ends and parks a payload. -/
theorem LoopMove.parks {es} (hmove : p.LoopMove l es q) : q.parked = p.parked ∨ p.Parks l q := by
  rcases hmove.outline with same | ⟨r, e, same, rfl⟩
  · exact .inl same.parked
  · have hparked : (r.finish l e).parked = r.parking l e := (calls_finish r l e).2
    cases hlis : r.listener? l with
    | some id => exact .inl (by simp [hparked, parking, hlis, same.parked])
    | none =>
      cases e with
      | delivered x =>
        exact .inr ⟨r, x, same, hlis, rfl, by simp [hparked, parking, hlis]⟩
      | _ => exact .inl (by simp [hparked, parking, hlis, same.parked])

/-- A call leaves what is parked where it is, returns it, or gives it to a loop that it starts. -/
theorem CallEffect.parked_of_some {v : Verdict α} (heffect : p.CallEffect c q v) {x : α}
    (hx : p.parked = some x) :
    q.parked = some x ∨ q.parked = none ∧ v = .returned (.ok (some x)) ∧ c.stage.isWait = true := by
  cases heffect with
  | unparks wait _ hparked =>
    rw [hx] at hparked
    obtain rfl := Option.some.inj hparked
    exact .inr ⟨rfl, rfl, wait⟩
  | starts _ _ hparked =>
    rw [hx] at hparked
    cases hparked
  | reenters | leaves | reports =>
    rw [absorb_eq]
    exact .inl hx
  | _ => exact .inl hx

/-- What is parked stays parked until a wait returns it or a loop takes it over. -/
theorem Move.parked_of_some (h : p.Sound) {es} (hmove : p.Move es q) {x : α}
    (hx : p.parked = some x) :
    q.parked = some x ∨ q.parked = none ∧
      ((∃ id, .returned id (.ok (some x)) ∈ es) ∨ ∃ l ∈ q.loops, l.stage = .spawned (some x)) := by
  cases hmove with
  | loop mem move =>
    rw [h.parked_of_alive mem move.alive] at hx
    cases hx
  | proceed mem _ goes =>
    rcases (callEffect_of_moveCall h mem goes).parked_of_some hx with hx' | ⟨-, hv, -⟩
    · exact .inl hx'
    · cases hv
  | @finish q c runtime r mem _ goes =>
    rcases (callEffect_of_moveCall h mem goes).parked_of_some hx with hx' | ⟨hnone, hv, wait⟩
    · exact .inl hx'
    · obtain rfl := Verdict.returned.inj hv
      refine .inr ⟨hnone, .inl ⟨c.id, List.mem_append_right _ (List.mem_singleton.2 ?_)⟩⟩
      -- A wait that looks at the life cycle has not been answered.
      cases hs : c.stage <;> simp_all [CallStage.isWait, Call.returning]
  | @subscribe runtime subscription script runs releasePanic =>
    have heffect := subscribeEffect p runtime subscription script runs releasePanic
    generalize (p.subscribe runtime subscription script runs releasePanic).1 = q at heffect ⊢
    generalize (p.subscribe runtime subscription script runs releasePanic).2 = r at heffect ⊢
    cases heffect with
    | refused | collects => exact .inl hx
    | starts =>
      refine .inr ⟨rfl, .inr ⟨_, List.mem_append_right _ (List.mem_singleton.2 rfl), ?_⟩⟩
      simp only [hx]
  | _ => exact .inl hx

/-- What is in hand is in one place, and there is room for one. -/
theorem Consistent.length_inHand_le (h : p.Consistent) : p.inHand.length ≤ 1 := by
  by_cases hal : ∃ l ∈ p.loops, l.hasEnded = false
  · obtain ⟨l, hl, hal⟩ := hal
    rw [h.inHand_of_alive hl hal]
    exact l.stage.length_payloads_le
  · have hread : (p.read fun l => l.stage.payloads) = [] :=
      List.flatMap_eq_nil_iff.2 fun l hl =>
        Loop.reads_payloads.ended l (by_contra fun hne => hal ⟨l, hl, by simpa using hne⟩)
    rw [inHand, hread, List.append_nil]
    cases p.parked <;> simp

/-- The slot is empty as long as there is a loop, so a loop that parks a payload overwrites none;
no other move puts anything there.  Of all that was polled, whatever was done to the poller, at
most one payload is in its hands: all others were handed over, or discarded with a task. -/
theorem parked_slot_never_overwritten {name : String} {pacing : Pacing}
    {tr : List (Occurrence α)} {xs : List α} (h : Handovers (idle name pacing) tr xs p) :
    (p.current ≠ none → p.parked = none) ∧
      (∀ l ∈ p.loops, ∀ es q, p.LoopMove l es q →
        p.parked = none ∧ (q.parked = none ∨ p.Parks l q)) ∧
      (∀ es q x, p.Move es q → p.parked = some x → q.parked = some x ∨ q.parked = none ∧
        ((∃ id, .returned id (.ok (some x)) ∈ es) ∨ ∃ l ∈ q.loops, l.stage = .spawned (some x))) ∧
      p.inHand.length ≤ 1 ∧
      ∃ past, tr.flatMap Occurrence.acquired = past ++ p.inHand ∧ xs.Sublist past ∧
        ((∀ i y ys, .discarded i (y :: ys) ∉ tr) → xs = past) := by
  have hidle : (idle name pacing : Poller α).Sound := sound_idle name pacing
  have hsound : p.Sound := hidle.run h.run
  refine ⟨hsound.vacant, fun l hl es q hmove => ?_, fun es q x hmove hx => ?_,
    hsound.length_inHand_le, h.inOrder hidle⟩
  · have hnone := hsound.parked_of_alive hl hmove.alive
    exact ⟨hnone, hmove.parks.imp_left fun hsame => hsame.trans hnone⟩
  · exact hmove.parked_of_some hsound hx

/-- A payload whose waiter has gone waits with the loop of a subscriber, and the slot is free. -/
theorem parked_slot_never_overwritten_backlog : ∃ (tr : List (Occurrence Nat)) (p : Poller Nat),
    Handovers (idle "a" default) tr [] p ∧ p.current = some ⟨2, true⟩ ∧ p.parked = none ∧
      p.inHand.length ≤ 1 ∧ tr.flatMap Occurrence.acquired = [7] ∧ p.inHand = [7] := by
  have hrun : Run (idle "a" default) [.called "w" .entering, .pollBegan 1, .dropped "w" none,
      .polled 1 (.ok (.payload 7)), .subscribed "s"] _ := run_of_perform? (takeover true) rfl
  obtain ⟨xs, hxs⟩ := hrun.exists_handovers
  obtain ⟨hvacant, -, -, hlength, past, hpast, hsub, -⟩ := parked_slot_never_overwritten hxs
  -- All that was polled is in hand, so nothing has been handed over.
  have hseven : [7] = past ++ [7] := hpast
  obtain rfl : past = [] := by simpa using hseven
  obtain rfl : xs = [] := List.sublist_nil.1 hsub
  exact ⟨_, _, hxs, rfl, hvacant (Option.some_ne_none _), hlength, rfl, rfl⟩

end Poller

end Polling
