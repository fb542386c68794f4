import Polling.Proofs.Parking

/-!
# Where a payload goes

A payload that a poll has found is passed on at once, whatever was asked of the poller during that
poll (`LoopMove.passesOn`): the wait that the loop serves has its answer, or, if that wait was
dropped, the payload is parked, or it waits for the callback.
-/

namespace Polling

variable {α : Type}

namespace Poller

variable {p q : Poller α} {l : Loop α} {c : Call α} {x : α} {es : List (Occurrence α)}

/-- Whether a payload that a loop has found for a consumer is where that gets it, or the next one
if it has gone. -/
inductive PassesOn (q : Poller α) (i : Nat) (x : α) : Consumer → Prop
  | answered {c : Call α} (mem : c ∈ q.calls)
      (stage : c.stage = .receiving i (some (.ok (some x)))) :
      PassesOn q i x (.waiter c.id)
  | parked {call : String} (gone : ∀ c ∈ q.calls, c.id ≠ call) (parked : q.parked = some x) :
      PassesOn q i x (.waiter call)
  | awaited {m : Loop α} (id : m.id = i) (awaits : q.Awaits m x) : PassesOn q i x m.consumer

/-- A wait that is there gets the answer of its loop. -/
theorem mem_answering_of_pending (h : p.Sound) (hl : l ∈ p.loops) (hal : l.hasEnded = false)
    (hc : c ∈ p.calls) (hcons : l.consumer = .waiter c.id) {e : Ending α} {r : CallResult α}
    (answer : e.answer = some r) :
    { c with stage := .receiving l.id (some r) } ∈ p.answering l e := by
  have hlistens := listener?_of_receiving h.toConsistent hc hcons
    ((h.fits c hc).listening l hl hal hcons)
  simp only [answering, hlistens, answer]
  exact List.mem_map.2 ⟨c, hc, if_pos rfl⟩

/-- Nobody listens to the loop of a waiter that has gone. -/
theorem listener?_of_gone {id : String} (hcons : l.consumer = .waiter id)
    (gone : ∀ c ∈ p.calls, c.id ≠ id) : p.listener? l = none := by
  simp [listener?, hcons, isListening, call?_eq_none.2 gone]

theorem calls_finish (p : Poller α) (l : Loop α) (e : Ending α) :
    (p.finish l e).calls = p.answering l e ∧ (p.finish l e).parked = p.parking l e := by
  simp only [finish, handOver_eq, vacate]
  split <;> exact ⟨rfl, rfl⟩

/-- A loop that ends with a payload for its waiter passes it on. -/
theorem passesOn_finish (h : p.Sound) (hl : l ∈ p.loops) (hal : l.hasEnded = false) {id : String}
    (hcons : l.consumer = .waiter id) {r : Poller α} (hr : r.calls = p.calls) :
    (r.finish l (.delivered x)).PassesOn l.id x (.waiter id) := by
  obtain ⟨calls, parked⟩ := calls_finish r l (.delivered x)
  have hlistener : r.listener? l = p.listener? l := by
    unfold listener? isListening call?
    rw [hr]
  by_cases hpending : ∃ c ∈ p.calls, c.id = id
  · obtain ⟨c, hc, rfl⟩ := hpending
    refine .answered (c := { c with stage := .receiving l.id (some (.ok (some x))) }) ?_ rfl
    have hmem := mem_answering_of_pending h hl hal hc hcons (e := .delivered x) rfl
    rw [calls]
    simpa only [answering, hlistener, hr] using hmem
  · have gone : ∀ c ∈ p.calls, c.id ≠ id := fun c hc hid => hpending ⟨c, hc, hid⟩
    have hnobody : r.listener? l = none := by rw [hlistener, listener?_of_gone hcons gone]
    refine .parked ?_ ?_
    · rw [calls]
      simpa only [answering, hnobody, hr] using gone
    · rw [parked]
      simp only [parking, hnobody]

/-- What a loop does whose poll comes to its end. -/
theorem LoopMove.polled (hmove : p.LoopMove l es q) {i : Nat} {r : Except Failure (Polled α)}
    (ho : .polled i r ∈ es) :
    i = l.id ∧ es = p.polling l r ∧ ∃ now, q = p.endPoll l now r := by
  have hfailing : ∀ f, .polled i r ∉ p.failing l f := by
    intro f hmem
    obtain ⟨g, hg⟩ | ⟨listener, hg⟩ := mem_failing hmem <;> cases hg
  cases hmove with
  | @endsPoll _ _ r' now =>
    cases r' with
    | ok y =>
      obtain ⟨hi, rfl⟩ := Occurrence.polled.inj (List.mem_singleton.1 ho)
      exact ⟨hi, rfl, now, rfl⟩
    | error f =>
      rcases List.mem_cons.1 ho with heq | hmem
      · obtain ⟨hi, rfl⟩ := Occurrence.polled.inj heq
        exact ⟨hi, rfl, now, rfl⟩
      · exact absurd hmem (hfailing f)
  | beginsCallback | endsCallback =>
    rcases List.mem_cons.1 ho with heq | hmem
    · cases heq
    · split at hmem
      all_goals first | exact absurd hmem (hfailing _) | cases hmem
  | beginsPoll => cases List.mem_singleton.1 ho
  | begins | interrupted | queues | resumes | wakes => cases ho

/-- A payload that a poll has found is passed on, whatever happened during the poll. -/
theorem LoopMove.passesOn (h : p.Sound) (hl : l ∈ p.loops) (hmove : p.LoopMove l es q) {i : Nat}
    (hx : .polled i (.ok (.payload x)) ∈ es) : q.PassesOn l.id x l.consumer := by
  have hal := hmove.alive
  have ran := hmove.ran h.toConsistent hl
  obtain ⟨-, -, now, rfl⟩ := hmove.polled hx
  cases hcons : l.consumer with
  | waiter id =>
    simp only [endPoll, foundPayload, hcons]
    exact passesOn_finish h hl hal hcons (by rfl)
  | subscriber subscription =>
    let m : Loop α := { l with backoff := l.backoff.reset, stage := .handing x }
    have hawaits : Awaits (p.endPoll l now (.ok (.payload x))) m x := by
      refine ⟨?_, ran, ⟨subscription, hcons⟩, .inr rfl⟩
      simp only [endPoll, foundPayload, hcons]
      refine List.mem_map.2 ⟨_, List.mem_map_of_mem hl, ?_⟩
      simp [m]
    exact hcons ▸ .awaited (m := m) rfl hawaits

/-- A payload that a poll of a run has found was passed on when that poll was over. -/
theorem Run.passesOn (h : p.Sound) (hl : l ∈ p.loops) {before after : List (Occurrence α)}
    (hrun : Run p (before ++ .polled l.id (.ok (.payload x)) :: after) q) :
    ∃ r, Run p (before ++ [.polled l.id (.ok (.payload x))]) r ∧
      r.PassesOn l.id x l.consumer ∧ Run r after q := by
  generalize htr : before ++ .polled l.id (.ok (.payload x)) :: after = tr at hrun
  induction hrun generalizing after with
  | nil => simp at htr
  | @snoc q r tr es hrun hmove ih =>
    -- The move that ends the poll tells of nothing else.
    have hlast : .polled l.id (.ok (.payload x)) ∈ es →
        es = [.polled l.id (.ok (.payload x))] ∧ r.PassesOn l.id x l.consumer := by
      intro hx
      have hq := h.run hrun
      rcases hmove.loop_or_still with ⟨k, hk, move⟩ | still
      · obtain ⟨hid, hes, -⟩ := move.polled hx
        obtain ⟨m, hm, hbecomes⟩ := hrun.kept h hl
        obtain rfl := hq.eq_of_id hm hk (hid.symm.trans hbecomes.id.symm)
        have hpasses := move.passesOn hq hk hx
        rw [hbecomes.id, hbecomes.consumer] at hpasses
        exact ⟨by rw [hes, polling, hid], hpasses⟩
      · cases (still _ hx).1
    rcases List.append_eq_append_iff.1 htr with ⟨bs, rfl, hes⟩ | ⟨bs, rfl, hes⟩
    · cases bs with
      | nil =>
        obtain ⟨hsingle, hpasses⟩ := hlast (by rw [← List.nil_append es, ← hes]; simp)
        rw [List.nil_append, hsingle] at hes
        obtain rfl := List.tail_eq_of_cons_eq hes
        exact ⟨r, by simpa [hsingle] using hrun.snoc hmove, hpasses, .nil⟩
      | cons o bs =>
        obtain ⟨rfl, rfl⟩ := List.cons.inj hes
        obtain ⟨u, hu, hpasses, hafter⟩ := ih rfl
        exact ⟨u, hu, hpasses, hafter.snoc hmove⟩
    · obtain ⟨hsingle, hpasses⟩ := hlast (by rw [hes]; simp)
      rw [hes] at hsingle
      obtain ⟨rfl, rfl⟩ : bs = [] ∧ after = [] := by
        simpa [List.append_eq_singleton_iff] using hsingle
      exact ⟨r, by simpa [hes] using hrun.snoc hmove, hpasses, .nil⟩

end Poller

end Polling
