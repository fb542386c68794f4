import Polling.Proofs.Answers
import Polling.Proofs.Rest
import Polling.Proofs.Stages

/-!
# What a pending call waits for

In a system at rest a pending call waits for a loop of its poller: it joins it, listens for its
answer, or lets it be until it makes way.  That loop has not ended (`AtRest.waitsFor`), unless its
task was discarded after its waiter had gone: then the life cycle goes on naming it, and whoever
waits for it to make way waits for ever.  A wait that listens has its answer as soon as its loop has
ended, and keeps it until it returns it (`Poller.Move.answers`).
-/

namespace Polling

variable {α : Type}

/-- Whether a loop that stands here waits for time to pass or for the poll lock. -/
def Stage.isWaiting : Stage α → Bool
  | .queued | .polling _ _ | .calling _ _ | .asleep _ _ => true
  | _ => false

namespace Poller

variable {p q r : Poller α} {l k : Loop α} {c : Call α} {es : List (Occurrence α)}

/-- Whether a pending call waits for a loop. -/
inductive WaitsFor (p : Poller α) (c : Call α) (l : Loop α) : Prop
  | joins {sequel} (stage : c.stage = .joining l.id sequel)
  | listens (stage : c.stage = .receiving l.id none)
  /-- It waits until the loop of a waiter that has gone makes way, which somebody has joined. -/
  | lets (stage : c.stage = .yielded) (current : p.current = some ⟨l.id, false⟩)
      (gone : p.waiterGone l = true)

/-- A call that cannot move waits for a loop that has not ended. -/
theorem Sound.waitsFor_of_stuck (h : p.Sound) (hc : c ∈ p.calls) (hstuck : p.callReady c = false) :
    ∃ l ∈ p.loops, p.WaitsFor c l ∧ l.hasEnded = false := by
  cases stage : c.stage with
  | joining i sequel =>
    obtain ⟨l, hl, rfl, -⟩ := ((h.fits c hc).joining i sequel stage).loop
    simp only [callReady, stage, h.hasEnded_of_mem hl] at hstuck
    exact ⟨l, hl, .joins stage, hstuck⟩
  | receiving i answer =>
    cases answer with
    | none =>
      obtain ⟨-, j, hj⟩ := (h.fits c hc).awaiting i stage
      obtain ⟨l, hl, rfl, -⟩ := h.attached _ hj
      simp only [callReady, stage, h.hasEnded_of_mem hl] at hstuck
      exact ⟨l, hl, .listens stage, hstuck⟩
    | some r => simp [callReady, stage] at hstuck
  | entering | yielded | unsubscribing | closing => simp [callReady, stage] at hstuck

/-- A call that goes round in circles waits for the loop of a waiter that has gone. -/
theorem Sound.waitsFor_of_circles (h : p.Sound) (hcircles : p.circles c = true) :
    ∃ l ∈ p.loops, p.WaitsFor c l ∧ (l.hasEnded = true → l.runs = false) := by
  unfold circles at hcircles
  split at hcircles
  · next a stage hgone =>
    simp only [Bool.and_eq_true, Bool.not_eq_true'] at hcircles
    obtain ⟨⟨-, hjoined⟩, -⟩ := hcircles
    have hcurrent := current_of_abandoned? hgone
    obtain ⟨l, hl, hid, hcons, hended⟩ := h.attached a hcurrent
    refine ⟨l, hl, .lets stage ?_ ?_, hended⟩
    · rw [hcurrent, hid, ← hjoined]
    · simp only [abandoned?, hcons] at hgone
      unfold waiterGone
      split at hgone
      · next id hid =>
        rw [Option.some.inj hid]
        by_contra hthere
        simp [hthere] at hgone
      · cases hgone
  · cases hcircles

/-- A loop ends by a move of its own, or because its task is discarded. -/
theorem Move.ends (h : p.Sound) (hmove : p.Move es q) (hl : l ∈ p.loops) (hal : l.hasEnded = false)
    (hk : k ∈ q.loops) (hid : k.id = l.id) (hend : k.hasEnded = true) :
    p.LoopMove l es q ∨ k.runs = false ∧ q = p.discard l.id := by
  rcases hmove.loop_or_stays h hl hal with move | ⟨-, ⟨m, hm, same, hstage⟩ | ⟨-, -, rfl⟩⟩
  · exact .inl move
  · -- A loop that is found where it was has not ended.
    obtain rfl := (h.move hmove).eq_of_id hk hm (same.id.trans hid.symm)
    rw [Loop.hasEnded, hstage, ← Loop.hasEnded, hal] at hend
    cases hend
  · rw [h.discard_eq hl] at hk
    rcases mem_withLoop hk with rfl | ⟨-, hne⟩
    · exact .inr ⟨rfl, rfl⟩
    · exact absurd hid hne

/-- A loop that ends answers its waiter. -/
theorem LoopMove.answers (h : p.Sound) (hl : l ∈ p.loops) (hmove : p.LoopMove l es q)
    (hk : k ∈ q.loops) (hid : k.id = l.id) (hend : k.hasEnded = true) (hc : c ∈ p.calls)
    (hcons : l.consumer = .waiter c.id) : ∃ r, q.HasAnswer c.id r := by
  cases hmove.effect h.toConsistent hl with
  | @goesOn m _ _ _ _ _ same alive =>
    have hkm : k = m := by
      rcases mem_withLoop hk with hkm | ⟨-, hne⟩
      · exact hkm
      · exact absurd (hid.trans same.id.symm) hne
    rw [hkm, alive] at hend
    cases hend
  | @ends m e _ _ _ _ _ _ _ _ _ gone =>
    cases answer : e.answer with
    | some r =>
      exact ⟨r, _, mem_answering_of_pending h hl hmove.alive hc hcons answer, rfl, l.id, rfl⟩
    | none =>
      -- The waiter is there, so the loop has not been abandoned.
      have habandoned : e = .abandoned := by cases e <;> first | rfl | cases answer
      obtain ⟨id, hid, hnone⟩ := waiterGone_iff.1 (gone habandoned)
      exact absurd (Consumer.waiter.inj (hcons.symm.trans hid)) (hnone c hc)

/-- A wait listens to its loop until that has ended.  Then it has an answer, which it keeps until it
returns it; and if the task of its loop was discarded, which answers nobody, the wait moves on. -/
theorem Move.answers (h : p.Sound) (hmove : p.Move es q) (hl : l ∈ p.loops)
    (hal : l.hasEnded = false) (hk : k ∈ q.loops) (hid : k.id = l.id) (hend : k.hasEnded = true)
    (hc : c ∈ p.calls) (hcons : l.consumer = .waiter c.id) :
    (∃ r, q.HasAnswer c.id r ∧ ∀ tr s, Run q tr s → s.Gets c.id r tr) ∨
      k.runs = false ∧ c ∈ q.calls ∧ q.callReady c = true := by
  have hq := h.move hmove
  rcases hmove.ends h hl hal hk hid hend with move | ⟨hruns, rfl⟩
  · obtain ⟨r, hanswer⟩ := move.answers h hl hk hid hend hc hcons
    exact .inl ⟨r, hanswer, fun tr s hrun => hrun.gets hq hanswer⟩
  · have hlistens := (h.fits c hc).listening l hl hal hcons
    refine .inr ⟨hruns, hc, ?_⟩
    have hended := (hq.hasEnded_of_mem hk).trans hend
    rw [hid] at hended
    simp only [callReady, hlistens, hended]

end Poller

namespace System

variable {s : System α} {name : String} {m : Member α} {l : Loop α} {c : Call α}

/-- A loop of a system at rest waits for time to pass or for the poll lock, if it ever runs. -/
theorem AtRest.isWaiting (h : s.AtRest) (hs : s.Reachable) (hm : s.member? name = some m)
    (hl : l ∈ m.poller.loops) (hal : l.hasEnded = false) :
    l.stage.isWaiting = true ∨ l.runs = false := by
  have hstuck := h.movesOf_eq_nil hs hm hl
  simp only [movesOf] at hstuck
  cases stage : l.stage with
  | spawned backlog => exact .inr (by simpa [stage] using hstuck)
  | checking =>
    simp only [stage] at hstuck
    split at hstuck <;> cases hstuck
  | handing | yielded => simp [stage] at hstuck
  | queued | polling | calling | asleep => exact .inl rfl
  | ended => simp [Loop.hasEnded, stage] at hal

/-- Whatever a pending call of a system at rest waits for has not ended, with one exception. -/
theorem AtRest.waitsFor (h : s.AtRest) (hs : s.Reachable) (hm : s.member? name = some m)
    (hc : c ∈ m.poller.calls) :
    ∃ l ∈ m.poller.loops, m.poller.WaitsFor c l ∧
      (l.hasEnded = false ∨ c.stage = .yielded ∧ l.hasEnded = true ∧ l.runs = false) := by
  have hsound := (hs.poller hm).sound
  rcases h.waits hs hm hc with hstuck | hcircles
  · obtain ⟨l, hl, hwaits, hal⟩ := hsound.waitsFor_of_stuck hc hstuck
    exact ⟨l, hl, hwaits, .inl hal⟩
  · obtain ⟨l, hl, hwaits, hended⟩ := hsound.waitsFor_of_circles hcircles
    refine ⟨l, hl, hwaits, ?_⟩
    cases hend : l.hasEnded with
    | false => exact .inl rfl
    | true =>
      have hyielded : c.stage = .yielded := by
        cases hwaits with
        | lets stage => exact stage
        | joins stage | listens stage => simp [Poller.circles, stage] at hcircles
      exact .inr ⟨hyielded, rfl, hended hend⟩

/-- In a system at rest each pending call waits for a loop of its poller that has not ended: that
loop waits for time to pass or for the poll lock, or its task is one that never runs.  There is one
exception, a wait that goes round in circles because the task of a loop was discarded after its
waiter had gone.  And a wait whose loop has not ended listens to it.  As soon as the loop has ended
the wait has its answer and keeps it until it returns it; or the task of the loop was discarded, and
then the wait moves on by itself. -/
theorem calls_wait_for_loops (hs : s.Reachable) (hm : s.member? name = some m) :
    (s.AtRest → ∀ c ∈ m.poller.calls, ∃ l ∈ m.poller.loops, m.poller.WaitsFor c l ∧
      (l.hasEnded = false ∧ (l.stage.isWaiting = true ∨ l.runs = false) ∨
        c.stage = .yielded ∧ l.hasEnded = true ∧ l.runs = false)) ∧
    ∀ l ∈ m.poller.loops, l.hasEnded = false → ∀ c ∈ m.poller.calls, l.consumer = .waiter c.id →
      c.stage = .receiving l.id none ∧
      ∀ es q, m.poller.Move es q → ∀ k ∈ q.loops, k.id = l.id → k.hasEnded = true →
        (∃ r, q.HasAnswer c.id r ∧ ∀ tr u, Poller.Run q tr u → u.Gets c.id r tr) ∨
          k.runs = false ∧ c ∈ q.calls ∧ q.callReady c = true := by
  have hsound := (hs.poller hm).sound
  refine ⟨fun hrest c hc => ?_, fun l hl hal c hc hcons => ⟨?_, ?_⟩⟩
  · obtain ⟨l, hl, hwaits, hal | hexcept⟩ := hrest.waitsFor hs hm hc
    · exact ⟨l, hl, hwaits, .inl ⟨hal, hrest.isWaiting hs hm hl hal⟩⟩
    · exact ⟨l, hl, hwaits, .inr hexcept⟩
  · exact (hsound.fits c hc).listening l hl hal hcons
  · intro es q hmove k hk hid hend
    exact hmove.answers hsound hl hal hk hid hend hc hcons

/-- A shutdown joins the loop of a wait, which polls. -/
def joinedPoll : List (Impulse Nat) :=
  let pacing : Pacing := { growth := .linear .zero }
  [.build "a" "a" pacing ⟨[], { latency := 20, outcome := .payload 7 }⟩ (.own "a") none,
    .cue "a" (.call ⟨"w", true, .entering⟩), .cue "a" (.resume "w" true),
    .turn "a" 1 0, .turn "a" 1 0, .turn "a" 1 0,
    .cue "a" (.call ⟨"x", true, .closing⟩), .cue "a" (.resume "x" true)]

theorem calls_wait_for_loops_joined : ∃ (s : System Nat) (m : Member Nat) (c d : Call Nat)
    (l : Loop Nat) (es : List (Occurrence Nat)) (q : Poller Nat), s.Reachable ∧ s.AtRest ∧
      s.member? "a" = some m ∧ m.poller.calls = [c, d] ∧ m.poller.loops = [l] ∧
      m.poller.WaitsFor c l ∧ m.poller.WaitsFor d l ∧ l.hasEnded = false ∧
      c.stage = .receiving l.id none ∧ m.poller.LoopMove l es q ∧
      .polled l.id (.ok (.payload 7)) ∈ es ∧ q.Gets c.id (.ok (some 7)) [] := by
  have hs := reachable_after joinedPoll
  have hrest : (after joinedPoll).AtRest := rfl
  have hm : (after joinedPoll).member? "a" = some _ := rfl
  obtain ⟨hwaits, hanswers⟩ := calls_wait_for_loops hs hm
  obtain ⟨l, hl, hlw, -⟩ := hwaits hrest _ List.mem_cons_self
  obtain ⟨k, hk, hkx, -⟩ := hwaits hrest _ (List.mem_cons_of_mem _ List.mem_cons_self)
  obtain rfl := List.mem_singleton.1 hl
  obtain rfl := List.mem_singleton.1 hk
  obtain ⟨hlistens, hends⟩ := hanswers _ List.mem_cons_self rfl _ List.mem_cons_self rfl
  obtain ⟨r, ⟨c, hc, hid, i, hanswer⟩, hgets⟩ | ⟨hruns, -⟩ :=
    hends _ _ (.loop List.mem_cons_self (@Poller.LoopMove.endsPoll _ _ _ _ _ (.ok (.payload 7)) 20
      rfl)) _ List.mem_cons_self rfl rfl
  · have hr : r = .ok (some 7) := by
      rcases List.mem_cons.1 hc with rfl | hc
      · cases hanswer
        rfl
      · obtain rfl := List.mem_singleton.1 hc
        cases hanswer
    rw [hr] at hgets
    exact ⟨_, _, _, _, _, _, _, hs, hrest, hm, rfl, rfl, hlw, hkx, rfl, hlistens, .endsPoll rfl,
      List.mem_cons_self, hgets _ _ .nil⟩
  · cases hruns

/-- The task of a loop is discarded after its waiter has gone, and another wait finds the life cycle
as it was. -/
def discardedLoop : List (Impulse Nat) :=
  let pacing : Pacing := { growth := .linear .zero }
  [.build "a" "a" pacing ⟨[], { outcome := .payload 7 }⟩ (.own "a") none,
    .cue "a" (.call ⟨"w", false, .entering⟩), .cue "a" (.resume "w" true), .cue "a" (.drop "w"),
    .cue "a" (.discard 1), .cue "a" (.call ⟨"v", true, .entering⟩), .cue "a" (.resume "v" true),
    .cue "a" (.resume "v" true), .cue "a" (.resume "v" true)]

/-- A wait may be pending although there is no loop any more. -/
theorem call_left_hanging : ¬ ∀ (s : System Nat) (name : String) (m : Member Nat) (c : Call Nat),
    s.Reachable → s.AtRest → s.member? name = some m → c ∈ m.poller.calls →
      ∃ l ∈ m.poller.loops, l.hasEnded = false := by
  intro h
  have hm : (after discardedLoop).member? "a" = some _ := rfl
  obtain ⟨l, hl, hal⟩ := h _ _ _ _ (reachable_after discardedLoop) rfl hm List.mem_cons_self
  obtain rfl := List.mem_singleton.1 hl
  cases hal

end System

end Polling
