import Polling.Proofs.Chronicles
import Polling.Proofs.Counters

/-!
# The timing of an episode

From the moment in which a loop is started its backoff is what the schedule says, and the loop keeps
to that: it pauses for that long after every empty poll, and asks for its next poll when the pause
is over, or when the callback has returned (`Loop.OnSchedule`).  That may be late if the rest of
the system is, and is exact in a prompt chronicle.  `System.keeps_schedule` says so of every loop,
together with what the schedule can be relied on for and what the poller counts meanwhile.
-/

namespace Polling

variable {α : Type}

/-- Whether a loop that stands here pauses. -/
def Stage.isPause : Stage α → Bool
  | .yielded | .asleep _ _ => true
  | _ => false

/-- Whether a loop asks for its next poll when that is due, given what it has done since: no sooner,
and in a prompt chronicle no later.  It may end instead. -/
def Loop.AsksAt (k : Loop α) (prompt : Bool) (now due : Nat) : List (Nat × Beat) → Prop
  | [] => k.hasEnded = true ∨ (prompt = true → k.runs = true → now ≤ due)
  | (t, e) :: _ => e = .asks ∧ Rhythm.OnTime prompt due t

/-- Whether a loop pauses after an empty poll at the time `t`, for as long as a backoff says, or has
done so. -/
inductive Loop.Pauses (now t : Nat) (b : Backoff) (k : Loop α) : Prop
  /-- It has asked for a pause of exactly this length, which its timer counts in whole
  milliseconds. -/
  | asleep (some : b.current.isZero = false)
      (stage : k.stage = .asleep b.current (t + b.current.timer)) (same : k.backoff = b)
  /-- A pause of no length is no sleep. -/
  | yielded (none : b.current.isZero = true) (stage : k.stage = .yielded) (same : k.backoff = b)
  /-- The backoff grows when the pause is over. -/
  | goesOn (passed : t + b.current.timer ≤ now) (stage : k.stage = .checking)
      (advanced : k.backoff = b.advance)
  | ended (h : k.hasEnded = true)

/-- Whether a loop that has come to `k` has kept to the schedule, with everything it did in a log
up to the time `now`. -/
structure Loop.OnSchedule (k : Loop α) (p : Pacing) (prompt : Bool) (now : Nat)
    (log : List (Nat × Beat)) : Prop where
  /-- After an empty poll it pauses for as long as the schedule says. -/
  pauses : ∀ before t, log = before ++ [(t, .empty)] → k.Pauses now t (p.schedule before)
  /-- It pauses for no other reason. -/
  paused : k.stage.isPause = true → ∃ before t, log = before ++ [(t, .empty)]
  /-- When the pause is over it asks for its next poll. -/
  empty : ∀ before after t, log = before ++ (t, .empty) :: after →
    k.AsksAt prompt now (t + (p.schedule before).current.timer) after
  /-- After the callback it asks for its next poll at once. -/
  handled : ∀ before after t, log = before ++ (t, .handled) :: after → k.AsksAt prompt now t after
  /-- What it asked for comes back. -/
  asked : ∀ before after t u e, log = before ++ (t, .asks) :: (u, e) :: after →
    e = .empty ∨ e = .payload
  /-- A payload is handed to the callback before anything else. -/
  payload : ∀ before after t u e, log = before ++ (t, .payload) :: (u, e) :: after → e = .handled
  /-- Except in a pause its backoff is that of the schedule. -/
  backoff : k.hasEnded = false → k.stage.isPause = false → k.backoff = p.schedule log

namespace Loop

variable {prompt : Bool} {now due t : Nat} {k : Loop α} {p : Pacing} {b : Backoff} {r q : Rhythm}
  {log : List (Nat × Beat)}

/-- A loop that is due to ask for a poll is not late. -/
theorem StandsAt.of_due (h : k.StandsAt prompt now r) (hdue : r.due? = some due) :
    k.hasEnded = true ∨ (prompt = true → k.runs = true → now ≤ due) := by
  unfold StandsAt at h
  cases stage : k.stage with
  | spawned backlog =>
    cases backlog with
    | none =>
      rw [stage] at h
      obtain ⟨since, rfl, on⟩ := h
      cases hdue
      exact .inr fun hprompt hruns => on.2 (by simp [hprompt, hruns])
    | some x =>
      rw [stage] at h
      subst h
      cases hdue
  | checking =>
    rw [stage] at h
    obtain ⟨since, rfl | ⟨b, rfl, -⟩, on⟩ := h
    · cases hdue
      exact .inr fun hprompt _ => on.2 hprompt
    · cases hdue
      exact .inr fun hprompt _ => on.2 hprompt
  | queued | polling | handing | calling =>
    -- Something else comes first.
    rw [stage] at h
    subst h
    cases hdue
  | yielded =>
    rw [stage] at h
    obtain ⟨since, rfl, on, -⟩ := h
    cases hdue
    exact .inr fun hprompt _ => on.2 hprompt
  | asleep pause wake =>
    rw [stage] at h
    obtain ⟨rfl, early, -⟩ := h
    cases hdue
    exact .inr fun hprompt _ => early hprompt
  | ended => exact .inl (by simp only [hasEnded, stage])

/-- Once it is due a loop asks for its next poll. -/
theorem StandsAt.asksAt (h : k.StandsAt prompt now q) (hfollows : Rhythm.Follows prompt r log q)
    (hdue : r.due? = some due) : k.AsksAt prompt now due log := by
  cases hfollows with
  | nil => exact h.of_due hdue
  | cons next rest => exact next.of_due hdue

/-- A loop that does not pause has the backoff of its rhythm. -/
theorem StandsAt.backoff_eq (h : k.StandsAt prompt now r) (hal : k.hasEnded = false)
    (hpause : k.stage.isPause = false) : k.backoff = r.backoff := by
  unfold StandsAt at h
  cases stage : k.stage with
  | spawned backlog =>
    cases backlog with
    | none =>
      rw [stage] at h
      obtain ⟨since, rfl, -⟩ := h
      rfl
    | some x =>
      rw [stage] at h
      subst h
      rfl
  | checking =>
    rw [stage] at h
    obtain ⟨since, rfl | ⟨b, rfl, hb⟩, -⟩ := h
    · rfl
    · exact hb
  | queued | polling | handing | calling =>
    rw [stage] at h
    subst h
    rfl
  | yielded | asleep => simp [stage, Stage.isPause] at hpause
  | ended => simp [hasEnded, stage] at hal

/-- After an empty poll a loop pauses, or its pause is over. -/
theorem StandsAt.pauses (h : k.StandsAt prompt now (.paused b (t + b.current.timer))) :
    k.Pauses now t b := by
  unfold StandsAt at h
  cases stage : k.stage with
  | spawned backlog => cases backlog <;> simp [stage] at h
  | queued | polling | handing | calling => simp [stage] at h
  | checking =>
    rw [stage] at h
    obtain ⟨due, hr | ⟨b, hr, advanced⟩, on⟩ := h
    · cases hr
    · cases hr
      exact .goesOn on.1 stage advanced
  | yielded =>
    rw [stage] at h
    obtain ⟨due, hr, -, none⟩ := h
    cases hr
    exact .yielded none stage rfl
  | asleep pause wake =>
    rw [stage] at h
    obtain ⟨hr, -, some, rfl⟩ := h
    cases hr
    exact .asleep some stage rfl
  | ended => exact .ended (by simp only [hasEnded, stage])

theorem StandsAt.paused (h : k.StandsAt prompt now r) (hpause : k.stage.isPause = true) :
    ∃ b due, r = .paused b due := by
  unfold StandsAt at h
  cases stage : k.stage with
  | yielded =>
    rw [stage] at h
    obtain ⟨due, hr, -⟩ := h
    exact ⟨_, due, hr⟩
  | asleep pause due =>
    rw [stage] at h
    exact ⟨_, due, h.1⟩
  | _ => simp [stage, Stage.isPause] at hpause

/-- Whoever keeps to a rhythm that begins with a schedule is on schedule. -/
theorem StandsAt.onSchedule (h : k.StandsAt prompt now q) (hfollows : Rhythm.Follows prompt r log q)
    (hstart : r.backoff = .start p) (hr : ∀ b due, r ≠ .paused b due) :
    k.OnSchedule p prompt now log where
  pauses before t hlog := by
    rw [hlog] at hfollows
    have hafter := hfollows.of_empty
    rw [hstart] at hafter
    cases hafter
    exact h.pauses
  paused hpause := by
    obtain ⟨b, due, rfl⟩ := h.paused hpause
    exact hfollows.to_paused (hr b due)
  empty before after t hlog := by
    rw [hlog] at hfollows
    have hafter := hfollows.of_empty
    rw [hstart] at hafter
    exact h.asksAt hafter rfl
  handled before after t hlog := by
    rw [hlog] at hfollows
    obtain ⟨b, hafter⟩ := hfollows.of_handled
    exact h.asksAt hafter rfl
  asked before after t u e hlog := by
    rw [hlog] at hfollows
    exact hfollows.of_asks
  payload before after t u e hlog := by
    rw [hlog] at hfollows
    exact hfollows.of_payload
  backoff hal hpause := by
    rw [h.backoff_eq hal hpause, hfollows.backoff_eq, hstart]
    rfl

end Loop

namespace System

variable {s t : System α} {name : String} {m : Member α} {l : Loop α} {prompt : Bool}
  {xs : List (Moment α)}

/-- A loop that is started keeps to the schedule of its poller. -/
theorem Chronicle.onSchedule (h : s.Chronicle prompt xs t) (hs : s.Reachable)
    (hm : s.member? name = some m) (hl : l ∈ m.poller.loops) {backlog : Option α}
    (stage : l.stage = .spawned backlog) :
    ∃ n k, t.member? name = some n ∧ k ∈ n.poller.loops ∧ k.id = l.id ∧
      k.OnSchedule m.poller.pacing prompt t.clock (log name l.id xs) ∧
      (backlog = none → k.AsksAt prompt t.clock s.clock (log name l.id xs)) ∧
      (backlog ≠ none → ∀ e ∈ (log name l.id xs).head?, e.2 = .handled) := by
  have hstart := (hs.poller hm).fresh l hl _ stage
  cases backlog with
  | none =>
    have hr : l.StandsAt prompt s.clock (.ready l.backoff s.clock) := by
      simp only [Loop.StandsAt, stage]
      exact ⟨_, rfl, Nat.le_refl _, fun _ => Nat.le_refl _⟩
    obtain ⟨n, k, q, hn, hk, same, hfollows, hq⟩ := h.follows hs hm hl hr
    exact ⟨n, k, hn, hk, same.id, hq.onSchedule hfollows hstart (by simp),
      fun _ => hq.asksAt hfollows rfl, fun hsome => absurd rfl hsome⟩
  | some x =>
    have hr : l.StandsAt prompt s.clock (.calling l.backoff) := by
      simp only [Loop.StandsAt, stage]
    obtain ⟨n, k, q, hn, hk, same, hfollows, hq⟩ := h.follows hs hm hl hr
    refine ⟨n, k, hn, hk, same.id, hq.onSchedule hfollows hstart (by simp), by simp, fun _ => ?_⟩
    generalize log name l.id xs = es at hfollows
    cases hfollows with
    | nil => simp
    | cons next rest =>
      cases next
      simp

/-- Every loop keeps to the schedule of its poller from the moment in which it is started.  The
schedule is steady, and the poller counts the polls that come back empty and those that come back
with a payload, and nothing else. -/
theorem keeps_schedule (hs : s.Reachable) (hm : s.member? name = some m)
    (usable : m.poller.pacing.flaw? = none) (h : s.Chronicle prompt xs t) :
    m.poller.pacing.Steady ∧ ∃ n, t.member? name = some n ∧
      (∀ l ∈ m.poller.loops, ∀ backlog, l.stage = .spawned backlog →
        ∃ k ∈ n.poller.loops, k.id = l.id ∧
          k.OnSchedule m.poller.pacing prompt t.clock (log name l.id xs) ∧
          (backlog = none → k.AsksAt prompt t.clock s.clock (log name l.id xs)) ∧
          (backlog ≠ none → ∀ e ∈ (log name l.id xs).head?, e.2 = .handled)) ∧
      n.poller.emptyPolls = m.poller.emptyPolls + (told name xs).countP Occurrence.isEmptyPoll ∧
      n.poller.payloadPolls =
        m.poller.payloadPolls + ((told name xs).flatMap Occurrence.acquired).length := by
  obtain ⟨n, hn, hrun⟩ := h.run.poller hm
  obtain ⟨hempty, hpayload, -⟩ := hrun.counters (hs.poller hm).sound
  refine ⟨Pacing.steady_of_usable usable, n, hn, fun l hl backlog stage => ?_, hempty, hpayload⟩
  obtain ⟨n', k, hn', hk, hkeeps⟩ := h.onSchedule hs hm hl stage
  obtain rfl := Option.some.inj (hn.symm.trans hn')
  exact ⟨k, hk, hkeeps⟩

/-- A subscription to a source that has something on its third poll. -/
def pacedStart : List (Impulse Nat) :=
  let pacing : Pacing := { initial := .ofMillis 10, growth := .linear (.ofMillis 10) }
  let source : Script (Attempt Nat) :=
    ⟨[(2, { outcome := .empty }), (1, { outcome := .payload 7 })], { outcome := .empty }⟩
  [.build "a" "a" pacing source (.own "a") none,
    .cue "a" (.subscribe true "s" ⟨[], { outcome := .done }⟩ true none)]

/-- The turns of its loop, with the time that passes meanwhile. -/
def pacedTurns : List (Impulse Nat) :=
  let poll := [.turn "a" 1 0, .turn "a" 1 0, .turn "a" 1 0]
  .turn "a" 1 0 :: poll ++ [.pass 10, .turn "a" 1 0] ++ poll ++ [.pass 20, .turn "a" 1 0] ++ poll ++
    [.turn "a" 1 0, .turn "a" 1 0] ++ poll

/-- What comes of these turns, with no time lost. -/
def pacedRun : List (Moment Nat) × System Nat := (after pacedStart).chronicleOf true pacedTurns

/-- After the payload the pause is the first one again. -/
theorem keeps_schedule_reset : ∃ (s t : System Nat) (m n : Member Nat) (l k : Loop Nat)
    (xs : List (Moment Nat)), s.Reachable ∧ s.member? "a" = some m ∧
      m.poller.pacing.flaw? = none ∧ s.Chronicle true xs t ∧ l ∈ m.poller.loops ∧
      l.stage = .spawned none ∧ t.member? "a" = some n ∧ k ∈ n.poller.loops ∧ k.id = l.id ∧
      k.OnSchedule m.poller.pacing true 30 (log "a" l.id xs) ∧
      log "a" l.id xs = [(0, .asks), (0, .empty), (10, .asks), (10, .empty), (30, .asks),
        (30, .payload), (30, .handled), (30, .asks), (30, .empty)] ∧
      k.stage = .asleep (.ofMillis 10) 40 ∧ n.poller.emptyPolls = 3 ∧
      n.poller.payloadPolls = 1 := by
  have hs := reachable_after pacedStart
  have hm : (after pacedStart).member? "a" = some _ := rfl
  have hchronicle : (after pacedStart).Chronicle true pacedRun.1 pacedRun.2 :=
    chronicle_chronicleOf true _ pacedTurns
  obtain ⟨-, n, hn, hloops, hempty, hpayload⟩ := keeps_schedule hs hm rfl hchronicle
  obtain ⟨k, hk, hid, hschedule, -⟩ := hloops _ List.mem_cons_self none rfl
  have hclock : pacedRun.2.clock = 30 := by decide +kernel
  have hlog : log "a" 1 pacedRun.1 = [(0, .asks), (0, .empty), (10, .asks), (10, .empty),
      (30, .asks), (30, .payload), (30, .handled), (30, .asks), (30, .empty)] := by decide +kernel
  have hstages : (pacedRun.2.member? "a").map (fun n => n.poller.loops.map Loop.stage) =
      some [.asleep (.ofMillis 10) 40] := by decide +kernel
  have htold : (told "a" pacedRun.1).countP Occurrence.isEmptyPoll = 3 ∧
      ((told "a" pacedRun.1).flatMap Occurrence.acquired).length = 1 := by decide +kernel
  rw [htold.1] at hempty
  rw [htold.2] at hpayload
  rw [hclock] at hschedule
  rw [hn, Option.map_some, Option.some.injEq] at hstages
  have hstage := List.mem_map_of_mem (f := Loop.stage) hk
  rw [hstages] at hstage
  exact ⟨_, _, _, n, _, k, _, hs, hm, rfl, hchronicle, List.mem_cons_self, rfl, hn, hk, hid,
    hschedule, hlog, List.mem_singleton.1 hstage, hempty, hpayload⟩

end System

end Polling
