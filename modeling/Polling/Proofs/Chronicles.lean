import Polling.Proofs.Paces
import Polling.Proofs.Rest

/-!
# Chronicles of a system

A `Chronicle` is a run of a system that keeps a record of the system before and after each impulse,
so it tells when everything happened.  Time may pass in it as it likes, also while there are tasks
that could run and are late then.  In a chronicle that is prompt time passes only when the system is
at rest, and only until something is due (`System.Timely`).

`System.log` is what a chronicle tells of the pace of one loop, and `Loop.StandsAt` says where a
loop stands in its rhythm.  A loop keeps to its rhythm in every chronicle (`Chronicle.follows`): in
each impulse it makes the move that comes next, or it stays where it is and is not late.
-/

namespace Polling

variable {α : Type}

namespace System

variable {s : System α} {name : String} {m : Member α} {l : Loop α}

/-- Whether a loop is in line for the poll lock. -/
def isInLine (s : System α) (name : String) (i : Nat) : Bool :=
  match (s.member? name).bind fun m => m.poller.loop? i with
  | some l => l.stage.isQueued
  | none => false

theorem isInLine_eq (hs : s.Reachable) (hm : s.member? name = some m) (hl : l ∈ m.poller.loops) :
    s.isInLine name l.id = l.stage.isQueued := by
  simp only [isInLine, hm, Option.bind_some, (hs.poller hm).sound.loop?_of_mem hl]

/-- Whether a system came to another without being late: time has passed only if the system was at
rest, and only until something was due. -/
def Timely (s t : System α) : Prop :=
  t.clock ≤ s.clock ∨ s.AtRest ∧ ∀ due ∈ s.nextDue?, t.clock ≤ due

instance {t : System α} : Decidable (s.Timely t) := inferInstanceAs (Decidable (_ ∨ _))

end System

/-- One impulse of a chronicle: what came to pass, with the system before and after it. -/
structure Moment (α : Type) where
  before : System α
  incidents : List (Incident α)
  after : System α

/-- A loop asks for a poll when it gets in line. -/
def asking : (before after : Bool) → List Beat
  | false, true => [.asks]
  | _, _ => []

/-- The beats of a loop in one impulse, with their time. -/
def Moment.log (name : String) (i : Nat) (x : Moment α) : List (Nat × Beat) :=
  (asking (x.before.isInLine name i) (x.after.isInLine name i) ++
    System.beats name i x.incidents).map (x.before.clock, ·)

namespace System

variable {s t : System α} {name : String} {prompt : Bool} {xs : List (Moment α)}

/-- What is told in a chronicle of the life of one poller. -/
def told (name : String) (xs : List (Moment α)) : List (Occurrence α) :=
  (xs.flatMap Moment.incidents).filterMap (Incident.of? name)

/-- The beats of a loop in a chronicle, with their times. -/
def log (name : String) (i : Nat) (xs : List (Moment α)) : List (Nat × Beat) :=
  xs.flatMap (Moment.log name i)

/-- Any number of impulses with a record of each, of which none is late in a prompt chronicle. -/
inductive Chronicle (prompt : Bool) : System α → List (Moment α) → System α → Prop
  | nil {s : System α} : Chronicle prompt s [] s
  | cons {s t u : System α} {es : List (Incident α)} {xs : List (Moment α)} {x : Impulse α}
      (responds : s.respond? x = some (es, t)) (timely : prompt = true → s.Timely t)
      (rest : Chronicle prompt t xs u) : Chronicle prompt s (⟨s, es, t⟩ :: xs) u

/-- A chronicle is a run. -/
theorem Chronicle.run (h : s.Chronicle prompt xs t) : s.Run (xs.flatMap Moment.incidents) t := by
  induction h with
  | nil => exact .nil
  | cons responds _ _ ih => exact (Run.single responds).append ih

/-- The chronicle of these impulses, if they are possible one after the other and none of them is
late. -/
def chronicle? (prompt : Bool) (s : System α) :
    List (Impulse α) → Option (List (Moment α) × System α)
  | [] => some ([], s)
  | x :: xs =>
    (s.respond? x).bind fun (es, t) =>
      if prompt = true → s.Timely t then
        (t.chronicle? prompt xs).map fun (ms, u) => (⟨s, es, t⟩ :: ms, u)
      else none

theorem chronicle_of_chronicle? (is : List (Impulse α))
    (h : s.chronicle? prompt is = some (xs, t)) : s.Chronicle prompt xs t := by
  induction is generalizing s xs with
  | nil =>
    cases h
    exact .nil
  | cons i is ih =>
    obtain ⟨⟨es, u⟩, hresponds, hrest⟩ := Option.bind_eq_some_iff.1 h
    by_cases timely : prompt = true → s.Timely u
    · simp only [if_pos timely] at hrest
      obtain ⟨⟨ms, v⟩, hlater, hpair⟩ := Option.map_eq_some_iff.1 hrest
      cases hpair
      exact .cons hresponds timely (ih hlater)
    · simp [if_neg timely] at hrest

/-- The chronicle of these impulses, as long as they are possible and not late. -/
def chronicleOf (prompt : Bool) (s : System α) (is : List (Impulse α)) :
    List (Moment α) × System α := (s.chronicle? prompt is).getD ([], s)

theorem chronicle_chronicleOf (prompt : Bool) (s : System α) (is : List (Impulse α)) :
    s.Chronicle prompt (s.chronicleOf prompt is).1 (s.chronicleOf prompt is).2 := by
  unfold chronicleOf
  cases h : s.chronicle? prompt is with
  | some r => exact chronicle_of_chronicle? is h
  | none => exact .nil

end System

/-- Where a loop stands in its rhythm at the time `now`.  A task that never runs is never late. -/
def Loop.StandsAt (prompt : Bool) (now : Nat) (l : Loop α) (r : Rhythm) : Prop :=
  match l.stage with
  | .spawned none =>
    ∃ since, r = .ready l.backoff since ∧ Rhythm.OnTime (prompt && l.runs) since now
  | .checking =>
    ∃ due, (r = .ready l.backoff due ∨ ∃ b : Backoff, r = .paused b due ∧ l.backoff = b.advance) ∧
      Rhythm.OnTime prompt due now
  | .queued | .polling _ _ => r = .asked l.backoff
  | .spawned (some _) | .handing _ | .calling _ _ => r = .calling l.backoff
  | .yielded =>
    ∃ due, r = .paused l.backoff due ∧ Rhythm.OnTime prompt due now ∧
      l.backoff.current.isZero = true
  | .asleep pause due =>
    r = .paused l.backoff due ∧ (prompt = true → now ≤ due) ∧
      l.backoff.current.isZero = false ∧ pause = l.backoff.current
  | .ended _ => True

namespace Loop

variable {prompt : Bool} {now later : Nat} {l k : Loop α} {r : Rhythm} {bs : List Beat}

theorem StandsAt.of_ended (h : l.hasEnded = true) : l.StandsAt prompt now r := by
  unfold hasEnded at h
  split at h
  · next stage => simp only [StandsAt, stage]
  · cases h

/-- A loop that stays where it is stands where it stood. -/
theorem StandsAt.stays (hr : l.StandsAt prompt now r) (h : l.Stays k) :
    k.StandsAt prompt now r := by
  cases hal : k.hasEnded with
  | true => exact .of_ended hal
  | false =>
    simp only [StandsAt, h.stage_eq_of_alive hal, h.backoff, h.runs_eq hal]
    exact hr

/-- A loop makes the move that comes next in its rhythm. -/
theorem Paces.follows (h : l.Paces now k bs) (hr : l.StandsAt prompt now r) :
    ∃ q, Rhythm.Follows prompt r
        ((asking l.stage.isQueued k.stage.isQueued ++ bs).map (now, ·)) q ∧
      k.StandsAt prompt now q := by
  unfold StandsAt at hr
  cases h with
  | begins stage next same runs =>
    rw [stage] at hr
    obtain ⟨since, rfl, on⟩ := hr
    rw [runs, Bool.and_true] at on
    refine ⟨.ready l.backoff since, by rw [stage, next]; exact .nil, ?_⟩
    simp only [StandsAt, next, same]
    exact ⟨since, .inl rfl, on⟩
  | redelivers stage next same | polls stage next same | calls stage next same =>
    rw [stage] at hr
    refine ⟨r, by rw [stage, next]; exact .nil, ?_⟩
    simp only [StandsAt, next, same]
    exact hr
  | queues stage next same =>
    rw [stage] at hr
    obtain ⟨due, hr, on⟩ := hr
    refine ⟨.asked l.backoff, ?_, by simp only [StandsAt, next, same]⟩
    rw [stage, next]
    -- The pause that is over grows now, if there was one.
    rcases hr with rfl | ⟨b, rfl, hb⟩
    · exact .cons (.first on) .nil
    · rw [hb]
      exact .cons (.again on) .nil
  | yields stage next same none =>
    rw [stage] at hr
    obtain rfl := hr
    refine ⟨.paused l.backoff (now + l.backoff.current.timer), ?_, ?_⟩
    · rw [stage, next]
      exact .cons .empty .nil
    · simp only [StandsAt, next, same]
      refine ⟨_, rfl, ?_, none⟩
      rw [Duration.timer_eq_zero none]
      exact ⟨Nat.le_refl _, fun _ => Nat.le_refl _⟩
  | sleeps stage next same some =>
    rw [stage] at hr
    obtain rfl := hr
    refine ⟨.paused l.backoff (now + l.backoff.current.timer), ?_, ?_⟩
    · rw [stage, next]
      exact .cons .empty .nil
    · unfold StandsAt
      rw [next, same]
      exact ⟨rfl, fun _ => Nat.le_add_right _ _, some, rfl⟩
  | hands stage next reset =>
    rw [stage] at hr
    obtain rfl := hr
    refine ⟨.calling l.backoff.reset, ?_, by simp only [StandsAt, next, reset]⟩
    rw [stage, next]
    exact .cons .payload .nil
  | returns stage next same =>
    rw [stage] at hr
    obtain rfl := hr
    refine ⟨.ready l.backoff now, ?_, ?_⟩
    · rw [stage, next]
      exact .cons .handled .nil
    · simp only [StandsAt, next, same]
      exact ⟨now, .inl rfl, Nat.le_refl _, fun _ => Nat.le_refl _⟩
  | resumes stage next advanced =>
    rw [stage] at hr
    obtain ⟨due, rfl, on, -⟩ := hr
    refine ⟨.paused l.backoff due, by rw [stage, next]; exact .nil, ?_⟩
    simp only [StandsAt, next, advanced]
    exact ⟨due, .inr ⟨_, rfl, rfl⟩, on⟩
  | wakes stage passed next advanced =>
    rw [stage] at hr
    obtain ⟨rfl, early, -⟩ := hr
    refine ⟨_, by rw [stage, next]; exact .nil, ?_⟩
    simp only [StandsAt, next, advanced]
    exact ⟨_, .inr ⟨_, rfl, rfl⟩, passed, early⟩
  | ends polls hend =>
    refine ⟨r, ?_, .of_ended hend⟩
    rw [polls, (nothing_of_hasEnded hend).2.1]
    exact .nil
  | delivers stage hend =>
    rw [stage] at hr
    obtain rfl := hr
    refine ⟨.calling l.backoff.reset, ?_, .of_ended hend⟩
    rw [stage, (nothing_of_hasEnded hend).2.1]
    exact .cons .payload .nil

end Loop

namespace System

variable {s t : System α} {name : String} {m : Member α} {l : Loop α} {prompt : Bool} {r : Rhythm}
  {es : List (Incident α)} {xs : List (Moment α)}

theorem exists_min?_le {ds : List Nat} {d : Nat} (h : d ∈ ds) : ∃ least ∈ ds.min?, least ≤ d := by
  obtain ⟨least, hleast⟩ := Option.isSome_iff_exists.1 (List.isSome_min?_of_mem h)
  exact ⟨least, hleast, (List.min?_eq_some_iff.1 hleast).2 d h⟩

/-- What a loop waits for is not later than what is due next. -/
theorem exists_nextDue? (hm : s.member? name = some m) (hl : l ∈ m.poller.loops) {due : Nat}
    (hdue : dueOf? l = some due) (hlater : s.clock < due) : ∃ next ∈ s.nextDue?, next ≤ due := by
  refine exists_min?_le (List.mem_flatMap.2 ⟨(name, m), Table.mem_of_find? hm, ?_⟩)
  exact List.mem_filter.2 ⟨List.mem_filterMap.2 ⟨l, hl, hdue⟩, by simpa using hlater⟩

/-- No loop is late when time passes, as long as nothing is late in the whole system. -/
theorem Timely.standsAt (timely : prompt = true → s.Timely t) (hs : s.Reachable)
    (hm : s.member? name = some m) (hl : l ∈ m.poller.loops) (hle : s.clock ≤ t.clock)
    (hr : l.StandsAt prompt s.clock r) : l.StandsAt prompt t.clock r := by
  rcases Nat.eq_or_lt_of_le hle with heq | hlt
  · rw [← heq]
    exact hr
  · -- Time passes in a prompt chronicle only if the loop has to wait.
    have hwaits : prompt = true → s.movesOf name m l = [] ∧ ∀ due ∈ s.nextDue?, t.clock ≤ due := by
      intro hprompt
      rcases timely hprompt with hle | ⟨hrest, hnext⟩
      · omega
      · exact ⟨hrest.movesOf_eq_nil hs hm hl, hnext⟩
    -- So it has to wait for time to pass, or its task never runs.
    have hlate : ∀ {late : Bool} {due : Nat},
        (late = true → prompt = true ∧ s.movesOf name m l ≠ []) →
        Rhythm.OnTime late due s.clock → Rhythm.OnTime late due t.clock := by
      intro late due hmoves on
      refine ⟨Nat.le_trans on.1 hle, fun h => ?_⟩
      obtain ⟨hprompt, hne⟩ := hmoves h
      exact absurd (hwaits hprompt).1 hne
    unfold Loop.StandsAt at hr ⊢
    cases stage : l.stage with
    | spawned backlog =>
      cases backlog with
      | none =>
        rw [stage] at hr
        obtain ⟨since, hr, on⟩ := hr
        refine ⟨since, hr, hlate (fun h => ?_) on⟩
        rw [Bool.and_eq_true] at h
        exact ⟨h.1, by simp [movesOf, stage, h.2]⟩
      | some x =>
        rw [stage] at hr
        exact hr
    | checking =>
      rw [stage] at hr
      obtain ⟨due, hr, on⟩ := hr
      refine ⟨due, hr, hlate (fun h => ⟨h, ?_⟩) on⟩
      simp only [movesOf, stage]
      split <;> simp
    | yielded =>
      rw [stage] at hr
      obtain ⟨due, hr, on, none⟩ := hr
      exact ⟨due, hr, hlate (fun h => ⟨h, by simp [movesOf, stage]⟩) on, none⟩
    | asleep pause due =>
      rw [stage] at hr
      obtain ⟨hr, early, lasts⟩ := hr
      refine ⟨hr, fun hprompt => ?_, lasts⟩
      obtain ⟨hstuck, hnext⟩ := hwaits hprompt
      have hlater : s.clock < due := by
        by_contra hnot
        simp [movesOf, stage, Poller.wakes, Nat.not_lt.1 hnot] at hstuck
      obtain ⟨next, hmem, hle⟩ := exists_nextDue? hm hl (by simp only [dueOf?, stage]) hlater
      exact Nat.le_trans (hnext next hmem) hle
    | queued | polling | handing | calling | ended =>
      rw [stage] at hr
      exact hr

/-- In an impulse a loop keeps to its rhythm. -/
theorem Response.follows (h : s.Response es t) (timely : prompt = true → s.Timely t)
    (hs : s.Reachable) (ht : t.Reachable) (hm : s.member? name = some m) (hl : l ∈ m.poller.loops)
    (hr : l.StandsAt prompt s.clock r) :
    ∃ n k q, t.member? name = some n ∧ k ∈ n.poller.loops ∧ l.Becomes k ∧
      Rhythm.Follows prompt r (Moment.log name l.id ⟨s, es, t⟩) q ∧
      k.StandsAt prompt t.clock q := by
  obtain ⟨n, k, hn, hk, becomes, hpaces⟩ := h.paces_or_stays hs hm hl
  have hlog : Moment.log name l.id ⟨s, es, t⟩ =
      (asking l.stage.isQueued k.stage.isQueued ++ beats name l.id es).map (s.clock, ·) := by
    have hafter : t.isInLine name l.id = k.stage.isQueued := becomes.id ▸ isInLine_eq ht hn hk
    simp only [Moment.log, isInLine_eq hs hm hl, hafter]
  rw [hlog]
  rcases hpaces with ⟨hstays, hnone⟩ | ⟨hmoves, hclock⟩
  · have hstands := Timely.standsAt timely hs hm hl h.clock_le hr
    refine ⟨n, k, r, hn, hk, becomes, ?_, hstands.stays hstays⟩
    have hstill : asking l.stage.isQueued k.stage.isQueued = [] := by
      rcases hstays.stage with stage | ⟨hend, -⟩
      · rw [stage]
        cases l.stage.isQueued <;> rfl
      · rw [(Loop.nothing_of_hasEnded hend).2.1]
        cases l.stage.isQueued <;> rfl
    rw [hstill, hnone]
    exact .nil
  · obtain ⟨q, hfollows, hq⟩ := hmoves.follows hr
    rw [hclock]
    exact ⟨n, k, q, hn, hk, becomes, hfollows, hq⟩

/-- A loop keeps to its rhythm in every chronicle. -/
theorem Chronicle.follows (h : s.Chronicle prompt xs t) (hs : s.Reachable)
    (hm : s.member? name = some m) (hl : l ∈ m.poller.loops) (hr : l.StandsAt prompt s.clock r) :
    ∃ n k q, t.member? name = some n ∧ k ∈ n.poller.loops ∧ l.Becomes k ∧
      Rhythm.Follows prompt r (log name l.id xs) q ∧ k.StandsAt prompt t.clock q := by
  -- From one impulse to the next the loop stands further on in its rhythm.
  induction h generalizing m l r with
  | nil => exact ⟨m, l, r, hm, hl, .refl l, .nil, hr⟩
  | cons responds timely _ ih =>
    have ht := hs.run (Run.single responds)
    obtain ⟨n, k, q, hn, hk, becomes, hfollows, hq⟩ :=
      (response_of_respond? responds).follows timely hs ht hm hl hr
    obtain ⟨n', k', q', hn', hk', becomes', hfollows', hq'⟩ := ih ht hn hk hq
    rw [becomes.id] at hfollows'
    exact ⟨n', k', q', hn', hk', becomes.trans becomes', hfollows.append hfollows', hq'⟩

end System

end Polling
