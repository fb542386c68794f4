import Mathlib.Data.List.Induction
import Polling.Proofs.Rhythm

/-!
# How a backoff rises by equal steps

A backoff of linear growth is a function of how many empty polls there have been since it last
started (`Backoff.streak`): it rises along a line until it is at the longest pause.  Each empty poll
adds the step or the increment, whichever is longer (`nanos_advance`).  The sums behind that may be
cut at the longest duration, but never below the longest pause, which is a duration itself; so the
line is that of the numbers (`linear_backoff`).
-/

namespace Polling

namespace Backoff

/-- How many empty polls there have been since the last payload, after one more step. -/
def Step.streakAfter (n : Nat) : Step → Nat
  | .advance => n + 1
  | .reset => 0

/-- How many empty polls there have been since the backoff last started. -/
def streak (ss : List Step) : Nat := ss.foldl Step.streakAfter 0

@[simp] theorem streak_nil : streak [] = 0 := rfl

@[simp] theorem streak_advance (ss : List Step) : streak (ss ++ [.advance]) = streak ss + 1 :=
  List.foldl_append

@[simp] theorem streak_reset (ss : List Step) : streak (ss ++ [.reset]) = 0 := List.foldl_append

variable {b : Backoff} {p : Pacing} {step : Duration}

/-- An empty poll adds the step or the increment, up to the longest pause and no sooner. -/
theorem nanos_advance (linear : b.pacing.growth = .linear step) :
    b.advance.current.nanos =
      min b.pacing.longest.nanos
        (b.current.nanos + max step.nanos b.pacing.increment.nanos) := by
  -- A sum that is cut as a duration is at least as long as the longest pause.
  have hcut := b.pacing.longest.nanos_le
  simp only [advance, Pacing.grown, linear, Duration.nanos_min, Duration.nanos_max,
    Duration.nanos_add]
  omega

/-- The pause along the line of the numbers. -/
theorem nanos_foldl_step (linear : p.growth = .linear step) (ss : List Step) :
    (ss.foldl Backoff.step (.start p)).current.nanos =
      min p.longest.nanos (min p.initial.nanos p.longest.nanos +
        streak ss * max step.nanos p.increment.nanos) := by
  -- On the last step: what came before is on the line, or does not matter any more.
  induction ss using List.reverseRecOn with
  | nil =>
    rw [List.foldl_nil, start, Duration.nanos_min, streak_nil]
    omega
  | append_singleton ss s ih =>
    have hpacing : (ss.foldl Backoff.step (.start p)).pacing = p := pacing_foldl_step _ ss
    rw [List.foldl_append, List.foldl_cons, List.foldl_nil]
    cases s with
    | advance =>
      rw [Backoff.step, nanos_advance ((congrArg _ hpacing).trans linear), ih, hpacing,
        streak_advance, Nat.succ_mul]
      omega
    | reset =>
      rw [Backoff.step, reset, hpacing, start, Duration.nanos_min, streak_reset]
      omega

end Backoff

namespace Pacing

open Backoff (Step streak)

variable {p : Pacing}

/-- A backoff of linear growth is on the line of the numbers, whatever durations the pacing is made
of: `n` empty polls after it has started it has risen by `n` times the step, or the increment if
that is longer, and stays at the longest pause once it is there.  So of two pacings the one that is
longer in all respects has the longer pauses. -/
theorem linear_backoff {step : Duration} (linear : p.growth = .linear step) (ss : List Step) :
    (ss.foldl Backoff.step (.start p)).current.nanos =
        min p.longest.nanos (min p.initial.nanos p.longest.nanos +
          streak ss * max step.nanos p.increment.nanos) ∧
      ∀ (q : Pacing) (step' : Duration) (ts : List Step), q.growth = .linear step' →
        p.initial ≤ q.initial → p.longest ≤ q.longest → p.increment ≤ q.increment →
        step ≤ step' → streak ss ≤ streak ts →
        (ss.foldl Backoff.step (.start p)).current ≤
          (ts.foldl Backoff.step (.start q)).current := by
  refine ⟨Backoff.nanos_foldl_step linear ss, ?_⟩
  intro q step' ts linear' initial longest increment hstep hstreak
  rw [Duration.le_def] at *
  have hrise : streak ss * max step.nanos p.increment.nanos ≤
      streak ts * max step'.nanos q.increment.nanos :=
    Nat.mul_le_mul hstreak (by omega)
  rw [Backoff.nanos_foldl_step linear, Backoff.nanos_foldl_step linear']
  omega

/-- Steps of the longest duration, up to the longest duration. -/
def boundless : Pacing := ⟨.ofMillis 10, .longest, .ofMillis 20, .linear .longest⟩

/-- Steps of ten milliseconds, of which the increment makes twenty. -/
def gentle : Pacing := ⟨.zero, .ofMillis 50, .ofMillis 20, .linear (.ofMillis 10)⟩

/-- The gentle pauses are at their longest after three empty polls, and one empty poll is enough
where the first step leads past all durations. -/
theorem linear_backoff_gentle :
    ([.advance, .reset, .advance, .advance].foldl Backoff.step (.start gentle)).current =
        .ofMillis 40 ∧
      ([.advance, .advance, .advance].foldl Backoff.step (.start gentle)).current =
        .ofMillis 50 ∧
      ([.advance].foldl Backoff.step (.start boundless)).current = .longest ∧
      ([.advance, .reset].foldl Backoff.step (.start gentle)).current ≤
        ([.reset].foldl Backoff.step (.start boundless)).current := by
  refine ⟨Duration.ext ?_, Duration.ext ?_, Duration.ext ?_, ?_⟩
  · exact (linear_backoff (p := gentle) rfl _).1
  · exact (linear_backoff (p := gentle) rfl _).1
  · exact (linear_backoff (p := boundless) rfl _).1
  · exact (linear_backoff (p := gentle) rfl _).2 boundless _ _ rfl (by decide) (by decide)
      (by decide) (by decide) (by decide)

end Pacing

end Polling
