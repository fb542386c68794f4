import Polling.Duration.Seconds
import Polling.Pacing

/-! # Backoff

A `Backoff` is the pause that a poll loop makes after its next empty poll.  It starts at the
pacing's initial pause (`start`), grows with every empty poll (`advance`) and starts afresh with
every payload (`reset`).  However growth is computed, a pause never gets shorter by growing, gets
longer by at least the increment until it reaches the longest pause, and never exceeds that
(`current_le_advance`, `increment_le_advance`, `advance_le_longest`). -/

namespace Polling

/-- The pause after the next empty poll. -/
structure Backoff where
  pacing : Pacing
  current : Duration
deriving DecidableEq

/-- What a pause grows to, before it is held between the increment and the longest pause. -/
def Pacing.grown (p : Pacing) (d : Duration) : Duration :=
  match p.growth with
  | .exponential multiplier => (d.scaled? multiplier).getD p.longest
  | .linear step => d + step

namespace Backoff

/-- The first pause. -/
def start (p : Pacing) : Backoff := ⟨p, min p.initial p.longest⟩

/-- The backoff after one more empty poll. -/
def advance (b : Backoff) : Backoff :=
  -- The increment keeps a pause growing that multiplication would leave at zero.
  { b with
    current :=
      min (max (b.pacing.grown b.current) (b.current + b.pacing.increment)) b.pacing.longest }

/-- The backoff after a payload. -/
def reset (b : Backoff) : Backoff := start b.pacing

/-- Whether the pause has stopped growing. -/
def isSaturated (b : Backoff) : Bool := b.pacing.longest ≤ b.current

/-- What befalls a backoff. -/
inductive Step where
  | advance
  | reset
deriving DecidableEq

/-- The backoff after one step. -/
def step (b : Backoff) : Step → Backoff
  | .advance => b.advance
  | .reset => b.reset

/-- The backoff at first and after each of some steps. -/
def trace (b : Backoff) : List Step → List Backoff
  | [] => [b]
  | s :: ss => b :: (b.step s).trace ss

@[simp] theorem pacing_start (p : Pacing) : (start p).pacing = p := rfl

@[simp] theorem pacing_advance (b : Backoff) : b.advance.pacing = b.pacing := rfl

@[simp] theorem pacing_reset (b : Backoff) : b.reset.pacing = b.pacing := rfl

theorem start_le_longest (p : Pacing) : (start p).current ≤ p.longest := by
  simp only [start, Duration.le_def, Duration.nanos_min]
  omega

theorem advance_le_longest (b : Backoff) : b.advance.current ≤ b.pacing.longest := by
  simp only [advance, Duration.le_def, Duration.nanos_min]
  omega

theorem increment_le_advance (b : Backoff) :
    min b.pacing.longest (b.current + b.pacing.increment) ≤ b.advance.current := by
  simp only [advance, Duration.le_def, Duration.nanos_min, Duration.nanos_max]
  omega

theorem current_le_advance {b : Backoff} (h : b.current ≤ b.pacing.longest) :
    b.current ≤ b.advance.current := by
  have hb := b.current.nanos_le
  simp only [advance, Duration.le_def, Duration.nanos_min, Duration.nanos_max,
    Duration.nanos_add] at *
  omega

end Backoff

end Polling
