import Polling.Duration

/-! # Durations as seconds in binary floating point

`Duration.toSeconds` rounds a duration to a number of seconds, `Duration.ofSeconds?` takes the
exact value of such a number to the nearest nanosecond, and `Duration.scaled?` multiplies a
duration by a factor on the way through both. -/

namespace Polling

/-- The natural number nearest to `num / den`, a tie going to the even one. -/
def roundHalfEven (num den : Nat) : Nat :=
  let below := num / den
  let twice := 2 * (num % den)
  if twice < den ∨ (twice = den ∧ below % 2 = 0) then below else below + 1

namespace Duration

/-- Seconds as a binary number: the whole seconds and the fraction are rounded apart, then
added. -/
def toSeconds (d : Duration) : Float :=
  Float.ofNat d.seconds + Float.ofNat d.subsecNanos / Float.ofNat nanosPerSecond

/-- The duration nearest to a number of seconds; none for a negative number, for no number and
for one beyond the longest duration. -/
def ofSeconds? (x : Float) : Option Duration :=
  match x.toModel.unpack with
  | .zero _ => some zero
  -- The exact value is `m * 2 ^ e`, so the one rounding is that to nanoseconds.
  | .finite .positive m e _ =>
    ofNanos? (roundHalfEven (m * Nat.pow 2 e.toNat * nanosPerSecond) (Nat.pow 2 (-e).toNat))
  | _ => none

/-- A duration multiplied by a factor, in seconds; a factor below one, or none, counts as one. -/
def scaled? (d : Duration) (factor : Float) : Option Duration :=
  ofSeconds? (d.toSeconds * (if factor > 1.0 then factor else 1.0))

end Duration

end Polling
