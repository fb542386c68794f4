import Polling.Pacing

/-! # Descriptions of pacings

How a pacing is shown to a person who looks for a fault: every field by its name, durations in
the largest unit that gives at least one. -/

namespace Polling

/-- A natural number with `places` decimal places after it, of which trailing zeros are left
out. -/
def withPlaces (whole fraction places : Nat) : String :=
  let ds := Digits.ofNat fraction
  let padded := List.replicate (places - ds.length) '0' ++ ds
  let kept := (padded.reverse.dropWhile (· = '0')).reverse
  String.ofList (Digits.ofNat whole ++ (if kept = [] then [] else '.' :: kept))

/-- A duration in the largest of seconds, milliseconds, microseconds and nanoseconds that gives
at least one, with its exact fraction. -/
def Duration.describe (d : Duration) : String :=
  if 1000000000 ≤ d.nanos then withPlaces (d.nanos / 1000000000) (d.nanos % 1000000000) 9 ++ "s"
  else if 1000000 ≤ d.nanos then withPlaces (d.nanos / 1000000) (d.nanos % 1000000) 6 ++ "ms"
  else if 1000 ≤ d.nanos then withPlaces (d.nanos / 1000) (d.nanos % 1000) 3 ++ "µs"
  else withPlaces d.nanos 0 0 ++ "ns"

/-- Numbers have a fraction or an exponent; a leading digit that stands for a power of ten from
`-4` to `15` needs no exponent, and an exponent above zero has no sign.  A tie goes away from
zero. -/
def describedLayout : Layout := ⟨fun lead => -4 ≤ lead && lead ≤ 15, true, false, .away⟩

/-- A growth and its field. -/
def Growth.describe : Growth → String
  | exponential x =>
    "Exponential \x7b multiplier: " ++ String.ofList (describedLayout.float x) ++ " \x7d"
  | linear step => "Linear \x7b step: " ++ step.describe ++ " \x7d"

/-- A pacing and its fields. -/
def Pacing.describe (p : Pacing) : String :=
  "PollerConfig \x7b initial_delay: " ++ p.initial.describe
    ++ ", max_delay: " ++ p.longest.describe
    ++ ", min_increment: " ++ p.increment.describe
    ++ ", backoff: " ++ p.growth.describe ++ " \x7d"

end Polling
