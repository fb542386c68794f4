import Polling.Number.Literal
import Polling.Pacing

/-! # Pacings from the environment

`Pacing.ofEnvironment` reads a pacing from variables whose names start with a common stem.  Every
variable may be absent; one whose value is not text, or not a number of the right grammar, counts
as absent.  A linear step takes precedence over a multiplier. -/

namespace Polling

/-- The variables of an environment and their values, as bytes. -/
structure Environment where
  values : List (String × ByteArray) := []

namespace Environment

/-- The value of a variable, if it is there and is text. -/
def text? (env : Environment) (name : String) : Option (List Char) :=
  ((env.values.lookup name).bind String.fromUTF8?).map String.toList

/-- The value of a variable as a number of milliseconds. -/
def millis? (env : Environment) (name : String) : Option Duration :=
  ((env.text? name).bind Literal.natural?).map Duration.ofMillis

/-- The value of a variable as a binary number. -/
def real? (env : Environment) (name : String) : Option Float :=
  (env.text? name).bind Literal.real?

end Environment

namespace Pacing

/-- The stem of the variables' names where no other is given. -/
def defaultStem : String := "POLLER"

/-- The growth that the environment asks for. -/
def growthOfEnvironment (env : Environment) (stem : String) : Growth :=
  match env.millis? (stem ++ "_LINEAR_STEP_MS") with
  | some step => .linear step
  -- A step that is not a number does not stand in the way of the multiplier.
  | none =>
    match env.real? (stem ++ "_BACKOFF_MULTIPLIER") with
    | some x => .exponential x
    | none => .doubling

/-- The pacing that the environment asks for; what it does not say is as usual. -/
def ofEnvironment (env : Environment) (stem : String) : Pacing where
  initial := (env.millis? (stem ++ "_INITIAL_DELAY_MS")).getD ({} : Pacing).initial
  longest := (env.millis? (stem ++ "_MAX_DELAY_MS")).getD ({} : Pacing).longest
  increment := (env.millis? (stem ++ "_MIN_INCREMENT_MS")).getD ({} : Pacing).increment
  growth := growthOfEnvironment env stem

end Pacing

end Polling
