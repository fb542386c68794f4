import Polling.Duration
import Polling.Number.Layout

/-! # Pacing

A `Pacing` says how long a poll loop pauses after an empty poll: where the pauses start, how they
grow from one empty poll to the next, and where they stop growing.  Any pacing can be built;
`Pacing.flaw?` names the first reason why it cannot be used, if there is one. -/

namespace Polling

/-- How the pause grows while polls keep coming back empty. -/
inductive Growth where
  /-- It is multiplied. -/
  | exponential (multiplier : Float)
  /-- It gets longer by the same step. -/
  | linear (step : Duration)
deriving DecidableEq

namespace Growth

/-- Doubling. -/
def doubling : Growth := exponential 2.0

instance : Inhabited Growth := ⟨doubling⟩

/-- Whether two growths are the same with their multipliers compared as numbers: no number
agrees with nothing, and the two zeros agree. -/
def agrees : Growth → Growth → Bool
  | exponential a, exponential b => a == b
  | linear a, linear b => a == b
  | _, _ => false

end Growth

/-- How a poll loop paces itself while there is nothing to fetch. -/
structure Pacing where
  /-- The pause after the first empty poll, and after every payload. -/
  initial : Duration := .zero
  /-- The longest pause. -/
  longest : Duration := .ofMillis 5000
  /-- The least that a pause grows by, so that growth gets away from zero. -/
  increment : Duration := .ofMillis 10
  growth : Growth := .doubling
deriving DecidableEq

namespace Pacing

instance : Inhabited Pacing := ⟨{}⟩

/-- The usual pacing up to the given longest pause. -/
def upTo (longest : Duration) : Pacing := { longest }

/-- One thing to set in a pacing. -/
inductive Setting where
  | initial (d : Duration)
  | longest (d : Duration)
  | increment (d : Duration)
  | growth (g : Growth)

/-- The pacing with one thing set. -/
def set (p : Pacing) : Setting → Pacing
  | .initial d => { p with initial := d }
  | .longest d => { p with longest := d }
  | .increment d => { p with increment := d }
  | .growth g => { p with growth := g }

/-- The pacing with some things set one after the other. -/
def setAll (p : Pacing) (ss : List Setting) : Pacing := ss.foldl set p

/-- Whether two pacings are the same, multipliers compared as numbers. -/
def agrees (a b : Pacing) : Bool :=
  a.initial == b.initial && a.longest == b.longest && a.increment == b.increment &&
    a.growth.agrees b.growth

/-- Why a pacing cannot be used. -/
inductive Flaw where
  | longestZero
  | initialAboveLongest
  | incrementZero
  | multiplierOutOfRange (multiplier : Float)
deriving DecidableEq

/-- The wording of a flaw. -/
def Flaw.message : Flaw → String
  | longestZero => "max_delay must be greater than zero"
  | initialAboveLongest => "initial_delay must not exceed max_delay"
  | incrementZero => "min_increment must be greater than zero"
  | multiplierOutOfRange x =>
    "backoff multiplier must be a finite value >= 1.0, got "
      ++ String.ofList (Layout.digitsOnly.float x)

/-- Multipliers that never make a pause shorter. -/
def Growth.flaw? : Growth → Option Flaw
  | .exponential x => if !x.isFinite || x < 1.0 then some (.multiplierOutOfRange x) else none
  | .linear _ => none

/-- The first flaw of a pacing. -/
def flaw? (p : Pacing) : Option Flaw :=
  -- Only the first flaw is reported, so the order of the tests is part of the rule.
  if p.longest.isZero then some .longestZero
  else if p.longest < p.initial then some .initialAboveLongest
  else if p.increment.isZero then some .incrementZero
  else Growth.flaw? p.growth

end Pacing

end Polling
