/-! # Signals

A signal is a flag that anyone who holds it can raise and lower, and that every poller which
observes it sees at once.  `Signals` is the set of raised ones; `SignalHandles` are handles of
which several may share one flag. -/

namespace Polling

/-- The names of the signals that are raised.  A signal is lowered until it is first raised. -/
structure Signals where
  raised : List String := []
deriving DecidableEq

namespace Signals

/-- Whether a signal is raised. -/
def isRaised (s : Signals) (name : String) : Bool := name ∈ s.raised

/-- Raises a signal. -/
def raise (s : Signals) (name : String) : Signals :=
  if s.isRaised name then s else ⟨name :: s.raised⟩

/-- Lowers a signal. -/
def lower (s : Signals) (name : String) : Signals := ⟨s.raised.filter (· ≠ name)⟩

@[simp] theorem isRaised_raise (s : Signals) (a b : String) :
    (s.raise a).isRaised b = (decide (b = a) || s.isRaised b) := by
  by_cases h : a ∈ s.raised
  · simp only [raise, isRaised, h, decide_true, if_true]
    by_cases hb : b = a <;> simp [hb, h]
  · simp [raise, isRaised, h]

@[simp] theorem isRaised_lower (s : Signals) (a b : String) :
    (s.lower a).isRaised b = (decide (b ≠ a) && s.isRaised b) := by
  simp [lower, isRaised, and_comm]

end Signals

/-- Handles on flags.  Each handle is the number of its flag. -/
structure SignalHandles where
  flags : List Bool := []
  handles : List Nat := []
deriving DecidableEq

namespace SignalHandles

/-- A handle on a flag of its own, lowered. -/
def fresh (s : SignalHandles) : SignalHandles :=
  ⟨s.flags ++ [false], s.handles ++ [s.flags.length]⟩

/-- A handle on the flag of another handle. -/
def clone (s : SignalHandles) (i : Nat) : SignalHandles :=
  { s with handles := s.handles ++ s.handles[i]?.toList }

/-- Raises or lowers the flag of a handle. -/
def set (s : SignalHandles) (i : Nat) (b : Bool) : SignalHandles :=
  match s.handles[i]? with
  | some f => { s with flags := s.flags.set f b }
  | none => s

/-- The flag of each handle. -/
def states (s : SignalHandles) : List Bool := s.handles.map fun f => s.flags.getD f false

/-- What is done with handles, given by their numbers. -/
inductive Step where
  | fresh
  | clone (i : Nat)
  | raise (i : Nat)
  | lower (i : Nat)
deriving DecidableEq

/-- The handles after one step. -/
def step (s : SignalHandles) : Step → SignalHandles
  | .fresh => s.fresh
  | .clone i => s.clone i
  | .raise i => s.set i true
  | .lower i => s.set i false

/-- The flag of each handle after each of some steps. -/
def trace (s : SignalHandles) : List Step → List (List Bool)
  | [] => []
  | t :: ts => (s.step t).states :: (s.step t).trace ts

end SignalHandles

end Polling
