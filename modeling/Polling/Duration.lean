/-! # Durations

A `Duration` is a whole number of nanoseconds, at most `Duration.maxNanos`.  The bound is a
proof field, so no operation can leave the range: sums stop at the longest duration
(`nanos_add`), and a duration of `n` milliseconds is exact while it fits (`nanos_ofMillis`).  A
clock counts it in whole milliseconds, rounded up (`ticks_ofMillis`).

What a timer of the runtime makes of a duration is another matter: one that is set to more than
`Duration.longestTimer` goes off early, after thirty years.  Whatever is set to less goes off when
the duration is over (`timer_eq_ticks`). -/

namespace Polling

namespace Duration

/-- The longest duration: `2 ^ 64 - 1` seconds and `999999999` nanoseconds. -/
def maxNanos : Nat := 18446744073709551615999999999

/-- Nanoseconds in a millisecond. -/
def nanosPerMilli : Nat := 1000000

/-- Nanoseconds in a second. -/
def nanosPerSecond : Nat := 1000000000

end Duration

/-- A length of time in nanoseconds. -/
structure Duration where
  nanos : Nat
  nanos_le : nanos ≤ Duration.maxNanos
deriving DecidableEq

namespace Duration

@[ext] theorem ext {a b : Duration} (h : a.nanos = b.nanos) : a = b := by
  cases a; cases b; cases h; rfl

/-- The duration of `n` nanoseconds, or the longest one if that is shorter. -/
def ofNanos (n : Nat) : Duration := ⟨min n maxNanos, Nat.min_le_right _ _⟩

/-- The duration of `n` nanoseconds, if there is one. -/
def ofNanos? (n : Nat) : Option Duration :=
  if h : n ≤ maxNanos then some ⟨n, h⟩ else none

/-- The duration of `n` milliseconds. -/
def ofMillis (n : Nat) : Duration := ofNanos (n * nanosPerMilli)

/-- No time at all. -/
def zero : Duration := ⟨0, Nat.zero_le _⟩

/-- The longest duration. -/
def longest : Duration := ⟨maxNanos, Nat.le_refl _⟩

instance : Inhabited Duration := ⟨zero⟩

instance : LE Duration := ⟨fun a b => a.nanos ≤ b.nanos⟩
instance : LT Duration := ⟨fun a b => a.nanos < b.nanos⟩
instance (a b : Duration) : Decidable (a ≤ b) := inferInstanceAs (Decidable (a.nanos ≤ b.nanos))
instance (a b : Duration) : Decidable (a < b) := inferInstanceAs (Decidable (a.nanos < b.nanos))
instance : Min Duration := ⟨fun a b => if a ≤ b then a else b⟩
instance : Max Duration := ⟨fun a b => if a ≤ b then b else a⟩

/-- A sum that would be longer than the longest duration is the longest duration. -/
instance : Add Duration := ⟨fun a b => ofNanos (a.nanos + b.nanos)⟩

/-- Whether the duration is no time at all. -/
def isZero (d : Duration) : Bool := d.nanos == 0

/-- Whole seconds, rounded down. -/
def seconds (d : Duration) : Nat := d.nanos / nanosPerSecond

/-- Nanoseconds beyond the whole seconds. -/
def subsecNanos (d : Duration) : Nat := d.nanos % nanosPerSecond

/-- The largest number of milliseconds that is ever reported. -/
def maxMillis : Nat := 18446744073709551615

/-- Whole milliseconds, rounded down; at most `maxMillis`. -/
def millis (d : Duration) : Nat := min (d.nanos / nanosPerMilli) maxMillis

/-- How long a clock that counts whole milliseconds takes for the duration to be over. -/
def ticks (d : Duration) : Nat := (d.nanos + (nanosPerMilli - 1)) / nanosPerMilli

/-- The longest that a timer of the runtime waits, in ticks: thirty years of 365 days. -/
def longestTimer : Nat := 946080000000

/-- How long a timer of the runtime waits that is set to the duration. -/
def timer (d : Duration) : Nat := min d.ticks longestTimer

@[simp] theorem nanos_ofNanos (n : Nat) : (ofNanos n).nanos = min n maxNanos := rfl

@[simp] theorem nanos_add (a b : Duration) : (a + b).nanos = min (a.nanos + b.nanos) maxNanos :=
  rfl

theorem le_def {a b : Duration} : a ≤ b ↔ a.nanos ≤ b.nanos := Iff.rfl

theorem lt_def {a b : Duration} : a < b ↔ a.nanos < b.nanos := Iff.rfl

@[simp] theorem nanos_min (a b : Duration) : (min a b).nanos = min a.nanos b.nanos := by
  show (if a.nanos ≤ b.nanos then a else b).nanos = _
  split <;> omega

@[simp] theorem nanos_max (a b : Duration) : (max a b).nanos = max a.nanos b.nanos := by
  show (if a.nanos ≤ b.nanos then b else a).nanos = _
  split <;> omega

theorem nanos_ofMillis {n : Nat} (h : n ≤ maxMillis) : (ofMillis n).nanos = n * nanosPerMilli := by
  simp only [ofMillis, nanos_ofNanos, nanosPerMilli, maxNanos, maxMillis] at *
  omega

theorem millis_ofMillis {n : Nat} (h : n ≤ maxMillis) : (ofMillis n).millis = n := by
  rw [millis, nanos_ofMillis h, nanosPerMilli, Nat.mul_div_cancel _ (by decide)]
  exact Nat.min_eq_left h

/-- Whole milliseconds pass as they are. -/
theorem ticks_ofMillis {n : Nat} (h : n ≤ maxMillis) : (ofMillis n).ticks = n := by
  rw [ticks, nanos_ofMillis h, nanosPerMilli]
  omega

/-- A timer that is set to no more than thirty years waits as long as it was set to. -/
theorem timer_eq_ticks {d : Duration} (h : d.ticks ≤ longestTimer) : d.timer = d.ticks :=
  Nat.min_eq_left h

/-- A timer waits for at least one tick, if it is set to any time at all. -/
theorem timer_pos {d : Duration} (h : d.isZero = false) : 0 < d.timer := by
  simp only [isZero, timer, ticks, longestTimer, nanosPerMilli, beq_eq_false_iff_ne] at *
  omega

theorem timer_eq_zero {d : Duration} (h : d.isZero = true) : d.timer = 0 := by
  simp only [isZero, timer, ticks, nanosPerMilli, beq_iff_eq] at *
  omega

end Duration

end Polling
