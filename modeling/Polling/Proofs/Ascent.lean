import Polling.Backoff

/-!
# How a backoff rises

A backoff starts and restarts with the first pause.  In between it rises with every empty poll, by
the increment at least, until it is at the longest pause, where it stays.  `Pacing.Rises` says so of
a backoff that some steps have led to, and `Pacing.backoff_rises` that it is so after any steps.

None of this hangs on what growth comes to: that is held between the increment and the longest
pause (`Backoff.growTo`).  So the floor under a rising backoff is a line (`line_le_growToAll`), and
after so many empty polls that the line is at the longest pause the backoff stays there.
`Pacing.Yields` says what a backoff may come to if growth may come to anything, and all of these
rise, too.
-/

namespace Polling

namespace Backoff

/-- The backoff after one more empty poll, if growth comes to `d`. -/
def growTo (b : Backoff) (d : Duration) : Backoff :=
  { b with current := min (max d (b.current + b.pacing.increment)) b.pacing.longest }

/-- The backoff after some empty polls, whatever growth comes to each time. -/
def growToAll (b : Backoff) (ds : List Duration) : Backoff := ds.foldl growTo b

variable {b : Backoff}

theorem advance_eq (b : Backoff) : b.advance = b.growTo (b.pacing.grown b.current) := rfl

@[simp] theorem pacing_growTo (b : Backoff) (d : Duration) : (b.growTo d).pacing = b.pacing := rfl

theorem nanos_growTo (b : Backoff) (d : Duration) :
    (b.growTo d).current.nanos =
      min (max d.nanos (min (b.current.nanos + b.pacing.increment.nanos) Duration.maxNanos))
        b.pacing.longest.nanos := by
  simp only [growTo, Duration.nanos_min, Duration.nanos_max, Duration.nanos_add]

theorem growTo_le_longest (b : Backoff) (d : Duration) :
    (b.growTo d).current ≤ b.pacing.longest := by
  rw [Duration.le_def, nanos_growTo]
  exact Nat.min_le_right _ _

theorem current_le_growTo (h : b.current ≤ b.pacing.longest) (d : Duration) :
    b.current ≤ (b.growTo d).current := by
  have hbound := b.current.nanos_le
  rw [Duration.le_def] at h ⊢
  rw [nanos_growTo]
  omega

/-- A pause grows by the increment at least, with no bound on the sum but the longest pause. -/
theorem increment_le_growTo (b : Backoff) (d : Duration) :
    min b.pacing.longest.nanos (b.current.nanos + b.pacing.increment.nanos) ≤
      (b.growTo d).current.nanos := by
  -- The longest pause is a duration itself, so the sum is cut at it before it is cut as a duration.
  have hbound := b.pacing.longest.nanos_le
  rw [nanos_growTo]
  omega

theorem growToAll_le_longest (h : b.current ≤ b.pacing.longest) (ds : List Duration) :
    (b.growToAll ds).current ≤ b.pacing.longest := by
  induction ds generalizing b with
  | nil => exact h
  | cons d ds ih => exact ih (b.growTo_le_longest d)

/-- The floor under a rising backoff is a line. -/
theorem line_le_growToAll (h : b.current ≤ b.pacing.longest) (ds : List Duration) :
    min b.pacing.longest.nanos (b.current.nanos + ds.length * b.pacing.increment.nanos) ≤
      (b.growToAll ds).current.nanos := by
  -- On the empty polls that are still to come, with whatever the first of them leads to.
  induction ds generalizing b with
  | nil =>
    rw [Duration.le_def] at h
    simp only [growToAll, List.foldl_nil, List.length_nil, Nat.zero_mul]
    omega
  | cons d ds ih =>
    have hrest := ih (b.growTo_le_longest d)
    have hfirst := b.increment_le_growTo d
    rw [pacing_growTo] at hrest
    rw [List.length_cons, Nat.succ_mul]
    refine Nat.le_trans ?_ hrest
    omega

theorem eq_longest_of_isSaturated (h : b.current ≤ b.pacing.longest)
    (saturated : b.isSaturated = true) : b.current = b.pacing.longest := by
  have hle : b.pacing.longest ≤ b.current := by simpa [isSaturated] using saturated
  rw [Duration.le_def] at h hle
  exact Duration.ext (by omega)

/-- A backoff that has stopped growing stays where it is. -/
theorem growToAll_of_isSaturated (h : b.current ≤ b.pacing.longest)
    (saturated : b.isSaturated = true) (ds : List Duration) :
    (b.growToAll ds).current = b.pacing.longest := by
  have hlongest := eq_longest_of_isSaturated h saturated
  -- The line starts at the longest pause, so it holds the backoff there from below.
  have hline := line_le_growToAll h ds
  have hbound := growToAll_le_longest h ds
  rw [Duration.le_def] at hbound
  rw [hlongest] at hline
  exact Duration.ext (by omega)

/-- Some empty polls in a row make a backoff grow to something every time. -/
theorem exists_growToAll (b : Backoff) (n : Nat) :
    ∃ ds, (List.replicate n Step.advance).foldl step b = b.growToAll ds := by
  induction n generalizing b with
  | zero => exact ⟨[], rfl⟩
  | succ n ih =>
    obtain ⟨ds, hds⟩ := ih b.advance
    refine ⟨b.pacing.grown b.current :: ds, ?_⟩
    rw [List.replicate_succ, List.foldl_cons, step, hds, advance_eq]
    rfl

end Backoff

namespace Pacing

open Backoff (Step)

/-- How many empty polls it takes at most until a pause cannot grow any more, if it grows at all:
the way from the first pause to the longest one in steps of the increment, rounded up. -/
def ascent (p : Pacing) : Nat :=
  (p.longest.nanos - (Backoff.start p).current.nanos + (p.increment.nanos - 1)) / p.increment.nanos

/-- What a backoff may come to by some steps if growth may come to anything. -/
inductive Yields (p : Pacing) : List Step → Backoff → Prop
  | start : Yields p [] (.start p)
  | advance {ss b} (d : Duration) (before : Yields p ss b) :
      Yields p (ss ++ [.advance]) (b.growTo d)
  | reset {ss b} (before : Yields p ss b) : Yields p (ss ++ [.reset]) b.reset

/-- What can be said of a backoff that some steps have led to. -/
structure Rises (p : Pacing) (ss : List Step) (b : Backoff) : Prop where
  pacing : b.pacing = p
  /-- It starts, and restarts, with the first pause. -/
  first : (ss = [] ∨ ∃ before, ss = before ++ [.reset]) → b.current = min p.initial p.longest
  start_le : min p.initial p.longest ≤ b.current
  le_longest : b.current ≤ p.longest
  /-- An empty poll does not make it shorter. -/
  grows : b.current ≤ b.advance.current
  /-- An empty poll makes it longer by the increment at least, until it is at the longest pause. -/
  increment_le : min p.longest.nanos (b.current.nanos + p.increment.nanos) ≤
    b.advance.current.nanos
  /-- Since it last started it has grown by the increment every time. -/
  line_le : ∀ before n, ss = before ++ List.replicate n .advance →
    min p.longest.nanos ((min p.initial p.longest).nanos + n * p.increment.nanos) ≤ b.current.nanos
  /-- If there is an increment, it has grown to the longest pause after so many empty polls. -/
  saturates : p.increment.isZero = false → ∀ before n, ss = before ++ List.replicate n .advance →
    p.ascent ≤ n → b.isSaturated = true
  /-- Once it has stopped growing it stays at the longest pause until it restarts. -/
  stays : b.isSaturated = true →
    ∀ n, ((List.replicate n .advance).foldl Backoff.step b).current = p.longest

/-- What can be said of the empty polls that follow if growth may come to anything. -/
structure RisesAnyhow (p : Pacing) (b : Backoff) : Prop where
  grows : ∀ d, b.current ≤ (b.growTo d).current
  increment_le : ∀ d, min p.longest.nanos (b.current.nanos + p.increment.nanos) ≤
    (b.growTo d).current.nanos
  stays : b.isSaturated = true → ∀ ds, (b.growToAll ds).current = p.longest

variable {p : Pacing} {ss : List Step} {b : Backoff}

/-- What growth comes to is one of the things that it may come to. -/
theorem Yields.foldl (h : p.Yields ss b) (ts : List Step) :
    p.Yields (ss ++ ts) (ts.foldl Backoff.step b) := by
  induction ts generalizing ss b with
  | nil => simpa using h
  | cons t ts ih =>
    have hstep : p.Yields (ss ++ [t]) (b.step t) := by
      cases t with
      | advance =>
        rw [Backoff.step, Backoff.advance_eq]
        exact h.advance _
      | reset => exact h.reset
    simpa using ih hstep

/-- Every backoff stays between the first pause and the longest one. -/
theorem Yields.bounds (h : p.Yields ss b) :
    b.pacing = p ∧ min p.initial p.longest ≤ b.current ∧ b.current ≤ p.longest := by
  induction h with
  | start => exact ⟨rfl, Nat.le_refl _, Backoff.start_le_longest p⟩
  | @advance ss b d _ ih =>
    obtain ⟨rfl, hstart, hlongest⟩ := ih
    exact ⟨rfl, Nat.le_trans hstart (Backoff.current_le_growTo hlongest d),
      b.growTo_le_longest d⟩
  | @reset ss b _ ih =>
    obtain ⟨rfl, -, -⟩ := ih
    exact ⟨rfl, Nat.le_refl _, Backoff.start_le_longest b.pacing⟩

/-- What a backoff comes to with an empty poll. -/
theorem Yields.of_advance {before : List Step} (h : p.Yields ss b)
    (hss : ss = before ++ [.advance]) : ∃ c d, p.Yields before c ∧ b = c.growTo d := by
  cases h with
  | start => simp at hss
  | advance d hbefore =>
    obtain ⟨rfl, -⟩ := List.append_inj' hss rfl
    exact ⟨_, d, hbefore, rfl⟩
  | reset => simp at hss

/-- What a backoff comes to with some empty polls. -/
theorem Yields.of_replicate {before : List Step} {n : Nat}
    (h : p.Yields (before ++ List.replicate n .advance) b) :
    ∃ c ds, p.Yields before c ∧ ds.length = n ∧ b = c.growToAll ds := by
  induction n generalizing b with
  | zero => exact ⟨b, [], by simpa using h, rfl, rfl⟩
  | succ n ih =>
    rw [List.replicate_succ', ← List.append_assoc] at h
    obtain ⟨c, d, hc, rfl⟩ := h.of_advance rfl
    obtain ⟨c₀, ds, hc₀, hlength, rfl⟩ := ih hc
    refine ⟨c₀, ds ++ [d], hc₀, by simp [hlength], ?_⟩
    simp [Backoff.growToAll, List.foldl_append]

/-- So many steps of the increment lead from the first pause to the longest one. -/
theorem longest_le_ascent (hinc : p.increment.isZero = false) {n : Nat} (hn : p.ascent ≤ n) :
    p.longest.nanos ≤ (min p.initial p.longest).nanos + n * p.increment.nanos := by
  have hpos : 0 < p.increment.nanos := by
    rw [Duration.isZero, beq_eq_false_iff_ne] at hinc
    omega
  have hway := Nat.lt_mul_of_div_lt (Nat.lt_succ_of_le hn) hpos
  rw [Nat.succ_mul] at hway
  show p.longest.nanos ≤ (Backoff.start p).current.nanos + _
  omega

theorem Yields.first (h : p.Yields ss b) :
    (ss = [] ∨ ∃ before, ss = before ++ [.reset]) → b.current = min p.initial p.longest := by
  cases h with
  | start => exact fun _ => rfl
  | advance => simp
  | reset hbefore =>
    intro _
    rw [← hbefore.bounds.1]
    rfl

theorem Yields.risesAnyhow (h : p.Yields ss b) : p.RisesAnyhow b := by
  obtain ⟨rfl, -, hlongest⟩ := h.bounds
  exact ⟨Backoff.current_le_growTo hlongest, b.increment_le_growTo,
    fun saturated => Backoff.growToAll_of_isSaturated hlongest saturated⟩

theorem Yields.rises (h : p.Yields ss b) : p.Rises ss b := by
  have hfirst := h.first
  have hanyhow := h.risesAnyhow
  obtain ⟨rfl, hstart, hlongest⟩ := h.bounds
  have hline : ∀ before n, ss = before ++ List.replicate n .advance →
      min b.pacing.longest.nanos
        ((min b.pacing.initial b.pacing.longest).nanos + n * b.pacing.increment.nanos) ≤
          b.current.nanos := by
    rintro before n rfl
    obtain ⟨c, ds, hc, rfl, hb⟩ := h.of_replicate
    obtain ⟨hpacing, hfirst, hbound⟩ := hc.bounds
    have hrise := Backoff.line_le_growToAll (hpacing ▸ hbound) ds
    rw [← hb, hpacing] at hrise
    rw [Duration.le_def] at hfirst
    omega
  refine ⟨rfl, hfirst, hstart, hlongest, Backoff.current_le_advance hlongest, ?increment_le, hline,
    ?saturates, ?stays⟩
  case increment_le =>
    rw [Backoff.advance_eq]
    exact hanyhow.increment_le _
  case saturates =>
    intro hinc before n hss hn
    have htop := longest_le_ascent hinc hn
    have hfloor := hline before n hss
    simp only [Backoff.isSaturated, Duration.le_def, decide_eq_true_eq]
    omega
  case stays =>
    intro saturated n
    obtain ⟨ds, hds⟩ := b.exists_growToAll n
    rw [hds]
    exact hanyhow.stays saturated ds

/-- A backoff that any steps have led to is between the first pause and the longest one, starts and
restarts with the first pause, grows with every empty poll, by the increment at least until it is at
the longest pause, is there after so many empty polls, and then stays there until it restarts.  All
this holds whatever growth comes to: what it does come to is one of the things that it may come to,
and of each of these it can be said, too. -/
theorem backoff_rises (p : Pacing) :
    (∀ ss, p.Rises ss (ss.foldl Backoff.step (.start p))) ∧
      (∀ ss, p.Yields ss (ss.foldl Backoff.step (.start p))) ∧
      ∀ ss b, p.Yields ss b → p.Rises ss b ∧ p.RisesAnyhow b :=
  ⟨fun ss => (Yields.start.foldl ss).rises, fun ss => Yields.start.foldl ss,
    fun _ _ h => ⟨h.rises, h.risesAnyhow⟩⟩

/-- Half a second more each time, up to one second, and a multiplier that is no number. -/
def steep : Pacing :=
  ⟨.zero, .ofMillis 1000, .ofMillis 500, .exponential (0.0 / 0.0)⟩

/-- Two empty polls lead it to the longest pause. -/
theorem backoff_rises_steep :
    steep.Rises [.advance, .advance] ([.advance, .advance].foldl Backoff.step (.start steep)) ∧
      ([.advance, .advance].foldl Backoff.step (.start steep)).isSaturated = true := by
  have rises := (backoff_rises steep).1 [.advance, .advance]
  have grows : steep.increment.isZero = false := by decide
  have ascent : steep.ascent ≤ 2 := by decide
  exact ⟨rises, rises.saturates grows [] 2 rfl ascent⟩

end Pacing

end Polling
