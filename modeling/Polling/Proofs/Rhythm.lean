import Polling.Backoff

/-!
# The rhythm of an episode

Seen from outside, a loop asks for a poll, the poll comes back, and then the loop pauses or hands a
payload to the callback before it asks again.  `Pacing.schedule` is the backoff after these beats:
it starts with the first pause, grows with every empty poll and starts afresh with every payload.
`Rhythm.Next` says which beat may come next and when, and `Rhythm.Follows` that a whole log of beats
keeps to that.  A rhythm may be prompt: then whatever is due happens at once.
-/

namespace Polling

/-- What a loop does that its pace depends on. -/
inductive Beat where
  /-- It gets in line for a poll. -/
  | asks
  /-- A poll came back with nothing. -/
  | empty
  /-- A poll came back with a payload. -/
  | payload
  /-- The callback returned. -/
  | handled
deriving DecidableEq

/-- What a beat does to the backoff. -/
def Beat.step? : Beat → Option Backoff.Step
  | empty => some .advance
  | payload => some .reset
  | asks | handled => none

namespace Backoff

/-- The backoff after some beats, of which each has its time. -/
def after (b : Backoff) (log : List (Nat × Beat)) : Backoff :=
  (log.filterMap fun e => e.2.step?).foldl step b

variable {b : Backoff} {log ts : List (Nat × Beat)}

theorem after_append (b : Backoff) (log ts : List (Nat × Beat)) :
    b.after (log ++ ts) = (b.after log).after ts := by
  simp only [after, List.filterMap_append, List.foldl_append]

/-- One more beat, first of all. -/
theorem after_cons (b : Backoff) (e : Nat × Beat) (log : List (Nat × Beat)) :
    b.after (e :: log) = (b.after [e]).after log := after_append b [e] log

@[simp] theorem pacing_step (b : Backoff) (s : Step) : (b.step s).pacing = b.pacing := by
  cases s <;> rfl

@[simp] theorem pacing_foldl_step (b : Backoff) (ss : List Step) :
    (ss.foldl step b).pacing = b.pacing := by
  induction ss generalizing b with
  | nil => rfl
  | cons s ss ih => rw [List.foldl_cons, ih, pacing_step]

theorem pacing_after (b : Backoff) (log : List (Nat × Beat)) : (b.after log).pacing = b.pacing :=
  pacing_foldl_step b _

theorem step_le_longest (b : Backoff) (s : Step) : (b.step s).current ≤ b.pacing.longest := by
  cases s with
  | advance => exact b.advance_le_longest
  | reset => exact start_le_longest b.pacing

/-- No pause is longer than the longest one. -/
theorem after_le_longest (h : b.current ≤ b.pacing.longest) (log : List (Nat × Beat)) :
    (b.after log).current ≤ b.pacing.longest := by
  unfold after
  induction log.filterMap (fun e => e.2.step?) generalizing b with
  | nil => exact h
  | cons s ss ih =>
    have hstep := ih (b := b.step s) (by simpa using b.step_le_longest s)
    simpa using hstep

/-- Without a payload pauses do not get shorter. -/
theorem current_le_after (h : b.current ≤ b.pacing.longest) (none : ∀ e ∈ log, e.2 ≠ .payload) :
    b.current ≤ (b.after log).current := by
  induction log generalizing b with
  | nil => exact Nat.le_refl _
  | cons e log ih =>
    rw [after_cons]
    have hlater := List.forall_mem_cons.1 none
    cases he : e.2 with
    | payload => exact absurd he hlater.1
    | empty =>
      have hstep : b.after [e] = b.advance := by simp [after, he, Beat.step?, step]
      rw [hstep]
      exact Nat.le_trans (current_le_advance h) (ih b.advance_le_longest hlater.2)
    | asks | handled =>
      have hstep : b.after [e] = b := by simp [after, he, Beat.step?]
      rw [hstep]
      exact ih h hlater.2

/-- Without an empty poll a pause stays the first one. -/
theorem after_start {p : Pacing} (none : ∀ e ∈ log, e.2 ≠ .empty) :
    (start p).after log = start p := by
  induction log with
  | nil => rfl
  | cons e log ih =>
    have hlater := List.forall_mem_cons.1 none
    have hstep : (start p).after [e] = start p := by
      cases he : e.2 with
      | empty => exact absurd he hlater.1
      | payload => simp [after, he, Beat.step?, step, reset]
      | asks | handled => simp [after, he, Beat.step?]
    rw [after_cons, hstep, ih hlater.2]

end Backoff

namespace Pacing

variable {p : Pacing} {log ts : List (Nat × Beat)}

/-- The backoff of an episode after some beats. -/
def schedule (p : Pacing) (log : List (Nat × Beat)) : Backoff := (Backoff.start p).after log

/-- What can be relied on in the pauses of a schedule. -/
structure Steady (p : Pacing) : Prop where
  /-- The first pause of an episode, and the first one after a payload. -/
  first : ∀ log ts, (log = [] ∨ ∃ before t, log = before ++ [(t, .payload)]) →
    (∀ e ∈ ts, e.2 ≠ .empty) → (p.schedule (log ++ ts)).current = p.initial
  grows : ∀ log ts, (∀ e ∈ ts, e.2 ≠ .payload) →
    (p.schedule log).current ≤ (p.schedule (log ++ ts)).current
  bounded : ∀ log, (p.schedule log).current ≤ p.longest

/-- A schedule starts afresh with a payload. -/
theorem schedule_payload (p : Pacing) (log : List (Nat × Beat)) (t : Nat) :
    p.schedule (log ++ [(t, .payload)]) = .start p := by
  have hreset : p.schedule (log ++ [(t, .payload)]) = (p.schedule log).reset :=
    Backoff.after_append (.start p) log [(t, .payload)]
  rw [hreset, Backoff.reset, schedule, Backoff.pacing_after, Backoff.pacing_start]

theorem schedule_le_longest (p : Pacing) (log : List (Nat × Beat)) :
    (p.schedule log).current ≤ p.longest :=
  Backoff.after_le_longest (Backoff.start_le_longest p) log

/-- What a pacing has that can be used. -/
theorem flaw?_eq_none_iff : p.flaw? = none ↔ p.longest.isZero = false ∧ p.initial ≤ p.longest ∧
    p.increment.isZero = false ∧ Growth.flaw? p.growth = none := by
  have horder : p.initial ≤ p.longest ↔ ¬ p.longest < p.initial := Nat.not_lt.symm
  rw [horder]
  unfold flaw?
  split
  · next hzero => simp [hzero]
  · split
    · next hnot => simp [hnot]
    · split <;> simp_all

/-- A pacing that can be used does not begin with more than the longest pause. -/
theorem initial_le_longest (h : p.flaw? = none) : p.initial ≤ p.longest :=
  (flaw?_eq_none_iff.1 h).2.1

/-- The schedule of a pacing that can be used is steady. -/
theorem steady_of_usable (h : p.flaw? = none) : p.Steady where
  first log ts hlog hempty := by
    have hstart : p.schedule log = .start p := by
      rcases hlog with rfl | ⟨before, t, rfl⟩
      · rfl
      · exact schedule_payload p before t
    rw [schedule, Backoff.after_append, ← schedule, hstart, Backoff.after_start hempty]
    exact if_pos (initial_le_longest h)
  grows log ts hpayload := by
    have hlongest := p.schedule_le_longest log
    rw [schedule, schedule, Backoff.after_append]
    refine Backoff.current_le_after ?_ hpayload
    rw [Backoff.pacing_after]
    exact hlongest
  bounded := p.schedule_le_longest

end Pacing

/-- What a loop does next, seen from outside. -/
inductive Rhythm where
  /-- It asks for a poll, and may do so since a time. -/
  | ready (backoff : Backoff) (since : Nat)
  /-- Its poll comes back. -/
  | asked (backoff : Backoff)
  /-- It asks for a poll when its pause is over. -/
  | paused (backoff : Backoff) (due : Nat)
  /-- The callback returns. -/
  | calling (backoff : Backoff)

namespace Rhythm

variable {prompt : Bool} {t now due : Nat} {r q : Rhythm} {e : Beat} {log ts : List (Nat × Beat)}

/-- Whether what is due at one time may happen at another: not before, and at once if all is
prompt. -/
def OnTime (prompt : Bool) (due now : Nat) : Prop := due ≤ now ∧ (prompt = true → now ≤ due)

/-- Which beat may come next, and when. -/
inductive Next (prompt : Bool) (now : Nat) : Rhythm → Beat → Rhythm → Prop
  | first {b : Backoff} {since : Nat} (on : OnTime prompt since now) :
      Next prompt now (.ready b since) .asks (.asked b)
  /-- A pause that is over makes the next one longer. -/
  | again {b : Backoff} {due : Nat} (on : OnTime prompt due now) :
      Next prompt now (.paused b due) .asks (.asked b.advance)
  | empty {b : Backoff} : Next prompt now (.asked b) .empty (.paused b (now + b.current.timer))
  | payload {b : Backoff} : Next prompt now (.asked b) .payload (.calling b.reset)
  | handled {b : Backoff} : Next prompt now (.calling b) .handled (.ready b now)

/-- Whether a log of beats keeps to the rhythm, and where it leads. -/
inductive Follows (prompt : Bool) : Rhythm → List (Nat × Beat) → Rhythm → Prop
  | nil {r : Rhythm} : Follows prompt r [] r
  | cons {r q r' : Rhythm} {t : Nat} {e : Beat} {log : List (Nat × Beat)}
      (next : Next prompt t r e q) (rest : Follows prompt q log r') :
      Follows prompt r ((t, e) :: log) r'

/-- The backoff that a rhythm comes to once its pause is over. -/
def backoff : Rhythm → Backoff
  | ready b _ | asked b | calling b => b
  | paused b _ => b.advance

/-- When the next poll may be asked for, if nothing else comes first. -/
def due? : Rhythm → Option Nat
  | ready _ since => some since
  | paused _ due => some due
  | asked _ | calling _ => none

theorem Next.of_due (h : Next prompt now r e q) (hdue : r.due? = some due) :
    e = .asks ∧ OnTime prompt due now := by
  cases h with
  | first on | again on =>
    cases hdue
    exact ⟨rfl, on⟩
  | empty | payload | handled => cases hdue

theorem Follows.append {r' : Rhythm} (h : Follows prompt r log q) (h' : Follows prompt q ts r') :
    Follows prompt r (log ++ ts) r' := by
  induction h with
  | nil => exact h'
  | cons next _ ih => exact .cons next (ih h')

theorem Follows.split {r' : Rhythm} (h : Follows prompt r (log ++ ts) r') :
    ∃ q, Follows prompt r log q ∧ Follows prompt q ts r' := by
  induction log generalizing r with
  | nil => exact ⟨r, .nil, h⟩
  | cons e log ih =>
    cases h with
    | cons next rest =>
      obtain ⟨q, hq, hr'⟩ := ih rest
      exact ⟨q, .cons next hq, hr'⟩

theorem Next.backoff_eq (h : Next prompt now r e q) : q.backoff = r.backoff.after [(t, e)] := by
  cases h <;> rfl

/-- The backoff of a rhythm is that of the schedule. -/
theorem Follows.backoff_eq (h : Follows prompt r log q) : q.backoff = r.backoff.after log := by
  induction h with
  | nil => rfl
  | cons next _ ih =>
    rw [Backoff.after_cons, ih, ← next.backoff_eq]

/-- An empty poll is followed by a pause of the length that is its turn. -/
theorem Follows.of_empty {before after : List (Nat × Beat)}
    (h : Follows prompt r (before ++ (t, .empty) :: after) q) :
    Follows prompt (.paused (r.backoff.after before) (t + (r.backoff.after before).current.timer))
      after q := by
  obtain ⟨r₁, hbefore, hafter⟩ := h.split
  rw [← hbefore.backoff_eq]
  cases hafter with
  | cons next rest =>
    cases next with
    | empty => exact rest

/-- After the callback has returned nothing keeps a loop from its next poll. -/
theorem Follows.of_handled {before after : List (Nat × Beat)}
    (h : Follows prompt r (before ++ (t, .handled) :: after) q) :
    ∃ b, Follows prompt (.ready b t) after q := by
  obtain ⟨r₁, -, hafter⟩ := h.split
  cases hafter with
  | cons next rest =>
    cases next with
    | handled => exact ⟨_, rest⟩

/-- What comes after the asking for a poll is the end of that poll. -/
theorem Follows.of_asks {before after : List (Nat × Beat)}
    (h : Follows prompt r (before ++ (t, .asks) :: (now, e) :: after) q) :
    e = .empty ∨ e = .payload := by
  obtain ⟨r₁, -, hafter⟩ := h.split
  cases hafter with
  | cons asks rest =>
    cases rest with
    | cons next rest =>
      cases asks <;> cases next <;> simp

/-- What comes after a payload is the return of the callback. -/
theorem Follows.of_payload {before after : List (Nat × Beat)}
    (h : Follows prompt r (before ++ (t, .payload) :: (now, e) :: after) q) : e = .handled := by
  obtain ⟨r₁, -, hafter⟩ := h.split
  cases hafter with
  | cons payload rest =>
    cases rest with
    | cons next rest =>
      cases payload
      cases next
      rfl

/-- A pause begins with an empty poll. -/
theorem Follows.to_paused {b : Backoff} (h : Follows prompt r log (.paused b due))
    (hr : r ≠ .paused b due) : ∃ before t, log = before ++ [(t, .empty)] := by
  rcases log.eq_nil_or_concat with rfl | ⟨before, last, rfl⟩
  · cases h
    exact absurd rfl hr
  · rw [List.concat_eq_append] at h ⊢
    obtain ⟨r₁, -, hlast⟩ := h.split
    cases hlast with
    | cons next rest =>
      cases rest
      cases next
      exact ⟨before, _, rfl⟩

end Rhythm

end Polling
