import Polling.Proofs.Endings
import Polling.Proofs.Impulses

/-!
# Loops in the runs of a system

How a loop fares in a run of its system (`System.Run.fares`): it goes on or ends, and once it has to
end, because it was asked to or because the signal that it observes is raised and stays so, it heeds
that at the next occasion, whatever the rest of the system does.
-/

namespace Polling

variable {α : Type}

namespace Incident

/-- Whether a poll began for a loop. -/
def begins (p : String) (i : Nat) (e : Incident α) : Bool := (e.of? p).any (Occurrence.begins i)

end Incident

namespace System

variable {s t : System α} {p name : String} {m : Member α} {l : Loop α}
  {tr es : List (Incident α)}

theorem countP_begins (p : String) (i : Nat) (tr : List (Incident α)) :
    (tr.filterMap (Incident.of? p)).countP (Occurrence.begins i) =
      tr.countP (Incident.begins p i) := by
  rw [List.countP_filterMap]
  refine List.countP_congr fun e _ => ?_
  unfold Incident.begins
  cases e.of? p <;> simp

/-- Acts lower no signal but those that they are told to lower. -/
theorem isRaised_acts {signal : String} (as : List (Act α)) (hraised : s.signals.isRaised signal)
    (kept : .lowered signal ∉ as.flatMap Act.incidents) :
    (s.acts as).signals.isRaised signal = true := by
  induction as generalizing s with
  | nil => exact hraised
  | cons a as ih =>
    rw [List.flatMap_cons, List.mem_append, not_or] at kept
    refine ih ?_ kept.2
    cases a with
    | stop | push => exact hraised
    | raise other =>
      show (s.signals.raise other).isRaised signal = true
      rw [Signals.isRaised_raise, hraised, Bool.or_true]
    | lower other =>
      have hne : signal ≠ other := fun heq => kept.1 (by simp [Act.incidents, heq])
      show (s.signals.lower other).isRaised signal = true
      rw [Signals.isRaised_lower, hraised, decide_eq_true hne, Bool.true_and]

/-- A signal stays raised until it is lowered. -/
theorem Response.raised {signal : String} (h : s.Response es t)
    (hraised : s.signals.isRaised signal = true) (kept : .lowered signal ∉ es) :
    t.signals.isRaised signal = true := by
  cases h with
  | turn hm _ ht =>
    obtain ⟨as, os, own, g, hturn⟩ := exists_turn hm ht
    rw [hturn.signals]
    refine isRaised_acts as hraised fun hmem => kept ?_
    rw [hturn.told]
    exact List.mem_append_left _ (List.mem_cons_of_mem _ hmem)
  | act a => exact isRaised_acts [a] hraised (by simpa using kept)
  | _ => exact hraised

theorem Run.raised {signal : String} (h : s.Run tr t) (hraised : s.signals.isRaised signal = true)
    (kept : .lowered signal ∉ tr) : t.signals.isRaised signal = true := by
  induction h with
  | nil => exact hraised
  | snoc _ hresponds ih =>
    rw [List.mem_append, not_or] at kept
    exact (response_of_respond? hresponds).raised (ih kept.1) kept.2

theorem isSignalled_iff : s.isSignalled m = true ↔
    ∃ signal, m.signal = some signal ∧ s.signals.isRaised signal = true := by
  unfold isSignalled
  cases m.signal <;> simp

/-- Whether a loop has to end for as long as a run lasts: it was asked to end, alone or with all
others, or the signal is raised and stays so. -/
def Asked (s : System α) (m : Member α) (l : Loop α) (tr : List (Incident α)) : Prop :=
  m.poller.isCancelled l = true ∨
    ∃ signal, m.signal = some signal ∧ s.signals.isRaised signal = true ∧ .lowered signal ∉ tr

/-- How a loop fares in a run of its system. -/
theorem Run.fares (hs : s.Reachable) (hrun : s.Run tr t) (hm : s.member? name = some m)
    (hl : l ∈ m.poller.loops) :
    ∃ n k, t.member? name = some n ∧ n.signal = m.signal ∧ k ∈ n.poller.loops ∧
      m.poller.Fares l (tr.filterMap (Incident.of? name)) n.poller k ∧
      (s.Asked m l tr → l.Heeds (tr.countP (Incident.isTurnOf name l.id))
        (tr.filterMap (Incident.of? name)) k) := by
  induction hrun with
  | nil => exact ⟨m, l, hm, rfl, hl, .refl _ l, fun _ => .refl l⟩
  | @snoc t u tr es x hrun hresponds ih =>
    obtain ⟨n, k, hn, hsignal, hk, hfares, hheeds⟩ := ih
    have hsound := ((hs.run hrun).poller hn).sound
    obtain ⟨n', cues, hn', hperforms⟩ := (response_of_respond? hresponds).takes hn
    obtain ⟨k', hk', hfares', hheeds'⟩ := Poller.fares_of_perform? hsound hk hperforms.performed
    refine ⟨n', k', hn', hperforms.signal.trans hsignal, hk', ?_, fun hasked => ?_⟩
    · rw [List.filterMap_append]
      exact hfares.trans hfares'
    · have hbefore : s.Asked m l tr := hasked.imp_right fun ⟨signal, hsig, hraised, kept⟩ =>
        ⟨signal, hsig, hraised, fun hmem => kept (List.mem_append_left _ hmem)⟩
      have hnow : n.poller.Asked k cues := by
        refine hasked.imp hfares.isCancelled fun ⟨signal, hsig, hraised, kept⟩ cue hcue => ?_
        have hup := hrun.raised hraised fun hmem => kept (List.mem_append_left _ hmem)
        have hshown : t.isSignalled n = true := isSignalled_iff.2 ⟨signal, hsignal.trans hsig, hup⟩
        exact hshown ▸ hperforms.shows cue hcue
      have hboth := (hheeds hbefore).trans (hheeds' hnow) hfares.id
      rw [hperforms.turns, hfares.id] at hboth
      rw [List.countP_append, List.filterMap_append]
      exact hboth

end System

end Polling
