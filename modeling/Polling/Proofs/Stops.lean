import Polling.Proofs.Handover
import Polling.Proofs.SystemRuns

/-!
# No poll after a stop

A loop that has to end begins no further poll.  There is one exception: a loop that has got in line
for the poll lock checks nothing any more until it has polled, so a stop that comes while it waits
for its turn does not keep it from beginning that one poll.
-/

namespace Polling

variable {α : Type}

namespace Poller

variable {p q : Poller α} {l m : Loop α} {c : Call α}

/-- Whoever stops a poller, shuts it down or lets go of it asks all its loops to end. -/
theorem isCancelled_of_stop (p : Poller α) (l : Loop α) :
    p.stop.isCancelled l = true ∧ p.release.isCancelled l = true ∧
      p.close.1.isCancelled l = true := by
  have hclose : p.close.1.stopRequested = true := by
    simp only [close, report]
    split
    · rfl
    · split <;> rfl
  simp [isCancelled, stop, release, hclose]

/-- Whoever ends a subscription asks its loop to end. -/
theorem isCancelled_of_unsubscribe {a : Attachment} (hm : m ∈ (p.retire a).loops)
    (hid : m.id = a.loop) : (p.retire a).isCancelled m = true := by
  obtain ⟨k, -, rfl⟩ := List.mem_map.1 hm
  by_cases hk : k.id = a.loop
  · simp [isCancelled, hk]
  · simp [hk] at hid

end Poller

namespace System

variable {s t : System α} {name : String} {m n : Member α} {l : Loop α} {tr : List (Incident α)}

/-- From the moment at which a loop has to end, because it was asked to or because the signal is
raised and stays so, it begins no poll but the one for which it is in line already.  Every payload
that a poll of this loop still finds is passed on. -/
theorem polls_once_asked (hs : s.Reachable) (hm : s.member? name = some m)
    (hl : l ∈ m.poller.loops) (hrun : s.Run tr t) (hasked : s.Asked m l tr) :
    tr.countP (Incident.begins name l.id) ≤ l.stage.isQueued.toNat ∧
      ∃ n, t.member? name = some n ∧ ∀ before after x,
        tr.filterMap (Incident.of? name) = before ++ .polled l.id (.ok (.payload x)) :: after →
        ∃ q, Poller.Run m.poller (before ++ [.polled l.id (.ok (.payload x))]) q ∧
          q.PassesOn l.id x l.consumer ∧ Poller.Run q after n.poller := by
  have hsound := (hs.poller hm).sound
  constructor
  · obtain ⟨n, k, -, -, -, -, hheeds⟩ := hrun.fares hs hm hl
    have hpolls := (hheeds hasked).polls
    rw [countP_begins] at hpolls
    exact Nat.le_of_add_right_le hpolls
  · obtain ⟨n, hn, hpoller⟩ := hrun.poller hm
    refine ⟨n, hn, fun before after x htr => ?_⟩
    rw [htr] at hpoller
    exact hpoller.passesOn hsound hl

/-- Two pollers that share a poll lock.  The first one polls, and the second one waits for its turn
until `last`. -/
def sharedLock (last : List (Impulse Nat)) : List (Impulse Nat) :=
  let pacing : Pacing := { growth := .linear .zero }
  [.build "a" "a" pacing ⟨[], { latency := 20 }⟩ (.named "k") none,
    .build "b" "b" pacing ⟨[], { latency := 20, outcome := .payload 7 }⟩ (.named "k") none,
    .cue "a" (.call ⟨"v", true, .entering⟩), .cue "a" (.resume "v" true),
    .cue "b" (.call ⟨"w", true, .entering⟩), .cue "b" (.resume "w" true),
    .turn "a" 1 0, .turn "a" 1 0, .turn "a" 1 0, .turn "b" 1 0, .turn "b" 1 0] ++ last

/-- What happens next: the first poller ends its poll, and the second one polls. -/
def nextInLine : List (Impulse Nat) :=
  [.pass 20, .turn "a" 1 0, .turn "b" 1 0, .pass 20, .turn "b" 1 0]

theorem polls_once_asked_in_line : ∃ (s t : System Nat) (tr : List (Incident Nat)) (m : Member Nat)
    (l : Loop Nat), s.Reachable ∧ s.member? "b" = some m ∧ l ∈ m.poller.loops ∧ s.Run tr t ∧
      s.Asked m l tr ∧ l.stage.isQueued = true ∧ tr.countP (Incident.begins "b" l.id) ≤ 1 ∧
      ∃ q : Poller Nat, q.PassesOn l.id 7 (.waiter "w") := by
  have hs := reachable_after (sharedLock [.act (.stop "b")])
  have hm : (after (sharedLock [.act (.stop "b")])).member? "b" = some _ := rfl
  have hrun : (after (sharedLock [.act (.stop "b")])).Run _ _ := run_of_enact? nextInLine rfl
  obtain ⟨hpolls, n, -, hpasses⟩ :=
    polls_once_asked hs hm List.mem_cons_self hrun (.inl rfl)
  obtain ⟨q, -, hq, -⟩ := hpasses [.pollBegan 1] [] 7 rfl
  exact ⟨_, _, _, _, _, hs, hm, List.mem_cons_self, hrun, .inl rfl, rfl, hpolls, q, hq⟩

/-- A stop does not keep a loop from beginning the poll for which it is in line. -/
theorem poll_begins_after_stop : ¬ ∀ (s t : System Nat) (tr : List (Incident Nat)) (name : String)
    (m : Member Nat) (l : Loop Nat), s.Reachable → s.member? name = some m → l ∈ m.poller.loops →
      s.Run tr t → m.poller.stopRequested = true → tr.countP (Incident.begins name l.id) = 0 := by
  intro h
  have hm : (after (sharedLock [.act (.stop "b")])).member? "b" = some _ := rfl
  have hrun : (after (sharedLock [.act (.stop "b")])).Run _ _ := run_of_enact? nextInLine rfl
  have hnone := h _ _ _ _ _ _ (reachable_after _) hm List.mem_cons_self hrun rfl
  cases hnone

end System

end Polling
