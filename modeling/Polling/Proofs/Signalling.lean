import Polling.Proofs.SystemRuns

/-!
# Under a raised signal

A loop whose poller observes a raised signal ends after a few more moves, and its poller stops.
While the signal is raised the loop has to wait for nothing but the poll lock, a poll or a callback
in progress: no pause keeps it (`waits_of_signalled`).  All of this is owed to the signal's staying
raised.  A loop looks at the signal only when it gets its turn, so a signal that is lowered before
then might as well never have been raised.
-/

namespace Polling

variable {α : Type}

/-- Whether a loop that stands here may have to wait although the signal is raised: for the poll
lock, or for a poll or a callback that is in progress. -/
def Stage.isBusy : Stage α → Bool
  | .queued | .polling _ _ | .calling _ _ => true
  | _ => false

namespace System

variable {s t : System α} {name signal : String} {m n : Member α} {l k : Loop α}
  {tr : List (Incident α)}

/-- A signal that is raised lets no loop rest. -/
theorem waits_of_signalled (hs : s.Reachable) (hm : s.member? name = some m)
    (hl : l ∈ m.poller.loops) (hal : l.hasEnded = false) (hsignalled : s.isSignalled m = true)
    (hstuck : s.loopMoves name l.id = []) : l.runs = false ∨ l.stage.isBusy = true := by
  have hloop := (hs.poller hm).sound.loop?_of_mem hl
  simp only [loopMoves, hm, hloop, movesOf] at hstuck
  cases stage : l.stage with
  | spawned backlog =>
    left
    simpa [stage] using hstuck
  | queued | polling | calling => exact .inr rfl
  | checking =>
    simp only [stage] at hstuck
    split at hstuck <;> cases hstuck
  | handing | yielded => simp [stage] at hstuck
  | asleep pause due => simp [stage, Poller.wakes, hsignalled] at hstuck
  | ended => simp [Loop.hasEnded, stage] at hal

theorem remaining_le (l : Loop α) : l.stage.remaining ≤ 5 := by
  cases l.stage <;> simp [Stage.remaining]

/-- A signal that is raised while a loop is there, and stays raised, ends that loop: it begins no
poll but the one for which it is in line already, makes at most five more moves, and until then
waits for nothing but the poll lock, a poll or a callback.  And its poller has stopped then, unless
the loop was asked to end all the same, lost its waiter, passed a payload on to it, or had its task
discarded. -/
theorem ends_of_signalled (hs : s.Reachable) (hm : s.member? name = some m)
    (hl : l ∈ m.poller.loops) (hal : l.hasEnded = false) (hsignal : m.signal = some signal)
    (hraised : s.signals.isRaised signal = true) (hrun : s.Run tr t)
    (kept : .lowered signal ∉ tr) :
    tr.countP (Incident.begins name l.id) ≤ l.stage.isQueued.toNat ∧
      tr.countP (Incident.isTurnOf name l.id) ≤ 5 ∧
      ∃ n k, t.member? name = some n ∧ k ∈ n.poller.loops ∧ k.id = l.id ∧
        (k.hasEnded = false → t.loopMoves name l.id = [] →
          l.runs = false ∨ k.stage.isBusy = true) ∧
        (k.hasEnded = true → n.poller.Excuses l (tr.filterMap (Incident.of? name)) k) := by
  obtain ⟨n, k, hn, hsame, hk, hfares, hheeds⟩ := hrun.fares hs hm hl
  have heeds := hheeds (.inr ⟨signal, hsignal, hraised, kept⟩)
  refine ⟨?_, ?_, n, k, hn, hk, hfares.id, fun halk hstuck => ?_, fun hend => ?_⟩
  · have hpolls := heeds.polls
    rw [countP_begins] at hpolls
    exact Nat.le_of_add_right_le hpolls
  · have hmoves := heeds.moves
    have hmost := remaining_le l
    omega
  · have hup : t.isSignalled n = true :=
      isSignalled_iff.2 ⟨signal, hsame.trans hsignal, hrun.raised hraised kept⟩
    rw [← hfares.id] at hstuck
    rw [← hfares.runs_eq halk]
    exact waits_of_signalled (hs.run hrun) hn hk halk hup hstuck
  · rcases hfares.ends hend with hl | he
    · rw [hal] at hl
      cases hl
    · exact he

/-- A wait that observes a signal, which is raised while its loop pauses. -/
def raisedInPause (last : List (Impulse Nat)) : List (Impulse Nat) :=
  let pacing : Pacing := { initial := .ofMillis 10, growth := .linear .zero }
  [.build "a" "a" pacing ⟨[(1, { outcome := .empty })], { outcome := .payload 7 }⟩ (.own "a")
      (some "s"),
    .cue "a" (.call ⟨"w", true, .entering⟩), .cue "a" (.resume "w" true),
    .turn "a" 1 0, .turn "a" 1 0, .turn "a" 1 0, .turn "a" 1 0, .act (.raise "s")] ++ last

theorem ends_of_signalled_in_pause : ∃ (s t : System Nat) (tr : List (Incident Nat))
    (m : Member Nat) (l : Loop Nat), s.Reachable ∧ s.member? "a" = some m ∧
      l ∈ m.poller.loops ∧ l.hasEnded = false ∧ m.signal = some "s" ∧
      s.signals.isRaised "s" = true ∧ s.Run tr t ∧ .lowered "s" ∉ tr ∧
      tr.countP (Incident.isTurnOf "a" l.id) ≤ 5 ∧
      ∃ n k, t.member? "a" = some n ∧ k ∈ n.poller.loops ∧ k.hasEnded = true ∧
        n.poller.Excuses l (tr.filterMap (Incident.of? "a")) k ∧ n.poller.phase = .stopped := by
  have hs := reachable_after (raisedInPause [])
  have hm : (after (raisedInPause [])).member? "a" = some _ := rfl
  have hrun : (after (raisedInPause [])).Run _ _ := run_of_enact? [.turn "a" 1 0] rfl
  have hkept : Incident.lowered "s" ∉ ([.turned "a" 1] : List (Incident Nat)) := by simp
  obtain ⟨-, hmoves, n, k, hn, hk, -, -, hends⟩ :=
    ends_of_signalled hs hm List.mem_cons_self rfl rfl rfl hrun hkept
  obtain rfl := Option.some.inj hn
  obtain rfl := List.mem_singleton.1 hk
  exact ⟨_, _, _, _, _, hs, hm, List.mem_cons_self, rfl, rfl, rfl, hrun, hkept, hmoves, _, _, hn,
    hk, rfl, hends rfl, rfl⟩

/-- A signal that is lowered before a loop gets its turn stops nothing. -/
theorem signal_missed : ¬ ∀ (s t : System Nat) (tr : List (Incident Nat)) (name signal : String)
    (m n : Member Nat) (l k : Loop Nat), s.Reachable → s.member? name = some m →
      l ∈ m.poller.loops → l.hasEnded = false → m.signal = some signal →
      s.signals.isRaised signal = true → s.Run tr t → t.member? name = some n →
      k ∈ n.poller.loops → k.id = l.id → k.hasEnded = true →
      tr.countP (Incident.begins name l.id) = 0 ∧ n.poller.phase = .stopped := by
  intro h
  have hm : (after (raisedInPause [])).member? "a" = some _ := rfl
  have hrun : (after (raisedInPause [])).Run _ _ := run_of_enact? [.act (.lower "s"), .pass 10,
    .turn "a" 1 0, .turn "a" 1 0, .turn "a" 1 0, .turn "a" 1 0] rfl
  have hstops := h _ _ _ _ _ _ _ _ _ (reachable_after _) hm List.mem_cons_self rfl rfl rfl hrun rfl
    List.mem_cons_self rfl rfl
  cases hstops.2

end System

end Polling
