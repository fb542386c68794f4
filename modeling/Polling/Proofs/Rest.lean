import Polling.Proofs.Impulses
import Polling.Proofs.Soundness

/-!
# Systems at rest

A system is at rest if letting a task run gets it no further, whichever task it is.  Then each loop
that has not ended waits for something (`AtRest.movesOf_eq_nil`), and so does each pending call
unless it goes round in circles (`AtRest.waits`).  A system that is at rest has settled
(`settleWithin_of_atRest`).
-/

namespace Polling

variable {α : Type}

/-- A value that is found is there. -/
theorem Table.mem_of_find? {β : Type} {t : Table β} {name : String} {b : β}
    (h : t.find? name = some b) : (name, b) ∈ t := by
  obtain ⟨before, after, rfl, -⟩ := List.lookup_eq_some_iff.1 h
  exact List.mem_append_right _ List.mem_cons_self

namespace System

variable {s t : System α} {p name : String} {m : Member α} {l : Loop α} {c : Call α}

/-- Whether letting a task run gets the system no further, whichever task it is. -/
def AtRest (s : System α) : Prop := s.tasks.any s.canProgress = false

instance : Decidable s.AtRest := inferInstanceAs (Decidable (_ = _))

theorem AtRest.canProgress (h : s.AtRest) {task : Task} (htask : task ∈ s.tasks) :
    s.canProgress task = false := by
  simpa using List.any_eq_false.1 h task htask

/-- A system of which no task can run is at rest. -/
theorem atRest_of_isSettled (h : s.isSettled = true) : s.AtRest := by
  refine List.any_eq_false.2 fun task htask => ?_
  have hrun := List.all_eq_true.1 h task htask
  simp only [Bool.not_eq_true'] at hrun
  simp [System.canProgress, hrun]

/-- A system that is at rest has settled. -/
theorem settleWithin_of_atRest (h : s.AtRest) (n : Nat) : settleWithin n s = s := by
  cases n with
  | zero => rfl
  | succ n =>
    unfold AtRest at h
    simp [settleWithin, h]

theorem mem_tasks_loop (hm : s.member? name = some m) (hl : l ∈ m.poller.loops)
    (hal : l.hasEnded = false) : .loop name l.id ∈ s.tasks := by
  refine List.mem_flatMap.2 ⟨(name, m), Table.mem_of_find? hm, List.mem_append_left _ ?_⟩
  exact List.mem_map.2 ⟨l, List.mem_filter.2 ⟨hl, by simp [hal]⟩, rfl⟩

theorem mem_tasks_call (hm : s.member? name = some m) (hc : c ∈ m.poller.calls) :
    .call name c.id ∈ s.tasks := by
  refine List.mem_flatMap.2 ⟨(name, m), Table.mem_of_find? hm, List.mem_append_right _ ?_⟩
  exact List.mem_map.2 ⟨c, hc, rfl⟩

theorem loopMoves_eq (hs : s.Reachable) (hm : s.member? name = some m)
    (hl : l ∈ m.poller.loops) : s.loopMoves name l.id = s.movesOf name m l := by
  simp only [loopMoves, hm, (hs.poller hm).sound.loop?_of_mem hl]

/-- A loop that moves has not ended. -/
theorem alive_of_movesOf (ht : t ∈ s.movesOf p m l) : l.hasEnded = false := by
  cases stage : l.stage with
  | ended exit => simp [movesOf, stage] at ht
  | _ => simp [Loop.hasEnded, stage]

/-- A loop of a system at rest has to wait. -/
theorem AtRest.movesOf_eq_nil (h : s.AtRest) (hs : s.Reachable) (hm : s.member? name = some m)
    (hl : l ∈ m.poller.loops) : s.movesOf name m l = [] := by
  cases hal : l.hasEnded with
  | true =>
    unfold Loop.hasEnded at hal
    split at hal
    · next hs => simp only [movesOf, hs]
    · cases hal
  | false =>
    have hrun := h.canProgress (mem_tasks_loop hm hl hal)
    simpa [System.canProgress, canRun, circles, loopMoves_eq hs hm hl] using hrun

/-- A pending call of a system at rest has to wait, too, or it goes round in circles. -/
theorem AtRest.waits (h : s.AtRest) (hs : s.Reachable) (hm : s.member? name = some m)
    (hc : c ∈ m.poller.calls) : m.poller.callReady c = false ∨ m.poller.circles c = true := by
  have hcall := (hs.poller hm).sound.call?_of_mem hc
  have hrun := h.canProgress (mem_tasks_call hm hc)
  simp only [System.canProgress, canRun, circles, hm, hcall, Option.any_some] at hrun
  cases hready : m.poller.callReady c with
  | false => exact .inl rfl
  | true => exact .inr (by simpa [hready] using hrun)

end System

end Polling
