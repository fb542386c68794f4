import Mathlib.Data.List.Nodup
import Polling.Proofs.History

/-!
# What holds of the life cycle at any moment

`Poller.Sound` ties the parts of a poller to one another: a loop that has not ended is the one that
the life cycle names, the phase tells whether there is one, nothing is parked while there is one,
and every pending call waits for something that is there (`Poller.CallFits`).  That every move
keeps it is shown in `Polling.Proofs.Soundness`.
-/

namespace Polling

variable {α : Type}

/-- Whether two versions of a loop differ in no more than how far it has come. -/
structure Loop.SameTask (l m : Loop α) : Prop where
  id : m.id = l.id
  consumer : m.consumer = l.consumer
  runs : m.runs = l.runs

theorem Loop.SameTask.refl (l : Loop α) : l.SameTask l := ⟨rfl, rfl, rfl⟩

/-- Whether a loop may have become another one by any number of moves. -/
structure Loop.Becomes (l m : Loop α) : Prop where
  id : m.id = l.id
  consumer : m.consumer = l.consumer
  ended : l.hasEnded = true → m.hasEnded = true
  /-- A task does not run any more once it was discarded. -/
  runs : m.runs = l.runs ∨ l.hasEnded = false ∧ m.hasEnded = true ∧ m.runs = false

theorem Loop.SameTask.becomes {l m : Loop α} (h : l.SameTask m)
    (ended : l.hasEnded = true → m.hasEnded = true) : l.Becomes m :=
  ⟨h.id, h.consumer, ended, .inl h.runs⟩

theorem Loop.Becomes.refl (l : Loop α) : l.Becomes l := (SameTask.refl l).becomes fun hend => hend

/-- What is still there was there before. -/
theorem Loop.Becomes.lived {l m : Loop α} (h : l.Becomes m) (hal : m.hasEnded = false) :
    l.hasEnded = false := by
  by_contra hend
  rw [h.ended (by simpa using hend)] at hal
  cases hal

theorem Loop.Becomes.trans {l m k : Loop α} (h : l.Becomes m) (h' : m.Becomes k) :
    l.Becomes k where
  id := h'.id.trans h.id
  consumer := h'.consumer.trans h.consumer
  ended hend := h'.ended (h.ended hend)
  runs := by
    -- The task is discarded once at most: before the second part of the way, or in it.
    rcases h'.runs with hruns | ⟨hal, hend, hruns⟩
    · rcases h.runs with hruns' | ⟨hal, hend, hruns'⟩
      · exact .inl (hruns.trans hruns')
      · exact .inr ⟨hal, h'.ended hend, hruns.trans hruns'⟩
    · exact .inr ⟨h.lived hal, hend, hruns⟩

/-- A task that runs has run all the time. -/
theorem Loop.Becomes.ran {l m : Loop α} (h : l.Becomes m) (hruns : m.runs = true) :
    l.runs = true := by
  rcases h.runs with hsame | ⟨-, -, hgone⟩
  · exact hsame.symm.trans hruns
  · rw [hgone] at hruns
    cases hruns

/-- A task that does not run never runs again. -/
theorem Loop.Becomes.unrun {l m : Loop α} (h : l.Becomes m) (hruns : l.runs = false) :
    m.runs = false := by
  rcases h.runs with hsame | ⟨-, -, hgone⟩
  · exact hsame.trans hruns
  · exact hgone

/-- A task that is still there runs if it ran before. -/
theorem Loop.Becomes.runs_eq {l m : Loop α} (h : l.Becomes m) (hal : m.hasEnded = false) :
    m.runs = l.runs := by
  rcases h.runs with hsame | ⟨-, hend, -⟩
  · exact hsame
  · rw [hend] at hal
    cases hal

/-- A task that is still there is the same task. -/
theorem Loop.Becomes.sameTask {l m : Loop α} (h : l.Becomes m) (hal : m.hasEnded = false) :
    l.SameTask m := ⟨h.id, h.consumer, h.runs_eq hal⟩

theorem Loop.becomes_discarded {l : Loop α} (hal : l.hasEnded = false) : l.Becomes l.discarded :=
  ⟨rfl, rfl, fun _ => rfl, .inr ⟨hal, rfl, rfl⟩⟩

/-- A task that waits is still there. -/
theorem Stage.alive_of_awaits {l : Loop α} (h : l.stage.awaits = true) : l.hasEnded = false := by
  unfold Loop.hasEnded
  split
  · next hs => simp [hs, awaits] at h
  · rfl

namespace Poller

/-- What ties the life cycle of a poller to its loops. -/
structure Consistent (p : Poller α) : Prop where
  ids : (p.loops.map Loop.id).Nodup
  id_le : ∀ l ∈ p.loops, l.id ≤ p.started
  /-- A task that never gets to run stays where it began. -/
  unrun : ∀ l ∈ p.loops, l.runs = false → l.hasEnded = false → ∃ b, l.stage = .spawned b
  /-- There is no loop but the one that the life cycle names. -/
  alive : ∀ l ∈ p.loops, l.hasEnded = false → ∃ j, p.current = some ⟨l.id, j⟩
  /-- Only a discarded task leaves the life cycle as it was. -/
  attached : ∀ a, p.current = some a → ∃ l ∈ p.loops, l.id = a.loop ∧
    p.consumer = some l.consumer ∧ (l.hasEnded = true → l.runs = false)
  detached : p.current = none → p.consumer = none ∧ (p.phase = .idle ∨ p.phase = .stopped)
  engaged : p.current ≠ none → p.phase = .running ∨ p.phase = .stopping
  halted : p.phase = .stopping ∨ p.phase = .stopped → p.stopRequested = true
  disposed : p.disposed = true → p.phase = .stopping ∨ p.phase = .stopped
  /-- Nothing is parked while there is a loop. -/
  vacant : p.current ≠ none → p.parked = none
  /-- A subscription has one loop. -/
  solo : ∀ l ∈ p.loops, ∀ m ∈ p.loops, ∀ subscription, l.consumer = .subscriber subscription →
    m.consumer = .subscriber subscription → m.id = l.id
  /-- The task of a subscription leaves the life cycle by its own end or never. -/
  stuck : ∀ l ∈ p.loops, l.runs = false → ∀ subscription, l.consumer = .subscriber subscription →
    ∃ j, p.current = some ⟨l.id, j⟩
  callIds : (p.calls.map Call.id).Nodup

/-- What holds while a call joins a loop.  The end of a subscription joins the loop of one, a wait
joins a loop that it has cleared up after only once the poller stops, and a shutdown joins the last
loop that there will be. -/
structure Joins (p : Poller α) (i : Nat) (s : Sequel) : Prop where
  loop : ∃ l ∈ p.loops, l.id = i ∧
    (s = .leave → ∃ subscription, l.consumer = .subscriber subscription)
  conclude : s = .conclude → p.stopRequested = true
  close : s = .close → p.disposed = true ∧ ∀ a, p.current = some a → a = ⟨i, false⟩

/-- What ties a pending call to the loops of its poller. -/
structure CallFits (p : Poller α) (c : Call α) : Prop where
  /-- A wait without an answer is the present consumer. -/
  awaiting : ∀ i, c.stage = .receiving i none →
    p.consumer = some (.waiter c.id) ∧ ∃ j, p.current = some ⟨i, j⟩
  /-- A waiter that is still there listens to its loop. -/
  listening : ∀ l ∈ p.loops, l.hasEnded = false → l.consumer = .waiter c.id →
    c.stage = .receiving l.id none
  /-- The loop that a call joins is there, and fits what the call does next. -/
  joining : ∀ i s, c.stage = .joining i s → p.Joins i s

/-- What holds of a poller at any moment. -/
structure Sound (p : Poller α) : Prop extends Consistent p where
  fits : ∀ c ∈ p.calls, p.CallFits c

/-- Puts a loop in the place of the one with its number. -/
def withLoop (p : Poller α) (m : Loop α) : Poller α := p.updateLoop m.id fun _ => m

theorem Consistent.eq_of_id {p : Poller α} (h : p.Consistent) {l m : Loop α} (hl : l ∈ p.loops)
    (hm : m ∈ p.loops) (hid : m.id = l.id) : m = l :=
  List.inj_on_of_nodup_map h.ids hm hl hid

theorem Consistent.eq_of_callId {p : Poller α} (h : p.Consistent) {c d : Call α}
    (hc : c ∈ p.calls) (hd : d ∈ p.calls) (hid : d.id = c.id) : d = c :=
  List.inj_on_of_nodup_map h.callIds hd hc hid

/-- The life cycle names one loop, so at most one has not ended. -/
theorem Consistent.eq_of_alive {p : Poller α} (h : p.Consistent) {l m : Loop α} (hl : l ∈ p.loops)
    (hm : m ∈ p.loops) (hal : l.hasEnded = false) (hal' : m.hasEnded = false) : m = l := by
  obtain ⟨j, hj⟩ := h.alive l hl hal
  obtain ⟨j', hj'⟩ := h.alive m hm hal'
  rw [hj] at hj'
  have hid : l.id = m.id := congrArg Attachment.loop (Option.some.inj hj')
  exact h.eq_of_id hl hm hid.symm

theorem loop?_eq_some {p : Poller α} {i : Nat} {l : Loop α} (h : p.loop? i = some l) :
    l ∈ p.loops ∧ l.id = i :=
  ⟨List.mem_of_find?_eq_some h, by simpa using List.find?_some h⟩

theorem mem_of_call? {p : Poller α} {c : Call α} (id : String) (h : p.call? id = some c) :
    c ∈ p.calls := List.mem_of_find?_eq_some h

theorem call?_eq_some {p : Poller α} {id : String} {c : Call α} (h : p.call? id = some c) :
    c ∈ p.calls ∧ c.id = id :=
  ⟨mem_of_call? id h, by simpa using List.find?_some h⟩

theorem call?_eq_none {p : Poller α} {id : String} :
    p.call? id = none ↔ ∀ c ∈ p.calls, c.id ≠ id := by
  simp [call?]

theorem Consistent.loop?_of_mem {p : Poller α} (h : p.Consistent) {l : Loop α}
    (hl : l ∈ p.loops) : p.loop? l.id = some l := by
  cases hf : p.loop? l.id with
  | none => simpa using List.find?_eq_none.1 hf l hl
  | some m =>
    obtain ⟨hm, hid⟩ := loop?_eq_some hf
    rw [h.eq_of_id hl hm hid]

theorem Consistent.call?_of_mem {p : Poller α} (h : p.Consistent) {c : Call α}
    (hc : c ∈ p.calls) : p.call? c.id = some c := by
  cases hf : p.call? c.id with
  | none => exact absurd rfl (call?_eq_none.1 hf c hc)
  | some d =>
    obtain ⟨hd, hid⟩ := call?_eq_some hf
    rw [h.eq_of_callId hc hd hid]

theorem Consistent.hasEnded_of_mem {p : Poller α} (h : p.Consistent) {l : Loop α}
    (hl : l ∈ p.loops) : p.hasEnded l.id = l.hasEnded := by
  simp [hasEnded, h.loop?_of_mem hl]

/-- Changing the loop of a number changes that one loop. -/
theorem updateLoop_eq {p : Poller α} (ids : (p.loops.map Loop.id).Nodup) {l : Loop α}
    (hl : l ∈ p.loops) {f : Loop α → Loop α} (hf : (f l).id = l.id) :
    p.updateLoop l.id f = p.withLoop (f l) := by
  have hloops : (p.loops.map fun m => if m.id = l.id then f m else m)
      = p.loops.map fun m => if m.id = l.id then f l else m := by
    apply List.map_congr_left
    intro m hm
    split
    · next hid => rw [List.inj_on_of_nodup_map ids hm hl hid]
    · rfl
  simp only [withLoop, updateLoop, hf, hloops]

/-- Discarding the task of a loop puts the discarded one in its place. -/
theorem Consistent.discard_eq {p : Poller α} (h : p.Consistent) {l : Loop α} (hl : l ∈ p.loops) :
    p.discard l.id = p.withLoop l.discarded := updateLoop_eq h.ids hl rfl

/-- Changing a loop that has been put in place is putting the changed one in place. -/
theorem updateLoop_withLoop (p : Poller α) (m : Loop α) {f : Loop α → Loop α}
    (hf : (f m).id = m.id) : (p.withLoop m).updateLoop m.id f = p.withLoop (f m) := by
  have hloops : (p.loops.map fun k => if k.id = m.id then m else k).map
        (fun k => if k.id = m.id then f k else k)
      = p.loops.map fun k => if k.id = m.id then f m else k := by
    rw [List.map_map]
    apply List.map_congr_left
    intro k _
    by_cases hk : k.id = m.id <;> simp [hk]
  simp only [withLoop, updateLoop, hf, hloops]

/-- A loop stands in its own place. -/
theorem Consistent.withLoop_self {p : Poller α} (h : p.Consistent) {l : Loop α}
    (hl : l ∈ p.loops) : p.withLoop l = p := by
  have hloops : (p.loops.map fun m => if m.id = l.id then l else m) = p.loops := by
    refine (List.map_congr_left fun m hm => ?_).trans (List.map_id _)
    split
    · next hid => rw [h.eq_of_id hl hm hid]; rfl
    · rfl
  simp only [withLoop, updateLoop, hloops]

/-- Who is there when a loop stands in the place of another one. -/
theorem mem_withLoop {p : Poller α} {m l : Loop α} (h : l ∈ (p.withLoop m).loops) :
    l = m ∨ l ∈ p.loops ∧ l.id ≠ m.id := by
  simp only [withLoop, updateLoop, List.mem_map] at h
  obtain ⟨k, hk, rfl⟩ := h
  split
  · exact .inl rfl
  · next hne => exact .inr ⟨hk, hne⟩

/-- Which loop of a changed poller stands in the place of the changed one. -/
theorem Consistent.eq_of_updateLoop {p q : Poller α} (h : p.Consistent) {l : Loop α}
    (hl : l ∈ p.loops) {f : Loop α → Loop α} (hq : q.loops = (p.updateLoop l.id f).loops)
    {k : Loop α} (hk : k ∈ q.loops) (hid : k.id = l.id) : k = f l := by
  rw [hq] at hk
  obtain ⟨k₀, hk₀, rfl⟩ := List.mem_map.1 hk
  split at hid
  · next h₀ =>
    rw [if_pos h₀, h.eq_of_id hl hk₀ h₀]
  · exact absurd hid ‹_›

/-- A poller that is just built is sound. -/
theorem sound_idle (name : String) (pacing : Pacing) : (idle name pacing : Poller α).Sound := by
  constructor
  · constructor <;> simp [idle]
  · simp [idle]

end Poller

end Polling
