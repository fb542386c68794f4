import Polling.Proofs.Soundness

/-!
# What is read off the loops

At most one loop of a poller has not ended.  What vanishes when a loop ends is therefore read off
that one loop (`Consistent.read_of_alive`), and there is nothing to read where there is none
(`Consistent.read_of_vacant`).  All that calls do to loops is to start them and to ask them to end,
so they change no reading (`CallEffect.read_eq`).
-/

namespace Polling

variable {α β γ κ : Type}

/-- What is read off a list with unique keys is read off the one element that holds anything. -/
theorem flatMap_eq_of_nodup {key : β → κ} {xs : List β} (nodup : (xs.map key).Nodup) {a : β}
    (ha : a ∈ xs) {g : β → List γ} (hg : ∀ x ∈ xs, key x ≠ key a → g x = []) :
    xs.flatMap g = g a := by
  induction xs with
  | nil => cases ha
  | cons x xs ih =>
    obtain ⟨hx, hxs⟩ := List.nodup_cons.1 nodup
    have hne : ∀ y ∈ xs, key y ≠ key x := fun y hy hkey => hx (hkey ▸ List.mem_map_of_mem hy)
    rw [List.flatMap_cons]
    rcases List.mem_cons.1 ha with rfl | ha
    · have hrest : xs.flatMap g = [] :=
        List.flatMap_eq_nil_iff.2 fun y hy => hg y (List.mem_cons_of_mem _ hy) (hne y hy)
      rw [hrest, List.append_nil]
    · rw [hg x List.mem_cons_self (hne a ha).symm, List.nil_append]
      exact ih hxs ha fun y hy => hg y (List.mem_cons_of_mem _ hy)

/-- Whether something can be read off a loop that its end makes vanish, and that neither its start
nor a request to end brings about. -/
structure Loop.Reads (g : Loop α → List β) : Prop where
  ended : ∀ l, l.hasEnded = true → g l = []
  spawned : ∀ l, l.stage = .spawned none → g l = []
  cancelled : ∀ (l : Loop α) (b : Bool), g { l with cancelled := b } = g l

namespace Poller

/-- What is read off the loops. -/
def read (g : Loop α → List β) (p : Poller α) : List β := p.loops.flatMap g

variable {p q : Poller α} {l m : Loop α} {c : Call α} {g : Loop α → List β}

/-- All loops but one have ended. -/
theorem Consistent.hasEnded_of_ne (h : p.Consistent) (hl : l ∈ p.loops) (hal : l.hasEnded = false)
    (hm : m ∈ p.loops) (hne : m.id ≠ l.id) : m.hasEnded = true := by
  by_contra hmal
  exact hne (congrArg Loop.id (h.eq_of_alive hl hm hal (by simpa using hmal)))

/-- There is one loop that has not ended, and off that it is read. -/
theorem Consistent.read_of_alive (h : p.Consistent) (hg : Loop.Reads g) (hl : l ∈ p.loops)
    (hal : l.hasEnded = false) : p.read g = g l :=
  flatMap_eq_of_nodup h.ids hl fun k hk hne => hg.ended k (h.hasEnded_of_ne hl hal hk hne)

/-- Nothing is read off loops that have all ended. -/
theorem Consistent.read_of_vacant (h : p.Consistent) (hg : Loop.Reads g)
    (hnone : p.current = none) : p.read g = [] :=
  List.flatMap_eq_nil_iff.2 fun _ hl => hg.ended _ (h.hasEnded_of_current hnone hl)

/-- Whatever becomes of the loop that has not ended, it is read off that. -/
theorem Consistent.read_updateLoop (h : p.Consistent) (hg : Loop.Reads g) (hl : l ∈ p.loops)
    (hal : l.hasEnded = false) {f : Loop α → Loop α}
    (hq : q.loops = (p.updateLoop l.id f).loops) : q.read g = g (f l) := by
  rw [read, hq, updateLoop, List.flatMap_map]
  have hread : p.loops.flatMap (fun k => g (if k.id = l.id then f k else k)) =
      g (if l.id = l.id then f l else l) := by
    refine flatMap_eq_of_nodup h.ids hl fun k hk hne => ?_
    rw [if_neg hne]
    exact hg.ended k (h.hasEnded_of_ne hl hal hk hne)
  rw [hread, if_pos rfl]

theorem Consistent.read_withLoop (h : p.Consistent) (hg : Loop.Reads g) (hl : l ∈ p.loops)
    (hal : l.hasEnded = false) (same : l.SameTask m) (hq : q.loops = (p.withLoop m).loops) :
    q.read g = g m := by
  refine h.read_updateLoop hg hl hal (f := fun _ => m) ?_
  rw [hq, withLoop, same.id]

/-- Loops may be changed one by one as long as they show the same. -/
theorem read_of_map {f : Loop α → Loop α} (hq : q.loops = p.loops.map f)
    (hf : ∀ l ∈ p.loops, g (f l) = g l) : q.read g = p.read g := by
  rw [read, hq, List.flatMap_map]
  exact List.flatMap_congr hf

theorem read_retire (hg : Loop.Reads g) (a : Attachment) : (p.retire a).read g = p.read g := by
  refine read_of_map (q := p.retire a) rfl fun k _ => ?_
  split
  · exact hg.cancelled k true
  · rfl

/-- A loop that has been started shows its backlog. -/
theorem read_startLoop (p : Poller α) (g : Loop α → List β) (consumer : Consumer)
    (script : Script (Handling α)) (runs : Bool) (releasePanic : Option String) :
    (p.startLoop consumer script runs releasePanic).read g =
      p.read g ++ g ⟨p.started + 1, consumer, script, false, .start p.pacing, .spawned p.parked,
        runs, releasePanic⟩ := by
  simp [read, startLoop]

/-- A call changes nothing that is read off the loops. -/
theorem CallEffect.read_eq {v : Verdict α} (hg : Loop.Reads g) (heffect : p.CallEffect c q v) :
    q.read g = p.read g := by
  cases heffect with
  | starts _ _ parked =>
    rw [read_startLoop, hg.spawned _ (by rw [parked]), List.append_nil]
  | replaces | unsubscribes => exact read_retire hg _
  | reenters | leaves | reports => rw [absorb_eq]; rfl
  | _ => rfl

/-- The loop whose task is discarded was the only one that showed anything. -/
theorem Consistent.read_discard (h : p.Consistent) (hg : Loop.Reads g) (hl : l ∈ p.loops)
    (hal : l.hasEnded = false) : (p.discard l.id).read g = [] :=
  (h.read_updateLoop hg hl hal rfl).trans (hg.ended _ rfl)

/-- A task that is started has not run, so it shows nothing that a task shows once it runs. -/
theorem SubscribeEffect.read_eq {subscription : String} {r : Except Error Unit}
    (unrun : ∀ l b, l.stage = .spawned b → g l = [])
    (heffect : p.SubscribeEffect subscription q r) : q.read g = p.read g := by
  cases heffect with
  | starts => rw [read_startLoop, unrun _ _ rfl, List.append_nil]
  | _ => rfl

end Poller

end Polling
