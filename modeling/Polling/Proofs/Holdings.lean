import Mathlib.Algebra.Order.Group.Multiset
import Polling.Proofs.LoopEffect

/-!
# What the tasks of a poller hold

Loops and calls hold things on behalf of others: payloads that are on their way, answers that have
not been read.  `Poller.loopsHold` and `Poller.callsHold` collect what `g` reads off their stages,
and the lemmas here say how a change of one task changes the collection.  They are stated without
subtraction: what was held before, and what came in, is what is held now, and what went out.
-/

namespace Polling

variable {α β γ κ : Type}

/-- Changing the element of one key changes what is read off that element. -/
theorem coe_flatMap_map [DecidableEq κ] {key : β → κ} {xs : List β}
    (nodup : (xs.map key).Nodup) {a : β} (ha : a ∈ xs) {f : β → β} {g : β → List γ}
    (hf : ∀ x ∈ xs, key x ≠ key a → g (f x) = g x) :
    ((xs.map f).flatMap g : Multiset γ) + g a = (xs.flatMap g : Multiset γ) + g (f a) := by
  induction xs with
  | nil => cases ha
  | cons x xs ih =>
    obtain ⟨hx, hxs⟩ := List.nodup_cons.1 nodup
    rw [List.map_cons, List.flatMap_cons, List.flatMap_cons, ← Multiset.coe_add,
      ← Multiset.coe_add]
    rcases List.mem_cons.1 ha with rfl | hmem
    · have hrest : (xs.map f).flatMap g = xs.flatMap g := by
        rw [List.flatMap_map]
        refine List.flatMap_congr fun y hy => hf y (List.mem_cons_of_mem _ hy) fun hkey => hx ?_
        rw [← hkey]
        exact List.mem_map_of_mem hy
      rw [hrest, add_right_comm, add_comm (g (f a) : Multiset γ), add_right_comm]
    · have hne : key x ≠ key a := fun hkey => hx (hkey ▸ List.mem_map_of_mem hmem)
      have hih := ih hxs hmem fun y hy => hf y (List.mem_cons_of_mem _ hy)
      rw [hf x List.mem_cons_self hne, add_assoc, hih, add_assoc]

/-- Taking out the element of one key takes out what is read off that element. -/
theorem coe_flatMap_filter [DecidableEq κ] {key : β → κ} {xs : List β}
    (nodup : (xs.map key).Nodup) {a : β} (ha : a ∈ xs) (g : β → List γ) :
    ((xs.filter fun x => key x ≠ key a).flatMap g : Multiset γ) + g a = (xs.flatMap g : Multiset γ)
    := by
  induction xs with
  | nil => cases ha
  | cons x xs ih =>
    obtain ⟨hx, hxs⟩ := List.nodup_cons.1 nodup
    rcases List.mem_cons.1 ha with rfl | hmem
    · have hrest : xs.filter (fun y => key y ≠ key a) = xs := by
        apply List.filter_eq_self.2
        intro y hy
        simp only [decide_eq_true_eq]
        exact fun hkey => hx (hkey ▸ List.mem_map_of_mem hy)
      rw [List.filter_cons_of_neg (by simp), hrest, List.flatMap_cons, ← Multiset.coe_add]
      exact add_comm _ _
    · have hne : key x ≠ key a := fun hkey => hx (hkey ▸ List.mem_map_of_mem hmem)
      rw [List.filter_cons_of_pos (by simpa using hne), List.flatMap_cons, List.flatMap_cons,
        ← Multiset.coe_add, ← Multiset.coe_add, add_assoc, ih hxs hmem]

namespace Poller

variable {p : Poller α} {l m : Loop α} {c : Call α}

/-- What the loops hold. -/
def loopsHold (g : Stage α → List β) (p : Poller α) : Multiset β :=
  (p.loops.flatMap fun l => g l.stage : List β)

/-- What the pending calls hold. -/
def callsHold (g : CallStage α → List β) (p : Poller α) : Multiset β :=
  (p.calls.flatMap fun c => g c.stage : List β)

theorem callsHold_congr {q : Poller α} (h : q.calls = p.calls) (g : CallStage α → List β) :
    q.callsHold g = p.callsHold g := by
  rw [callsHold, h, callsHold]

theorem Consistent.loopsHold_withLoop (h : p.Consistent) (hl : l ∈ p.loops) (hid : m.id = l.id)
    (g : Stage α → List β) :
    (p.withLoop m).loopsHold g + g l.stage = p.loopsHold g + g m.stage := by
  -- Numbers are unique, so no other loop changes.
  have hmap := coe_flatMap_map h.ids hl (f := fun k => if k.id = m.id then m else k)
    (g := fun k => g k.stage) fun k _ hne => by simp [hid, hne]
  rw [if_pos hid.symm] at hmap
  exact hmap

theorem Consistent.callsHold_setCallStage (h : p.Consistent) (hc : c ∈ p.calls) (s : CallStage α)
    (g : CallStage α → List β) :
    (p.setCallStage c.id s).callsHold g + g c.stage = p.callsHold g + g s := by
  have hmap := coe_flatMap_map h.callIds hc
    (f := fun d => if d.id = c.id then { d with stage := s } else d) (g := fun d => g d.stage)
    fun d _ hne => by simp [hne]
  rw [if_pos rfl] at hmap
  exact hmap

theorem Consistent.callsHold_dropCall (h : p.Consistent) (hc : c ∈ p.calls)
    (g : CallStage α → List β) : (p.dropCall c.id).callsHold g + g c.stage = p.callsHold g :=
  coe_flatMap_filter h.callIds hc fun d => g d.stage

/-- What a call and its poller have between them stays the same while the call goes on. -/
theorem Consistent.balance_setCallStage {q : Poller α} (h : q.Consistent)
    (hcalls : q.calls = p.calls) (hc : c ∈ p.calls) {s : CallStage α} {g : CallStage α → List β}
    {x y : Multiset β}
    (hbalance : x + g c.stage = y + g s) :
    x + p.callsHold g = y + (q.setCallStage c.id s).callsHold g := by
  have hset := h.callsHold_setCallStage (hcalls ▸ hc) s g
  have hhold := callsHold_congr hcalls g
  refine add_right_cancel (b := (g c.stage : Multiset β)) ?_
  calc x + p.callsHold g + g c.stage = y + g s + p.callsHold g := by
        rw [add_right_comm, hbalance]
    _ = y + (q.setCallStage c.id s).callsHold g + g c.stage := by
      rw [add_assoc y (Poller.callsHold _ _), hset, hhold, add_assoc, add_comm (p.callsHold g)]

/-- What a call and its poller have between them is left to the poller when the call is over. -/
theorem Consistent.balance_dropCall {q : Poller α} (h : q.Consistent) (hcalls : q.calls = p.calls)
    (hc : c ∈ p.calls) {g : CallStage α → List β} {x y : Multiset β}
    (hbalance : x + g c.stage = y) : x + p.callsHold g = y + (q.dropCall c.id).callsHold g := by
  have hdrop := h.callsHold_dropCall (hcalls ▸ hc) g
  have hhold := callsHold_congr hcalls g
  rw [← hhold, ← hdrop, ← hbalance, add_right_comm, add_assoc]

/-- Whoever listens is a pending call that waits for the answer. -/
theorem listener?_eq_some {id : String} (h : p.listener? l = some id) :
    l.consumer = .waiter id ∧ ∃ c ∈ p.calls, c.id = id ∧ c.stage = .receiving l.id none := by
  unfold listener? at h
  split at h
  · next waiter hcons =>
    split at h
    · next hlis =>
      obtain rfl := Option.some.inj h
      unfold isListening at hlis
      split at hlis
      · next c hc =>
        obtain ⟨hmem, hid⟩ := call?_eq_some hc
        split at hlis
        · next j hs =>
          obtain rfl : l.id = j := by simpa using hlis
          exact ⟨hcons, c, hmem, hid, hs⟩
        · cases hlis
      · cases hlis
    · cases h
  · cases h

/-- The answer of a loop that ends is held by the wait that listens. -/
theorem Consistent.callsHold_answering (h : p.Consistent) {e : Ending α} {id : String}
    {r : CallResult α} (hlis : p.listener? l = some id) (hans : e.answer = some r)
    (g : CallStage α → List β) :
    ({ p with calls := p.answering l e } : Poller α).callsHold g + g (.receiving l.id none) =
      p.callsHold g + g (.receiving l.id (some r)) := by
  obtain ⟨-, c, hc, rfl, hs⟩ := listener?_eq_some hlis
  have hset := h.callsHold_setCallStage hc (.receiving l.id (some r)) g
  rw [hs] at hset
  simp only [answering, hlis, hans]
  exact hset

end Poller

end Polling
