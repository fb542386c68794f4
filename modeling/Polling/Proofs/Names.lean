import Polling.Proofs.LoopHistory

/-!
# Names in use

A poller uses the names of its pending calls and of all consumers that it has had.  A name comes
into use only when a call is made or a subscription comes about (`Run.uses`), so whoever gives out
names and gives none out twice gives a poller only names that are new to it.
-/

namespace Polling

variable {α : Type}

/-- The consumer whose name comes into use. -/
def Occurrence.newcomer? : Occurrence α → Option Consumer
  | .called id _ => some (.waiter id)
  | .subscribed subscription => some (.subscriber subscription)
  | _ => none

namespace Poller

/-- Whether a poller uses the name of a consumer. -/
def Uses (p : Poller α) (k : Consumer) : Prop :=
  (∃ l ∈ p.loops, l.consumer = k) ∨ ∃ c ∈ p.calls, .waiter c.id = k

variable {p q : Poller α} {l m : Loop α} {c : Call α} {k : Consumer}

theorem uses_idle (name : String) (pacing : Pacing) : ¬(idle name pacing : Poller α).Uses k := by
  simp [Uses, idle]

/-- A change that brings neither loops nor calls brings no names. -/
theorem Uses.of_kept (hk : q.Uses k) (loops : ∀ l ∈ q.loops, ∃ m ∈ p.loops, m.consumer = l.consumer)
    (calls : ∀ c ∈ q.calls, ∃ d ∈ p.calls, d.id = c.id) : p.Uses k := by
  rcases hk with ⟨l, hl, rfl⟩ | ⟨c, hc, rfl⟩
  · exact .inl (loops l hl)
  · obtain ⟨d, hd, hid⟩ := calls c hc
    exact .inr ⟨d, hd, by rw [hid]⟩

/-- A loop is started for a consumer. -/
theorem Uses.of_startLoop {consumer script runs releasePanic}
    (hk : (p.startLoop consumer script runs releasePanic).Uses k) : p.Uses k ∨ consumer = k := by
  rcases hk with ⟨l, hl, rfl⟩ | hcall
  · rcases List.mem_append.1 hl with hl | hl
    · exact .inl (.inl ⟨l, hl, rfl⟩)
    · obtain rfl := List.mem_singleton.1 hl
      exact .inr rfl
  · exact .inl (.inr hcall)

theorem Uses.of_setCallStage {id : String} {s : CallStage α} (hk : (q.setCallStage id s).Uses k) :
    q.Uses k := by
  refine hk.of_kept (fun l hl => ⟨l, hl, rfl⟩) fun c hc => ?_
  obtain ⟨d, hd, rfl⟩ := List.mem_map.1 hc
  exact ⟨d, hd, by split <;> rfl⟩

theorem Uses.of_dropCall {id : String} (hk : (q.dropCall id).Uses k) : q.Uses k :=
  hk.of_kept (fun l hl => ⟨l, hl, rfl⟩) fun c hc => ⟨c, (List.mem_filter.1 hc).1, rfl⟩

/-- Loops may be changed one by one, as long as they keep their consumers. -/
theorem Uses.of_mapLoops {f : Loop α → Loop α} (hk : q.Uses k) (loops : q.loops = p.loops.map f)
    (consumer : ∀ l, (f l).consumer = l.consumer) (calls : q.calls = p.calls) : p.Uses k := by
  refine hk.of_kept (fun l hl => ?_) fun c hc => ⟨c, calls ▸ hc, rfl⟩
  rw [loops] at hl
  obtain ⟨m, hm, rfl⟩ := List.mem_map.1 hl
  exact ⟨m, hm, (consumer m).symm⟩

theorem Uses.of_retire {a : Attachment} (hk : (p.retire a).Uses k) : p.Uses k :=
  hk.of_mapLoops (q := p.retire a) rfl (fun l => by split <;> rfl) rfl

theorem Uses.of_discard {i : Nat} (hk : (p.discard i).Uses k) : p.Uses k :=
  hk.of_mapLoops (q := p.discard i) rfl (fun l => by split <;> rfl) rfl

/-- A loop that has come further is there for the same consumer. -/
theorem Uses.of_loop (hl : l ∈ p.loops) (same : l.SameTask m) (hk : q.Uses k)
    (loops : q.loops = (p.withLoop m).loops) (calls : q.calls.map Call.id = p.calls.map Call.id) :
    p.Uses k := by
  -- A loop is the one that moved, or it is as it was.
  refine hk.of_kept (fun n hn => ?_) fun c hc => ?_
  · rw [loops] at hn
    rcases mem_withLoop hn with rfl | ⟨hn, -⟩
    · exact ⟨l, hl, same.consumer.symm⟩
    · exact ⟨n, hn, rfl⟩
  · exact List.mem_map.1 (calls ▸ List.mem_map_of_mem hc)

theorem LoopEffect.uses {es} (hl : l ∈ p.loops) (heffect : p.LoopEffect l es q) (hk : q.Uses k) :
    p.Uses k := by
  cases heffect with
  | goesOn _ same => exact hk.of_loop hl same rfl rfl
  | ends _ same => exact hk.of_loop hl same rfl (map_id_answering p l _)

/-- A move of a call brings no name: if it starts a loop, then for itself. -/
theorem CallEffect.uses {v : Verdict α} (hc : c ∈ p.calls) (heffect : p.CallEffect c q v)
    (hk : q.Uses k) : p.Uses k := by
  cases heffect with
  | starts =>
    rcases hk.of_startLoop with hk | rfl
    · exact hk
    · exact .inr ⟨c, hc, rfl⟩
  | replaces | unsubscribes => exact hk.of_retire
  | reenters | leaves | reports =>
    rw [absorb_eq] at hk
    exact hk
  | _ => exact hk

theorem SubscribeEffect.uses {subscription : String} {r : Except Error Unit}
    (heffect : p.SubscribeEffect subscription q r) (hk : q.Uses k) :
    p.Uses k ∨ ∃ o ∈ subscribing (α := α) subscription r, o.newcomer? = some k := by
  cases heffect with
  | starts =>
    refine hk.of_startLoop.imp_right fun hsub => ⟨_, List.mem_singleton_self _, ?_⟩
    rw [← hsub]
    rfl
  | _ => exact .inl hk

/-- A name comes into use in a move only when it is told. -/
theorem Move.uses (h : p.Sound) {es} (hmove : p.Move es q) (hk : q.Uses k) :
    p.Uses k ∨ ∃ o ∈ es, o.newcomer? = some k := by
  cases hmove with
  | loop mem move => exact .inl ((move.effect h.toConsistent mem).uses mem hk)
  | proceed mem _ goes =>
    exact .inl ((callEffect_of_moveCall h mem goes).uses mem hk.of_setCallStage)
  | finish mem _ goes =>
    exact .inl ((callEffect_of_moveCall h mem goes).uses mem hk.of_dropCall)
  | @call _ c first =>
    rcases hk with hloop | ⟨d, hd, rfl⟩
    · exact .inl (.inl hloop)
    · rcases List.mem_append.1 hd with hd | hd
      · exact .inl (.inr ⟨d, hd, rfl⟩)
      · obtain rfl := List.mem_singleton.1 hd
        exact .inr ⟨_, List.mem_singleton_self _, rfl⟩
  | drop => exact .inl hk.of_dropCall
  | subscribe => exact (subscribeEffect p _ _ _ _ _).uses hk
  | stop | release => exact .inl hk
  | discard => exact .inl hk.of_discard

/-- A name comes into use in any number of moves only when it is told. -/
theorem Run.uses (h : p.Sound) {tr} (hrun : Run p tr q) (hk : q.Uses k) :
    p.Uses k ∨ ∃ o ∈ tr, o.newcomer? = some k := by
  induction hrun with
  | nil => exact .inl hk
  | @snoc q r tr es hrun hmove ih =>
    have hq : q.Sound := h.run hrun
    rcases hmove.uses hq hk with hk | ⟨o, ho, htold⟩
    · rcases ih hk with hk | ⟨o, ho, htold⟩
      · exact .inl hk
      · exact .inr ⟨o, List.mem_append_left _ ho, htold⟩
    · exact .inr ⟨o, List.mem_append_right _ ho, htold⟩

end Poller

end Polling
