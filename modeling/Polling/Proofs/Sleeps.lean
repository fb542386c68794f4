import Polling.Proofs.Paces
import Polling.Proofs.Rest
import Polling.Proofs.Stops

/-!
# Every pause can be cut short

A loop that pauses wakes up when its time has come, and before that only to end
(`System.Run.sleeps`).  What ends it is there to stay: that it was asked to end, that its waiter has
gone, or that the signal is raised, unless somebody lowers it again (`System.Run.disturbed`).  So it
makes no difference whether that happened before the pause or during it, and a system comes to rest
only when every loop that still pauses has been left in peace (`sleeps_interruptible`).
-/

namespace Polling

variable {α : Type}

namespace Poller

variable {p q : Poller α} {l k : Loop α} {c : Call α} {es : List (Occurrence α)}

/-- A shutdown asks all loops to end. -/
theorem requested_of_closing (h : p.Sound) (hc : c ∈ p.calls) (stage : c.stage = .closing)
    {runtime : Bool} (hact : p.callAct? runtime c = some (es, q)) : q.stopRequested = true := by
  obtain ⟨r, v, goes, hq, -⟩ := exists_of_callAct? hact
  have heffect := callEffect_of_moveCall h hc goes
  rw [hq]
  cases heffect with
  | closes | closed => rfl
  | refused screened | collects screened => simp [stage, CallStage.isScreened] at screened
  | late wait | unparks wait | starts wait | replaces wait =>
    simp [stage, CallStage.isWait] at wait
  | unsubscribes stage' | reenters stage' | leaves stage' | reports stage' | answered stage'
    | clears stage' | cleared stage' => simp [stage] at stage'

/-- The end of a subscription asks its loop to end, unless it is refused. -/
theorem cancelled_of_unsubscribing (h : p.Sound) (hc : c ∈ p.calls) {subscription : String}
    (stage : c.stage = .unsubscribing subscription)
    (accepted : ∀ e, (p.endSubscription subscription).2 ≠ .returned (.error e))
    (hl : l ∈ p.loops) (hal : l.hasEnded = false) {runtime : Bool}
    (hact : p.callAct? runtime c = some (es, q)) (hk : k ∈ q.loops) (hid : k.id = l.id) :
    k.cancelled = true := by
  obtain ⟨r, v, goes, hq, -⟩ := exists_of_callAct? hact
  rw [hq] at hk
  have hv : (p.endSubscription subscription).2 = v := by
    simp only [moveCall, stage] at goes
    rw [goes]
  have heffect := callEffect_of_moveCall h hc goes
  cases heffect with
  | unsubscribes _ _ current =>
    -- The life cycle names the one loop that has not ended.
    obtain ⟨j, hj⟩ := h.alive l hl hal
    obtain rfl := Option.some.inj (hj.symm.trans current)
    obtain ⟨k', -, rfl⟩ := List.mem_map.1 hk
    by_cases hid' : k'.id = l.id
    · simp [hid']
    · simp [hid'] at hid
  | refused => exact absurd hv (accepted _)
  | collects => exact absurd hv (accepted _)
  | late wait | unparks wait | starts wait | replaces wait =>
    simp [stage, CallStage.isWait] at wait
  | closes stage' | closed stage' | reenters stage' | leaves stage' | reports stage'
    | answered stage' | clears stage' | cleared stage' => simp [stage] at stage'

end Poller

namespace System

variable {s t u : System α} {name : String} {m n : Member α} {l k : Loop α}
  {c : Call α} {tr es : List (Incident α)} {due : Nat}

/-- Whether a loop has ended. -/
def Ended (s : System α) (name : String) (i : Nat) : Prop :=
  ∃ m l, s.member? name = some m ∧ l ∈ m.poller.loops ∧ l.id = i ∧ l.hasEnded = true

/-- A loop that pauses wakes up when its time has come, and before that only to end. -/
theorem Response.sleeps (h : s.Response es t) (hs : s.Reachable) (hm : s.member? name = some m)
    (hl : l ∈ m.poller.loops) (stage : l.stage = .asleep pause due ∨ l.hasEnded = true)
    (early : s.clock < due) :
    ∃ n k, t.member? name = some n ∧ k ∈ n.poller.loops ∧ k.id = l.id ∧
      (k.stage = .asleep pause due ∨ k.hasEnded = true) := by
  obtain ⟨n, k, hn, hk, same, hmoves⟩ := h.paces_or_stays hs hm hl
  refine ⟨n, k, hn, hk, same.id, ?_⟩
  rcases hmoves with ⟨hstays, -⟩ | ⟨hpaces, -⟩
  · rcases hstays.stage with hstage | ⟨hend, -⟩
    · rw [Loop.hasEnded, hstage]
      exact stage
    · exact .inr hend
  · generalize beats name l.id es = bs at hpaces
    cases hpaces with
    | wakes stage' passed =>
      rcases stage with stage | hend
      · rw [stage'] at stage
        cases stage
        omega
      · simp [Loop.hasEnded, stage'] at hend
    | ends _ ended | delivers _ ended => exact .inr ended
    | _ => simp_all [Loop.hasEnded]

theorem Run.clock_le (hrun : s.Run tr t) : s.clock ≤ t.clock := by
  induction hrun with
  | nil => exact Nat.le_refl _
  | snoc _ hresponds ih => exact Nat.le_trans ih (response_of_respond? hresponds).clock_le

theorem Run.sleeps (hs : s.Reachable) (hrun : s.Run tr t) (hm : s.member? name = some m)
    (hl : l ∈ m.poller.loops) (stage : l.stage = .asleep pause due) (early : t.clock < due) :
    ∃ n k, t.member? name = some n ∧ k ∈ n.poller.loops ∧ k.id = l.id ∧
      (k.stage = .asleep pause due ∨ k.hasEnded = true) := by
  induction hrun with
  | nil => exact ⟨m, l, hm, hl, rfl, .inl stage⟩
  | snoc hrun hresponds ih =>
    have hresponse := response_of_respond? hresponds
    have hbefore := Nat.lt_of_le_of_lt hresponse.clock_le early
    obtain ⟨n, k, hn, hk, hid, hstage⟩ := ih hbefore
    obtain ⟨n', k', hn', hk', hid', hstage'⟩ :=
      hresponse.sleeps (hs.run hrun) hn hk hstage hbefore
    exact ⟨n', k', hn', hk', hid'.trans hid, hstage'⟩

/-- Whether something ends the pause of a loop. -/
def Disturbed (s : System α) (m : Member α) (l : Loop α) : Prop :=
  m.poller.isCancelled l = true ∨ s.isSignalled m = true ∨ m.poller.waiterGone l = true

/-- Whether something ends the pause of a loop and stays for as long as a run lasts. -/
def DisturbedFor (s : System α) (m : Member α) (l : Loop α) (tr : List (Incident α)) : Prop :=
  s.Asked m l tr ∨ m.poller.waiterGone l = true

/-- What ends a pause is there to stay. -/
theorem Run.disturbed (hs : s.Reachable) (hrun : s.Run tr t) (hm : s.member? name = some m)
    (hl : l ∈ m.poller.loops) (h : s.DisturbedFor m l tr) :
    ∃ n k, t.member? name = some n ∧ k ∈ n.poller.loops ∧ k.id = l.id ∧ t.Disturbed n k := by
  obtain ⟨n, k, hn, hsignal, hk, hfares, -⟩ := hrun.fares hs hm hl
  refine ⟨n, k, hn, hk, hfares.id, ?_⟩
  rcases h with (hcancelled | ⟨signal, hsig, hraised, kept⟩) | hgone
  · exact .inl (hfares.isCancelled hcancelled)
  · exact .inr (.inl (isSignalled_iff.2 ⟨signal, hsignal.trans hsig, hrun.raised hraised kept⟩))
  · exact .inr (.inr (hfares.gone hgone))

/-- A loop that is disturbed in its pause can move, and all that it can do is to end. -/
theorem ends_of_disturbed (hm : s.member? name = some m) (hl : l ∈ m.poller.loops)
    (stage : l.stage = .asleep pause due) (early : s.clock < due) (h : s.Disturbed m l) :
    s.movesOf name m l ≠ [] ∧
      ∀ t ∈ s.movesOf name m l, t.clock = s.clock ∧ t.Ended name l.id := by
  refine ⟨?_, fun t ht => ?_⟩
  · simp only [movesOf, stage, ne_eq, List.map_eq_nil_iff]
    rcases h with hcancelled | hsignalled | hgone
    · simp [Poller.wakes, hcancelled]
    · simp [Poller.wakes, hsignalled]
    · simp [Poller.wakes, hgone]
  · obtain ⟨as, os, own, g, hturn⟩ := exists_turn hm ht
    obtain ⟨n, hn, -, f, hloops, same, -, hpaces⟩ := hturn.paces hm
    refine ⟨hturn.clock, n, f l, hn, ?_, same.id, ?_⟩
    · rw [hloops]
      exact List.mem_map.2 ⟨l, hl, if_pos rfl⟩
    · generalize os.filterMap (Occurrence.beat? l.id) = bs at hpaces
      cases hpaces with
      | wakes stage' passed =>
        rw [stage'] at stage
        cases stage
        omega
      | ends _ ended | delivers _ ended => exact ended
      | _ => simp_all

/-- What ends the pause of a loop, whatever comes after it: somebody stops the poller, shuts it
down, lets go of it, or ends the subscription and is not refused; somebody raises the signal, and
nobody lowers it in the run that follows; or the waiter goes. -/
inductive Interrupts (m : Member α) (name : String) (l : Loop α) (tr : List (Incident α)) :
    Impulse α → Prop
  | stop : Interrupts m name l tr (.act (.stop name))
  | shutdown {c runtime} (call : c ∈ m.poller.calls) (stage : c.stage = .closing) :
      Interrupts m name l tr (.cue name (.resume c.id runtime))
  | letGo : Interrupts m name l tr (.drop name)
  | unsubscribe {c subscription runtime} (call : c ∈ m.poller.calls)
      (stage : c.stage = .unsubscribing subscription)
      (accepted : ∀ e, (m.poller.endSubscription subscription).2 ≠ .returned (.error e)) :
      Interrupts m name l tr (.cue name (.resume c.id runtime))
  | raise {signal} (observes : m.signal = some signal) (kept : .lowered signal ∉ tr) :
      Interrupts m name l tr (.act (.raise signal))
  | waiterGoes {id} (waits : l.consumer = .waiter id) :
      Interrupts m name l tr (.cue name (.drop id))

/-- Whoever stops a poller or lets go of it asks all loops to end. -/
theorem disturbedFor_of_requested (h : n.poller.stopRequested = true) : t.DisturbedFor n k tr :=
  .inl (.inl (by simp [Poller.isCancelled, h]))

/-- What happens to a poller on a cue. -/
theorem exists_of_cue (hm : s.member? name = some m) {cue : Cue α}
    (h : s.respond? (.cue name cue) = some (es, t)) :
    ∃ os q, m.poller.act? cue = some (os, q) ∧ es = os.map (.befell name) ∧
      t.member? name = some { m with poller := q } := by
  cases cue with
  | loop => cases h
  | discard i =>
    obtain ⟨m', hm', h⟩ := Option.bind_eq_some_iff.1 h
    obtain rfl := Option.some.inj (hm.symm.trans hm')
    obtain ⟨⟨os, q⟩, hact, h⟩ := Option.bind_eq_some_iff.1 h
    cases h
    obtain ⟨-, -, -, -, -, rfl⟩ := Poller.discard_of_act? hact
    exact ⟨os, _, hact, rfl, member?_discard hm i⟩
  | _ =>
    obtain ⟨m', hm', h⟩ := Option.bind_eq_some_iff.1 h
    obtain rfl := Option.some.inj (hm.symm.trans hm')
    obtain ⟨⟨os, q⟩, hact, h⟩ := Option.bind_eq_some_iff.1 h
    cases h
    refine ⟨os, q, hact, rfl, ?_⟩
    rw [member?_modify (s := s) (fun m => { m with poller := q }) rfl, if_pos rfl, hm,
      Option.map_some]

/-- What ends a pause is there once it has happened. -/
theorem Interrupts.disturbs (hs : s.Reachable) (hm : s.member? name = some m)
    (hl : l ∈ m.poller.loops) (hal : l.hasEnded = false) {x : Impulse α}
    (h : Interrupts m name l tr x) (hresponds : s.respond? x = some (es, t)) :
    ∃ n k, t.member? name = some n ∧ k ∈ n.poller.loops ∧ k.id = l.id ∧
      t.DisturbedFor n k tr := by
  have hsound := (hs.poller hm).sound
  -- None of these is the turn of a loop, so the loop is where it was.
  obtain ⟨still, n, hn, hdisturbs⟩ : es.countP (Incident.isTurnOf name l.id) = 0 ∧
      ∃ n, t.member? name = some n ∧
        ∀ k ∈ n.poller.loops, l.Becomes k → t.DisturbedFor n k tr := by
    cases h with
    | stop =>
      cases hresponds
      refine ⟨rfl, m.stopped, ?_, fun k _ _ => disturbedFor_of_requested rfl⟩
      rw [member?_modify (s := s) Member.stopped rfl, if_pos rfl, hm, Option.map_some]
    | letGo =>
      cases hresponds
      refine ⟨rfl, m.released, ?_, fun k _ _ => disturbedFor_of_requested rfl⟩
      rw [member?_modify (s := s) Member.released rfl, if_pos rfl, hm, Option.map_some]
    | raise observes kept =>
      cases hresponds
      refine ⟨rfl, m, hm, fun k _ _ => .inl (.inr ⟨_, observes, ?_, kept⟩)⟩
      show (s.signals.raise _).isRaised _ = true
      simp
    | shutdown hc stage =>
      obtain ⟨os, q, hact, rfl, hn⟩ := exists_of_cue hm hresponds
      rw [Poller.act?, hsound.call?_of_mem hc, Option.bind_some] at hact
      have hstop := Poller.requested_of_closing hsound hc stage hact
      exact ⟨countP_isTurnOf_befell _ _ _ _, _, hn, fun k _ _ => disturbedFor_of_requested hstop⟩
    | unsubscribe hc stage accepted =>
      obtain ⟨os, q, hact, rfl, hn⟩ := exists_of_cue hm hresponds
      rw [Poller.act?, hsound.call?_of_mem hc, Option.bind_some] at hact
      refine ⟨countP_isTurnOf_befell _ _ _ _, _, hn, fun k hk same => .inl (.inl ?_)⟩
      have hcancelled :=
        Poller.cancelled_of_unsubscribing hsound hc stage accepted hl hal hact hk same.id
      simp [Poller.isCancelled, hcancelled]
    | @waiterGoes id waits =>
      obtain ⟨os, q, hact, rfl, hn⟩ := exists_of_cue hm hresponds
      obtain ⟨c, hc, heq⟩ := Option.map_eq_some_iff.1 hact
      obtain ⟨-, rfl⟩ := Poller.call?_eq_some hc
      cases heq
      refine ⟨countP_isTurnOf_befell _ _ _ _, _, hn, fun k _ same => .inr ?_⟩
      refine Poller.waiterGone_iff.2 ⟨c.id, same.consumer.trans waits, fun d hd => ?_⟩
      simpa using (List.mem_filter.1 hd).2
  obtain ⟨-, n', k, hn', -, hk, hstays⟩ :=
    (response_of_respond? hresponds).stays hs hm hl still
  obtain rfl := Option.some.inj (hn.symm.trans hn')
  exact ⟨n, k, hn, hk, hstays.id, hdisturbs k hk hstays.toBecomes⟩

/-- A loop that pauses in a system at rest has been left in peace. -/
theorem AtRest.undisturbed (h : s.AtRest) (hs : s.Reachable) (hm : s.member? name = some m)
    (hl : l ∈ m.poller.loops) (stage : l.stage = .asleep pause due) :
    s.clock < due ∧ m.poller.isCancelled l = false ∧ s.isSignalled m = false ∧
      ∀ id, l.consumer = .waiter id → ∃ c ∈ m.poller.calls, c.id = id ∧
        c.stage = .receiving l.id none := by
  have hstuck := h.movesOf_eq_nil hs hm hl
  simp only [movesOf, stage, List.map_eq_nil_iff, Poller.wakes, List.append_eq_nil_iff,
    ite_eq_right_iff, reduceCtorEq, imp_false, Bool.not_eq_true, Nat.not_le] at hstuck
  obtain ⟨⟨⟨early, huncancelled⟩, hlowered⟩, hthere⟩ := hstuck
  refine ⟨early, huncancelled, hlowered, fun id hcons => ?_⟩
  simp only [Poller.waiterGone, hcons, Option.isNone_eq_false_iff, Option.isSome_iff_exists]
    at hthere
  obtain ⟨c, hc⟩ := hthere
  obtain ⟨hmem, rfl⟩ := Poller.call?_eq_some hc
  have hal : l.hasEnded = false := by rw [Loop.hasEnded, stage]
  exact ⟨c, hmem, rfl, ((hs.poller hm).sound.fits c hmem).listening l hl hal hcons⟩

/-- Every pause can be cut short.  A loop that pauses in a system at rest has not been asked to end,
sees no raised signal, and its waiter is there and listens.  And what interrupts a pause, which may
be of any length, ends the loop before its time has come: whatever happens next, the loop has ended,
or it can move at once and all that it can do is to end, without any time passing.  So it has ended
when the system comes to rest again. -/
theorem sleeps_interruptible (hs : s.Reachable) (hm : s.member? name = some m)
    (hl : l ∈ m.poller.loops) (stage : l.stage = .asleep pause due) :
    (s.AtRest → s.clock < due ∧ m.poller.isCancelled l = false ∧ s.isSignalled m = false ∧
      ∀ id, l.consumer = .waiter id → ∃ c ∈ m.poller.calls, c.id = id ∧
        c.stage = .receiving l.id none) ∧
    ∀ x es t tr u, Interrupts m name l tr x → s.respond? x = some (es, t) → t.Run tr u →
      u.clock < due → ∃ n k, u.member? name = some n ∧ k ∈ n.poller.loops ∧ k.id = l.id ∧
        (k.hasEnded = true ∨ u.loopMoves name l.id ≠ [] ∧
          ∀ v ∈ u.loopMoves name l.id, v.clock = u.clock ∧ v.Ended name l.id) ∧
        (u.AtRest → k.hasEnded = true) := by
  have hal : l.hasEnded = false := by rw [Loop.hasEnded, stage]
  refine ⟨fun hrest => hrest.undisturbed hs hm hl stage, ?_⟩
  intro x es t tr u hinterrupts hresponds hrun early
  have hsingle := Run.single hresponds
  have ht := hs.run hsingle
  have hu := ht.run hrun
  -- What the loop has come to: it still pauses, or it has ended.
  obtain ⟨n, k, hn, hk, hid, hstage⟩ := Run.sleeps hs (hsingle.append hrun) hm hl stage early
  -- And what interrupted it is still there.
  obtain ⟨n₁, k₁, hn₁, hk₁, hid₁, hdisturbs⟩ := hinterrupts.disturbs hs hm hl hal hresponds
  obtain ⟨n₂, k₂, hn₂, hk₂, hid₂, hdisturbed⟩ := hrun.disturbed ht hn₁ hk₁ hdisturbs
  obtain rfl := Option.some.inj (hn.symm.trans hn₂)
  obtain rfl := (hu.poller hn).sound.eq_of_id hk hk₂ ((hid₂.trans hid₁).trans hid.symm)
  refine ⟨n, k₂, hn, hk, hid, ?_⟩
  rcases hstage with hstage | hend
  · obtain ⟨hmoves, hends⟩ := ends_of_disturbed hn hk hstage early hdisturbed
    rw [← loopMoves_eq hu hn hk, hid] at hmoves hends
    refine ⟨.inr ⟨hmoves, hends⟩, fun hrest => ?_⟩
    have hstuck := hrest.movesOf_eq_nil hu hn hk
    rw [← loopMoves_eq hu hn hk, hid] at hstuck
    exact absurd hstuck hmoves
  · exact ⟨.inl hend, fun _ => hend⟩

/-- Two waits that observe one signal, in pauses of an hour. -/
def sharedPause (last : List (Impulse Nat)) : List (Impulse Nat) :=
  let pacing : Pacing := { initial := .ofMillis 3600000, longest := .ofMillis 3600000 }
  [.build "a" "a" pacing ⟨[], {}⟩ (.own "a") (some "s"),
    .build "b" "b" pacing ⟨[], {}⟩ (.own "b") (some "s"),
    .cue "a" (.call ⟨"v", true, .entering⟩), .cue "a" (.resume "v" true),
    .cue "b" (.call ⟨"w", true, .entering⟩), .cue "b" (.resume "w" true),
    .turn "a" 1 0, .turn "a" 1 0, .turn "a" 1 0, .turn "a" 1 0,
    .turn "b" 1 0, .turn "b" 1 0, .turn "b" 1 0, .turn "b" 1 0] ++ last

/-- The signal is raised, and both pollers stop without any time passing. -/
theorem sleeps_interruptible_shared : ∃ (s t u : System Nat) (m n : Member Nat) (l k : Loop Nat)
    (tr : List (Incident Nat)), s.Reachable ∧ s.AtRest ∧ s.member? "b" = some m ∧
      l ∈ m.poller.loops ∧ l.stage = .asleep (.ofMillis 3600000) 3600000 ∧ s.isSignalled m = false ∧
      s.respond? (.act (.raise "s")) = some ([.raised "s"], t) ∧ t.Run tr u ∧ u.clock = 0 ∧
      u.AtRest ∧ u.member? "b" = some n ∧ k ∈ n.poller.loops ∧ k.id = l.id ∧
      k.hasEnded = true := by
  have hs := reachable_after (sharedPause [])
  have hm : (after (sharedPause [])).member? "b" = some _ := rfl
  have hrun : (after (sharedPause [.act (.raise "s")])).Run [.turned "a" 1,
      .befell "a" (.answered "v" (.ok none)), .turned "b" 1,
      .befell "b" (.answered "w" (.ok none))] _ :=
    run_of_enact? [.turn "a" 1 0, .cue "a" (.resume "v" true), .turn "b" 1 0,
      .cue "b" (.resume "w" true)] rfl
  have hrest : (after (sharedPause [])).AtRest := rfl
  obtain ⟨hundisturbed, hends⟩ := sleeps_interruptible hs hm List.mem_cons_self rfl
  obtain ⟨n, k, hn, hk, hid, -, hend⟩ :=
    hends _ _ _ _ _ (.raise rfl (by simp)) rfl hrun (by decide)
  exact ⟨_, _, _, _, n, _, k, _, hs, hrest, hm, List.mem_cons_self, rfl,
    (hundisturbed hrest).2.2.1, rfl, hrun, rfl, rfl, hn, hk, hid, hend rfl⟩

end System

end Polling
