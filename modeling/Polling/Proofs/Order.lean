import Polling.Proofs.Payloads
import Polling.Proofs.Readings

/-!
# Payloads are handed over in order

A payload is handed over when the answer of its loop arrives at a wait, when a wait takes it out of
the parked slot, and when the callback is invoked with it (`Poller.handed`).  Whatever has been
polled and not handed over is in the hands of the poller (`Poller.inHand`): parked, or with its one
loop.  Each move takes the payloads through these hands first in, first out (`Move.inHand`), unless
it discards a task, and then nothing is left in them.  So what is handed over in a run is, in the
same order, among what was polled.
-/

namespace Polling

variable {α : Type}

/-- The payload that is handed over with an occurrence.  An answer is handed over when it arrives,
not when it is read. -/
def Occurrence.handed : Occurrence α → List α
  | answered _ _ => []
  | o => o.delivered

theorem Occurrence.handed_of_workOf? {o : Occurrence α} {i : Nat} (h : o.workOf? = some i) :
    o.handed = o.delivered := by
  cases o with
  | answered => cases h
  | _ => rfl

theorem Occurrence.handed_of_delivered {o : Occurrence α} (h : o.delivered = []) :
    o.handed = [] := by
  cases o with
  | answered => rfl
  | _ => exact h

/-- The payload that a move of a call hands over. -/
def Call.handing (c : Call α) : Verdict α → List α
  | .returned r => (c.returning r).handed
  | .goesOn _ => []

theorem Call.handing_of_payloads (c : Call α) {r : CallResult α}
    (h : (Verdict.returned r).payloads = []) : c.handing (.returned r) = [] :=
  Occurrence.handed_of_delivered ((c.delivered_returning r).trans h)

/-- Who reads an answer has been handed its payload before. -/
theorem Call.handing_of_receiving (c : Call α) {i : Nat} {r' : CallResult α}
    (stage : c.stage = .receiving i (some r')) (r : CallResult α) :
    c.handing (.returned r) = [] := by
  rw [handing, returning, stage]
  rfl

theorem Call.payloads_of_unread {c : Call α} (h : c.unread = none) : c.stage.payloads = [] := by
  unfold Call.unread at h
  unfold CallStage.payloads
  split
  · next hs => simp [hs] at h
  · rfl

theorem Loop.reads_payloads : Loop.Reads fun l : Loop α => l.stage.payloads where
  ended l hend := by
    cases hs : l.stage with
    | ended exit => rfl
    | _ => simp [Loop.hasEnded, hs] at hend
  spawned l hs := by
    rw [hs]
    rfl
  cancelled l b := rfl

namespace Poller

/-- The payloads that a poller has polled and not handed over. -/
def inHand (p : Poller α) : List α := p.parked.toList ++ p.read fun l => l.stage.payloads

/-- The payloads in the answers that have arrived at waits from one moment to another. -/
def arrived (p q : Poller α) : List α :=
  q.calls.flatMap fun c =>
    if (p.call? c.id).any fun d => d.unread.isNone then c.stage.payloads else []

/-- The payloads that are handed over from one moment to another. -/
def handed (p : Poller α) (es : List (Occurrence α)) (q : Poller α) : List α :=
  es.flatMap Occurrence.handed ++ p.arrived q

/-- Any number of moves, with all the payloads that are handed over in them. -/
inductive Handovers : Poller α → List (Occurrence α) → List α → Poller α → Prop
  | nil {p : Poller α} : Handovers p [] [] p
  | snoc {p q r : Poller α} {tr xs es} : Handovers p tr xs q → Move q es r →
      Handovers p (tr ++ es) (xs ++ q.handed es r) r

theorem Handovers.run {p q : Poller α} {tr xs} (h : Handovers p tr xs q) : Run p tr q := by
  induction h with
  | nil => exact .nil
  | snoc _ hmove ih => exact ih.snoc hmove

/-- Every run has the payloads that are handed over in it. -/
theorem Run.exists_handovers {p q : Poller α} {tr} (h : Run p tr q) :
    ∃ xs, Handovers p tr xs q := by
  induction h with
  | nil => exact ⟨[], .nil⟩
  | snoc _ hmove ih =>
    obtain ⟨xs, hxs⟩ := ih
    exact ⟨_, hxs.snoc hmove⟩

variable {p q : Poller α} {l m : Loop α} {c : Call α}

/-- No answer arrives at calls that stay where they are. -/
theorem Consistent.arrived_eq_nil (h : p.Consistent)
    (hcalls : ∀ d ∈ q.calls, d ∈ p.calls ∨ d.stage.payloads = []) : p.arrived q = [] := by
  refine List.flatMap_eq_nil_iff.2 fun d hd => ?_
  split
  · next hunread =>
    rcases hcalls d hd with hmem | hnone
    · rw [h.call?_of_mem hmem] at hunread
      exact Call.payloads_of_unread (Option.isNone_iff_eq_none.1 hunread)
    · exact hnone
  · rfl

/-- The answer of a loop arrives at the wait that listens for it. -/
theorem Consistent.arrived_answering (h : p.Consistent) {id : String}
    (hlis : p.listener? l = some id) {e : Ending α} (hq : q.calls = p.answering l e) :
    p.arrived q = e.payloads := by
  obtain ⟨-, c, hc, rfl, hs⟩ := listener?_eq_some hlis
  cases hans : e.answer with
  | none =>
    have hcalls : q.calls = p.calls := by simp [hq, answering, hlis, hans]
    rw [Ending.payloads_of_answer_none hans]
    exact h.arrived_eq_nil fun d hd => .inl (hcalls ▸ hd)
  | some r =>
    have hcalls : q.calls = p.calls.map fun c' =>
        if c'.id = c.id then { c' with stage := .receiving l.id (some r) } else c' := by
      simp only [hq, answering, hlis, hans]
    rw [arrived, hcalls, List.flatMap_map, ← Ending.payloads_of_answer hans l.id]
    -- Nothing arrives at the other calls, which stay where they are.
    refine (flatMap_eq_of_nodup h.callIds hc fun d hd hne => ?_).trans ?_
    · simp only [if_neg hne, h.call?_of_mem hd, Option.any_some]
      split
      · next hunread => exact Call.payloads_of_unread (Option.isNone_iff_eq_none.1 hunread)
      · rfl
    · simp [h.call?_of_mem hc, Call.unread, hs]

/-- What a loop ends with is handed over to the wait that listens, or is parked. -/
theorem Consistent.arrived_ended (h : p.Consistent) (hl : l ∈ p.loops) (hal : l.hasEnded = false)
    {e : Ending α} (hq : q.calls = p.answering l e) :
    p.arrived q ++ (p.parking l e).toList = e.payloads := by
  have hvacant := h.parked_of_alive hl hal
  cases hlis : p.listener? l with
  | some id =>
    have hparked : p.parking l e = none := by simp [parking, hlis, hvacant]
    rw [h.arrived_answering hlis hq, hparked]
    exact List.append_nil _
  | none =>
    have hcalls : q.calls = p.calls := by simp [hq, answering, hlis]
    rw [h.arrived_eq_nil fun d hd => .inl (hcalls ▸ hd)]
    cases e <;> simp [parking, hlis, hvacant, Ending.payloads]

theorem handed_of_work {es : List (Occurrence α)} {i : Nat} (h : ∀ o ∈ es, o.workOf? = some i) :
    es.flatMap Occurrence.handed = es.flatMap Occurrence.delivered :=
  List.flatMap_congr fun o ho => Occurrence.handed_of_workOf? (h o ho)

theorem handed_eq_nil {es : List (Occurrence α)} (h : es.flatMap Occurrence.delivered = []) :
    es.flatMap Occurrence.handed = [] :=
  List.flatMap_eq_nil_iff.2 fun o ho =>
    Occurrence.handed_of_delivered (List.flatMap_eq_nil_iff.1 h o ho)

/-- As long as there is a loop, what is in hand is what it has in its hands. -/
theorem Consistent.inHand_of_alive (h : p.Consistent) (hl : l ∈ p.loops)
    (hal : l.hasEnded = false) : p.inHand = l.stage.payloads := by
  rw [inHand, h.parked_of_alive hl hal, h.read_of_alive Loop.reads_payloads hl hal]
  rfl

/-- As long as there is no loop, what is in hand is what is parked. -/
theorem Consistent.inHand_of_vacant (h : p.Consistent) (hnone : p.current = none) :
    p.inHand = p.parked.toList := by
  rw [inHand, h.read_of_vacant Loop.reads_payloads hnone, List.append_nil]

/-- What is in hand after a move of a loop is with that loop, or parked. -/
theorem Consistent.inHand_withLoop (h : p.Consistent) (hl : l ∈ p.loops) (hal : l.hasEnded = false)
    (same : l.SameTask m) (hq : q.loops = (p.withLoop m).loops) :
    q.inHand = q.parked.toList ++ m.stage.payloads :=
  congrArg (q.parked.toList ++ ·) (h.read_withLoop Loop.reads_payloads hl hal same hq)

/-- A loop hands over what it had before what it polls. -/
theorem LoopEffect.inHand (h : p.Consistent) (hl : l ∈ p.loops) (hal : l.hasEnded = false) {es}
    (heffect : p.LoopEffect l es q) :
    p.inHand ++ es.flatMap Occurrence.acquired = p.handed es q ++ q.inHand := by
  rw [h.inHand_of_alive hl hal]
  have hvacant := h.parked_of_alive hl hal
  cases heffect with
  | @goesOn m es n k d ran same alive work hcarried =>
    let q : Poller α := { p.withLoop m with emptyPolls := n, payloadPolls := k, delayMillis := d }
    have hhand : q.inHand = p.parked.toList ++ m.stage.payloads :=
      h.inHand_withLoop hl hal same rfl
    have harrived : p.arrived q = [] := h.arrived_eq_nil fun d hd => .inl hd
    show _ = es.flatMap Occurrence.handed ++ p.arrived q ++ q.inHand
    rw [hhand, hvacant, harrived, handed_of_work work, List.append_nil]
    exact hcarried
  | @ends m e es k d ran same exit work hcarried =>
    let q : Poller α := { (p.ended l e).withLoop m with payloadPolls := k, delayMillis := d }
    have hhand : q.inHand = (p.parking l e).toList ++ m.stage.payloads :=
      h.inHand_withLoop hl hal same rfl
    have hgone : m.stage.payloads = [] := by rw [exit]; rfl
    have harrived : p.arrived q ++ (p.parking l e).toList = e.payloads := h.arrived_ended hl hal rfl
    obtain ⟨hacquired, hdelivered, -⟩ := p.ending_carries l e
    show _ = (es ++ p.ending l e).flatMap Occurrence.handed ++ p.arrived q ++ q.inHand
    rw [List.flatMap_append, List.flatMap_append, hacquired, handed_eq_nil hdelivered,
      handed_of_work work, hhand, hgone, List.append_nil, List.append_nil, List.append_nil,
      List.append_assoc, harrived]
    exact hcarried

/-- A loop that is started takes over what is parked. -/
theorem Sound.inHand_startLoop (h : p.Sound) (hphase : p.phase = .idle) {consumer script runs}
    {releasePanic : Option String} :
    (p.startLoop consumer script runs releasePanic).inHand = p.inHand := by
  have hnone := h.current_of_idle hphase
  rw [h.inHand_of_vacant hnone, inHand, read_startLoop,
    h.read_of_vacant Loop.reads_payloads hnone]
  rfl

/-- A call takes what is parked, or leaves what is in hand where it is. -/
theorem CallEffect.inHand (h : p.Sound) {v : Verdict α} (heffect : p.CallEffect c q v) :
    p.inHand = c.handing v ++ q.inHand := by
  have hread : q.read (fun l => l.stage.payloads) = p.read fun l => l.stage.payloads :=
    heffect.read_eq Loop.reads_payloads
  -- Who returns no payload changes nothing as long as what is parked stays there.
  have hkeeps : c.handing v = [] → q.parked = p.parked → p.inHand = c.handing v ++ q.inHand := by
    intro hnone hparked
    rw [hnone, Poller.inHand, Poller.inHand, hread, hparked]
    rfl
  cases heffect with
  | refused | collects | late => exact hkeeps (c.handing_of_payloads rfl) rfl
  | closed | cleared => exact hkeeps (c.handing_of_payloads p.payloads_owed) rfl
  | leaves => exact hkeeps (c.handing_of_payloads rfl) (by rw [absorb_eq])
  | reports => exact hkeeps (c.handing_of_payloads (payloads_owed _)) (by rw [absorb_eq])
  | @unparks x wait hphase hparked =>
    have hreturn : c.handing (.returned (.ok (some x))) = [x] := by
      cases hs : c.stage <;> simp_all [CallStage.isWait, Call.handing, Call.returning] <;> rfl
    have hnone := h.read_of_vacant Loop.reads_payloads (h.current_of_idle hphase)
    rw [hreturn, Poller.inHand, Poller.inHand, hread, hnone, hparked]
    rfl
  | starts _ _ hparked => exact hkeeps rfl hparked.symm
  | reenters => exact hkeeps rfl (by rw [absorb_eq])
  | unsubscribes =>
    refine hkeeps ?_ rfl
    split
    · rfl
    · exact c.handing_of_payloads rfl
  | replaces | closes | clears => exact hkeeps rfl rfl
  | answered stage => exact hkeeps (c.handing_of_receiving stage _) rfl

theorem SubscribeEffect.inHand (h : p.Sound) {subscription : String} {r : Except Error Unit}
    (heffect : p.SubscribeEffect subscription q r) : p.inHand = q.inHand := by
  cases heffect with
  | refused | collects => rfl
  | starts hphase => exact (h.inHand_startLoop hphase).symm

/-- Nothing is left in the hands of a poller when the task of its loop is discarded. -/
theorem Consistent.inHand_discard (h : p.Consistent) (hl : l ∈ p.loops) (hal : l.hasEnded = false) :
    (p.discard l.id).inHand = [] := by
  rw [inHand, h.read_discard Loop.reads_payloads hl hal, List.append_nil]
  exact congrArg Option.toList (h.parked_of_alive hl hal)

/-- A call that goes on has no payload with it. -/
theorem CallEffect.payloads_goesOn {v : Verdict α} (heffect : p.CallEffect c q v)
    {s : CallStage α} (hv : v = .goesOn s) : s.payloads = [] := by
  cases heffect with
  | replaces =>
    obtain rfl := Verdict.goesOn.inj hv
    split <;> rfl
  | unsubscribes =>
    split at hv
    · obtain rfl := Verdict.goesOn.inj hv
      rfl
    · cases hv
  | starts | closes | reenters | clears =>
    obtain rfl := Verdict.goesOn.inj hv
    rfl
  | _ => cases hv

/-- Payloads go through the hands of a poller first in, first out, until a task is discarded that
has one. -/
theorem Move.inHand (h : p.Sound) {es} (hmove : p.Move es q) :
    p.inHand ++ es.flatMap Occurrence.acquired = p.handed es q ++ q.inHand ∨
      es.flatMap Occurrence.acquired = [] ∧ p.handed es q = [] ∧ q.inHand = [] ∧
        ∃ i x xs, .discarded i (x :: xs) ∈ es := by
  -- Only loops poll, and only they answer.
  have hkeeps : ∀ xs, es.flatMap Occurrence.acquired = [] → es.flatMap Occurrence.handed = xs →
      (∀ d ∈ q.calls, d ∈ p.calls ∨ d.stage.payloads = []) → p.inHand = xs ++ q.inHand →
      p.inHand ++ es.flatMap Occurrence.acquired = p.handed es q ++ q.inHand := by
    intro xs hacquired hhanded hcalls hhand
    rw [handed, hacquired, hhanded, h.arrived_eq_nil hcalls, List.append_nil, List.append_nil]
    exact hhand
  cases hmove with
  | loop mem move =>
    exact .inl ((move.effect h.toConsistent mem).inHand h.toConsistent mem move.alive)
  | @proceed q c runtime s mem ready goes =>
    have heffect := callEffect_of_moveCall h mem goes
    obtain ⟨hacquired, hdelivered, -⟩ := p.noticing_carries c
    refine .inl (hkeeps [] hacquired (handed_eq_nil hdelivered) (fun d hd => ?_) (heffect.inHand h))
    obtain ⟨d', hd', rfl⟩ := List.mem_map.1 hd
    split
    · exact .inr (heffect.payloads_goesOn rfl)
    · exact .inl (heffect.calls_eq ▸ hd')
  | @finish q c runtime r mem ready goes =>
    have heffect := callEffect_of_moveCall h mem goes
    obtain ⟨hacquired, hdelivered, -⟩ := p.noticing_carries c
    refine .inl (hkeeps (c.returning r).handed ?_ ?_ (fun d hd => ?_) (heffect.inHand h))
    · rcases c.returning_eq r with hr | hr <;> simp [hacquired, hr, Occurrence.acquired]
    · rw [List.flatMap_append, handed_eq_nil hdelivered, List.flatMap_singleton, List.nil_append]
    · exact .inl (heffect.calls_eq ▸ (List.mem_filter.1 hd).1)
  | @call c first =>
    refine .inl (hkeeps [] rfl rfl (fun d hd => ?_) rfl)
    rcases List.mem_append.1 hd with hd | hd
    · exact .inl hd
    · obtain rfl := List.mem_singleton.1 hd
      exact .inr (CallStage.payloads_of_isFirst first)
  | drop => exact .inl (hkeeps [] rfl rfl (fun d hd => .inl (List.mem_filter.1 hd).1) rfl)
  | @subscribe runtime subscription script runs releasePanic =>
    have heffect := subscribeEffect p runtime subscription script runs releasePanic
    refine .inl (hkeeps [] ?_ ?_ (fun d hd => .inl (heffect.calls_eq ▸ hd)) (heffect.inHand h))
    · cases (p.subscribe runtime subscription script runs releasePanic).2 <;> rfl
    · cases (p.subscribe runtime subscription script runs releasePanic).2 <;> rfl
  | stop | release => exact .inl (hkeeps [] rfl rfl (fun d hd => .inl hd) rfl)
  | @discard l mem waits =>
    have hal := Stage.alive_of_awaits waits
    have hgone := h.inHand_discard mem hal
    have hhand := h.inHand_of_alive mem hal
    cases hpayloads : l.stage.payloads with
    | nil =>
      refine .inl (hkeeps [] rfl rfl (fun d hd => .inl hd) ?_)
      rw [hhand, hgone, hpayloads]
      rfl
    | cons x xs =>
      refine .inr ⟨rfl, ?_, hgone, l.id, x, xs, List.mem_singleton_self _⟩
      exact h.arrived_eq_nil fun d hd => .inl hd

/-- What was in hand and what has been polled since is, in this order, handed over, lost or still
in hand; what is handed over keeps its order, and nothing is lost unless a task is discarded with
it. -/
theorem Handovers.inOrder {tr xs} (hs : Handovers p tr xs q) (h : p.Sound) :
    ∃ past, p.inHand ++ tr.flatMap Occurrence.acquired = past ++ q.inHand ∧ xs.Sublist past ∧
      ((∀ i y ys, .discarded i (y :: ys) ∉ tr) → xs = past) := by
  induction hs with
  | nil => exact ⟨[], by simp, .refl [], fun _ => rfl⟩
  | @snoc q r tr xs es hs hmove ih =>
    obtain ⟨past, hpast, hsub, hall⟩ := ih
    have hbefore : (∀ i y ys, .discarded i (y :: ys) ∉ tr ++ es) → xs = past := fun hkept =>
      hall fun i y ys hmem => hkept i y ys (List.mem_append_left _ hmem)
    rw [List.flatMap_append, ← List.append_assoc, hpast, List.append_assoc]
    rcases hmove.inHand (h.run hs.run) with hhand | ⟨hacquired, hhanded, hnone, i, y, ys, hlost⟩
    · refine ⟨past ++ q.handed es r, ?_, hsub.append (.refl _), fun hkept => ?_⟩
      · rw [hhand, List.append_assoc]
      · rw [hbefore hkept]
    · refine ⟨past ++ q.inHand, ?_, ?_, fun hkept => ?_⟩
      · rw [hacquired, hnone, List.append_nil, List.append_nil]
      · rw [hhanded, List.append_nil]
        exact hsub.trans (List.sublist_append_left _ _)
      · exact absurd (List.mem_append_right _ hlost) (hkept i y ys)

/-- Payloads are handed over in the order in which they were polled, none of them twice.  What is
in hand at any moment was polled last of all, and nothing that is polled later is handed over before
it; what is parked is all that is in hand. -/
theorem handed_over_in_order {name : String} {pacing : Pacing} {tr : List (Occurrence α)}
    {xs : List α} (h : Handovers (idle name pacing) tr xs p) :
    xs.Sublist (tr.flatMap Occurrence.acquired) ∧
      (∃ past, tr.flatMap Occurrence.acquired = past ++ p.inHand ∧ xs.Sublist past ∧
        ((∀ i y ys, .discarded i (y :: ys) ∉ tr) → xs = past)) ∧
      (∀ x, p.parked = some x → p.inHand = [x]) ∧
      ∀ ts ys q, Handovers p ts ys q → ∃ past,
        p.inHand ++ ts.flatMap Occurrence.acquired = past ++ q.inHand ∧ ys.Sublist past ∧
          ((∀ i z zs, .discarded i (z :: zs) ∉ ts) → ys = past) := by
  have hidle : (idle name pacing : Poller α).Sound := sound_idle name pacing
  have hsound : p.Sound := hidle.run h.run
  obtain ⟨past, hpast, hsub, hall⟩ := h.inOrder hidle
  refine ⟨?_, ⟨past, hpast, hsub, hall⟩, fun x hx => ?_, fun ts ys q hs => hs.inOrder hsound⟩
  · have hprefix := hsub.trans (List.sublist_append_left past p.inHand)
    rw [← hpast] at hprefix
    exact hprefix
  · rw [hsound.inHand_of_vacant (hsound.current_of_parked hx), hx]
    rfl

theorem handed_over_in_order_takeover : ∃ (tr : List (Occurrence Nat)) (p : Poller Nat),
    Handovers (idle "a" default) tr [7] p ∧ tr.flatMap Occurrence.acquired = [7] := by
  have hrun : Run (idle "a" default) [.called "w" .entering, .pollBegan 1, .dropped "w" none,
      .polled 1 (.ok (.payload 7)), .subscribed "s", .invoked 2 7] _ :=
    run_of_perform? (takeover true ++ [.loop 2 .go, .loop 2 (.callBack 0)]) rfl
  obtain ⟨xs, hxs⟩ := hrun.exists_handovers
  -- No task is discarded, so all that was polled and is not in hand was handed over.
  obtain ⟨-, ⟨past, hpast, -, hall⟩, -⟩ := handed_over_in_order hxs
  obtain rfl := hall (by simp)
  have hseven : [7] = xs ++ [] := hpast
  rw [List.append_nil] at hseven
  exact ⟨_, _, hseven ▸ hxs, rfl⟩

end Poller

end Polling
