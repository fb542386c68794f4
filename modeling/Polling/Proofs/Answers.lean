import Polling.Proofs.Failures
import Polling.Proofs.Handover
import Polling.Proofs.Endings

/-!
# What a wait returns

A wait that nobody drops returns what its loop has come to: the payload that the loop found, or the
failure with which it ended, and nothing else, whatever happens meanwhile (`wait_returns`).

That a wait returns nothing takes a stop.  A loop may be asked to end alone, too, but only where a
waiter has gone or a subscription ends.  So a wait that has nothing to expect any more is always the
call of a finished poller, which is the invariant `Poller.Candid`.
-/

namespace Polling

variable {α : Type}

/-- Whether a wait that stands here has nothing to expect of its loop any more. -/
def CallStage.isVain : CallStage α → Bool
  | .receiving _ (some (.ok none)) | .joining _ .conclude => true
  | _ => false

/-- Why a call that has just got the answer of its loop has nothing to expect. -/
theorem Ending.of_isVain {e : Ending α} {r : CallResult α} (answer : e.answer = some r) {i : Nat}
    (vain : (CallStage.receiving i (some r)).isVain = true) : e = .cancelled ∨ e = .signalled := by
  cases e with
  | cancelled => exact .inl rfl
  | signalled => exact .inr rfl
  | abandoned => cases answer
  | delivered | failed =>
    obtain rfl := Option.some.inj answer
    cases vain

namespace Poller

variable {p q s : Poller α} {l k : Loop α} {c : Call α} {es tr : List (Occurrence α)}

/-- A wait has nothing to expect only if its poller is finished. -/
structure Candid (p : Poller α) : Prop where
  /-- The loop of a wait that is there is not asked to end alone. -/
  spared : ∀ l ∈ p.loops, l.cancelled = true → ∀ c ∈ p.calls, l.consumer ≠ .waiter c.id
  vain : ∀ c ∈ p.calls, c.stage.isVain = true → p.Finished

/-- Whether a loop may have been asked to end alone: it was before, or its consumer is no wait that
is there. -/
def MayCancel (p : Poller α) (k : Loop α) : Prop :=
  (∃ l ∈ p.loops, l.consumer = k.consumer ∧ (l.cancelled = true ∨ p.waiterGone l = true)) ∨
    ∃ subscription, k.consumer = .subscriber subscription

/-- A call asks a loop to end alone if it makes way for a waiter or ends its subscription. -/
theorem CallEffect.mayCancel {v : Verdict α} (h : p.Sound) (heffect : p.CallEffect c q v)
    (hk : k ∈ q.loops) (hcancelled : k.cancelled = true) : p.MayCancel k := by
  have hsame : k ∈ p.loops → p.MayCancel k := fun hk => .inl ⟨k, hk, rfl, .inl hcancelled⟩
  -- The loop that is retired is the one that the life cycle names.
  have hretire : ∀ {a : Attachment}, p.current = some a → k ∈ (p.retire a).loops →
      p.MayCancel k ∨ ∃ l ∈ p.loops, p.consumer = some l.consumer ∧ l.consumer = k.consumer := by
    intro a ha hk
    obtain ⟨l, hl, rfl⟩ := List.mem_map.1 hk
    by_cases hid : l.id = a.loop
    · obtain ⟨m, hm, hmid, hcons, -⟩ := h.attached a ha
      obtain rfl := h.eq_of_id hm hl (hid.trans hmid.symm)
      refine .inr ⟨l, hl, hcons, ?_⟩
      split <;> rfl
    · rw [if_neg hid] at hcancelled ⊢
      exact .inl (.inl ⟨l, hl, rfl, .inl hcancelled⟩)
  cases heffect with
  | starts =>
    rcases List.mem_append.1 hk with hk | hk
    · exact hsame hk
    · obtain rfl := List.mem_singleton.1 hk
      cases hcancelled
  | replaces _ ha _ gone =>
    rcases hretire ha hk with hmay | ⟨l, hl, hcons, heq⟩
    · exact hmay
    · refine .inl ⟨l, hl, heq, .inr ?_⟩
      unfold abandoned? at gone
      rw [hcons] at gone
      unfold waiterGone
      split at gone
      · next id hid =>
        rw [Option.some.inj hid]
        by_contra hthere
        simp [hthere] at gone
      · cases gone
  | unsubscribes _ hcons ha =>
    rcases hretire ha hk with hmay | ⟨l, -, hcons', heq⟩
    · exact hmay
    · exact .inr ⟨_, heq ▸ (Option.some.inj (hcons.symm.trans hcons')).symm⟩
  | reenters | leaves | reports =>
    rw [absorb_eq] at hk
    exact hsame hk
  | _ => exact hsame hk

/-- Nobody else asks a loop to end alone. -/
theorem Move.mayCancel (h : p.Sound) (hmove : p.Move es q) (hk : k ∈ q.loops)
    (hcancelled : k.cancelled = true) : p.MayCancel k := by
  have hsame : k ∈ p.loops → p.MayCancel k := fun hk => .inl ⟨k, hk, rfl, .inl hcancelled⟩
  cases hmove with
  | @loop q l es mem move =>
    obtain ⟨f, hq, same, hcan, -⟩ := move.advances
    rw [hq] at hk
    obtain ⟨m, hm, rfl⟩ := List.mem_map.1 hk
    by_cases hid : m.id = l.id
    · obtain rfl := h.eq_of_id mem hm hid
      rw [if_pos rfl] at hcancelled ⊢
      exact .inl ⟨m, mem, same.consumer.symm, .inl (hcan.symm.trans hcancelled)⟩
    · rw [if_neg hid] at hcancelled ⊢
      exact .inl ⟨m, hm, rfl, .inl hcancelled⟩
  | proceed mem _ goes => exact (callEffect_of_moveCall h mem goes).mayCancel h hk hcancelled
  | finish mem _ goes => exact (callEffect_of_moveCall h mem goes).mayCancel h hk hcancelled
  | @subscribe runtime subscription script runs releasePanic =>
    have heffect := subscribeEffect p runtime subscription script runs releasePanic
    generalize (p.subscribe runtime subscription script runs releasePanic).2 = r at heffect
    generalize (p.subscribe runtime subscription script runs releasePanic).1 = q at heffect hk
    cases heffect with
    | starts =>
      rcases List.mem_append.1 hk with hk | hk
      · exact hsame hk
      · obtain rfl := List.mem_singleton.1 hk
        cases hcancelled
    | _ => exact hsame hk
  | discard =>
    obtain ⟨l, hl, rfl⟩ := List.mem_map.1 hk
    refine .inl ⟨l, hl, ?_, .inl ?_⟩
    · split <;> rfl
    · split at hcancelled <;> exact hcancelled
  | call | drop | stop | release => exact hsame hk

theorem candid_idle (name : String) (pacing : Pacing) : (idle name pacing : Poller α).Candid := by
  constructor <;> simp [idle]

/-- A loop that has no payload and no failure for its waiter has ended with the whole poller. -/
theorem Candid.vain_answer (hp : p.Candid) (hl : l ∈ p.loops) (hc : c ∈ p.calls)
    (hcons : l.consumer = .waiter c.id) {e : Ending α} (he : e = .cancelled ∨ e = .signalled)
    (asked : e = .cancelled → p.isCancelled l = true) : (p.ended l e).Finished := by
  refine ⟨rfl, if_pos ?_⟩
  rcases he with rfl | rfl
  · rcases Bool.or_eq_true_iff.1 (asked rfl) with hcan | hstop
    · exact absurd hcons (hp.spared l hl hcan c hc)
    · rw [hstop, Bool.true_or]
  · exact Bool.or_true _

/-- Whatever a call comes to, it has something to expect unless the poller is finished. -/
theorem CallEffect.vain {t : CallStage α} (heffect : p.CallEffect c q (.goesOn t))
    (vain : t.isVain = true) : q.Finished := by
  generalize hv : Verdict.goesOn t = v at heffect
  cases heffect with
  | clears => exact ⟨rfl, rfl⟩
  | starts | closes | reenters =>
    obtain rfl := Verdict.goesOn.inj hv
    cases vain
  | replaces =>
    obtain rfl := Verdict.goesOn.inj hv
    split at vain <;> cases vain
  | unsubscribes =>
    split at hv
    · obtain rfl := Verdict.goesOn.inj hv
      cases vain
    · cases hv
  | _ => cases hv

/-- A call that has nothing to expect is a call of a finished poller, after every move. -/
theorem Candid.vain_move (hp : p.Candid) (h : p.Sound) (hmove : p.Move es q) (hc : c ∈ q.calls)
    (vain : c.stage.isVain = true) : q.Finished := by
  -- A call that had nothing to expect before belongs to a poller that stays finished.
  have hkept : c ∈ p.calls → q.Finished := fun hc => ((hp.vain c hc vain).move h hmove).1
  cases hmove with
  | @loop q l es mem move =>
    cases move.effect h.toConsistent mem with
    | goesOn => exact hkept hc
    | ends _ _ _ _ _ _ _ asked =>
      rcases mem_answering hc with ⟨hc, -⟩ | ⟨d, hd, r, answer, hlis, rfl⟩
      · exact hkept hc
      · have hended := hp.vain_answer mem hd (listener?_eq_some hlis).1
          (Ending.of_isVain answer vain) asked
        exact ⟨hended.vacant, hended.stopped⟩
  | @proceed q d runtime t mem ready goes =>
    have heffect := callEffect_of_moveCall h mem goes
    obtain ⟨d', hd', rfl⟩ := List.mem_map.1 hc
    split at vain
    · have hq := heffect.vain vain
      exact ⟨hq.vacant, hq.stopped⟩
    · next hid =>
      rw [if_neg hid] at hkept
      exact hkept (heffect.calls_eq ▸ hd')
  | finish mem _ goes =>
    exact hkept ((callEffect_of_moveCall h mem goes).calls_eq ▸ (List.mem_filter.1 hc).1)
  | call first =>
    rcases List.mem_append.1 hc with hc | hc
    · exact hkept hc
    · obtain rfl := List.mem_singleton.1 hc
      cases hs : c.stage <;> simp_all [CallStage.isFirst, CallStage.isVain]
  | drop => exact hkept (List.mem_filter.1 hc).1
  | subscribe => exact hkept ((subscribeEffect p _ _ _ _ _).calls_eq ▸ hc)
  | stop | release | discard => exact hkept hc

/-- A call that is pending after a move is not one that made way or ended its subscription. -/
theorem Candid.move (hp : p.Candid) (h : p.Sound) (hmove : p.Move es q) : q.Candid where
  vain _ hc vain := hp.vain_move h hmove hc vain
  spared k hk hcancelled c hc hcons := by
    -- A call that was not pending before is new to all loops.
    have hknown : ∀ l ∈ p.loops, l.consumer = k.consumer → ∃ d ∈ p.calls, d.id = c.id := by
      intro l hl heq
      rcases hmove.known_of_mem_calls h hc with hknown | hfresh
      · exact hknown
      · exact absurd (heq.trans hcons) (hfresh l hl)
    rcases hmove.mayCancel h hk hcancelled with ⟨l, hl, heq, hcan | hgone⟩ | ⟨subscription, hsub⟩
    · obtain ⟨d, hd, hid⟩ := hknown l hl heq
      exact hp.spared l hl hcan d hd (by rw [heq, hcons, hid])
    · obtain ⟨d, hd, hid⟩ := hknown l hl heq
      obtain ⟨id, hwaiter, hnone⟩ := waiterGone_iff.1 hgone
      refine hnone d hd (hid.trans ?_)
      exact (Consumer.waiter.inj ((heq.symm.trans hwaiter).symm.trans hcons)).symm
    · rw [hsub] at hcons
      cases hcons

theorem Reachable.candid (h : p.Reachable) : p.Candid :=
  (h.preserves (I := fun p => p.Sound ∧ p.Candid)
    (fun name pacing => ⟨sound_idle name pacing, candid_idle name pacing⟩)
    fun hp hmove => ⟨hp.1.move hmove, hp.2.move hp.1 hmove⟩).2

/-- A wait that returns nothing returns it from a poller that was asked to stop. -/
theorem CallEffect.halted_of_nothing (h : p.Sound) (hp : p.Candid) (hc : c ∈ p.calls)
    (waits : c.stage.isWaiting = true) (heffect : p.CallEffect c q (.returned (.ok none))) :
    q.stopRequested = true ∧ (q.phase = .stopping ∨ q.phase = .stopped) := by
  have hfinished : c.stage.isVain = true → p.stopRequested = true ∧ p.phase = .stopped :=
    fun vain => ⟨h.halted (.inr (hp.vain c hc vain).stopped), (hp.vain c hc vain).stopped⟩
  generalize hv : Verdict.returned (.ok none) = v at heffect
  cases heffect with
  | late _ phase => exact ⟨h.halted phase, phase⟩
  | unsubscribes stage | closed stage | leaves stage =>
    simp [stage, CallStage.isWaiting] at waits
  | @reports i sequel stage =>
    rw [stage] at waits hfinished
    cases sequel with
    | close => cases waits
    | reenter | leave => simp_all
    | conclude =>
      rw [absorb_eq]
      exact (hfinished rfl).imp id .inr
  | @answered i r stage =>
    obtain rfl : .ok none = r := Verdict.returned.inj hv
    exact (hfinished (by rw [stage]; rfl)).imp id .inr
  | cleared => exact ⟨rfl, .inr rfl⟩
  | _ => cases hv

/-- A wait that has an answer returns it as soon as it moves, and it can move. -/
theorem HasAnswer.returns {id : String} {r : CallResult α} (h : p.HasAnswer id r) :
    ∃ c ∈ p.calls, c.id = id ∧ p.callReady c = true ∧
      ∀ runtime, p.moveCall runtime c = (p, .returned r) := by
  obtain ⟨c, hc, hid, i, hs⟩ := h
  exact ⟨c, hc, hid, by simp [callReady, hs], fun runtime => by simp [moveCall, hs]⟩

/-- What becomes of a wait that gets its result: as long as it is pending it can move, and then
returns this result; and it is not over before it has returned it or is dropped. -/
def Gets (q : Poller α) (id : String) (r : CallResult α) (tr : List (Occurrence α)) : Prop :=
  match tr.find? (Occurrence.closes id) with
  | none => ∃ c ∈ q.calls, c.id = id ∧ q.callReady c = true ∧
      ∀ runtime, q.moveCall runtime c = (q, .returned r)
  | some o => o = .answered id r ∨ o = .dropped id (some r)

theorem Run.gets (h : p.Sound) (hrun : Run p tr q) {id : String} {r : CallResult α}
    (hanswer : p.HasAnswer id r) : q.Gets id r tr := by
  have hkeeps := hrun.keepsAnswer h hanswer
  unfold KeepsAnswer at hkeeps
  unfold Gets
  cases hclosed : tr.find? (Occurrence.closes id) with
  | none =>
    rw [hclosed] at hkeeps
    exact hkeeps.returns
  | some o =>
    rw [hclosed] at hkeeps
    exact hkeeps

/-- Only a call that moves returns. -/
theorem Move.of_returned (h : p.Sound) (hmove : p.Move es q) {id : String} {r : CallResult α}
    (ho : .answered id r ∈ es ∨ .returned id r ∈ es) :
    ∃ c ∈ p.calls, c.id = id ∧ ∃ s, p.CallEffect c s (.returned r) ∧ q = s.dropCall c.id := by
  obtain ⟨o, ho, hor⟩ : ∃ o ∈ es, o = .answered id r ∨ o = .returned id r :=
    ho.elim (fun ho => ⟨_, ho, .inl rfl⟩) fun ho => ⟨_, ho, .inr rfl⟩
  have hcloses : o.closes id = true := by rcases hor with rfl | rfl <;> simp [Occurrence.closes]
  have hnot : ∀ {P : Prop}, o.closes id = false → P := by
    intro P hfalse
    rw [hcloses] at hfalse
    cases hfalse
  cases hmove with
  | loop mem move => exact hnot ((move.effect h.toConsistent mem).closes ho id)
  | proceed => exact hnot (closes_of_mem_noticing ho id)
  | @finish s c runtime r' mem _ goes =>
    rcases List.mem_append.1 ho with ho | ho
    · exact hnot (closes_of_mem_noticing ho id)
    · obtain rfl := List.mem_singleton.1 ho
      have heq : c.id = id ∧ r' = r := by
        rcases c.returning_eq r' with hr | hr <;> rw [hr] at hor <;> simpa using hor
      obtain ⟨hid, rfl⟩ := heq
      exact ⟨c, mem, hid, s, callEffect_of_moveCall h mem goes, rfl⟩
  | drop =>
    obtain rfl := List.mem_singleton.1 ho
    simp at hor
  | @subscribe runtime subscription script runs releasePanic =>
    cases hr : (p.subscribe runtime subscription script runs releasePanic).2 <;>
    · rw [hr] at ho
      obtain rfl := List.mem_singleton.1 ho
      simp at hor
  | call | discard =>
    obtain rfl := List.mem_singleton.1 ho
    simp at hor
  | stop | release => cases ho

/-- A payload that the loop of a pending wait finds is the answer to this wait. -/
theorem LoopMove.answers_payload (h : p.Sound) (hl : l ∈ p.loops) (hmove : p.LoopMove l es q)
    (hc : c ∈ p.calls) (hcons : l.consumer = .waiter c.id) {x : α}
    (hx : .polled l.id (.ok (.payload x)) ∈ es) : q.HasAnswer c.id (.ok (some x)) := by
  have hpasses := hmove.passesOn h hl hx
  rw [hcons] at hpasses
  generalize hw : Consumer.waiter c.id = consumer at hpasses
  cases hpasses with
  | answered hd hs =>
    rw [Consumer.waiter.inj hw]
    exact ⟨_, hd, rfl, l.id, hs⟩
  | parked gone =>
    -- The wait is there still, so the payload is not parked.
    have heffect := hmove.effect h.toConsistent hl
    obtain ⟨d, hd, hid, -⟩ := (Move.loop hl hmove).pending h hc fun o ho => heffect.closes ho _
    exact absurd (hid.trans (Consumer.waiter.inj hw)) (gone d hd)
  | @awaited m _ awaits =>
    obtain ⟨subscription, hsub⟩ := awaits.subscribed
    rw [← hw] at hsub
    cases hsub

/-- A wait that nobody drops returns what its loop has come to: the payload that the loop finds, or
the failure with which it ends, whatever happens meanwhile.  It returns nothing only if the poller
was asked to stop by then. -/
theorem wait_returns (hp : p.Reachable) (hc : c ∈ p.calls) (wait : c.stage = .entering)
    (hrun : Run p tr q) (unclosed : ∀ o ∈ tr, o.closes c.id = false) :
    (∀ l ∈ q.loops, l.consumer = .waiter c.id → ∀ es s, q.LoopMove l es s →
      (∀ x, .polled l.id (.ok (.payload x)) ∈ es →
        ∀ ts r, Run s ts r → r.Gets c.id (.ok (some x)) ts) ∧
      ∀ f listener, .failed l.id f listener ∈ es →
        ∀ ts r, Run s ts r → r.Gets c.id (.error (.failed f)) ts) ∧
    ∀ es s, q.Move es s → (.answered c.id (.ok none) ∈ es ∨ .returned c.id (.ok none) ∈ es) →
      s.stopRequested = true ∧ (s.phase = .stopping ∨ s.phase = .stopped) := by
  have hq := hp.run hrun
  have h := hq.sound
  obtain ⟨d, hd, hid, hwaits⟩ := hrun.pending hp.sound hc unclosed
  have waits : d.stage.isWaiting = true := hwaits (by rw [wait]; rfl)
  rw [← hid]
  refine ⟨fun l hl hcons es s hmove => ⟨fun x hx ts r hts => ?_, fun f listener hf ts r hts => ?_⟩,
    fun es s hmove hnothing => ?_⟩
  · exact hts.gets (h.move (.loop hl hmove)) (hmove.answers_payload h hl hd hcons hx)
  · obtain ⟨⟨l', hl', hlid, hlistener⟩, -, hkeeps⟩ := (Move.loop hl hmove).failed h hf
    obtain rfl := h.eq_of_id hl hl' hlid
    obtain rfl := (hlistener d.id).2 ⟨hcons, d, hd, rfl⟩
    exact hts.gets (h.move (.loop hl hmove)) hkeeps
  · obtain ⟨d', hd', hid', t, heffect, rfl⟩ := hmove.of_returned h hnothing
    obtain rfl := h.eq_of_callId hd hd' hid'
    -- That the call is no longer pending changes nothing in what was asked of the poller.
    have hhalted := heffect.halted_of_nothing h hq.candid hd' waits
    exact hhalted

/-- A poller is stopped during the poll of a wait, and the poll finds a payload: the wait returns
it. -/
theorem wait_returns_after_stop : ∃ (p q s : Poller Nat) (c : Call Nat) (l : Loop Nat)
    (tr es : List (Occurrence Nat)), p.Reachable ∧ c ∈ p.calls ∧ c.stage = .entering ∧
      Run p tr q ∧ (∀ o ∈ tr, o.closes c.id = false) ∧ q.phase = .stopping ∧ l ∈ q.loops ∧
      q.LoopMove l es s ∧ .polled l.id (.ok (.payload 7)) ∈ es ∧ s.Gets c.id (.ok (some 7)) [] := by
  let p : Poller Nat := { idle "a" default with calls := [⟨"w", true, .entering⟩] }
  have hp : p.Reachable := ⟨"a", default, _, run_of_perform? [.call ⟨"w", true, .entering⟩] rfl⟩
  have hrun : Run p [.pollBegan 1] _ := run_of_perform? [.resume "w" true, .loop 1 .go,
    .loop 1 (.check false), .loop 1 (.beginPoll {} 0), .stop] rfl
  have hunclosed : ∀ o ∈ ([.pollBegan 1] : List (Occurrence Nat)), o.closes "w" = false := by
    simp [Occurrence.closes]
  obtain ⟨hloop, -⟩ := wait_returns hp (mem_of_call? "w" rfl) rfl hrun hunclosed
  have hmove := hloop _ List.mem_cons_self rfl _ _
    (@LoopMove.endsPoll _ _ _ _ _ (.ok (.payload 7)) 0 rfl)
  have hgets := hmove.1 7 List.mem_cons_self [] _ .nil
  exact ⟨_, _, _, _, _, _, _, hp, mem_of_call? "w" rfl, rfl, hrun, hunclosed, rfl,
    List.mem_cons_self, .endsPoll rfl, List.mem_cons_self, hgets⟩

end Poller

end Polling
