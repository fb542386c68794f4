import Polling.Proofs.Handover
import Polling.Proofs.Paces
import Polling.Proofs.Phases
import Polling.Proofs.Waiters

/-!
# Taking over from a waiter that has gone

A wait that finds the loop of a waiter that has gone asks it to end and lets it.  What the loop
still brings goes to the wait, through the slot where it was kept; if it brings nothing, the wait
finds the poller as idle as any other wait might.  `Poller.Takeover` lists where such a takeover
stands, with what has been told of it, and `Takeover.act` is its one step.

All that takes a loop whose task gets to run.  If the task is discarded instead, the life cycle goes
on naming the loop, and the wait never gets on.
-/

namespace Polling

variable {α : Type}

/-- What a wait gets out of a poll, if that was not in vain. -/
def pollResult? : Except Failure (Polled α) → Option (CallResult α)
  | .ok .empty => none
  | .ok (.payload x) => some (.ok (some x))
  | .error f => some (.error (.failed f))

/-- Whether a wait that stands here looks at the life cycle next, if a loop has ended. -/
def CallStage.standsBy (i : Nat) : CallStage α → Bool
  | .entering | .yielded => true
  | .joining j .reenter => j = i
  | _ => false

theorem CallStage.standsBy_iff {i : Nat} {s : CallStage α} :
    s.standsBy i = true ↔ s.isWait = true ∨ s = .joining i .reenter := by
  cases s with
  | joining j sequel => cases sequel <;> simp [standsBy, isWait]
  | _ => simp [standsBy, isWait]

/-- Whether a cue asks nothing of a poller and shows no signal. -/
def Cue.isCalm : Cue α → Bool
  | .loop _ own => own.shown? != some true
  | .resume _ _ | .discard _ => true
  | _ => false

/-- Whether what is told is the work of no other loop than the given one, and that in vain. -/
def Occurrence.IsVain (l : Loop α) (o : Occurrence α) : Prop :=
  ∀ i, o.workOf? = some i → i = l.id ∧ l.runs = true ∧ ∀ r, o = .polled i r → r = .ok .empty

theorem Occurrence.isVain_of_still {l : Loop α} {o : Occurrence α} (h : o.workOf? = none) :
    o.IsVain l := by
  intro i hi
  rw [h] at hi
  cases hi

/-- A loop that begins a poll, or finds nothing, works in vain. -/
theorem Occurrence.isVain_of_idle {l : Loop α} {o : Occurrence α} (runs : l.runs = true)
    (h : o = .pollBegan l.id ∨ o = .polled l.id (.ok .empty)) : o.IsVain l := by
  rcases h with rfl | rfl <;> intro i hi <;> obtain rfl := Option.some.inj hi
  · exact ⟨rfl, runs, by simp⟩
  · exact ⟨rfl, runs, fun r hr => (Occurrence.polled.inj hr).2.symm⟩

/-- What is told of a poll in vain is no result. -/
theorem Occurrence.IsVain.pollResult?_eq {l : Loop α} {i : Nat} {r : Except Failure (Polled α)}
    (h : (Occurrence.polled i r).IsVain l) : pollResult? r = none := by
  obtain ⟨-, -, hempty⟩ := h i rfl
  rw [hempty r rfl]
  rfl

namespace Poller

/-- A poller that runs for a waiter that has gone, and of which nobody has let go. -/
structure Deserted (p : Poller α) (l : Loop α) : Prop where
  held : p.Held
  running : p.phase = .running
  told : p.failure = none
  alone : p.calls = []
  mem : l ∈ p.loops
  named : ∃ j, p.current = some ⟨l.id, j⟩
  waiter : ∃ w, l.consumer = .waiter w

/-- The poller with a wait that has just been made. -/
def withWait (p : Poller α) (id : String) (runs : Bool) : Poller α :=
  { p with calls := [⟨id, runs, .entering⟩] }

/-- Whether a poller still names a loop that nobody waits for. -/
structure Lingers (q : Poller α) (l : Loop α) : Prop where
  running : q.phase = .running
  spared : q.stopRequested = false
  told : q.failure = none
  named : ∃ j, q.current = some ⟨l.id, j⟩
  loop : ∃ m ∈ q.loops, l.Becomes m

/-- Whether a poller has a result in its slots for whoever looks next. -/
inductive Offers (q : Poller α) : CallResult α → Prop
  | payload {y : α} (phase : q.phase = .idle) (parked : q.parked = some y)
      (told : q.failure = none) : Offers q (.ok (some y))
  | failure {f : Failure} (phase : q.phase = .stopped) (pending : q.failure = some f) :
      Offers q (.error (.failed f))

/-- Whether a poller is as idle as it can be, but for a wait that stands by a loop that is gone. -/
structure Vacant (q : Poller α) (l : Loop α) (id : String) (runs : Bool) : Prop where
  idle : q.phase = .idle
  usable : q.disposed = false
  told : q.failure = none
  parked : q.parked = none
  current : q.current = none
  waits : ∃ s, q.calls = [⟨id, runs, s⟩] ∧ s.standsBy l.id = true

/-- How far a wait has come in taking over from the waiter of a loop by some cues, with what has
been told. -/
inductive Takeover (p : Poller α) (l : Loop α) (id : String) (runs : Bool) :
    List (Cue α) → List (Occurrence α) → Poller α → Prop
  /-- The loop is named still. -/
  | lingers {cues tr q s} (vain : ∀ o ∈ tr, o.IsVain l) (calls : q.calls = [⟨id, runs, s⟩])
      (stands : s.standsBy l.id = true) (started : q.started = p.started)
      (lingers : q.Lingers l) : Takeover p l id runs cues tr q
  /-- The loop has ended with a result, which nobody has got yet. -/
  | offers {cues before after r x q s} (ran : ∃ m ∈ q.loops, m.id = l.id ∧ m.runs = true)
      (result : pollResult? r = some x)
      (vain : ∀ o ∈ before, o.IsVain l) (still : ∀ o ∈ after, o.workOf? = none)
      (calls : q.calls = [⟨id, runs, s⟩]) (stands : s.standsBy l.id = true)
      (started : q.started = p.started) (current : q.current = none)
      (usable : q.disposed = false) (offers : q.Offers x) :
      Takeover p l id runs cues (before ++ .polled l.id r :: after) q
  /-- The wait has returned the result. -/
  | returned {cues before after r x q} (ran : ∃ m ∈ q.loops, m.id = l.id ∧ m.runs = true)
      (result : pollResult? r = some x)
      (vain : ∀ o ∈ before, o.IsVain l) (still : ∀ o ∈ after, o.workOf? = none)
      (calls : q.calls = []) (started : q.started = p.started) (current : q.current = none)
      (phase : ∀ e, x = .error e → q.phase = .stopped) (told : .returned id x ∈ after) :
      Takeover p l id runs cues (before ++ .polled l.id r :: after) q
  /-- The loop has ended in vain, and left the poller like new. -/
  | vacated {cues rest before after u q} (ran : ∃ m ∈ u.loops, m.id = l.id ∧ m.runs = true)
      (vain : ∀ o ∈ before, o.IsVain l)
      (done : (p.withWait id runs).perform? cues = some (before, u))
      (vacant : u.Vacant l id runs) (started : u.started = p.started)
      (goesOn : u.perform? rest = some (after, q)) :
      Takeover p l id runs (cues ++ rest) (before ++ after) q

variable {p q r u : Poller α} {l m : Loop α} {c : Call α} {es tr : List (Occurrence α)}
  {id : String} {runs runtime : Bool} {s : CallStage α} {x : CallResult α} {cues : List (Cue α)}

/-! ### One move of a wait -/

theorem callReady_of_isWait (wait : c.stage.isWait = true) : p.callReady c = true := by
  unfold callReady
  cases hs : c.stage <;> simp_all [CallStage.isWait]

theorem moveCall_of_isWait (wait : c.stage.isWait = true) :
    p.moveCall runtime c = p.enter runtime c := by
  unfold moveCall
  cases hs : c.stage <;> simp_all [CallStage.isWait]

/-- A wait that looks at the life cycle notices nothing by the way. -/
theorem noticing_of_isWait (wait : c.stage.isWait = true) : p.noticing c = [] := by
  unfold noticing
  cases hs : c.stage <;> simp_all [CallStage.isWait]

theorem returning_of_isWait (wait : c.stage.isWait = true) (x : CallResult α) :
    c.returning x = .returned c.id x := by
  unfold Call.returning
  cases hs : c.stage <;> simp_all [CallStage.isWait]

theorem callAct?_of_goesOn (wait : c.stage.isWait = true) {t : CallStage α}
    (henter : p.enter runtime c = (q, .goesOn t)) :
    p.callAct? runtime c = some ([], q.setCallStage c.id t) := by
  simp only [callAct?, callReady_of_isWait wait, if_true, moveCall_of_isWait wait, henter,
    noticing_of_isWait wait]

theorem callAct?_of_returned (wait : c.stage.isWait = true)
    (henter : p.enter runtime c = (q, .returned x)) :
    p.callAct? runtime c = some ([.returned c.id x], q.dropCall c.id) := by
  simp only [callAct?, callReady_of_isWait wait, if_true, moveCall_of_isWait wait, henter,
    noticing_of_isWait wait, returning_of_isWait wait, List.nil_append]

/-- A loop that is gone leaves nothing behind for a wait that has joined it. -/
theorem moveCall_of_joining {i : Nat} (hs : c.stage = .joining i .reenter)
    (quiet : p.panicOf? i = none) : p.moveCall runtime c = (p, .goesOn .entering) := by
  have habsorb : p.absorb i = p := by rw [absorb_eq, quiet, Option.none_or]
  simp only [moveCall, hs, habsorb, afterJoin]

theorem callAct?_of_joining {i : Nat} (hs : c.stage = .joining i .reenter)
    (quiet : p.panicOf? i = none) :
    p.callAct? runtime c =
      if p.hasEnded i then some ([], p.setCallStage c.id .entering) else none := by
  have hnoticing : p.noticing c = [] := noticing_eq_nil fun j t ht => by
    rw [hs] at ht
    obtain ⟨rfl, -⟩ := CallStage.joining.inj ht
    exact quiet
  simp only [callAct?, callReady, hs, moveCall_of_joining hs quiet, hnoticing]

/-- The loops of waiters leave nobody a panic. -/
theorem panicOf?_of_bare (h : p.Consistent) (hl : l ∈ p.loops) (bare : l.Bare) :
    p.panicOf? l.id = none := by
  have hstage := bare.stage
  simp only [panicOf?, h.loop?_of_mem hl]
  split
  · next hs => simp [hs, Stage.isBare] at hstage
  · rfl

theorem enter_of_failure {f : Failure} (usable : p.disposed = false) (told : p.failure = some f) :
    p.enter runtime c = ({ p with failure := none }, .returned (.error (.failed f))) := by
  simp [enter, screen, usable, told]

theorem setCallStage_of_alone (hcalls : p.calls = [⟨id, runs, s⟩]) (t : CallStage α) :
    (p.setCallStage id t).calls = [⟨id, runs, t⟩] := by
  simp [setCallStage, hcalls]

theorem dropCall_of_alone (hcalls : p.calls = [⟨id, runs, s⟩]) : (p.dropCall id).calls = [] := by
  simp [dropCall, hcalls]

theorem ne_of_alone {w : String} (hcalls : p.calls = [⟨id, runs, s⟩]) (hne : w ≠ id) :
    ∀ c ∈ p.calls, c.id ≠ w := by
  intro c hc
  rw [hcalls] at hc
  rw [List.mem_singleton.1 hc]
  exact hne.symm

/-! ### While the loop is named -/

/-- Nobody has shut down a poller that is running. -/
theorem Lingers.usable (hq : q.Lingers l) (h : q.Consistent) : q.disposed = false := by
  by_contra hd
  rcases h.disposed (by simpa using hd) with hp | hp <;> rw [hq.running] at hp <;> cases hp

/-- The loop that lingers is there for the waiter that has gone. -/
theorem Lingers.eq_of_id (hq : q.Lingers l) (h : q.Consistent) (hm : m ∈ q.loops)
    (hid : m.id = l.id) : l.Becomes m := by
  obtain ⟨k, hk, hbecomes⟩ := hq.loop
  rwa [h.eq_of_id hk hm (hid.trans hbecomes.id.symm)]

/-- A wait that finds the loop asks it to end, and joins it if nobody else does. -/
theorem Lingers.enter (hq : q.Lingers l) (h : q.Consistent) {w : String}
    (hw : l.consumer = .waiter w) (gone : ∀ c ∈ q.calls, c.id ≠ w) (runtime : Bool)
    (c : Call α) :
    ∃ j, q.enter runtime c =
      (q.retire ⟨l.id, j⟩, .goesOn (if j then .joining l.id .reenter else .yielded)) := by
  obtain ⟨j, hj⟩ := hq.named
  obtain ⟨k, hk, hid, hcons, -⟩ := h.attached _ hj
  have hgone : q.abandoned? = some ⟨l.id, j⟩ := by
    simp [abandoned?, hcons, (hq.eq_of_id h hk hid).consumer, hw, call?_eq_none.2 gone, hj]
  exact ⟨j, by simp only [Poller.enter, screen_eq (hq.usable h) hq.told, hq.running, hgone]⟩

theorem Lingers.retire (hq : q.Lingers l) (j : Bool) (id : String) (s : CallStage α) :
    ((q.retire ⟨l.id, j⟩).setCallStage id s).Lingers l where
  running := hq.running
  spared := hq.spared
  told := hq.told
  named := ⟨false, rfl⟩
  loop := by
    obtain ⟨m, hm, hbecomes⟩ := hq.loop
    refine ⟨_, List.mem_map_of_mem hm, ?_⟩
    split
    · exact hbecomes.trans m.stays_cancelled.toBecomes
    · exact hbecomes

/-- The loop lingers on when its task is discarded. -/
theorem Lingers.discard (hq : q.Lingers l) (h : q.Consistent) (hm : m ∈ q.loops)
    (hal : m.hasEnded = false) : (q.discard m.id).Lingers l where
  running := hq.running
  spared := hq.spared
  told := hq.told
  named := hq.named
  loop := by
    obtain ⟨k, hk, hbecomes⟩ := hq.loop
    obtain ⟨k', hk', hbecomes'⟩ := (loopsFollow_discard h hm hal).kept k hk
    exact ⟨k', hk', hbecomes.trans hbecomes'⟩

/-- The loop that has come further lingers on. -/
theorem Lingers.goesOn (hq : q.Lingers l) (hl : l.Becomes m) (hm : m ∈ (q.withLoop m).loops)
    (n d : Nat) :
    Lingers { q.withLoop m with emptyPolls := n, delayMillis := d } l where
  running := hq.running
  spared := hq.spared
  told := hq.told
  named := hq.named
  loop := ⟨m, hm, hl⟩

/-- The poller that the loop of a waiter leaves behind when it ends and nobody listens. -/
theorem ended_of_nobody (hnobody : q.listener? m = none) (spared : q.stopRequested = false)
    (e : Ending α) :
    (q.ended m e).calls = q.calls ∧
      (q.ended m e).phase = (if e.stops then .stopped else .idle) ∧
      (q.ended m e).parked = (e.payloads.head?).or q.parked ∧
      ∀ f, e = .failed f → (q.ended m e).failure = some f := by
  refine ⟨?_, ?_, ?_, ?_⟩
  · simp [ended, answering, hnobody]
  · simp [ended, spared]
  · cases e <;> simp [ended, parking, hnobody, Ending.payloads]
  · rintro f rfl
    simp [ended, keeping, hnobody]

/-- No other loop moves than the one that lingers. -/
theorem Lingers.mover (hq : q.Lingers l) (h : q.Sound) (hm : m ∈ q.loops)
    (hmove : q.LoopMove m es r) : l.Becomes m ∧ l.runs = true := by
  obtain ⟨j, hj⟩ := hq.named
  obtain ⟨j', hj'⟩ := h.alive m hm hmove.alive
  have hbecomes := hq.eq_of_id h.toConsistent hm
    (congrArg Attachment.loop (Option.some.inj (hj'.symm.trans hj)))
  exact ⟨hbecomes, hbecomes.ran (hmove.ran h.toConsistent hm)⟩

/-- The loop that ends because it was asked to leaves nothing behind. -/
theorem Lingers.vacant (hq : q.Lingers l) (h : q.Sound) (hm : m ∈ q.loops)
    (hal : m.hasEnded = false) (hnobody : q.listener? m = none)
    (calls : q.calls = [⟨id, runs, s⟩]) (stands : s.standsBy l.id = true) {e : Ending α}
    (asked : e = .cancelled ∨ e = .abandoned) (k : Loop α) (n d : Nat) :
    Vacant { (q.ended m e).withLoop k with payloadPolls := n, delayMillis := d } l id runs := by
  obtain ⟨hcalls, hphase, hleft, -⟩ := ended_of_nobody hnobody hq.spared e
  have hparked := h.parked_of_alive hm hal
  refine ⟨?_, hq.usable h.toConsistent, ?_, ?_, rfl, s, hcalls.trans calls, stands⟩
  · exact hphase.trans (by rcases asked with rfl | rfl <;> rfl)
  · show q.keeping m e = none
    rcases asked with rfl | rfl <;> simp [keeping, hq.told]
  · exact hleft.trans (by rcases asked with rfl | rfl <;> simp [Ending.payloads, hparked])

/-- The loop that lingers goes on, or it ends and leaves what it has found, if that is anything. -/
theorem Takeover.loop (hdone : (p.withWait id runs).perform? cues = some (tr, q)) (h : q.Sound)
    (hbare : q.WaitersBare) {w : String} (hw : l.consumer = .waiter w) (hne : w ≠ id)
    (vain : ∀ o ∈ tr, o.IsVain l) (calls : q.calls = [⟨id, runs, s⟩])
    (stands : s.standsBy l.id = true) (started : q.started = p.started) (hq : q.Lingers l)
    {own : LoopCue α} (calm : own.shown? ≠ some true) (hm : m ∈ q.loops)
    (hact : q.loopAct? m own = some (es, r)) :
    p.Takeover l id runs (cues ++ [.loop m.id own]) (tr ++ es) r := by
  have hcue : q.act? (.loop m.id own) = some (es, r) := by simp [act?, h.loop?_of_mem hm, hact]
  have hmove := loopMove_of_loopAct? hact
  obtain ⟨hbecomes, ran⟩ := hq.mover h hm hmove
  have hcons : m.consumer = .waiter w := hbecomes.consumer.trans hw
  have hnobody := listener?_of_gone hcons (ne_of_alone calls hne)
  have hplace : ∀ {k : Loop α}, m.SameTask k → k ∈ (q.withLoop k).loops := fun same =>
    List.mem_map.2 ⟨m, hm, if_pos same.id.symm⟩
  cases waiterEffect_of_loopAct? h.toConsistent hm hcons (hbare m hm w hcons) hact with
  | @goesOn k es n d same bare idle =>
    rw [hbecomes.id] at idle
    have hlater := same.becomes fun hend => by simp [hmove.alive] at hend
    exact .lingers (List.forall_mem_append.2
      ⟨vain, fun o ho => Occurrence.isVain_of_idle ran (idle o ho)⟩) calls stands started
      (hq.goesOn (hbecomes.trans hlater) (hplace same) n d)
  | @ends k e es n d same bare closes =>
    obtain ⟨hcalls, hphase, hleft, hfailed⟩ := ended_of_nobody hnobody hq.spared e
    -- Its task has run to the end.
    have hran : ∃ k' ∈ (q.withLoop k).loops, k'.id = l.id ∧ k'.runs = true :=
      ⟨k, hplace same, same.id.trans hbecomes.id, same.runs.trans (hmove.ran h.toConsistent hm)⟩
    have hvacated : (e = .cancelled ∨ e = .abandoned) → es = [] →
        p.Takeover l id runs (cues ++ [.loop m.id own]) (tr ++ es)
          { (q.ended m e).withLoop k with payloadPolls := n, delayMillis := d } := by
      intro asked hes
      have hvacant := hq.vacant h hm hmove.alive hnobody calls stands asked k n d
      subst hes
      rw [← List.append_nil (tr ++ []), ← List.append_nil (cues ++ _)]
      refine .vacated ?_ (by simpa using vain) (perform?_snoc hdone hcue) hvacant started rfl
      exact hran
    cases closes with
    | cancelled => exact hvacated (.inl rfl) rfl
    | abandoned => exact hvacated (.inr rfl) rfl
    | signalled raised => exact absurd raised calm
    | @delivered y =>
      rw [hbecomes.id]
      refine .offers hran (r := .ok (.payload y)) rfl vain (by simp) (hcalls.trans calls) stands
        started rfl (hq.usable h.toConsistent) (.payload hphase hleft ?_)
      show q.keeping m (.delivered y) = none
      simp [keeping, hq.told]
    | @failed f =>
      rw [hbecomes.id]
      exact .offers hran (r := .error f) rfl vain (fun o ho => workOf?_of_mem_failing ho)
        (hcalls.trans calls) stands started rfl (hq.usable h.toConsistent)
        (.failure hphase (hfailed f rfl))

/-- A wait that stands by a loop that has left nobody a panic: it goes on to look, once the loop is
gone, or it looks. -/
theorem standing_cases {i : Nat} (stands : s.standsBy i = true) (quiet : q.panicOf? i = none)
    (hact : q.callAct? runtime ⟨id, runs, s⟩ = some (es, r)) :
    (es = [] ∧ r = q.setCallStage id .entering) ∨ s.isWait = true := by
  rcases CallStage.standsBy_iff.1 stands with wait | rfl
  · exact .inr wait
  · rw [callAct?_of_joining rfl quiet] at hact
    split at hact
    · cases hact
      exact .inl ⟨rfl, rfl⟩
    · cases hact

/-- While the loop is named, a wait that moves asks it to end, or looks again. -/
theorem Takeover.resume (h : q.Sound) (quiet : q.panicOf? l.id = none) {w : String}
    (hw : l.consumer = .waiter w) (hne : w ≠ id) (vain : ∀ o ∈ tr, o.IsVain l)
    (calls : q.calls = [⟨id, runs, s⟩]) (stands : s.standsBy l.id = true)
    (started : q.started = p.started) (hq : q.Lingers l)
    (hact : q.callAct? runtime ⟨id, runs, s⟩ = some (es, r)) :
    p.Takeover l id runs cues (tr ++ es) r := by
  rcases standing_cases stands quiet hact with ⟨rfl, rfl⟩ | wait
  · exact .lingers (by simpa using vain) (setCallStage_of_alone calls .entering) rfl started
      ⟨hq.running, hq.spared, hq.told, hq.named, hq.loop⟩
  · obtain ⟨j, henter⟩ :=
      hq.enter h.toConsistent hw (ne_of_alone calls hne) runtime ⟨id, runs, s⟩
    rw [callAct?_of_goesOn wait henter] at hact
    cases hact
    refine .lingers (by simpa using vain)
      (setCallStage_of_alone (p := q.retire ⟨l.id, j⟩) calls _) ?_ started (hq.retire j id _)
    cases j
    · rfl
    · exact CallStage.standsBy_iff.2 (.inr rfl)

/-! ### When the loop has ended -/

/-- A wait that looks gets what the poller offers. -/
theorem Offers.enter (hq : q.Offers x) (usable : q.disposed = false) (runtime : Bool)
    (c : Call α) :
    ∃ u : Poller α, q.enter runtime c = (u, .returned x) ∧ u.calls = q.calls ∧
      u.loops = q.loops ∧ u.started = q.started ∧ u.current = q.current ∧
      ∀ e, x = .error e → u.phase = .stopped := by
  cases hq with
  | payload phase parked told =>
    exact ⟨_, enter_of_idle usable told phase parked runtime c, rfl, rfl, rfl, rfl, by simp⟩
  | failure phase pending =>
    exact ⟨_, enter_of_failure usable pending, rfl, rfl, rfl, rfl, fun _ _ => phase⟩

/-- What a poller offers does not hang on where the calls and the loops stand. -/
theorem Offers.mono (hq : q.Offers x) (phase : r.phase = q.phase) (parked : r.parked = q.parked)
    (told : r.failure = q.failure) : r.Offers x := by
  cases hq with
  | payload phase' parked' told' =>
    exact .payload (phase.trans phase') (parked.trans parked') (told.trans told')
  | failure phase' pending => exact .failure (phase.trans phase') (told.trans pending)

/-- One step of a takeover. -/
theorem Takeover.act (ht : p.Takeover l id runs cues tr q)
    (hdone : (p.withWait id runs).perform? cues = some (tr, q)) (hq : q.Reachable) {w : String}
    (hw : l.consumer = .waiter w) (hne : w ≠ id) (hl : ∃ m ∈ q.loops, l.Becomes m) {cue : Cue α}
    (calm : cue.isCalm = true) (hact : q.act? cue = some (es, r)) :
    p.Takeover l id runs (cues ++ [cue]) (tr ++ es) r := by
  have h := hq.sound
  -- The loop has left nobody a panic, whether it has ended or not.
  have quiet : q.panicOf? l.id = none := by
    obtain ⟨m, hm, hbecomes⟩ := hl
    rw [← hbecomes.id]
    exact panicOf?_of_bare h.toConsistent hm (hq.waitersBare m hm w (hbecomes.consumer.trans hw))
  -- Without an attachment there is no loop that could move, and no task to discard.
  have hnobody : q.current = none → (∀ i own, cue ≠ .loop i own) ∧ ∀ i, cue ≠ .discard i := by
    refine fun hnone => ⟨?_, ?_⟩
    · rintro i own rfl
      obtain ⟨k, hk, hown⟩ := Option.bind_eq_some_iff.1 hact
      have hend := h.hasEnded_of_current hnone (loop?_eq_some hk).1
      rw [(loopMove_of_loopAct? hown).alive] at hend
      cases hend
    · rintro i rfl
      obtain ⟨k, hk, -, waits, -⟩ := discard_of_act? hact
      have hend := h.hasEnded_of_current hnone hk
      rw [Stage.alive_of_awaits waits] at hend
      cases hend
  have halone : ∀ {s : CallStage α}, q.calls = [⟨id, runs, s⟩] → ∀ {name runtime},
      (q.call? name).bind (q.callAct? runtime) = some (es, r) →
        q.callAct? runtime ⟨id, runs, s⟩ = some (es, r) := by
    intro s calls name runtime hcall
    obtain ⟨c, hc, hmove⟩ := Option.bind_eq_some_iff.1 hcall
    have hmem := (call?_eq_some hc).1
    rw [calls] at hmem
    rwa [List.mem_singleton.1 hmem] at hmove
  cases ht with
  | lingers vain calls stands started lingers =>
    cases cue with
    | loop i own =>
      obtain ⟨k, hk, hown⟩ := Option.bind_eq_some_iff.1 hact
      obtain ⟨hmem, rfl⟩ := loop?_eq_some hk
      exact Takeover.loop hdone h hq.waitersBare hw hne vain calls stands started lingers
        (by simpa [Cue.isCalm] using calm) hmem hown
    | resume name runtime =>
      exact Takeover.resume h quiet hw hne vain calls stands started lingers (halone calls hact)
    | discard i =>
      obtain ⟨k, hk, rfl, waits, rfl, rfl⟩ := discard_of_act? hact
      refine .lingers (List.forall_mem_append.2 ⟨vain, ?_⟩) calls stands started
        (lingers.discard h.toConsistent hk (Stage.alive_of_awaits waits))
      exact fun o ho => Occurrence.isVain_of_still (by rw [List.mem_singleton.1 ho]; rfl)
    | _ => cases calm
  | @offers _ before after o x _ s ran result vain still calls stands started current usable
      offers =>
    have hstill : (∀ o ∈ es, o.workOf? = none) → ∀ o ∈ after ++ es, o.workOf? = none :=
      fun hes => List.forall_mem_append.2 ⟨still, hes⟩
    rw [List.append_assoc, List.cons_append]
    cases cue with
    | loop i own => exact absurd rfl ((hnobody current).1 i own)
    | discard i => exact absurd rfl ((hnobody current).2 i)
    | resume name runtime =>
      have hcall := halone calls hact
      rcases standing_cases stands quiet hcall with ⟨rfl, rfl⟩ | wait
      · exact .offers ran result vain (hstill (by simp)) (setCallStage_of_alone calls .entering)
          rfl started current usable (offers.mono rfl rfl rfl)
      · obtain ⟨v, henter, hcalls, hloops, hstarted, hcurrent, hphase⟩ :=
          offers.enter usable runtime ⟨id, runs, s⟩
        rw [callAct?_of_returned wait henter] at hcall
        cases hcall
        rw [← hloops] at ran
        exact .returned ran result vain (hstill (by simp [Occurrence.workOf?]))
          (dropCall_of_alone (hcalls.trans calls)) (hstarted.trans started)
          (hcurrent.trans current) hphase (by simp)
    | _ => cases calm
  | @returned _ before after o x _ ran result vain still calls started current phase told =>
    have hstill : (∀ o ∈ es, o.workOf? = none) → ∀ o ∈ after ++ es, o.workOf? = none :=
      fun hes => List.forall_mem_append.2 ⟨still, hes⟩
    rw [List.append_assoc, List.cons_append]
    cases cue with
    | loop i own => exact absurd rfl ((hnobody current).1 i own)
    | discard i => exact absurd rfl ((hnobody current).2 i)
    | resume name runtime => simp [act?, call?, calls] at hact
    | _ => cases calm
  | vacated ran vain done vacant started goesOn =>
    rw [List.append_assoc, List.append_assoc]
    exact .vacated ran vain done vacant started (perform?_snoc goesOn hact)

/-- A takeover goes on for as long as nothing is asked of the poller and no signal is shown. -/
theorem Takeover.perform (hp : (p.withWait id runs).Reachable) (hl : l ∈ p.loops) {w : String}
    (hw : l.consumer = .waiter w) (hne : w ≠ id) (ht : p.Takeover l id runs cues tr q)
    (hdone : (p.withWait id runs).perform? cues = some (tr, q)) {rest : List (Cue α)}
    (calm : ∀ cue ∈ rest, cue.isCalm = true) {ts : List (Occurrence α)}
    (hrest : q.perform? rest = some (ts, r)) :
    p.Takeover l id runs (cues ++ rest) (tr ++ ts) r := by
  -- On the cues that are still to come, so that the takeover so far may be any.
  induction rest generalizing cues tr q ts with
  | nil =>
    cases hrest
    simpa using ht
  | cons cue rest ih =>
    obtain ⟨⟨es, u⟩, hact, hlater⟩ := Option.bind_eq_some_iff.1 hrest
    obtain ⟨⟨ts, u'⟩, hperform, hpair⟩ := Option.map_eq_some_iff.1 hlater
    cases hpair
    have hrun := run_of_perform? cues hdone
    obtain ⟨m, hm, hbecomes⟩ := hrun.kept hp.sound (l := l) hl
    have hstep := ht.act hdone (hp.run hrun) hw hne ⟨m, hm, hbecomes⟩
      (calm cue List.mem_cons_self) hact
    have hall := ih hstep (perform?_snoc hdone hact)
      (fun cue hcue => calm cue (List.mem_cons_of_mem _ hcue)) hperform
    simpa using hall

theorem Deserted.reachable_withWait (hp : p.Deserted l)
    (fresh : ∀ k ∈ p.loops, k.consumer ≠ .waiter id) : (p.withWait id runs).Reachable := by
  have hcall : p.withWait id runs = { p with calls := p.calls ++ [⟨id, runs, .entering⟩] } := by
    simp [withWait, hp.alone]
  rw [hcall]
  exact hp.held.reachable.run (.single (.call rfl (by simp [hp.alone]) fresh))

theorem Deserted.exists_waiter (hp : p.Deserted l)
    (fresh : ∀ k ∈ p.loops, k.consumer ≠ .waiter id) : ∃ w, l.consumer = .waiter w ∧ w ≠ id := by
  obtain ⟨w, hw⟩ := hp.waiter
  exact ⟨w, hw, fun hid => fresh l hp.mem (hid ▸ hw)⟩

/-- Nobody has asked for a stop, and the life cycle names the loop. -/
theorem Deserted.lingers (hp : p.Deserted l) (id : String) (runs : Bool) :
    (p.withWait id runs).Lingers l where
  running := hp.running
  spared := by
    obtain ⟨j, hj⟩ := hp.named
    have hphase := hp.held.determined
    rw [Determined, hp.running, hj] at hphase
    cases hs : p.stopRequested with
    | false => exact hs
    | true => simp [hs, Phase.of] at hphase
  told := hp.told
  named := hp.named
  loop := ⟨l, hp.mem, .refl l⟩

/-- Where a takeover stands after any moves. -/
theorem Deserted.takeover (hp : p.Deserted l) (fresh : ∀ k ∈ p.loops, k.consumer ≠ .waiter id)
    (calm : ∀ cue ∈ cues, cue.isCalm = true)
    (hdone : (p.withWait id runs).perform? cues = some (tr, q)) :
    p.Takeover l id runs cues tr q := by
  obtain ⟨w, hw, hne⟩ := hp.exists_waiter fresh
  have hfirst : p.Takeover l id runs [] [] (p.withWait id runs) :=
    .lingers (by simp) rfl rfl rfl (hp.lingers id runs)
  exact Takeover.perform (hp.reachable_withWait fresh) hp.mem hw hne hfirst rfl calm hdone

end Poller

end Polling
