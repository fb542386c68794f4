import Mathlib
import Polling.Proofs.Counters
import Polling.Proofs.Paces

/-!
# How far a poller can get by itself

`Poller.effort` is a bound on the moves that the tasks of a poller make before they have to wait.
Each move takes something off it (`effort_of_loopAct?`, `effort_of_callAct?`), with two exceptions:
a poll that brings a payload puts something on it, and a call that goes round in circles leaves it
as it is.  There is a bound because a loop pauses after the second empty poll at the latest, however
short the first pause is (`Backoff.isZero_advance`), and because a wait has one loop of another
waiter to retire before it has its own.
-/

namespace Polling

variable {α : Type}

/-- Of two sums over a list of things with different keys that differ in one term. -/
theorem sum_map_add {β κ : Type} {key : β → κ} {xs : List β} (unique : (xs.map key).Nodup) {x : β}
    (hx : x ∈ xs) {f g : β → Nat} (other : ∀ y ∈ xs, key y ≠ key x → g y = f y) :
    (xs.map g).sum + f x = (xs.map f).sum + g x := by
  induction xs with
  | nil => cases hx
  | cons y xs ih =>
    obtain ⟨hnew, hunique⟩ := List.nodup_cons.1 unique
    simp only [List.map_cons, List.sum_cons]
    rcases List.mem_cons.1 hx with rfl | hmem
    · have hrest : xs.map g = xs.map f := List.map_congr_left fun z hz =>
        other z (List.mem_cons_of_mem _ hz) fun heq => hnew (heq ▸ List.mem_map_of_mem hz)
      rw [hrest]
      omega
    · have hy : g y = f y := other y List.mem_cons_self fun heq =>
        hnew (heq ▸ List.mem_map_of_mem hmem)
      have hrest := ih hunique hmem fun z hz => other z (List.mem_cons_of_mem _ hz)
      omega

theorem sum_map_filter {β : Type} (q : β → Bool) (f : β → Nat) (xs : List β) :
    ((xs.filter q).map f).sum = (xs.map fun x => if q x then f x else 0).sum := by
  induction xs with
  | nil => rfl
  | cons x xs ih => cases hx : q x <;> simp [hx, ih]

/-- A pause that has grown takes time. -/
theorem Backoff.isZero_advance {b : Backoff} (usable : b.pacing.flaw? = none) :
    b.advance.current.isZero = false := by
  obtain ⟨hlongest, -, hincrement, -⟩ := Pacing.flaw?_eq_none_iff.1 usable
  have hgrows := b.increment_le_advance
  simp only [Duration.isZero, beq_eq_false_iff_ne, Duration.le_def, Duration.nanos_min,
    Duration.nanos_add, Duration.maxNanos] at *
  omega

/-- Whether a poll came back with a payload. -/
def Occurrence.isPayloadPoll : Occurrence α → Bool
  | polled _ (.ok (.payload _)) => true
  | _ => false

/-- The most moves that a loop which stands here makes before it has to wait, if its next poll
brings no payload.  It pauses after that poll, or after the one that comes next. -/
def Stage.effort (pauses : Bool) (now : Nat) : Stage α → Nat
  | .ended _ => 0
  -- A pause that is not over may be cut short, and then the loop ends.
  | .asleep _ due => if now < due then 1 else 5
  -- Where the pause is of no length, the loop checks, queues and polls once more.
  | .polling _ _ => if pauses then 2 else 6
  | .queued => if pauses then 3 else 7
  | .checking => if pauses then 4 else 8
  | .yielded => 5
  | .calling _ _ => 9
  | .handing _ => 10
  | .spawned _ => 11

namespace Loop

variable {now : Nat} {l k : Loop α} {bs : List Beat}

/-- The effort of a loop.  As long as nobody has asked it to end, a call may move to do so. -/
def effort (now : Nat) (l : Loop α) : Nat :=
  l.stage.effort (!l.backoff.current.isZero) now + (!l.cancelled).toNat

/-- A loop that is asked to end has no more to do than before. -/
theorem effort_cancelled (now : Nat) (l : Loop α) :
    ({ l with cancelled := true } : Loop α).effort now + (!l.cancelled).toNat = l.effort now := by
  simp [effort]

/-- A loop that has not ended has something left to do. -/
theorem effort_pos (alive : l.hasEnded = false) (pauses : Bool) (now : Nat) :
    0 < l.stage.effort pauses now := by
  cases stage : l.stage with
  | ended => simp [hasEnded, stage] at alive
  | asleep | polling | queued | checking =>
    simp only [Stage.effort]
    split <;> omega
  | _ => simp [Stage.effort]

/-- A loop that has ended has nothing left to do. -/
theorem effort_ended (ended : k.hasEnded = true) (pauses : Bool) (now : Nat) :
    k.stage.effort pauses now = 0 := by
  unfold hasEnded at ended
  split at ended
  · next stage => rw [stage, Stage.effort]
  · cases ended

/-- A loop has less to do after each move, unless its poll has brought a payload. -/
theorem Paces.effort_lt (h : l.Paces now k bs) (alive : l.hasEnded = false)
    (same : k.cancelled = l.cancelled) (usable : l.backoff.pacing.flaw? = none) :
    k.effort now < l.effort now + 9 * bs.count .payload := by
  have hgrown := Backoff.isZero_advance usable
  simp only [effort, same]
  have hstage : k.stage.effort (!k.backoff.current.isZero) now <
      l.stage.effort (!l.backoff.current.isZero) now + 9 * bs.count .payload := by
    cases h with
    | ends _ ended | delivers _ ended =>
      rw [effort_ended ended]
      exact Nat.lt_of_lt_of_le (effort_pos alive _ now) (Nat.le_add_right _ _)
    | sleeps stage next same some =>
      -- The pause lasts, so the loop has to wait.
      have hlater := Duration.timer_pos some
      simp [stage, next, some, Stage.effort, hlater]
    | yields stage next same none => simp [stage, next, none, Stage.effort]
    | resumes stage next advanced =>
      simp [stage, next, advanced, hgrown, Stage.effort]
    | wakes stage passed next advanced =>
      simp [stage, next, advanced, hgrown, Stage.effort, Nat.not_lt.2 passed]
    | hands stage next =>
      simp only [stage, next, Stage.effort, List.count_singleton_self]
      split <;> omega
    | redelivers stage next | calls stage next => simp [stage, next, Stage.effort]
    | begins stage next same | queues stage next same | polls stage next same
      | returns stage next same =>
      simp only [stage, next, same, Stage.effort]
      split <;> omega
  omega

/-- A loop that has not ended keeps to its pacing. -/
theorem Paces.pacing (h : l.Paces now k bs) (alive : k.hasEnded = false) :
    k.backoff.pacing = l.backoff.pacing := by
  cases h with
  | ends _ ended | delivers _ ended =>
    rw [ended] at alive
    cases alive
  | hands _ _ same | resumes _ _ same | wakes _ _ _ same => rw [same]; rfl
  | begins _ _ same | redelivers _ _ same | queues _ _ same | polls _ _ same | yields _ _ same
    | sleeps _ _ same | calls _ _ same | returns _ _ same => rw [same]

end Loop

/-- The effort of a call that stands here.  A wait may start a loop of its own, and before that it
may retire one. -/
def CallStage.effort : CallStage α → Nat
  -- The loop that a wait starts comes to 15, and the wait has to return after that.
  | .joining _ .reenter => 19
  | .entering => 18
  | .yielded => 17
  | _ => 1

theorem CallStage.effort_pos (s : CallStage α) : 0 < s.effort := by
  unfold effort
  split <;> omega

theorem CallStage.effort_of_isWait {s : CallStage α} (h : s.isWait = true) : 17 ≤ s.effort := by
  cases s <;> simp_all [isWait, effort]

/-- The effort of a call after a move. -/
def Verdict.effort : Verdict α → Nat
  | .returned _ => 0
  | .goesOn stage => stage.effort

/-- The effort that comes with a loop that can be joined, which a wait may do to enter again. -/
def Attachment.effort (a : Attachment) : Nat := if a.joinable then 3 else 0

namespace Poller

/-- The effort of the loops of a poller. -/
def loopEffort (p : Poller α) (now : Nat) : Nat :=
  (p.loops.map (Loop.effort now)).sum + p.current.elim 0 Attachment.effort

/-- The effort of all tasks of a poller. -/
def effort (p : Poller α) (now : Nat) : Nat :=
  p.loopEffort now + (p.calls.map fun c => c.stage.effort).sum

variable {p q : Poller α} {l : Loop α} {c : Call α} {es : List (Occurrence α)} {now : Nat}

theorem effort_setCallStage (now : Nat) (unique : (p.calls.map Call.id).Nodup) (hc : c ∈ p.calls)
    (stage : CallStage α) :
    (p.setCallStage c.id stage).effort now + c.stage.effort = p.effort now + stage.effort := by
  have hsum := sum_map_add unique hc (f := fun d => d.stage.effort)
    (g := fun d => (if d.id = c.id then { d with stage } else d).stage.effort)
    fun d _ hne => by rw [if_neg hne]
  simp only [if_true] at hsum
  simp only [effort, loopEffort, setCallStage, List.map_map, Function.comp_def]
  omega

theorem effort_dropCall (now : Nat) (unique : (p.calls.map Call.id).Nodup) (hc : c ∈ p.calls) :
    (p.dropCall c.id).effort now + c.stage.effort = p.effort now := by
  have hsum := sum_map_add unique hc (f := fun d => d.stage.effort)
    (g := fun d => if decide (d.id ≠ c.id) then d.stage.effort else 0) fun d _ hne => by simp [hne]
  simp only [← sum_map_filter, ne_eq, not_true_eq_false, decide_false, Bool.false_eq_true,
    if_false] at hsum
  simp only [effort, loopEffort, dropCall, ne_eq]
  omega

/-- One loop is changed. -/
theorem sum_updateLoop (now : Nat) (h : p.Consistent) (hl : l ∈ p.loops) (f : Loop α → Loop α) :
    ((p.updateLoop l.id f).loops.map (Loop.effort now)).sum + l.effort now =
      (p.loops.map (Loop.effort now)).sum + (f l).effort now := by
  have hsum := sum_map_add h.ids hl (f := Loop.effort now)
    (g := fun k => (if k.id = l.id then f k else k).effort now) fun k _ hne => by rw [if_neg hne]
  simp only [if_true] at hsum
  simp only [updateLoop, List.map_map, Function.comp_def]
  exact hsum

/-- Whoever retires the loop that the life cycle names takes it off the effort that somebody might
ask it to end, or join it. -/
theorem loopEffort_retire (now : Nat) (h : p.Consistent) (hl : l ∈ p.loops) {j : Bool}
    (hcurrent : p.current = some ⟨l.id, j⟩) :
    (p.retire ⟨l.id, j⟩).loopEffort now + (!l.cancelled).toNat + (if j then 3 else 0) =
      p.loopEffort now := by
  have hsum := sum_updateLoop now h hl fun k => { k with cancelled := true }
  have hcancelled := l.effort_cancelled now
  have hnone : (p.retire ⟨l.id, j⟩).loopEffort now =
      ((p.cancelLoop l.id).loops.map (Loop.effort now)).sum := rfl
  rw [hnone, loopEffort, hcurrent, Option.elim_some, Attachment.effort]
  simp only [cancelLoop]
  omega

/-- A loop that ends leaves the effort of the calls as it is: the wait that listens has its answer
to return, where it might have had to clear up. -/
theorem sum_answering (h : p.Consistent) (l : Loop α) (e : Ending α) :
    ((p.answering l e).map fun c => c.stage.effort).sum =
      (p.calls.map fun c => c.stage.effort).sum := by
  unfold answering
  split
  · next id r hlistens _ =>
    obtain ⟨-, d, hd, rfl, hstage⟩ := listener?_eq_some hlistens
    rw [List.map_map]
    congr 1
    refine List.map_congr_left fun c hc => ?_
    simp only [Function.comp_apply]
    split
    · next hid =>
      obtain rfl := h.eq_of_callId hd hc hid
      rw [hstage]
      rfl
    · rfl
  · rfl

/-- A loop that moves leaves the calls with no more to do than before. -/
theorem LoopEffect.rest_le (h : p.Consistent) (heffect : p.LoopEffect l es q) :
    q.current.elim 0 Attachment.effort + (q.calls.map fun c => c.stage.effort).sum ≤
      p.current.elim 0 Attachment.effort + (p.calls.map fun c => c.stage.effort).sum := by
  cases heffect with
  | goesOn => exact Nat.le_refl _
  | ends =>
    have hcalls := sum_answering h l ‹_›
    show 0 + ((p.answering l _).map fun c => c.stage.effort).sum ≤ _
    omega

theorem isPayloadPoll_of_beat? {o : Occurrence α} {i : Nat} (h : o.beat? i = some .payload) :
    o.isPayloadPoll = true := by
  unfold Occurrence.beat? at h
  split at h
  · split at h <;> cases h
  · rfl
  · split at h <;> cases h
  · cases h

theorem count_beats_le (i : Nat) (es : List (Occurrence α)) :
    (es.filterMap (Occurrence.beat? i)).count .payload ≤ es.countP Occurrence.isPayloadPoll := by
  rw [List.count, List.countP_filterMap]
  refine List.countP_mono_left fun o _ ho => isPayloadPoll_of_beat? (i := i) ?_
  cases hbeat : o.beat? i <;> simp_all

/-- A poller has less to do after each move of a loop, unless a poll has brought a payload. -/
theorem effort_of_loopAct? (h : p.Sound) (hl : l ∈ p.loops)
    (usable : l.backoff.pacing.flaw? = none) {own : LoopCue α}
    (hact : p.loopAct? l own = some (es, q)) (hnow : ∀ shown, own.now? = some shown → shown = now) :
    q.effort now < p.effort now + 9 * es.countP Occurrence.isPayloadPoll := by
  have hmove := loopMove_of_loopAct? hact
  have hrest := (hmove.effect h.toConsistent hl).rest_le h.toConsistent
  obtain ⟨f, hloops, -, hsame, hpaces⟩ := paces_of_loopAct? hact hnow
  have hloop := hpaces.effort_lt hmove.alive hsame usable
  have hsum := sum_updateLoop now h.toConsistent hl f
  have hcount := count_beats_le l.id es
  simp only [effort, loopEffort, hloops]
  omega

/-- A wait lets the other tasks run only while the poller is running. -/
theorem running_of_yields {runtime : Bool} (hm : p.enter runtime c = (q, .goesOn .yielded)) :
    p.disposed = false ∧ p.phase = .running := by
  cases hd : p.disposed with
  | true => simp [enter, screen, hd] at hm
  | false =>
    cases hf : p.failure with
    | some f => simp [enter, screen, hd, hf] at hm
    | none =>
      simp only [enter, screen, hd, hf, Bool.false_eq_true, if_false] at hm
      cases hp : p.phase with
      | running => exact ⟨rfl, rfl⟩
      | stopping | stopped => simp [hp] at hm
      | idle =>
        simp only [hp] at hm
        split at hm
        · simp at hm
        · split at hm <;> simp at hm

/-- A wait that looks again and does not circle asks the loop to end, which nobody has done yet. -/
theorem uncancelled_of_yields (h : p.Consistent) {runtime : Bool} {a : Attachment}
    (hm : p.moveCall runtime c = (q, .goesOn .yielded)) (stage : c.stage = .yielded)
    (gone : p.abandoned? = some a) (told : p.failure = none) (joined : a.joinable = false)
    (hnot : p.circles c = false) (hl : l ∈ p.loops) (hid : l.id = a.loop) :
    l.cancelled = false := by
  simp only [moveCall, stage] at hm
  obtain ⟨usable, running⟩ := running_of_yields hm
  cases hc : l.cancelled with
  | false => rfl
  | true =>
    have hall : (p.loops.all fun k => k.id != a.loop || k.cancelled) = true := by
      refine List.all_eq_true.2 fun k hk => ?_
      by_cases hkid : k.id = a.loop
      · rw [h.eq_of_id hl hk (hkid.trans hid.symm)]
        simp [hc]
      · simp [hkid]
    simp [circles, stage, gone, usable, told, running, joined, hall] at hnot

/-- What a move of a call takes off its own effort is more than it puts on that of the loops. -/
theorem loopEffort_of_moveCall (now : Nat) (h : p.Sound) (hc : c ∈ p.calls) {runtime : Bool}
    {v : Verdict α} (hm : p.moveCall runtime c = (q, v)) (hnot : p.circles c = false) :
    q.loopEffort now + v.effort < p.loopEffort now + c.stage.effort := by
  have hpos := c.stage.effort_pos
  cases callEffect_of_moveCall h hc hm with
  -- The call returns, and leaves the loops as they are.
  | refused | collects | late | unparks | closed | answered => exact Nat.add_lt_add_left hpos _
  | leaves | reports =>
    rw [absorb_eq]
    exact Nat.add_lt_add_left hpos _
  | reenters stage =>
    rw [absorb_eq, stage]
    exact Nat.lt_succ_self _
  | starts wait =>
    -- The new loop can be asked to end, and it can be joined.
    have hnew : (p.startLoop (.waiter c.id) ⟨[], {}⟩ c.runs none).loopEffort now =
        (p.loops.map (Loop.effort now)).sum + 15 := by
      simp [loopEffort, startLoop, Loop.effort, Stage.effort, Attachment.effort]
    have hwait := CallStage.effort_of_isWait wait
    rw [hnew, loopEffort]
    show _ + 1 < _
    omega
  | @replaces a wait current told gone =>
    obtain ⟨i, j⟩ := a
    obtain ⟨l, hl, rfl, -⟩ := h.attached _ current
    have hretire := loopEffort_retire now h.toConsistent hl current
    cases j with
    | true =>
      -- The wait joins the loop, and what could be joined pays for entering again.
      have hwait := CallStage.effort_of_isWait wait
      show _ + 19 < _
      rw [if_pos rfl] at hretire
      omega
    | false =>
      show _ + 17 < _
      -- The wait looks again.  If it has done so before, it has asked the loop to end just now.
      cases stage : c.stage with
      | yielded =>
        have hnew := uncancelled_of_yields h.toConsistent hm stage gone told rfl hnot hl rfl
        rw [hnew] at hretire
        show _ < _ + 17
        exact Nat.add_lt_add_right (hretire ▸ Nat.lt_succ_self _) 17
      | entering =>
        show _ < _ + 18
        omega
      | _ => simp [CallStage.isWait, stage] at wait
  | @unsubscribes a subscription stage consumer current =>
    obtain ⟨i, j⟩ := a
    obtain ⟨l, hl, rfl, -⟩ := h.attached _ current
    have hretire := loopEffort_retire now h.toConsistent hl current
    rw [stage]
    show _ < _ + 1
    cases j with
    | true =>
      show _ + 1 < _
      rw [if_pos rfl] at hretire
      omega
    | false =>
      show _ + 0 < _
      omega
  | closes stage current | clears stage current =>
    rw [stage, loopEffort, loopEffort, current]
    show (p.loops.map (Loop.effort now)).sum + 0 + 1 < _ + 3 + 1
    omega
  | cleared stage current =>
    rw [stage, loopEffort, loopEffort, current]
    show (p.loops.map (Loop.effort now)).sum + 0 + 0 < _ + 0 + 1
    omega

/-- A poller has less to do after each move of a call that does not go round in circles. -/
theorem effort_of_callAct? (now : Nat) (h : p.Sound) (hc : c ∈ p.calls) {runtime : Bool}
    (hact : p.callAct? runtime c = some (es, q)) (hnot : p.circles c = false) :
    q.effort now < p.effort now := by
  have hmove : ∀ r v, p.moveCall runtime c = (r, v) →
      r.calls = p.calls ∧ r.effort now + v.effort < p.effort now + c.stage.effort := by
    intro r v goes
    have hcalls := (callEffect_of_moveCall h hc goes).calls_eq
    have hloops := loopEffort_of_moveCall now h hc goes hnot
    refine ⟨hcalls, ?_⟩
    rw [effort, effort, hcalls]
    omega
  unfold callAct? at hact
  split at hact
  · split at hact
    · next r stage goes =>
      cases hact
      obtain ⟨hcalls, hless⟩ := hmove r _ goes
      rw [← hcalls] at hc
      have hstage := effort_setCallStage now (hcalls ▸ h.callIds) hc stage
      simp only [Verdict.effort] at hless
      omega
    · next r x goes =>
      cases hact
      obtain ⟨hcalls, hless⟩ := hmove r _ goes
      rw [← hcalls] at hc
      have hdrop := effort_dropCall now (hcalls ▸ h.callIds) hc
      simp only [Verdict.effort] at hless
      omega
  · cases hact

theorem yielded_of_circles (h : p.circles c = true) : c.stage = .yielded := by
  unfold circles at h
  split at h
  · assumption
  · cases h

/-- A call that goes round in circles changes nothing, and nothing is told of it. -/
theorem callAct?_of_circles (h : p.Consistent) (hc : c ∈ p.calls) (hcircles : p.circles c = true)
    (runtime : Bool) : p.callAct? runtime c = some ([], p) := by
  have hstage := yielded_of_circles hcircles
  have hsame : p.setCallStage c.id .yielded = p := by
    have hcalls : (p.calls.map fun d => if d.id = c.id then { d with stage := .yielded } else d) =
        p.calls := by
      refine (List.map_congr_left fun d hd => ?_).trans (List.map_id _)
      split
      · next hid =>
        obtain rfl := h.eq_of_callId hc hd hid
        rw [← hstage]
        rfl
      · rfl
    simp only [setCallStage, hcalls]
  simp only [callAct?, callReady, hstage, if_true, moveCall_of_circles runtime hcircles, noticing,
    hsame]

/-- Whether each loop that has not ended keeps to the pacing of its poller. -/
def Paced (p : Poller α) : Prop :=
  ∀ l ∈ p.loops, l.hasEnded = false → l.backoff.pacing = p.pacing

theorem Move.paced (h : p.Sound) (hp : p.Paced) (hmove : p.Move es q) : q.Paced := by
  intro k hk alive
  rw [(hmove.emptyPolls h).2]
  rcases hmove.origin h hk with ⟨l, hl, hstays⟩ | ⟨l, hl, move, hid⟩ | ⟨hstart, -⟩
  · rw [hstays.backoff]
    exact hp l hl (hstays.lived alive)
  · obtain ⟨own, hact⟩ := move.exists_loopAct?
    have hnow : ∀ shown, own.now? = some shown → shown = own.now?.getD 0 := by simp +contextual
    obtain ⟨f, hq, -, -, hpaces⟩ := paces_of_loopAct? hact hnow
    obtain rfl := h.eq_of_updateLoop hl hq hk hid
    exact (hpaces.pacing alive).trans (hp l hl move.alive)
  · rw [hstart, Backoff.pacing_start]

/-- Every loop that has not ended keeps to the pacing of its poller. -/
theorem Reachable.paced (h : p.Reachable) : p.Paced :=
  (h.preserves (I := fun p => p.Sound ∧ p.Paced)
    (fun name pacing => ⟨sound_idle name pacing, fun l hl => by cases hl⟩)
    fun hp hmove => ⟨hp.1.move hmove, hmove.paced hp.1 hp.2⟩).2

end Poller

end Polling
