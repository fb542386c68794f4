import Polling.Proofs.Counters
import Polling.Proofs.Signalling
import Polling.Proofs.Takeover

/-!
# The wait after a waiter that has gone

What a wait gets that finds the loop of a waiter that has gone (`waiter_is_succeeded`).  It polls
nothing as long as that loop has not ended, and asks it to end, after which the loop begins one poll
at most.  A payload or a failure that the loop still finds is what the wait returns, and the last
thing that is polled.  If the loop finds nothing, it leaves the poller idle, where the wait does
what a new one would do: it starts a loop, which makes the first pause first.

The task of the loop has to run for that.  A wait that finds a loop whose task is discarded never
gets on (`successor_waits_in_vain`).
-/

namespace Polling

variable {α : Type}

/-- Whether a loop has not paused yet. -/
structure Loop.Unpaused (pacing : Pacing) (l : Loop α) : Prop where
  backoff : l.backoff = .start pacing
  yielded : l.stage ≠ .yielded
  asleep : ∀ pause due, l.stage ≠ .asleep pause due

/-- A loop that has not paused yet goes on without a pause unless it finds nothing. -/
theorem Loop.Paces.unpaused {l m : Loop α} {now : Nat} {beats : List Beat} {pacing : Pacing}
    (hpaces : l.Paces now m beats) (none : .empty ∉ beats) (h : l.Unpaused pacing)
    (hal : m.hasEnded = false) : m.Unpaused pacing := by
  cases hpaces with
  | begins _ next same | redelivers _ next same | queues _ next same | polls _ next same
  | calls _ next same | returns _ next same =>
    exact ⟨same.trans h.backoff, by simp [next], by simp [next]⟩
  | hands _ next reset =>
    refine ⟨?_, by simp [next], by simp [next]⟩
    rw [reset, h.backoff, Backoff.reset, Backoff.pacing_start]
  | yields | sleeps => simp at none
  | resumes stage => exact absurd stage h.yielded
  | wakes stage => exact absurd stage (h.asleep _ _)
  | ends _ ended | delivers _ ended =>
    rw [ended] at hal
    cases hal

namespace Poller

variable {p q r u : Poller α} {l m : Loop α} {c : Call α} {es tr : List (Occurrence α)} {i : Nat}
  {id : String} {runs runtime : Bool} {s : CallStage α} {x : CallResult α} {cues : List (Cue α)}

/-- A loop that has ended does not work. -/
theorem Run.idle_of_hasEnded (h : p.Sound) (hrun : Run p tr q) (hl : l ∈ p.loops)
    (hend : l.hasEnded = true) : ∀ o ∈ tr, o.workOf? ≠ some l.id := by
  induction hrun with
  | nil => simp
  | @snoc q r tr es hrun hmove ih =>
    intro o ho hwork
    rcases List.mem_append.1 ho with ho | ho
    · exact ih o ho hwork
    · -- Whoever works in the last move has not ended, and the loop has.
      have hq := h.run hrun
      obtain ⟨m, hm, hbecomes⟩ := hrun.kept h hl
      obtain ⟨k, hk, hid, hal⟩ := hmove.worker hq ho hwork
      rw [hq.eq_of_id hm hk (hid.trans hbecomes.id.symm), hbecomes.ended hend] at hal
      cases hal

/-! ### The first pause -/

/-- Whether the loop of a number has not paused yet, if it has started and has not ended. -/
def Unpaused (p : Poller α) (i : Nat) : Prop :=
  ∀ l ∈ p.loops, l.id = i → l.hasEnded = false → l.Unpaused p.pacing

/-- Whether the loop of a number, which may be yet to start, makes a pause of this length when it
finds nothing for the first time. -/
def FirstPause (p : Poller α) (i : Nat) (d : Duration) : Prop :=
  ∀ tr q, Run p tr q → .polled i (.ok .empty) ∉ tr →
    ∀ now es r, q.act? (.loop i (.endPoll (.ok .empty) now)) = some (es, r) →
      ∃ l ∈ r.loops, l.id = i ∧
        l.stage = if d.isZero then .yielded else .asleep d (now + d.timer)

theorem Move.unpaused (h : p.Sound) (hp : p.Unpaused i) (hmove : p.Move es q)
    (none : .polled i (.ok .empty) ∉ es) : q.Unpaused i := by
  rintro k hk rfl hal
  rw [(hmove.emptyPolls h).2]
  rcases hmove.origin h hk with ⟨l, hl, hstays⟩ | ⟨l, hl, move, hid⟩ | ⟨hstart, b, hs⟩
  · have hl := hp l hl hstays.id.symm (hstays.lived hal)
    have hstage := hstays.stage_eq_of_alive hal
    exact ⟨hstays.backoff.trans hl.backoff, hstage ▸ hl.yielded, hstage ▸ hl.asleep⟩
  · obtain ⟨own, hact⟩ := move.exists_loopAct?
    have hnow : ∀ shown, own.now? = some shown → shown = own.now?.getD 0 := by simp +contextual
    obtain ⟨f, hq, -, -, hpaces⟩ := paces_of_loopAct? hact hnow
    obtain rfl := h.eq_of_updateLoop hl hq hk hid
    refine hpaces.unpaused (fun hempty => none ?_) (hp l hl hid.symm move.alive) hal
    -- The only beat that says that nothing was found is the one of such a poll.
    obtain ⟨o, ho, hbeat⟩ := List.mem_filterMap.1 hempty
    unfold Occurrence.beat? at hbeat
    split at hbeat <;> simp_all
  · exact ⟨hstart, by simp [hs], by simp [hs]⟩

/-- No loop has this number yet. -/
theorem unpaused_next (h : p.Sound) : p.Unpaused (p.started + 1) := by
  intro l hl hid
  have := h.id_le l hl
  omega

theorem Run.unpaused (h : p.Sound) (hp : p.Unpaused i) (hrun : Run p tr q)
    (none : .polled i (.ok .empty) ∉ tr) : q.Unpaused i := by
  induction hrun with
  | nil => exact hp
  | snoc hrun hmove ih =>
    simp only [List.mem_append, not_or] at none
    exact hmove.unpaused (h.run hrun) (ih none.1) none.2

/-- A loop that is yet to start pauses first for as long as the pacing has it. -/
theorem firstPause_of_usable (h : p.Sound) (usable : p.pacing.flaw? = none) :
    p.FirstPause (p.started + 1) p.pacing.initial := by
  intro tr q hrun none now es r hact
  have hunpaused := hrun.unpaused h (unpaused_next h) none
  have hq := h.run hrun
  obtain ⟨m, hm, hown⟩ := Option.bind_eq_some_iff.1 hact
  obtain ⟨hmem, hid⟩ := loop?_eq_some hm
  have hal := (loopMove_of_loopAct? hown).alive
  have hcurrent : m.backoff.current = p.pacing.initial := by
    rw [(hunpaused m hmem hid hal).backoff, (hrun.counters h).2.2]
    exact if_pos (Pacing.initial_le_longest usable)
  have htold : es = [.polled m.id (.ok .empty)] := by
    cases hs : m.stage with
    | polling =>
      simp only [loopAct?, hs, polling, Option.some.injEq, Prod.mk.injEq] at hown
      exact hown.1.symm
    | _ => simp [loopAct?, hs] at hown
  have hmoves : q.Paces m now es r := paces_of_loopAct? hown (by simp [LoopCue.now?])
  obtain ⟨f, hr, same, -, hpaces⟩ := hmoves
  refine ⟨f m, ?_, same.id.trans hid, ?_⟩
  · rw [hr]
    exact List.mem_map.2 ⟨m, hmem, if_pos rfl⟩
  · rw [htold] at hpaces
    simp only [Occurrence.beat?, List.filterMap_cons, List.filterMap_nil, if_true] at hpaces
    rw [← hcurrent]
    cases hpaces with
    | yields _ next _ zero => rw [next, zero, if_pos rfl]
    | sleeps _ next _ some => rw [next, some, if_neg (by simp)]

/-! ### What the wait does next -/

theorem call?_of_alone (hcalls : p.calls = [⟨id, runs, s⟩]) : p.call? id = some ⟨id, runs, s⟩ := by
  simp [call?, hcalls]

theorem setCallStage_self (hcalls : p.calls = [⟨id, runs, s⟩]) : p.setCallStage id s = p := by
  have hmap : (p.calls.map fun c => if c.id = id then { c with stage := s } else c) = p.calls := by
    simp [hcalls]
  rw [setCallStage, hmap]

theorem runCall_of_returned (hc : p.call? id = some c) (ready : p.callReady c = true)
    (hmove : p.moveCall runtime c = (q, .returned x)) (n : Nat) :
    p.runCall runtime id (n + 1) = (q.dropCall id, some x) := by
  simp [runCall, hc, ready, hmove]

theorem runCall_of_goesOn {t : CallStage α} (hc : p.call? id = some c)
    (ready : p.callReady c = true) (hmove : p.moveCall runtime c = (q, .goesOn t))
    (hne : t ≠ .yielded) (n : Nat) :
    p.runCall runtime id (n + 1) = (q.setCallStage id t).runCall runtime id n := by
  cases t with
  | yielded => exact absurd rfl hne
  | _ => simp [runCall, hc, ready, hmove]

/-- A wait that stands by a loop that is gone looks at the life cycle. -/
theorem runCall_of_stands (hcalls : p.calls = [⟨id, runs, s⟩]) (stands : s.standsBy i = true)
    (ended : p.hasEnded i = true) (quiet : p.panicOf? i = none) (runtime : Bool) :
    ∃ t : CallStage α, ∃ n, t.isWait = true ∧
      p.runCall runtime id callMoves = (p.setCallStage id t).runCall runtime id (n + 2) := by
  rcases CallStage.standsBy_iff.1 stands with wait | rfl
  · exact ⟨s, 6, wait, by rw [setCallStage_self hcalls, callMoves]⟩
  · refine ⟨.entering, 5, rfl, ?_⟩
    exact runCall_of_goesOn (call?_of_alone hcalls) ended (moveCall_of_joining rfl quiet)
      (by simp) 7

/-- A wait that stands by a loop that is gone returns what the poller offers. -/
theorem Offers.runCall (hq : q.Offers x) (usable : q.disposed = false)
    (hcalls : q.calls = [⟨id, runs, s⟩]) (stands : s.standsBy i = true)
    (ended : q.hasEnded i = true) (quiet : q.panicOf? i = none) (runtime : Bool) :
    (q.runCall runtime id callMoves).2 = some x := by
  obtain ⟨t, n, wait, hrun⟩ := runCall_of_stands hcalls stands ended quiet runtime
  have hoffers : (q.setCallStage id t).Offers x := hq.mono rfl rfl rfl
  obtain ⟨u, henter, -⟩ := hoffers.enter usable runtime ⟨id, runs, t⟩
  rw [hrun, runCall_of_returned (call?_of_alone (setCallStage_of_alone hcalls t))
    (callReady_of_isWait wait) ((moveCall_of_isWait wait).trans henter)]

/-- A wait that finds the poller idle starts a loop of its own, if there is a runtime. -/
theorem Vacant.enter (hu : u.Vacant l id runs) (t : CallStage α) (runtime : Bool) (c : Call α) :
    (u.setCallStage id t).enter runtime c =
      if runtime then ((u.setCallStage id t).startLoop (.waiter c.id) ⟨[], {}⟩ c.runs none,
        .goesOn (.receiving (u.started + 1) none))
      else (u.setCallStage id t, .returned (.error .noRuntime)) := by
  have hidle : (u.setCallStage id t).phase = .idle := hu.idle
  have hparked : (u.setCallStage id t).parked = none := hu.parked
  rw [Poller.enter, screen_eq (p := u.setCallStage id t) hu.usable hu.told]
  simp only [hidle, hparked]
  rfl

/-- What a wait comes to that looks at an idle poller. -/
theorem Vacant.runCall_eq (hu : u.Vacant l id runs) (h : u.Consistent) {t : CallStage α}
    (wait : t.isWait = true) (runtime : Bool) (n : Nat) :
    (u.setCallStage id t).runCall runtime id (n + 2) =
      if runtime then
        ({ u.startLoop (.waiter id) ⟨[], {}⟩ runs none with
          calls := [⟨id, runs, .receiving (u.started + 1) none⟩] }, none)
      else ({ u with calls := [] }, some (.error .noRuntime)) := by
  obtain ⟨s, hcalls, -⟩ := hu.waits
  have hset := setCallStage_of_alone (p := u) hcalls t
  have henter := hu.enter t runtime ⟨id, runs, t⟩
  rw [← moveCall_of_isWait wait] at henter
  cases runtime with
  | false =>
    rw [runCall_of_returned (call?_of_alone hset) (callReady_of_isWait wait) henter]
    simp [dropCall, setCallStage, hcalls]
  | true =>
    rw [runCall_of_goesOn (call?_of_alone hset) (callReady_of_isWait wait) henter
      (by simp)]
    -- The loop has just begun, so the wait has to wait for it.
    let v : Poller α := { u.startLoop (.waiter id) ⟨[], {}⟩ runs none with
      calls := [⟨id, runs, .receiving (u.started + 1) none⟩] }
    have hv : ((u.setCallStage id t).startLoop (.waiter id) ⟨[], {}⟩ runs none).setCallStage id
        (.receiving (u.started + 1) none) = v := by
      simp [v, setCallStage, startLoop, hcalls]
    have hnew : v.hasEnded (u.started + 1) = false := by
      have hnone : u.loops.find? (fun k => k.id = u.started + 1) = none := by
        refine List.find?_eq_none.2 fun k hk => ?_
        have := h.id_le k hk
        simp only [decide_eq_true_eq]
        omega
      simp [v, hasEnded, loop?, startLoop, List.find?_append, hnone, Loop.hasEnded]
    have hwaits : v.callReady ⟨id, runs, .receiving (u.started + 1) none⟩ = false := hnew
    have hcall : v.call? id = some ⟨id, runs, .receiving (u.started + 1) none⟩ :=
      call?_of_alone rfl
    exact (congrArg (Poller.runCall true id (n + 1)) hv).trans
      (by simp [v, runCall, hcall, hwaits])

/-- A wait that stands by a loop that has gone in vain does what a new wait would do, and starts a
loop of its own. -/
theorem Vacant.runCall (hu : u.Vacant l id runs) (h : u.Consistent)
    (ended : u.hasEnded l.id = true) (quiet : u.panicOf? l.id = none) :
    (∀ runtime, u.runCall runtime id callMoves =
      (u.dropCall id).beginCall runtime ⟨id, runs, .entering⟩) ∧
      ∃ k ∈ (u.runCall true id callMoves).1.loops,
        k.id = u.started + 1 ∧ k.consumer = .waiter id := by
  obtain ⟨s, hcalls, stands⟩ := hu.waits
  have hvalue : ∀ runtime, ∃ t : CallStage α, ∃ n, t.isWait = true ∧
      u.runCall runtime id callMoves = (u.setCallStage id t).runCall runtime id (n + 2) :=
    runCall_of_stands hcalls stands ended quiet
  refine ⟨fun runtime => ?_, ?_⟩
  · obtain ⟨t, n, wait, hrun⟩ := hvalue runtime
    have hnew : ({ u.dropCall id with
        calls := (u.dropCall id).calls ++ [⟨id, runs, .entering⟩] } : Poller α) =
          u.setCallStage id .entering := by
      simp [dropCall, setCallStage, hcalls]
    rw [hrun, hu.runCall_eq h wait, beginCall, hnew, callMoves,
      hu.runCall_eq h (t := .entering) rfl]
  · obtain ⟨t, n, wait, hrun⟩ := hvalue true
    rw [hrun, hu.runCall_eq h wait]
    exact ⟨_, List.mem_append_right _ (List.mem_singleton.2 rfl), rfl, rfl⟩

/-! ### What becomes of the wait -/

/-- Whether a result that the loop has found last is what the wait has returned, or returns as soon
as it runs. -/
structure Inherits (p : Poller α) (l : Loop α) (id : String) (result : Except Failure (Polled α))
    (x : CallResult α) (tr : List (Occurrence α)) (q : Poller α) : Prop where
  last : ∃ before after, tr = before ++ .polled l.id result :: after ∧
    (∀ o ∈ before, o.IsVain l) ∧ (∀ o ∈ after, o.workOf? = none) ∧
    (.returned id x ∈ after ∨
      (∃ c ∈ q.calls, c.id = id) ∧ ∀ runtime, (q.runCall runtime id callMoves).2 = some x)
  started : q.started = p.started
  stopped : ∀ e, x = .error e → q.phase = .stopped

/-- Whether the wait does what it would do in an idle poller, and starts a loop that makes the first
pause first. -/
structure BeginsAnew (p : Poller α) (l : Loop α) (id : String) (runs : Bool) (u : Poller α) :
    Prop where
  vacant : u.Vacant l id runs
  started : u.started = p.started
  likeNew : ∀ runtime, u.runCall runtime id callMoves =
    (u.dropCall id).beginCall runtime ⟨id, runs, .entering⟩
  starts : ∃ k ∈ (u.runCall true id callMoves).1.loops,
    k.id = p.started + 1 ∧ k.consumer = .waiter id
  pauses : p.pacing.flaw? = none → u.FirstPause (p.started + 1) p.pacing.initial

/-- What becomes of a wait that finds the loop of a waiter that has gone, by some moves and with
what they have told. -/
structure Succeeds (p : Poller α) (l : Loop α) (id : String) (runs : Bool) (cues : List (Cue α))
    (tr : List (Occurrence α)) (q : Poller α) : Prop where
  /-- As long as the loop has not ended, the wait is pending and polls nothing. -/
  patient : q.hasEnded l.id = false →
    (∃ c ∈ q.calls, c.id = id) ∧ q.started = p.started ∧ ∀ o ∈ tr, o.IsVain l
  /-- Once the wait has looked, the loop begins one poll at most and makes five moves at most. -/
  brief : ∀ runtime rest, cues = .resume id runtime :: rest →
    tr.countP (Occurrence.begins l.id) ≤ 1 ∧ rest.countP (Cue.isOf l.id) ≤ 5
  /-- What the loop still finds is what the wait returns, and the last that is polled. -/
  inherits : ∀ result x, .polled l.id result ∈ tr → pollResult? result = some x →
    p.Inherits l id result x tr q
  /-- If the loop has ended without, and its task was not discarded, the poller was left to the
  wait. -/
  begins : l.runs = true → (∀ xs, .discarded l.id xs ∉ tr) → q.hasEnded l.id = true →
    (∀ result, .polled l.id result ∈ tr → pollResult? result = none) →
      ∃ first rest before after u, cues = first ++ rest ∧ tr = before ++ after ∧
        (p.withWait id runs).perform? first = some (before, u) ∧
        u.perform? rest = some (after, q) ∧ (∀ o ∈ before, o.IsVain l) ∧ p.BeginsAnew l id runs u
  /-- If the task of the loop never runs, the wait stays pending whatever becomes of the task. -/
  unserved : l.runs = false →
    (∃ c ∈ q.calls, c.id = id) ∧ q.phase = .running ∧ q.started = p.started ∧
      ∀ o ∈ tr, o.workOf? = none
  /-- If it is discarded, the wait stays pending although the loop is gone. -/
  forsaken : ∀ xs, .discarded l.id xs ∈ tr →
    (∃ c ∈ q.calls, c.id = id) ∧ q.phase = .running ∧ q.started = p.started ∧
      ∀ o ∈ tr, o.IsVain l

theorem exists_of_alone (hcalls : p.calls = [⟨id, runs, s⟩]) : ∃ c ∈ p.calls, c.id = id :=
  ⟨⟨id, runs, s⟩, by rw [hcalls]; exact List.mem_cons_self, rfl⟩

section

variable (hp : p.Deserted l) (fresh : ∀ k ∈ p.loops, k.consumer ≠ .waiter id)
  (calm : ∀ cue ∈ cues, cue.isCalm = true)
  (hdone : (p.withWait id runs).perform? cues = some (tr, q))

include hp fresh hdone

theorem Deserted.kept : q.Reachable ∧ ∃ m ∈ q.loops, l.Becomes m := by
  have hreach : (p.withWait id runs).Reachable := hp.reachable_withWait fresh
  have hrun := run_of_perform? cues hdone
  exact ⟨hreach.run hrun, hrun.kept hreach.sound (l := l) hp.mem⟩

/-- Once the life cycle names no loop, the one of the waiter has ended, and works no more. -/
theorem Deserted.still (hnone : q.current = none) {rest : List (Cue α)}
    {after : List (Occurrence α)} (hrest : q.perform? rest = some (after, r)) :
    r.hasEnded l.id = true ∧ ∀ o ∈ after, o.workOf? ≠ some l.id := by
  obtain ⟨hq, m, hm, hbecomes⟩ := hp.kept fresh hdone
  have hend := hq.sound.hasEnded_of_current hnone hm
  have hrun := run_of_perform? rest hrest
  obtain ⟨k, hk, hbecomes'⟩ := hrun.kept hq.sound hm
  rw [← hbecomes.id]
  refine ⟨?_, hrun.idle_of_hasEnded hq.sound hm hend⟩
  rw [← hbecomes'.id, (hq.sound.run hrun).hasEnded_of_mem hk]
  exact hbecomes'.ended hend

theorem Deserted.ended (hnone : q.current = none) : q.hasEnded l.id = true :=
  (hp.still fresh hdone hnone (rfl : q.perform? [] = some ([], q))).1

/-- The loop has left nobody a panic. -/
theorem Deserted.quiet : q.panicOf? l.id = none := by
  obtain ⟨hq, m, hm, hbecomes⟩ := hp.kept fresh hdone
  obtain ⟨w, hw⟩ := hp.waiter
  rw [← hbecomes.id]
  exact panicOf?_of_bare hq.sound.toConsistent hm
    (hq.waitersBare m hm w (hbecomes.consumer.trans hw))

/-- The task of the loop does not run any more once it has been discarded. -/
theorem Deserted.unrun_iff (hm : m ∈ q.loops) (hid : m.id = l.id) :
    m.runs = false ↔ l.runs = false ∨ ∃ xs, .discarded l.id xs ∈ tr :=
  (run_of_perform? cues hdone).unrun_iff (hp.reachable_withWait fresh).sound hp.mem hm hid

/-- A wait that looks asks the loop to end. -/
theorem Deserted.brief {rest : List (Cue α)} (hcues : cues = .resume id runtime :: rest) :
    tr.countP (Occurrence.begins l.id) ≤ 1 ∧ rest.countP (Cue.isOf l.id) ≤ 5 := by
  subst hcues
  obtain ⟨⟨es, u⟩, hact, hlater⟩ := Option.bind_eq_some_iff.1 hdone
  obtain ⟨⟨ts, u'⟩, hrest, hpair⟩ := Option.map_eq_some_iff.1 hlater
  cases hpair
  have hreach : (p.withWait id runs).Reachable := hp.reachable_withWait fresh
  have hu := (hreach.run (.single (move_of_act? _ hact))).sound
  obtain ⟨w, hw, hne⟩ := hp.exists_waiter fresh
  obtain ⟨j, henter⟩ := (hp.lingers id runs).enter hreach.sound.toConsistent hw
    (ne_of_alone rfl hne) runtime ⟨id, runs, .entering⟩
  have hcall : (p.withWait id runs).call? id = some ⟨id, runs, .entering⟩ := call?_of_alone rfl
  simp only [act?, hcall, Option.bind_some, callAct?_of_goesOn rfl henter] at hact
  obtain ⟨rfl, hlooked⟩ := Prod.mk.inj (Option.some.inj hact)
  obtain ⟨m, hm, hid, hasked⟩ : ∃ m ∈ u.loops, m.id = l.id ∧ m.cancelled = true := by
    rw [← hlooked]
    exact ⟨_, List.mem_map.2 ⟨l, hp.mem, if_pos rfl⟩, rfl, rfl⟩
  obtain ⟨k, -, -, hheeds⟩ := fares_of_perform? hu hm hrest
  have heeds := hheeds (.inl (by simp [isCancelled, hasked]))
  have hmost := System.remaining_le m
  have hline : m.stage.isQueued.toNat ≤ 1 := Bool.toNat_le _
  have hpolls := heeds.polls
  have hmoves := heeds.moves
  rw [hid] at hpolls hmoves
  rw [List.nil_append]
  exact ⟨by omega, by omega⟩

include calm

theorem Deserted.patient (hal : q.hasEnded l.id = false) :
    (∃ c ∈ q.calls, c.id = id) ∧ q.started = p.started ∧ ∀ o ∈ tr, o.IsVain l := by
  cases hp.takeover fresh calm hdone with
  | lingers vain calls stands started => exact ⟨exists_of_alone calls, started, vain⟩
  | offers _ _ _ _ _ _ _ current | returned _ _ _ _ _ _ current =>
    rw [hp.ended fresh hdone current] at hal
    cases hal
  | vacated _ _ done vacant _ goesOn =>
    rw [(hp.still fresh done vacant.current goesOn).1] at hal
    cases hal

theorem Deserted.inherits {result : Except Failure (Polled α)}
    (hmem : .polled l.id result ∈ tr) (hresult : pollResult? result = some x) :
    p.Inherits l id result x tr q := by
  have hvain : ¬ (Occurrence.polled l.id result).IsVain l := by
    intro vain
    rw [vain.pollResult?_eq] at hresult
    cases hresult
  -- The one poll that was not in vain is the one that the takeover tells of.
  have hsame : ∀ {before after : List (Occurrence α)} {result'}, (∀ o ∈ before, o.IsVain l) →
      (∀ o ∈ after, o.workOf? = none) →
      .polled l.id result ∈ before ++ .polled l.id result' :: after → result' = result := by
    intro before after result' vain still hmem
    rcases List.mem_append.1 hmem with hmem | hmem
    · exact absurd (vain _ hmem) hvain
    · rcases List.mem_cons.1 hmem with heq | hmem
      · exact (Occurrence.polled.inj heq).2.symm
      · cases still _ hmem
  cases hp.takeover fresh calm hdone with
  | lingers vain => exact absurd (vain _ hmem) hvain
  | @offers _ before after result' y _ s ran hy vain still calls stands started current usable
      offers =>
    obtain rfl := hsame vain still hmem
    obtain rfl := Option.some.inj (hy.symm.trans hresult)
    have hreturns : ∀ runtime, (q.runCall runtime id callMoves).2 = some y :=
      offers.runCall usable calls stands (hp.ended fresh hdone current) (hp.quiet fresh hdone)
    refine ⟨⟨before, after, rfl, vain, still, .inr ⟨exists_of_alone calls, hreturns⟩⟩, started, ?_⟩
    rintro e rfl
    cases offers with
    | failure phase => exact phase
  | @returned _ before after result' y _ ran hy vain still calls started current phase told =>
    obtain rfl := hsame vain still hmem
    obtain rfl := Option.some.inj (hy.symm.trans hresult)
    exact ⟨⟨before, after, rfl, vain, still, .inl told⟩, started, phase⟩
  | vacated _ vain done vacant _ goesOn =>
    rcases List.mem_append.1 hmem with hmem | hmem
    · exact absurd (vain _ hmem) hvain
    · exact absurd rfl ((hp.still fresh done vacant.current goesOn).2 _ hmem)

theorem Deserted.begins (ran : l.runs = true) (kept : ∀ xs, .discarded l.id xs ∉ tr)
    (hend : q.hasEnded l.id = true)
    (fruitless : ∀ result, .polled l.id result ∈ tr → pollResult? result = none) :
    ∃ first rest before after u, cues = first ++ rest ∧ tr = before ++ after ∧
      (p.withWait id runs).perform? first = some (before, u) ∧
      u.perform? rest = some (after, q) ∧ (∀ o ∈ before, o.IsVain l) ∧
      p.BeginsAnew l id runs u := by
  cases hp.takeover fresh calm hdone with
  | lingers _ calls _ _ lingers =>
    -- The life cycle names a loop that has ended only if its task was discarded.
    obtain ⟨hq, m, hm, hbecomes⟩ := hp.kept fresh hdone
    obtain ⟨j, hj⟩ := lingers.named
    obtain ⟨k, hk, hid, -, hstuck⟩ := hq.sound.attached _ hj
    obtain rfl := hq.sound.eq_of_id hm hk (hid.trans hbecomes.id.symm)
    rw [← hbecomes.id, hq.sound.hasEnded_of_mem hk] at hend
    rcases (hp.unrun_iff fresh hdone hk hbecomes.id).1 (hstuck hend) with hruns | ⟨xs, hxs⟩
    · rw [ran] at hruns
      cases hruns
    · exact absurd hxs (kept xs)
  | offers _ hx | returned _ hx =>
    rw [fruitless _ (by simp)] at hx
    cases hx
  | @vacated first rest before after u _ _ vain done vacant started goesOn =>
    obtain ⟨hu, -⟩ := hp.kept fresh done
    obtain ⟨hlike, hstarts⟩ := vacant.runCall hu.sound.toConsistent
      (hp.ended fresh done vacant.current) (hp.quiet fresh done)
    have hreach : (p.withWait id runs).Reachable := hp.reachable_withWait fresh
    have hpacing : u.pacing = p.pacing :=
      ((run_of_perform? first done).counters hreach.sound).2.2
    refine ⟨first, rest, before, after, u, rfl, rfl, done, goesOn, vain, ?_⟩
    refine ⟨vacant, started, hlike, ?_, ?_⟩
    · rw [← started]
      exact hstarts
    · rw [← hpacing, ← started]
      exact firstPause_of_usable hu.sound

/-- As long as the task of the loop does not run, the wait is pending and polls nothing. -/
theorem Deserted.unserved (hm : m ∈ q.loops) (hid : m.id = l.id) (hruns : m.runs = false) :
    (∃ c ∈ q.calls, c.id = id) ∧ q.phase = .running ∧ q.started = p.started ∧
      ∀ o ∈ tr, o.IsVain l := by
  cases hp.takeover fresh calm hdone with
  | lingers vain calls _ started lingers =>
    exact ⟨exists_of_alone calls, lingers.running, started, vain⟩
  | offers ran | returned ran =>
    obtain ⟨k, hk, hid', hran⟩ := ran
    obtain rfl := (hp.kept fresh hdone).1.sound.eq_of_id hm hk (hid'.trans hid.symm)
    rw [hran] at hruns
    cases hruns
  | @vacated first rest before after u _ ran _ done vacant _ goesOn =>
    obtain ⟨k, hk, hid', hran⟩ := ran
    have hu := (hp.kept fresh done).1.sound
    have hend := hu.hasEnded_of_current vacant.current hk
    have hrun := run_of_perform? rest goesOn
    obtain ⟨k', hk', hbecomes⟩ := hrun.kept hu hk
    obtain rfl := (hu.run hrun).eq_of_id hm hk' ((hbecomes.id.trans hid').trans hid.symm)
    -- What has ended is not discarded any more.
    rcases hbecomes.runs with hsame | ⟨hal, -⟩
    · rw [hruns, hran] at hsame
      cases hsame
    · rw [hend] at hal
      cases hal

theorem Deserted.forsaken {xs : List α} (hxs : .discarded l.id xs ∈ tr) :
    (∃ c ∈ q.calls, c.id = id) ∧ q.phase = .running ∧ q.started = p.started ∧
      ∀ o ∈ tr, o.IsVain l := by
  obtain ⟨-, m, hm, hbecomes⟩ := hp.kept fresh hdone
  exact hp.unserved fresh calm hdone hm hbecomes.id
    ((hp.unrun_iff fresh hdone hm hbecomes.id).2 (.inr ⟨xs, hxs⟩))

theorem Deserted.idle_of_unrun (hruns : l.runs = false) :
    (∃ c ∈ q.calls, c.id = id) ∧ q.phase = .running ∧ q.started = p.started ∧
      ∀ o ∈ tr, o.workOf? = none := by
  obtain ⟨-, m, hm, hbecomes⟩ := hp.kept fresh hdone
  obtain ⟨hpending, hphase, started, vain⟩ :=
    hp.unserved fresh calm hdone hm hbecomes.id (hbecomes.unrun hruns)
  refine ⟨hpending, hphase, started, fun o ho => ?_⟩
  cases hwork : o.workOf? with
  | none => rfl
  | some i =>
    obtain ⟨-, ran, -⟩ := vain o ho i hwork
    rw [hruns] at ran
    cases ran

/-- What becomes of a wait that finds the loop of a waiter that has gone.  As long as the loop has
not ended, the wait is pending and polls nothing; once it has looked, the loop begins one poll at
most, and makes five moves at most.  A payload or a failure that a poll of the loop still comes to
is what the wait returns, no other poll begins, and after a failure the poller has stopped.  If
there is none of either, the loop leaves the poller idle; there the wait does what a new one would
do, and the loop that it starts makes the first pause first.  The task of the loop has to run for
all this: if it does not, or is discarded, the wait stays pending for as long as nobody helps. -/
theorem waiter_is_succeeded : p.Succeeds l id runs cues tr q where
  patient := hp.patient fresh calm hdone
  brief _ _ := hp.brief fresh hdone
  inherits _ _ := hp.inherits fresh calm hdone
  begins := hp.begins fresh calm hdone
  unserved := hp.idle_of_unrun fresh calm hdone
  forsaken _ := hp.forsaken fresh calm hdone

end

/-- A wait goes away while its loop polls. -/
def leavesDuringPoll : List (Cue Nat) :=
  [.call ⟨"w", true, .entering⟩, .resume "w" true, .loop 1 .go, .loop 1 (.check false),
    .loop 1 (.beginPoll {} 0), .drop "w"]

/-- A loop whose poll is in progress for the first time. -/
def polledFor (call : String) : Loop Nat :=
  { id := 1, consumer := .waiter call, script := ⟨[], {}⟩, cancelled := false,
    backoff := .start default, stage := .polling {} 0, runs := true, releasePanic := none }

/-- A poller whose one waiter has gone during the first poll. -/
def leftDuringPoll : Poller Nat :=
  { idle "a" default with
    phase := .running, consumer := some (.waiter "w"), current := some ⟨1, true⟩, started := 1,
    loops := [polledFor "w"] }

/-- Another wait finds the loop, and then its poll comes to an end. -/
def foundDuringPoll (result : Except Failure (Polled Nat)) : List (Cue Nat) :=
  [.resume "v" true, .loop 1 (.endPoll result 0)]

/-- The wait gets what the poll has found, or it begins anew once the loop has ended without. -/
theorem waiter_is_succeeded_during_poll :
    leftDuringPoll.Deserted (polledFor "w") ∧
      (∃ tr q, (leftDuringPoll.withWait "v" true).perform?
        (foundDuringPoll (.ok (.payload 7))) = some (tr, q) ∧
          leftDuringPoll.Inherits (polledFor "w") "v" (.ok (.payload 7)) (.ok (some 7)) tr q) ∧
      ∃ tr q, (leftDuringPoll.withWait "v" true).perform?
        (foundDuringPoll (.ok .empty) ++ [.loop 1 .go, .loop 1 (.check false)]) = some (tr, q) ∧
          ∃ u, leftDuringPoll.BeginsAnew (polledFor "w") "v" true u := by
  have hheld : leftDuringPoll.Held :=
    (Held.idle "a" default).perform (by simp [leavesDuringPoll])
      (rfl : perform? _ leavesDuringPoll = some (_, leftDuringPoll))
  have hp : leftDuringPoll.Deserted (polledFor "w") :=
    ⟨hheld, rfl, rfl, rfl, List.mem_cons_self, ⟨_, rfl⟩, ⟨_, rfl⟩⟩
  have fresh : ∀ k ∈ leftDuringPoll.loops, k.consumer ≠ .waiter "v" := by decide
  have hfound := waiter_is_succeeded hp fresh (by decide)
    (rfl : (leftDuringPoll.withWait "v" true).perform?
      (foundDuringPoll (.ok (.payload 7))) = some _)
  have hvain := waiter_is_succeeded hp fresh (by decide)
    (rfl : (leftDuringPoll.withWait "v" true).perform?
      (foundDuringPoll (.ok .empty) ++ [.loop 1 .go, .loop 1 (.check false)]) = some _)
  have hnone : ∀ result, .polled 1 result ∈ [(.polled 1 (.ok .empty) : Occurrence Nat)] →
      pollResult? result = none := by
    intro result hresult
    obtain ⟨-, rfl⟩ := Occurrence.polled.inj (List.mem_singleton.1 hresult)
    rfl
  have hkept : ∀ xs, .discarded 1 xs ∉ [(.polled 1 (.ok .empty) : Occurrence Nat)] := by simp
  obtain ⟨-, -, -, -, u, -, -, -, -, -, hu⟩ := hvain.begins rfl hkept rfl hnone
  exact ⟨hp, ⟨_, _, rfl, hfound.inherits _ _ List.mem_cons_self rfl⟩, _, _, rfl, u, hu⟩

/-- A wait goes away whose loop never runs, and the task of that loop is discarded. -/
def leavesUnserved : List (Cue Nat) :=
  [.call ⟨"w", false, .entering⟩, .resume "w" true, .drop "w", .discard 1]

/-- A loop whose task was discarded. -/
def discardedFor (call : String) : Loop Nat :=
  { polledFor call with stage := .ended .destroyed, runs := false }

/-- A poller whose one waiter has gone, and with it the task of its loop. -/
def leftUnserved : Poller Nat := { leftDuringPoll with loops := [discardedFor "w"] }

/-- The next wait neither returns nor starts a loop, whatever moves are made, although the loop that
it has found is gone. -/
theorem successor_waits_in_vain : ¬ ∀ (p : Poller Nat) (l : Loop Nat) (id : String),
    p.Deserted l → (∀ k ∈ p.loops, k.consumer ≠ .waiter id) → l.hasEnded = true →
      ∃ cues tr q, (∀ cue ∈ cues, cue.isCalm = true) ∧
        (p.withWait id true).perform? cues = some (tr, q) ∧
        ((∀ c ∈ q.calls, c.id ≠ id) ∨ p.started < q.started) := by
  intro hgetsOn
  have hheld : leftUnserved.Held :=
    (Held.idle "a" default).perform (by simp [leavesUnserved])
      (rfl : perform? _ leavesUnserved = some (_, leftUnserved))
  have hp : leftUnserved.Deserted (discardedFor "w") :=
    ⟨hheld, rfl, rfl, rfl, List.mem_cons_self, ⟨_, rfl⟩, ⟨_, rfl⟩⟩
  have fresh : ∀ k ∈ leftUnserved.loops, k.consumer ≠ .waiter "v" := by decide
  obtain ⟨cues, tr, q, calm, hdone, hgone⟩ := hgetsOn _ _ "v" hp fresh rfl
  obtain ⟨⟨c, hc, hid⟩, -, started, -⟩ := hp.idle_of_unrun fresh calm hdone rfl
  rcases hgone with hgone | hmore
  · exact hgone c hc hid
  · omega

end Poller

end Polling
