import Polling.Proofs.Cues
import Polling.Proofs.Soundness

/-!
# The phases of a poller

As long as somebody has hold of a poller, its phase tells exactly two things: whether there is a
loop, and whether the poller has been asked to stop (`Held.determined`).  Phases follow one another
along six lines (`Phase.Leads`), of which one starts a loop.  The others can be put together, and
what comes of them is one of them again or no change (`Phase.Wanes.trans`), so it is not only each
single move that goes along a line, but also whatever one task does in one go: a task that starts a
loop waits for it next (`exists_run_runCall`).
-/

namespace Polling

variable {α : Type}

namespace Phase

/-- The phase of a poller with a loop or without, before or after it has been asked to stop. -/
def of (attached stopRequested : Bool) : Phase :=
  match attached, stopRequested with
  | false, false => idle
  | true, false => running
  | true, true => stopping
  | false, true => stopped

/-- The lines along which one phase follows another. -/
inductive Leads : Phase → Phase → Prop
  /-- A loop is started. -/
  | start : Leads idle running
  /-- A poller without a loop is asked to stop. -/
  | stop : Leads idle stopped
  /-- A poller with a loop is asked to stop. -/
  | halt : Leads running stopping
  /-- The loop ends and leaves room for another one. -/
  | release : Leads running idle
  /-- The loop ends and stops the poller. -/
  | fail : Leads running stopped
  /-- The loop of a poller that was asked to stop ends. -/
  | settle : Leads stopping stopped

/-- Whether a phase may come of another one without a loop being started. -/
def Wanes (a b : Phase) : Prop := a = b ∨ a.Leads b ∧ b ≠ running

variable {a b c : Phase}

theorem Wanes.refl (a : Phase) : a.Wanes a := .inl rfl

theorem Wanes.trans (h : a.Wanes b) (h' : b.Wanes c) : a.Wanes c := by
  rcases h with rfl | ⟨h, hb⟩
  · exact h'
  · rcases h' with rfl | ⟨h', hc⟩
    · exact .inr ⟨h, hb⟩
    · refine .inr ⟨?_, hc⟩
      -- Of two lines that start no loop the first ends in `idle` or `stopping`.
      cases h with
      | start => exact absurd rfl hb
      | stop | fail | settle => cases h'
      | halt =>
        cases h'
        exact .fail
      | release =>
        cases h' with
        | start => exact absurd rfl hc
        | stop => exact .fail

theorem Wanes.of_idle (h : a.Wanes idle) : a = idle ∨ a = running := by
  rcases h with rfl | ⟨h, -⟩
  · exact .inl rfl
  · cases h
    exact .inr rfl

theorem Wanes.of_stopping (h : stopping.Wanes b) : b = stopping ∨ b = stopped := by
  rcases h with rfl | ⟨h, -⟩
  · exact .inl rfl
  · cases h
    exact .inr rfl

theorem Wanes.of_stopped (h : stopped.Wanes b) : b = stopped := by
  rcases h with rfl | ⟨h, -⟩
  · rfl
  · cases h

theorem wanes_afterStop (a : Phase) : a.Wanes a.afterStop := by
  cases a with
  | idle => exact .inr ⟨.stop, by simp [afterStop]⟩
  | running => exact .inr ⟨.halt, by simp [afterStop]⟩
  | stopping | stopped => exact .refl _

theorem afterStop_of (attached stopRequested : Bool) :
    (of attached stopRequested).afterStop = of attached true := by
  cases attached <;> cases stopRequested <;> rfl

theorem of_eq_idle {attached stopRequested : Bool} (h : of attached stopRequested = idle) :
    attached = false ∧ stopRequested = false := by
  cases attached <;> cases stopRequested <;> simp_all [of]

end Phase

namespace Poller

variable {p q r : Poller α} {l : Loop α} {c : Call α}

/-- What a move does to the phase: it starts a loop in an idle poller, or it starts none. -/
def PhaseFollows (p q : Poller α) : Prop :=
  q.started = p.started ∧ p.phase.Wanes q.phase ∨
    q.started = p.started + 1 ∧ p.phase = .idle ∧ q.phase = .running

theorem PhaseFollows.of_eq (started : q.started = p.started) (phase : q.phase = p.phase) :
    p.PhaseFollows q := .inl ⟨started, .inl phase.symm⟩

/-- A poller that has a loop may stop without it. -/
theorem Sound.wanes_stopped (h : p.Sound) (hne : p.current ≠ none) : p.phase.Wanes .stopped := by
  rcases h.engaged hne with hphase | hphase <;> rw [hphase]
  · exact .inr ⟨.fail, by simp⟩
  · exact .inr ⟨.settle, by simp⟩

/-- No loop starts another one. -/
theorem LoopEffect.wanes (h : p.Sound) (hl : l ∈ p.loops) (hal : l.hasEnded = false) {es}
    (heffect : p.LoopEffect l es q) : q.started = p.started ∧ p.phase.Wanes q.phase := by
  cases heffect with
  | goesOn => exact ⟨rfl, .refl _⟩
  | @ends m e =>
    obtain ⟨j, hj⟩ := h.alive l hl hal
    refine ⟨rfl, ?_⟩
    show p.phase.Wanes (if p.stopRequested || e.stops then .stopped else .idle)
    split
    · exact h.wanes_stopped (by simp [hj])
    · next hgo =>
      -- The poller was not asked to stop, so it was not stopping.
      rcases h.engaged (by simp [hj]) with hphase | hphase
      · rw [hphase]
        exact .inr ⟨.release, by simp⟩
      · simp [h.halted (.inl hphase)] at hgo

theorem CallEffect.phaseFollows {v : Verdict α} (h : p.Sound) (heffect : p.CallEffect c q v) :
    p.PhaseFollows q := by
  cases heffect with
  | starts _ hphase => exact .inr ⟨rfl, hphase, rfl⟩
  | closes | closed => exact .inl ⟨rfl, p.phase.wanes_afterStop⟩
  | clears _ ha | cleared _ ha => exact .inl ⟨rfl, h.wanes_stopped (by simp [ha])⟩
  | reenters | leaves | reports =>
    rw [absorb_eq]
    exact .of_eq rfl rfl
  | _ => exact .of_eq rfl rfl

theorem SubscribeEffect.phaseFollows {subscription : String} {r : Except Error Unit}
    (heffect : p.SubscribeEffect subscription q r) : p.PhaseFollows q := by
  cases heffect with
  | starts hphase => exact .inr ⟨rfl, hphase, rfl⟩
  | _ => exact .of_eq rfl rfl

/-- Each move starts a loop in an idle poller, or goes along a line that starts none. -/
theorem Move.phaseFollows (h : p.Sound) {es} (hmove : p.Move es q) : p.PhaseFollows q := by
  cases hmove with
  | loop mem move =>
    exact .inl ((move.effect h.toConsistent mem).wanes h mem move.alive)
  | proceed mem _ goes | finish mem _ goes =>
    -- Where the call stands afterwards is no matter of phases.
    have hfollows := (callEffect_of_moveCall h mem goes).phaseFollows h
    exact hfollows
  | subscribe => exact (subscribeEffect p _ _ _ _ _).phaseFollows
  | stop => exact .inl ⟨rfl, p.phase.wanes_afterStop⟩
  | _ => exact .of_eq rfl rfl

/-- Loops are counted, and the count tells whether any was started. -/
theorem Run.wanes (h : p.Sound) {tr} (hrun : Run p tr q) :
    p.started ≤ q.started ∧ (q.started = p.started → p.phase.Wanes q.phase) := by
  induction hrun with
  | nil => exact ⟨Nat.le_refl _, fun _ => .refl _⟩
  | snoc hrun hmove ih =>
    obtain ⟨hle, hwanes⟩ := ih
    rcases hmove.phaseFollows (h.run hrun) with ⟨heq, hphase⟩ | ⟨hstart, -⟩
    · exact ⟨heq ▸ hle, fun hsame => (hwanes (heq ▸ hsame)).trans hphase⟩
    · exact ⟨by omega, fun hsame => by omega⟩

/-- Whatever starts at most one loop, and that last of all, goes along one line. -/
theorem Run.leads (h : p.Sound) {tr} (hrun : Run p tr q) (hsame : q.started = p.started) {es}
    (hmove : q.Move es r) : p.phase = r.phase ∨ p.phase.Leads r.phase := by
  have hwanes := (hrun.wanes h).2 hsame
  rcases hmove.phaseFollows (h.run hrun) with ⟨-, hphase⟩ | ⟨-, hidle, hrunning⟩
  · exact (hwanes.trans hphase).imp id And.left
  · rw [hidle] at hwanes
    rw [hrunning]
    rcases hwanes.of_idle with hphase | hphase
    · exact .inr (hphase ▸ .start)
    · exact .inl hphase

/-- A call that has to wait stays where it is. -/
theorem runCall_of_waiting {runtime : Bool} {id : String} (n : Nat) (hc : p.call? id = some c)
    (waits : p.callReady c = false) : (runCall runtime id n p).1 = p := by
  cases n with
  | zero => rfl
  | succ n => simp [runCall, hc, waits]

/-- A call that has started a loop waits for it. -/
theorem waits_of_started (hc : c ∈ p.calls) {v : Verdict α}
    (heffect : p.CallEffect c q v) {s : CallStage α} (hv : v = .goesOn s)
    (hstart : q.started = p.started + 1) (hq : (q.setCallStage c.id s).Sound) :
    ∃ d, (q.setCallStage c.id s).call? c.id = some d ∧
      (q.setCallStage c.id s).callReady d = false := by
  let d : Call α := { c with stage := s }
  have hd : d ∈ (q.setCallStage c.id s).calls :=
    List.mem_map.2 ⟨c, heffect.calls_eq ▸ hc, if_pos rfl⟩
  refine ⟨d, hq.call?_of_mem hd, ?_⟩
  cases heffect with
  | starts =>
    obtain rfl := Verdict.goesOn.inj hv
    -- The loop that the call waits for is the one that it has just started.
    have hl : (⟨p.started + 1, .waiter c.id, ⟨[], {}⟩, false, .start p.pacing, .spawned p.parked,
        c.runs, none⟩ : Loop α) ∈ p.loops ++ [_] :=
      List.mem_append_right _ (List.mem_singleton.2 rfl)
    exact hq.hasEnded_of_mem hl
  | reenters | leaves | reports =>
    rw [absorb_eq] at hstart
    exact absurd hstart (Nat.succ_ne_self _).symm
  | _ => exact absurd hstart (Nat.succ_ne_self _).symm

/-- A call that runs as far as it gets starts at most one loop, and that last of all. -/
theorem exists_run_runCall (h : p.Sound) (runtime : Bool) (id : String) (n : Nat) :
    ∃ tr q, Run p tr q ∧ q.started = p.started ∧
      ((runCall runtime id n p).1 = q ∨ ∃ es, q.Move es (runCall runtime id n p).1) := by
  induction n generalizing p with
  | zero => exact ⟨[], p, .nil, rfl, .inl rfl⟩
  | succ n ih =>
    unfold runCall
    split
    · exact ⟨[], p, .nil, rfl, .inl rfl⟩
    · next c hc =>
      obtain ⟨hmem, rfl⟩ := call?_eq_some hc
      split
      · next ready =>
        split
        · next goes => exact ⟨[], p, .nil, rfl, .inr ⟨_, .finish hmem ready goes⟩⟩
        · next goes => exact ⟨[], p, .nil, rfl, .inr ⟨_, .proceed hmem ready goes⟩⟩
        · next q s _ goes =>
          have hmove : p.Move (p.noticing c) (q.setCallStage c.id s) := .proceed hmem ready goes
          have hq := h.move hmove
          rcases hmove.phaseFollows h with ⟨heq, -⟩ | ⟨hstart, -⟩
          · obtain ⟨tr, r, hrun, hsame, hlast⟩ := ih hq
            exact ⟨_, r, .cons hmove hrun, hsame.trans heq, hlast⟩
          · obtain ⟨d, hd, waits⟩ :=
              waits_of_started hmem (callEffect_of_moveCall h hmem goes) rfl hstart hq
            rw [runCall_of_waiting n hd waits]
            exact ⟨[], p, .nil, rfl, .inr ⟨_, hmove⟩⟩
      · exact ⟨[], p, .nil, rfl, .inl rfl⟩

/-- A call that runs as far as it gets goes along one line. -/
theorem leads_runCall (h : p.Sound) (runtime : Bool) (id : String) (n : Nat) :
    p.phase = (runCall runtime id n p).1.phase ∨
      p.phase.Leads (runCall runtime id n p).1.phase := by
  obtain ⟨tr, q, hrun, hsame, hlast | ⟨es, hmove⟩⟩ := exists_run_runCall h runtime id n
  · rw [hlast]
    exact ((hrun.wanes h).2 hsame).imp_right And.left
  · exact hrun.leads h hsame hmove

/-- A poller that is stopping or stopped never gets another loop. -/
theorem Run.started_of_halted (h : p.Sound) (hp : p.phase = .stopping ∨ p.phase = .stopped) {tr}
    (hrun : Run p tr q) : q.started = p.started ∧ (q.phase = .stopping ∨ q.phase = .stopped) := by
  induction hrun with
  | nil => exact ⟨rfl, hp⟩
  | @snoc q r tr es hrun hmove ih =>
    obtain ⟨hsame, hq⟩ := ih
    rcases hmove.phaseFollows (h.run hrun) with ⟨heq, hwanes⟩ | ⟨-, hidle, -⟩
    · refine ⟨heq.trans hsame, ?_⟩
      rcases hq with hq | hq <;> rw [hq] at hwanes
      · exact hwanes.of_stopping
      · exact .inr hwanes.of_stopped
    · rcases hq with hq | hq <;> simp [hq] at hidle

/-- Whether the phase is given by whether there is a loop and whether the poller was asked to
stop. -/
def Determined (p : Poller α) : Prop := p.phase = .of p.current.isSome p.stopRequested

theorem LoopEffect.determined (hp : p.Determined) {es} (heffect : p.LoopEffect l es q) :
    q.Determined := by
  cases heffect with
  | goesOn => exact hp
  | @ends m e =>
    show (if p.stopRequested || e.stops then Phase.stopped else .idle) =
      .of false (p.stopRequested || e.stops)
    cases p.stopRequested || e.stops <;> rfl

/-- A loop is started in a poller that nobody has asked to stop. -/
theorem Determined.startLoop (hp : p.Determined) (hphase : p.phase = .idle) {consumer script runs}
    {releasePanic : Option String} :
    (p.startLoop consumer script runs releasePanic).Determined := by
  have hstop := (Phase.of_eq_idle (hp.symm.trans hphase)).2
  show Phase.running = .of true p.stopRequested
  rw [hstop]
  rfl

theorem Determined.retire (hp : p.Determined) {a : Attachment} (ha : p.current = some a) :
    (p.retire a).Determined := by
  rw [Determined, ha] at hp
  exact hp

theorem CallEffect.determined {v : Verdict α} (hp : p.Determined)
    (heffect : p.CallEffect c q v) : q.Determined := by
  have hstop : p.phase.afterStop = .of p.current.isSome true := by
    rw [hp]
    exact Phase.afterStop_of _ _
  cases heffect with
  | starts _ hphase => exact hp.startLoop hphase
  | replaces _ ha | unsubscribes _ _ ha => exact hp.retire ha
  | closes _ ha =>
    rw [ha] at hstop
    exact hstop
  | closed => exact hstop
  | reenters | leaves | reports =>
    rw [absorb_eq]
    exact hp
  | clears | cleared => rfl
  | _ => exact hp

theorem SubscribeEffect.determined {subscription : String} {r : Except Error Unit}
    (hp : p.Determined) (heffect : p.SubscribeEffect subscription q r) : q.Determined := by
  cases heffect with
  | starts hphase => exact hp.startLoop hphase
  | _ => exact hp

/-- A poller that has come about by any number of moves, of which none let go of it. -/
inductive Held : Poller α → Prop
  | idle (name : String) (pacing : Pacing) : Held (idle name pacing)
  | act {p q : Poller α} {cue : Cue α} {es} (held : Held p) (keeps : cue ≠ .release)
      (acts : p.act? cue = some (es, q)) : Held q

theorem Held.reachable (h : p.Held) : p.Reachable := by
  induction h with
  | idle name pacing => exact ⟨name, pacing, [], .nil⟩
  | act _ _ acts ih => exact ih.run (.single (move_of_act? _ acts))

/-- Letting go of a poller is the one move after which nobody has hold of it. -/
theorem Held.move (h : p.Held) {es} (hmove : p.Move es q) : q.Held ∨ q = p.release := by
  obtain ⟨cue, hcue⟩ := hmove.exists_act? h.reachable.sound.toConsistent
  cases cue with
  | release =>
    cases hcue
    exact .inr rfl
  | _ => exact .inl (h.act (by simp) hcue)

/-- What is done on cue leaves somebody with hold of the poller if it does not let go of it. -/
theorem Held.perform (h : p.Held) {cues : List (Cue α)} (keeps : Cue.release ∉ cues) {tr}
    (hq : p.perform? cues = some (tr, q)) : q.Held := by
  induction cues generalizing p tr with
  | nil =>
    cases hq
    exact h
  | cons cue cues ih =>
    obtain ⟨⟨es, r⟩, hact, hrest⟩ := Option.bind_eq_some_iff.1 hq
    obtain ⟨⟨ts, r'⟩, hperform, hpair⟩ := Option.map_eq_some_iff.1 hrest
    cases hpair
    simp only [List.mem_cons, not_or] at keeps
    exact ih (h.act (Ne.symm keeps.1) hact) keeps.2 hperform

theorem Determined.callAct (hp : p.Determined) (h : p.Sound) (hc : c ∈ p.calls) {runtime : Bool}
    {es} (hact : p.callAct? runtime c = some (es, q)) : q.Determined := by
  obtain ⟨r, v, goes, hq, -⟩ := exists_of_callAct? hact
  have hr := (callEffect_of_moveCall h hc goes).determined hp
  rw [hq]
  exact hr

/-- The phase of a poller that somebody has hold of is determined. -/
theorem Held.determined (h : p.Held) : p.Determined := by
  induction h with
  | idle => rfl
  | @act p q cue es held keeps acts ih =>
    have hsound := held.reachable.sound
    cases cue with
    | loop i cue =>
      obtain ⟨l, hl, hact⟩ := Option.bind_eq_some_iff.1 acts
      exact ((loopMove_of_loopAct? hact).effect hsound.toConsistent
        (loop?_eq_some hl).1).determined ih
    | call c =>
      simp only [act?] at acts
      split at acts
      · cases acts
        exact ih
      · cases acts
    | resume id runtime =>
      obtain ⟨c, hc, hact⟩ := Option.bind_eq_some_iff.1 acts
      exact ih.callAct hsound (mem_of_call? id hc) hact
    | drop id =>
      obtain ⟨c, -, hact⟩ := Option.map_eq_some_iff.1 acts
      cases hact
      exact ih
    | subscribe runtime subscription script runs releasePanic =>
      simp only [act?] at acts
      split at acts
      · cases acts
        exact (subscribeEffect p _ _ _ _ _).determined ih
      · cases acts
    | stop =>
      cases acts
      show p.phase.afterStop = .of p.current.isSome true
      rw [ih]
      exact Phase.afterStop_of _ _
    | release => exact absurd rfl keeps
    | discard i =>
      obtain ⟨l, -, -, -, -, rfl⟩ := discard_of_act? acts
      exact ih

/-- There is a consumer as long as there is a loop. -/
theorem Consistent.isSome_consumer (h : p.Consistent) :
    p.consumer.isSome = p.current.isSome := by
  cases ha : p.current with
  | none =>
    rw [(h.detached ha).1]
    rfl
  | some a =>
    obtain ⟨l, -, -, hcons, -⟩ := h.attached a ha
    rw [hcons]
    rfl

/-- The life cycle of a poller that somebody has hold of.  It has a consumer as long as it has a
loop, and its phase tells whether it has a loop and whether it has been asked to stop.  Each move
goes along one line, and so do any number of moves of which only the last starts a loop, such as all
that a call does in one go.  A poller never leaves `stopped`, and from `stopping` it gets nowhere
else. -/
theorem lifeCycle_of_held (h : p.Held) :
    p.consumer.isSome = p.current.isSome ∧ p.phase = .of p.current.isSome p.stopRequested ∧
      (∀ es q, p.Move es q → q.Held ∨ q = p.release) ∧
      (∀ tr q es r, Run p tr q → q.started = p.started → q.Move es r →
        p.phase = r.phase ∨ p.phase.Leads r.phase) ∧
      (∀ runtime id n, p.phase = (runCall runtime id n p).1.phase ∨
        p.phase.Leads (runCall runtime id n p).1.phase) ∧
      ∀ tr q, Run p tr q → (p.phase = .stopped → q.phase = .stopped) ∧
        (p.phase = .stopping → q.phase = .stopping ∨ q.phase = .stopped) := by
  have hsound := h.reachable.sound
  refine ⟨hsound.isSome_consumer, h.determined, fun es q hmove => h.move hmove,
    fun tr q es r hrun hsame hmove => hrun.leads hsound hsame hmove,
    fun runtime id n => leads_runCall hsound runtime id n, fun tr q hrun => ⟨?_, ?_⟩⟩
  · intro hp
    have hwanes := (hrun.wanes hsound).2 (hrun.started_of_halted hsound (.inr hp)).1
    exact (hp ▸ hwanes).of_stopped
  · exact fun hp => (hrun.started_of_halted hsound (.inl hp)).2

/-- A subscription is made, and the poller is asked to stop before its loop has begun. -/
def stoppedEarly : List (Cue Nat) := [.subscribe true "s" ⟨[], {}⟩ true none, .stop]

theorem lifeCycle_of_held_stopped : ∃ p : Poller Nat, p.Held ∧ p.phase = .of true true ∧
    ∀ tr q, Run p tr q → q.phase = .stopping ∨ q.phase = .stopped := by
  have hheld := (Held.idle "a" default).perform (by simp [stoppedEarly]) (q := _)
    (rfl : perform? _ stoppedEarly = some _)
  obtain ⟨-, hphase, -, -, -, hstays⟩ := lifeCycle_of_held hheld
  exact ⟨_, hheld, hphase, fun tr q hrun => (hstays tr q hrun).2 rfl⟩

end Poller

end Polling
