import Polling.Proofs.Stages

/-!
# Who gets a parked payload

A payload is parked only while there is no loop, so the poller is idle then, or stopped.  If it is
idle the payload is at the disposal of whoever comes next: a wait returns it on the spot, and the
callback of a subscriber gets it before anything is polled (`Awaits.run`), unless the task of the
subscription never runs or is discarded.  A poller that was stopped while it polled keeps the payload
parked, and lets nobody have it.
-/

namespace Polling

variable {α : Type}

namespace Poller

variable {p q r : Poller α} {l m : Loop α} {c : Call α} {i : Nat} {x : α}

/-- A call that returns in its first move is over at once. -/
theorem beginCall_of_returned (new : p.call? c.id = none)
    (ready : callReady { p with calls := p.calls ++ [c] } c = true) {runtime : Bool}
    {r : CallResult α}
    (returns : moveCall { p with calls := p.calls ++ [c] } runtime c = (q, .returned r)) :
    p.beginCall runtime c = (q.dropCall c.id, some r) := by
  have hcall : call? { p with calls := p.calls ++ [c] } c.id = some c := by
    have hnone : p.calls.find? (fun d => d.id = c.id) = none := new
    simp [call?, List.find?_append, hnone]
  simp [beginCall, callMoves, runCall, hcall, ready, returns]

theorem screen_eq (usable : p.disposed = false) (told : p.failure = none) :
    p.screen = (none, p) := by
  simp [screen, usable, told]

theorem enter_of_idle (usable : p.disposed = false) (told : p.failure = none)
    (hphase : p.phase = .idle) (hparked : p.parked = some x) (runtime : Bool) (c : Call α) :
    p.enter runtime c = ({ p with parked := none }, .returned (.ok (some x))) := by
  simp only [enter, screen_eq usable told, hphase, hparked]

theorem enter_of_stopped (usable : p.disposed = false) (told : p.failure = none)
    (hphase : p.phase = .stopped) (runtime : Bool) (c : Call α) :
    p.enter runtime c = (p, .returned (.ok none)) := by
  simp only [enter, screen_eq usable told, hphase]

/-- A wait takes what is parked in an idle poller, and finds nothing in a stopped one. -/
theorem beginCall_of_parked (hparked : p.parked = some x) (usable : p.disposed = false)
    (told : p.failure = none) (alone : p.calls = [])
    (hphase : p.phase = .idle ∨ p.phase = .stopped) (runtime : Bool) (id : String) (runs : Bool) :
    p.beginCall runtime ⟨id, runs, .entering⟩ =
      if p.phase = .idle then ({ p with parked := none }, some (.ok (some x)))
      else (p, some (.ok none)) := by
  let c : Call α := ⟨id, runs, .entering⟩
  have hnew : p.call? c.id = none := by simp [call?, alone]
  -- The wait itself is gone from the calls once it has returned.
  have hcalls : (p.calls ++ [c]).filter (fun d => d.id ≠ c.id) = p.calls := by simp [alone]
  rcases hphase with hphase | hphase
  · have henter := enter_of_idle (p := { p with calls := p.calls ++ [c] }) usable told hphase
      hparked runtime c
    rw [beginCall_of_returned hnew rfl henter, if_pos hphase]
    simp only [dropCall, hcalls]
  · have henter := enter_of_stopped (p := { p with calls := p.calls ++ [c] }) usable told hphase
      runtime c
    rw [beginCall_of_returned hnew rfl henter, if_neg (by simp [hphase])]
    simp only [dropCall, hcalls]

/-- A subscription that comes about starts a loop. -/
theorem startLoop_of_subscribe {runtime : Bool} {subscription : String}
    {script : Script (Handling α)} {runs : Bool} {releasePanic : Option String}
    (usable : p.disposed = false) (told : p.failure = none)
    (hq : p.subscribe runtime subscription script runs releasePanic = (q, .ok ())) :
    q = p.startLoop (.subscriber subscription) script runs releasePanic := by
  simp only [subscribe, screen_eq usable told] at hq
  cases hphase : p.phase with
  | idle =>
    cases runtime with
    | true => simpa [hphase] using hq.symm
    | false => simp [hphase] at hq
  | running | stopping | stopped => simp [hphase] at hq

/-- A loop that has not ended moves, or nothing works and it stays where it is, unless its task is
discarded. -/
theorem Move.loop_or_stays (h : p.Sound) {es} (hmove : p.Move es q) (hl : l ∈ p.loops)
    (hal : l.hasEnded = false) :
    p.LoopMove l es q ∨ (∀ o ∈ es, o.workOf? = none) ∧
      ((∃ m ∈ q.loops, l.SameTask m ∧ m.stage = l.stage) ∨ l.stage.awaits = true ∧
        es = [.discarded l.id l.stage.payloads] ∧ q = p.discard l.id) := by
  -- No other loop moves, since all others have ended.
  have hmine : ∀ k ∈ p.loops, p.LoopMove k es q → p.LoopMove l es q := by
    intro k hk move
    obtain rfl := h.eq_of_alive hl hk hal move.alive
    exact move
  rcases hmove.loop_or_still with ⟨k, hk, move⟩ | still
  · exact .inl (hmine k hk move)
  · have hidle : ∀ o ∈ es, o.workOf? = none := fun o ho => (still o ho).1
    have hsame : ∀ m, l.Stays m → m.stage = l.stage → l.SameTask m := fun m stays stage =>
      stays.sameTask (by simpa [Loop.hasEnded, stage] using hal)
    cases hmove with
    | loop hk move => exact .inl (hmine _ hk move)
    | proceed mem _ goes | finish mem _ goes =>
      obtain ⟨m, hm, stays, stage⟩ := (callEffect_of_moveCall h mem goes).stays hl
      exact .inr ⟨hidle, .inl ⟨m, hm, hsame m stays stage, stage⟩⟩
    | subscribe =>
      obtain ⟨m, hm, stays, stage⟩ := (subscribeEffect p _ _ _ _ _).stays hl
      exact .inr ⟨hidle, .inl ⟨m, hm, hsame m stays stage, stage⟩⟩
    | discard hk waits =>
      obtain rfl := h.eq_of_alive hl hk hal (Stage.alive_of_awaits waits)
      exact .inr ⟨hidle, .inr ⟨waits, rfl, rfl⟩⟩
    | _ => exact .inr ⟨hidle, .inl ⟨l, hl, .refl l, rfl⟩⟩

/-- A task that does not run after a move did not run before, or has just been discarded. -/
theorem Move.unrun_iff (h : p.Sound) {es} (hmove : p.Move es q) (hl : l ∈ p.loops)
    (hm : m ∈ q.loops) (hbecomes : l.Becomes m) :
    m.runs = false ↔ l.runs = false ∨ ∃ xs, .discarded l.id xs ∈ es := by
  constructor
  · intro hruns
    rcases hbecomes.runs with hsame | ⟨hal, hend, -⟩
    · exact .inl (hsame.symm.trans hruns)
    · -- Only a discard changes whether a task runs: a turn of the loop and every other move keep it.
      rcases hmove.loop_or_stays h hl hal with move | ⟨-, ⟨k, hk, same, stage⟩ | ⟨-, rfl, -⟩⟩
      · obtain ⟨f, hq, same, -⟩ := move.advances
        obtain rfl := h.eq_of_updateLoop hl hq hm hbecomes.id
        exact .inl (same.runs.symm.trans hruns)
      · obtain rfl := (h.move hmove).eq_of_id hm hk (same.id.trans hbecomes.id.symm)
        exact .inl (same.runs.symm.trans hruns)
      · exact .inr ⟨_, List.mem_cons_self⟩
  · rintro (hruns | ⟨xs, ho⟩)
    · exact hbecomes.unrun hruns
    · obtain ⟨k, hk, -, rfl, rfl⟩ := hmove.discards h ho
      obtain ⟨hid, -⟩ := Occurrence.discarded.inj (List.mem_singleton.1 ho)
      obtain rfl := h.eq_of_id hk hl hid
      rw [h.discard_eq hl] at hm
      rcases mem_withLoop hm with rfl | ⟨-, hne⟩
      · rfl
      · exact absurd hbecomes.id hne

/-- The same after any number of moves. -/
theorem Run.unrun_iff (h : p.Sound) {tr} (hrun : Run p tr q) (hl : l ∈ p.loops)
    (hm : m ∈ q.loops) (hid : m.id = l.id) :
    m.runs = false ↔ l.runs = false ∨ ∃ xs, .discarded l.id xs ∈ tr := by
  induction hrun generalizing m with
  | nil =>
    obtain rfl := h.eq_of_id hl hm hid
    simp
  | @snoc q r tr es hrun hmove ih =>
    have hq := h.run hrun
    obtain ⟨k, hk, hbecomes⟩ := hrun.kept h hl
    obtain ⟨m', hm', hbecomes'⟩ := (hmove.loopsFollow hq).kept k hk
    obtain rfl := (hq.move hmove).eq_of_id hm' hm (hid.trans (hbecomes'.id.trans hbecomes.id).symm)
    rw [hmove.unrun_iff hq hk hm hbecomes', ih hk hbecomes.id, hbecomes.id, or_assoc]
    simp only [List.mem_append, exists_or]

/-- Whether a loop has a payload for a callback that it has not invoked with it yet. -/
structure Awaits (p : Poller α) (l : Loop α) (x : α) : Prop where
  mem : l ∈ p.loops
  runs : l.runs = true
  subscribed : ∃ subscription, l.consumer = .subscriber subscription
  stage : l.stage = .spawned (some x) ∨ l.stage = .handing x

theorem Awaits.alive (ha : p.Awaits l x) : l.hasEnded = false := by
  rcases ha.stage with hs | hs <;> simp [Loop.hasEnded, hs]

/-- A loop that begins has its backlog ready for the callback. -/
theorem Awaits.begins (ha : p.Awaits l x) :
    (p.beginLoop l (some x)).Awaits { l with stage := .handing x } x := by
  obtain ⟨subscription, hcons⟩ := ha.subscribed
  have hbegin : (p.beginLoop l (some x)).loops = (p.setStage l.id (.handing x)).loops := by
    simp only [beginLoop, hcons]
    rfl
  refine ⟨?_, ha.runs, ha.subscribed, .inr rfl⟩
  rw [hbegin]
  exact List.mem_map.2 ⟨l, ha.mem, if_pos rfl⟩

/-- A payload waits for the callback until that is invoked with it or the task is discarded. -/
theorem Awaits.move (ha : p.Awaits l x) (h : p.Sound) {es} (hmove : p.Move es q) :
    (∃ rest, es = .invoked l.id x :: rest) ∨
      (∀ o ∈ es, o.workOf? = none) ∧ ((∃ m, m.id = l.id ∧ q.Awaits m x) ∨
        es = [.discarded l.id [x]] ∧ l.discarded ∈ q.loops) := by
  rcases hmove.loop_or_stays h ha.mem ha.alive with
    move | ⟨hidle, ⟨m, hm, same, hstage⟩ | ⟨waits, rfl, rfl⟩⟩
  · cases move with
    | begins hs =>
      rcases ha.stage with hs' | hs' <;> rw [hs] at hs' <;> cases hs'
      exact .inr ⟨by simp, .inl ⟨{ l with stage := .handing x }, rfl, ha.begins⟩⟩
    | beginsCallback hs =>
      rcases ha.stage with hs' | hs' <;> rw [hs] at hs' <;> cases hs'
      exact .inl ⟨_, rfl⟩
    | interrupted hs | queues hs | beginsPoll hs | endsPoll hs | endsCallback hs | resumes hs
      | wakes hs => rcases ha.stage with hs' | hs' <;> rw [hs] at hs' <;> cases hs'
  · refine .inr ⟨hidle, .inl ⟨m, same.id, hm, same.runs.trans ha.runs, ?_, hstage ▸ ha.stage⟩⟩
    exact same.consumer ▸ ha.subscribed
  · refine .inr ⟨hidle, .inr ⟨?_, List.mem_map.2 ⟨l, ha.mem, if_pos rfl⟩⟩⟩
    -- A payload in hand is never waited with, so this one was still the backlog.
    rcases ha.stage with hs | hs
    · rw [hs]
      rfl
    · rw [hs] at waits
      cases waits

/-- The callback can be invoked at any moment with a payload that waits for it. -/
theorem Awaits.invokes (ha : p.Awaits l x) : ∃ ts q, Run p (.invoked l.id x :: ts) q := by
  have hhanding : ∀ {p : Poller α} {m : Loop α}, p.Awaits m x → m.stage = .handing x →
      ∃ ts q, Run p (.invoked m.id x :: ts) q := by
    intro p m ha hs
    have hmove : p.LoopMove m (p.invoking m x) (p.beginCallback m 0) := .beginsCallback hs
    exact ⟨_, _, .single (.loop ha.mem hmove)⟩
  rcases ha.stage with hs | hs
  · obtain ⟨ts, q, hrun⟩ := hhanding ha.begins rfl
    exact ⟨ts, q, .cons (.loop ha.mem (.begins hs ha.runs)) hrun⟩
  · exact hhanding ha hs

/-- As long as the loop of a subscription is one whose task does not run, nothing works. -/
theorem Run.idle_of_unrun (h : p.Sound) (hl : l ∈ p.loops) (hruns : l.runs = false)
    {subscription : String} (hcons : l.consumer = .subscriber subscription) {tr}
    (hrun : Run p tr q) : ∀ o ∈ tr, o.workOf? = none := by
  induction hrun with
  | nil => simp
  | @snoc q r tr es hrun hmove ih =>
    have hq := h.run hrun
    obtain ⟨m, hm, hbecomes⟩ := hrun.kept h hl
    intro o ho
    rcases List.mem_append.1 ho with ho | ho
    · exact ih o ho
    · rcases hmove.loop_or_still with ⟨k, hk, move⟩ | still
      · -- The loop that moves would be the one that the life cycle names.
        obtain ⟨j, hj⟩ := hq.alive k hk move.alive
        obtain ⟨j', hj'⟩ := hq.stuck m hm (hbecomes.unrun hruns) subscription
          (hbecomes.consumer.trans hcons)
        rw [hj] at hj'
        obtain rfl := hq.eq_of_id hk hm (congrArg Attachment.loop (Option.some.inj hj')).symm
        have hran := move.ran hq.toConsistent hm
        rw [hbecomes.unrun hruns] at hran
        cases hran
      · exact (still o ho).1

/-- The callback gets the payload that waits for it before anything is polled, and if the task is
discarded before that nothing is polled at all. -/
theorem Awaits.run (ha : p.Awaits l x) (h : p.Sound) {tr} (hrun : Run p tr q) :
    (∃ before after, tr = before ++ .invoked l.id x :: after ∧
      ∀ o ∈ before, o.workOf? = none) ∨
      (∀ o ∈ tr, o.workOf? = none) ∧ ((∃ m, m.id = l.id ∧ q.Awaits m x) ∨
        .discarded l.id [x] ∈ tr ∧ ∃ m ∈ q.loops, m.runs = false ∧
          ∃ subscription, m.consumer = .subscriber subscription) := by
  induction hrun with
  | nil => exact .inr ⟨by simp, .inl ⟨l, rfl, ha⟩⟩
  | @snoc q r tr es hrun hmove ih =>
    have hq := h.run hrun
    rcases ih with ⟨before, after, rfl, hidle⟩ | ⟨hidle, ⟨m, hid, hm⟩ |
      ⟨hgone, m, hm, hruns, subscription, hcons⟩⟩
    · exact .inl ⟨before, after ++ es, by simp, hidle⟩
    · rcases hm.move hq hmove with ⟨rest, rfl⟩ | ⟨hidle', ⟨k, hid', hk⟩ | ⟨rfl, hdiscarded⟩⟩
      · exact .inl ⟨tr, rest, by rw [hid], hidle⟩
      · exact .inr ⟨List.forall_mem_append.2 ⟨hidle, hidle'⟩, .inl ⟨k, hid'.trans hid, hk⟩⟩
      · refine .inr ⟨List.forall_mem_append.2 ⟨hidle, hidle'⟩,
          .inr ⟨?_, m.discarded, hdiscarded, rfl, hm.subscribed⟩⟩
        rw [hid]
        exact List.mem_append_right _ (List.mem_singleton_self _)
    · -- The discarded loop stays the loop of its subscription, so nobody else gets to work.
      have hstep := Run.single hmove
      obtain ⟨k, hk, hbecomes⟩ := hstep.kept hq hm
      exact .inr ⟨List.forall_mem_append.2 ⟨hidle, hstep.idle_of_unrun hq hm hruns hcons⟩,
        .inr ⟨List.mem_append_left _ hgone, k, hk, hbecomes.unrun hruns, subscription,
          hbecomes.consumer.trans hcons⟩⟩

/-- The callback of a subscription that takes over a payload gets it before anything else happens,
and can get it as long as it has not, if its task runs and is not discarded with it. -/
theorem Run.invoked_first (hparked : p.parked = some x) {subscription : String}
    {script : Script (Handling α)} {runs : Bool} {releasePanic : Option String}
    (h : (p.startLoop (.subscriber subscription) script runs releasePanic).Sound) {tr}
    (hrun : Run (p.startLoop (.subscriber subscription) script runs releasePanic) tr q) :
    (∃ before after, tr = before ++ .invoked (p.started + 1) x :: after ∧
      ∀ o ∈ before, o.workOf? = none) ∨
      (∀ o ∈ tr, o.workOf? = none) ∧ (runs = true → .discarded (p.started + 1) [x] ∈ tr ∨
        ∃ ts r, Run q (.invoked (p.started + 1) x :: ts) r) := by
  let l : Loop α := ⟨p.started + 1, .subscriber subscription, script, false, .start p.pacing,
    .spawned p.parked, runs, releasePanic⟩
  have hl : l ∈ (p.startLoop (.subscriber subscription) script runs releasePanic).loops :=
    List.mem_append_right _ (List.mem_singleton.2 rfl)
  cases hruns : runs with
  | true =>
    have ha : Awaits _ l x :=
      ⟨hl, hruns, ⟨subscription, rfl⟩, .inl (congrArg Stage.spawned hparked)⟩
    rcases ha.run h hrun with hinvoked | ⟨hidle, ⟨m, hid, hm⟩ | ⟨hgone, -⟩⟩
    · exact .inl hinvoked
    · refine .inr ⟨hidle, fun _ => .inr ?_⟩
      obtain ⟨ts, r, hts⟩ := hm.invokes
      rw [hid] at hts
      exact ⟨ts, r, hts⟩
    · exact .inr ⟨hidle, fun _ => .inl hgone⟩
  | false => exact .inr ⟨hrun.idle_of_unrun h hl hruns rfl, by simp⟩

/-- A payload that is parked in an idle poller is what the next wait returns, without a poll, and
what the callback of the next subscriber gets before anything is polled, if its task runs and is not
discarded with it.  In a stopped poller it stays where it is, and the next wait returns nothing. -/
theorem parked_goes_to_next (hp : p.Reachable) (hparked : p.parked = some x)
    (usable : p.disposed = false) (told : p.failure = none) (alone : p.calls = []) :
    (p.phase = .idle ∨ p.phase = .stopped) ∧
      (∀ runtime id runs, p.beginCall runtime ⟨id, runs, .entering⟩ =
        if p.phase = .idle then ({ p with parked := none }, some (.ok (some x)))
        else (p, some (.ok none))) ∧
      ∀ runtime subscription script runs releasePanic q,
        (∀ l ∈ p.loops, l.consumer ≠ .subscriber subscription) →
        p.subscribe runtime subscription script runs releasePanic = (q, .ok ()) →
        ∀ tr r, Run q tr r →
          (∃ before after, tr = before ++ .invoked (p.started + 1) x :: after ∧
            ∀ o ∈ before, o.workOf? = none) ∨
          (∀ o ∈ tr, o.workOf? = none) ∧ (runs = true → .discarded (p.started + 1) [x] ∈ tr ∨
            ∃ ts s, Run r (.invoked (p.started + 1) x :: ts) s) := by
  have h := hp.sound
  have hphase := (h.detached (h.current_of_parked hparked)).2
  refine ⟨hphase, fun runtime id runs =>
    beginCall_of_parked hparked usable told alone hphase runtime id runs, ?_⟩
  intro runtime subscription script runs releasePanic q fresh hq tr r hrun
  have hsound : q.Sound := by
    have hmove : p.Move _ (p.subscribe runtime subscription script runs releasePanic).1 :=
      .subscribe fresh
    rw [hq] at hmove
    exact h.move hmove
  obtain rfl := startLoop_of_subscribe usable told hq
  exact hrun.invoked_first hparked hsound

/-- A wait is dropped during its poll, and a payload is found, after the poller was asked to stop or
not. -/
def parkedPayload (stops : List (Cue Nat)) : List (Cue Nat) :=
  [.call ⟨"w", true, .entering⟩, .resume "w" true, .loop 1 .go, .loop 1 (.check false),
    .loop 1 (.beginPoll {} 0), .drop "w"] ++ stops ++ [.loop 1 (.endPoll (.ok (.payload 7)) 0)]

theorem parked_goes_to_next_wait : ∃ p : Poller Nat, p.Reachable ∧ p.parked = some 7 ∧
    p.disposed = false ∧ p.failure = none ∧ p.calls = [] ∧
      (p.beginCall true ⟨"v", true, .entering⟩).2 = some (.ok (some 7)) := by
  have hrun : Run (idle "a" default) _ _ := run_of_perform? (parkedPayload []) rfl
  refine ⟨_, ⟨_, _, _, hrun⟩, rfl, rfl, rfl, rfl, ?_⟩
  rw [(parked_goes_to_next ⟨_, _, _, hrun⟩ rfl rfl rfl rfl).2.1 true "v" true]
  rfl

/-- What is found by a poll that was in progress when the poller was asked to stop is parked, and
no wait gets it. -/
theorem parked_out_of_reach : ¬ ∀ (p : Poller Nat) (x : Nat), p.Reachable →
    p.parked = some x → p.disposed = false → p.failure = none → p.calls = [] →
      (p.beginCall true ⟨"v", true, .entering⟩).2 = some (.ok (some x)) := by
  intro h
  have hrun : Run (idle "a" default) _ _ := run_of_perform? (parkedPayload [.stop]) rfl
  have hreturn := h _ 7 ⟨_, _, _, hrun⟩ rfl rfl rfl rfl
  cases hreturn

end Poller

end Polling
