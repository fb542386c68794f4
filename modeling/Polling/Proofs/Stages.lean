import Polling.Proofs.Activities
import Polling.Proofs.Shutdown

/-!
# From stage to stage

What one move makes of a loop: it goes on to a stage that the one before leads to, or it has ended
and there is a reason (`LoopMove.advances`).  Nothing else moves a loop.  Calls, and whatever else
is done to a poller, may ask a loop to end, and its task may be discarded, but it gets nowhere by
that (`stays_of_act?`).
-/

namespace Polling

variable {α : Type}

namespace Stage

/-- Whether a loop may go on from one stage to another in one move. -/
inductive Leads : Stage α → Stage α → Prop
  | begins : Leads (.spawned none) .checking
  | redelivers {x} : Leads (.spawned (some x)) (.handing x)
  | queues : Leads .checking .queued
  | polls {attempt due} : Leads .queued (.polling attempt due)
  | yields {attempt due} : Leads (.polling attempt due) .yielded
  | sleeps {attempt due pause wake} : Leads (.polling attempt due) (.asleep pause wake)
  | hands {attempt due x} : Leads (.polling attempt due) (.handing x)
  | calls {x handling due} : Leads (.handing x) (.calling handling due)
  | returns {handling due} : Leads (.calling handling due) .checking
  | resumes : Leads .yielded .checking
  | wakes {pause due} : Leads (.asleep pause due) .checking

/-- Whether a loop that stands here is in line for the poll lock. -/
def isQueued : Stage α → Bool
  | .queued => true
  | _ => false

theorem isQueued_iff {s : Stage α} : s.isQueued = true ↔ s = .queued := by
  cases s <;> simp [isQueued]

/-- How many moves a loop makes at most that ends as soon as it checks whether it has to. -/
def remaining : Stage α → Nat
  | .ended _ => 0
  | .checking => 1
  | .calling _ _ | .yielded | .asleep _ _ => 2
  | .handing _ => 3
  | .spawned _ | .polling _ _ => 4
  | .queued => 5

/-- A loop comes closer to its end unless it gets in line for another poll. -/
theorem Leads.remaining_lt {s t : Stage α} (h : s.Leads t) (hne : t.isQueued = false) :
    t.remaining < s.remaining := by
  cases h with
  | queues => cases hne
  | _ => simp [remaining]

theorem Leads.checking_of_isQueued {s t : Stage α} (h : s.Leads t) (hqueued : t.isQueued = true) :
    s = .checking := by
  cases h with
  | queues => rfl
  | _ => cases hqueued

end Stage

/-- A loop that goes on has not ended. -/
theorem Stage.Leads.alive {s : Stage α} {m : Loop α} (h : s.Leads m.stage) :
    m.hasEnded = false := by
  generalize hm : m.stage = t at h
  cases h <;> simp [Loop.hasEnded, hm]

/-- A loop that has ended has nothing left, neither moves nor payloads. -/
theorem Loop.nothing_of_hasEnded {l : Loop α} (h : l.hasEnded = true) :
    l.stage.remaining = 0 ∧ l.stage.isQueued = false ∧ l.stage.payloads = [] := by
  unfold Loop.hasEnded at h
  split at h
  · next hs => simp [hs, Stage.remaining, Stage.isQueued, Stage.payloads]
  · cases h

theorem Loop.remaining_pos {l : Loop α} (h : l.hasEnded = false) : 0 < l.stage.remaining := by
  cases hs : l.stage with
  | ended => simp [Loop.hasEnded, hs] at h
  | _ => simp [Stage.remaining]

/-- Whether a loop may have become another one without a move of its own. -/
structure Loop.Stays (l m : Loop α) : Prop extends l.Becomes m where
  cancelled : l.cancelled = true → m.cancelled = true
  backoff : m.backoff = l.backoff
  /-- Only a task that is discarded leaves its place. -/
  stage : m.stage = l.stage ∨ m.hasEnded = true ∧ m.runs = false

theorem Loop.Stays.stage_eq {l m : Loop α} (h : l.Stays m) (runs : m.runs = true) :
    m.stage = l.stage := by
  rcases h.stage with hstage | ⟨-, hruns⟩
  · exact hstage
  · rw [runs] at hruns
    cases hruns

theorem Loop.Stays.stage_eq_of_alive {l m : Loop α} (h : l.Stays m) (hal : m.hasEnded = false) :
    m.stage = l.stage := by
  rcases h.stage with hstage | ⟨hend, -⟩
  · exact hstage
  · rw [hal] at hend
    cases hend

theorem Loop.Stays.refl (l : Loop α) : l.Stays l := ⟨.refl l, fun h => h, rfl, .inl rfl⟩

theorem Loop.Stays.trans {l m k : Loop α} (h : l.Stays m) (h' : m.Stays k) : l.Stays k where
  toBecomes := h.toBecomes.trans h'.toBecomes
  cancelled hc := h'.cancelled (h.cancelled hc)
  backoff := h'.backoff.trans h.backoff
  stage := by
    rcases h'.stage with hstage | hgone
    · rcases h.stage with hm | ⟨hend, hruns⟩
      · exact .inl (hstage.trans hm)
      · exact .inr ⟨h'.ended hend, h'.unrun hruns⟩
    · exact .inr hgone

theorem Loop.Stays.payloads {l m : Loop α} (h : l.Stays m) {x : α} (hx : x ∈ m.stage.payloads) :
    x ∈ l.stage.payloads := by
  rcases h.stage with hstage | ⟨hend, -⟩
  · exact hstage ▸ hx
  · simp [(Loop.nothing_of_hasEnded hend).2.2] at hx

theorem Loop.Stays.remaining {l m : Loop α} (h : l.Stays m) :
    m.stage.remaining ≤ l.stage.remaining ∧ m.stage.isQueued.toNat ≤ l.stage.isQueued.toNat := by
  rcases h.stage with hstage | ⟨hend, -⟩
  · simp [hstage]
  · obtain ⟨hnone, hqueued, -⟩ := Loop.nothing_of_hasEnded hend
    simp [hnone, hqueued]

/-- A loop that has ended without a move of its own was discarded, if it had not ended before. -/
theorem Loop.Stays.gone {l m : Loop α} (h : l.Stays m) (hend : m.hasEnded = true) :
    l.hasEnded = true ∨ m.runs = false := by
  rcases h.stage with hstage | ⟨-, hruns⟩
  · exact .inl (by simpa [Loop.hasEnded, hstage] using hend)
  · exact .inr hruns

/-- A loop that is asked to end stays where it is. -/
theorem Loop.stays_cancelled (l : Loop α) : l.Stays { l with cancelled := true } :=
  ⟨⟨rfl, rfl, fun hend => hend, .inl rfl⟩, fun _ => rfl, rfl, .inl rfl⟩

theorem Loop.stays_discarded {l : Loop α} (hal : l.hasEnded = false) : l.Stays l.discarded :=
  ⟨Loop.becomes_discarded hal, fun h => h, rfl, .inr ⟨rfl, rfl⟩⟩

/-- A poll has begun for a loop. -/
def Occurrence.begins (i : Nat) : Occurrence α → Bool
  | pollBegan j => j = i
  | _ => false

theorem Occurrence.begins_eq_false {o : Occurrence α} {i : Nat} (h : o.workOf? ≠ some i) :
    o.begins i = false := by
  cases o <;> simp_all [begins, workOf?]

theorem countP_begins_eq_zero {es : List (Occurrence α)} {i : Nat}
    (h : ∀ o ∈ es, o.workOf? ≠ some i) : es.countP (Occurrence.begins i) = 0 :=
  List.countP_eq_zero.2 fun o ho => by simp [Occurrence.begins_eq_false (h o ho)]

namespace Poller

variable {p q r : Poller α} {l m : Loop α} {c : Call α}

/-- Why a loop has ended. -/
inductive EndsFor (p : Poller α) (l : Loop α) (es : List (Occurrence α)) (q : Poller α) : Prop
  /-- The whole poller was asked to stop, if not before then by this end. -/
  | stopped (stopped : q.stopRequested = true)
  | cancelled (cancelled : l.cancelled = true)
  | abandoned (gone : p.waiterGone l = true)
  /-- It had or found a payload for its waiter. -/
  | delivered {call : String} {x : α} (waiter : l.consumer = .waiter call)
      (payload : x ∈ l.stage.payloads ∨ .polled l.id (.ok (.payload x)) ∈ es)

/-- Whether a loop has come further in one move. -/
def Advances (p : Poller α) (l : Loop α) (es : List (Occurrence α)) (q : Poller α) : Prop :=
  ∃ f : Loop α → Loop α, q.loops = (p.updateLoop l.id f).loops ∧ l.SameTask (f l) ∧
    (f l).cancelled = l.cancelled ∧
    (l.stage.Leads (f l).stage ∨ (f l).hasEnded = true ∧ p.EndsFor l es q)

/-- A loop that moves to another stage. -/
theorem advances_setStage (hr : r.loops = p.loops) {s t : Stage α} (hs : l.stage = s)
    (leads : s.Leads t) {es : List (Occurrence α)} : p.Advances l es (r.setStage l.id t) := by
  refine ⟨fun k => { k with stage := t }, ?_, ⟨rfl, rfl, rfl⟩, rfl, .inl (hs ▸ leads)⟩
  simp only [setStage, updateLoop, hr]

/-- A loop that ends, whatever became of its backoff and its script before. -/
theorem advances_finish {f : Loop α → Loop α} (hr : r.loops = (p.updateLoop l.id f).loops)
    (same : ∀ k : Loop α, k.SameTask (f k)) (kept : (f l).cancelled = l.cancelled) {e : Ending α}
    {es : List (Occurrence α)} (why : p.EndsFor l es (r.finish l e)) :
    p.Advances l es (r.finish l e) := by
  refine ⟨fun k => { f k with stage := .ended (exitOf l) }, ?_, ?_, kept, .inr ⟨rfl, why⟩⟩
  · rw [loops_finish, setStage, updateLoop, hr]
    exact loops_updateLoop_updateLoop p l.id fun k => (same k).id
  · exact ⟨(same l).id, (same l).consumer, (same l).runs⟩

/-- A loop that ends as it is. -/
theorem advances_finish_self (hr : r.loops = p.loops) {e : Ending α} {es : List (Occurrence α)}
    (why : p.EndsFor l es (r.finish l e)) : p.Advances l es (r.finish l e) := by
  refine advances_finish (f := id) ?_ (fun k => .refl k) rfl why
  simp [hr, updateLoop]

theorem stopRequested_finish (p : Poller α) (l : Loop α) (e : Ending α) :
    (p.finish l e).stopRequested = (p.stopRequested || e.stops) := by
  simp only [finish, handOver_eq, vacate]
  split <;> rfl

/-- A loop that fails stops its poller. -/
theorem endsFor_failed (p r : Poller α) (l : Loop α) (es : List (Occurrence α)) (f : Failure) :
    p.EndsFor l es (r.finish l (.failed f)) :=
  .stopped (by rw [stopRequested_finish]; simp [Ending.stops])

/-- What a loop does that is woken, or that has to end before a poll. -/
theorem advances_wake {w : Wake} (timer : w = .timer → l.stage.Leads .checking)
    (cancelled : w = .cancelled → p.isCancelled l = true)
    (gone : w = .abandoned → p.waiterGone l = true) : p.Advances l [] (p.wake l w) := by
  cases w with
  | timer =>
    exact ⟨fun k => { k with backoff := l.backoff.advance, stage := .checking }, rfl,
      ⟨rfl, rfl, rfl⟩, rfl, .inl (timer rfl)⟩
  | cancelled =>
    refine advances_finish_self rfl ?_
    rcases Bool.or_eq_true_iff.1 (cancelled rfl) with hl | hp
    · exact .cancelled hl
    · exact .stopped (by rw [stopRequested_finish, hp, Bool.true_or])
  | signalled =>
    refine advances_finish_self (p := p) (r := p.beginStopping) rfl (.stopped ?_)
    rw [stopRequested_finish]
    rfl
  | abandoned => exact advances_finish_self rfl (.abandoned (gone rfl))

theorem advances_beginLoop {backlog : Option α} (hs : l.stage = .spawned backlog) :
    p.Advances l [] (p.beginLoop l backlog) := by
  cases backlog with
  | none => exact advances_setStage (by rfl) hs .begins
  | some x =>
    cases hc : l.consumer with
    | waiter id =>
      simp only [beginLoop, hc]
      exact advances_finish_self (by rfl)
        (.delivered (x := x) hc (.inl (by simp [hs, Stage.payloads])))
    | subscriber subscription =>
      simp only [beginLoop, hc]
      exact advances_setStage (by rfl) hs .redelivers

theorem advances_endPoll {attempt : Attempt α} {due : Nat} (hs : l.stage = .polling attempt due)
    (r : Except Failure (Polled α)) (now : Nat) :
    p.Advances l (p.polling l r) (p.endPoll l now r) := by
  rcases r with f | _ | x
  · exact advances_finish_self rfl (endsFor_failed p p l _ f)
  · simp only [endPoll, foundNothing]
    split
    · exact advances_setStage (by rfl) hs .yields
    · exact advances_setStage (by rfl) hs .sleeps
  · -- The backoff is reset before the payload is handed over.
    cases hc : l.consumer with
    | waiter id =>
      simp only [endPoll, foundPayload, hc]
      exact advances_finish (f := fun k => { k with backoff := l.backoff.reset })
        (by rfl)
        (fun _ => ⟨rfl, rfl, rfl⟩) rfl (.delivered hc (.inr List.mem_cons_self))
    | subscriber subscription =>
      simp only [endPoll, foundPayload, hc]
      refine ⟨fun k => { k with backoff := l.backoff.reset, stage := .handing x }, ?_,
        ⟨rfl, rfl, rfl⟩, rfl, .inl (hs ▸ .hands)⟩
      exact loops_updateLoop_updateLoop p l.id fun _ => rfl

theorem advances_beginCallback {x : α} (hs : l.stage = .handing x) (now : Nat) :
    p.Advances l (p.invoking l x) (p.beginCallback l now) := by
  have hstarts : ∀ h due, p.Advances l (p.invoking l x)
      ((p.updateLoop l.id fun k => { k with script := l.script.next.2 }).setStage l.id
        (.calling h due)) := fun h due =>
    ⟨fun k => { k with script := l.script.next.2, stage := .calling h due },
      loops_updateLoop_updateLoop p l.id fun _ => rfl, ⟨rfl, rfl, rfl⟩, rfl, .inl (hs ▸ .calls)⟩
  simp only [beginCallback]
  cases l.script.next.1.outcome with
  | panickedAtOnce panic =>
    exact advances_finish (f := fun k => { k with script := l.script.next.2 }) rfl
      (fun _ => ⟨rfl, rfl, rfl⟩) rfl (endsFor_failed p _ l _ _)
  | done | failed reason | panicked panic => exact hstarts _ _

theorem advances_endCallback {handling : Handling α} {due : Nat}
    (hs : l.stage = .calling handling due) (o : CallbackOutcome) :
    p.Advances l (p.handling l o) (p.endCallback l o) := by
  cases o with
  | done => exact advances_setStage (by rfl) hs .returns
  | failed | panicked | panickedAtOnce => exact advances_finish_self rfl (endsFor_failed p p l _ _)

/-- A loop that moves comes further: it stands in a stage that the one before leads to, or it has
ended for a reason. -/
theorem LoopMove.advances {es} (hmove : p.LoopMove l es q) : p.Advances l es q := by
  cases hmove with
  | begins hs => exact advances_beginLoop hs
  | interrupted _ why =>
    rcases interruption?_eq_some why with ⟨rfl, hc⟩ | ⟨rfl, -⟩
    · exact advances_wake (by simp) (fun _ => hc) (by simp)
    · exact advances_wake (by simp) (by simp) (by simp)
  | queues hs => exact advances_setStage (by rfl) hs .queues
  | beginsPoll hs => exact advances_setStage (by rfl) hs .polls
  | endsPoll hs => exact advances_endPoll hs _ _
  | beginsCallback hs => exact advances_beginCallback hs _
  | endsCallback hs => exact advances_endCallback hs _
  | resumes hs =>
    exact advances_wake (w := .timer) (fun _ => hs ▸ .resumes) (by simp) (by simp)
  | wakes hs why =>
    obtain ⟨cancelled, -, gone⟩ := of_mem_wakes why
    exact advances_wake (fun _ => hs ▸ .wakes) cancelled gone

/-- A loop that moves begins to poll if it was in line for it, and not otherwise. -/
theorem LoopMove.countP_begins {es} (hmove : p.LoopMove l es q) :
    es.countP (Occurrence.begins l.id) = l.stage.isQueued.toNat := by
  have hfailing : ∀ f, (p.failing l f).countP (Occurrence.begins l.id) = 0 := fun f =>
    countP_begins_eq_zero fun o ho => by simp [workOf?_of_mem_failing ho]
  cases hmove with
  | begins hs | interrupted hs | queues hs | resumes hs | wakes hs =>
    simp [hs, Stage.isQueued]
  | beginsPoll hs => simp [hs, Stage.isQueued, Occurrence.begins]
  | @endsPoll _ _ r _ hs =>
    cases r <;> simp [hs, Stage.isQueued, polling, Occurrence.begins, hfailing]
  | beginsCallback hs =>
    simp only [invoking]
    split <;> simp [hs, Stage.isQueued, Occurrence.begins, hfailing]
  | endsCallback hs =>
    simp only [handling]
    split <;> simp [hs, Stage.isQueued, Occurrence.begins, hfailing]

/-- A loop stays where it is as long as only calls move. -/
theorem CallEffect.stays {v : Verdict α} (heffect : p.CallEffect c q v) (hl : l ∈ p.loops) :
    ∃ m ∈ q.loops, l.Stays m ∧ m.stage = l.stage := by
  cases heffect with
  | starts => exact ⟨l, List.mem_append_left _ hl, .refl l, rfl⟩
  | replaces | unsubscribes =>
    refine ⟨_, List.mem_map_of_mem hl, ?_⟩
    split
    · exact ⟨l.stays_cancelled, rfl⟩
    · exact ⟨.refl l, rfl⟩
  | reenters | leaves | reports =>
    rw [absorb_eq]
    exact ⟨l, hl, .refl l, rfl⟩
  | _ => exact ⟨l, hl, .refl l, rfl⟩

theorem SubscribeEffect.stays {subscription : String} {r : Except Error Unit}
    (heffect : p.SubscribeEffect subscription q r) (hl : l ∈ p.loops) :
    ∃ m ∈ q.loops, l.Stays m ∧ m.stage = l.stage := by
  cases heffect with
  | starts => exact ⟨l, List.mem_append_left _ hl, .refl l, rfl⟩
  | _ => exact ⟨l, hl, .refl l, rfl⟩

/-- A loop stays where it is when a task is discarded, unless that is its own. -/
theorem stays_discard (h : p.Consistent) (hm : m ∈ p.loops) (hal : m.hasEnded = false) :
    ∃ f : Loop α → Loop α, (p.discard m.id).loops = p.loops.map f ∧
      ∀ l ∈ p.loops, l.Stays (f l) := by
  refine ⟨_, rfl, fun l hl => ?_⟩
  split
  · next hid =>
    obtain rfl := h.eq_of_id hm hl hid
    exact Loop.stays_discarded hal
  · exact .refl l

/-- A loop that moves does not touch another one. -/
theorem Advances.stays {k : Loop α} {es} (hadvances : p.Advances k es q) (hl : l ∈ p.loops)
    (hne : l.id ≠ k.id) : l ∈ q.loops := by
  obtain ⟨f, hq, -⟩ := hadvances
  rw [hq]
  exact List.mem_map.2 ⟨l, hl, if_neg hne⟩

/-- A loop that has come further is there. -/
theorem Advances.exists_mem {es} (hadvances : p.Advances l es q) (hl : l ∈ p.loops) :
    ∃ m ∈ q.loops, l.SameTask m ∧ m.cancelled = l.cancelled ∧
      (l.stage.Leads m.stage ∨ m.hasEnded = true ∧ p.EndsFor l es q) := by
  obtain ⟨f, hq, hf⟩ := hadvances
  refine ⟨f l, ?_, hf⟩
  rw [hq]
  exact List.mem_map.2 ⟨l, hl, if_pos rfl⟩

/-- A loop does not work, and stays where it is, as long as the move is not its own. -/
theorem stays_of_act? (h : p.Sound) {cue : Cue α} {es} (hact : p.act? cue = some (es, q))
    (hl : l ∈ p.loops) (hother : ∀ own, cue ≠ .loop l.id own) :
    (∀ o ∈ es, o.workOf? ≠ some l.id) ∧ ∃ m ∈ q.loops, l.Stays m := by
  have hidle : (∀ o ∈ es, o.workOf? = none) → ∀ o ∈ es, o.workOf? ≠ some l.id := by
    intro hnone o ho
    simp [hnone o ho]
  cases cue with
  | loop i own =>
    obtain ⟨k, hk, hloop⟩ := Option.bind_eq_some_iff.1 hact
    obtain ⟨hmem, rfl⟩ := loop?_eq_some hk
    have hmove := loopMove_of_loopAct? hloop
    have hne : l.id ≠ k.id := fun hid => hother own (by rw [hid])
    refine ⟨fun o ho hwork => ?_, l, hmove.advances.stays hl hne, .refl l⟩
    -- What works in a move is the one loop that has not ended.
    obtain ⟨k', hk', hid, hal⟩ := Move.worker h (.loop hmem hmove) ho hwork
    rw [h.eq_of_alive hk' hmem hal hmove.alive] at hne
    exact hne hid.symm
  | call c =>
    simp only [act?] at hact
    split at hact
    · cases hact
      exact ⟨hidle (by simp [Occurrence.workOf?]), l, hl, .refl l⟩
    · cases hact
  | resume id runtime =>
    obtain ⟨c, hc, hcall⟩ := Option.bind_eq_some_iff.1 hact
    obtain ⟨hmem, -⟩ := call?_eq_some hc
    obtain ⟨r, v, goes, hq, htold⟩ := exists_of_callAct? hcall
    obtain ⟨m, hm, hstays, -⟩ := (callEffect_of_moveCall h hmem goes).stays hl
    rw [hq]
    refine ⟨hidle fun o ho => ?_, m, hm, hstays⟩
    rcases htold o ho with ho | ⟨x, rfl⟩
    · exact (still_of_mem_noticing ho).1
    · rcases c.returning_eq x with hr | hr <;> rw [hr] <;> rfl
  | drop id =>
    obtain ⟨c, hc, heq⟩ := Option.map_eq_some_iff.1 hact
    cases heq
    exact ⟨hidle (by simp [Occurrence.workOf?]), l, hl, .refl l⟩
  | subscribe runtime subscription script runs releasePanic =>
    simp only [act?] at hact
    split at hact
    · cases hact
      obtain ⟨m, hm, hstays, -⟩ :=
        (subscribeEffect p runtime subscription script runs releasePanic).stays hl
      refine ⟨hidle ?_, m, hm, hstays⟩
      cases (p.subscribe runtime subscription script runs releasePanic).2 <;>
        simp [subscribing, Occurrence.workOf?]
    · cases hact
  | stop | release =>
    cases hact
    exact ⟨by simp, l, hl, .refl l⟩
  | discard i =>
    obtain ⟨k, hk, rfl, waits, rfl, rfl⟩ := discard_of_act? hact
    obtain ⟨f, hloops, hstays⟩ := stays_discard h.toConsistent hk (Stage.alive_of_awaits waits)
    exact ⟨hidle (by simp [Occurrence.workOf?]), f l, hloops ▸ List.mem_map_of_mem hl, hstays l hl⟩

/-- A loop does not work, and stays where it is, for as long as it is not its turn. -/
theorem stays_of_perform? (h : p.Sound) {cues : List (Cue α)} {es}
    (hperform : p.perform? cues = some (es, q)) (hl : l ∈ p.loops)
    (hother : ∀ cue ∈ cues, cue.isOf l.id = false) :
    (∀ o ∈ es, o.workOf? ≠ some l.id) ∧ ∃ m ∈ q.loops, l.Stays m := by
  induction cues generalizing p l es with
  | nil =>
    cases hperform
    exact ⟨by simp, l, hl, .refl l⟩
  | cons cue cues ih =>
    obtain ⟨⟨es, r⟩, hact, hrest⟩ := Option.bind_eq_some_iff.1 hperform
    obtain ⟨⟨ts, r'⟩, hperform', hpair⟩ := Option.map_eq_some_iff.1 hrest
    cases hpair
    have hfirst : ∀ own, cue ≠ .loop l.id own := by
      rintro own rfl
      have hcue := hother _ List.mem_cons_self
      simp [Cue.isOf] at hcue
    obtain ⟨hidle, k, hk, hstays⟩ := stays_of_act? h hact hl hfirst
    have hlater : ∀ cue ∈ cues, cue.isOf k.id = false := by
      rw [hstays.id]
      exact fun cue hcue => hother cue (List.mem_cons_of_mem _ hcue)
    obtain ⟨hidle', m, hm, hstays'⟩ := ih (h.move (move_of_act? cue hact)) hperform' hk hlater
    refine ⟨fun o ho => ?_, m, hm, hstays.trans hstays'⟩
    rcases List.mem_append.1 ho with ho | ho
    · exact hidle o ho
    · exact hstays.id ▸ hidle' o ho

/-- What a task shows once it runs stays the same for as long as it is no loop's turn, and no task
is discarded. -/
theorem read_of_act? {β : Type} {g : Loop α → List β} (h : p.Sound) (hg : Loop.Reads g)
    (unrun : ∀ l b, l.stage = .spawned b → g l = []) {cue : Cue α} {es}
    (hact : p.act? cue = some (es, q)) (hother : ∀ i, cue.isOf i = false)
    (hkept : ∀ i, cue ≠ .discard i) : q.read g = p.read g := by
  cases cue with
  | loop i own =>
    have hi := hother i
    simp [Cue.isOf] at hi
  | call c =>
    simp only [act?] at hact
    split at hact <;> cases hact
    rfl
  | resume id runtime =>
    obtain ⟨c, hc, hcall⟩ := Option.bind_eq_some_iff.1 hact
    obtain ⟨hmem, -⟩ := call?_eq_some hc
    obtain ⟨r, v, goes, hq, -⟩ := exists_of_callAct? hcall
    have hread := (callEffect_of_moveCall h hmem goes).read_eq hg
    rw [hq]
    exact hread
  | drop id =>
    obtain ⟨c, hc, heq⟩ := Option.map_eq_some_iff.1 hact
    cases heq
    rfl
  | subscribe runtime subscription script runs releasePanic =>
    simp only [act?] at hact
    split at hact
    · cases hact
      exact (subscribeEffect p _ _ _ _ _).read_eq unrun
    · cases hact
  | stop | release =>
    cases hact
    rfl
  | discard i => exact absurd rfl (hkept i)

theorem read_of_perform? {β : Type} {g : Loop α → List β} (h : p.Sound) (hg : Loop.Reads g)
    (unrun : ∀ l b, l.stage = .spawned b → g l = []) {cues : List (Cue α)} {es}
    (hperform : p.perform? cues = some (es, q)) (hother : ∀ cue ∈ cues, ∀ i, cue.isOf i = false)
    (kept : ∀ i xs, .discarded i xs ∉ es) : q.read g = p.read g := by
  induction cues generalizing p es with
  | nil =>
    cases hperform
    rfl
  | cons cue cues ih =>
    obtain ⟨⟨es, r⟩, hact, hrest⟩ := Option.bind_eq_some_iff.1 hperform
    obtain ⟨⟨ts, r'⟩, hperform', hpair⟩ := Option.map_eq_some_iff.1 hrest
    cases hpair
    simp only [List.mem_append, not_or] at kept
    have hkept : ∀ i, cue ≠ .discard i := by
      rintro i rfl
      obtain ⟨l, -, -, -, rfl, -⟩ := discard_of_act? hact
      exact (kept i _).1 List.mem_cons_self
    have hfirst := read_of_act? h hg unrun hact (hother cue List.mem_cons_self) hkept
    have hlater := ih (h.move (move_of_act? cue hact)) hperform'
      (fun cue hcue => hother cue (List.mem_cons_of_mem _ hcue)) fun i xs => (kept i xs).2
    exact hlater.trans hfirst

end Poller

end Polling
