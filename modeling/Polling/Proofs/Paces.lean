import Polling.Proofs.Impulses
import Polling.Proofs.Rhythm
import Polling.Proofs.Stages

/-!
# The pace of a loop

`Loop.Paces` says what one move makes of a loop at a given time, with its backoff and with the
beats that the move tells: a poll that came back, or a callback that returned.  A loop that moves
in a system does so at the time of the clock (`System.Turn.paces`), and no loop is moved or paced by
anything else (`System.Response.stays`).
-/

namespace Polling

variable {α : Type}

/-- The beat of a loop that is told. -/
def Occurrence.beat? (i : Nat) : Occurrence α → Option Beat
  | polled j (.ok .empty) => if j = i then some .empty else none
  | polled j (.ok (.payload _)) => if j = i then some .payload else none
  | handled j .done => if j = i then some .handled else none
  | _ => none

/-- What a loop becomes in one move at the time `now`, and the beats that are told of it. -/
inductive Loop.Paces (now : Nat) (l k : Loop α) : List Beat → Prop
  | begins (stage : l.stage = .spawned none) (next : k.stage = .checking)
      (same : k.backoff = l.backoff) (runs : l.runs = true) : Paces now l k []
  | redelivers {x} (stage : l.stage = .spawned (some x)) (next : k.stage = .handing x)
      (same : k.backoff = l.backoff) : Paces now l k []
  | queues (stage : l.stage = .checking) (next : k.stage = .queued)
      (same : k.backoff = l.backoff) : Paces now l k []
  | polls {attempt due} (stage : l.stage = .queued) (next : k.stage = .polling attempt due)
      (same : k.backoff = l.backoff) : Paces now l k []
  /-- A pause of no length is none. -/
  | yields {attempt due} (stage : l.stage = .polling attempt due) (next : k.stage = .yielded)
      (same : k.backoff = l.backoff) (none : l.backoff.current.isZero = true) :
      Paces now l k [.empty]
  | sleeps {attempt due} (stage : l.stage = .polling attempt due)
      (next : k.stage = .asleep l.backoff.current (now + l.backoff.current.timer))
      (same : k.backoff = l.backoff) (some : l.backoff.current.isZero = false) :
      Paces now l k [.empty]
  | hands {attempt due x} (stage : l.stage = .polling attempt due) (next : k.stage = .handing x)
      (reset : k.backoff = l.backoff.reset) : Paces now l k [.payload]
  | calls {x handling due} (stage : l.stage = .handing x) (next : k.stage = .calling handling due)
      (same : k.backoff = l.backoff) : Paces now l k []
  | returns {handling due} (stage : l.stage = .calling handling due) (next : k.stage = .checking)
      (same : k.backoff = l.backoff) : Paces now l k [.handled]
  | resumes (stage : l.stage = .yielded) (next : k.stage = .checking)
      (advanced : k.backoff = l.backoff.advance) : Paces now l k []
  | wakes {pause due} (stage : l.stage = .asleep pause due) (passed : due ≤ now)
      (next : k.stage = .checking) (advanced : k.backoff = l.backoff.advance) : Paces now l k []
  /-- A loop that is in line for a poll does not end. -/
  | ends (polls : l.stage.isQueued = false) (ended : k.hasEnded = true) : Paces now l k []
  | delivers {attempt due} (stage : l.stage = .polling attempt due) (ended : k.hasEnded = true) :
      Paces now l k [.payload]

/-- What has ended does not come back. -/
theorem Loop.Paces.ended {now : Nat} {l k : Loop α} {bs : List Beat} (h : l.Paces now k bs)
    (hend : l.hasEnded = true) : k.hasEnded = true := by
  cases h with
  | ends _ ended | delivers _ ended => exact ended
  | _ => simp_all [hasEnded]

namespace Poller

variable {p q r : Poller α} {l : Loop α} {now : Nat} {es : List (Occurrence α)}

/-- Whether a loop has come further in one move at the time `now`. -/
def Paces (p : Poller α) (l : Loop α) (now : Nat) (es : List (Occurrence α)) (q : Poller α) :
    Prop :=
  ∃ f : Loop α → Loop α, q.loops = (p.updateLoop l.id f).loops ∧ l.SameTask (f l) ∧
    (f l).cancelled = l.cancelled ∧ l.Paces now (f l) (es.filterMap (Occurrence.beat? l.id))

/-- What is told of a failure is no beat. -/
theorem beats_failing (p : Poller α) (l : Loop α) (f : Failure) (i : Nat) :
    (p.failing l f).filterMap (Occurrence.beat? i) = [] := by
  refine List.filterMap_eq_nil_iff.2 fun o ho => ?_
  obtain ⟨g, rfl⟩ | ⟨listener, rfl⟩ := mem_failing ho <;> rfl

/-- A loop that moves to another stage. -/
theorem paces_setStage {t : Stage α} (hr : r.loops = p.loops)
    (hl : l.Paces now { l with stage := t } (es.filterMap (Occurrence.beat? l.id))) :
    p.Paces l now es (r.setStage l.id t) := by
  refine ⟨fun k => { k with stage := t }, ?_, ⟨rfl, rfl, rfl⟩, rfl, hl⟩
  simp only [setStage, updateLoop, hr]

/-- A loop that ends, whatever became of its backoff and its script before. -/
theorem paces_finish {f : Loop α → Loop α} (hr : r.loops = (p.updateLoop l.id f).loops)
    (same : ∀ k : Loop α, k.SameTask (f k)) (kept : (f l).cancelled = l.cancelled) {e : Ending α}
    (hl : ∀ k : Loop α, k.hasEnded = true →
      l.Paces now k (es.filterMap (Occurrence.beat? l.id))) :
    p.Paces l now es (r.finish l e) := by
  refine ⟨fun k => { f k with stage := .ended (exitOf l) }, ?_, ?_, kept, hl _ rfl⟩
  · rw [loops_finish, setStage, updateLoop, hr]
    exact loops_updateLoop_updateLoop p l.id fun k => (same k).id
  · exact ⟨(same l).id, (same l).consumer, (same l).runs⟩

/-- A loop that ends as it is, and tells no beat. -/
theorem paces_finish_self (hr : r.loops = p.loops) {e : Ending α}
    (polls : l.stage.isQueued = false) (told : es.filterMap (Occurrence.beat? l.id) = []) :
    p.Paces l now es (r.finish l e) := by
  refine paces_finish (f := id) ?_ (fun k => .refl k) rfl fun k hk => ?_
  · simp [hr, updateLoop]
  · rw [told]
    exact .ends polls hk

theorem paces_wake {w : Wake} (polls : l.stage.isQueued = false)
    (timer : w = .timer →
      l.Paces now { l with backoff := l.backoff.advance, stage := .checking } []) :
    p.Paces l now [] (p.wake l w) := by
  cases w with
  | timer =>
    exact ⟨fun k => { k with backoff := l.backoff.advance, stage := .checking }, rfl,
      ⟨rfl, rfl, rfl⟩, rfl, timer rfl⟩
  | cancelled | abandoned => exact paces_finish_self rfl polls rfl
  | signalled => exact paces_finish_self (p := p) (r := p.beginStopping) rfl polls rfl

theorem paces_beginLoop {backlog : Option α} (hs : l.stage = .spawned backlog)
    (runs : l.runs = true) : p.Paces l now [] (p.beginLoop l backlog) := by
  cases backlog with
  | none => exact paces_setStage (by rfl) (.begins hs rfl rfl runs)
  | some x =>
    cases hc : l.consumer with
    | waiter id =>
      simp only [beginLoop, hc]
      exact paces_finish_self (by rfl) (by rw [hs]; rfl) rfl
    | subscriber subscription =>
      simp only [beginLoop, hc]
      exact paces_setStage (by rfl) (.redelivers hs rfl rfl)

theorem paces_endPoll {attempt : Attempt α} {due : Nat} (hs : l.stage = .polling attempt due)
    (r : Except Failure (Polled α)) : p.Paces l now (p.polling l r) (p.endPoll l now r) := by
  have hpolls : l.stage.isQueued = false := by rw [hs]; rfl
  rcases r with f | _ | x
  · refine paces_finish_self rfl hpolls ?_
    simp only [polling]
    rw [List.filterMap_cons_none rfl]
    exact beats_failing p l f l.id
  · have htold : (p.polling l (.ok .empty)).filterMap (Occurrence.beat? l.id) = [.empty] := by
      simp [polling, Occurrence.beat?]
    simp only [endPoll, foundNothing]
    split
    · next hzero =>
      refine paces_setStage (by rfl) ?_
      rw [htold]
      exact .yields hs rfl rfl hzero
    · next hsome =>
      refine paces_setStage (by rfl) ?_
      rw [htold]
      exact .sleeps hs rfl rfl (by simpa using hsome)
  · have htold : (p.polling l (.ok (.payload x))).filterMap (Occurrence.beat? l.id) =
        [.payload] := by
      simp [polling, Occurrence.beat?]
    -- The backoff is reset before the payload is handed over.
    cases hc : l.consumer with
    | waiter id =>
      simp only [endPoll, foundPayload, hc]
      refine paces_finish (f := fun k => { k with backoff := l.backoff.reset }) (by rfl)
        (fun _ => ⟨rfl, rfl, rfl⟩) rfl fun k hk => ?_
      rw [htold]
      exact .delivers hs hk
    | subscriber subscription =>
      simp only [endPoll, foundPayload, hc]
      refine ⟨fun k => { k with backoff := l.backoff.reset, stage := .handing x }, ?_,
        ⟨rfl, rfl, rfl⟩, rfl, ?_⟩
      · exact loops_updateLoop_updateLoop p l.id fun _ => rfl
      · rw [htold]
        exact .hands hs rfl rfl

theorem paces_beginCallback {x : α} (hs : l.stage = .handing x) :
    p.Paces l now (p.invoking l x) (p.beginCallback l now) := by
  have htold : ∀ es : List (Occurrence α), es.filterMap (Occurrence.beat? l.id) = [] →
      (.invoked l.id x :: es : List (Occurrence α)).filterMap (Occurrence.beat? l.id) = [] := by
    intro es hes
    rw [List.filterMap_cons_none rfl, hes]
  have hcalls : ∀ h due es, es.filterMap (Occurrence.beat? l.id) = [] → p.Paces l now es
      ((p.updateLoop l.id fun k => { k with script := l.script.next.2 }).setStage l.id
        (.calling h due)) := by
    intro h due es hes
    refine ⟨fun k => { k with script := l.script.next.2, stage := .calling h due },
      loops_updateLoop_updateLoop p l.id fun _ => rfl, ⟨rfl, rfl, rfl⟩, rfl, ?_⟩
    rw [hes]
    exact .calls hs rfl rfl
  simp only [beginCallback, invoking]
  cases l.script.next.1.outcome with
  | panickedAtOnce panic =>
    refine paces_finish (f := fun k => { k with script := l.script.next.2 }) rfl
      (fun _ => ⟨rfl, rfl, rfl⟩) rfl fun k hk => ?_
    rw [htold _ (beats_failing p l _ l.id)]
    exact .ends (by rw [hs]; rfl) hk
  | done | failed reason | panicked panic => exact hcalls _ _ _ (htold [] rfl)

theorem paces_endCallback {handling : Handling α} {due : Nat}
    (hs : l.stage = .calling handling due) (o : CallbackOutcome) :
    p.Paces l now (p.handling l o) (p.endCallback l o) := by
  have hfails : ∀ f, Occurrence.beat? l.id (.handled l.id o : Occurrence α) = none →
      p.Paces l now (.handled l.id o :: p.failing l f) (p.finish l (.failed f)) := by
    intro f hnone
    refine paces_finish_self rfl (by rw [hs]; rfl) ?_
    rw [List.filterMap_cons_none hnone]
    exact beats_failing p l f l.id
  cases o with
  | done =>
    refine paces_setStage (by rfl) ?_
    simp only [Poller.handling, Occurrence.beat?, List.filterMap_cons, List.filterMap_nil, if_true]
    exact .returns hs rfl rfl
  | failed | panicked | panickedAtOnce => exact hfails _ rfl

/-- A loop that moves on cue does so at the time that the cue shows. -/
theorem paces_of_loopAct? {own : LoopCue α} (h : p.loopAct? l own = some (es, q))
    (hnow : ∀ shown, own.now? = some shown → shown = now) : p.Paces l now es q := by
  unfold loopAct? at h
  split at h
  · next backlog hs =>
    split at h
    · next runs =>
      cases h
      exact paces_beginLoop hs runs
    · cases h
  · next raised hs =>
    split at h
    · next w why =>
      cases h
      refine paces_wake (by rw [hs]; rfl) fun hw => ?_
      rcases interruption?_eq_some why with ⟨rfl, -⟩ | ⟨rfl, -⟩ <;> cases hw
    · cases h
      exact paces_setStage rfl (.queues hs rfl rfl)
  · next hs =>
    cases h
    exact paces_setStage rfl (.polls hs rfl rfl)
  · next shown hs =>
    cases h
    obtain rfl := hnow shown rfl
    exact paces_endPoll hs _
  · next x shown hs =>
    cases h
    obtain rfl := hnow shown rfl
    exact paces_beginCallback hs
  · next hs =>
    cases h
    exact paces_endCallback hs _
  · next hs =>
    cases h
    exact paces_wake (w := .timer) (by rw [hs]; rfl) fun _ => .resumes hs rfl rfl
  · next due w shown raised hs =>
    split at h
    · next why =>
      cases h
      obtain rfl := hnow shown rfl
      refine paces_wake (by rw [hs]; rfl) fun hw => ?_
      exact .wakes hs (due_le_of_timer (hw ▸ why)) rfl rfl
    · cases h
  · cases h

end Poller

namespace System

variable {s t : System α} {p name : String} {m : Member α} {l : Loop α} {es : List (Incident α)}

/-- Acts change no loop. -/
theorem loops_acts (as : List (Act α)) (hm : s.member? name = some m) :
    ∃ n, (s.acts as).member? name = some n ∧ n.lock = m.lock ∧ n.poller.loops = m.poller.loops := by
  rcases member?_acts as hm with h | h
  · exact ⟨m, h, rfl, rfl⟩
  · exact ⟨m.stopped, h, rfl, rfl⟩

/-- A loop moves at the time of the clock. -/
theorem Turn.paces {as : List (Act α)} {os : List (Occurrence α)} {own : LoopCue α}
    {g : Member α → Member α} (h : s.Turn p m l t as os own g) (hm : s.member? p = some m) :
    ∃ n, t.member? p = some n ∧ n.lock = m.lock ∧ m.poller.Paces l s.clock os n.poller := by
  obtain ⟨n, hn, hlock, hloops⟩ := loops_acts as hm
  have ht := member?_modify (s := s.acts as) g h.members p
  rw [if_pos rfl, hn, Option.map_some] at ht
  obtain ⟨f, hf, hpaces⟩ := Poller.paces_of_loopAct? (h.moves n hn) h.now
  refine ⟨g n, ht, (h.lock n).trans hlock, f, ?_, hpaces⟩
  simp only [hf, Poller.updateLoop, hloops]

/-- A loop stays where it is for as long as it is not its turn, and does not work. -/
theorem Response.stays (h : s.Response es t) (hs : s.Reachable) (hm : s.member? name = some m)
    (hl : l ∈ m.poller.loops) (still : es.countP (Incident.isTurnOf name l.id) = 0) :
    (∀ o ∈ es.filterMap (Incident.of? name), o.workOf? ≠ some l.id) ∧
      ∃ n k, t.member? name = some n ∧ n.lock = m.lock ∧ k ∈ n.poller.loops ∧ l.Stays k := by
  obtain ⟨n, cues, hn, hperforms⟩ := h.takes hm
  have hother : ∀ cue ∈ cues, cue.isOf l.id = false := by
    rw [← hperforms.turns] at still
    simpa using List.countP_eq_zero.1 still
  obtain ⟨hidle, k, hk, hstays⟩ :=
    Poller.stays_of_perform? (hs.poller hm).sound hperforms.performed hl hother
  exact ⟨hidle, n, k, hn, hperforms.lock, hk, hstays⟩

/-- The beats of a loop that are told. -/
def beats (name : String) (i : Nat) (es : List (Incident α)) : List Beat :=
  (es.filterMap (Incident.of? name)).filterMap (Occurrence.beat? i)

/-- Whoever does not work has no beat. -/
theorem beat?_eq_none {o : Occurrence α} {i : Nat} (h : o.workOf? ≠ some i) : o.beat? i = none := by
  unfold Occurrence.beat?
  split <;> simp_all [Occurrence.workOf?]

/-- In an impulse a loop makes one move at the time of the clock, or it stays where it is. -/
theorem Response.paces_or_stays (h : s.Response es t) (hs : s.Reachable)
    (hm : s.member? name = some m) (hl : l ∈ m.poller.loops) :
    ∃ n k, t.member? name = some n ∧ k ∈ n.poller.loops ∧ l.Becomes k ∧
      (l.Stays k ∧ beats name l.id es = [] ∨
        l.Paces s.clock k (beats name l.id es) ∧ t.clock = s.clock) := by
  by_cases still : es.countP (Incident.isTurnOf name l.id) = 0
  · obtain ⟨hidle, n, k, hn, -, hk, hstays⟩ := h.stays hs hm hl still
    refine ⟨n, k, hn, hk, hstays.toBecomes, .inl ⟨hstays, ?_⟩⟩
    exact List.filterMap_eq_nil_iff.2 fun o ho => beat?_eq_none (hidle o ho)
  · cases h with
    | @turn p m' l' t hm' hl' ht =>
      obtain ⟨as, os, own, g, hturn⟩ := exists_turn hm' ht
      rw [hturn.told, countP_isTurnOf_turnOf] at still
      have hown : p = name ∧ l'.id = l.id := by
        by_contra hnot
        refine still ?_
        by_cases hp : p = name <;> by_cases hi : l'.id = l.id <;> simp_all
      obtain ⟨rfl, hid⟩ := hown
      obtain rfl := Option.some.inj (hm.symm.trans hm')
      obtain rfl := (hs.poller hm).sound.eq_of_id hl (Poller.loop?_eq_some hl').1 hid
      obtain ⟨n, hn, -, f, hloops, same, -, hpaces⟩ := hturn.paces hm
      refine ⟨n, f l', hn, ?_, same.becomes hpaces.ended, .inr ⟨?_, hturn.clock⟩⟩
      · rw [hloops]
        exact List.mem_map.2 ⟨l', hl, if_pos rfl⟩
      · rw [hturn.told, beats, filterMap_of?_turnOf, if_pos rfl]
        exact hpaces
    | cue => exact absurd (countP_isTurnOf_befell _ _ _ _) still
    | discard => exact absurd (countP_isTurnOf_befell _ _ _ [_]) still
    | act a => cases a <;> exact absurd rfl still
    | build | drop | pass | note => exact absurd rfl still

/-- The clock never goes back. -/
theorem Response.clock_le (h : s.Response es t) : s.clock ≤ t.clock := by
  cases h with
  | turn hm _ ht =>
    obtain ⟨as, os, own, g, hturn⟩ := exists_turn hm ht
    exact Nat.le_of_eq hturn.clock.symm
  | act a => exact Nat.le_of_eq (clock_acts s [a]).symm
  | pass ms => exact Nat.le_add_right _ _
  | _ => exact Nat.le_refl _

end System

end Polling
