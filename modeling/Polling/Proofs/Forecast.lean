import Polling.Proofs.Mortality
import Polling.Proofs.Phases
import Polling.Proofs.Standby
import Polling.Proofs.Succession
import Polling.Proofs.Timing

/-!
# What the gauge tells of the next pause

The gauge of a poller is meant to show the pause after the next empty poll.  It shows where the
backoff of the last loop stands, or stood when that loop ended (`Reachable.gauged`).  While the loop
pauses that is the present pause and not the next one, and once the loop has ended it is not where
the next loop starts.  Main statement: these are the only two ways in which the gauge of a settled
poller can be wrong (`gauge_foretells_iff`).
-/

namespace Polling

variable {α : Type}

theorem Phase.afterStop_ne_idle (a : Phase) : a.afterStop ≠ idle := by
  cases a <;> simp [afterStop]

namespace Loop

/-- Whether the task of a loop has run. -/
def hasBegun (l : Loop α) : Bool :=
  match l.stage with
  | .spawned _ => false
  | _ => l.runs

/-- The pause that a loop makes after its next poll, if that finds nothing. -/
def nextPause (l : Loop α) : Duration :=
  if l.stage.isPause then l.backoff.advance.current else l.backoff.current

theorem alive_of_isPause {l : Loop α} (h : l.stage.isPause = true) : l.hasEnded = false := by
  cases hs : l.stage <;> simp_all [Stage.isPause, hasEnded]

end Loop

namespace Poller

variable {p q r : Poller α} {l k : Loop α} {c : Call α} {es tr : List (Occurrence α)} {i : Nat}

/-! ### What the gauge shows -/

/-- Whether the gauge shows where the backoff of a loop stands that has moved. -/
def Records (p : Poller α) (l : Loop α) (q : Poller α) : Prop :=
  ∃ f : Loop α → Loop α, q.loops = (p.updateLoop l.id f).loops ∧
    q.delayMillis = (f l).backoff.current.millis

theorem delayMillis_finish (p : Poller α) (l : Loop α) (e : Ending α) :
    (p.finish l e).delayMillis = p.delayMillis := by
  simp only [finish, handOver_eq, vacate]
  split <;> rfl

theorem records_setStage {s : Stage α} (hr : r.loops = p.loops)
    (shown : r.delayMillis = l.backoff.current.millis) : p.Records l (r.setStage l.id s) :=
  ⟨fun k => { k with stage := s }, by simp only [setStage, updateLoop, hr], shown⟩

/-- A loop that ends, whatever became of its backoff and its script before. -/
theorem records_finish {f : Loop α → Loop α} (hr : r.loops = (p.updateLoop l.id f).loops)
    (same : ∀ k : Loop α, (f k).id = k.id) (shown : r.delayMillis = (f l).backoff.current.millis)
    (e : Ending α) : p.Records l (r.finish l e) := by
  refine ⟨fun k => { f k with stage := .ended (exitOf l) }, ?_, ?_⟩
  · rw [loops_finish, setStage, updateLoop, hr]
    exact loops_updateLoop_updateLoop p l.id same
  · rw [delayMillis_finish]
    exact shown

theorem records_finish_self (hr : r.loops = p.loops)
    (shown : r.delayMillis = l.backoff.current.millis) (e : Ending α) :
    p.Records l (r.finish l e) := by
  refine records_finish (f := id) ?_ (fun _ => rfl) shown e
  simp [hr, updateLoop]

/-- Whatever the gauge showed before, a loop that begins shows its first pause. -/
theorem records_beginLoop (p : Poller α) (l : Loop α) (backlog : Option α) :
    p.Records l (p.beginLoop l backlog) := by
  unfold beginLoop
  split
  · exact records_setStage rfl rfl
  · exact records_finish_self rfl rfl _
  · exact records_setStage rfl rfl

theorem records_wake (shown : p.delayMillis = l.backoff.current.millis) (w : Wake) :
    p.Records l (p.wake l w) := by
  cases w with
  | timer => exact ⟨fun k => { k with backoff := l.backoff.advance, stage := .checking }, rfl, rfl⟩
  | cancelled | abandoned => exact records_finish_self rfl shown _
  | signalled => exact records_finish_self (r := p.beginStopping) rfl shown _

theorem records_endPoll (shown : p.delayMillis = l.backoff.current.millis) (now : Nat)
    (r : Except Failure (Polled α)) : p.Records l (p.endPoll l now r) := by
  rcases r with f | _ | x
  · exact records_finish_self rfl shown _
  · simp only [endPoll, foundNothing]
    split <;> exact records_setStage rfl shown
  · simp only [endPoll, foundPayload]
    split
    · exact records_finish (f := fun k => { k with backoff := l.backoff.reset }) rfl (fun _ => rfl)
        rfl _
    · exact ⟨fun k => { k with backoff := l.backoff.reset, stage := .handing x },
        loops_updateLoop_updateLoop p l.id fun _ => rfl, rfl⟩

theorem records_beginCallback (shown : p.delayMillis = l.backoff.current.millis) (now : Nat) :
    p.Records l (p.beginCallback l now) := by
  unfold beginCallback
  dsimp only
  split
  · exact records_finish (f := fun k => { k with script := l.script.next.2 }) rfl (fun _ => rfl)
      shown _
  · exact ⟨fun k => { k with script := l.script.next.2, stage := .calling _ _ },
      loops_updateLoop_updateLoop p l.id fun _ => rfl, shown⟩

theorem records_endCallback (shown : p.delayMillis = l.backoff.current.millis)
    (o : CallbackOutcome) : p.Records l (p.endCallback l o) := by
  cases o with
  | done => exact records_setStage rfl shown
  | failed | panicked | panickedAtOnce => exact records_finish_self rfl shown _

/-- A loop keeps the gauge at where its backoff stands, from when it begins to when it ends. -/
theorem LoopMove.records (hmove : p.LoopMove l es q)
    (shown : (∀ b, l.stage ≠ .spawned b) → p.delayMillis = l.backoff.current.millis) :
    p.Records l q := by
  cases hmove with
  | begins => exact records_beginLoop p l _
  | interrupted hs | wakes hs => exact records_wake (shown (by simp [hs])) _
  | queues hs | beginsPoll hs => exact records_setStage rfl (shown (by simp [hs]))
  | endsPoll hs => exact records_endPoll (shown (by simp [hs])) _ _
  | beginsCallback hs => exact records_beginCallback (shown (by simp [hs])) _
  | endsCallback hs => exact records_endCallback (shown (by simp [hs])) _
  | resumes hs => exact records_wake (w := .timer) (shown (by simp [hs]))

/-- Whether the gauge shows where the last loop stands or stood when it ended. -/
structure Gauged (p : Poller α) : Prop where
  latest : ∀ a, p.current = some a → a.loop = p.started
  shown : ∀ l ∈ p.loops, l.id = p.started → l.hasBegun = true →
    p.delayMillis = l.backoff.current.millis
  /-- Only a loop that has run leaves the poller idle. -/
  left : p.phase = .idle → ∀ l ∈ p.loops, l.id = p.started → l.hasBegun = true
  untouched : p.started = 0 → p.delayMillis = p.pacing.initial.millis

theorem gauged_idle (name : String) (pacing : Pacing) :
    (idle name pacing : Poller α).Gauged := by
  constructor <;> simp [idle]

theorem hasBegun_iff : l.hasBegun = true ↔ l.runs = true ∧ ∀ b, l.stage ≠ .spawned b := by
  unfold Loop.hasBegun
  cases l.stage <;> simp

/-- A loop that is not discarded has begun if it had before. -/
theorem hasBegun_of_stays (h : l.Stays k) (hruns : k.runs = l.runs) :
    k.hasBegun = true ↔ l.hasBegun = true := by
  rw [hasBegun_iff, hasBegun_iff, hruns]
  refine and_congr_right fun runs => ?_
  rw [h.stage_eq (hruns.trans runs)]

/-- The present loop is the last one that was started. -/
theorem Gauged.id_eq (hg : p.Gauged) (h : p.Sound) (hl : l ∈ p.loops) (hal : l.hasEnded = false) :
    l.id = p.started := by
  obtain ⟨j, hj⟩ := h.alive l hl hal
  exact hg.latest _ hj

/-- A loop that moves has run then. -/
theorem LoopMove.hasBegun (h : p.Sound) (hl : l ∈ p.loops) (hmove : p.LoopMove l es q)
    (hk : k ∈ q.loops) (hid : k.id = l.id) : k.hasBegun = true := by
  obtain ⟨f, hq, same, -, hstage⟩ := hmove.advances
  obtain rfl := h.eq_of_updateLoop hl hq hk hid
  refine hasBegun_iff.2 ⟨same.runs.trans ?_, fun b hs => ?_⟩
  · cases hmove.effect h.toConsistent hl with
    | goesOn ran | ends ran => exact ran
  · rcases hstage with hleads | ⟨hend, -⟩
    · exact hleads.ne_spawned b hs
    · simp [Loop.hasEnded, hs] at hend

/-- No call touches the gauge, and none leaves the poller idle that was not idle before. -/
theorem CallEffect.even {v : Verdict α} (heffect : p.CallEffect c q v) :
    q.delayMillis = p.delayMillis ∧ (q.phase = .idle → p.phase = .idle) := by
  cases heffect with
  | starts | clears | cleared => exact ⟨rfl, fun hphase => by cases hphase⟩
  | closes | closed => exact ⟨rfl, fun hphase => absurd hphase p.phase.afterStop_ne_idle⟩
  | reenters | leaves | reports =>
    rw [absorb_eq]
    exact ⟨rfl, id⟩
  | _ => exact ⟨rfl, id⟩

theorem SubscribeEffect.even {subscription : String} {r : Except Error Unit}
    (heffect : p.SubscribeEffect subscription q r) :
    q.delayMillis = p.delayMillis ∧ (q.phase = .idle → p.phase = .idle) := by
  cases heffect with
  | starts => exact ⟨rfl, fun hphase => by cases hphase⟩
  | _ => exact ⟨rfl, id⟩

/-- Only loops touch the gauge and leave the poller idle. -/
theorem Move.loop_or_even (h : p.Sound) (hmove : p.Move es q) : (∃ l ∈ p.loops, p.LoopMove l es q) ∨
    q.delayMillis = p.delayMillis ∧ (q.phase = .idle → p.phase = .idle) := by
  cases hmove with
  | loop mem move => exact .inl ⟨_, mem, move⟩
  | proceed mem _ goes | finish mem _ goes =>
    -- Where the call stands afterwards is not shown.
    have heven := (callEffect_of_moveCall h mem goes).even
    exact .inr heven
  | subscribe => exact .inr (subscribeEffect p _ _ _ _ _).even
  | stop => exact .inr ⟨rfl, fun hphase => absurd hphase p.phase.afterStop_ne_idle⟩
  | call | drop | release | discard => exact .inr ⟨rfl, id⟩

/-- A poller that has a loop is not idle. -/
theorem Sound.ne_idle (h : p.Sound) (hne : p.current ≠ none) : p.phase ≠ .idle := by
  rcases h.engaged hne with hphase | hphase <;> simp [hphase]

/-- No loop is started beside another one. -/
theorem Move.started_eq (h : p.Sound) (hmove : p.Move es q) (hne : p.current ≠ none) :
    q.started = p.started := by
  rcases hmove.phaseFollows h with ⟨heq, -⟩ | ⟨-, hidle, -⟩
  · exact heq
  · exact absurd hidle (h.ne_idle hne)

theorem Move.latest (h : p.Sound) (ha : p.Accounted) (hg : p.Gauged) (hmove : p.Move es q)
    {a : Attachment} (hcurrent : q.current = some a) : a.loop = q.started := by
  rcases (ha.mortalMove (.moves hmove)).current a hcurrent with hp | ⟨hp, -⟩ | ⟨hlt, hle⟩
  · rw [hmove.started_eq h (by simp [hp]), hg.latest a hp]
  · rw [hmove.started_eq h (by simp [hp]), ← hg.latest _ hp]
  · -- A loop that is named for the first time has just been started.
    rcases hmove.phaseFollows h with ⟨heq, -⟩ | ⟨heq, -⟩ <;> omega

/-- A loop that moves shows where its backoff stands from now on. -/
theorem LoopMove.gauged (h : p.Sound) (ha : p.Accounted) (hg : p.Gauged) (hl : l ∈ p.loops)
    (hmove : p.LoopMove l es q) : q.Gauged := by
  have hid := hg.id_eq h hl hmove.alive
  have hstarted : q.started = p.started := by
    obtain ⟨j, hj⟩ := h.alive l hl hmove.alive
    exact (Move.loop hl hmove).started_eq h (by simp [hj])
  have hmine : ∀ k ∈ q.loops, k.id = q.started → k.id = l.id := fun k _ hk =>
    hk.trans (hstarted.trans hid.symm)
  constructor
  · exact fun a hcurrent => (Move.loop hl hmove).latest h ha hg hcurrent
  · intro k hk hlast _
    obtain ⟨f, hq, hshown⟩ := hmove.records fun hs =>
      hg.shown l hl hid (hasBegun_iff.2 ⟨hmove.ran h.toConsistent hl, hs⟩)
    rw [h.eq_of_updateLoop hl hq hk (hmine k hk hlast)]
    exact hshown
  · exact fun _ k hk hlast => hmove.hasBegun h hl hk (hmine k hk hlast)
  · intro hzero
    -- There is no loop with the number zero.
    have hmem := List.mem_map_of_mem (f := Loop.id) hl
    rw [ha.ids, hid, ← hstarted, hzero] at hmem
    simp at hmem

theorem Gauged.move (hg : p.Gauged) (h : p.Sound) (ha : p.Accounted) (hmove : p.Move es q) :
    q.Gauged := by
  rcases hmove.loop_or_even h with ⟨l, hl, move⟩ | ⟨hsame, hidle⟩
  · exact move.gauged h ha hg hl
  · have hle : p.started ≤ q.started := (ha.mortalMove (.moves hmove)).started
    -- The last loop has stayed where it was, or it has not run yet.
    have hlast : ∀ k ∈ q.loops, k.id = q.started →
        (∃ l ∈ p.loops, l.id = p.started ∧ l.Stays k) ∨ q.Gauged ∨ ∃ b, k.stage = .spawned b := by
      intro k hk hid
      rcases hmove.origin h hk with ⟨l, hl, hstays⟩ | ⟨l, hl, move, -⟩ | ⟨-, hspawned⟩
      · have := h.id_le l hl
        have := hstays.id
        exact .inl ⟨l, hl, by omega, hstays⟩
      · exact .inr (.inl (move.gauged h ha hg hl))
      · exact .inr (.inr hspawned)
    constructor
    · exact fun a hcurrent => hmove.latest h ha hg hcurrent
    · intro k hk hid hbegun
      rcases hlast k hk hid with ⟨l, hl, hid', hstays⟩ | hq | ⟨b, hspawned⟩
      · have hran := (hasBegun_iff.1 hbegun).1
        rw [hsame, hstays.backoff]
        exact hg.shown l hl hid'
          ((hasBegun_of_stays hstays (hran.trans (hstays.ran hran).symm)).1 hbegun)
      · exact hq.shown k hk hid hbegun
      · exact absurd hspawned ((hasBegun_iff.1 hbegun).2 b)
    · intro hphase k hk hid
      rcases hlast k hk hid with ⟨l, hl, hid', hstays⟩ | hq | ⟨b, hspawned⟩
      · rcases hstays.runs with hruns | ⟨hal, -⟩
        · exact (hasBegun_of_stays hstays hruns).2 (hg.left (hidle hphase) l hl hid')
        · -- An idle poller has no task that could be discarded.
          obtain ⟨j, hj⟩ := h.alive l hl hal
          exact absurd (hidle hphase) (h.ne_idle (by simp [hj]))
      · exact hq.left hphase k hk hid
      · -- A poller with a loop that is yet to run is not idle.
        obtain ⟨j, hj⟩ := (h.move hmove).alive k hk (by simp [Loop.hasEnded, hspawned])
        exact absurd hphase ((h.move hmove).ne_idle (by simp [hj]))
    · intro hzero
      rw [hsame, (hmove.emptyPolls h).2]
      exact hg.untouched (by omega)

theorem Reachable.gauged (hp : p.Reachable) : p.Accounted ∧ p.Gauged := by
  have hall := hp.preserves (I := fun p => p.Sound ∧ p.Accounted ∧ p.Gauged)
    (fun name pacing => ⟨sound_idle name pacing, accounted_idle name pacing,
      gauged_idle name pacing⟩)
    fun ⟨h, ha, hg⟩ hmove =>
      ⟨h.move hmove, ha.proceed (ha.mortalMove (.moves hmove)), hg.move h ha hmove⟩
  exact hall.2

end Poller

/-! ### The next pause -/

namespace Poller

/-- The loop that polls next: the present one, or the one that is started next. -/
def nextLoop (p : Poller α) : Nat :=
  match p.current with
  | some a => a.loop
  | none => p.started + 1

/-- The pause after the next poll, if that finds nothing. -/
def nextPause (p : Poller α) : Duration :=
  match p.current.bind fun a => p.loop? a.loop with
  | some l => l.nextPause
  | none => p.pacing.initial

/-- Whether the gauge has not been left behind, by a pause that is going to grow or by a loop that
has ended with a pause that has grown. -/
structure UpToDate (p : Poller α) : Prop where
  pausing : ∀ l ∈ p.loops, l.stage.isPause = true →
    l.backoff.advance.current.millis = l.backoff.current.millis
  idle : p.current = none → ∀ l ∈ p.loops, l.id = p.started →
    l.backoff.current.millis = p.pacing.initial.millis

end Poller

/-- What a loop does between polls does not change what its next pause is. -/
theorem Loop.Paces.nextPause {l k : Loop α} {now : Nat} {beats : List Beat}
    (h : l.Paces now k beats) (empty : .empty ∉ beats) (payload : .payload ∉ beats)
    (hal : k.hasEnded = false) : l.hasEnded = false ∧ k.nextPause = l.nextPause := by
  cases h with
  | begins stage next same | redelivers stage next same | queues stage next same
  | polls stage next same | calls stage next same | returns stage next same =>
    exact ⟨by simp [hasEnded, stage],
      by simp [Loop.nextPause, stage, next, same, Stage.isPause]⟩
  | resumes stage next advanced | wakes stage _ next advanced =>
    -- The backoff grows when the pause is over.
    exact ⟨by simp [hasEnded, stage],
      by simp [Loop.nextPause, stage, next, advanced, Stage.isPause]⟩
  | yields | sleeps => simp at empty
  | hands => simp at payload
  | ends _ ended | delivers _ ended =>
    rw [ended] at hal
    cases hal

theorem Loop.Stays.nextPause {l k : Loop α} (h : l.Stays k) (hal : k.hasEnded = false) :
    l.hasEnded = false ∧ k.nextPause = l.nextPause := by
  have hstage := h.stage_eq_of_alive hal
  exact ⟨h.lived hal, by simp only [Loop.nextPause, hstage, h.backoff]⟩

namespace System

variable {s t : System α} {name : String} {m : Member α} {l : Loop α} {i : Nat} {d : Duration}
  {es tr : List (Incident α)}

/-- Whether the poll of a loop may come back with nothing in the next impulse, and the loop pauses
for this long. -/
inductive FindsNothing (s : System α) (name : String) (i : Nat) (d : Duration) : Prop
  | mk {x : Impulse α} {es : List (Incident α)} {t : System α} {m n : Member α} {l k : Loop α}
      (responds : s.respond? x = some (es, t)) (told : .befell name (.polled i (.ok .empty)) ∈ es)
      (before : s.member? name = some m) (polls : l ∈ m.poller.loops) (id : l.id = i)
      (after : t.member? name = some n) (pauses : k ∈ n.poller.loops) (same : k.id = i)
      (length : k.backoff.current = d)
      (stage : k.stage = if d.isZero then .yielded else .asleep d (s.clock + d.timer))

/-- Whether a loop, which may be yet to start, may pause for this long after its next poll that
comes back. -/
def MayPause (s : System α) (name : String) (i : Nat) (d : Duration) : Prop :=
  ∃ tr t, s.Run tr t ∧ (∀ r, .befell name (.polled i r) ∉ tr) ∧ t.FindsNothing name i d

theorem mem_filterMap_of? {o : Occurrence α} (h : o ∈ es.filterMap (Incident.of? name)) :
    .befell name o ∈ es := by
  obtain ⟨e, he, ho⟩ := List.mem_filterMap.1 h
  cases e with
  | befell p o' =>
    simp only [Incident.of?] at ho
    split at ho
    · next hp =>
      cases ho
      exact hp ▸ he
    · cases ho
  | turned | raised | lowered => cases ho

/-- No loop has a beat of a poll unless one came back. -/
theorem polled_of_beats {e : Beat} (h : e ∈ beats name i es) (hne : e ≠ .handled) :
    ∃ r, .befell name (.polled i r) ∈ es := by
  obtain ⟨o, ho, hbeat⟩ := List.mem_filterMap.1 h
  have hmem := mem_filterMap_of? ho
  unfold Occurrence.beat? at hbeat
  split at hbeat
  · obtain ⟨rfl, -⟩ := Option.ite_none_right_eq_some.1 hbeat
    exact ⟨_, hmem⟩
  · obtain ⟨rfl, -⟩ := Option.ite_none_right_eq_some.1 hbeat
    exact ⟨_, hmem⟩
  · obtain ⟨-, he⟩ := Option.ite_none_right_eq_some.1 hbeat
    exact absurd (Option.some.inj he).symm hne
  · cases hbeat

/-- Until a poll of a loop comes back its next pause stays what it is. -/
theorem Run.nextPause (hs : s.Reachable) (hrun : s.Run tr t) (hm : s.member? name = some m)
    (hl : l ∈ m.poller.loops) (none : ∀ r, .befell name (.polled l.id r) ∉ tr) :
    ∃ n k, t.member? name = some n ∧ k ∈ n.poller.loops ∧ l.Becomes k ∧
      (k.hasEnded = false → l.hasEnded = false ∧ k.nextPause = l.nextPause) := by
  induction hrun with
  | nil => exact ⟨m, l, hm, hl, .refl l, fun hal => ⟨hal, rfl⟩⟩
  | @snoc t u tr es x hrun hresponds ih =>
    simp only [List.mem_append, not_or] at none
    obtain ⟨n, k, hn, hk, becomes, hnext⟩ := ih fun r => (none r).1
    obtain ⟨n', k', hn', hk', becomes', ⟨hstays, -⟩ | ⟨hpaces, -⟩⟩ :=
      (response_of_respond? hresponds).paces_or_stays (hs.run hrun) hn hk
    · refine ⟨n', k', hn', hk', becomes.trans becomes', fun hal => ?_⟩
      obtain ⟨hal', hsame⟩ := hstays.nextPause hal
      exact ⟨(hnext hal').1, hsame.trans (hnext hal').2⟩
    · have hquiet : ∀ e ≠ Beat.handled, e ∉ beats name k.id es := by
        intro e hne he
        obtain ⟨r, hr⟩ := polled_of_beats he hne
        exact (none r).2 (becomes.id ▸ hr)
      refine ⟨n', k', hn', hk', becomes.trans becomes', fun hal => ?_⟩
      obtain ⟨hal', hsame⟩ := hpaces.nextPause (hquiet _ (by simp)) (hquiet _ (by simp)) hal
      exact ⟨(hnext hal').1, hsame.trans (hnext hal').2⟩

/-- A loop pauses for as long as its backoff says. -/
theorem FindsNothing.current (h : s.FindsNothing name i d) (hs : s.Reachable)
    (hm : s.member? name = some m) (hl : l ∈ m.poller.loops) (hid : l.id = i) :
    (∃ attempt due, l.stage = .polling attempt due) ∧ l.backoff.current = d := by
  obtain @⟨x, es, t, m', n, l', k, responds, told, before, polls, id, after, pauses, same, length,
    stage⟩ := h
  obtain rfl := Option.some.inj (hm.symm.trans before)
  obtain rfl := (hs.poller hm).sound.eq_of_id hl polls (id.trans hid.symm)
  obtain ⟨n', k', hn', hk', becomes, hmoves⟩ :=
    (response_of_respond? responds).paces_or_stays hs hm hl
  obtain rfl := Option.some.inj (after.symm.trans hn')
  have ht : t.Reachable := hs.run (.single responds)
  obtain rfl := (ht.poller after).sound.eq_of_id pauses hk'
    ((becomes.id.trans id).trans same.symm)
  have hempty : .empty ∈ beats name l'.id es := by
    refine List.mem_filterMap.2 ⟨.polled i (.ok .empty), ?_, ?_⟩
    · exact List.mem_filterMap.2 ⟨_, told, if_pos rfl⟩
    · simp [Occurrence.beat?, id]
  rcases hmoves with ⟨-, hnone⟩ | ⟨hpaces, -⟩
  · rw [hnone] at hempty
    cases hempty
  · rw [← length]
    generalize beats name l'.id es = bs at hpaces hempty
    cases hpaces with
    | yields stage _ same | sleeps stage _ same =>
      exact ⟨⟨_, _, stage⟩, by rw [same]⟩
    | _ => simp at hempty

/-- Only a loop that goes on pauses, and what its next pause is. -/
theorem MayPause.eq_nextPause (h : s.MayPause name l.id d) (hs : s.Reachable)
    (hm : s.member? name = some m) (hl : l ∈ m.poller.loops) :
    l.hasEnded = false ∧ l.runs = true ∧ d = l.nextPause := by
  obtain ⟨tr, t, hrun, none, hfinds⟩ := h
  obtain ⟨n, k, hn, hk, becomes, hnext⟩ := hrun.nextPause hs hm hl none
  have ht : t.Reachable := hs.run hrun
  obtain ⟨⟨attempt, due, stage⟩, hcurrent⟩ := hfinds.current ht hn hk becomes.id
  have hal : k.hasEnded = false := by simp [Loop.hasEnded, stage]
  obtain ⟨hal', hsame⟩ := hnext hal
  refine ⟨hal', ?_, ?_⟩
  · cases runs : l.runs with
    | true => rfl
    | false =>
      -- A task that never runs never comes to poll.
      obtain ⟨b, hb⟩ := (ht.poller hn).sound.unrun k hk (becomes.unrun runs) hal
      rw [stage] at hb
      cases hb
  · rw [← hsame, ← hcurrent, Loop.nextPause, stage]
    rfl

/-- A loop that is yet to start makes the first pause first. -/
theorem MayPause.eq_initial (h : s.MayPause name (m.poller.started + 1) d) (hs : s.Reachable)
    (hm : s.member? name = some m) (usable : m.poller.pacing.flaw? = none) :
    d = m.poller.pacing.initial := by
  obtain ⟨tr, t, hrun, none, hfinds⟩ := h
  obtain ⟨n, hn, hpoller⟩ := hrun.poller hm
  have hsound := (hs.poller hm).sound
  have hunpaused := hpoller.unpaused hsound (Poller.unpaused_next hsound)
    fun hmem => none _ (mem_filterMap_of? hmem)
  obtain ⟨k, hk, hid⟩ : ∃ k ∈ n.poller.loops, k.id = m.poller.started + 1 := by
    obtain ⟨-, -, before, polls, id⟩ := hfinds
    obtain rfl := Option.some.inj (hn.symm.trans before)
    exact ⟨_, polls, id⟩
  obtain ⟨⟨attempt, due, stage⟩, hcurrent⟩ := hfinds.current (hs.run hrun) hn hk hid
  have hal : k.hasEnded = false := by simp [Loop.hasEnded, stage]
  rw [← hcurrent, (hunpaused k hk hid hal).backoff, (hpoller.counters hsound).2.2]
  exact if_pos (Pacing.initial_le_longest usable)

/-- The gauge of a settled poller with a loop is right unless the loop pauses and its next pause is
longer by a millisecond or more. -/
theorem AtRest.upToDate_iff_of_alive (hrest : s.AtRest) (hs : s.Reachable)
    (hm : s.member? name = some m) (hl : l ∈ m.poller.loops) (hal : l.hasEnded = false)
    (runs : l.runs = true) :
    m.poller.delayMillis = l.nextPause.millis ↔ m.poller.UpToDate := by
  have hsound := (hs.poller hm).sound
  obtain ⟨-, hg⟩ := (hs.poller hm).gauged
  have hbegun : l.hasBegun = true := by
    refine Poller.hasBegun_iff.2 ⟨runs, fun b hb => ?_⟩
    rcases hrest.isWaiting hs hm hl hal with hwaits | hnever
    · simp [hb, Stage.isWaiting] at hwaits
    · rw [runs] at hnever
      cases hnever
  have hshown := hg.shown l hl (hg.id_eq hsound hl hal) hbegun
  obtain ⟨j, hj⟩ := hsound.alive l hl hal
  constructor
  · refine fun hright => ⟨fun k hk hpause => ?_, fun hnone => by simp [hj] at hnone⟩
    obtain rfl := hsound.eq_of_alive hl hk hal (Loop.alive_of_isPause hpause)
    rw [← hshown, hright, Loop.nextPause, if_pos hpause]
  · intro hupToDate
    unfold Loop.nextPause
    split
    · next hpause => rw [hshown, hupToDate.pausing l hl hpause]
    · exact hshown

/-- The gauge of an idle poller is right unless the last loop has ended with a pause that had
grown. -/
theorem upToDate_iff_of_idle (hs : s.Reachable) (hm : s.member? name = some m)
    (hphase : m.poller.phase = .idle) (hnone : m.poller.current = none) :
    m.poller.delayMillis = m.poller.pacing.initial.millis ↔ m.poller.UpToDate := by
  have hsound := (hs.poller hm).sound
  obtain ⟨ha, hg⟩ := (hs.poller hm).gauged
  have hshown : ∀ l ∈ m.poller.loops, l.id = m.poller.started →
      m.poller.delayMillis = l.backoff.current.millis := fun l hl hid =>
    hg.shown l hl hid (hg.left hphase l hl hid)
  constructor
  · intro hright
    refine ⟨fun l hl hpause => ?_, fun _ l hl hid => (hshown l hl hid).symm.trans hright⟩
    obtain ⟨j, hj⟩ := hsound.alive l hl (Loop.alive_of_isPause hpause)
    simp [hj] at hnone
  · intro hupToDate
    rcases Nat.eq_zero_or_pos m.poller.started with hzero | hpos
    · exact hg.untouched hzero
    · have hmem : m.poller.started ∈ m.poller.loops.map Loop.id := by
        rw [ha.ids, List.mem_range'_1]
        omega
      obtain ⟨l, hl, hid⟩ := List.mem_map.1 hmem
      rw [hshown l hl hid, hupToDate.idle hnone l hl hid]

/-- In a settled system the gauge of a poller that is not stopped shows the pause after its next
poll, should that find nothing, if and only if no pause has left it behind: the present loop does
not pause or will pause next for as many milliseconds as now, and if there is no loop the last one
ended with its pause where the next one begins. -/
theorem gauge_foretells_iff (hs : s.Reachable) (hrest : s.AtRest) (hm : s.member? name = some m)
    (usable : m.poller.pacing.flaw? = none) (going : m.poller.phase ≠ .stopped)
    (next : s.MayPause name m.poller.nextLoop d) :
    d = m.poller.nextPause ∧ (m.poller.delayMillis = d.millis ↔ m.poller.UpToDate) := by
  have hsound := (hs.poller hm).sound
  cases hcurrent : m.poller.current with
  | none =>
    have hphase := (hsound.detached hcurrent).2.resolve_right going
    simp only [Poller.nextLoop, hcurrent] at next
    obtain rfl := next.eq_initial hs hm usable
    refine ⟨?_, upToDate_iff_of_idle hs hm hphase hcurrent⟩
    simp only [Poller.nextPause, hcurrent, Option.bind_none]
  | some a =>
    obtain ⟨l, hl, hid, -⟩ := hsound.attached a hcurrent
    simp only [Poller.nextLoop, hcurrent, ← hid] at next
    obtain ⟨hal, runs, rfl⟩ := next.eq_nextPause hs hm hl
    refine ⟨?_, hrest.upToDate_iff_of_alive hs hm hl hal runs⟩
    simp only [Poller.nextPause, hcurrent, Option.bind_some, ← hid, hsound.loop?_of_mem hl]

/-- A subscription that pauses for the first time. -/
def firstPause : List (Impulse Nat) :=
  let pacing : Pacing := { initial := .ofMillis 10, growth := .linear (.ofMillis 10) }
  let source : Script (Attempt Nat) :=
    ⟨[(1, { outcome := .empty })], { latency := 5, outcome := .empty }⟩
  [.build "a" "a" pacing source (.own "a") none,
    .cue "a" (.subscribe true "s" ⟨[], { outcome := .done }⟩ true none),
    .turn "a" 1 0, .turn "a" 1 0, .turn "a" 1 0, .turn "a" 1 0]

/-- Its next poll, which takes a while. -/
def secondPoll : List (Impulse Nat) :=
  [.pass 10, .turn "a" 1 0, .turn "a" 1 0, .turn "a" 1 0]

theorem findsNothing_secondPoll :
    (after (firstPause ++ secondPoll ++ [.pass 5])).FindsNothing "a" 1 (.ofMillis 20) :=
  .mk (x := .turn "a" 1 0) rfl (.tail _ (.head _)) rfl (.head _) rfl rfl (.head _) rfl rfl rfl

theorem gauge_foretells_iff_polling : ∃ (s : System Nat) (m : Member Nat), s.Reachable ∧ s.AtRest ∧
    s.member? "a" = some m ∧ m.poller.pacing.flaw? = none ∧ m.poller.phase = .running ∧
    s.MayPause "a" m.poller.nextLoop (.ofMillis 20) ∧ m.poller.delayMillis = 20 ∧
    m.poller.UpToDate := by
  have hs := reachable_after (firstPause ++ secondPoll)
  have hrest : (after (firstPause ++ secondPoll)).AtRest := rfl
  have hm : (after (firstPause ++ secondPoll)).member? "a" = some _ := rfl
  have hnext : (after (firstPause ++ secondPoll)).MayPause "a" 1 (.ofMillis 20) :=
    ⟨_, _, run_of_enact? [.pass 5] rfl, by simp, findsNothing_secondPoll⟩
  obtain ⟨-, hiff⟩ := gauge_foretells_iff hs hrest hm rfl (by decide) hnext
  exact ⟨_, _, hs, hrest, hm, rfl, rfl, hnext, rfl, hiff.1 rfl⟩

/-- While a loop pauses the gauge shows the pause that it makes, and not the next one. -/
theorem gauge_behind : ¬ ∀ (s : System Nat) (name : String) (m : Member Nat) (d : Duration),
    s.Reachable → s.AtRest → s.member? name = some m → m.poller.pacing.flaw? = none →
      m.poller.phase = .running → s.MayPause name m.poller.nextLoop d →
        m.poller.delayMillis = d.millis := by
  intro h
  have hnext : (after firstPause).MayPause "a" 1 (.ofMillis 20) :=
    ⟨[.turned "a" 1, .turned "a" 1, .turned "a" 1, .befell "a" (.pollBegan 1)], _,
      run_of_enact? (secondPoll ++ [.pass 5]) rfl, by simp, findsNothing_secondPoll⟩
  have hm : (after firstPause).member? "a" = some _ := rfl
  have hright : 10 = 20 := h _ _ _ _ (reachable_after firstPause) rfl hm rfl rfl hnext
  exact absurd hright (by decide)

end System

end Polling
