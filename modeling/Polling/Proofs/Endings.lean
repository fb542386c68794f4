import Polling.Proofs.Stages

/-!
# How a loop fares

`Poller.Fares` says what has become of a loop in any number of moves, and `Poller.Excuses` what
accounts for its end if it has ended.  `Loop.Heeds` says what the loop has done if it had to end all
the while: it has begun no poll but one for which it was in line, and every move of its own brought
it closer to its end.  Both hold of every move on cue (`fares_of_act?`), and so of all that is
performed (`fares_of_perform?`).
-/

namespace Polling

variable {α : Type}

/-- The payloads that a loop had and that it has found. -/
def Loop.Brings (l : Loop α) (es : List (Occurrence α)) (x : α) : Prop :=
  x ∈ l.stage.payloads ∨ .polled l.id (.ok (.payload x)) ∈ es

namespace Poller

/-- What accounts for the end of a loop that has become `m`. -/
inductive Excuses (q : Poller α) (l : Loop α) (es : List (Occurrence α)) (m : Loop α) : Prop
  | finished (finished : q.Finished)
  | cancelled (cancelled : m.cancelled = true)
  | abandoned (gone : q.waiterGone m = true)
  /-- Its task was discarded. -/
  | discarded (gone : m.runs = false)
  /-- It had or found a payload for its waiter. -/
  | delivered {call : String} {x : α} (waiter : l.consumer = .waiter call) (brings : l.Brings es x)

/-- How a loop has fared that has become `m`. -/
structure Fares (p : Poller α) (l : Loop α) (es : List (Occurrence α)) (q : Poller α)
    (m : Loop α) : Prop extends l.Becomes m where
  cancelled : l.cancelled = true → m.cancelled = true
  requested : p.stopRequested = true → q.stopRequested = true
  finished : p.Finished → q.Finished
  gone : p.waiterGone l = true → q.waiterGone m = true
  brings : ∀ x ∈ m.stage.payloads, l.Brings es x
  ends : m.hasEnded = true → l.hasEnded = true ∨ q.Excuses l es m

end Poller

/-- How a loop has fared that had to end all the while, with `n` moves of its own. -/
structure Loop.Heeds (l : Loop α) (n : Nat) (es : List (Occurrence α)) (m : Loop α) : Prop where
  moves : n + m.stage.remaining ≤ l.stage.remaining
  polls : es.countP (Occurrence.begins l.id) + m.stage.isQueued.toNat ≤ l.stage.isQueued.toNat

theorem Loop.Heeds.refl (l : Loop α) : l.Heeds 0 [] l := ⟨by simp, by simp⟩

theorem Loop.Heeds.trans {l m k : Loop α} {a b : Nat} {es ts : List (Occurrence α)}
    (h : l.Heeds a es m) (h' : m.Heeds b ts k) (hid : m.id = l.id) :
    l.Heeds (a + b) (es ++ ts) k := by
  have hpolls := h'.polls
  rw [hid] at hpolls
  constructor
  · have := h.moves
    have := h'.moves
    omega
  · have := h.polls
    rw [List.countP_append]
    omega

namespace Poller

variable {p q r : Poller α} {l m k : Loop α} {c : Call α} {es ts : List (Occurrence α)}

theorem Fares.refl (p : Poller α) (l : Loop α) : p.Fares l [] p l where
  toBecomes := .refl l
  cancelled h := h
  requested h := h
  finished h := h
  gone h := h
  brings _ hx := .inl hx
  ends := .inl

/-- What a loop brings later on, it brings. -/
theorem Fares.brings_append (h : p.Fares l es q m) {x : α} (hx : m.Brings ts x) :
    l.Brings (es ++ ts) x := by
  rcases hx with hx | hx
  · exact (h.brings x hx).imp_right (List.mem_append_left _)
  · exact .inr (List.mem_append_right _ (h.id ▸ hx))

/-- What accounted for the end of a loop still does. -/
theorem Excuses.mono (he : q.Excuses l es m) (h : q.Fares m ts r k) :
    r.Excuses l (es ++ ts) k := by
  cases he with
  | finished hfin => exact .finished (h.finished hfin)
  | cancelled hc => exact .cancelled (h.cancelled hc)
  | abandoned hg => exact .abandoned (h.gone hg)
  | discarded hruns => exact .discarded (h.unrun hruns)
  | delivered hcons hx => exact .delivered hcons (hx.imp_right (List.mem_append_left _))

theorem Fares.trans (h : p.Fares l es q m) (h' : q.Fares m ts r k) : p.Fares l (es ++ ts) r k where
  toBecomes := h.toBecomes.trans h'.toBecomes
  cancelled hc := h'.cancelled (h.cancelled hc)
  requested hs := h'.requested (h.requested hs)
  finished hf := h'.finished (h.finished hf)
  gone hg := h'.gone (h.gone hg)
  brings x hx := h.brings_append (h'.brings x hx)
  ends hend := by
    rcases h'.ends hend with hm | he
    · exact (h.ends hm).imp_right fun he => he.mono h'
    · cases he with
      | finished hfin => exact .inr (.finished hfin)
      | cancelled hc => exact .inr (.cancelled hc)
      | abandoned hg => exact .inr (.abandoned hg)
      | discarded hruns => exact .inr (.discarded hruns)
      | delivered hcons hx =>
        exact .inr (.delivered (h.consumer.symm.trans hcons) (h.brings_append hx))

/-- A loop that was asked to end stays asked. -/
theorem Fares.isCancelled (h : p.Fares l es q m) (hc : p.isCancelled l = true) :
    q.isCancelled m = true := by
  simp only [Poller.isCancelled, Bool.or_eq_true] at hc ⊢
  exact hc.imp h.cancelled h.requested

theorem CallEffect.requested {v : Verdict α} (heffect : p.CallEffect c q v)
    (hs : p.stopRequested = true) : q.stopRequested = true := by
  cases heffect with
  | reenters | leaves | reports =>
    rw [absorb_eq]
    exact hs
  | closes | closed | clears | cleared => rfl
  | _ => exact hs

theorem SubscribeEffect.requested {subscription : String} {r : Except Error Unit}
    (heffect : p.SubscribeEffect subscription q r) (hs : p.stopRequested = true) :
    q.stopRequested = true := by
  cases heffect <;> exact hs

/-- Nobody takes back that the poller was asked to stop. -/
theorem Move.requested (h : p.Sound) (hmove : p.Move es q) (hs : p.stopRequested = true) :
    q.stopRequested = true := by
  cases hmove with
  | loop mem move =>
    cases move.effect h.toConsistent mem with
    | goesOn => exact hs
    | ends => exact Bool.or_eq_true_iff.2 (.inl hs)
  | proceed mem _ goes =>
    have hq := (callEffect_of_moveCall h mem goes).requested hs
    exact hq
  | finish mem _ goes =>
    have hq := (callEffect_of_moveCall h mem goes).requested hs
    exact hq
  | subscribe => exact (subscribeEffect p _ _ _ _ _).requested hs
  | stop | release => rfl
  | _ => exact hs

/-- A call that is pending was pending before, or it is new and no loop is known to serve it. -/
theorem Move.known_of_mem_calls (h : p.Sound) (hmove : p.Move es q) (hc : c ∈ q.calls) :
    (∃ d ∈ p.calls, d.id = c.id) ∨ ∀ l ∈ p.loops, l.consumer ≠ .waiter c.id := by
  have hset : ∀ {id : String} {s : CallStage α} {r : Poller α}, r.calls = p.calls →
      c ∈ (r.setCallStage id s).calls → ∃ d ∈ p.calls, d.id = c.id := by
    intro id s r hr hc
    obtain ⟨d, hd, rfl⟩ := List.mem_map.1 hc
    exact ⟨d, hr ▸ hd, by split <;> rfl⟩
  cases hmove with
  | loop mem move =>
    cases move.effect h.toConsistent mem with
    | goesOn => exact .inl ⟨c, hc, rfl⟩
    | ends =>
      rcases mem_answering hc with ⟨hmem, -⟩ | ⟨d, hd, r, -, -, rfl⟩
      · exact .inl ⟨c, hmem, rfl⟩
      · exact .inl ⟨d, hd, rfl⟩
  | proceed mem _ goes => exact .inl (hset (callEffect_of_moveCall h mem goes).calls_eq hc)
  | finish mem _ goes =>
    have hcalls := (callEffect_of_moveCall h mem goes).calls_eq
    exact .inl ⟨c, hcalls ▸ (List.mem_filter.1 hc).1, rfl⟩
  | call _ _ fresh =>
    rcases List.mem_append.1 hc with hc | hc
    · exact .inl ⟨c, hc, rfl⟩
    · obtain rfl := List.mem_singleton.1 hc
      exact .inr fresh
  | drop => exact .inl ⟨c, (List.mem_filter.1 hc).1, rfl⟩
  | subscribe => exact .inl ⟨c, (subscribeEffect p _ _ _ _ _).calls_eq ▸ hc, rfl⟩
  | stop | release | discard => exact .inl ⟨c, hc, rfl⟩

theorem waiterGone_iff : p.waiterGone l = true ↔
    ∃ id, l.consumer = .waiter id ∧ ∀ c ∈ p.calls, c.id ≠ id := by
  unfold waiterGone
  cases l.consumer with
  | waiter id => simp [Option.isNone_iff_eq_none, call?_eq_none]
  | subscriber subscription => simp

/-- A waiter that has gone does not come back. -/
theorem Move.gone (h : p.Sound) (hmove : p.Move es q) (hl : l ∈ p.loops)
    (same : m.consumer = l.consumer) (hgone : p.waiterGone l = true) : q.waiterGone m = true := by
  obtain ⟨id, hcons, hnone⟩ := waiterGone_iff.1 hgone
  refine waiterGone_iff.2 ⟨id, same.trans hcons, fun c hc hid => ?_⟩
  rcases hmove.known_of_mem_calls h hc with ⟨d, hd, hdc⟩ | hfresh
  · exact hnone d hd (hdc.trans hid)
  · exact hfresh l hl (hcons.trans (by rw [hid]))

/-- A loop brings what it has in hand after a move. -/
theorem LoopMove.brings (h : p.Sound) (hl : l ∈ p.loops) (hmove : p.LoopMove l es q)
    (hm : m ∈ q.loops) (hid : m.id = l.id) {x : α} (hx : x ∈ m.stage.payloads) :
    l.Brings es x := by
  cases hmove.effect h.toConsistent hl with
  | @goesOn k _ _ _ _ _ same _ work payloads =>
    rcases mem_withLoop hm with rfl | ⟨-, hne⟩
    · have hin : x ∈ l.stage.payloads ++ es.flatMap Occurrence.acquired := by
        rw [payloads]
        exact List.mem_append_right _ hx
      refine (List.mem_append.1 hin).imp_right fun hacq => ?_
      obtain ⟨o, ho, hxo⟩ := List.mem_flatMap.1 hacq
      have hwork := work o ho
      unfold Occurrence.acquired at hxo
      split at hxo
      · obtain rfl := List.mem_singleton.1 hxo
        obtain rfl := Option.some.inj hwork
        exact ho
      · cases hxo
    · exact absurd (hid.trans same.id.symm) hne
  | @ends k _ _ _ _ _ same exit =>
    rcases mem_withLoop hm with rfl | ⟨-, hne⟩
    · rw [exit] at hx
      cases hx
    · exact absurd (hid.trans same.id.symm) hne

/-- A poller that was asked to stop has stopped when its loop has ended. -/
theorem LoopMove.finished (h : p.Sound) (hl : l ∈ p.loops) (hmove : p.LoopMove l es q)
    (hm : m ∈ q.loops) (hid : m.id = l.id) (hend : m.hasEnded = true)
    (hs : q.stopRequested = true) : q.Finished := by
  cases hmove.effect h.toConsistent hl with
  | goesOn _ same alive =>
    rcases mem_withLoop hm with rfl | ⟨-, hne⟩
    · rw [alive] at hend
      cases hend
    · exact absurd (hid.trans same.id.symm) hne
  | ends => exact ⟨rfl, if_pos hs⟩

/-- A loop that has ended is found at its end. -/
theorem hasEnded_finish {e : Ending α} (hm : m ∈ (p.finish l e).loops) (hid : m.id = l.id) :
    m.hasEnded = true := by
  rw [loops_finish] at hm
  obtain ⟨k, -, rfl⟩ := List.mem_map.1 hm
  by_cases hk : k.id = l.id
  · simp [hk, Loop.hasEnded]
  · simp [hk] at hid

/-- A loop that has to end does so when it checks. -/
theorem hasEnded_of_loopAct? {own : LoopCue α} (hact : p.loopAct? l own = some (es, q))
    (asked : p.isCancelled l = true ∨ ∀ b, own.shown? = some b → b = true)
    (hs : l.stage = .checking) (hm : m ∈ q.loops) (hid : m.id = l.id) : m.hasEnded = true := by
  unfold loopAct? at hact
  rw [hs] at hact
  cases own with
  | check raised =>
    simp only at hact
    cases hw : p.interruption? l raised with
    | some w =>
      simp only [hw, Option.some.injEq, Prod.mk.injEq] at hact
      obtain ⟨-, rfl⟩ := hact
      rcases interruption?_eq_some hw with ⟨rfl, -⟩ | ⟨rfl, -⟩ <;> exact hasEnded_finish hm hid
    | none =>
      rcases asked with hc | hraised
      · simp [interruption?, hc] at hw
      · obtain rfl := hraised raised rfl
        unfold interruption? at hw
        split at hw <;> cases hw
  | go | beginPoll | endPoll | callBack | wake => cases hact

/-- How a loop fares in a move of its own. -/
theorem fares_of_loopAct? (h : p.Sound) (hl : l ∈ p.loops) {own : LoopCue α}
    (hact : p.loopAct? l own = some (es, q)) :
    ∃ m ∈ q.loops, p.Fares l es q m ∧
      (p.isCancelled l = true ∨ (∀ b, own.shown? = some b → b = true) → l.Heeds 1 es m) := by
  have hmove := loopMove_of_loopAct? hact
  have move : p.Move es q := .loop hl hmove
  obtain ⟨m, hm, same, hcancelled, hstage⟩ := hmove.advances.exists_mem hl
  refine ⟨m, hm, ?_, fun asked => ?_⟩
  · have hbecomes : l.Becomes m := same.becomes fun hend => by simp [hmove.alive] at hend
    refine ⟨hbecomes, fun hc => hcancelled.trans hc, move.requested h,
      fun hf => (hf.move h move).1, move.gone h hl same.consumer,
      fun x hx => hmove.brings h hl hm same.id hx, fun hend => .inr ?_⟩
    rcases hstage with leads | ⟨-, why⟩
    · rw [leads.alive] at hend
      cases hend
    · cases why with
      | stopped hs => exact .finished (hmove.finished h hl hm same.id hend hs)
      | cancelled hc => exact .cancelled (hcancelled.trans hc)
      | abandoned hg => exact .abandoned (move.gone h hl same.consumer hg)
      | delivered hcons hx => exact .delivered hcons hx
  · have hpolls := hmove.countP_begins
    rcases hstage with leads | ⟨hend, -⟩
    · have hqueued : m.stage.isQueued = false := by
        by_contra hq
        have hs := leads.checking_of_isQueued (by simpa using hq)
        have hend := hasEnded_of_loopAct? hact asked hs hm same.id
        rw [leads.alive] at hend
        cases hend
      have hlt := leads.remaining_lt hqueued
      exact ⟨by omega, by simp [hpolls, hqueued]⟩
    · obtain ⟨hnone, hqueued, -⟩ := Loop.nothing_of_hasEnded hend
      have hpos := Loop.remaining_pos hmove.alive
      exact ⟨by omega, by simp [hpolls, hqueued]⟩

/-- How a loop fares in a move on cue. -/
theorem fares_of_act? (h : p.Sound) (hl : l ∈ p.loops) {cue : Cue α}
    (hact : p.act? cue = some (es, q)) :
    ∃ m ∈ q.loops, p.Fares l es q m ∧
      (p.isCancelled l = true ∨ cue.Shows true → l.Heeds (cue.isOf l.id).toNat es m) := by
  by_cases hown : ∃ own, cue = .loop l.id own
  · obtain ⟨own, rfl⟩ := hown
    have hloop : p.loopAct? l own = some (es, q) := by
      simpa [act?, h.loop?_of_mem hl] using hact
    obtain ⟨m, hm, hfares, hheeds⟩ := fares_of_loopAct? h hl hloop
    refine ⟨m, hm, hfares, fun asked => ?_⟩
    simpa [Cue.isOf] using hheeds asked
  · have hmove := move_of_act? cue hact
    obtain ⟨hidle, m, hm, stays⟩ := stays_of_act? h hact hl fun own hcue => hown ⟨own, hcue⟩
    refine ⟨m, hm, ?_, fun _ => ?_⟩
    · exact ⟨stays.toBecomes, stays.cancelled, hmove.requested h, fun hf => (hf.move h hmove).1,
        hmove.gone h hl stays.consumer, fun x hx => .inl (stays.payloads hx),
        fun hend => (stays.gone hend).imp_right .discarded⟩
    · have hcue : cue.isOf l.id = false := by
        cases cue with
        | loop i own => exact decide_eq_false fun hi => hown ⟨own, by rw [hi]⟩
        | _ => rfl
      obtain ⟨hmoves, hpolls⟩ := stays.remaining
      constructor
      · simpa [hcue] using hmoves
      · simpa [countP_begins_eq_zero hidle] using hpolls

/-- Whether a loop has to end for as long as these cues are followed. -/
def Asked (p : Poller α) (l : Loop α) (cues : List (Cue α)) : Prop :=
  p.isCancelled l = true ∨ ∀ cue ∈ cues, cue.Shows true

/-- How a loop fares in all that is performed. -/
theorem fares_of_perform? (h : p.Sound) (hl : l ∈ p.loops) {cues : List (Cue α)}
    (hperform : p.perform? cues = some (es, q)) :
    ∃ m ∈ q.loops, p.Fares l es q m ∧
      (p.Asked l cues → l.Heeds (cues.countP (Cue.isOf l.id)) es m) := by
  induction cues generalizing p l es with
  | nil =>
    cases hperform
    exact ⟨l, hl, .refl _ l, fun _ => .refl l⟩
  | cons cue cues ih =>
    obtain ⟨⟨es, r⟩, hact, hrest⟩ := Option.bind_eq_some_iff.1 hperform
    obtain ⟨⟨ts, r'⟩, hperform', hpair⟩ := Option.map_eq_some_iff.1 hrest
    cases hpair
    obtain ⟨m, hm, hfares, hheeds⟩ := fares_of_act? h hl hact
    obtain ⟨k, hk, hfares', hheeds'⟩ := ih (h.move (move_of_act? cue hact)) hm hperform'
    refine ⟨k, hk, hfares.trans hfares', fun asked => ?_⟩
    have hfirst := hheeds (asked.imp_right fun hall => hall cue List.mem_cons_self)
    have hlater := hheeds' (asked.imp hfares.isCancelled fun hall c hc =>
      hall c (List.mem_cons_of_mem _ hc))
    rw [hfares.id] at hlater
    have hcount : (cue :: cues).countP (Cue.isOf l.id) =
        (cue.isOf l.id).toNat + cues.countP (Cue.isOf l.id) := by
      cases hcue : cue.isOf l.id <;> simp [hcue, Nat.add_comm]
    rw [hcount]
    exact hfirst.trans hlater hfares.id

end Poller

end Polling
