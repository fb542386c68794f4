import Polling.Proofs.CallEffect
import Polling.Proofs.LoopEffect

/-!
# Every poller is sound

`Sound.move` shows that each move keeps a poller sound, and `Reachable.sound` that therefore every
poller is, whatever has been done to it.  Loops that go on, that are retired and that are discarded
are the case of `Sound.mapLoops`: every loop keeps its number and its consumer, and its task goes
on or is discarded.  A loop that ends properly leaves the life cycle with it (`Sound.ends`),
and the call that was waiting for it has its answer.
-/

namespace Polling

variable {α : Type}

/-- Whether a loop may become another one while its poller counts on it: its task goes on or is
discarded, and one that does not run stays where it is until then. -/
structure Loop.Lasts (l m : Loop α) : Prop extends l.Becomes m where
  unrun : l.runs = false → m.hasEnded = false → m.stage = l.stage
  gone : m.hasEnded = true → l.hasEnded = true ∨ m.runs = false

theorem Loop.Lasts.refl (l : Loop α) : l.Lasts l := ⟨.refl l, fun _ _ => rfl, .inl⟩


namespace Poller

variable {p q : Poller α} {l m : Loop α} {c : Call α}

/-- Every loop may come further, as long as it does not end under the eyes of its poller. -/
theorem Sound.mapLoops (h : p.Sound) {f : Loop α → Loop α} (hf : ∀ l ∈ p.loops, l.Lasts (f l)) :
    ({ p with loops := p.loops.map f } : Poller α).Sound := by
  have hids : (p.loops.map f).map Loop.id = p.loops.map Loop.id := by
    rw [List.map_map]
    exact List.map_congr_left fun k hk => (hf k hk).id
  -- Every loop of the new poller comes from one of the old, so each field is read off the old one.
  have hmem : ∀ k ∈ p.loops.map f, ∃ k₀ ∈ p.loops, k₀.Lasts k := by
    intro k hk
    obtain ⟨k₀, hk₀, rfl⟩ := List.mem_map.1 hk
    exact ⟨k₀, hk₀, hf k₀ hk₀⟩
  constructor
  · refine { h.toConsistent with
      ids := ?ids, id_le := ?id_le, unrun := ?unrun, alive := ?alive, attached := ?attached,
      solo := ?solo, stuck := ?stuck }
    case ids =>
      rw [hids]
      exact h.ids
    case id_le =>
      intro k hk
      obtain ⟨k₀, hk₀, hlasts⟩ := hmem k hk
      rw [hlasts.id]
      exact h.id_le k₀ hk₀
    case unrun =>
      intro k hk hruns hal
      obtain ⟨k₀, hk₀, hlasts⟩ := hmem k hk
      rw [hlasts.runs_eq hal] at hruns
      obtain ⟨b, hb⟩ := h.unrun k₀ hk₀ hruns (hlasts.lived hal)
      exact ⟨b, (hlasts.unrun hruns hal).trans hb⟩
    case alive =>
      intro k hk hal
      obtain ⟨k₀, hk₀, hlasts⟩ := hmem k hk
      rw [hlasts.id]
      exact h.alive k₀ hk₀ (hlasts.lived hal)
    case attached =>
      intro a ha
      obtain ⟨k, hk, hid, hcons, hend⟩ := h.attached a ha
      have hlasts := hf k hk
      refine ⟨f k, List.mem_map_of_mem hk, hlasts.id.trans hid, ?_, ?_⟩
      · rw [hlasts.consumer]
        exact hcons
      · intro hend'
        rcases hlasts.gone hend' with hgone | hruns
        · rcases hlasts.runs with hsame | ⟨-, -, hruns⟩
          · exact hsame.trans (hend hgone)
          · exact hruns
        · exact hruns
    case solo =>
      intro k hk m hm subscription hcons hcons'
      obtain ⟨k₀, hk₀, hlasts⟩ := hmem k hk
      obtain ⟨m₀, hm₀, hlasts'⟩ := hmem m hm
      rw [hlasts.id, hlasts'.id]
      exact h.solo k₀ hk₀ m₀ hm₀ subscription (hlasts.consumer.symm.trans hcons)
        (hlasts'.consumer.symm.trans hcons')
    case stuck =>
      intro k hk hruns subscription hcons
      obtain ⟨k₀, hk₀, hlasts⟩ := hmem k hk
      rw [hlasts.id]
      rcases hlasts.runs with hsame | ⟨hal, -⟩
      · exact h.stuck k₀ hk₀ (hsame.symm.trans hruns) subscription
          (hlasts.consumer.symm.trans hcons)
      · exact h.alive k₀ hk₀ hal
  · intro c hc
    have hfits := h.fits c hc
    constructor
    · exact hfits.awaiting
    · intro k hk hal hcons
      obtain ⟨k₀, hk₀, hlasts⟩ := hmem k hk
      rw [hlasts.id]
      exact hfits.listening k₀ hk₀ (hlasts.lived hal) (hlasts.consumer.symm.trans hcons)
    · intro i s hs
      have hjoins := hfits.joining i s hs
      obtain ⟨k, hk, hid, hleave⟩ := hjoins.loop
      have hlasts := hf k hk
      refine { hjoins with loop := ⟨f k, List.mem_map_of_mem hk, hlasts.id.trans hid, ?_⟩ }
      rw [hlasts.consumer]
      exact hleave

/-- A loop that goes on leaves the poller sound. -/
theorem Sound.goesOn (h : p.Sound) (hl : l ∈ p.loops) (same : l.SameTask m) (ran : l.runs = true)
    (hal : l.hasEnded = false) (alive : m.hasEnded = false) : (p.withLoop m).Sound := by
  apply h.mapLoops
  intro k hk
  split
  · next hid =>
    obtain rfl := h.eq_of_id hl hk (hid.trans same.id)
    refine ⟨same.becomes fun hend => ?_, fun hruns => ?_, fun hend => ?_⟩
    · rw [hal] at hend
      cases hend
    · rw [ran] at hruns
      cases hruns
    · rw [alive] at hend
      cases hend
  · exact .refl k

theorem map_id_withLoop (p : Poller α) (m : Loop α) :
    (p.withLoop m).loops.map Loop.id = p.loops.map Loop.id := by
  simp only [withLoop, updateLoop, List.map_map]
  apply List.map_congr_left
  intro k _
  by_cases hk : k.id = m.id <;> simp [hk]

/-- A call that joins a loop still does when some loop has come further. -/
theorem Joins.withLoop {i : Nat} {s : Sequel} (hjoins : p.Joins i s) (h : p.Consistent)
    (hl : l ∈ p.loops) (same : l.SameTask m) : (p.withLoop m).Joins i s := by
  obtain ⟨k, hk, hid, hleave⟩ := hjoins.loop
  refine { hjoins with loop := ⟨_, List.mem_map_of_mem hk, ?_, ?_⟩ }
  · split
    · next hkm => rw [← hkm, hid]
    · exact hid
  · split
    · next hkm =>
      obtain rfl := h.eq_of_id hl hk (hkm.trans same.id)
      rw [same.consumer]
      exact hleave
    · exact hleave

/-- The calls keep their names when a loop ends. -/
theorem map_id_answering (p : Poller α) (l : Loop α) (e : Ending α) :
    (p.answering l e).map Call.id = p.calls.map Call.id := by
  unfold answering
  split
  · rw [List.map_map]
    apply List.map_congr_left
    intro c _
    dsimp only [Function.comp]
    split <;> rfl
  · rfl

/-- A call is as it was after a loop has ended, unless it listens and has its answer now. -/
theorem mem_answering {e : Ending α} {d : Call α} (hd : d ∈ p.answering l e) :
    (d ∈ p.calls ∧ ∀ r, e.answer = some r → p.listener? l ≠ some d.id) ∨
      ∃ c ∈ p.calls, ∃ r, e.answer = some r ∧ p.listener? l = some c.id ∧
        d = { c with stage := .receiving l.id (some r) } := by
  unfold answering at hd
  split at hd
  · next id r hlis hans =>
    obtain ⟨c, hc, rfl⟩ := List.mem_map.1 hd
    split
    · next hid => exact .inr ⟨c, hc, r, hans, by rw [hlis, hid], rfl⟩
    · next hid =>
      refine .inl ⟨hc, fun _ _ hlis' => hid ?_⟩
      rw [hlis] at hlis'
      exact (Option.some.inj hlis').symm
  · next hnone => exact .inl ⟨hd, fun r hans hlis => hnone _ _ hlis hans⟩

theorem listener?_of_receiving (h : p.Consistent) (hc : c ∈ p.calls)
    (hcons : l.consumer = .waiter c.id) (hs : c.stage = .receiving l.id none) :
    p.listener? l = some c.id := by
  simp [listener?, hcons, isListening, h.call?_of_mem hc, hs]

/-- A loop that ends leaves the poller sound. -/
theorem Sound.ends (h : p.Sound) (hl : l ∈ p.loops) (hal : l.hasEnded = false)
    (ran : l.runs = true) (same : l.SameTask m) (hend : m.hasEnded = true) {e : Ending α}
    (gone : e = .abandoned → p.waiterGone l = true) : ((p.ended l e).withLoop m).Sound := by
  have hmem : ∀ k ∈ (p.withLoop m).loops, k = m ∨ k ∈ p.loops ∧ k.id ≠ l.id := by
    intro k hk
    have hk' := mem_withLoop hk
    rwa [same.id] at hk'
  obtain ⟨j, hj⟩ := h.alive l hl hal
  -- There was one loop that had not ended, and it ends now.
  have hall : ∀ k ∈ (p.withLoop m).loops, k.hasEnded = true := by
    intro k hk
    rcases hmem k hk with rfl | ⟨hk, hne⟩
    · exact hend
    · by_contra hkal
      exact hne (congrArg Loop.id (h.eq_of_alive hl hk hal (by simpa using hkal)))
  have hstop : p.stopRequested = true → (p.ended l e).stopRequested = true := by
    intro hs
    simp [ended, hs]
  -- The life cycle is left for good if somebody has asked for a stop or the ending is one.
  have hphase : (p.ended l e).phase = .idle ∧ (p.ended l e).stopRequested = false ∨
      (p.ended l e).phase = .stopped ∧ (p.ended l e).stopRequested = true := by
    simp only [ended]
    cases p.stopRequested || e.stops with
    | false => exact .inl ⟨rfl, rfl⟩
    | true => exact .inr ⟨rfl, rfl⟩
  have hkeep : ∀ k ∈ (p.withLoop m).loops, ∃ k₀ ∈ p.loops, k₀.SameTask k := by
    intro k hk
    rcases hmem k hk with rfl | ⟨hk, -⟩
    · exact ⟨l, hl, same⟩
    · exact ⟨k, hk, rfl, rfl, rfl⟩
  constructor
  · refine { h.toConsistent with
      ids := ?ids, id_le := ?id_le, unrun := ?unrun, alive := ?alive, attached := ?attached,
      detached := ?detached, engaged := fun hne => absurd rfl hne, halted := ?halted,
      disposed := ?disposed, vacant := fun hne => absurd rfl hne, solo := ?solo, stuck := ?stuck,
      callIds := ?callIds }
    case ids =>
      rw [map_id_withLoop]
      exact h.ids
    case id_le =>
      intro k hk
      obtain ⟨k₀, hk₀, hsame⟩ := hkeep k hk
      rw [hsame.id]
      exact h.id_le k₀ hk₀
    case unrun =>
      intro k hk _ hkal
      rw [hall k hk] at hkal
      cases hkal
    case alive =>
      intro k hk hkal
      rw [hall k hk] at hkal
      cases hkal
    case attached =>
      intro a ha
      cases ha
    case detached => exact fun _ => ⟨rfl, hphase.imp And.left And.left⟩
    case halted =>
      intro hhalt
      rcases hphase with ⟨hidle, -⟩ | ⟨-, hs⟩
      · have hhalt : (p.ended l e).phase = .stopping ∨ (p.ended l e).phase = .stopped := hhalt
        simp [hidle] at hhalt
      · exact hs
    case disposed =>
      intro hd
      have hs := hstop (h.halted (h.disposed hd))
      rcases hphase with ⟨-, hs'⟩ | ⟨hp, -⟩
      · rw [hs] at hs'
        cases hs'
      · exact .inr hp
    case solo =>
      intro k hk m' hm' subscription hcons hcons'
      obtain ⟨k₀, hk₀, hsame⟩ := hkeep k hk
      obtain ⟨m₀, hm₀, hsame'⟩ := hkeep m' hm'
      rw [hsame.id, hsame'.id]
      exact h.solo k₀ hk₀ m₀ hm₀ subscription (hsame.consumer.symm.trans hcons)
        (hsame'.consumer.symm.trans hcons')
    case stuck =>
      -- The loop that ends runs, so it is the only one that the life cycle has named.
      intro k hk hruns subscription hcons
      rcases hmem k hk with rfl | ⟨hk, hne⟩
      · rw [same.runs, ran] at hruns
        cases hruns
      · obtain ⟨j', hj'⟩ := h.stuck k hk hruns subscription hcons
        rw [hj] at hj'
        exact absurd (congrArg Attachment.loop (Option.some.inj hj')).symm hne
    case callIds =>
      show ((p.answering l e).map Call.id).Nodup
      rw [map_id_answering]
      exact h.callIds
  · intro d hd
    rcases mem_answering hd with ⟨hd', hunheard⟩ | ⟨c, hc, r, -, -, rfl⟩
    · have hfits := h.fits d hd'
      constructor
      · intro i hs
        -- The consumer of the loop is still waiting, so the loop has answered it.
        obtain ⟨hcons, j', hj'⟩ := hfits.awaiting i hs
        rw [hj] at hj'
        cases hj'
        obtain ⟨k, hk, hid, hcons', -⟩ := h.attached _ hj
        obtain rfl := h.eq_of_id hl hk hid
        have hwait : k.consumer = .waiter d.id := by
          rw [hcons] at hcons'
          exact (Option.some.inj hcons').symm
        have hlis := listener?_of_receiving h.toConsistent hd' hwait hs
        cases hans : e.answer with
        | some r => exact absurd hlis (hunheard r hans)
        | none =>
          have habandoned : e = .abandoned := by
            cases e with
            | abandoned => rfl
            | _ => cases hans
          have hgone := gone habandoned
          simp [waiterGone, hwait, h.call?_of_mem hd'] at hgone
      · intro k hk hkal
        rw [hall k hk] at hkal
        cases hkal
      · intro i s hs
        have hjoins := (hfits.joining i s hs).withLoop h.toConsistent hl same
        exact { hjoins with
          conclude := fun hseq => hstop (hjoins.conclude hseq)
          close := fun hseq => ⟨(hjoins.close hseq).1, fun a ha => by cases ha⟩ }
    · constructor
      · intro i hs
        cases hs
      · intro k hk hkal
        rw [hall k hk] at hkal
        cases hkal
      · intro i s hs
        cases hs

/-- A loop is joined as long as the loops stay, no other one is named and no stop is forgotten. -/
theorem Joins.mono {i : Nat} {s : Sequel} (h : p.Joins i s) (loops : q.loops = p.loops)
    (current : ∀ a, q.current = some a → p.current = some a)
    (stop : p.stopRequested = true → q.stopRequested = true)
    (disposed : p.disposed = true → q.disposed = true) : q.Joins i s where
  loop := loops ▸ h.loop
  conclude hs := stop (h.conclude hs)
  close hs := ⟨disposed (h.close hs).1, fun a ha => (h.close hs).2 a (current a ha)⟩

/-- A call fits as long as the loops and the life cycle stay. -/
theorem CallFits.mono {d : Call α} (h : p.CallFits c) (id : d.id = c.id) (stage : d.stage = c.stage)
    (loops : q.loops = p.loops) (consumer : q.consumer = p.consumer)
    (current : q.current = p.current) (stop : p.stopRequested = true → q.stopRequested = true)
    (disposed : p.disposed = true → q.disposed = true) : q.CallFits d where
  awaiting i hs := by
    rw [consumer, current, id]
    exact h.awaiting i (stage ▸ hs)
  listening l hl hal hcons := by
    rw [stage]
    exact h.listening l (loops ▸ hl) hal (id ▸ hcons)
  joining i s hs :=
    (h.joining i s (stage ▸ hs)).mono loops (fun a ha => by rwa [current] at ha) stop disposed

/-- What holds of a poller while one of its calls moves. -/
structure SoundBeside (p : Poller α) (id : String) : Prop extends Consistent p where
  fits : ∀ c ∈ p.calls, c.id ≠ id → p.CallFits c

theorem Sound.beside (h : p.Sound) (id : String) : p.SoundBeside id where
  toConsistent := h.toConsistent
  fits c hc _ := h.fits c hc

theorem SoundBeside.dropCall {id : String} (h : p.SoundBeside id) : (p.dropCall id).Sound where
  toConsistent := { h with callIds := h.callIds.sublist (List.filter_sublist.map _) }
  fits c hc := by
    obtain ⟨hc, hne⟩ := List.mem_filter.1 hc
    exact (h.fits c hc (by simpa using hne)).mono rfl rfl rfl rfl rfl (fun hs => hs) (fun hs => hs)

theorem SoundBeside.setCallStage {s : CallStage α} (h : p.SoundBeside c.id)
    (hnew : p.CallFits { c with stage := s }) : (p.setCallStage c.id s).Sound where
  toConsistent := { h with
    callIds := by
      -- A call keeps its name wherever it goes.
      have hids : (p.setCallStage c.id s).calls.map Call.id = p.calls.map Call.id := by
        simp only [Poller.setCallStage, List.map_map]
        apply List.map_congr_left
        intro c _
        dsimp only [Function.comp]
        split <;> rfl
      rw [hids]
      exact h.callIds }
  fits e he := by
    obtain ⟨d, hd, rfl⟩ := List.mem_map.1 he
    split
    · next hid => exact hnew.mono hid rfl rfl rfl rfl id id
    · next hid => exact (h.fits d hd hid).mono rfl rfl rfl rfl rfl id id

/-- The right to join a loop may be given up. -/
theorem Sound.unjoin (h : p.Sound) {a : Attachment} (ha : p.current = some a) :
    ({ p with current := some { a with joinable := false } } : Poller α).Sound := by
  have hne : p.current ≠ none := by simp [ha]
  have hnamed : ∀ {i : Nat}, (∃ j, p.current = some ⟨i, j⟩) →
      ∃ j, some ({ a with joinable := false } : Attachment) = some ⟨i, j⟩ := by
    rintro i ⟨j, hj⟩
    rw [ha] at hj
    obtain rfl := Option.some.inj hj
    exact ⟨false, rfl⟩
  constructor
  · refine { h.toConsistent with
      alive := fun k hk hal => ?_
      attached := fun b hb => ?_
      detached := by simp
      engaged := fun _ => h.engaged hne
      vacant := fun _ => h.vacant hne
      stuck := fun k hk hruns subscription hcons => ?_ }
    · exact hnamed (h.alive k hk hal)
    · obtain rfl := Option.some.inj hb
      exact h.attached a ha
    · exact hnamed (h.stuck k hk hruns subscription hcons)
  · intro c hc
    obtain ⟨hawaiting, hlistening, hjoining⟩ := h.fits c hc
    refine ⟨fun i hs => ?_, hlistening, fun i s hs => ?_⟩
    · obtain ⟨hcons, hcurrent⟩ := hawaiting i hs
      exact ⟨hcons, hnamed hcurrent⟩
    · have hjoins := hjoining i s hs
      refine { hjoins with close := fun hseq => ⟨(hjoins.close hseq).1, fun b hb => ?_⟩ }
      obtain rfl := Option.some.inj hb
      rw [(hjoins.close hseq).2 a ha]

/-- Asking a loop to end leaves the poller sound. -/
theorem Sound.retire (h : p.Sound) {a : Attachment} (ha : p.current = some a) :
    (p.retire a).Sound := by
  have hcancel : (p.cancelLoop a.loop).Sound := by
    apply h.mapLoops
    intro k _
    split
    · exact ⟨⟨rfl, rfl, id, .inl rfl⟩, fun _ _ => rfl, .inl⟩
    · exact .refl k
  exact hcancel.unjoin ha

/-- Discarding a task leaves the poller sound. -/
theorem Sound.discard (h : p.Sound) (hl : l ∈ p.loops) (hal : l.hasEnded = false) :
    (p.discard l.id).Sound := by
  apply h.mapLoops
  intro k hk
  split
  · next hid =>
    obtain rfl := h.eq_of_id hl hk hid
    exact ⟨Loop.becomes_discarded hal, fun _ hal' => (by cases hal'), fun _ => .inr rfl⟩
  · exact .refl k

/-- Asking the poller to stop leaves it sound. -/
theorem Sound.stop (h : p.Sound) : p.stop.Sound := by
  constructor
  · refine { h.toConsistent with
      detached := fun hnone => ?_
      engaged := fun hne => ?_
      halted := fun _ => rfl
      disposed := fun hd => ?_ }
    · obtain ⟨hcons, hphase | hphase⟩ := h.detached hnone
      · exact ⟨hcons, .inr (by simp [Poller.stop, hphase, Phase.afterStop])⟩
      · exact ⟨hcons, .inr (by simp [Poller.stop, hphase, Phase.afterStop])⟩
    · rcases h.engaged hne with hphase | hphase
      · exact .inr (by simp [Poller.stop, hphase, Phase.afterStop])
      · exact .inr (by simp [Poller.stop, hphase, Phase.afterStop])
    · rcases h.disposed hd with hphase | hphase
      · exact .inl (by simp [Poller.stop, hphase, Phase.afterStop])
      · exact .inr (by simp [Poller.stop, hphase, Phase.afterStop])
  · exact fun c hc => (h.fits c hc).mono rfl rfl rfl rfl rfl (fun _ => rfl) id

/-- Letting go of the poller leaves it sound. -/
theorem Sound.release (h : p.Sound) : p.release.Sound := by
  constructor
  · exact { h.toConsistent with halted := fun _ => rfl }
  · exact fun c hc => (h.fits c hc).mono rfl rfl rfl rfl rfl (fun _ => rfl) id

/-- What is parked may be taken away, and the failure is free. -/
theorem Sound.withSlots (h : p.Sound) {x : Option α} (hx : p.current ≠ none → x = none)
    (f : Option Failure) : ({ p with parked := x, failure := f } : Poller α).Sound where
  toConsistent := { h.toConsistent with vacant := hx }
  fits c hc := (h.fits c hc).mono rfl rfl rfl rfl rfl id id

/-- A poller is shut down by stopping it. -/
theorem Sound.dispose (h : p.Sound) (f : Option Failure) :
    ({ p.stop with disposed := true, failure := f } : Poller α).Sound where
  toConsistent := { h.stop.toConsistent with
    disposed := fun _ => by
      cases hp : p.phase <;> simp [Poller.stop, hp, Phase.afterStop] }
  fits c hc := (h.stop.fits c hc).mono rfl rfl rfl rfl rfl id fun _ => rfl

/-- A poller that is neither running nor stopping has no loop left. -/
theorem Consistent.current_of_phase (h : p.Consistent) (hp : p.phase = .idle ∨ p.phase = .stopped) :
    p.current = none := by
  by_contra hne
  rcases h.engaged hne with hphase | hphase <;> simp [hphase] at hp

theorem Consistent.current_of_idle (h : p.Consistent) (hp : p.phase = .idle) :
    p.current = none := h.current_of_phase (.inl hp)

/-- What is parked is parked without a loop. -/
theorem Consistent.current_of_parked (h : p.Consistent) {x : α} (hparked : p.parked = some x) :
    p.current = none := by
  by_contra hne
  rw [h.vacant hne] at hparked
  cases hparked

theorem Consistent.parked_of_alive (h : p.Consistent) (hl : l ∈ p.loops)
    (hal : l.hasEnded = false) : p.parked = none := by
  obtain ⟨j, hj⟩ := h.alive l hl hal
  exact h.vacant (by simp [hj])

/-- Without an attachment, all loops have ended. -/
theorem Consistent.hasEnded_of_current (h : p.Consistent) (hnone : p.current = none)
    (hl : l ∈ p.loops) : l.hasEnded = true := by
  by_contra hal
  obtain ⟨j, hj⟩ := h.alive l hl (by simpa using hal)
  rw [hnone] at hj
  cases hj

/-- Starting a loop in an idle poller leaves it sound, but for the call that waits for it. -/
theorem Sound.startLoop (h : p.Sound) (hp : p.phase = .idle) (consumer : Consumer) {script runs}
    {releasePanic : Option String}
    (fresh : ∀ subscription, consumer = .subscriber subscription →
      ∀ l ∈ p.loops, l.consumer ≠ .subscriber subscription) :
    (p.startLoop consumer script runs releasePanic).Consistent ∧
      ∀ c ∈ p.calls, consumer ≠ .waiter c.id →
        (p.startLoop consumer script runs releasePanic).CallFits c := by
  have hnone := h.current_of_idle hp
  have hmem : ∀ k ∈ (p.startLoop consumer script runs releasePanic).loops, k ∈ p.loops ∨
      k.id = p.started + 1 ∧ k.consumer = consumer ∧ k.hasEnded = false ∧
        ∃ b, k.stage = .spawned b := by
    intro k hk
    rcases List.mem_append.1 hk with hk | hk
    · exact .inl hk
    · obtain rfl := List.mem_singleton.1 hk
      exact .inr ⟨rfl, rfl, rfl, p.parked, rfl⟩
  -- The new loop is the only one that has not ended.
  have hnew : ∃ k ∈ (p.startLoop consumer script runs releasePanic).loops,
      k.id = p.started + 1 ∧ k.consumer = consumer ∧ k.hasEnded = false :=
    ⟨_, List.mem_append_right _ (List.mem_singleton.2 rfl), rfl, rfl, rfl⟩
  constructor
  · refine { h.toConsistent with
      ids := ?ids, id_le := ?id_le, unrun := ?unrun, alive := ?alive, attached := ?attached,
      detached := ?detached, engaged := fun _ => .inl rfl, halted := ?halted, disposed := ?disposed,
      vacant := fun _ => rfl, solo := ?solo, stuck := ?stuck }
    case ids =>
      have hids : (p.startLoop consumer script runs releasePanic).loops.map Loop.id =
          p.loops.map Loop.id ++ [p.started + 1] := List.map_append
      rw [hids]
      refine List.nodup_append.2 ⟨h.ids, List.nodup_singleton _, ?_⟩
      intro i hi j hj hij
      obtain ⟨k, hk, rfl⟩ := List.mem_map.1 hi
      have hle := h.id_le k hk
      rw [List.mem_singleton] at hj
      omega
    case id_le =>
      intro k hk
      rcases hmem k hk with hk | ⟨hid, -⟩
      · exact Nat.le_succ_of_le (h.id_le k hk)
      · exact Nat.le_of_eq hid
    case unrun =>
      intro k hk hruns hal
      rcases hmem k hk with hk | ⟨-, -, -, hb⟩
      · exact h.unrun k hk hruns hal
      · exact hb
    case alive =>
      intro k hk hal
      rcases hmem k hk with hk | ⟨hid, -⟩
      · rw [h.hasEnded_of_current hnone hk] at hal
        cases hal
      · exact ⟨true, by rw [hid]; rfl⟩
    case attached =>
      intro a ha
      obtain ⟨k, hk, hid, hcons, hal⟩ := hnew
      obtain rfl := Option.some.inj ha
      refine ⟨k, hk, hid, by rw [hcons]; rfl, fun hend => ?_⟩
      rw [hal] at hend
      cases hend
    case detached =>
      intro hnone
      cases hnone
    case halted =>
      rintro (hphase | hphase) <;> cases hphase
    case disposed =>
      intro hd
      have hphase := h.disposed hd
      simp [hp] at hphase
    case solo =>
      intro k hk m hm subscription hcons hcons'
      -- Both are old, or one is new and its subscription is, too.
      rcases hmem k hk with hk | ⟨hid, hk', -⟩ <;> rcases hmem m hm with hm | ⟨hid', hm', -⟩
      · exact h.solo k hk m hm subscription hcons hcons'
      · exact absurd hcons (fresh subscription (hm'.symm.trans hcons') k hk)
      · exact absurd hcons' (fresh subscription (hk'.symm.trans hcons) m hm)
      · rw [hid, hid']
    case stuck =>
      intro k hk hruns subscription hcons
      rcases hmem k hk with hk | ⟨hid, -⟩
      · obtain ⟨j, hj⟩ := h.stuck k hk hruns subscription hcons
        rw [hnone] at hj
        cases hj
      · exact ⟨true, by rw [hid]; rfl⟩
  · intro d hd hne
    have hfits := h.fits d hd
    constructor
    · intro i hs
      obtain ⟨-, j, hj⟩ := hfits.awaiting i hs
      rw [hnone] at hj
      cases hj
    · intro k hk hal hcons
      rcases hmem k hk with hk | ⟨-, hcons', -⟩
      · exact hfits.listening k hk hal hcons
      · exact absurd (hcons'.symm.trans hcons) hne
    · intro i s hs
      have hjoins := hfits.joining i s hs
      obtain ⟨k, hk, hrest⟩ := hjoins.loop
      refine { hjoins with
        loop := ⟨k, List.mem_append_left _ hk, hrest⟩
        close := fun hseq => ?_ }
      have hphase := h.disposed (hjoins.close hseq).1
      simp [hp] at hphase

/-- A wait that clears up after a loop that is gone leaves the poller sound but for itself. -/
theorem Sound.cleared (h : p.Sound) (hc : c ∈ p.calls) {i : Nat} (hs : c.stage = .receiving i none)
    (hgone : p.hasEnded i = true) : p.cleared.SoundBeside c.id := by
  obtain ⟨hcons, j, hj⟩ := (h.fits c hc).awaiting i hs
  have hall : ∀ k ∈ p.loops, k.hasEnded = true := by
    intro k hk
    by_contra hal
    obtain ⟨j', hj'⟩ := h.alive k hk (by simpa using hal)
    rw [hj] at hj'
    have hid : i = k.id := congrArg Attachment.loop (Option.some.inj hj')
    rw [hid, h.hasEnded_of_mem hk] at hgone
    exact hal hgone
  constructor
  · refine { h.toConsistent with
      alive := fun k hk hal => ?_
      attached := fun a ha => by cases ha
      detached := fun _ => ⟨rfl, .inr rfl⟩
      engaged := fun hne => absurd rfl hne
      halted := fun _ => rfl
      disposed := fun _ => .inr rfl
      vacant := fun hne => absurd rfl hne
      stuck := fun k hk hruns subscription hcons' => ?_ }
    · rw [hall k hk] at hal
      cases hal
    · obtain ⟨j', hj'⟩ := h.stuck k hk hruns subscription hcons'
      obtain ⟨k', hk', hid, hcons'', -⟩ := h.attached _ hj
      rw [hj] at hj'
      have hkk : k' = k := h.eq_of_id hk hk' (by
        rw [hid]
        exact congrArg Attachment.loop (Option.some.inj hj'))
      rw [hkk, hcons', hcons] at hcons''
      cases hcons''
  · intro d hd hne
    have hfits := h.fits d hd
    constructor
    · intro i' hs'
      obtain ⟨hcons', -⟩ := hfits.awaiting i' hs'
      rw [hcons] at hcons'
      exact absurd (Consumer.waiter.inj (Option.some.inj hcons')).symm hne
    · exact hfits.listening
    · exact fun i' s hs' => (hfits.joining i' s hs').mono rfl (fun a ha => by cases ha)
        (fun _ => rfl) id

/-- A call without a loop of its own may come to join one. -/
theorem Sound.fits_of_listensNot (h : p.Sound) (hc : c ∈ p.calls)
    (hs : ∀ i, c.stage ≠ .receiving i none) {s : CallStage α} (hs' : ∀ i, s ≠ .receiving i none)
    (hjoins : ∀ i t, s = .joining i t → p.Joins i t) :
    p.CallFits { c with stage := s } where
  awaiting i hi := absurd hi (hs' i)
  listening l hl hal hcons := absurd ((h.fits c hc).listening l hl hal hcons) (hs l.id)
  joining := hjoins

/-- The loop that the life cycle names is there. -/
theorem Sound.joins (h : p.Sound) {a : Attachment} (ha : p.current = some a) :
    ∃ l ∈ p.loops, l.id = a.loop ∧ p.consumer = some l.consumer := by
  obtain ⟨l, hl, hid, hcons, -⟩ := h.attached a ha
  exact ⟨l, hl, hid, hcons⟩

/-- A move of a call leaves the poller sound, and so does what it comes to. -/
theorem CallEffect.sound {v : Verdict α} (h : p.Sound) (hc : c ∈ p.calls)
    (ready : p.callReady c = true) (heffect : p.CallEffect c q v) :
    q.SoundBeside c.id ∧ ∀ s, v = .goesOn s → q.CallFits { c with stage := s } := by
  cases heffect with
  | refused | late | answered => exact ⟨h.beside _, by simp⟩
  | collects => exact ⟨(h.withSlots h.vacant none).beside _, by simp⟩
  | unparks => exact ⟨(h.withSlots (fun _ => rfl) p.failure).beside _, by simp⟩
  | starts wait hphase hparked =>
    have hnone := h.current_of_idle hphase
    obtain ⟨hstart, hfits⟩ := h.startLoop hphase (.waiter c.id) (by simp)
    refine ⟨⟨hstart, fun d hd hne => hfits d hd fun hcons => ?_⟩, fun s hs => ?_⟩
    · exact hne (Consumer.waiter.inj hcons).symm
    · obtain rfl : CallStage.receiving (p.started + 1) none = s := Verdict.goesOn.inj hs
      refine ⟨fun i hi => ?_, fun k hk hal hcons => ?_, by simp⟩
      · cases hi
        exact ⟨rfl, true, rfl⟩
      · rcases List.mem_append.1 hk with hk | hk
        · rw [h.hasEnded_of_current hnone hk] at hal
          cases hal
        · obtain rfl := List.mem_singleton.1 hk
          rfl
  | @replaces a wait ha told =>
    have hretire := h.retire ha
    refine ⟨hretire.beside _, fun s hs => ?_⟩
    -- The call joins the loop, or it looks again later and waits for nothing meanwhile.
    obtain ⟨l, hl, hid, -⟩ := hretire.joins (a := { a with joinable := false }) rfl
    refine hretire.fits_of_listensNot hc ?_ ?_ ?_
    · intro i hi
      simp [hi, CallStage.isWait] at wait
    · rintro i rfl
      have := Verdict.goesOn.inj hs
      split at this <;> cases this
    · rintro i t rfl
      have hs := Verdict.goesOn.inj hs
      split at hs
      · cases hs
        exact ⟨⟨l, hl, hid, by simp⟩, by simp, by simp⟩
      · cases hs
  | @unsubscribes a subscription stage hcons ha told =>
    have hretire := h.retire ha
    refine ⟨hretire.beside _, fun s hs => ?_⟩
    obtain ⟨l, hl, hid, hl'⟩ := hretire.joins (a := { a with joinable := false }) rfl
    split at hs
    · obtain rfl : CallStage.joining a.loop .leave = s := Verdict.goesOn.inj hs
      apply hretire.fits_of_listensNot hc (by simp [stage]) (by simp)
      intro i t ht
      cases ht
      refine ⟨⟨l, hl, hid, fun _ => ⟨subscription, ?_⟩⟩, by simp, by simp⟩
      exact (Option.some.inj (hcons.symm.trans hl')).symm
    · cases hs
  | @closes i stage ha =>
    have hclose : ({ p.stop with disposed := true, current := some ⟨i, false⟩ } : Poller α).Sound :=
      (h.dispose p.failure).unjoin (a := ⟨i, true⟩) ha
    refine ⟨hclose.beside _, fun s hs => ?_⟩
    obtain rfl : CallStage.joining i .close = s := Verdict.goesOn.inj hs
    obtain ⟨l, hl, hid, -⟩ := hclose.joins (a := ⟨i, false⟩) rfl
    apply hclose.fits_of_listensNot hc (by simp [stage]) (by simp)
    intro i' t ht
    cases ht
    exact ⟨⟨l, hl, hid, by simp⟩, by simp, fun _ => ⟨rfl, fun a ha => (Option.some.inj ha).symm⟩⟩
  | closed stage => exact ⟨(h.dispose none).beside _, by simp⟩
  | @reenters i stage =>
    rw [absorb_eq]
    have habsorb := h.withSlots h.vacant ((p.panicOf? i).or p.failure)
    refine ⟨habsorb.beside _, fun s hs => ?_⟩
    obtain rfl : CallStage.entering = s := Verdict.goesOn.inj hs
    exact habsorb.fits_of_listensNot hc (by simp [stage]) (by simp) (by simp)
  | @leaves i =>
    rw [absorb_eq]
    exact ⟨(h.withSlots h.vacant _).beside _, by simp⟩
  | @reports i =>
    rw [absorb_eq]
    exact ⟨(h.withSlots h.vacant none).beside _, by simp⟩
  | @clears i stage ha =>
    have hcleared := h.cleared hc stage (by simpa [callReady, stage] using ready)
    refine ⟨hcleared, fun s hs => ?_⟩
    obtain rfl : CallStage.joining i .conclude = s := Verdict.goesOn.inj hs
    obtain ⟨l, hl, hid, -⟩ := h.joins ha
    refine ⟨by simp, fun k hk hal hcons => ?_, fun i' t ht => ?_⟩
    · obtain ⟨j, hj⟩ := hcleared.alive k hk hal
      cases hj
    · cases ht
      exact ⟨⟨l, hl, hid, by simp⟩, fun _ => rfl, by simp⟩
  | @cleared i stage ha =>
    have hcleared := h.cleared hc stage (by simpa [callReady, stage] using ready)
    refine ⟨⟨{ hcleared.toConsistent with }, fun d hd hne => ?_⟩, by simp⟩
    exact (hcleared.fits d hd hne).mono rfl rfl rfl rfl rfl id id

/-- A loop moves in a sound poller. -/
theorem LoopEffect.sound (h : p.Sound) (hl : l ∈ p.loops) (hal : l.hasEnded = false) {es}
    (heffect : p.LoopEffect l es q) : q.Sound := by
  cases heffect with
  | goesOn ran same alive =>
    have hq := h.goesOn hl same ran hal alive
    exact ⟨{ hq.toConsistent with }, fun c hc => (hq.fits c hc).mono rfl rfl rfl rfl rfl id id⟩
  | ends ran same exit _ _ _ gone =>
    have hq := h.ends hl hal ran same (by simp [Loop.hasEnded, exit]) gone
    exact ⟨{ hq.toConsistent with }, fun c hc => (hq.fits c hc).mono rfl rfl rfl rfl rfl id id⟩

/-- Asking for a subscription leaves the poller sound. -/
theorem SubscribeEffect.sound {subscription : String} {r : Except Error Unit} (h : p.Sound)
    (fresh : ∀ l ∈ p.loops, l.consumer ≠ .subscriber subscription)
    (heffect : p.SubscribeEffect subscription q r) : q.Sound := by
  cases heffect with
  | refused => exact h
  | collects => exact h.withSlots h.vacant none
  | starts hphase =>
    obtain ⟨hstart, hfits⟩ := h.startLoop hphase (.subscriber subscription) fun s hs => by
      obtain rfl := Consumer.subscriber.inj hs
      exact fresh
    exact ⟨hstart, fun c hc => hfits c hc (by simp)⟩

/-- A call that is made leaves the poller sound. -/
theorem Sound.call (h : p.Sound) (first : c.stage.isFirst = true)
    (new : ∀ d ∈ p.calls, d.id ≠ c.id) (fresh : ∀ l ∈ p.loops, l.consumer ≠ .waiter c.id) :
    ({ p with calls := p.calls ++ [c] } : Poller α).Sound := by
  constructor
  · refine { h.toConsistent with callIds := ?_ }
    rw [List.map_append]
    refine List.nodup_append.2 ⟨h.callIds, List.nodup_singleton _, ?_⟩
    intro i hi j hj hij
    obtain ⟨d, hd, rfl⟩ := List.mem_map.1 hi
    exact new d hd (hij.trans (List.mem_singleton.1 hj))
  · intro d hd
    rcases List.mem_append.1 hd with hd | hd
    · exact (h.fits d hd).mono rfl rfl rfl rfl rfl id id
    · obtain rfl := List.mem_singleton.1 hd
      refine ⟨fun i hi => ?_, fun l hl _ hcons => absurd hcons (fresh l hl), fun i s hs => ?_⟩
      · simp [hi, CallStage.isFirst] at first
      · simp [hs, CallStage.isFirst] at first

/-- Every move leaves the poller sound. -/
theorem Sound.move (h : p.Sound) {es} (hmove : p.Move es q) : q.Sound := by
  cases hmove with
  | loop mem move => exact (move.effect h.toConsistent mem).sound h mem move.alive
  | proceed mem ready goes =>
    obtain ⟨hq, hfits⟩ := (callEffect_of_moveCall h mem goes).sound h mem ready
    exact hq.setCallStage (hfits _ rfl)
  | finish mem ready goes =>
    exact ((callEffect_of_moveCall h mem goes).sound h mem ready).1.dropCall
  | call first new fresh => exact h.call first new fresh
  | drop => exact (h.beside _).dropCall
  | subscribe fresh => exact (subscribeEffect p _ _ _ _ _).sound h fresh
  | stop => exact h.stop
  | release => exact h.release
  | discard mem waits => exact h.discard mem (Stage.alive_of_awaits waits)

/-- A sound poller stays sound. -/
theorem Sound.run (h : p.Sound) {tr} (hrun : Run p tr q) : q.Sound :=
  hrun.preserves (fun hp hmove => hp.move hmove) h

/-- Every poller that has come about is sound. -/
theorem Reachable.sound (h : p.Reachable) : p.Sound :=
  h.preserves sound_idle fun hp hmove => hp.move hmove

end Poller

end Polling
