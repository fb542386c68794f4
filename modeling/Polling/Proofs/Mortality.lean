import Mathlib.Logic.Relation
import Polling.Proofs.Bookkeeping

/-!
# Tasks that die

The task of a loop may die on its way, and not only where it waits: it may panic where nothing
catches that.  Either the life cycle still names the loop then, or the loop has just left the life
cycle and its outcome is lost (`Poller.Dies`).  A `MortalRun` is any number of moves and of such
deaths.

What is sound without deaths need not be so with them: a wait may then listen for a loop that the
life cycle no longer names.  Two things hold nevertheless, whatever dies (`Poller.Accounted`).
Loops are numbered in the order in which they start, and the right to join a loop is used once: as
long as there is somebody who can join it nobody does, and no two calls ever do.
-/

namespace Polling

variable {α : Type}

namespace Poller

/-- The task of a loop dies. -/
inductive Dies (p : Poller α) (l : Loop α) : Poller α → Prop
  /-- The life cycle names the loop as before. -/
  | early (exit : Exit) (alive : l.hasEnded = false) : Dies p l (p.setStage l.id (.ended exit))
  /-- The loop has left the life cycle, and nobody learns how it ended. -/
  | late (exit : Exit) (e : Ending α) (alive : l.hasEnded = false) :
      Dies p l ((vacate { p with stopRequested := p.stopRequested || e.stops } l.id).setStage l.id
        (.ended exit))

/-- What can happen to a poller while tasks may die. -/
inductive MortalMove (p q : Poller α) : Prop
  | moves {es} (move : p.Move es q)
  | dies {l : Loop α} (mem : l ∈ p.loops) (death : p.Dies l q)

/-- Any number of moves and deaths. -/
def MortalRun : Poller α → Poller α → Prop := Relation.ReflTransGen MortalMove

/-- What is accounted for in every poller, whatever has died. -/
structure Accounted (p : Poller α) : Prop where
  /-- A number is given to one loop, and loops are never forgotten. -/
  ids : p.loops.map Loop.id = List.range' 1 p.started
  named : ∀ a, p.current = some a → a.loop ≤ p.started
  callIds : (p.calls.map Call.id).Nodup
  awaited : ∀ c ∈ p.calls, ∀ i r, c.stage = .receiving i r → i ≤ p.started
  /-- A loop that is joined cannot be joined once more. -/
  joined : ∀ c ∈ p.calls, ∀ i s, c.stage = .joining i s →
    i ≤ p.started ∧ p.current ≠ some ⟨i, true⟩
  once : ∀ c ∈ p.calls, ∀ d ∈ p.calls, ∀ i s t, c.stage = .joining i s → d.stage = .joining i t →
    c = d
  /-- Who cleared up after a loop has stopped the poller. -/
  stopped : ∀ c ∈ p.calls, ∀ i, c.stage = .joining i .conclude → p.stopRequested = true

/-- How the life cycle may have changed: it names the loop that it named, perhaps without the right
to join it, or a new one, or none. -/
structure Follows (p q : Poller α) : Prop where
  started : p.started ≤ q.started
  ids : p.loops.map Loop.id = List.range' 1 p.started →
    q.loops.map Loop.id = List.range' 1 q.started
  current : ∀ a, q.current = some a → p.current = some a ∨
    p.current = some ⟨a.loop, true⟩ ∧ a.joinable = false ∨ p.started < a.loop ∧ a.loop ≤ q.started
  requested : p.stopRequested = true → q.stopRequested = true

/-- Where a call may stand after a move in which one call, of the given name, was free to move. -/
inductive Stands (p q : Poller α) (mover : String) (d : Call α) : Prop
  | stays (mem : d ∈ p.calls)
  | apart (joins : ∀ i s, d.stage ≠ .joining i s)
      (awaits : ∀ i r, d.stage = .receiving i r → i ≤ q.started)
  /-- It has taken the right to join a loop. -/
  | joins {i : Nat} {s : Sequel} (mover : d.id = mover) (stage : d.stage = .joining i s)
      (free : p.current = some ⟨i, true⟩) (taken : q.current ≠ some ⟨i, true⟩)
      (stopped : s = .conclude → q.stopRequested = true)

/-- What a move or a death may do to what is accounted for. -/
structure Proceeds (p q : Poller α) : Prop extends Follows p q where
  callIds : (p.calls.map Call.id).Nodup → (q.calls.map Call.id).Nodup
  calls : ∃ mover, ∀ d ∈ q.calls, p.Stands q mover d

/-- Whether nobody can come to join a loop any more. -/
def Taken (p : Poller α) (i : Nat) : Prop := i ≤ p.started ∧ p.current ≠ some ⟨i, true⟩

variable {p q : Poller α} {l : Loop α} {c : Call α} {i : Nat}

theorem accounted_idle (name : String) (pacing : Pacing) :
    (idle name pacing : Poller α).Accounted := by
  constructor <;> simp [idle]

theorem Accounted.id_le (h : p.Accounted) (hl : l ∈ p.loops) : l.id ≤ p.started := by
  have hmem := List.mem_map_of_mem (f := Loop.id) hl
  rw [h.ids, List.mem_range'_1] at hmem
  omega

theorem Accounted.nodup (h : p.Accounted) : (p.loops.map Loop.id).Nodup := by
  rw [h.ids]
  exact List.nodup_range'

theorem Accounted.call?_of_mem (h : p.Accounted) (hc : c ∈ p.calls) : p.call? c.id = some c := by
  cases hf : p.call? c.id with
  | none => exact absurd rfl (call?_eq_none.1 hf c hc)
  | some d =>
    obtain ⟨hd, hid⟩ := call?_eq_some hf
    rw [List.inj_on_of_nodup_map h.callIds hd hc hid]

/-! ### What is taken stays taken -/

theorem Follows.taken (hq : p.Follows q) (h : p.Taken i) : q.Taken i := by
  refine ⟨Nat.le_trans h.1 hq.started, fun hcur => ?_⟩
  rcases hq.current _ hcur with hcur | ⟨-, hfalse⟩ | ⟨hlt, -⟩
  · exact h.2 hcur
  · cases hfalse
  · exact absurd h.1 (Nat.not_le.2 hlt)

/-- Who joins a loop that nobody can come to join any more has joined it before. -/
theorem Proceeds.mem_of_joining (hq : p.Proceeds q) (h : p.Taken i) {d : Call α} (hd : d ∈ q.calls)
    {s : Sequel} (hs : d.stage = .joining i s) : d ∈ p.calls := by
  obtain ⟨mover, hstands⟩ := hq.calls
  cases hstands d hd with
  | stays mem => exact mem
  | apart joins => exact absurd hs (joins i s)
  | joins _ stage free =>
    rw [hs] at stage
    obtain ⟨rfl, rfl⟩ := CallStage.joining.inj stage
    exact absurd free h.2

theorem Accounted.proceed (h : p.Accounted) (hq : p.Proceeds q) : q.Accounted := by
  obtain ⟨mover, hstands⟩ := hq.calls
  have hcallIds := hq.callIds h.callIds
  have hjoined : ∀ d ∈ q.calls, ∀ i s, d.stage = .joining i s → q.Taken i := by
    intro d hd i s hs
    cases hstands d hd with
    | stays mem => exact hq.taken (h.joined d mem i s hs)
    | apart joins => exact absurd hs (joins i s)
    | joins _ stage free taken =>
      rw [hs] at stage
      obtain ⟨rfl, rfl⟩ := CallStage.joining.inj stage
      exact ⟨Nat.le_trans (h.named _ free) hq.started, taken⟩
  refine ⟨hq.ids h.ids, fun a ha => ?named, hcallIds, fun d hd i r hs => ?awaited, hjoined,
    fun c hc d hd i s t hs ht => ?once, fun d hd i hs => ?stopped⟩
  case named =>
    rcases hq.current a ha with hcur | ⟨hcur, -⟩ | ⟨-, hle⟩
    · exact Nat.le_trans (h.named a hcur) hq.started
    · exact Nat.le_trans (h.named ⟨a.loop, true⟩ hcur) hq.started
    · exact hle
  case awaited =>
    cases hstands d hd with
    | stays mem => exact Nat.le_trans (h.awaited d mem i r hs) hq.started
    | apart _ awaits => exact awaits i r hs
    | joins _ stage => simp [hs] at stage
  case once =>
    -- Who has come to join the loop is one, and finds that nobody else joins it.
    have hnew : ∀ e ∈ q.calls, ∀ u, e.stage = .joining i u →
        e ∈ p.calls ∨ e.id = mover ∧ p.current = some ⟨i, true⟩ := by
      intro e he u hu
      cases hstands e he with
      | stays mem => exact .inl mem
      | apart joins => exact absurd hu (joins i u)
      | joins name stage free =>
        rw [hu] at stage
        obtain ⟨rfl, rfl⟩ := CallStage.joining.inj stage
        exact .inr ⟨name, free⟩
    rcases hnew c hc s hs with hmem | ⟨hname, hfree⟩ <;>
      rcases hnew d hd t ht with hmem' | ⟨hname', hfree'⟩
    · exact h.once c hmem d hmem' i s t hs ht
    · exact absurd hfree' (h.joined c hmem i s hs).2
    · exact absurd hfree (h.joined d hmem' i t ht).2
    · exact List.inj_on_of_nodup_map hcallIds hc hd (hname.trans hname'.symm)
  case stopped =>
    cases hstands d hd with
    | stays mem => exact hq.requested (h.stopped d mem i hs)
    | apart joins => exact absurd hs (joins i _)
    | joins _ stage _ _ stopped =>
      rw [hs] at stage
      obtain ⟨rfl, rfl⟩ := CallStage.joining.inj stage
      exact stopped rfl

/-! ### Loops -/

theorem Follows.refl (p : Poller α) : p.Follows p :=
  ⟨Nat.le_refl _, id, fun _ ha => .inl ha, id⟩

/-- The life cycle names what it named, or nothing any more. -/
theorem Follows.of_books (started : q.started = p.started)
    (ids : q.loops.map Loop.id = p.loops.map Loop.id)
    (current : q.current = p.current ∨ q.current = none)
    (requested : p.stopRequested = true → q.stopRequested = true) : p.Follows q := by
  refine ⟨Nat.le_of_eq started.symm, fun h => by rw [ids, started, h], fun a ha => ?_, requested⟩
  rcases current with hcur | hcur
  · exact .inl (hcur ▸ ha)
  · rw [hcur] at ha
    cases ha

/-- Nothing happens to the calls. -/
theorem Proceeds.of_follows (h : p.Follows q) (calls : q.calls = p.calls) : p.Proceeds q where
  toFollows := h
  callIds hids := by rwa [calls]
  calls := ⟨"", fun d hd => .stays (calls ▸ hd)⟩

theorem SameBooks.follows (h : p.SameBooks q) : p.Follows q :=
  .of_books h.started h.ids (.inl h.current) h.requested

theorem Follows.startLoop (p : Poller α) (consumer : Consumer) (script : Script (Handling α))
    (runs : Bool) (releasePanic : Option String) :
    p.Follows (p.startLoop consumer script runs releasePanic) where
  started := Nat.le_succ _
  ids h := by
    simp [Poller.startLoop, h, List.range'_concat, Nat.add_comm]
  current a ha := by
    obtain rfl := Option.some.inj ha
    exact .inr (.inr ⟨Nat.lt_succ_self _, Nat.le_refl _⟩)
  requested := id

theorem Accounted.loopMove (h : p.Accounted) (hl : l ∈ p.loops) {es}
    (hmove : p.LoopMove l es q) : p.Proceeds q := by
  rcases hmove.outline with same | ⟨r, e, same, rfl⟩
  · exact .of_follows same.follows same.calls
  · have hcalls : (r.finish l e).calls = r.answering l e := (calls_finish r l e).1
    refine ⟨.of_books ?_ ?_ ?_ ?_, fun hids => ?_, "", fun d hd => ?_⟩
    · rw [started_finish, same.started]
    · rw [map_id_finish, same.ids]
    · rw [← same.current]
      exact current_finish r l e
    · intro hs
      rw [stopRequested_finish, same.requested hs, Bool.true_or]
    · rwa [hcalls, map_id_answering, same.calls]
    · rw [hcalls] at hd
      rcases mem_answering hd with ⟨hd, -⟩ | ⟨c, -, x, -, -, rfl⟩
      · exact .stays (same.calls ▸ hd)
      · refine .apart (by simp) fun i r hs => ?_
        obtain ⟨rfl, -⟩ := CallStage.receiving.inj hs
        rw [started_finish, same.started]
        exact h.id_le hl

theorem Dies.proceeds (hdies : p.Dies l q) : p.Proceeds q := by
  cases hdies with
  | early exit => exact .of_follows (SameBooks.setStage p l.id (.ended exit)).follows rfl
  | late exit e =>
    let r : Poller α := { p with stopRequested := p.stopRequested || e.stops }
    have hstarted : (r.vacate l.id).started = p.started := by
      unfold vacate
      split <;> rfl
    have hloops : (r.vacate l.id).loops = p.loops := by
      unfold vacate
      split <;> rfl
    have hcalls : (r.vacate l.id).calls = p.calls := by
      unfold vacate
      split <;> rfl
    have hstop : (r.vacate l.id).stopRequested = (p.stopRequested || e.stops) := by
      unfold vacate
      split <;> rfl
    refine .of_follows (.of_books hstarted ?_ (current_vacate r l.id) fun hs => ?_) hcalls
    · have hids := (SameBooks.setStage (r.vacate l.id) l.id (.ended exit)).ids
      rwa [hloops] at hids
    · have hrequested : (r.vacate l.id).stopRequested = true := by rw [hstop, hs, Bool.true_or]
      exact hrequested

/-! ### Calls -/

/-- What a call may come to that goes on: it joins nothing, or it has taken the right to join. -/
def Takes (p q : Poller α) (s : CallStage α) : Prop :=
  (∀ i t, s ≠ .joining i t) ∧ (∀ i r, s = .receiving i r → i ≤ q.started) ∨
    ∃ i t, s = .joining i t ∧ p.current = some ⟨i, true⟩ ∧ q.current ≠ some ⟨i, true⟩ ∧
      (t = .conclude → q.stopRequested = true)

theorem Follows.retire {a : Attachment} (ha : p.current = some a) : p.Follows (p.retire a) := by
  refine ⟨Nat.le_refl _, fun h => ?_, fun b hb => ?_, id⟩
  · exact (map_id_updateLoop p a.loop (f := fun k => { k with cancelled := true })
      fun _ => rfl).trans h
  · obtain rfl := Option.some.inj hb
    cases hj : a.joinable with
    | true => exact .inr (.inl ⟨by rw [ha, ← hj], rfl⟩)
    | false => exact .inl (by rw [ha, ← hj])

/-- Who has retired a loop joins it, unless somebody else has the right to. -/
theorem takes_of_retire {a : Attachment} (ha : p.current = some a) (hj : a.joinable = true)
    {s : Sequel} (hs : s ≠ .conclude) : p.Takes (p.retire a) (.joining a.loop s) :=
  .inr ⟨a.loop, s, rfl, by rw [ha, ← hj], by simp [Poller.retire], fun h => absurd h hs⟩

theorem CallEffect.follows {v : Verdict α} (heffect : p.CallEffect c q v) :
    p.Follows q ∧ ∀ s, v = .goesOn s → p.Takes q s := by
  cases heffect with
  | refused | late | answered => exact ⟨.refl p, by simp⟩
  | collects | unparks => exact ⟨.of_books rfl rfl (.inl rfl) id, by simp⟩
  | starts =>
    refine ⟨.startLoop p _ _ _ _, fun s hs => .inl ?_⟩
    obtain rfl := Verdict.goesOn.inj hs
    refine ⟨by simp, fun i r hr => ?_⟩
    obtain ⟨rfl, -⟩ := CallStage.receiving.inj hr
    exact Nat.le_refl _
  | @replaces a _ ha =>
    refine ⟨.retire ha, fun s hs => ?_⟩
    obtain rfl := Verdict.goesOn.inj hs
    split
    · next hj => exact takes_of_retire ha hj (by simp)
    · exact .inl ⟨by simp, by simp⟩
  | @unsubscribes a _ _ _ ha =>
    refine ⟨.retire ha, fun s hs => ?_⟩
    split at hs
    · next hj =>
      obtain rfl := Verdict.goesOn.inj hs
      exact takes_of_retire ha hj (by simp)
    · cases hs
  | @closes i _ ha =>
    refine ⟨⟨Nat.le_refl _, id, fun a hb => ?_, fun _ => rfl⟩, fun s hs => .inr ?_⟩
    · obtain rfl := Option.some.inj hb
      exact .inr (.inl ⟨ha, rfl⟩)
    · obtain rfl := Verdict.goesOn.inj hs
      exact ⟨i, .close, rfl, ha, by simp, by simp⟩
  | closed => exact ⟨.of_books rfl rfl (.inl rfl) fun _ => rfl, by simp⟩
  | reenters =>
    rw [absorb_eq]
    refine ⟨.of_books rfl rfl (.inl rfl) id, fun s hs => .inl ?_⟩
    obtain rfl := Verdict.goesOn.inj hs
    exact ⟨by simp, by simp⟩
  | leaves | reports =>
    rw [absorb_eq]
    exact ⟨.of_books rfl rfl (.inl rfl) id, by simp⟩
  | @clears i _ ha =>
    refine ⟨.of_books rfl rfl (.inr rfl) fun _ => rfl, fun s hs => .inr ?_⟩
    obtain rfl := Verdict.goesOn.inj hs
    exact ⟨i, .conclude, rfl, ha, fun hcur => (by cases hcur), fun _ => rfl⟩
  | cleared => exact ⟨.of_books rfl rfl (.inr rfl) fun _ => rfl, by simp⟩

/-- What a wait returns that concludes. -/
def concluded (p : Poller α) : CallResult α :=
  match p.failure with
  | some f => .error (.failed f)
  | none =>
    if p.stopRequested then .ok none
    else .error (.failed (.pollPanic "poll loop exited without a result"))

/-- A wait that concludes returns, and takes the pending failure with it. -/
theorem conclude_returns (p : Poller α) :
    p.conclude = ({ p with failure := none }, .returned p.concluded) := by
  cases hf : p.failure with
  | some f => simp [conclude, concluded, hf]
  | none =>
    have hp : { p with failure := none } = p := by rw [← hf]
    simp only [conclude, concluded, hf, hp]
    split <;> rfl

/-- A wait clears the life cycle of the loop that it has listened to, and joins it if it can. -/
theorem follows_clearUp {v : Verdict α} (hm : p.clearUp i = (q, v)) :
    p.Follows q ∧ q.calls = p.calls ∧ ∀ s, v = .goesOn s → p.Takes q s := by
  unfold clearUp at hm
  split at hm
  · next a ha =>
    split at hm
    · next hi =>
      dsimp only at hm
      split at hm
      · next hj =>
        obtain ⟨rfl, rfl⟩ := Prod.mk.inj hm
        refine ⟨.of_books rfl rfl (.inr rfl) fun _ => rfl, rfl, fun s hs => .inr ?_⟩
        obtain rfl := Verdict.goesOn.inj hs
        exact ⟨i, .conclude, rfl, by rw [ha, ← hi, ← hj], by simp, fun _ => rfl⟩
      · rw [conclude_returns] at hm
        obtain ⟨rfl, rfl⟩ := Prod.mk.inj hm
        exact ⟨.of_books rfl rfl (.inr rfl) fun _ => rfl, rfl, by simp⟩
    · rw [conclude_returns] at hm
      obtain ⟨rfl, rfl⟩ := Prod.mk.inj hm
      exact ⟨.of_books rfl rfl (.inl rfl) id, rfl, by simp⟩
  · rw [conclude_returns] at hm
    obtain ⟨rfl, rfl⟩ := Prod.mk.inj hm
    exact ⟨.of_books rfl rfl (.inl rfl) id, rfl, by simp⟩

theorem follows_moveCall {runtime : Bool} {v : Verdict α} (hm : p.moveCall runtime c = (q, v)) :
    p.Follows q ∧ q.calls = p.calls ∧ ∀ s, v = .goesOn s → p.Takes q s := by
  rcases callEffect_or_settles hm with heffect | ⟨i, -, hclear⟩ | ⟨i, -, hconclude⟩
  · exact ⟨heffect.follows.1, heffect.calls_eq, heffect.follows.2⟩
  · exact follows_clearUp hclear
  · rw [conclude_returns, absorb_eq] at hconclude
    obtain ⟨rfl, rfl⟩ := Prod.mk.inj hconclude
    exact ⟨.of_books rfl rfl (.inl rfl) id, rfl, by simp⟩

theorem map_id_setCallStage (p : Poller α) (id : String) (s : CallStage α) :
    (p.setCallStage id s).calls.map Call.id = p.calls.map Call.id := by
  simp only [setCallStage, List.map_map]
  refine List.map_congr_left fun d _ => ?_
  dsimp only [Function.comp]
  split <;> rfl

/-- A call that goes on stands elsewhere, and all others stay where they are. -/
theorem Proceeds.setCallStage (hfollows : p.Follows q) (hcalls : q.calls = p.calls)
    {s : CallStage α} (takes : p.Takes q s) : p.Proceeds (q.setCallStage c.id s) := by
  refine ⟨⟨hfollows.started, hfollows.ids, hfollows.current, hfollows.requested⟩, fun hids => ?_,
    c.id, fun d hd => ?_⟩
  · rwa [map_id_setCallStage, hcalls]
  · obtain ⟨e, he, rfl⟩ := List.mem_map.1 hd
    split
    · next hid =>
      rcases takes with ⟨hapart, hawaits⟩ | ⟨i, t, rfl, hfree, htaken, hstop⟩
      · exact .apart hapart hawaits
      · exact .joins hid rfl hfree htaken hstop
    · exact .stays (hcalls ▸ he)

theorem Proceeds.dropCall (hfollows : p.Follows q) (hcalls : q.calls = p.calls) (id : String) :
    p.Proceeds (q.dropCall id) where
  started := hfollows.started
  ids := hfollows.ids
  current := hfollows.current
  requested := hfollows.requested
  callIds hids := (hcalls ▸ hids).sublist (List.filter_sublist.map _)
  calls := ⟨"", fun _ hd => .stays (hcalls ▸ (List.mem_filter.1 hd).1)⟩

/-- Every move and every death proceeds as accounted for. -/
theorem Accounted.mortalMove (h : p.Accounted) (hmove : p.MortalMove q) : p.Proceeds q := by
  cases hmove with
  | dies _ death => exact death.proceeds
  | moves move =>
    cases move with
    | loop mem move => exact h.loopMove mem move
    | proceed _ _ goes =>
      obtain ⟨hfollows, hcalls, htakes⟩ := follows_moveCall goes
      exact .setCallStage hfollows hcalls (htakes _ rfl)
    | finish _ _ goes =>
      obtain ⟨hfollows, hcalls, -⟩ := follows_moveCall goes
      exact .dropCall hfollows hcalls _
    | @call c first new =>
      refine ⟨.of_books rfl rfl (.inl rfl) id, fun hids => ?_, "", fun d hd => ?_⟩
      · rw [List.map_append]
        refine List.nodup_append.2 ⟨hids, List.nodup_singleton _, fun i hi j hj hij => ?_⟩
        obtain ⟨d, hd, rfl⟩ := List.mem_map.1 hi
        exact new d hd (hij.trans (List.mem_singleton.1 hj))
      · rcases List.mem_append.1 hd with hd | hd
        · exact .stays hd
        · obtain rfl := List.mem_singleton.1 hd
          refine .apart (fun i s hs => ?_) (fun i r hs => ?_) <;>
            simp [hs, CallStage.isFirst] at first
    | drop => exact .dropCall (.refl p) rfl _
    | @subscribe runtime subscription script runs releasePanic =>
      have heffect := subscribeEffect p runtime subscription script runs releasePanic
      refine .of_follows ?_ heffect.calls_eq
      generalize (p.subscribe runtime subscription script runs releasePanic).1 = q at heffect ⊢
      generalize (p.subscribe runtime subscription script runs releasePanic).2 = r at heffect
      cases heffect with
      | refused => exact .refl p
      | collects => exact .of_books rfl rfl (.inl rfl) id
      | starts => exact .startLoop p _ _ _ _
    | stop | release => exact .of_follows (.of_books rfl rfl (.inl rfl) fun _ => rfl) rfl
    | @discard l =>
      exact .of_follows (.of_books rfl
        (map_id_updateLoop p l.id (f := Loop.discarded) fun _ => rfl) (.inl rfl) id) rfl

/-! ### Runs -/

theorem Accounted.mortalRun (h : p.Accounted) (hrun : p.MortalRun q) : q.Accounted := by
  induction hrun with
  | refl => exact h
  | tail _ hmove ih => exact ih.proceed (ih.mortalMove hmove)

/-- No number is given to a second loop, whatever dies. -/
theorem Accounted.started_le (h : p.Accounted) (hrun : p.MortalRun q) :
    p.started ≤ q.started := by
  induction hrun with
  | refl => exact Nat.le_refl _
  | tail hrun hmove ih => exact Nat.le_trans ih ((h.mortalRun hrun).mortalMove hmove).started

/-- Nobody comes to join a loop that nobody can join any more. -/
theorem Accounted.taken_of_run (h : p.Accounted) (taken : p.Taken i) (hrun : p.MortalRun q) :
    q.Taken i ∧ ∀ d ∈ q.calls, ∀ s, d.stage = .joining i s → d ∈ p.calls := by
  induction hrun with
  | refl => exact ⟨taken, fun d hd _ _ => hd⟩
  | tail hrun hmove ih =>
    have hproceeds := (h.mortalRun hrun).mortalMove hmove
    exact ⟨hproceeds.taken ih.1, fun d hd s hs =>
      ih.2 d (hproceeds.mem_of_joining ih.1 hd hs) s hs⟩

end Poller

end Polling
