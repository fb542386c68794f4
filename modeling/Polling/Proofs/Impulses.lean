import Polling.Proofs.Cues
import Polling.System.Run

/-!
# Histories of a system

An `Impulse` is the least that can happen in a system of pollers: it is the turn of a loop, a call
moves on, somebody asks something of a poller or does something to a signal, a poller is built or
let go of, or the clock moves.  A `System.Run` is any number of impulses with all their incidents,
so what holds for every run holds for any number of pollers, whatever locks, signals and queues they
share and in whatever order their tasks get their turns.

`System.Turn` says all that a loop does in its turn, to its own poller and to the rest of the
system.  What an impulse does to one of the pollers is told by cues that show the signal as it is
(`Response.takes`).  So what is known of what is performed on cue is known of the pollers of every
system, and each of them has come about by moves since it was built (`Reachable.poller`).
-/

namespace Polling

variable {α : Type}

/-- Something that happens in a system. -/
inductive Incident (α : Type) where
  /-- It was the turn of a loop. -/
  | turned (poller : String) (loop : Nat)
  /-- Something happened in the life of a poller. -/
  | befell (poller : String) (o : Occurrence α)
  | raised (signal : String)
  | lowered (signal : String)

namespace Incident

/-- What happened in the life of one poller. -/
def of? (p : String) : Incident α → Option (Occurrence α)
  | befell q o => if q = p then some o else none
  | _ => none

/-- Whether it was the turn of a loop. -/
def isTurnOf (p : String) (i : Nat) : Incident α → Bool
  | turned q j => q = p && j = i
  | _ => false

end Incident

/-- What an act does to a signal. -/
def Act.incidents : Act α → List (Incident α)
  | raise signal => [.raised signal]
  | lower signal => [.lowered signal]
  | _ => []

/-- The turn of a loop that does some acts and then moves. -/
def turnOf (p : String) (i : Nat) (as : List (Act α)) (os : List (Occurrence α)) :
    List (Incident α) := .turned p i :: as.flatMap Act.incidents ++ os.map (.befell p)

/-- The acts that a loop does when it moves on from here. -/
def Stage.acts : Stage α → List (Act α)
  | .polling a _ => a.acts
  | .calling h _ => h.acts
  | _ => []

/-- What sets a system going. -/
inductive Impulse (α : Type) where
  /-- It is the turn of a loop.  Of several moves that it could make this is the one. -/
  | turn (poller : String) (loop choice : Nat)
  /-- Anything else that may happen to one poller. -/
  | cue (poller : String) (cue : Cue α)
  | act (a : Act α)
  | build (poller name : String) (pacing : Pacing) (source : Script (Attempt α)) (lock : LockId)
      (signal : Option String)
  /-- Somebody lets go of a poller. -/
  | drop (poller : String)
  /-- The clock moves on. -/
  | pass (ms : Nat)
  /-- The record of events is changed, which nothing ever reads. -/
  | note (events : List (Event α))

/-- A poller that is stopped, with its surroundings. -/
def Member.stopped (m : Member α) : Member α := { m with poller := m.poller.stop }

/-- A poller that everybody has let go of, with its surroundings. -/
def Member.released (m : Member α) : Member α :=
  { m with poller := m.poller.release, dropped := true }

theorem Member.stopped_stopped (m : Member α) : m.stopped.stopped = m.stopped := by
  have hphase : m.poller.phase.afterStop.afterStop = m.poller.phase.afterStop := by
    cases m.poller.phase <;> rfl
  simp only [stopped, Poller.stop, hphase]

namespace System

/-- The tickets after the turn of a loop that can move. -/
def ticketsAfter (s : System α) (p : String) (m : Member α) (l : Loop α) : List Ticket :=
  match l.stage with
  | .checking =>
    if (m.poller.interruption? l (s.isSignalled m)).isNone then s.tickets ++ [⟨m.lock, p, l.id⟩]
    else s.tickets
  | .polling _ _ => s.tickets.filter fun u => u ≠ ⟨m.lock, p, l.id⟩
  | _ => s.tickets

/-- What happens when it is the turn of a loop that can move. -/
def incidents (s : System α) (p : String) (m : Member α) (l : Loop α) : List (Incident α) :=
  match l.stage with
  | .queued => turnOf p l.id [] [.pollBegan l.id]
  | .polling a _ =>
    turnOf p l.id a.acts
      (m.poller.polling l ((s.acts a.acts).resolve p a.outcome).1.result)
  | .handing x => turnOf p l.id [] (m.poller.invoking l x)
  | .calling h _ => turnOf p l.id h.acts (m.poller.handling l h.outcome)
  | _ => turnOf p l.id [] []

/-- What an impulse comes to, if it is possible at this moment. -/
def respond? (s : System α) : Impulse α → Option (List (Incident α) × System α)
  | .turn p i choice => do
    let m ← s.member? p
    let l ← m.poller.loop? i
    let t ← (s.movesOf p m l)[choice]?
    return (s.incidents p m l, t)
  | .cue p cue =>
    match cue with
    | .loop _ _ => none
    | .discard i => do
      let m ← s.member? p
      let (es, _) ← m.poller.act? (.discard i)
      return (es.map (.befell p), s.discard p m i)
    | cue => do
      let m ← s.member? p
      let (es, q) ← m.poller.act? cue
      return (es.map (.befell p), s.update p fun _ => q)
  | .act a => some (a.incidents, s.act a)
  | .build p name pacing source lock signal =>
    match Poller.build name pacing with
    | .ok poller =>
      if (s.member? p).isNone then
        let m := { poller, source, lock, signal, dropped := false }
        some ([], { s with members := s.members.insert p m })
      else none
    | .error _ => none
  | .drop p => some ([], { s with members := s.members.modify p Member.released })
  | .pass ms => some ([], { s with clock := s.clock + ms })
  | .note events => some ([], { s with events })

/-- Any number of impulses, one after the other. -/
inductive Run : System α → List (Incident α) → System α → Prop
  | nil {s : System α} : Run s [] s
  | snoc {s t u : System α} {tr es} {x : Impulse α} :
      Run s tr t → t.respond? x = some (es, u) → Run s (tr ++ es) u

/-- A system that has come about by any number of impulses since it was empty. -/
def Reachable (s : System α) : Prop := ∃ runtime tr, Run { runtime } tr s

/-- What all these impulses come to, one after the other. -/
def enact? (s : System α) : List (Impulse α) → Option (List (Incident α) × System α)
  | [] => some ([], s)
  | x :: xs => (s.respond? x).bind fun (es, t) => (t.enact? xs).map fun (tr, u) => (es ++ tr, u)

variable {s t u : System α} {p name : String} {m n : Member α} {l : Loop α}
  {tr ts es : List (Incident α)}

theorem Run.append (h : s.Run tr t) (h' : t.Run ts u) : s.Run (tr ++ ts) u := by
  induction h' with
  | nil => simpa using h
  | snoc _ hresponds ih => simpa using ih.snoc hresponds

theorem Run.single {x : Impulse α} (h : s.respond? x = some (es, t)) : s.Run es t := by
  simpa using Run.nil.snoc h

theorem Reachable.run (hs : s.Reachable) (h : s.Run tr t) : t.Reachable := by
  obtain ⟨runtime, ts, hts⟩ := hs
  exact ⟨runtime, ts ++ tr, hts.append h⟩

/-- What impulses come to, one after the other, is a run. -/
theorem run_of_enact? (xs : List (Impulse α)) (h : s.enact? xs = some (tr, t)) : s.Run tr t := by
  induction xs generalizing s tr with
  | nil =>
    cases h
    exact .nil
  | cons x xs ih =>
    obtain ⟨⟨es, u⟩, hresponds, hrest⟩ := Option.bind_eq_some_iff.1 h
    obtain ⟨⟨ts, u'⟩, henact, hpair⟩ := Option.map_eq_some_iff.1 hrest
    cases hpair
    exact (Run.single hresponds).append (ih henact)

/-- The system after these impulses, as long as they are possible one after the other. -/
def after (xs : List (Impulse α)) : System α := ((({} : System α).enact? xs).map Prod.snd).getD {}

theorem reachable_after (xs : List (Impulse α)) : (after xs).Reachable := by
  unfold after
  cases h : ({} : System α).enact? xs with
  | some r => exact ⟨true, r.1, run_of_enact? xs h⟩
  | none => exact ⟨true, [], .nil⟩

/-- All that an impulse may come to. -/
inductive Response (s : System α) : List (Incident α) → System α → Prop
  | turn {p : String} {m : Member α} {l : Loop α} {t : System α} (member : s.member? p = some m)
      (loop : m.poller.loop? l.id = some l) (moves : t ∈ s.movesOf p m l) :
      Response s (s.incidents p m l) t
  | cue {p : String} {m : Member α} {cue : Cue α} {os : List (Occurrence α)} {q : Poller α}
      (member : s.member? p = some m) (acts : m.poller.act? cue = some (os, q))
      (other : ∀ i own, cue ≠ .loop i own) (kept : ∀ i, cue ≠ .discard i) :
      Response s (os.map (.befell p)) (s.update p fun _ => q)
  | discard {p : String} {m : Member α} {l : Loop α} (member : s.member? p = some m)
      (loop : m.poller.loop? l.id = some l) (waits : l.stage.awaits = true) :
      Response s [.befell p (.discarded l.id l.stage.payloads)] (s.discard p m l.id)
  | act (a : Act α) : Response s a.incidents (s.act a)
  | build {p name : String} {pacing : Pacing} {source : Script (Attempt α)} {lock : LockId}
      {signal : Option String} (new : s.member? p = none) (usable : pacing.flaw? = none) :
      Response s []
        { s with members := s.members.insert p ⟨.idle name pacing, source, lock, signal, false⟩ }
  | drop (p : String) : Response s [] { s with members := s.members.modify p Member.released }
  | pass (ms : Nat) : Response s [] { s with clock := s.clock + ms }
  | note (events : List (Event α)) : Response s [] { s with events }

theorem response_of_respond? {x : Impulse α} (h : s.respond? x = some (es, t)) :
    s.Response es t := by
  cases x with
  | turn p i choice =>
    simp only [respond?, Option.bind_eq_bind, Option.bind_eq_some_iff, Option.pure_def,
      Option.some.injEq, Prod.mk.injEq] at h
    obtain ⟨m, hm, l, hl, t, ht, rfl, rfl⟩ := h
    obtain ⟨-, rfl⟩ := Poller.loop?_eq_some hl
    exact .turn hm hl (List.mem_of_getElem? ht)
  | cue p cue =>
    cases cue with
    | loop i own => cases h
    | discard i =>
      obtain ⟨m, hm, h⟩ := Option.bind_eq_some_iff.1 h
      obtain ⟨⟨os, q⟩, hact, h⟩ := Option.bind_eq_some_iff.1 h
      obtain ⟨l, hl, hact⟩ := Option.bind_eq_some_iff.1 hact
      obtain ⟨-, rfl⟩ := Poller.loop?_eq_some hl
      split at hact
      · next waits =>
        cases hact
        cases h
        exact .discard hm hl waits
      · cases hact
    | _ =>
      obtain ⟨m, hm, h⟩ := Option.bind_eq_some_iff.1 h
      obtain ⟨⟨os, q⟩, hact, h⟩ := Option.bind_eq_some_iff.1 h
      cases h
      exact .cue hm hact (by simp) (by simp)
  | act a =>
    cases h
    exact .act a
  | build p name pacing source lock signal =>
    simp only [respond?, Poller.build] at h
    split at h
    · next hbuild =>
      split at hbuild
      · cases hbuild
      · next usable =>
        cases hbuild
        split at h
        · next hnew =>
          cases h
          exact .build (Option.isNone_iff_eq_none.1 hnew) usable
        · cases h
    · cases h
  | drop p =>
    cases h
    exact .drop p
  | pass ms =>
    cases h
    exact .pass ms
  | note events =>
    cases h
    exact .note events

/-- A poller is there after a change of one of them if it was there before. -/
theorem member?_modify (f : Member α → Member α) (h : t.members = s.members.modify p f)
    (q : String) :
    t.member? q = if q = p then (s.member? q).map f else s.member? q := by
  rw [member?, h, Table.find?_modify]
  rfl

theorem member?_discard (hm : s.member? p = some m) (i : Nat) :
    (s.discard p m i).member? p = some { m with poller := m.poller.discard i } := by
  rw [member?_modify (s := s) (fun m => { m with poller := m.poller.discard i }) rfl, if_pos rfl,
    hm, Option.map_some]

/-- Acts stop a poller or leave it as it is. -/
theorem member?_acts (as : List (Act α)) (hm : s.member? name = some m) :
    (s.acts as).member? name = some m ∨ (s.acts as).member? name = some m.stopped := by
  induction as generalizing s m with
  | nil => exact .inl hm
  | cons a as ih =>
    have hact : (s.act a).member? name = some m ∨ (s.act a).member? name = some m.stopped := by
      cases a with
      | stop p =>
        have hmod := member?_modify (t := s.act (.stop p)) Member.stopped rfl name
        by_cases hp : name = p
        · exact .inr (by rw [hmod, if_pos hp, hm, Option.map_some])
        · exact .inl (by rw [hmod, if_neg hp, hm])
      | _ => exact .inl hm
    rcases hact with hact | hact
    · exact ih hact
    · have hstopped := ih hact
      rw [m.stopped_stopped, or_self] at hstopped
      exact .inr hstopped

/-- Acts build no poller. -/
theorem names_acts (s : System α) (as : List (Act α)) :
    (s.acts as).members.names = s.members.names := by
  induction as generalizing s with
  | nil => rfl
  | cons a as ih =>
    refine (ih (s.act a)).trans ?_
    cases a with
    | stop p => exact Table.names_modify s.members p Member.stopped
    | _ => rfl

/-- Acts take no time. -/
theorem clock_acts (s : System α) (as : List (Act α)) : (s.acts as).clock = s.clock := by
  induction as generalizing s with
  | nil => rfl
  | cons a as ih =>
    refine (ih (s.act a)).trans ?_
    cases a <;> rfl

/-- Acts take no ticket. -/
theorem tickets_acts (s : System α) (as : List (Act α)) : (s.acts as).tickets = s.tickets := by
  induction as generalizing s with
  | nil => rfl
  | cons a as ih =>
    refine (ih (s.act a)).trans ?_
    cases a <;> rfl

/-- A poll that takes its payload from a queue changes nothing else. -/
theorem eq_of_resolve {q : String} {o o' : PollOutcome α} (h : s.resolve q o = (o', t)) :
    ∃ queues, t = { s with queues } := by
  unfold resolve at h
  split at h
  · split at h
    · cases h
      exact ⟨s.queues, rfl⟩
    · cases h
      exact ⟨_, rfl⟩
  · cases h
    exact ⟨s.queues, rfl⟩

/-- All that a loop does in its turn: it does some acts and then moves on its cue, which changes
its own poller only, and it takes or gives back a ticket.  No time passes, and the signal and the
clock are shown as they are. -/
structure Turn (s : System α) (p : String) (m : Member α) (l : Loop α) (t : System α)
    (as : List (Act α)) (os : List (Occurrence α)) (own : LoopCue α) (g : Member α → Member α) :
    Prop where
  told : s.incidents p m l = turnOf p l.id as os
  acts : as = l.stage.acts
  members : t.members = (s.acts as).members.modify p g
  tickets : t.tickets = s.ticketsAfter p m l
  signals : t.signals = (s.acts as).signals
  clock : t.clock = s.clock
  signal : ∀ n, (g n).signal = n.signal
  lock : ∀ n, (g n).lock = n.lock
  moves : ∀ n, (s.acts as).member? p = some n →
    n.poller.loopAct? l own = some (os, (g n).poller)
  shows : ∀ b, own.shown? = some b → b = s.isSignalled m
  now : ∀ now, own.now? = some now → now = s.clock

/-- A loop that does no acts. -/
theorem Turn.of_update (own : LoopCue α) {os : List (Occurrence α)} {f : Poller α → Poller α}
    (hm : s.member? p = some m) (told : s.incidents p m l = turnOf p l.id [] os)
    (acts : l.stage.acts = []) (members : t.members = (s.update p f).members)
    (tickets : t.tickets = s.ticketsAfter p m l) (signals : t.signals = s.signals)
    (clock : t.clock = s.clock) (hact : m.poller.loopAct? l own = some (os, f m.poller))
    (shows : ∀ b, own.shown? = some b → b = s.isSignalled m)
    (now : ∀ now, own.now? = some now → now = s.clock) :
    s.Turn p m l t [] os own fun n => { n with poller := f n.poller } where
  told := told
  acts := acts.symm
  members := members
  tickets := tickets
  signals := signals
  clock := clock
  signal _ := rfl
  lock _ := rfl
  moves n hn := by
    obtain rfl := Option.some.inj (hm.symm.trans hn)
    exact hact
  shows := shows
  now := now

/-- A loop that does the acts of its poll or of its callback, which is over then. -/
theorem Turn.of_acts (own : LoopCue α) {as : List (Act α)} {os : List (Occurrence α)}
    {f : Poller α → Poller α} (hm : s.member? p = some m)
    (told : s.incidents p m l = turnOf p l.id as os) (acts : l.stage.acts = as)
    (members : t.members = ((s.acts as).update p f).members)
    (tickets : t.tickets = s.ticketsAfter p m l)
    (signals : t.signals = (s.acts as).signals) (clock : t.clock = (s.acts as).clock)
    (unseen : own.shown? = none)
    (hact : ∀ q, q = m.poller ∨ q = m.poller.stop → q.loopAct? l own = some (os, f q))
    (now : ∀ now, own.now? = some now → now = s.clock) :
    s.Turn p m l t as os own fun n => { n with poller := f n.poller } where
  told := told
  acts := acts.symm
  members := members
  tickets := tickets
  signals := signals
  clock := clock.trans (clock_acts s as)
  signal _ := rfl
  lock _ := rfl
  moves n hn := by
    rcases member?_acts as hm with h | h
    · obtain rfl := Option.some.inj (h.symm.trans hn)
      exact hact m.poller (.inl rfl)
    · obtain rfl := Option.some.inj (h.symm.trans hn)
      exact hact m.poller.stop (.inr rfl)
  shows b hb := by
    rw [unseen] at hb
    cases hb
  now := now

/-- A loop that begins to poll takes an attempt from its source, too. -/
theorem turn_beginPoll (stage : l.stage = .queued) :
    s.Turn p m l (s.beginPoll p m l) [] [.pollBegan l.id]
      (.beginPoll m.source.next.1 s.clock)
      fun n => ⟨n.poller.beginPoll l m.source.next.1 s.clock, m.source.next.2, n.lock, n.signal,
        n.dropped⟩ where
  told := by simp only [incidents, stage]
  acts := by simp only [Stage.acts, stage]
  members := by
    have hread : (s.beginPoll p m l).members =
        (s.members.modify p fun n => { n with source := m.source.next.2 }).modify p fun n =>
          { n with poller := n.poller.beginPoll l m.source.next.1 s.clock } := by
      unfold beginPoll
      dsimp only
      split <;> rfl
    exact hread.trans (Table.modify_modify _ _ _ _)
  tickets := by
    simp only [ticketsAfter, stage]
    unfold beginPoll
    dsimp only
    split <;> rfl
  signals := by
    unfold beginPoll
    dsimp only
    split <;> rfl
  clock := by
    unfold beginPoll
    dsimp only
    split <;> rfl
  signal _ := rfl
  lock _ := rfl
  moves n hn := by simp only [Poller.loopAct?, stage]
  shows b hb := by cases hb
  now _ hnow := (Option.some.inj hnow).symm

/-- A loop that ends its poll may take its payload from a queue, too. -/
theorem turn_endPoll {a : Attempt α} {due : Nat} {o : PollOutcome α} (hm : s.member? p = some m)
    (stage : l.stage = .polling a due) (hresolve : (s.acts a.acts).resolve p a.outcome = (o, u)) :
    s.Turn p m l (s.endPoll p m l a) a.acts (m.poller.polling l o.result)
      (.endPoll o.result u.clock)
      fun n => { n with poller := n.poller.endPoll l u.clock o.result } := by
  obtain ⟨queues, hu⟩ := eq_of_resolve hresolve
  have htold : s.incidents p m l = turnOf p l.id a.acts (m.poller.polling l o.result) := by
    simp only [incidents, stage, hresolve]
  have hafter : s.endPoll p m l a =
      ((u.note p (.polled o)).dequeue ⟨m.lock, p, l.id⟩).update p
        fun q => q.endPoll l u.clock o.result := by
    simp only [endPoll, hresolve]
    rfl
  have htickets : u.tickets = s.tickets := by
    rw [hu]
    exact tickets_acts s a.acts
  have hclock : u.clock = s.clock := by
    rw [hu]
    exact clock_acts s a.acts
  rw [hafter]
  refine .of_acts (.endPoll o.result u.clock) (f := fun q => q.endPoll l u.clock o.result) hm htold
    (by simp only [Stage.acts, stage]) ?_ ?_ (by rw [hu]; rfl) (by rw [hu]; rfl) rfl ?_ ?_
  · rw [hu]
    rfl
  · simp only [ticketsAfter, stage, ← htickets]
    rfl
  -- A stop changes nothing that a poll which comes to its end looks at.
  · rintro q (rfl | rfl)
    · simp only [Poller.loopAct?, stage]
    · simp only [Poller.loopAct?, stage]
      rfl
  · rintro now hnow
    rw [← hclock]
    exact (Option.some.inj hnow).symm

/-- Whatever a loop does, this is all of it. -/
theorem exists_turn (hm : s.member? p = some m) (ht : t ∈ s.movesOf p m l) :
    ∃ as os own g, s.Turn p m l t as os own g := by
  cases stage : l.stage with
  | spawned backlog =>
    simp only [movesOf, stage] at ht
    split at ht
    · next runs =>
      obtain rfl := List.mem_singleton.1 ht
      exact ⟨_, [], _, _, .of_update .go hm (by simp only [incidents, stage])
        (by simp only [Stage.acts, stage]) rfl (by simp only [ticketsAfter, stage]; rfl) rfl rfl
        (by simp [Poller.loopAct?, stage, runs]) (by simp [LoopCue.shown?])
        (by simp [LoopCue.now?])⟩
    · cases ht
  | checking =>
    simp only [movesOf, stage] at ht
    cases why : m.poller.interruption? l (s.isSignalled m) with
    | some w =>
      rw [why] at ht
      obtain rfl := List.mem_singleton.1 ht
      exact ⟨_, [], _, _, .of_update (.check (s.isSignalled m)) hm (by simp only [incidents, stage])
        (by simp only [Stage.acts, stage]) rfl (by simp only [ticketsAfter, stage, why]; rfl) rfl
        rfl (by simp only [Poller.loopAct?, stage, why]) (by simp [LoopCue.shown?])
        (by simp [LoopCue.now?])⟩
    | none =>
      rw [why] at ht
      obtain rfl := List.mem_singleton.1 ht
      exact ⟨_, [], _, _, .of_update (.check (s.isSignalled m))
        (f := fun q => q.setStage l.id .queued) hm (by simp only [incidents, stage])
        (by simp only [Stage.acts, stage]) rfl (by simp only [ticketsAfter, stage, why]; rfl) rfl
        rfl (by simp only [Poller.loopAct?, stage, why]) (by simp [LoopCue.shown?])
        (by simp [LoopCue.now?])⟩
  | queued =>
    simp only [movesOf, stage] at ht
    split at ht
    · obtain rfl := List.mem_singleton.1 ht
      exact ⟨_, _, _, _, turn_beginPoll stage⟩
    · cases ht
  | polling a due =>
    simp only [movesOf, stage] at ht
    split at ht
    · obtain rfl := List.mem_singleton.1 ht
      exact ⟨_, _, _, _, turn_endPoll hm stage rfl⟩
    · cases ht
  | handing x =>
    simp only [movesOf, stage] at ht
    obtain rfl := List.mem_singleton.1 ht
    exact ⟨_, m.poller.invoking l x, _, _, .of_update (.callBack s.clock)
      (f := fun q => q.beginCallback l s.clock) hm (by simp only [incidents, stage])
      (by simp only [Stage.acts, stage]) rfl (by simp only [ticketsAfter, stage]; rfl) rfl rfl
      (by simp only [Poller.loopAct?, stage]) (by simp [LoopCue.shown?]) (by simp [LoopCue.now?])⟩
  | calling h due =>
    simp only [movesOf, stage] at ht
    split at ht
    · obtain rfl := List.mem_singleton.1 ht
      refine ⟨_, m.poller.handling l h.outcome, _, _, .of_acts .go
        (f := fun q => q.endCallback l h.outcome) hm (by simp only [incidents, stage])
        (by simp only [Stage.acts, stage]) rfl ?_ rfl rfl rfl ?_ (by simp [LoopCue.now?])⟩
      · simp only [ticketsAfter, stage]
        exact tickets_acts s h.acts
      · rintro q (rfl | rfl)
        · simp only [Poller.loopAct?, stage]
        · simp only [Poller.loopAct?, stage]
          rfl
    · cases ht
  | yielded =>
    simp only [movesOf, stage] at ht
    obtain rfl := List.mem_singleton.1 ht
    exact ⟨_, [], _, _, .of_update .go hm (by simp only [incidents, stage])
      (by simp only [Stage.acts, stage]) rfl (by simp only [ticketsAfter, stage]; rfl) rfl rfl
      (by simp only [Poller.loopAct?, stage]) (by simp [LoopCue.shown?]) (by simp [LoopCue.now?])⟩
  | asleep pause due =>
    simp only [movesOf, stage] at ht
    obtain ⟨w, hw, rfl⟩ := List.mem_map.1 ht
    exact ⟨_, [], _, _, .of_update (.wake w s.clock (s.isSignalled m)) hm
      (by simp only [incidents, stage]) (by simp only [Stage.acts, stage]) rfl
      (by simp only [ticketsAfter, stage]; rfl) rfl rfl
      (by simp only [Poller.loopAct?, stage, if_pos hw]) (by simp [LoopCue.shown?])
      (by simp [LoopCue.now?])⟩
  | ended =>
    simp only [movesOf, stage] at ht
    cases ht

/-- What an impulse does to one poller: on these cues, which show the signal as it is, `m` has
become `n`. -/
structure Performs (raised : Bool) (name : String) (m : Member α) (cues : List (Cue α))
    (es : List (Incident α)) (n : Member α) : Prop where
  signal : n.signal = m.signal
  lock : n.lock = m.lock
  performed : m.poller.perform? cues = some (es.filterMap (Incident.of? name), n.poller)
  shows : ∀ cue ∈ cues, cue.Shows raised
  turns : ∀ i, cues.countP (Cue.isOf i) = es.countP (Incident.isTurnOf name i)

theorem filterMap_of?_befell (p name : String) (os : List (Occurrence α)) :
    (os.map (Incident.befell p)).filterMap (Incident.of? name) = if p = name then os else [] := by
  induction os with
  | nil => simp
  | cons o os ih => by_cases h : p = name <;> simp_all [Incident.of?]

theorem countP_isTurnOf_befell (p name : String) (i : Nat) (os : List (Occurrence α)) :
    (os.map (Incident.befell p)).countP (Incident.isTurnOf name i) = 0 := by
  simp [List.countP_eq_zero, Incident.isTurnOf]

theorem filterMap_of?_turnOf (p name : String) (i : Nat) (as : List (Act α))
    (os : List (Occurrence α)) :
    (turnOf p i as os).filterMap (Incident.of? name) = if p = name then os else [] := by
  have hacts : (as.flatMap Act.incidents).filterMap (Incident.of? name) = [] := by
    simp only [List.filterMap_eq_nil_iff, List.mem_flatMap]
    rintro e ⟨a, -, he⟩
    cases a <;> simp_all [Act.incidents, Incident.of?]
  have hturned : Incident.of? name (.turned p i : Incident α) = none := rfl
  rw [turnOf, List.filterMap_append, List.filterMap_cons_none hturned, hacts,
    List.nil_append, filterMap_of?_befell]

theorem countP_isTurnOf_turnOf (p name : String) (i j : Nat) (as : List (Act α))
    (os : List (Occurrence α)) :
    (turnOf p i as os).countP (Incident.isTurnOf name j) =
      (decide (p = name) && decide (i = j)).toNat := by
  have hacts : (as.flatMap Act.incidents).countP (Incident.isTurnOf name j) = 0 := by
    simp only [List.countP_eq_zero, List.mem_flatMap]
    rintro e ⟨a, -, he⟩
    cases a <;> simp_all [Act.incidents, Incident.isTurnOf]
  rw [turnOf, List.cons_append, List.countP_cons, List.countP_append, hacts,
    countP_isTurnOf_befell]
  cases h : decide (p = name) && decide (i = j) <;> simp [Incident.isTurnOf, h]

/-- An impulse that leaves a poller alone. -/
theorem Performs.refl {raised : Bool} (none : es.filterMap (Incident.of? name) = [])
    (still : ∀ i, es.countP (Incident.isTurnOf name i) = 0) : Performs raised name m [] es m where
  signal := rfl
  lock := rfl
  performed := by rw [none]; rfl
  shows := by simp
  turns i := by simp [still i]

/-- A poller may have been stopped before. -/
theorem Performs.stopped {raised : Bool} {cues : List (Cue α)}
    (h : Performs raised name m.stopped cues es n) :
    Performs raised name m (.stop :: cues) es n where
  signal := h.signal
  lock := h.lock
  performed := by
    show (m.stopped.poller.perform? cues).map _ = _
    rw [h.performed]
    rfl
  shows cue hcue := by
    rcases List.mem_cons.1 hcue with rfl | hcue
    · trivial
    · exact h.shows cue hcue
  turns i := by
    rw [List.countP_cons_of_neg (by simp [Cue.isOf])]
    exact h.turns i

/-- One cue for one poller. -/
theorem Performs.single {raised : Bool} {cue : Cue α} {os : List (Occurrence α)}
    (signal : n.signal = m.signal) (lock : n.lock = m.lock)
    (hact : m.poller.act? cue = some (os, n.poller)) (shows : cue.Shows raised)
    (told : es.filterMap (Incident.of? name) = os)
    (turns : ∀ i, es.countP (Incident.isTurnOf name i) = (cue.isOf i).toNat) :
    Performs raised name m [cue] es n where
  signal := signal
  lock := lock
  performed := by simp [Poller.perform?, hact, told]
  shows := by simpa using shows
  turns i := by
    rw [turns i]
    cases hcue : cue.isOf i <;> simp [hcue]

/-- Whether a poller is still there after an impulse, and has performed what befell it. -/
def Takes (s : System α) (name : String) (m : Member α) (es : List (Incident α)) (t : System α) :
    Prop :=
  ∃ n cues, t.member? name = some n ∧ Performs (s.isSignalled m) name m cues es n

/-- A loop that moves takes all pollers along. -/
theorem Turn.takes {as : List (Act α)} {os : List (Occurrence α)} {own : LoopCue α}
    {g : Member α → Member α} (h : s.Turn p m l t as os own g) (hm : s.member? p = some m)
    (hl : m.poller.loop? l.id = some l) (hn : s.member? name = some n) :
    s.Takes name n (s.incidents p m l) t := by
  have ht := member?_modify (s := s.acts as) g h.members name
  have hmoves : ∀ k, (s.acts as).member? name = some k → ∃ n' cues, t.member? name = some n' ∧
      Performs (s.isSignalled n) name k cues (s.incidents p m l) n' := by
    intro k hk
    rw [h.told]
    by_cases hname : p = name
    · subst hname
      obtain rfl := Option.some.inj (hm.symm.trans hn)
      -- A stop changes no loop, so the loop is found where it was.
      have hloop : k.poller.loop? l.id = some l := by
        rcases member?_acts as hm with hstands | hstands <;>
          exact Option.some.inj (hstands.symm.trans hk) ▸ hl
      have hact : k.poller.act? (.loop l.id own) = some (os, (g k).poller) := by
        rw [Poller.act?, hloop]
        exact h.moves k hk
      refine ⟨g k, _, by rw [ht, if_pos rfl, hk, Option.map_some], .single (h.signal k) (h.lock k)
        hact h.shows (by rw [filterMap_of?_turnOf, if_pos rfl]) fun j => ?_⟩
      simp [countP_isTurnOf_turnOf, Cue.isOf]
    · refine ⟨k, _, by rw [ht, if_neg (Ne.symm hname), hk], .refl ?_ fun j => ?_⟩
      · rw [filterMap_of?_turnOf, if_neg hname]
      · simp [countP_isTurnOf_turnOf, hname]
  rcases member?_acts as hn with hk | hk
  · exact hmoves n hk
  · obtain ⟨n', cues, hn', hperforms⟩ := hmoves n.stopped hk
    exact ⟨n', _, hn', hperforms.stopped⟩

/-- An impulse that leaves a poller alone, and tells nothing of it. -/
theorem takes_of_same (ht : t.member? name = some n)
    (none : ∀ e ∈ es, e.of? name = none) (still : ∀ e ∈ es, ∀ p i, e ≠ .turned p i) :
    s.Takes name n es t := by
  refine ⟨n, [], ht, .refl (List.filterMap_eq_nil_iff.2 none) fun i => ?_⟩
  refine List.countP_eq_zero.2 fun e he => ?_
  cases e with
  | turned p j => exact absurd rfl (still _ he p j)
  | _ => simp [Incident.isTurnOf]

/-- A poller that is changed on a cue which is not the turn of a loop. -/
theorem takes_modify (cue : Cue α) {g : Member α → Member α} {os : List (Occurrence α)}
    (hm : s.member? p = some m) (ht : t.members = s.members.modify p g)
    (signal : (g m).signal = m.signal) (lock : (g m).lock = m.lock)
    (hact : m.poller.act? cue = some (os, (g m).poller)) (hcue : ∀ i own, cue ≠ .loop i own)
    (hn : s.member? name = some n) : s.Takes name n (os.map (.befell p)) t := by
  have hmember := member?_modify g ht name
  by_cases hname : p = name
  · subst hname
    obtain rfl := Option.some.inj (hm.symm.trans hn)
    refine ⟨g m, _, by rw [hmember, if_pos rfl, hm, Option.map_some], .single signal lock hact ?_
      (by rw [filterMap_of?_befell, if_pos rfl]) fun i => ?_⟩
    · cases cue with
      | loop i own => exact absurd rfl (hcue i own)
      | _ => trivial
    · rw [countP_isTurnOf_befell]
      cases cue with
      | loop i own => exact absurd rfl (hcue i own)
      | _ => rfl
  · refine takes_of_same (by rw [hmember, if_neg (Ne.symm hname), hn]) ?_ ?_
    · simp [Incident.of?, hname]
    · simp

/-- Every impulse takes all pollers along. -/
theorem Response.takes (h : s.Response es t) (hn : s.member? name = some n) :
    s.Takes name n es t := by
  cases h with
  | turn hm hl ht =>
    obtain ⟨as, os, own, g, hturn⟩ := exists_turn hm ht
    exact hturn.takes hm hl hn
  | @cue p m cue os q hm hact hother =>
    exact takes_modify cue (g := fun m => { m with poller := q }) hm rfl rfl rfl hact hother hn
  | @discard p m l hm hl waits =>
    have hact : m.poller.act? (.discard l.id) =
        some ([.discarded l.id l.stage.payloads], m.poller.discard l.id) := by
      simp [Poller.act?, hl, waits]
    exact takes_modify (.discard l.id) (g := fun m => { m with poller := m.poller.discard l.id }) hm
      rfl rfl rfl hact (by simp) hn
  | act a =>
    rcases member?_acts [a] hn with ht | ht
    · refine takes_of_same ht ?_ ?_ <;> cases a <;> simp [Act.incidents, Incident.of?]
    · refine ⟨n.stopped, [.stop], ht, .single rfl rfl rfl trivial ?_ fun i => ?_⟩
      · cases a <;> rfl
      · cases a <;> rfl
  | build hnew =>
    refine takes_of_same ?_ (by simp) (by simp)
    rw [member?, Table.find?_insert, if_neg]
    · exact hn
    · rintro rfl
      rw [hnew] at hn
      cases hn
  | drop p =>
    cases hm : s.member? p with
    | some m =>
      show s.Takes name n (List.map (.befell p) []) _
      exact takes_modify .release (g := Member.released) hm rfl rfl rfl rfl (by simp) hn
    | none =>
      refine takes_of_same ?_ (by simp) (by simp)
      rw [member?_modify (s := s) Member.released rfl, if_neg]
      · exact hn
      · rintro rfl
        rw [hm] at hn
        cases hn
  | pass | note => exact takes_of_same hn (by simp) (by simp)

/-- An impulse brings no poller, or it builds one with a pacing that can be used. -/
theorem Response.builds (h : s.Response es t) : t.members.names = s.members.names ∨
    ∃ p identity pacing source lock signal, s.member? p = none ∧ pacing.flaw? = none ∧
      t.members = s.members.insert p ⟨.idle identity pacing, source, lock, signal, false⟩ := by
  cases h with
  | turn hm _ ht =>
    obtain ⟨as, os, own, g, hturn⟩ := exists_turn hm ht
    rw [hturn.members, Table.names_modify]
    exact .inl (names_acts s as)
  | @cue p _ _ _ q =>
    exact .inl (Table.names_modify s.members p fun m => { m with poller := q })
  | @discard p _ l =>
    exact .inl (Table.names_modify s.members p fun m => { m with poller := m.poller.discard l.id })
  | drop p => exact .inl (Table.names_modify s.members p Member.released)
  | act a => exact .inl (names_acts s [a])
  | build hnew usable => exact .inr ⟨_, _, _, _, _, _, hnew, usable, rfl⟩
  | pass | note => exact .inl rfl

/-- A poller that is there after an impulse was there before, or it has just been built. -/
theorem Response.known (h : s.Response es t) (hn : t.member? name = some n) :
    (∃ m, s.member? name = some m) ∨ ∃ identity pacing, n.poller = .idle identity pacing := by
  rcases h.builds with hnames | ⟨p, identity, pacing, source, lock, signal, -, -, hmembers⟩
  · refine .inl (Table.mem_names.1 ?_)
    rw [← hnames]
    exact Table.mem_names.2 ⟨n, hn⟩
  · rw [member?, hmembers, Table.find?_insert] at hn
    split at hn
    · obtain rfl := Option.some.inj hn
      exact .inr ⟨_, _, rfl⟩
    · exact .inl ⟨n, hn⟩

/-- No two pollers of a system have one name. -/
theorem Reachable.unique (hs : s.Reachable) : s.members.names.Nodup := by
  obtain ⟨runtime, tr, hrun⟩ := hs
  induction hrun with
  | nil => exact .nil
  | snoc _ hresponds ih =>
    rcases (response_of_respond? hresponds).builds with
      hnames | ⟨p, _, _, _, _, _, hnew, -, hmembers⟩
    · rw [hnames]
      exact ih
    · rw [hmembers]
      exact Table.nodup_insert ih _ _

/-- What happens in the life of a poller in a run of its system is a run of that poller. -/
theorem Run.poller (hrun : s.Run tr t) (hm : s.member? name = some m) :
    ∃ n, t.member? name = some n ∧
      Poller.Run m.poller (tr.filterMap (Incident.of? name)) n.poller := by
  induction hrun with
  | nil => exact ⟨m, hm, .nil⟩
  | snoc _ hresponds ih =>
    obtain ⟨n, hn, hrun⟩ := ih
    obtain ⟨n', cues, hn', hperforms⟩ := (response_of_respond? hresponds).takes hn
    refine ⟨n', hn', ?_⟩
    rw [List.filterMap_append]
    exact hrun.append (Poller.run_of_perform? cues hperforms.performed)

/-- Every poller of a system has come about by moves since it was built. -/
theorem Reachable.poller (hs : s.Reachable) (hm : s.member? name = some m) :
    m.poller.Reachable := by
  obtain ⟨runtime, tr, hrun⟩ := hs
  induction hrun generalizing m with
  | nil => cases hm
  | snoc _ hresponds ih =>
    rcases (response_of_respond? hresponds).known hm with ⟨m₀, hm₀⟩ | ⟨identity, pacing, hidle⟩
    · obtain ⟨n, hn, hpoller⟩ := (Run.single hresponds).poller hm₀
      obtain rfl := Option.some.inj (hm.symm.trans hn)
      exact (ih hm₀).run hpoller
    · exact ⟨identity, pacing, [], hidle ▸ .nil⟩

end System

end Polling
