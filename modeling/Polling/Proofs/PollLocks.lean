import Polling.Proofs.Paces
import Polling.Proofs.Rest
import Polling.Proofs.Stops

/-!
# One poll at a time under one lock

A loop takes a ticket when it gets in line for a poll, and gives it back when the poll is over,
however it ends.  `System.InOrder` is the invariant of the line: the tickets are those of the loops
that are in line or poll, and a loop that polls has the first ticket of its lock.  So there is at
most one poll in progress among the pollers of a lock, and whoever stands behind waits for a poll
that is in progress, or for one that is about to begin.
-/

namespace Polling

variable {α : Type}

namespace Stage

/-- Whether a loop that stands here polls. -/
def isPolling : Stage α → Bool
  | .polling _ _ => true
  | _ => false

/-- Whether a loop that stands here needs a ticket. -/
def needsTicket : Stage α → Bool
  | .queued | .polling _ _ => true
  | _ => false

/-- Whether a question about stages is answered with no before a loop begins and after its end. -/
structure Asks (f : Stage α → Bool) : Prop where
  spawned : ∀ b, f (.spawned b) = false
  ended : ∀ e, f (.ended e) = false

theorem asks_isPolling : Asks (α := α) isPolling := ⟨fun _ => rfl, fun _ => rfl⟩

theorem asks_needsTicket : Asks (α := α) needsTicket := ⟨fun _ => rfl, fun _ => rfl⟩

theorem needsTicket_of_isPolling {s : Stage α} (h : s.isPolling = true) : s.needsTicket = true := by
  cases s <;> first | rfl | cases h

theorem eq_queued {s : Stage α} (h : s.needsTicket = true) (hnot : s.isPolling = false) :
    s = .queued := by
  cases s with
  | queued => rfl
  | polling => cases hnot
  | _ => cases h

end Stage

/-- The ticket of a loop, if its stage is one of these. -/
def Loop.tickets (f : Stage α → Bool) (lock : LockId) (name : String) (l : Loop α) : List Ticket :=
  if f l.stage then [⟨lock, name, l.id⟩] else []

theorem Stage.Asks.reads {f : Stage α → Bool} (hf : Asks f) (lock : LockId) (name : String) :
    Loop.Reads (Loop.tickets f lock name) where
  ended l hend := by
    cases hs : l.stage with
    | ended exit => simp [Loop.tickets, hs, hf.ended]
    | _ => simp [Loop.hasEnded, hs] at hend
  spawned l hs := by simp [Loop.tickets, hs, hf.spawned]
  cancelled _ _ := rfl

theorem Stage.Asks.unrun {f : Stage α → Bool} (hf : Asks f) (lock : LockId) (name : String)
    (l : Loop α) (b : Option α) (hs : l.stage = .spawned b) : l.tickets f lock name = [] := by
  simp [Loop.tickets, hs, hf.spawned]

namespace System

variable {s t u : System α} {p name : String} {m n : Member α} {l k : Loop α}
  {tr es : List (Incident α)} {f : Stage α → Bool}

/-- The tickets of the loops of a poller that stand in one of these stages. -/
def ticketsOf (s : System α) (f : Stage α → Bool) (name : String) : List Ticket :=
  match s.member? name with
  | some m => m.poller.read (Loop.tickets f m.lock name)
  | none => []

theorem ticketsOf_eq (hm : s.member? name = some m) :
    s.ticketsOf f name = m.poller.read (Loop.tickets f m.lock name) := by
  simp only [ticketsOf, hm]

theorem mem_ticketsOf {ticket : Ticket} (h : ticket ∈ s.ticketsOf f name) :
    ∃ m l, s.member? name = some m ∧ l ∈ m.poller.loops ∧ f l.stage = true ∧
      ticket = ⟨m.lock, name, l.id⟩ := by
  unfold ticketsOf at h
  split at h
  · next m hm =>
    obtain ⟨l, hl, hticket⟩ := List.mem_flatMap.1 h
    unfold Loop.tickets at hticket
    split at hticket
    · next hf => exact ⟨m, l, hm, hl, hf, List.mem_singleton.1 hticket⟩
    · cases hticket
  · cases h

theorem ticketsOf_mem (hm : s.member? name = some m) (hl : l ∈ m.poller.loops)
    (hf : f l.stage = true) : ⟨m.lock, name, l.id⟩ ∈ s.ticketsOf f name := by
  rw [ticketsOf_eq hm]
  exact List.mem_flatMap.2 ⟨l, hl, by simp [Loop.tickets, hf]⟩

/-- The line for the locks is in order. -/
structure InOrder (s : System α) : Prop where
  /-- The tickets of a poller are those of its loops that need one. -/
  tickets : ∀ name, s.tickets.filter (·.poller = name) = s.ticketsOf Stage.needsTicket name
  /-- A loop that polls has the first ticket of its lock. -/
  first : ∀ name, ∀ ticket ∈ s.ticketsOf Stage.isPolling name,
    s.holder? ticket.lock = some ticket

/-- An impulse that moves no loop of a poller and discards none takes no ticket from it. -/
theorem Response.ticketsOf_eq (h : s.Response es t) (hs : s.Reachable) (hf : Stage.Asks f)
    (still : ∀ i, es.countP (Incident.isTurnOf name i) = 0)
    (kept : ∀ i xs, .discarded i xs ∉ es.filterMap (Incident.of? name)) :
    t.ticketsOf f name = s.ticketsOf f name := by
  cases hm : s.member? name with
  | some m =>
    obtain ⟨n, cues, hn, hperforms⟩ := h.takes hm
    have hother : ∀ cue ∈ cues, ∀ i, cue.isOf i = false := by
      intro cue hcue i
      have hcount := (hperforms.turns i).trans (still i)
      simpa using List.countP_eq_zero.1 hcount cue hcue
    rw [System.ticketsOf_eq hm, System.ticketsOf_eq hn, hperforms.lock]
    exact Poller.read_of_perform? (hs.poller hm).sound (hf.reads m.lock name)
      (hf.unrun m.lock name) hperforms.performed hother kept
  | none =>
    -- A poller that is new has no loops.
    have hnone : s.ticketsOf f name = [] := by simp [ticketsOf, hm]
    rw [hnone]
    cases hn : t.member? name with
    | none => simp [ticketsOf, hn]
    | some n =>
      rcases h.known hn with ⟨m, hm'⟩ | ⟨identity, pacing, hidle⟩
      · rw [hm] at hm'
        cases hm'
      · rw [System.ticketsOf_eq hn, hidle]
        rfl

/-- Whoever is first in line for a lock stays first when somebody else gives a ticket back. -/
theorem holder?_of_filter {ticket other : Ticket} {lock : LockId} (hne : ticket ≠ other)
    (h : s.holder? lock = some ticket)
    (ht : t.tickets = s.tickets.filter fun u => u ≠ other) : t.holder? lock = some ticket := by
  unfold holder? at h ⊢
  rw [ht]
  obtain ⟨hlock, before, after, hsplit, hbefore⟩ := List.find?_eq_some_iff_append.1 h
  have hnone : (before.filter fun u => u ≠ other).find? (fun u => u.lock = lock) = none :=
    List.find?_eq_none.2 fun u hu => by simpa using hbefore u (List.mem_filter.1 hu).1
  rw [hsplit, List.filter_append, List.filter_cons_of_pos (by simpa using hne),
    List.find?_append, hnone]
  simp only [decide_eq_true_eq] at hlock
  simp [hlock]

/-- A poller whose loop gives its ticket back has no ticket left. -/
theorem filter_given_back {lock : LockId}
    (h : s.tickets.filter (·.poller = p) = l.tickets Stage.needsTicket lock p)
    (ht : t.tickets = s.tickets.filter fun u => u ≠ ⟨lock, p, l.id⟩) :
    t.tickets.filter (·.poller = p) = [] := by
  have hswap : t.tickets.filter (·.poller = p) =
      (s.tickets.filter (·.poller = p)).filter fun u => u ≠ ⟨lock, p, l.id⟩ := by
    rw [ht, List.filter_filter, List.filter_filter]
    exact List.filter_congr fun u _ => Bool.and_comm _ _
  rw [hswap, h, Loop.tickets]
  split <;> simp

/-- Another poller keeps its tickets when somebody gives a ticket back. -/
theorem filter_of_ne {ticket : Ticket} (hne : name ≠ ticket.poller)
    (ht : t.tickets = s.tickets.filter fun u => u ≠ ticket) :
    t.tickets.filter (·.poller = name) = s.tickets.filter (·.poller = name) := by
  rw [ht, List.filter_filter]
  refine List.filter_congr fun u _ => ?_
  by_cases hu : u.poller = name
  · have hother : u ≠ ticket := by
      rintro rfl
      exact hne hu.symm
    simp [hu, hother]
  · simp [hu]

/-- Nobody jumps the line. -/
theorem holder?_of_append {ticket other : Ticket} {lock : LockId}
    (h : s.holder? lock = some ticket) (ht : t.tickets = s.tickets ++ [other]) :
    t.holder? lock = some ticket := by
  unfold holder? at h ⊢
  rw [ht, List.find?_append, h]
  rfl

/-- A loop that is about to poll ends, or gets in line. -/
theorem Turn.checked {as : List (Act α)} {os : List (Occurrence α)} {own : LoopCue α}
    {g : Member α → Member α} (h : s.Turn p m l t as os own g) (hm : s.member? p = some m)
    (stage : l.stage = .checking) (hn : t.member? p = some n) (hk : k ∈ n.poller.loops)
    (hid : k.id = l.id) :
    m.poller.interruption? l (s.isSignalled m) = none ∧ k.stage = .queued ∨
      (m.poller.interruption? l (s.isSignalled m)).isNone = false ∧ k.hasEnded = true := by
  have hacts : as = [] := by rw [h.acts, stage]; rfl
  subst hacts
  have hact := h.moves m hm
  have ht := member?_modify (s := s.acts []) g h.members p
  rw [if_pos rfl] at ht
  obtain rfl : g m = n := Option.some.inj ((ht.trans (congrArg _ hm)).symm.trans hn)
  cases hown : own with
  | check raised =>
    subst hown
    obtain rfl := h.shows raised rfl
    simp only [Poller.loopAct?, stage] at hact
    cases why : m.poller.interruption? l (s.isSignalled m) with
    | none =>
      rw [why] at hact
      obtain ⟨-, hq⟩ := Prod.mk.inj (Option.some.inj hact)
      rw [← hq] at hk
      obtain ⟨k', -, rfl⟩ := List.mem_map.1 hk
      refine .inl ⟨rfl, ?_⟩
      by_cases hid' : k'.id = l.id
      · simp [hid']
      · simp [hid'] at hid
    | some w =>
      rw [why] at hact
      obtain ⟨-, hq⟩ := Prod.mk.inj (Option.some.inj hact)
      rw [← hq] at hk
      refine .inr ⟨rfl, ?_⟩
      rcases Poller.interruption?_eq_some why with ⟨rfl, -⟩ | ⟨rfl, -⟩
      · exact Poller.hasEnded_finish hk hid
      · exact Poller.hasEnded_finish hk hid
  | go | beginPoll | endPoll | callBack | wake =>
    simp [Poller.loopAct?, stage, hown] at hact

/-- What it does to the line for its lock when a loop becomes `k`. -/
inductive Line (s : System α) (ticket : Ticket) (l k : Loop α) (t : System α) : Prop
  /-- It has nothing to do with the line. -/
  | apart (before : l.stage.needsTicket = false) (after : k.stage.needsTicket = false)
      (tickets : t.tickets = s.tickets)
  | takes (before : l.stage.needsTicket = false) (after : k.stage = .queued)
      (tickets : t.tickets = s.tickets ++ [ticket])
  | polls (before : l.stage = .queued) (first : s.holder? ticket.lock = some ticket)
      (after : k.stage.isPolling = true) (tickets : t.tickets = s.tickets)
  /-- It leaves the line, if it was there. -/
  | gives (after : k.stage.needsTicket = false)
      (tickets : t.tickets = s.tickets.filter fun u => u ≠ ticket)

/-- A turn of a loop, seen from the line for its lock. -/
theorem line_of_movesOf (hm : s.member? p = some m) (hl : l ∈ m.poller.loops)
    (ht : t ∈ s.movesOf p m l) :
    ∃ n f, t.member? p = some n ∧ n.lock = m.lock ∧
      n.poller.loops = (m.poller.updateLoop l.id f).loops ∧ (f l).id = l.id ∧
      s.Line ⟨m.lock, p, l.id⟩ l (f l) t := by
  obtain ⟨as, os, own, g, hturn⟩ := exists_turn hm ht
  obtain ⟨n, hn, hlock, f, hloops, same, -, hpaces⟩ := hturn.paces hm
  refine ⟨n, f, hn, hlock, hloops, same.id, ?_⟩
  have htickets := hturn.tickets
  have hended : (f l).hasEnded = true → (f l).stage.needsTicket = false := by
    intro hend
    cases hs : (f l).stage with
    | ended => rfl
    | _ => simp [Loop.hasEnded, hs] at hend
  have hkeeps : (f l).stage.needsTicket = false → l.stage ≠ .queued → l.stage ≠ .checking →
      s.Line ⟨m.lock, p, l.id⟩ l (f l) t := by
    intro hafter hqueued hchecking
    cases stage : l.stage with
    | queued => exact absurd stage hqueued
    | checking => exact absurd stage hchecking
    | polling =>
      refine .gives hafter ?_
      simpa only [ticketsAfter, stage] using htickets
    | _ =>
      refine .apart (by rw [stage]; rfl) hafter ?_
      simpa only [ticketsAfter, stage] using htickets
  have hmem : f l ∈ n.poller.loops := by
    rw [hloops]
    exact List.mem_map.2 ⟨l, hl, if_pos rfl⟩
  generalize os.filterMap (Occurrence.beat? l.id) = beats at hpaces
  cases hpaces with
  | begins stage next | redelivers stage next | yields stage next | sleeps stage next
    | hands stage next | calls stage next | returns stage next | resumes stage next
    | wakes stage _ next =>
    exact hkeeps (by rw [next]; rfl) (by simp [stage]) (by simp [stage])
  | queues stage next =>
    rcases hturn.checked hm stage hn hmem same.id with ⟨why, -⟩ | ⟨-, hend⟩
    · refine .takes (by rw [stage]; rfl) next ?_
      simpa [ticketsAfter, stage, why] using htickets
    · simp [Loop.hasEnded, next] at hend
  | polls stage next =>
    refine .polls stage ?_ (by rw [next]; rfl) ?_
    · simp only [movesOf, stage] at ht
      split at ht
      · next first => exact first
      · cases ht
    · simpa only [ticketsAfter, stage] using htickets
  | ends polls hend =>
    have hqueued : l.stage ≠ .queued := fun stage => by simp [stage, Stage.isQueued] at polls
    by_cases stage : l.stage = .checking
    · rcases hturn.checked hm stage hn hmem same.id with ⟨-, next⟩ | ⟨why, -⟩
      · simp [Loop.hasEnded, next] at hend
      · refine .apart (by rw [stage]; rfl) (hended hend) ?_
        simpa [ticketsAfter, stage, why] using htickets
    · exact hkeeps (hended hend) hqueued stage
  | delivers stage hend => exact hkeeps (hended hend) (by simp [stage]) (by simp [stage])

theorem tickets_of {q : Stage α → Bool} (lock : LockId) (name : String) (h : q k.stage = true) :
    k.tickets q lock name = [⟨lock, name, k.id⟩] := by
  simp [Loop.tickets, h]

theorem tickets_eq_nil {q : Stage α → Bool} (lock : LockId) (name : String)
    (h : q k.stage = false) : k.tickets q lock name = [] := by
  simp [Loop.tickets, h]

/-- A loop that has its ticket before its turn has it afterwards, as long as it needs one. -/
theorem Line.tickets_own {lock : LockId} (hline : s.Line ⟨lock, p, l.id⟩ l k t) (hid : k.id = l.id)
    (h : s.tickets.filter (·.poller = p) = l.tickets Stage.needsTicket lock p) :
    t.tickets.filter (·.poller = p) = k.tickets Stage.needsTicket lock p := by
  cases hline with
  | apart before after tickets =>
    rw [tickets, h, tickets_eq_nil lock p before, tickets_eq_nil lock p after]
  | takes before after tickets =>
    rw [tickets, List.filter_append, h, tickets_eq_nil lock p before,
      tickets_of lock p (by rw [after]; rfl), hid]
    simp
  | polls before first after tickets =>
    rw [tickets, h, tickets_of lock p (by rw [before]; rfl),
      tickets_of lock p (Stage.needsTicket_of_isPolling after), hid]
  | gives after tickets =>
    rw [filter_given_back h tickets, tickets_eq_nil lock p after]

/-- Another poller keeps its tickets. -/
theorem Line.tickets_other {ticket : Ticket} (hline : s.Line ticket l k t)
    (hne : name ≠ ticket.poller) :
    t.tickets.filter (·.poller = name) = s.tickets.filter (·.poller = name) := by
  cases hline with
  | apart _ _ tickets | polls _ _ _ tickets => rw [tickets]
  | takes _ _ tickets => simp [tickets, Ne.symm hne]
  | gives _ tickets => exact filter_of_ne hne tickets

/-- A loop that begins to poll is first in line. -/
theorem Line.first_own {lock : LockId} (hline : s.Line ⟨lock, p, l.id⟩ l k t) (hid : k.id = l.id)
    {ticket : Ticket} (h : ticket ∈ k.tickets Stage.isPolling lock p) :
    t.holder? ticket.lock = some ticket := by
  have hvoid : k.stage.isPolling = false → t.holder? ticket.lock = some ticket := by
    intro hnot
    rw [tickets_eq_nil lock p hnot] at h
    cases h
  cases hline with
  | apart _ after | gives after =>
    refine hvoid ?_
    by_contra hpolling
    rw [Stage.needsTicket_of_isPolling (by simpa using hpolling)] at after
    cases after
  | takes _ after => exact hvoid (by rw [after]; rfl)
  | polls _ first after tickets =>
    rw [tickets_of lock p after, hid] at h
    obtain rfl := List.mem_singleton.1 h
    rw [holder?, tickets]
    exact first

/-- Whoever else is first in line stays first. -/
theorem Line.first_other {ticket other : Ticket} (hline : s.Line ticket l k t)
    (hne : other.poller ≠ ticket.poller) (h : s.holder? other.lock = some other) :
    t.holder? other.lock = some other := by
  cases hline with
  | apart _ _ tickets | polls _ _ _ tickets =>
    rw [holder?, tickets]
    exact h
  | takes _ _ tickets => exact holder?_of_append h tickets
  | gives _ tickets => exact holder?_of_filter (fun heq => hne (by rw [heq])) h tickets

/-- A loop that changes keeps the line in order, if the other pollers keep their tickets. -/
theorem InOrder.line (h : s.InOrder) (hs : s.Reachable) (hm : s.member? p = some m)
    (hl : l ∈ m.poller.loops) (hal : l.hasEnded = false) {g : Loop α → Loop α}
    (hn : t.member? p = some n) (hlock : n.lock = m.lock)
    (hloops : n.poller.loops = (m.poller.updateLoop l.id g).loops) (hid : (g l).id = l.id)
    (hline : s.Line ⟨m.lock, p, l.id⟩ l (g l) t)
    (hothers : ∀ {q : Stage α → Bool}, Stage.Asks q → ∀ name, name ≠ p →
      t.ticketsOf q name = s.ticketsOf q name) : t.InOrder := by
  have hsound := (hs.poller hm).sound
  -- The other loops of the poller have ended, so they need no ticket before or after.
  have hbefore : s.ticketsOf Stage.needsTicket p = l.tickets Stage.needsTicket m.lock p := by
    rw [ticketsOf_eq hm]
    exact hsound.read_of_alive (Stage.asks_needsTicket.reads m.lock p) hl hal
  have hafter : ∀ {q : Stage α → Bool}, Stage.Asks q →
      t.ticketsOf q p = (g l).tickets q m.lock p := fun hq => by
    rw [ticketsOf_eq hn, hlock]
    exact hsound.read_updateLoop (hq.reads m.lock p) hl hal hloops
  constructor
  · intro name
    by_cases hname : name = p
    · subst hname
      rw [hafter Stage.asks_needsTicket]
      exact hline.tickets_own hid ((h.tickets name).trans hbefore)
    · rw [hothers Stage.asks_needsTicket name hname, ← h.tickets name]
      exact hline.tickets_other hname
  · intro name ticket hticket
    by_cases hname : name = p
    · subst hname
      rw [hafter Stage.asks_isPolling] at hticket
      exact hline.first_own hid hticket
    · rw [hothers Stage.asks_isPolling name hname] at hticket
      obtain ⟨m', l', -, -, -, rfl⟩ := mem_ticketsOf hticket
      exact hline.first_other hname (h.first name _ hticket)

/-- A turn of a loop keeps the line in order. -/
theorem InOrder.turn (h : s.InOrder) (hs : s.Reachable) (hm : s.member? p = some m)
    (hl : m.poller.loop? l.id = some l) (ht : t ∈ s.movesOf p m l) : t.InOrder := by
  obtain ⟨hmem, -⟩ := Poller.loop?_eq_some hl
  obtain ⟨n, f, hn, hlock, hloops, hid, hline⟩ := line_of_movesOf hm hmem ht
  obtain ⟨as, os, own, g, hturn⟩ := exists_turn hm ht
  refine h.line hs hm hmem (alive_of_movesOf ht) hn hlock hloops hid hline fun hq name hne => ?_
  refine (Response.turn hm hl ht).ticketsOf_eq hs hq (fun i => ?_) fun i xs => ?_
  · rw [hturn.told, countP_isTurnOf_turnOf, decide_eq_false (Ne.symm hne)]
    rfl
  · rw [hturn.told, filterMap_of?_turnOf, if_neg (Ne.symm hne)]
    exact List.not_mem_nil

/-- A loop whose task is discarded leaves the line in order, wherever it stood in it. -/
theorem InOrder.discard (h : s.InOrder) (hs : s.Reachable) (hm : s.member? p = some m)
    (hl : m.poller.loop? l.id = some l) (waits : l.stage.awaits = true) :
    (s.discard p m l.id).InOrder := by
  obtain ⟨hmem, -⟩ := Poller.loop?_eq_some hl
  refine h.line hs hm hmem (Stage.alive_of_awaits waits) (member?_discard hm l.id) rfl rfl
    rfl (.gives rfl rfl) fun hq name hne => ?_
  refine (Response.discard hm hl waits).ticketsOf_eq hs hq
    (fun i => countP_isTurnOf_befell p name i [_]) fun i xs => ?_
  simp [Incident.of?, Ne.symm hne]

/-- A cue that is not the turn of a loop and discards none takes no ticket. -/
theorem ticketsOf_of_act? (hs : s.Reachable) (hf : Stage.Asks f) (hm : s.member? p = some m)
    {cue : Cue α} {os : List (Occurrence α)} {q : Poller α}
    (hact : m.poller.act? cue = some (os, q)) (other : ∀ i own, cue ≠ .loop i own)
    (kept : ∀ i, cue ≠ .discard i) (name : String) :
    (s.update p fun _ => q).ticketsOf f name = s.ticketsOf f name := by
  have hmember := member?_modify (s := s) (t := s.update p fun _ => q)
    (fun m => { m with poller := q }) rfl name
  by_cases hname : name = p
  · subst hname
    rw [if_pos rfl, hm, Option.map_some] at hmember
    rw [ticketsOf_eq hm, ticketsOf_eq hmember]
    refine Poller.read_of_act? (hs.poller hm).sound (hf.reads m.lock name) (hf.unrun m.lock name)
      hact (fun i => ?_) kept
    cases cue with
    | loop j own => exact absurd rfl (other j own)
    | _ => rfl
  · rw [if_neg hname] at hmember
    simp only [ticketsOf, hmember]

/-- Every impulse keeps the line in order. -/
theorem InOrder.response (h : s.InOrder) (hs : s.Reachable) (hresponse : s.Response es t) :
    t.InOrder := by
  have hquiet : (∀ {q : Stage α → Bool}, Stage.Asks q → ∀ name,
      t.ticketsOf q name = s.ticketsOf q name) → t.tickets = s.tickets → t.InOrder := by
    intro same tickets
    constructor
    · intro name
      rw [same Stage.asks_needsTicket name, tickets]
      exact h.tickets name
    · intro name ticket hticket
      rw [same Stage.asks_isPolling name] at hticket
      rw [holder?, tickets]
      exact h.first name ticket hticket
  have hsilent : es = [] → t.tickets = s.tickets → t.InOrder := by
    rintro rfl
    exact hquiet fun hf name => hresponse.ticketsOf_eq hs hf (fun _ => rfl) (by simp)
  cases hresponse with
  | turn hm hl ht => exact h.turn hs hm hl ht
  | cue hm hact other kept =>
    exact hquiet (fun hf name => ticketsOf_of_act? hs hf hm hact other kept name) rfl
  | discard hm hl waits => exact h.discard hs hm hl waits
  | act a =>
    refine hquiet (fun hf name => (Response.act a).ticketsOf_eq hs hf (fun i => ?_) ?_)
      (tickets_acts s [a])
    · cases a <;> rfl
    · cases a <;> simp [Act.incidents, Incident.of?]
  | build | drop | pass | note => exact hsilent rfl rfl

/-- The line for the locks is in order in every system. -/
theorem Reachable.inOrder (hs : s.Reachable) : s.InOrder := by
  obtain ⟨runtime, tr, hrun⟩ := hs
  induction hrun with
  | nil => exact ⟨fun _ => rfl, fun _ _ hticket => by cases hticket⟩
  | snoc hrun hresponds ih =>
    exact ih.response ⟨runtime, _, hrun⟩ (response_of_respond? hresponds)

/-- Whether the loop of a ticket stands in one of these stages. -/
def Stands (s : System α) (f : Stage α → Bool) (ticket : Ticket) : Prop :=
  ∃ m l, s.member? ticket.poller = some m ∧ l ∈ m.poller.loops ∧ f l.stage = true ∧
    m.lock = ticket.lock ∧ l.id = ticket.loop

theorem stands_iff {ticket : Ticket} :
    s.Stands f ticket ↔ ticket ∈ s.ticketsOf f ticket.poller := by
  constructor
  · rintro ⟨m, l, hm, hl, hf, hlock, hloop⟩
    have hmem := ticketsOf_mem hm hl hf
    rwa [hlock, hloop] at hmem
  · intro h
    obtain ⟨m, l, hm, hl, hf, hticket⟩ := mem_ticketsOf h
    exact ⟨m, l, hm, hl, hf, by rw [hticket], by rw [hticket]⟩

/-- A loop that polls holds its lock. -/
theorem InOrder.holder?_of_polling (h : s.InOrder) {ticket : Ticket}
    (hpolls : s.Stands Stage.isPolling ticket) : s.holder? ticket.lock = some ticket :=
  h.first ticket.poller ticket (stands_iff.1 hpolls)

/-- Each ticket is that of a loop which needs one. -/
theorem InOrder.stands (h : s.InOrder) {ticket : Ticket} (hticket : ticket ∈ s.tickets) :
    s.Stands Stage.needsTicket ticket := by
  rw [stands_iff, ← h.tickets]
  exact List.mem_filter.2 ⟨hticket, by simp⟩

theorem InOrder.mem_tickets (h : s.InOrder) {ticket : Ticket}
    (hstands : s.Stands Stage.needsTicket ticket) : ticket ∈ s.tickets := by
  rw [stands_iff, ← h.tickets] at hstands
  exact (List.mem_filter.1 hstands).1

theorem of_holder? {lock : LockId} {ticket : Ticket} (h : s.holder? lock = some ticket) :
    ticket ∈ s.tickets ∧ ticket.lock = lock :=
  ⟨List.mem_of_find?_eq_some h, by simpa using List.find?_some h⟩

/-- Whoever holds a lock polls, or begins to poll as soon as it gets its turn. -/
theorem InOrder.polls_of_holder? (h : s.InOrder) (hs : s.Reachable) {lock : LockId}
    {ticket : Ticket} (hholds : s.holder? lock = some ticket) :
    s.Stands Stage.isPolling ticket ∨ s.Stands Stage.isQueued ticket ∧
      ∃ t, s.loopMoves ticket.poller ticket.loop = [t] ∧ t.Stands Stage.isPolling ticket := by
  obtain ⟨hmem, rfl⟩ := of_holder? hholds
  obtain ⟨m, l, hm, hl, hneeds, hlock, hloop⟩ := h.stands hmem
  cases hpolling : l.stage.isPolling with
  | true => exact .inl ⟨m, l, hm, hl, hpolling, hlock, hloop⟩
  | false =>
    have stage := Stage.eq_queued hneeds hpolling
    have hmoves : s.movesOf ticket.poller m l = [s.beginPoll ticket.poller m l] := by
      simp only [movesOf, stage, hlock, hloop]
      exact if_pos hholds
    have ht : s.beginPoll ticket.poller m l ∈ s.movesOf ticket.poller m l := by
      rw [hmoves]
      exact List.mem_singleton_self _
    obtain ⟨n, f, hn, hlock', hloops, hid, hline⟩ := line_of_movesOf hm hl ht
    have hf : f l ∈ n.poller.loops := by
      rw [hloops]
      exact List.mem_map.2 ⟨l, hl, if_pos rfl⟩
    refine .inr ⟨⟨m, l, hm, hl, by rw [stage]; rfl, hlock, hloop⟩, s.beginPoll ticket.poller m l,
      ?_, ?_⟩
    · rw [← hloop, loopMoves_eq hs hm hl, hmoves]
    · cases hline with
      | apart before | takes before =>
        rw [stage] at before
        cases before
      | gives _ tickets =>
        -- Whoever begins to poll keeps its ticket.
        obtain ⟨as, os, own, g, hturn⟩ := exists_turn hm ht
        have hkept : (s.beginPoll ticket.poller m l).tickets = s.tickets := by
          simpa only [ticketsAfter, stage] using hturn.tickets
        rw [← hkept, tickets, hlock, hloop] at hmem
        simp at hmem
      | polls _ _ after => exact ⟨n, f l, hn, hf, after, hlock'.trans hlock, hid.trans hloop⟩

/-- A poll that ends gives the lock back, however it ends. -/
theorem InOrder.released (h : s.InOrder) (hs : s.Reachable) {ticket : Ticket}
    (hpolls : s.Stands Stage.isPolling ticket)
    (ht : t ∈ s.loopMoves ticket.poller ticket.loop) :
    ticket ∉ t.tickets ∧ ¬ t.Stands Stage.isPolling ticket := by
  obtain ⟨m, l, hm, hl, hpolling, hlock, hloop⟩ := hpolls
  rw [← hloop, loopMoves_eq hs hm hl] at ht
  have hgone : ticket ∉ t.tickets := by
    obtain ⟨n, f, -, -, -, -, hline⟩ := line_of_movesOf hm hl ht
    cases hline with
    | apart before | takes before =>
      rw [Stage.needsTicket_of_isPolling hpolling] at before
      cases before
    | polls before =>
      rw [before] at hpolling
      cases hpolling
    | gives _ tickets =>
      rw [tickets, hlock, hloop]
      simp
  refine ⟨hgone, fun hstill => hgone ?_⟩
  have hafter := h.turn hs hm ((hs.poller hm).sound.loop?_of_mem hl) ht
  exact (of_holder? (hafter.holder?_of_polling hstill)).1

/-- The loop of a ticket stands in one place. -/
theorem Stands.stage_eq (hs : s.Reachable) {g : Stage α → Bool} {ticket : Ticket}
    (h : s.Stands f ticket) (h' : s.Stands g ticket) :
    ∃ stage, f stage = true ∧ g stage = true := by
  obtain ⟨m, l, hm, hl, hf, -, hloop⟩ := h
  obtain ⟨n, k, hn, hk, hg, -, hloop'⟩ := h'
  obtain rfl := Option.some.inj (hm.symm.trans hn)
  obtain rfl := (hs.poller hm).sound.eq_of_id hl hk (hloop'.trans hloop.symm)
  exact ⟨k.stage, hf, hg⟩

/-- Under one lock one poll is in progress at a time.  Only a loop that polls holds the lock, or one
that begins to poll as soon as it gets its turn, and the lock is given back however the poll ends.
So whoever is in line in a system at rest waits for another loop that polls. -/
theorem one_poll_per_lock (hs : s.Reachable) :
    (∀ a b : Ticket, s.Stands Stage.isPolling a → s.Stands Stage.isPolling b → a.lock = b.lock →
      a = b) ∧
    (∀ a ∈ s.tickets, s.Stands Stage.needsTicket a) ∧
    (∀ a, s.Stands Stage.isPolling a → s.holder? a.lock = some a ∧
      ∀ t ∈ s.loopMoves a.poller a.loop, a ∉ t.tickets ∧ ¬ t.Stands Stage.isPolling a) ∧
    (∀ lock a, s.holder? lock = some a → s.Stands Stage.isPolling a ∨
      s.Stands Stage.isQueued a ∧
        ∃ t, s.loopMoves a.poller a.loop = [t] ∧ t.Stands Stage.isPolling a) ∧
    (s.AtRest → (∀ lock a, s.holder? lock = some a → s.Stands Stage.isPolling a) ∧
      ∀ a, s.Stands Stage.isQueued a →
        ∃ b, b ≠ a ∧ b.lock = a.lock ∧ s.Stands Stage.isPolling b) := by
  have h := hs.inOrder
  refine ⟨fun a b ha hb hlock => ?_, fun a => h.stands, fun a ha => ?_, fun lock a => ?_,
    fun hrest => ?_⟩
  · have hfirst := h.holder?_of_polling ha
    rw [hlock, h.holder?_of_polling hb] at hfirst
    exact (Option.some.inj hfirst).symm
  · exact ⟨h.holder?_of_polling ha, fun t ht => h.released hs ha ht⟩
  · exact h.polls_of_holder? hs
  · have hpolls : ∀ lock a, s.holder? lock = some a → s.Stands Stage.isPolling a := by
      intro lock a hholds
      rcases h.polls_of_holder? hs hholds with hpolls | ⟨⟨m, l, hm, hl, -, -, hloop⟩, t, hmoves, -⟩
      · exact hpolls
      · rw [← hloop, loopMoves_eq hs hm hl, hrest.movesOf_eq_nil hs hm hl] at hmoves
        cases hmoves
    refine ⟨hpolls, fun a ha => ?_⟩
    -- Its ticket is there, so somebody holds the lock; and that is not this loop.
    have hmem : a ∈ s.tickets := by
      obtain ⟨m, l, hm, hl, hqueued, hticket⟩ := ha
      exact h.mem_tickets ⟨m, l, hm, hl, by rw [Stage.isQueued_iff.1 hqueued]; rfl, hticket⟩
    cases hholds : s.holder? a.lock with
    | none =>
      have hnone := List.find?_eq_none.1 hholds a hmem
      simp at hnone
    | some b =>
      have hb := hpolls a.lock b hholds
      refine ⟨b, ?_, (of_holder? hholds).2, hb⟩
      rintro rfl
      obtain ⟨stage, hqueued, hpolling⟩ := ha.stage_eq hs hb
      rw [Stage.isQueued_iff.1 hqueued] at hpolling
      cases hpolling

/-- Two pollers that share a lock: one polls, the other one waits for its turn. -/
theorem one_poll_per_lock_shared : ∃ (s : System Nat) (a b : Ticket), s.Reachable ∧ s.AtRest ∧
    s.Stands Stage.isPolling a ∧ s.Stands Stage.isQueued b ∧ b.lock = a.lock ∧
      s.holder? b.lock = some a ∧ ∃ c, c ≠ b ∧ c.lock = b.lock ∧ s.Stands Stage.isPolling c := by
  have hs := reachable_after (sharedLock [])
  have hrest : (after (sharedLock [])).AtRest := rfl
  obtain ⟨-, -, hholds, -, hbehind⟩ := one_poll_per_lock hs
  have ha : (after (sharedLock [])).Stands Stage.isPolling ⟨.named "k", "a", 1⟩ :=
    ⟨_, _, rfl, List.mem_cons_self, rfl, rfl, rfl⟩
  have hb : (after (sharedLock [])).Stands Stage.isQueued ⟨.named "k", "b", 1⟩ :=
    ⟨_, _, rfl, List.mem_cons_self, rfl, rfl, rfl⟩
  exact ⟨_, _, _, hs, hrest, ha, hb, rfl, (hholds _ ha).1, (hbehind hrest).2 _ hb⟩

end System

end Polling
