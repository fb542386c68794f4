import Polling.Proofs.Effort
import Polling.Proofs.PollLocks
import Polling.Proofs.Sleeps
import Polling.Proofs.Standby
import Polling.Proofs.Tasks

/-!
# Settling comes to an end

Each step that a task takes before time passes costs the system some of its effort
(`System.Works.effort_le`).  Only a call that goes round in circles looks for nothing, and its looks
change nothing (`System.Step.eq_of_circles`).  So a system comes to rest, and at rest every loop
waits for the clock or in line for a lock, and every call for such a loop (`System.AtRest.quiet`).

The main result is `System.settling_ends`.  The steps of a call that goes round in circles may have
no end: `System.steps_without_end` is a wait whose predecessor's task was discarded.
-/

namespace Polling

variable {α : Type}

/-- Whether a poll came back with a payload. -/
def Incident.isPayloadPoll : Incident α → Bool
  | befell _ o => o.isPayloadPoll
  | _ => false

namespace System

variable {s t u : System α} {p name : String} {m n : Member α} {l : Loop α} {c : Call α}
  {es tr ts : List (Incident α)} {x : Impulse α}

/-- Every poller of a system has a pacing that can be used. -/
theorem Reachable.usable (hs : s.Reachable) (hm : s.member? name = some m) :
    m.poller.pacing.flaw? = none := by
  obtain ⟨runtime, tr, hrun⟩ := hs
  induction hrun generalizing m with
  | nil => cases hm
  | @snoc t u tr es x hrun hresponds ih =>
    have ht : t.Reachable := ⟨runtime, tr, hrun⟩
    cases hold : t.member? name with
    | some m₀ =>
      obtain ⟨n, hn, hpoller⟩ := (Run.single hresponds).poller hold
      obtain rfl := Option.some.inj (hm.symm.trans hn)
      rw [(hpoller.counters (ht.poller hold).sound).2.2]
      exact ih hold
    | none =>
      rcases (response_of_respond? hresponds).builds with
        hnames | ⟨p, _, _, _, _, _, -, hflaw, hmembers⟩
      · have hmem : name ∈ t.members.names := hnames ▸ Table.mem_names.2 ⟨m, hm⟩
        obtain ⟨m₀, hm₀⟩ := Table.mem_names.1 hmem
        rw [member?, hm₀] at hold
        cases hold
      · rw [member?, hmembers, Table.find?_insert] at hm
        split at hm
        · obtain rfl := Option.some.inj hm
          exact hflaw
        · rw [member?] at hold
          rw [hold] at hm
          cases hm

/-- The effort of all tasks of a system. -/
def effort (s : System α) : Nat := (s.members.map fun e => e.2.poller.effort s.clock).sum

/-- A poller that is changed takes its effort along. -/
theorem effort_modify (unique : s.members.names.Nodup) (hn : s.member? p = some n)
    {g : Member α → Member α} (members : t.members = s.members.modify p g)
    (clock : t.clock = s.clock) :
    t.effort + n.poller.effort s.clock = s.effort + (g n).poller.effort s.clock := by
  have hkeys : (s.members.map Prod.fst).Nodup := unique
  have hsum := sum_map_add hkeys (Table.mem_of_find? hn)
    (f := fun e => e.2.poller.effort s.clock)
    (g := fun e => (if e.1 = p then g e.2 else e.2).poller.effort s.clock)
    fun e _ hne => by rw [if_neg hne]
  simp only [if_true] at hsum
  simp only [effort, members, clock, Table.modify, List.map_map, Function.comp_def]
  exact hsum

/-- Acts leave no task with more to do. -/
theorem effort_acts (s : System α) (as : List (Act α)) : (s.acts as).effort = s.effort := by
  induction as generalizing s with
  | nil => rfl
  | cons a as ih =>
    refine (ih (s.act a)).trans ?_
    cases a with
    | stop p =>
      have hmembers : (s.act (.stop p)).members.map (fun e => e.2.poller.effort s.clock) =
          s.members.map fun e => e.2.poller.effort s.clock := by
        refine (List.map_map ..).trans (List.map_congr_left fun e _ => ?_)
        simp only [Function.comp_apply]
        split <;> rfl
      exact congrArg List.sum hmembers
    | _ => rfl

/-- One step of a task: it is the turn of a loop, or a pending call moves on. -/
inductive Step (s : System α) : Task → List (Incident α) → System α → Prop
  | loop {p : String} {i : Nat} {m : Member α} {l : Loop α} {t : System α}
      (member : s.member? p = some m) (loop : m.poller.loop? i = some l)
      (moves : t ∈ s.movesOf p m l) : Step s (.loop p i) (s.incidents p m l) t
  | call {p id : String} {m : Member α} {c : Call α} {runtime : Bool} {os : List (Occurrence α)}
      {q : Poller α} (member : s.member? p = some m) (call : m.poller.call? id = some c)
      (acts : m.poller.callAct? runtime c = some (os, q)) :
      Step s (.call p id) (os.map (.befell p)) (s.update p fun _ => q)

/-- Any number of steps of tasks, one after the other: how many there are, and how many of these
are no looks of a call that goes round in circles. -/
inductive Works : System α → Nat → Nat → List (Incident α) → System α → Prop
  | nil {s : System α} : Works s 0 0 [] s
  | move {s t u : System α} {steps moves : Nat} {tr es : List (Incident α)} {task : Task}
      (works : Works s steps moves tr t) (step : t.Step task es u)
      (counts : t.circles task = false) : Works s (steps + 1) (moves + 1) (tr ++ es) u
  | look {s t u : System α} {steps moves : Nat} {tr es : List (Incident α)} {task : Task}
      (works : Works s steps moves tr t) (step : t.Step task es u)
      (looks : t.circles task = true) : Works s (steps + 1) moves (tr ++ es) u
  /-- Events may be noted in between. -/
  | note {s t : System α} {steps moves : Nat} {tr : List (Incident α)}
      (works : Works s steps moves tr t) (events : List (Event α)) :
      Works s steps moves tr { t with events }

variable {steps moves steps' moves' : Nat} {task : Task}

/-- A step is an impulse. -/
theorem Step.single (h : s.Step task es t) : s.Run es t := by
  cases h with
  | @loop p i m l t hm hl ht =>
    obtain ⟨choice, hchoice⟩ := List.getElem?_of_mem ht
    exact .single (x := .turn p i choice) (by simp [respond?, hm, hl, hchoice])
  | @call p id m c runtime os q hm hc hact =>
    exact .single (x := .cue p (.resume id runtime))
      (by simp [respond?, hm, Poller.act?, hc, hact])

/-- A step takes something off the effort of a system, unless it is a poll that brings a payload or
a look of a call that goes round in circles. -/
theorem Step.effort_lt (h : s.Step task es t) (hs : s.Reachable) (counts : s.circles task = false) :
    t.effort < s.effort + 9 * es.countP Incident.isPayloadPoll := by
  cases h with
  | @loop p i m l t hm hl ht =>
    obtain ⟨as, os, own, g, hturn⟩ := exists_turn hm ht
    -- The acts of the turn come first, and change no loop.
    obtain ⟨n, hn, -, hloops⟩ := loops_acts as hm
    have hs' := (leads_acts s as).reachable hs
    have hpoller := hs'.poller hn
    have hmem : l ∈ n.poller.loops := hloops ▸ (Poller.loop?_eq_some hl).1
    have hact := hturn.moves n hn
    have usable : l.backoff.pacing.flaw? = none := by
      rw [hpoller.paced l hmem (Poller.loopMove_of_loopAct? hact).alive]
      exact hs'.usable hn
    have hless := Poller.effort_of_loopAct? hpoller.sound hmem usable hact hturn.now
    have hclock := clock_acts s as
    have hsum := effort_modify hs'.unique hn hturn.members (hturn.clock.trans hclock.symm)
    rw [effort_acts, hclock] at hsum
    have hpolls : os.countP Occurrence.isPayloadPoll ≤
        (s.incidents p m l).countP Incident.isPayloadPoll := by
      rw [hturn.told, turnOf, List.countP_append, List.countP_map]
      exact Nat.le_add_left _ _
    omega
  | @call p id m c runtime os q hm hc hact =>
    simp only [circles, hm, hc, Option.any_some] at counts
    have hless := Poller.effort_of_callAct? s.clock (hs.poller hm).sound
      (Poller.call?_eq_some hc).1 hact counts
    have hsum : (s.update p fun _ => q).effort + m.poller.effort s.clock =
        s.effort + q.effort s.clock :=
      effort_modify (g := fun m => { m with poller := q }) hs.unique hm rfl rfl
    omega

/-- A look changes nothing. -/
theorem Step.eq_of_circles (h : s.Step task es t) (hs : s.Reachable)
    (looks : s.circles task = true) : es = [] ∧ t = s := by
  cases h with
  | loop => cases looks
  | @call p id m c runtime os q hm hc hact =>
    simp only [circles, hm, hc, Option.any_some] at looks
    rw [Poller.callAct?_of_circles (hs.poller hm).sound.toConsistent (Poller.call?_eq_some hc).1
      looks runtime] at hact
    cases hact
    exact ⟨rfl, update_self hs.unique hm⟩

theorem Works.run (h : s.Works steps moves tr t) : s.Run tr t := by
  induction h with
  | nil => exact .nil
  | move _ step _ ih | look _ step _ ih => exact ih.append step.single
  | note _ events ih => simpa using ih.snoc (x := .note events) rfl

theorem Works.append (h : s.Works steps moves tr t) (h' : t.Works steps' moves' ts u) :
    s.Works (steps + steps') (moves + moves') (tr ++ ts) u := by
  induction h' with
  | nil => simpa using h
  | move _ step counts ih =>
    rw [← List.append_assoc]
    exact ih.move step counts
  | look _ step looks ih =>
    rw [← List.append_assoc]
    exact ih.look step looks
  | note _ events ih => exact ih.note events

/-- However the tasks take their steps, the effort pays for all that are no looks. -/
theorem Works.effort_le (h : s.Works steps moves tr t) (hs : s.Reachable) :
    moves + t.effort ≤ s.effort + 9 * tr.countP Incident.isPayloadPoll := by
  induction h with
  | nil => simp
  | move works step counts ih =>
    have hless := step.effort_lt (hs.run works.run) counts
    rw [List.countP_append]
    omega
  | look works step looks ih =>
    obtain ⟨rfl, rfl⟩ := step.eq_of_circles (hs.run works.run) looks
    rwa [List.append_nil]
  | note _ events ih => exact ih

/-- Looks alone get a system nowhere. -/
theorem Works.still (h : s.Works steps 0 tr t) (hs : s.Reachable) :
    tr = [] ∧ ∃ events, t = { s with events } := by
  -- The number of moves is an index of the induction, so it must be a variable.
  generalize hmoves : 0 = moves at h
  induction h with
  | nil => exact ⟨rfl, _, rfl⟩
  | move => cases hmoves
  | look works step looks ih =>
    obtain ⟨rfl, events, rfl⟩ := ih hmoves
    obtain ⟨rfl, rfl⟩ := step.eq_of_circles (hs.run works.run) looks
    exact ⟨rfl, events, rfl⟩
  | note works events ih =>
    obtain ⟨rfl, _, rfl⟩ := ih hmoves
    exact ⟨rfl, events, rfl⟩

theorem step_of_mem_loopMoves {i : Nat} (ht : t ∈ s.loopMoves p i) :
    ∃ es, s.Step (.loop p i) es t := by
  unfold loopMoves at ht
  split at ht
  · next m hm =>
    split at ht
    · next l hl => exact ⟨_, .loop hm hl ht⟩
    · cases ht
  · cases ht

/-- A call that is ready has a step to take. -/
theorem step_of_ready {id : String} (hm : s.member? p = some m) (hc : m.poller.call? id = some c)
    (hready : m.poller.callReady c = true) : ∃ es t, s.Step (.call p id) es t := by
  obtain ⟨os, q, hact⟩ : ∃ os q, m.poller.callAct? s.runtime c = some (os, q) := by
    simp only [Poller.callAct?, hready, if_true]
    split <;> exact ⟨_, _, rfl⟩
  exact ⟨_, _, .call hm hc hact⟩

/-- A system is at rest as soon as every step is a look. -/
theorem atRest_iff (hs : s.Reachable) :
    s.AtRest ↔ ∀ task es t, s.Step task es t → s.circles task = true := by
  refine ⟨fun hrest task es t hstep => ?_, fun hlooks => List.any_eq_false.2 fun task _ => ?_⟩
  · cases hstep with
    | loop hm hl ht =>
      rw [hrest.movesOf_eq_nil hs hm (Poller.loop?_eq_some hl).1] at ht
      cases ht
    | @call p id m c runtime os q hm hc hact =>
      simp only [circles, hm, hc, Option.any_some]
      refine (hrest.waits hs hm (Poller.call?_eq_some hc).1).resolve_left fun hstuck => ?_
      simp [Poller.callAct?, hstuck] at hact
  · -- A task that gets the system further has a step to take, and that is no look.
    intro hprogress
    simp only [System.canProgress, Bool.and_eq_true, Bool.not_eq_true'] at hprogress
    obtain ⟨hrun, hnot⟩ := hprogress
    obtain ⟨es, t, hstep⟩ : ∃ es t, s.Step task es t := by
      cases task with
      | loop p i =>
        simp only [canRun, Bool.not_eq_true', List.isEmpty_eq_false_iff_exists_mem] at hrun
        obtain ⟨t, ht⟩ := hrun
        obtain ⟨es, hstep⟩ := step_of_mem_loopMoves ht
        exact ⟨es, t, hstep⟩
      | call p id =>
        simp only [canRun] at hrun
        split at hrun
        · next m hm =>
          split at hrun
          · next c hc => exact step_of_ready hm hc hrun
          · cases hrun
        · cases hrun
    rw [hlooks task es t hstep] at hnot
    cases hnot

theorem Step.works (h : s.Step task es t) :
    ∃ moves, s.Works 1 moves es t ∧ (s.circles task = false → 0 < moves) := by
  cases hcircles : s.circles task with
  | false => exact ⟨1, Works.nil.move h hcircles, fun _ => Nat.one_pos⟩
  | true => exact ⟨0, Works.nil.look h hcircles, by simp⟩

/-- A loop that runs takes a number of steps. -/
theorem works_runLoop (p : String) (i n : Nat) (s : System α) : ∃ steps moves tr,
    s.Works steps moves tr (runLoop p i n s) ∧ (0 < n → s.loopMoves p i ≠ [] → 0 < moves) := by
  induction n generalizing s with
  | zero => exact ⟨0, 0, [], .nil, by simp⟩
  | succ n ih =>
    unfold runLoop
    split
    · next hnone => exact ⟨0, 0, [], .nil, fun _ hsome => absurd hnone hsome⟩
    · next t ts hmoves =>
      obtain ⟨es, hstep⟩ := step_of_mem_loopMoves (hmoves ▸ List.mem_cons_self)
      have hfirst := Works.nil.move hstep rfl
      split
      · exact ⟨_, _, _, hfirst, fun _ _ => Nat.one_pos⟩
      · obtain ⟨steps, moves, tr, hworks, -⟩ := ih t
        exact ⟨_, _, _, hfirst.append hworks, fun _ _ => by omega⟩

/-- A call that runs takes a number of steps. -/
theorem works_runCall (hs : s.Reachable) (hm : s.member? p = some m) (runtime : Bool) (id : String)
    (n : Nat) : ∃ steps moves tr,
      s.Works steps moves tr (s.update p fun _ => (Poller.runCall runtime id n m.poller).1) ∧
        (0 < n → s.canProgress (.call p id) = true → 0 < moves) := by
  induction n generalizing s m with
  | zero => exact ⟨0, 0, [], by rw [Poller.runCall, update_self hs.unique hm]; exact .nil, by simp⟩
  | succ n ih =>
    unfold Poller.runCall
    split
    · next hnone =>
      refine ⟨0, 0, [], by rw [update_self hs.unique hm]; exact .nil, fun _ hprogress => ?_⟩
      simp [System.canProgress, canRun, hm, hnone] at hprogress
    · next c hc =>
      obtain ⟨-, rfl⟩ := Poller.call?_eq_some hc
      have hfirst : ∀ os q, m.poller.callAct? runtime c = some (os, q) → ∃ moves,
          s.Works 1 moves (os.map (.befell p)) (s.update p fun _ => q) ∧
            (s.canProgress (.call p c.id) = true → 0 < moves) := by
        intro os q hact
        obtain ⟨moves, hworks, hcounts⟩ := (Step.call hm hc hact).works
        exact ⟨moves, hworks, fun hprogress => hcounts (by
          simpa using (Bool.and_eq_true_iff.1 hprogress).2)⟩
      split
      · next ready =>
        split
        · next q r goes =>
          obtain ⟨moves, hworks, hcounts⟩ := hfirst (m.poller.noticing c ++ [c.returning r])
            (q.dropCall c.id) (by simp only [Poller.callAct?, ready, if_true, goes])
          exact ⟨_, _, _, hworks, fun _ => hcounts⟩
        · next q goes =>
          obtain ⟨moves, hworks, hcounts⟩ := hfirst (m.poller.noticing c)
            (q.setCallStage c.id .yielded) (by simp only [Poller.callAct?, ready, if_true, goes])
          exact ⟨_, _, _, hworks, fun _ => hcounts⟩
        · next q stage _ goes =>
          -- The first step counts, so how the call goes on does not matter.
          obtain ⟨moves, hworks, hcounts⟩ := hfirst (m.poller.noticing c)
            (q.setCallStage c.id stage) (by simp only [Poller.callAct?, ready, if_true, goes])
          have hm' : (s.update p fun _ => q.setCallStage c.id stage).member? p =
              some { m with poller := q.setCallStage c.id stage } := by
            rw [member?_modify (fun m => { m with poller := q.setCallStage c.id stage }) rfl,
              if_pos rfl, hm, Option.map_some]
          obtain ⟨steps, moves', tr, hlater, -⟩ := ih (hs.run hworks.run) hm'
          rw [update_update] at hlater
          exact ⟨_, _, _, hworks.append hlater, fun _ hprogress =>
            Nat.add_pos_left (hcounts hprogress) _⟩
      · next hstuck =>
        refine ⟨0, 0, [], by rw [update_self hs.unique hm]; exact .nil, fun _ hprogress => ?_⟩
        simp [System.canProgress, canRun, hm, hc, hstuck] at hprogress

/-- A task that runs takes a number of steps, and not only looks if that gets the system further. -/
theorem works_run (hs : s.Reachable) (task : Task) : ∃ steps moves tr,
    s.Works steps moves tr (s.run task) ∧ (s.canProgress task = true → 0 < moves) := by
  cases task with
  | loop p i =>
    obtain ⟨steps, moves, tr, hworks, hcounts⟩ := works_runLoop p i loopMovesPerRun s
    refine ⟨steps, moves, tr, hworks, fun hprogress => hcounts (by decide) fun hnone => ?_⟩
    simp [System.canProgress, canRun, hnone] at hprogress
  | call p id =>
    cases hm : s.member? p with
    | some m =>
      obtain ⟨steps, moves, tr, hworks, hcounts⟩ :=
        works_runCall hs hm s.runtime id Poller.callMoves
      obtain ⟨events, hcall⟩ := withCall_eq id (Poller.runCall s.runtime id Poller.callMoves) hm
      refine ⟨steps, moves, tr, ?_, hcounts (by decide)⟩
      rw [run, runCall, hcall]
      exact hworks.note events
    | none =>
      refine ⟨0, 0, [], ?_, fun hprogress => ?_⟩
      · simp only [run, runCall, withCall, hm]
        exact .nil
      · simp [System.canProgress, canRun, hm] at hprogress

/-- What has been noted makes no difference to what a task can do. -/
theorem canProgress_note (s : System α) (events : List (Event α)) (task : Task) :
    ({ s with events } : System α).canProgress task = s.canProgress task := by
  cases task with
  | call => rfl
  | loop p i =>
    have hmoves : ∀ m l, (({ s with events } : System α).movesOf p m l).isEmpty =
        (s.movesOf p m l).isEmpty := by
      intro m l
      have hsignal : ({ s with events } : System α).isSignalled m = s.isSignalled m := rfl
      have hholder : ({ s with events } : System α).holder? m.lock = s.holder? m.lock := rfl
      unfold movesOf
      rw [hsignal, hholder]
      -- The states that the moves lead to differ in what has been noted, so only how many there are
      -- is compared.
      cases l.stage with
      | ended => rfl
      | handing | yielded => simp only [List.isEmpty_cons]
      | asleep => simp only [List.isEmpty_map]
      | spawned | checking | queued | polling | calling =>
        dsimp only
        split <;> simp only [List.isEmpty_cons, List.isEmpty_nil]
    have hmember : ({ s with events } : System α).member? p = s.member? p := rfl
    simp only [System.canProgress, canRun, circles, loopMoves, hmember]
    cases s.member? p with
    | none => rfl
    | some m =>
      dsimp only
      cases m.poller.loop? i with
      | none => rfl
      | some l => simp only [hmoves]

/-- Tasks that run one after the other take a number of steps, and not only looks if one of them
gets the system further. -/
theorem works_foldl_run (hs : s.Reachable) (tasks : List Task) : ∃ steps moves tr,
    s.Works steps moves tr (tasks.foldl run s) ∧
      ((∃ task ∈ tasks, s.canProgress task = true) → 0 < moves) := by
  induction tasks generalizing s with
  | nil => exact ⟨0, 0, [], .nil, by simp⟩
  | cons task tasks ih =>
    obtain ⟨steps, moves, tr, hworks, hcounts⟩ := works_run hs task
    obtain ⟨steps', moves', ts, hworks', hcounts'⟩ := ih (hs.run hworks.run)
    refine ⟨_, _, _, hworks.append hworks', ?_⟩
    rintro ⟨other, hmem, hprogress⟩
    rcases Nat.eq_zero_or_pos moves with rfl | hpos
    · -- Nothing has changed when the turn of that task comes.
      obtain ⟨-, events, hsame⟩ := hworks.still hs
      rcases List.mem_cons.1 hmem with rfl | hmem
      · exact Nat.add_pos_left (hcounts hprogress) _
      · rw [hsame] at hcounts'
        have hlater := hcounts' ⟨other, hmem, (canProgress_note s events other).trans hprogress⟩
        exact Nat.add_pos_right _ hlater
    · exact Nat.add_pos_left hpos _

/-- A system that settles for some rounds takes a number of steps.  It comes to rest, or each round
brings a move. -/
theorem works_settleWithin (hs : s.Reachable) (n : Nat) : ∃ steps moves tr,
    s.Works steps moves tr (settleWithin n s) ∧ ((settleWithin n s).AtRest ∨ n ≤ moves) := by
  induction n generalizing s with
  | zero => exact ⟨0, 0, [], .nil, .inr (Nat.le_refl 0)⟩
  | succ n ih =>
    unfold settleWithin
    split
    · -- The task that gets the system further is among those that run.
      next hany =>
      obtain ⟨task, hmem, hprogress⟩ := List.any_eq_true.1 hany
      have hrun : s.canRun task = true := (Bool.and_eq_true_iff.1 hprogress).1
      obtain ⟨steps, moves, tr, hworks, hcounts⟩ := works_foldl_run hs (s.tasks.filter s.canRun)
      have hpos := hcounts ⟨task, List.mem_filter.2 ⟨hmem, hrun⟩, hprogress⟩
      obtain ⟨steps', moves', ts, hworks', hrest⟩ := ih (hs.run hworks.run)
      exact ⟨_, _, _, hworks.append hworks', hrest.imp_right fun hle => by omega⟩
    · next hnone => exact ⟨0, 0, [], .nil, .inl (Bool.eq_false_iff.2 hnone)⟩

/-- Whether a loop has to wait, and no task can change that before time passes. -/
inductive Blocked (s : System α) (m : Member α) (l : Loop α) : Prop
  /-- It pauses, or its poll or its callback takes time. -/
  | clock {due : Nat} (waits : dueOf? l = some due) (later : s.clock < due)
  /-- It is in line for a lock, and the poll of the loop that holds the lock takes time. -/
  | lock {ticket : Ticket} {n : Member α} {k : Loop α} {attempt : Attempt α} {due : Nat}
      (stage : l.stage = .queued) (holds : s.holder? m.lock = some ticket)
      (member : s.member? ticket.poller = some n) (mem : k ∈ n.poller.loops)
      (id : k.id = ticket.loop) (polls : k.stage = .polling attempt due) (later : s.clock < due)
  /-- Its task never gets to run. -/
  | unrun (runs : l.runs = false)

/-- Whether all tasks wait: each loop that has not ended has to, and each pending call waits for
such a loop.  There is one exception, a wait that goes round in circles because the task of a loop
was discarded after its waiter had gone. -/
structure Quiet (s : System α) : Prop where
  loops : ∀ name m, s.member? name = some m → ∀ l ∈ m.poller.loops, l.hasEnded = false →
    s.Blocked m l
  calls : ∀ name m, s.member? name = some m → ∀ c ∈ m.poller.calls, ∃ l ∈ m.poller.loops,
    m.poller.WaitsFor c l ∧
      (l.hasEnded = false ∨ c.stage = .yielded ∧ l.hasEnded = true ∧ l.runs = false)

/-- In a system at rest nothing is due. -/
theorem AtRest.clock_lt (h : s.AtRest) (hs : s.Reachable) (hm : s.member? name = some m)
    (hl : l ∈ m.poller.loops) {due : Nat} (hdue : dueOf? l = some due) : s.clock < due := by
  have hstuck := h.movesOf_eq_nil hs hm hl
  by_contra hnot
  have hle := Nat.not_lt.1 hnot
  cases stage : l.stage with
  | polling | calling =>
    simp only [dueOf?, stage, Option.some.injEq] at hdue
    simp [movesOf, stage, hdue, hle] at hstuck
  | asleep =>
    simp only [dueOf?, stage, Option.some.injEq] at hdue
    simp [movesOf, stage, Poller.wakes, hdue, hle] at hstuck
  | _ => simp [dueOf?, stage] at hdue

/-- Whoever is in line in a system at rest waits for a poll that takes time. -/
theorem AtRest.blocked_of_queued (h : s.AtRest) (hs : s.Reachable) (hm : s.member? name = some m)
    (hl : l ∈ m.poller.loops) (stage : l.stage = .queued) : s.Blocked m l := by
  have hmem : (⟨m.lock, name, l.id⟩ : Ticket) ∈ s.tickets :=
    hs.inOrder.mem_tickets ⟨m, l, hm, hl, by rw [stage]; rfl, rfl, rfl⟩
  cases hholds : s.holder? m.lock with
  | none => simpa using List.find?_eq_none.1 hholds _ hmem
  | some ticket =>
    -- Whoever holds the lock polls, for there is no move left with which to begin.
    rcases hs.inOrder.polls_of_holder? hs hholds with hpolls | ⟨⟨n, k, hn, hk, -, -, hid⟩, t, ht, -⟩
    · obtain ⟨n, k, hn, hk, hpolling, -, hid⟩ := hpolls
      unfold Stage.isPolling at hpolling
      split at hpolling
      · next attempt due polls =>
        exact .lock stage hholds hn hk hid polls
          (h.clock_lt hs hn hk (by simp only [dueOf?, polls]))
      · cases hpolling
    · rw [← hid, loopMoves_eq hs hn hk, h.movesOf_eq_nil hs hn hk] at ht
      cases ht

/-- In a system at rest all tasks wait. -/
theorem AtRest.quiet (h : s.AtRest) (hs : s.Reachable) : s.Quiet where
  loops name m hm l hl hal := by
    rcases h.isWaiting hs hm hl hal with hwaiting | hruns
    · cases stage : l.stage with
      | queued => exact h.blocked_of_queued hs hm hl stage
      | polling _ due | calling _ due | asleep _ due =>
        have hdue : dueOf? l = some due := by simp only [dueOf?, stage]
        exact .clock hdue (h.clock_lt hs hm hl hdue)
      | _ => simp [Stage.isWaiting, stage] at hwaiting
    · exact .unrun hruns
  calls name m hm c hc := h.waitsFor hs hm hc

/-- A call that goes round in circles may do so for ever. -/
theorem Step.of_circles (hs : s.Reachable) {id : String}
    (hcircles : s.circles (.call p id) = true) : s.Step (.call p id) [] s := by
  have hlooks := hcircles
  simp only [circles] at hlooks
  split at hlooks
  · next m hm =>
    obtain ⟨c, hc, hlooks⟩ := (Option.any_eq_true _ _).1 hlooks
    have hready : m.poller.callReady c = true := by
      simp only [Poller.callReady, Poller.yielded_of_circles hlooks]
    obtain ⟨es, t, hstep⟩ := step_of_ready hm hc hready
    obtain ⟨rfl, rfl⟩ := hstep.eq_of_circles hs hcircles
    exact hstep
  · cases hlooks

/-- The steps that all tasks of a system take before time passes, in whatever order, are bounded by
the effort of the system and by the payloads that polls bring, if looks of calls that go round in
circles are not counted; and these change nothing.  As long as a system is not at rest there is a
step that counts, and when it is at rest all tasks wait.  So a system that settles round after
round is at rest after as many rounds, too. -/
theorem settling_ends (hs : s.Reachable) :
    (∀ steps moves tr t, s.Works steps moves tr t →
      moves + t.effort ≤ s.effort + 9 * tr.countP Incident.isPayloadPoll ∧
      (∀ task es u, t.Step task es u → t.circles task = true → es = [] ∧ u = t) ∧
      (t.AtRest ∨ ∃ task es u, t.Step task es u ∧ t.circles task = false) ∧
      (t.AtRest → t.Quiet)) ∧
    ∀ n, ∃ steps moves tr, s.Works steps moves tr (settleWithin n s) ∧
      ((settleWithin n s).AtRest ∨ n ≤ s.effort + 9 * tr.countP Incident.isPayloadPoll) := by
  refine ⟨fun steps moves tr t hworks => ?_, fun n => ?_⟩
  · have ht := hs.run hworks.run
    refine ⟨hworks.effort_le hs, fun task es u hstep => hstep.eq_of_circles ht, ?_, fun hrest =>
      hrest.quiet ht⟩
    by_cases hrest : t.AtRest
    · exact .inl hrest
    · rw [atRest_iff ht] at hrest
      simp only [not_forall] at hrest
      obtain ⟨task, es, u, hstep, hcounts⟩ := hrest
      exact .inr ⟨task, es, u, hstep, Bool.eq_false_iff.2 hcounts⟩
  · obtain ⟨steps, moves, tr, hworks, hrest⟩ := works_settleWithin hs n
    have hle := hworks.effort_le hs
    exact ⟨steps, moves, tr, hworks, hrest.imp_right fun h => by omega⟩

/-- Two waits find the loop of a waiter that has gone in the middle of a poll. -/
def overlappingWaits : List (Impulse Nat) :=
  let pacing : Pacing := { growth := .linear .zero }
  [.build "a" "a" pacing ⟨[], { latency := 20, outcome := .payload 7 }⟩ (.own "a") none,
    .cue "a" (.call ⟨"w", true, .entering⟩), .cue "a" (.resume "w" true),
    .turn "a" 1 0, .turn "a" 1 0, .turn "a" 1 0, .cue "a" (.drop "w"),
    .cue "a" (.call ⟨"u", true, .entering⟩), .cue "a" (.call ⟨"v", true, .entering⟩)]

theorem settling_ends_overlapping : ∃ s t : System Nat, s.Reachable ∧ ¬ s.AtRest ∧
    t = settleWithin 3 s ∧ t.AtRest ∧ t.Quiet ∧ t.circles (.call "a" "v") = true ∧
      t.isSettled = false ∧ ∃ steps moves tr, s.Works steps moves tr t ∧
        moves + t.effort ≤ 46 + 9 * tr.countP Incident.isPayloadPoll := by
  have hs := reachable_after overlappingWaits
  obtain ⟨hsteps, hrounds⟩ := settling_ends hs
  obtain ⟨steps, moves, tr, hworks, -⟩ := hrounds 3
  obtain ⟨hbound, -, -, hquiet⟩ := hsteps _ _ _ _ hworks
  have hunsettled : ¬ (after overlappingWaits).AtRest := by decide
  have heffort : (after overlappingWaits).effort = 46 := rfl
  have hrest : (settleWithin 3 (after overlappingWaits)).AtRest := rfl
  have hlooks : (settleWithin 3 (after overlappingWaits)).circles (.call "a" "v") = true := rfl
  have hspins : (settleWithin 3 (after overlappingWaits)).isSettled = false := rfl
  rw [heffort] at hbound
  exact ⟨_, _, hs, hunsettled, rfl, hrest, hquiet hrest, hlooks, hspins, steps, moves, tr, hworks,
    hbound⟩

/-- A wait is dropped while it replaces the loop of a waiter that has gone, whose task is discarded
then. -/
def droppedReplacement : List (Impulse Nat) :=
  let pacing : Pacing := { growth := .linear .zero }
  [.build "a" "a" pacing ⟨[], { outcome := .payload 7 }⟩ (.own "a") none,
    .cue "a" (.call ⟨"w", false, .entering⟩), .cue "a" (.resume "w" true), .cue "a" (.drop "w"),
    .cue "a" (.call ⟨"v", true, .entering⟩), .cue "a" (.resume "v" true), .cue "a" (.drop "v"),
    .cue "a" (.discard 1), .cue "a" (.call ⟨"u", true, .entering⟩), .cue "a" (.resume "u" true)]

/-- Without time passing and without a payload the steps of a wait may never come to an end. -/
theorem steps_without_end : ¬ ∀ f : Nat → System Nat, (f 0).Reachable →
    ¬ ∀ i, ∃ task es, (f i).Step task es (f (i + 1)) ∧ es.countP Incident.isPayloadPoll = 0 := by
  intro h
  have hs := reachable_after droppedReplacement
  exact h (fun _ => after droppedReplacement) hs fun _ =>
    ⟨.call "a" "u", [], .of_circles hs rfl, rfl⟩

end System

end Polling
