import Polling.Proofs.Tasks
import Polling.Session

/-!
# Every session is a run of its system

Whatever is asked of a session, step after step, comes to impulses of its system, one after the
other, so the system of every session is reachable (`Session.Course.system_reachable`), and with it
each of its pollers (`Session.Course.reachable`).  So all that is shown of the runs of a system or
of a poller holds in every session.  The invariant is `Session.Tracks`: a session knows every name
that its pollers use, and it gives out none of them again.
-/

namespace Polling

variable {α : Type}

/-- One computation after the other succeeds if each of them does. -/
theorem bind_eq_ok {ε β γ : Type} {x : Except ε β} {f : β → Except ε γ} {c : γ} :
    (x >>= f) = .ok c ↔ ∃ b, x = .ok b ∧ f b = .ok c := by
  cases x <;> simp [bind, Except.bind]

/-- Different subscriptions have different identities. -/
theorem generatedIdentity_inj {s t : String} (h : generatedIdentity s = generatedIdentity t) :
    s = t := by
  simpa [generatedIdentity] using h

/-- A subscription that may come about under a new name. -/
theorem Poller.perform?_subscribe {p : Poller α} {subscription : String}
    (fresh : ∀ l ∈ p.loops, l.consumer ≠ .subscriber subscription) (runtime : Bool)
    (script : Script (Handling α)) (runs : Bool) (releasePanic : Option String) :
    p.perform? [.subscribe runtime subscription script runs releasePanic] =
      some (subscribing subscription (p.subscribe runtime subscription script runs releasePanic).2,
        (p.subscribe runtime subscription script runs releasePanic).1) := by
  have hact : p.act? (.subscribe runtime subscription script runs releasePanic) = some _ :=
    if_pos (by simpa using fresh)
  simp [perform?, hact]

namespace System

variable {s : System α}

theorem leads_dropCall (unique : s.members.names.Nodup) (p id : String) :
    s.Leads (s.update p fun q => q.dropCall id) := by
  refine leads_update unique fun m _ => ?_
  cases hc : m.poller.call? id with
  | some c =>
    obtain ⟨-, rfl⟩ := Poller.call?_eq_some hc
    exact ⟨[.drop c.id], [.dropped c.id c.unread], by simp,
      by simp [Poller.perform?, Poller.act?, hc], by simp [Occurrence.newcomer?]⟩
  | none =>
    -- A call that is not pending leaves nothing to drop.
    have hcalls : (m.poller.calls.filter fun c => c.id ≠ id) = m.poller.calls :=
      List.filter_eq_self.2 fun c hc' => by simpa using Poller.call?_eq_none.1 hc c hc'
    have hdrop : m.poller.dropCall id = m.poller := by simp only [Poller.dropCall, hcalls]
    exact ⟨[], [], by simp, by rw [hdrop]; rfl, by simp⟩

/-- A task that never gets to run may be discarded at any time. -/
theorem leads_discardUnrun (s : System α) (task : Task) : s.Leads (s.discardUnrun task) := by
  cases task with
  | call => exact .refl s
  | loop p i =>
    unfold discardUnrun
    dsimp only
    split
    · next m hm =>
      split
      · next l hl =>
        split
        · next hunrun =>
          have waits : l.stage.awaits = true := (Bool.and_eq_true_iff.1 hunrun).2
          have hresponds : s.respond? (.cue p (.discard i)) =
              some ([.befell p (.discarded i l.stage.payloads)], s.discard p m i) := by
            simp [respond?, hm, Poller.act?, hl, waits]
          exact .of_respond? hresponds (by simp [Incident.newcomer?, Occurrence.newcomer?])
        · exact .refl s
      · exact .refl s
    · exact .refl s

theorem leads_foldl_discardUnrun (tasks : List Task) (s : System α) :
    s.Leads (tasks.foldl discardUnrun s) := by
  induction tasks generalizing s with
  | nil => exact .refl s
  | cons task tasks ih => exact (leads_discardUnrun s task).trans (ih (s.discardUnrun task))

end System

namespace Session

/-- Whether a session has given out the name of a consumer. -/
def Names (s : Session α) : Consumer → Prop
  | .waiter id => (s.calls.find? id).isSome
  | .subscriber identity =>
    ∃ subscription ∈ s.subscriptions, generatedIdentity subscription = identity

/-- What holds of a session at any moment. -/
structure Tracks (s : Session α) : Prop where
  reachable : s.system.Reachable
  names : ∀ p m k, s.system.member? p = some m → m.poller.Uses k → s.Names k

/-- Whether one session comes from another by impulses that bring only names which it knows. -/
def Leads (s t : Session α) : Prop :=
  ∃ tr, s.system.Run tr t.system ∧ (∀ k, s.Names k → t.Names k) ∧
    ∀ e ∈ tr, ∀ k, e.newcomer? = some k → t.Names k

variable {s t u : Session α} {m : Member α}

theorem Leads.refl (s : Session α) : s.Leads s := ⟨[], .nil, fun _ hk => hk, by simp⟩

theorem Leads.trans (h : s.Leads t) (h' : t.Leads u) : s.Leads u := by
  obtain ⟨tr, hrun, old, new⟩ := h
  obtain ⟨ts, hrun', old', new'⟩ := h'
  refine ⟨tr ++ ts, hrun.append hrun', fun k hk => old' k (old k hk), fun e he k hk => ?_⟩
  rcases List.mem_append.1 he with he | he
  · exact old' k (new e he k hk)
  · exact new' e he k hk

/-- What a system does by itself brings no name. -/
theorem Leads.of_system {v : System α} (h : s.system.Leads v) :
    s.Leads { s with system := v } := by
  obtain ⟨tr, hrun, hold⟩ := h
  refine ⟨tr, hrun, fun _ hk => hk, fun e he k hk => ?_⟩
  rw [hold e he] at hk
  cases hk

/-- A session tracks its pollers from one moment to the next. -/
theorem Tracks.leads (h : s.Tracks) (hleads : s.Leads t) : t.Tracks := by
  obtain ⟨tr, hrun, old, new⟩ := hleads
  refine ⟨h.reachable.run hrun, fun p n k hn hk => ?_⟩
  rcases hrun.uses h.reachable hn hk with ⟨m, hm, hk⟩ | ⟨e, he, hnew⟩
  · exact old k (h.names p m k hm hk)
  · exact new e he k hnew

theorem member_eq_ok {name : String} (h : s.member name = .ok m) :
    s.system.member? name = some m := by
  unfold member at h
  split at h
  · next hm =>
    split at h
    · cases h
    · cases h
      exact hm
  · cases h

theorem leads_build {name : String} {plan : Plan α} {r : Reply}
    (ht : s.build name plan = .ok (t, r)) : s.Leads t := by
  simp only [Session.build, bind, Except.bind, throw, throwThe, MonadExceptOf.throw, pure,
    Except.pure] at ht
  split at ht
  · cases ht
  · next hnew =>
    split at ht
    · cases ht
    · next lock hlock =>
      cases hbuild : Poller.build (plan.name.getD generatedName) plan.pacing (α := α) with
      | error e =>
        rw [hbuild] at ht
        cases ht
        exact .refl s
      | ok poller =>
        rw [hbuild] at ht
        cases ht
        let m : Member α := ⟨poller, plan.source, lock, plan.signal, false⟩
        have hresponds : s.system.respond? (.build name (plan.name.getD generatedName) plan.pacing
            plan.source lock plan.signal) =
            some ([], { s.system with members := s.system.members.insert name m }) := by
          simp [System.respond?, hbuild, Option.not_isSome_iff_eq_none.1 hnew, m]
        exact .of_system (.of_respond? hresponds (by simp))

/-- A loop for a subscription would have made the session know its name. -/
theorem Tracks.fresh (h : s.Tracks) {name subscription : String}
    (hm : s.system.member? name = some m) (hnew : subscription ∉ s.subscriptions) :
    ∀ l ∈ m.poller.loops, l.consumer ≠ .subscriber (generatedIdentity subscription) := by
  intro l hl hcons
  obtain ⟨u, hu, hid⟩ := h.names name m _ hm (.inl ⟨l, hl, hcons⟩)
  exact hnew (generatedIdentity_inj hid ▸ hu)

theorem Tracks.leads_subscribe (h : s.Tracks) {name subscription : String}
    {script runs releasePanic} {r : Reply}
    (ht : s.subscribe name subscription script runs releasePanic = .ok (t, r)) : s.Leads t := by
  simp only [Session.subscribe, bind, Except.bind, throw, throwThe, MonadExceptOf.throw, pure,
    Except.pure] at ht
  split at ht
  · cases ht
  · next m hm =>
    have hmem := member_eq_ok hm
    split at ht
    · cases ht
    · next hnew =>
      have hperform := Poller.perform?_subscribe (h.fresh hmem hnew) s.system.runtime script runs
        (releasePanic.map Panic.message)
      have hrun := System.run_update h.reachable.unique hmem _ (by simp) hperform
      split at ht
      · next hok =>
        cases ht
        refine ⟨_, hrun, fun k hk => ?_, fun e he k hk => ?_⟩
        · cases k with
          | waiter id => exact hk
          | subscriber identity =>
            obtain ⟨u, hu, hid⟩ := hk
            exact ⟨u, List.mem_cons_of_mem _ hu, hid⟩
        · rw [hok] at he
          obtain rfl := List.mem_singleton.1 he
          obtain rfl := Option.some.inj hk
          exact ⟨subscription, List.mem_cons_self, rfl⟩
      · next e herror =>
        cases ht
        refine ⟨_, hrun, fun _ hk => hk, fun e he k hk => ?_⟩
        rw [herror] at he
        obtain rfl := List.mem_singleton.1 he
        cases hk

theorem Tracks.leads_call (h : s.Tracks) {name : String} {c : Call α}
    (first : c.stage.isFirst = true) {r : Reply} (ht : s.call name c = .ok (t, r)) :
    s.Leads t := by
  simp only [Session.call, bind, Except.bind, throw, throwThe, MonadExceptOf.throw, pure,
    Except.pure] at ht
  split at ht
  · cases ht
  · next m hm =>
    have hmem := member_eq_ok hm
    split at ht
    · cases ht
    · next hnew =>
      cases ht
      have hcalls : ∀ d ∈ m.poller.calls, d.id ≠ c.id := fun d hd hid =>
        hnew (h.names name m (.waiter c.id) hmem (.inr ⟨d, hd, by rw [hid]⟩))
      have hloops : ∀ l ∈ m.poller.loops, l.consumer ≠ .waiter c.id := fun l hl hcons =>
        hnew (h.names name m _ hmem (.inl ⟨l, hl, hcons⟩))
      obtain ⟨k, os, hrest, hold⟩ := Poller.exists_perform_runCall s.system.runtime c.id
        Poller.callMoves { m.poller with calls := m.poller.calls ++ [c] }
      have hperform : m.poller.perform? (.call c :: .replicate k (.resume c.id s.system.runtime)) =
          some (.called c.id c.stage :: os, (m.poller.beginCall s.system.runtime c).1) := by
        have hact : m.poller.act? (.call c) = some ([.called c.id c.stage],
            { m.poller with calls := m.poller.calls ++ [c] }) := by
          simpa [Poller.act?, first] using ⟨hcalls, hloops⟩
        simp [Poller.perform?, hact, hrest, Poller.beginCall]
      have hrun := System.run_withCall (f := fun q => q.beginCall s.system.runtime c)
        h.reachable.unique hmem c.id _ (by simp) hperform
      refine ⟨_, hrun, fun k hk => ?_, fun e he k hk => ?_⟩
      · cases k with
        | waiter id =>
          simp only [Names, Table.find?_insert] at hk ⊢
          split
          · rfl
          · exact hk
        | subscriber identity => exact hk
      · rcases List.mem_cons.1 he with rfl | he
        · obtain rfl := Option.some.inj hk
          simp [Names, Table.find?_insert]
        · obtain ⟨o, ho, rfl⟩ := List.mem_map.1 he
          cases (hold o ho).symm.trans hk

/-- Whatever is asked of a session comes to impulses. -/
theorem Tracks.leads_perform (h : s.Tracks) {c : Command α} {r : Reply}
    (ht : s.perform c = .ok (t, r)) : s.Leads t := by
  -- Most commands are about one poller, and are refused if nobody has hold of it.
  have hmember : ∀ {name : String} {f : Member α → Session α × Reply},
      (s.member name).map f = .ok (t, r) → (∀ m, s.Leads (f m).1) → s.Leads t := by
    intro name f ht hf
    cases hm : s.member name with
    | error e =>
      rw [hm] at ht
      cases ht
    | ok m =>
      rw [hm] at ht
      obtain rfl : (f m).1 = t := congrArg Prod.fst (Except.ok.inj ht)
      exact hf m
  have hact : ∀ a, s.Leads (s.act a) := fun a => .of_system (System.leads_act s.system a)
  cases c with
  | build => exact leads_build ht
  | subscribe => exact h.leads_subscribe ht
  | wait | shutdown => exact h.leads_call rfl ht
  | unsubscribe =>
    simp only [Session.perform] at ht
    split at ht
    · exact h.leads_call rfl ht
    · cases ht
  | cancel id =>
    obtain rfl := congrArg Prod.fst (Except.ok.inj ht)
    unfold Session.cancel
    split
    · exact .of_system (System.leads_dropCall h.reachable.unique _ id)
    · exact .refl s
  | stop name => exact hmember ht fun _ => hact (.stop name)
  | raise name =>
    obtain rfl := congrArg Prod.fst (Except.ok.inj ht)
    exact hact (.raise name)
  | lower name =>
    obtain rfl := congrArg Prod.fst (Except.ok.inj ht)
    exact hact (.lower name)
  | isRaised =>
    obtain rfl := congrArg Prod.fst (Except.ok.inj ht)
    exact .refl s
  | push q xs =>
    obtain rfl := congrArg Prod.fst (Except.ok.inj ht)
    exact hact (.push q xs)
  | drop name =>
    exact hmember ht fun _ => .of_system (.of_respond? (x := .drop name) rfl (by simp))
  | gauges | pacing | describe => exact hmember ht fun _ => .refl s
  | sharesLock p q =>
    obtain ⟨m, -, ht⟩ := bind_eq_ok.1 ht
    obtain ⟨n, -, ht⟩ := bind_eq_ok.1 ht
    cases ht
    exact .refl s

theorem Tracks.leads_performAll (h : s.Tracks) {cs : List (Command α)} {rs}
    (ht : s.performAll cs = .ok (t, rs)) : s.Leads t := by
  induction cs generalizing s rs with
  | nil =>
    cases ht
    exact .refl _
  | cons c cs ih =>
    obtain ⟨⟨u, r⟩, hu, ht⟩ := bind_eq_ok.1 ht
    obtain ⟨⟨v, rs'⟩, hv, ht⟩ := bind_eq_ok.1 ht
    cases ht
    have hleads := h.leads_perform hu
    exact hleads.trans (ih (h.leads hleads) hv)

theorem Tracks.leads_begin (h : s.Tracks) {st : Step α} {r : StepReply}
    (ht : s.begin st = .ok (t, r)) : s.Leads t := by
  cases st with
  | command c =>
    obtain ⟨⟨u, r'⟩, hu, ht⟩ := bind_eq_ok.1 ht
    cases ht
    exact h.leads_perform hu
  | batch cs =>
    obtain ⟨⟨u, rs⟩, hu, ht⟩ := bind_eq_ok.1 ht
    cases ht
    exact h.leads_performAll hu
  | advance ms =>
    cases ht
    refine .of_system ?_
    split
    · exact System.leads_advance h.reachable ms
    · exact .refl s.system
  | interrupt names =>
    cases ht
    exact .of_system (System.leads_acts s.system _)
  | discard =>
    cases ht
    exact .of_system (System.leads_foldl_discardUnrun s.system.tasks s.system)

/-- A step comes to impulses, and so does the settling after it. -/
theorem Tracks.leads_step (h : s.Tracks) {st : Step α} {r : Report α}
    (ht : s.step st = .ok (t, r)) : s.Leads t := by
  obtain ⟨⟨u, reply⟩, hu, ht⟩ := bind_eq_ok.1 ht
  cases ht
  have hbegin := h.leads_begin hu
  have hsettle := System.atOnce_settle (h.leads hbegin).reachable
  exact hbegin.trans (.of_system (hsettle.leads.trans (System.leads_note _ [])))

/-- A session that has come about by any number of steps. -/
inductive Course : Session α → Prop
  | start (runtime : Bool) : Course (start runtime)
  | step {s t : Session α} {st : Step α} {r : Report α} (course : Course s)
      (next : s.step st = .ok (t, r)) : Course t

theorem Course.tracks (h : s.Course) : s.Tracks := by
  induction h with
  | start runtime =>
    refine ⟨⟨runtime, [], .nil⟩, fun p m k hm _ => ?_⟩
    cases hm
  | step _ next ih => exact ih.leads (ih.leads_step next)

/-- The system of every session has come about by impulses. -/
theorem Course.system_reachable (h : s.Course) : s.system.Reachable := h.tracks.reachable

/-- Every poller of every session has come about by moves since it was built. -/
theorem Course.reachable (h : s.Course) {name : String} (hm : s.system.member? name = some m) :
    m.poller.Reachable := h.system_reachable.poller hm

end Session

end Polling
