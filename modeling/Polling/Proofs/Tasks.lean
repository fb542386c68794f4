import Polling.Proofs.Impulses
import Polling.Proofs.Names

/-!
# What a system does by itself

All that a system does by itself is impulses that bring no new name (`System.Leads`).  The turn of
a task takes no time (`atOnce_run`), and neither does settling (`atOnce_settle`); time passes from
one due time to the next (`leads_advance`).
-/

namespace Polling

variable {α : Type}

/-- The consumer whose name comes into use. -/
def Incident.newcomer? : Incident α → Option Consumer
  | befell _ o => o.newcomer?
  | _ => none

theorem newcomer?_of_mem_turnOf {p : String} {i : Nat} {as : List (Act α)}
    {os : List (Occurrence α)} (old : ∀ o ∈ os, o.newcomer? = none) {e : Incident α}
    (he : e ∈ turnOf p i as os) : e.newcomer? = none := by
  rcases List.mem_append.1 he with he | he
  · rcases List.mem_cons.1 he with rfl | he
    · rfl
    · obtain ⟨a, -, he⟩ := List.mem_flatMap.1 he
      cases a <;> simp_all [Act.incidents, Incident.newcomer?]
  · obtain ⟨o, ho, rfl⟩ := List.mem_map.1 he
    exact old o ho

namespace Poller

variable {p q : Poller α} {l : Loop α} {c : Call α}

theorem newcomer?_of_mem_failing {f : Failure} {o : Occurrence α} (ho : o ∈ p.failing l f) :
    o.newcomer? = none := by
  obtain ⟨g, rfl⟩ | ⟨listener, rfl⟩ := mem_failing ho <;> rfl

theorem newcomer?_of_mem_noticing {o : Occurrence α} (ho : o ∈ p.noticing c) :
    o.newcomer? = none := by
  obtain ⟨f, rfl⟩ | ⟨f, rfl⟩ := mem_noticing ho <;> rfl

/-- Something is told of a loop and then, it may be, of its failure. -/
theorem newcomer?_of_told {o o' : Occurrence α} {es : List (Occurrence α)}
    (ho : o ∈ o' :: es) (first : o'.newcomer? = none)
    (rest : es = [] ∨ ∃ f, es = p.failing l f) : o.newcomer? = none := by
  rcases List.mem_cons.1 ho with rfl | ho
  · exact first
  · rcases rest with rfl | ⟨f, rfl⟩
    · cases ho
    · exact newcomer?_of_mem_failing ho

theorem LoopMove.newcomer? {es} (hmove : p.LoopMove l es q) : ∀ o ∈ es, o.newcomer? = none := by
  intro o ho
  cases hmove with
  | beginsPoll => exact newcomer?_of_told (p := p) (l := l) ho rfl (.inl rfl)
  | @endsPoll _ _ r =>
    cases r with
    | ok x => exact newcomer?_of_told (p := p) (l := l) ho rfl (.inl rfl)
    | error f => exact newcomer?_of_told ho rfl (.inr ⟨f, rfl⟩)
  | beginsCallback =>
    refine newcomer?_of_told (p := p) (l := l) ho rfl ?_
    split
    · exact .inr ⟨_, rfl⟩
    · exact .inl rfl
  | endsCallback =>
    refine newcomer?_of_told (p := p) (l := l) ho rfl ?_
    split
    · exact .inl rfl
    · exact .inr ⟨_, rfl⟩
    · exact .inr ⟨_, rfl⟩
    · exact .inr ⟨_, rfl⟩
  | _ => cases ho

/-- A call that runs as far as it gets makes one move after the other. -/
theorem exists_perform_runCall (runtime : Bool) (id : String) (n : Nat) (p : Poller α) :
    ∃ k os, p.perform? (List.replicate k (.resume id runtime)) =
      some (os, (runCall runtime id n p).1) ∧ ∀ o ∈ os, o.newcomer? = none := by
  have hstop : ∀ p : Poller α, ∃ k os, p.perform? (List.replicate k (.resume id runtime)) =
      some (os, p) ∧ ∀ o ∈ os, o.newcomer? = none := fun p => ⟨0, [], rfl, by simp⟩
  induction n generalizing p with
  | zero => exact hstop p
  | succ n ih =>
    unfold runCall
    split
    · exact hstop p
    · next c hc =>
      obtain ⟨-, rfl⟩ := call?_eq_some hc
      have hnoticing : ∀ o ∈ p.noticing c, o.newcomer? = none := fun _ => newcomer?_of_mem_noticing
      split
      · next ready =>
        split
        · next q r goes =>
          refine ⟨1, p.noticing c ++ [c.returning r], ?_, fun o ho => ?_⟩
          · simp [perform?, act?, hc, callAct?, ready, goes]
          · rcases List.mem_append.1 ho with ho | ho
            · exact hnoticing o ho
            · obtain rfl := List.mem_singleton.1 ho
              rcases c.returning_eq r with hr | hr <;> rw [hr] <;> rfl
        · next q goes =>
          refine ⟨1, p.noticing c, ?_, hnoticing⟩
          simp [perform?, act?, hc, callAct?, ready, goes]
        · next q stage _ goes =>
          obtain ⟨k, os, hperform, hold⟩ := ih (q.setCallStage c.id stage)
          refine ⟨k + 1, p.noticing c ++ os, ?_, fun o ho => ?_⟩
          · simp [List.replicate_succ, perform?, act?, hc, callAct?, ready, goes, hperform]
          · exact (List.mem_append.1 ho).elim (hnoticing o) (hold o)
      · exact hstop p

end Poller

namespace System

variable {s t u : System α} {p name : String} {m n : Member α} {l : Loop α}
  {tr es : List (Incident α)}

/-- A name comes into use in a run only when it is told. -/
theorem Run.uses (hs : s.Reachable) (hrun : s.Run tr t) (hn : t.member? name = some n)
    {k : Consumer} (hk : n.poller.Uses k) :
    (∃ m, s.member? name = some m ∧ m.poller.Uses k) ∨ ∃ e ∈ tr, e.newcomer? = some k := by
  induction hrun generalizing n with
  | nil => exact .inl ⟨n, hn, hk⟩
  | @snoc t u tr es x hrun hresponds ih =>
    rcases (response_of_respond? hresponds).known hn with ⟨m, hm⟩ | ⟨identity, pacing, hidle⟩
    · obtain ⟨n', hn', hpoller⟩ := (Run.single hresponds).poller hm
      obtain rfl := Option.some.inj (hn.symm.trans hn')
      rcases hpoller.uses ((hs.run hrun).poller hm).sound hk with hk | ⟨o, ho, hnew⟩
      · exact (ih hm hk).imp_right fun ⟨e, he, hnew⟩ => ⟨e, List.mem_append_left _ he, hnew⟩
      · obtain ⟨e, he, hof⟩ := List.mem_filterMap.1 ho
        refine .inr ⟨e, List.mem_append_right _ he, ?_⟩
        cases e with
        | befell q o' =>
          simp only [Incident.of?] at hof
          split at hof
          · cases hof
            exact hnew
          · cases hof
        | _ => cases hof
    · rw [hidle] at hk
      exact absurd hk (Poller.uses_idle identity pacing)

/-- Whether one system comes from another by impulses that bring no new name. -/
def Leads (s t : System α) : Prop := ∃ tr, s.Run tr t ∧ ∀ e ∈ tr, e.newcomer? = none

theorem Leads.refl (s : System α) : s.Leads s := ⟨[], .nil, by simp⟩

theorem Leads.trans (h : s.Leads t) (h' : t.Leads u) : s.Leads u := by
  obtain ⟨tr, hrun, hold⟩ := h
  obtain ⟨ts, hrun', hold'⟩ := h'
  exact ⟨tr ++ ts, hrun.append hrun', fun e he =>
    (List.mem_append.1 he).elim (hold e) (hold' e)⟩

theorem Leads.reachable (h : s.Leads t) (hs : s.Reachable) : t.Reachable := by
  obtain ⟨tr, hrun, -⟩ := h
  exact hs.run hrun

theorem Leads.of_respond? {x : Impulse α} (h : s.respond? x = some (es, t))
    (old : ∀ e ∈ es, e.newcomer? = none) : s.Leads t := ⟨es, .single h, old⟩

/-- Whether one system comes from another without time passing, by impulses that bring no new
name. -/
structure AtOnce (s t : System α) : Prop where
  leads : s.Leads t
  clock : t.clock = s.clock

theorem AtOnce.refl (s : System α) : s.AtOnce s := ⟨.refl s, rfl⟩

theorem AtOnce.trans (h : s.AtOnce t) (h' : t.AtOnce u) : s.AtOnce u :=
  ⟨h.leads.trans h'.leads, h'.clock.trans h.clock⟩

theorem leads_act (s : System α) (a : Act α) : s.Leads (s.act a) :=
  .of_respond? (x := .act a) rfl (by cases a <;> simp [Act.incidents, Incident.newcomer?])

theorem leads_acts (s : System α) (as : List (Act α)) : s.Leads (s.acts as) := by
  induction as generalizing s with
  | nil => exact .refl s
  | cons a as ih => exact (leads_act s a).trans (ih (s.act a))

/-- Nothing ever reads the record of events. -/
theorem leads_note (s : System α) (events : List (Event α)) : s.Leads { s with events } :=
  .of_respond? (x := .note events) rfl (by simp)

theorem leads_pass {now : Nat} (h : s.clock ≤ now) : s.Leads { s with clock := now } := by
  have hpass : s.respond? (.pass (now - s.clock)) = some ([], { s with clock := now }) := by
    simp only [respond?, Nat.add_sub_of_le h]
  exact .of_respond? hpass (by simp)

/-- One move of a loop. -/
theorem atOnce_loopMoves {i : Nat} (ht : t ∈ s.loopMoves p i) : s.AtOnce t := by
  unfold loopMoves at ht
  split at ht
  · next m hm =>
    split at ht
    · next l hl =>
      obtain ⟨as, os, own, g, hturn⟩ := exists_turn hm ht
      obtain ⟨choice, hchoice⟩ := List.getElem?_of_mem ht
      have hresponds : s.respond? (.turn p i choice) = some (s.incidents p m l, t) := by
        simp [respond?, hm, hl, hchoice]
      refine ⟨.of_respond? hresponds fun e he => ?_, hturn.clock⟩
      obtain ⟨n, hn⟩ : ∃ n, (s.acts as).member? p = some n :=
        (member?_acts as hm).elim (fun h => ⟨_, h⟩) fun h => ⟨_, h⟩
      rw [hturn.told] at he
      exact newcomer?_of_mem_turnOf (Poller.loopMove_of_loopAct? (hturn.moves n hn)).newcomer? he
    · cases ht
  · cases ht

theorem atOnce_runLoop (p : String) (i n : Nat) (s : System α) : s.AtOnce (runLoop p i n s) := by
  induction n generalizing s with
  | zero => exact .refl s
  | succ n ih =>
    unfold runLoop
    split
    · exact .refl s
    · next t ts hmoves =>
      have ht : s.AtOnce t := atOnce_loopMoves (hmoves ▸ List.mem_cons_self)
      split
      · exact ht
      · exact ht.trans (ih t)

theorem update_update (s : System α) (p : String) (q r : Poller α) :
    (s.update p fun _ => q).update p (fun _ => r) = s.update p fun _ => r := by
  simp only [update, Table.modify_modify]

/-- A poller that is changed into itself. -/
theorem update_eq_self (unique : s.members.names.Nodup) {f : Poller α → Poller α}
    (hf : ∀ m, s.member? p = some m → f m.poller = m.poller) : s.update p f = s := by
  have hsame : s.members.modify p (fun m => { m with poller := f m.poller }) =
      s.members.modify p id := Table.modify_congr unique fun m hm => by rw [hf m hm]; rfl
  have hid : s.members.modify p id = s.members := by simp [Table.modify]
  simp only [update, hsame, hid]

theorem update_self (unique : s.members.names.Nodup) (hm : s.member? p = some m) :
    (s.update p fun _ => m.poller) = s :=
  update_eq_self unique fun n hn => by rw [Option.some.inj (hm.symm.trans hn)]

/-- Only what becomes of the poller that is there matters for a change. -/
theorem update_congr (unique : s.members.names.Nodup) {f g : Poller α → Poller α}
    (h : ∀ m, s.member? p = some m → f m.poller = g m.poller) : s.update p f = s.update p g := by
  simp only [update]
  rw [Table.modify_congr unique fun m hm => by rw [h m hm]]

/-- What a poller performs on cues that are not about the task of a loop are impulses. -/
theorem run_update (unique : s.members.names.Nodup) (hm : s.member? p = some m)
    (cues : List (Cue α))
    (other : ∀ cue ∈ cues, (∀ i own, cue ≠ .loop i own) ∧ ∀ i, cue ≠ .discard i)
    {os : List (Occurrence α)} {q : Poller α} (h : m.poller.perform? cues = some (os, q)) :
    s.Run (os.map (.befell p)) (s.update p fun _ => q) := by
  induction cues generalizing s m os with
  | nil =>
    cases h
    rw [update_self unique hm]
    exact .nil
  | cons cue cues ih =>
    obtain ⟨⟨es, r⟩, hact, hrest⟩ := Option.bind_eq_some_iff.1 h
    obtain ⟨⟨ts, r'⟩, hperform, hpair⟩ := Option.map_eq_some_iff.1 hrest
    cases hpair
    have hresponds : s.respond? (.cue p cue) =
        some (es.map (.befell p), s.update p fun _ => r) := by
      cases cue with
      | loop i own => exact absurd rfl ((other _ List.mem_cons_self).1 i own)
      | discard i => exact absurd rfl ((other _ List.mem_cons_self).2 i)
      | _ => simp [respond?, hm, hact]
    have hunique : (s.update p fun _ => r).members.names.Nodup := by
      simpa only [update, Table.names_modify] using unique
    have hm' : (s.update p fun _ => r).member? p = some { m with poller := r } := by
      rw [member?_modify (fun m => { m with poller := r }) rfl, if_pos rfl, hm, Option.map_some]
    have hrun := (Run.single hresponds).append (ih hunique hm'
      (fun cue hcue => other cue (List.mem_cons_of_mem _ hcue)) hperform)
    rwa [update_update, ← List.map_append] at hrun

/-- A poller may be changed into what it performs on cues that are not about the task of a loop and
bring no new name. -/
theorem leads_update (unique : s.members.names.Nodup) {f : Poller α → Poller α}
    (hf : ∀ m, s.member? p = some m → ∃ cues os,
      (∀ cue ∈ cues, (∀ i own, cue ≠ .loop i own) ∧ ∀ i, cue ≠ .discard i) ∧
      m.poller.perform? cues = some (os, f m.poller) ∧ ∀ o ∈ os, o.newcomer? = none) :
    s.Leads (s.update p f) := by
  cases hm : s.member? p with
  | some m =>
    obtain ⟨cues, os, other, hperform, hold⟩ := hf m hm
    have hsame : s.update p f = s.update p fun _ => f m.poller :=
      update_congr unique fun m' hm' => by rw [Option.some.inj (hm.symm.trans hm')]
    rw [hsame]
    refine ⟨_, run_update unique hm cues other hperform, fun e he => ?_⟩
    obtain ⟨o, ho, rfl⟩ := List.mem_map.1 he
    exact hold o ho
  | none =>
    rw [update_eq_self unique fun m hm' => by rw [hm] at hm'; cases hm']
    exact .refl s

/-- What a call comes to, if its poller performs that on cue. -/
theorem withCall_eq (id : String) (f : Poller α → Poller α × Option (CallResult α))
    (hm : s.member? p = some m) : ∃ events,
      s.withCall p id f = { s.update p fun _ => (f m.poller).1 with events } := by
  simp only [withCall, hm]
  cases (f m.poller).2 with
  | some r => exact ⟨_, rfl⟩
  | none => exact ⟨_, rfl⟩

/-- A call that performs this on cue, and whose return is noted. -/
theorem run_withCall (unique : s.members.names.Nodup) (hm : s.member? p = some m) (id : String)
    {f : Poller α → Poller α × Option (CallResult α)} (cues : List (Cue α))
    (other : ∀ cue ∈ cues, (∀ i own, cue ≠ .loop i own) ∧ ∀ i, cue ≠ .discard i)
    {os : List (Occurrence α)} (h : m.poller.perform? cues = some (os, (f m.poller).1)) :
    s.Run (os.map (.befell p)) (s.withCall p id f) := by
  obtain ⟨events, hcall⟩ := withCall_eq id f hm
  have hnote : (s.update p fun _ => (f m.poller).1).Run [] (s.withCall p id f) := by
    rw [hcall]
    exact .single (x := .note events) rfl
  simpa using (run_update unique hm cues other h).append hnote

theorem atOnce_runCall (hs : s.Reachable) (p id : String) : s.AtOnce (s.runCall p id) := by
  cases hm : s.member? p with
  | some m =>
    obtain ⟨k, os, hperform, hold⟩ :=
      Poller.exists_perform_runCall s.runtime id Poller.callMoves m.poller
    refine ⟨⟨_, run_withCall hs.unique hm id _ (by simp) hperform, fun e he => ?_⟩, ?_⟩
    · obtain ⟨o, ho, rfl⟩ := List.mem_map.1 he
      exact hold o ho
    · obtain ⟨events, hcall⟩ := withCall_eq id (Poller.runCall s.runtime id Poller.callMoves) hm
      rw [runCall, hcall]
      rfl
  | none =>
    have hsame : s.runCall p id = s := by simp only [runCall, withCall, hm]
    rw [hsame]
    exact .refl s

theorem atOnce_run (hs : s.Reachable) (task : Task) : s.AtOnce (s.run task) := by
  cases task with
  | loop p i => exact atOnce_runLoop p i loopMovesPerRun s
  | call p id => exact atOnce_runCall hs p id

theorem atOnce_foldl_run (hs : s.Reachable) (tasks : List Task) :
    s.AtOnce (tasks.foldl run s) := by
  induction tasks generalizing s with
  | nil => exact .refl s
  | cons task tasks ih =>
    have hrun := atOnce_run hs task
    exact hrun.trans (ih (hrun.leads.reachable hs))

theorem atOnce_settleWithin (hs : s.Reachable) (n : Nat) : s.AtOnce (settleWithin n s) := by
  induction n generalizing s with
  | zero => exact .refl s
  | succ n ih =>
    unfold settleWithin
    split
    · have hround := atOnce_foldl_run hs (s.tasks.filter s.canRun)
      exact hround.trans (ih (hround.leads.reachable hs))
    · exact .refl s

/-- A system that settles takes no time for it. -/
theorem atOnce_settle (hs : s.Reachable) : s.AtOnce s.settle := atOnce_settleWithin hs maxRounds

/-- The next due time is yet to come. -/
theorem clock_lt_of_nextDue? {due : Nat} (h : s.nextDue? = some due) : s.clock < due := by
  have hmem := List.min?_mem h
  obtain ⟨⟨p, m⟩, -, hdue⟩ := List.mem_flatMap.1 hmem
  simpa using (List.mem_filter.1 hdue).2

theorem leads_advanceWithin (hs : s.Reachable) {target : Nat} (h : s.clock ≤ target)
    (stops : Nat) : s.Leads (advanceWithin target stops s) := by
  induction stops generalizing s with
  | zero => exact leads_pass h
  | succ n ih =>
    unfold advanceWithin
    split
    · next due hnext =>
      split
      · next hle =>
        have hpass := leads_pass (Nat.le_of_lt (clock_lt_of_nextDue? hnext))
        have hdue := hpass.reachable hs
        have hsettle := atOnce_settle hdue
        have hclock : (settle { s with clock := due }).clock ≤ target := hsettle.clock ▸ hle
        exact (hpass.trans hsettle.leads).trans (ih (hsettle.leads.reachable hdue) hclock)
      · exact leads_pass h
    · exact leads_pass h

theorem leads_advance (hs : s.Reachable) (ms : Nat) : s.Leads (s.advance ms) :=
  leads_advanceWithin hs (Nat.le_add_right _ _) ms

end System

end Polling
