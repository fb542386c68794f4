import Polling.Gauges
import Polling.Pacing.Json
import Polling.Proofs.Objects
import Polling.Proofs.Rhythm

/-! # Reading back what was written

The text of a phase or of gauges is read back as just these (`Phase.ofJson_json`,
`Gauges.ofJson_json`).  The text of a pacing says its durations in whole milliseconds, so it is
read back as the pacing `inMillis`; a multiplier that is no finite number has no text, and then
nothing is read back (`reads_back`). -/

namespace Polling

open Json (Reader EndsMember EndsNumber Value)
open Json.Reader

namespace Json.Reader

variable {α : Type} {rest : List Char}

/-- A text that is read in full. -/
theorem run_text {r : Reader α} {text : List Char} {a : α}
    (h : StateT.run r text = .ok (a, [])) : Reader.run r (String.ofList text) = .ok a := by
  rw [Reader.run, String.toList_ofList, h]
  rfl

theorem run_text_error {r : Reader α} {text : List Char} {e : Json.Error}
    (h : StateT.run r text = .error e) : Reader.run r (String.ofList text) = .error e := by
  rw [Reader.run, String.toList_ofList, h]
  rfl

/-- A value that is no container is read at any depth. -/
theorem value_of_glance {kept : Bool} {cs : List Char} {v : Value}
    (h : StateT.run (glance kept) cs = .ok (v, rest)) (hv : v ≠ .sequence ∧ v ≠ .map)
    (depth : Nat) :
    StateT.run (value kept depth) cs = .ok (v, rest) := by
  cases depth with
  | zero =>
    rw [value, run_bind h]
    cases v <;> first | rfl | simp at hv
  | succ depth =>
    rw [value, run_bind h]
    cases v <;> first | rfl | simp at hv

/-- A field that had no value gets the one that is read after its colon. -/
theorem run_field {σ : Type} {r : Reader α} {field : String} {text : List Char} {a : α}
    {f : α → σ} (h : StateT.run r (text ++ rest) = .ok (a, rest)) :
    StateT.run (do
      once field (none : Option α)
      take ':'
      return f (← r)) (':' :: text ++ rest) = .ok (f a, rest) := by
  rw [List.cons_append, once, pure_bind, run_bind (run_take rfl), run_bind h]
  rfl

theorem run_field_error {σ : Type} {r : Reader α} {field : String} {text : List Char}
    {e : Json.Error} {f : α → σ} (h : StateT.run r (text ++ rest) = .error e) :
    StateT.run (do
      once field (none : Option α)
      take ':'
      return f (← r)) (':' :: text ++ rest) = .error e := by
  rw [List.cons_append, once, pure_bind, run_bind (run_take rfl)]
  exact run_bind_error h _

end Json.Reader

namespace Phase

theorem read_json (p : Phase) (rest : List Char) :
    StateT.run Phase.read (p.json ++ rest) = .ok (p, rest) := by
  have hplain : Plain p.name.toList := by cases p <;> simp [Plain, name]
  have htext : p.json ++ rest = '"' :: (p.name.toList ++ '"' :: rest) := by simp [json]
  rw [htext, read, run_bind (run_peek rfl)]
  show StateT.run readName _ = _
  rw [readName, run_bind (string_text hplain), String.ofList_toList, ofName?_name]
  rfl

theorem ofJson_json (p : Phase) : ofJson (String.ofList p.json) = .ok p :=
  run_text (by simpa using p.read_json [])

end Phase

namespace Gauges

/-- The members of the text of gauges. -/
def memberTexts (g : Gauges) : List (String × List Char) :=
  [("state", g.phase.json), ("empty_polls", Json.natural g.emptyPolls),
    ("payload_polls", Json.natural g.payloadPolls),
    ("current_delay_ms", Json.natural g.delayMillis)]

theorem json_eq (g : Gauges) : g.json = Json.objectText g.memberTexts := by
  unfold json memberTexts Json.objectText
  simp only [Json.membersText]
  simp

/-- Gauges whose counters have sixty-four bits. -/
structure Fits (g : Gauges) : Prop where
  emptyPolls : g.emptyPolls < 2 ^ 64
  payloadPolls : g.payloadPolls < 2 ^ 64
  delayMillis : g.delayMillis < 2 ^ 64

theorem takes_memberTexts {g : Gauges} (h : g.Fits) :
    TakesMembers Draft.member g.memberTexts {}
      ⟨some g.phase, some g.emptyPolls, some g.payloadPolls, some g.delayMillis⟩ := by
  have state : TakesMember Draft.member "state" g.phase.json {} ⟨some g.phase, none, none, none⟩ :=
    ⟨by simp [Plain], fun rest _ => run_field (g.phase.read_json rest)⟩
  have emptyPolls : TakesMember Draft.member "empty_polls" (Json.natural g.emptyPolls)
      ⟨some g.phase, none, none, none⟩ ⟨some g.phase, some g.emptyPolls, none, none⟩ :=
    ⟨by simp [Plain], fun rest hrest => run_field (natural_text h.emptyPolls hrest.endsNumber)⟩
  have payloadPolls : TakesMember Draft.member "payload_polls" (Json.natural g.payloadPolls)
      ⟨some g.phase, some g.emptyPolls, none, none⟩
      ⟨some g.phase, some g.emptyPolls, some g.payloadPolls, none⟩ :=
    ⟨by simp [Plain], fun rest hrest => run_field (natural_text h.payloadPolls hrest.endsNumber)⟩
  have delayMillis : TakesMember Draft.member "current_delay_ms" (Json.natural g.delayMillis)
      ⟨some g.phase, some g.emptyPolls, some g.payloadPolls, none⟩
      ⟨some g.phase, some g.emptyPolls, some g.payloadPolls, some g.delayMillis⟩ :=
    ⟨by simp [Plain], fun rest hrest => run_field (natural_text h.delayMillis hrest.endsNumber)⟩
  exact .cons state (.cons emptyPolls (.cons payloadPolls (.cons delayMillis (.nil _))))

theorem ofJson_json {g : Gauges} (h : g.Fits) : ofJson (String.ofList g.json) = .ok g := by
  refine run_text ?_
  have hobject := object_text (takes_memberTexts h) []
  rw [List.append_nil] at hobject
  rw [json_eq, read, Json.objectText, run_bind glance_map]
  show StateT.run (object true Draft.member {} >>= Draft.finish) _ = _
  rw [← Json.objectText, run_bind hobject]
  rfl

end Gauges

namespace Duration

/-- The duration that the text of a duration says. -/
def inMillis (d : Duration) : Duration := .ofMillis d.millis

/-- Whether a duration is a whole number of milliseconds, and not too many of them. -/
def IsWhole (d : Duration) : Prop := ∃ n ≤ maxMillis, d.nanos = n * nanosPerMilli

theorem millis_le (d : Duration) : d.millis ≤ maxMillis := Nat.min_le_right _ _

theorem millis_lt (d : Duration) : d.millis < 2 ^ 64 := by
  have := d.millis_le
  rw [maxMillis] at this
  omega

theorem nanos_inMillis (d : Duration) :
    d.inMillis.nanos = min (d.nanos / 1000000) (2 ^ 64 - 1) * 1000000 :=
  nanos_ofMillis d.millis_le

theorem millis_inMillis (d : Duration) : d.inMillis.millis = d.millis :=
  millis_ofMillis d.millis_le

/-- Whole milliseconds stay in the order of the durations. -/
theorem inMillis_le {a b : Duration} (h : a ≤ b) : a.inMillis ≤ b.inMillis := by
  rw [le_def] at *
  rw [nanos_inMillis, nanos_inMillis]
  exact Nat.mul_le_mul_right _ (min_le_min_right _ (Nat.div_le_div_right h))

theorem isZero_inMillis (d : Duration) : d.inMillis.isZero = decide (d < .ofMillis 1) := by
  have hone : (ofMillis 1).nanos = 1000000 := rfl
  rw [isZero, nanos_inMillis, Bool.eq_iff_iff, beq_iff_eq, decide_eq_true_eq, lt_def, hone]
  omega

theorem inMillis_eq_iff (d : Duration) : d.inMillis = d ↔ d.IsWhole := by
  constructor
  · intro h
    exact ⟨d.millis, d.millis_le, (congrArg nanos h.symm).trans (nanos_ofMillis d.millis_le)⟩
  · rintro ⟨n, hn, hd⟩
    obtain rfl : d = ofMillis n := ext (hd.trans (nanos_ofMillis hn).symm)
    rw [inMillis, millis_ofMillis hn]

end Duration

namespace Growth

/-- The growth that the text of a growth says. -/
def inMillis : Growth → Growth
  | exponential x => exponential x
  | linear step => linear step.inMillis

/-- The durations of a growth. -/
def durations : Growth → List Duration
  | exponential _ => []
  | linear step => [step]

/-- Whether a growth has a multiplier that is no finite number. -/
def Unwritable : Growth → Prop
  | exponential x => x.isFinite = false
  | linear _ => False

/-- The members of the text of a growth, given the text of its field. -/
def Kind.memberTexts (k : Kind) (text : List Char) : List (String × List Char) :=
  [("kind", '"' :: (k.name.toList ++ ['"'])), (k.field, text)]

/-- The members of the text of a growth. -/
def memberTexts : Growth → List (String × List Char)
  | exponential x => Kind.exponential.memberTexts (Json.real x)
  | linear step => Kind.linear.memberTexts (Json.natural step.millis)

theorem json_eq (g : Growth) : g.json = Json.objectText g.memberTexts := by
  cases g with
  | exponential x =>
    unfold json memberTexts Kind.memberTexts Json.objectText
    simp only [Json.membersText, Kind.name, Kind.field]
    simp
  | linear step =>
    unfold json memberTexts Kind.memberTexts Json.objectText
    simp only [Json.membersText, Kind.name, Kind.field]
    simp

theorem takes_kind (k : Kind) (depth : Nat) :
    TakesMember (member depth) "kind" ('"' :: (k.name.toList ++ ['"'])) (none, [])
      (some k, []) := by
  have hname : Plain k.name.toList := by cases k <;> simp [Plain, Kind.name]
  have hof : Kind.ofName? k.name = some k := by cases k <;> decide
  refine ⟨by simp [Plain], fun rest _ => ?_⟩
  have hread : StateT.run Kind.read ('"' :: (k.name.toList ++ ['"']) ++ rest) = .ok (k, rest) := by
    have htext : '"' :: (k.name.toList ++ ['"']) ++ rest
        = '"' :: (k.name.toList ++ '"' :: rest) := by simp
    rw [htext, Kind.read, run_bind (glance_string hname), String.ofList_toList]
    simp only [hof]
    rfl
  rw [member, if_pos rfl, once, pure_bind, List.cons_append, run_bind (run_take rfl),
    run_bind hread]
  rfl

/-- Any other member is kept until the kind is known. -/
theorem takes_value {key : String} {text : List Char} {v : Value} (hkey : Plain key.toList)
    (hkind : key ≠ "kind") (depth : Nat) (s : Option Kind × List (String × Value))
    (hread : ∀ rest, EndsMember rest →
      StateT.run (value true depth) (text ++ rest) = .ok (v, rest)) :
    TakesMember (member depth) key text s (s.1, s.2 ++ [(key, v)]) := by
  refine ⟨hkey, fun rest hrest => ?_⟩
  rw [member, if_neg hkind, List.cons_append, run_bind (run_take rfl), run_bind (hread rest hrest)]
  rfl

/-- A growth is what its kind makes of the value of its field. -/
theorem read_object (k : Kind) {text : List Char} {v : Value} (depth : Nat)
    (hread : ∀ rest, EndsMember rest → StateT.run (glance true) (text ++ rest) = .ok (v, rest))
    (hv : v ≠ .sequence ∧ v ≠ .map) (rest : List Char) :
    StateT.run (read depth) (Json.objectText (k.memberTexts text) ++ rest)
      = StateT.run (expect (k.growth v)) rest := by
  have hkey : Plain k.field.toList := by cases k <;> simp [Plain, Kind.field]
  have hkind : k.field ≠ "kind" := by cases k <;> simp [Kind.field]
  have hfield : k.ofMembers [(k.field, v)] = k.growth v := by simp [Kind.ofMembers]
  have hmembers := TakesMembers.cons (takes_kind k (depth - 1))
    (.cons (takes_value hkey hkind (depth - 1) (some k, [])
      fun rest hrest => value_of_glance (hread rest hrest) hv (depth - 1)) (.nil _))
  have hobject := object_text hmembers rest
  rw [← hfield, read, Kind.memberTexts, Json.objectText, List.cons_append, run_bind glance_map]
  show StateT.run (object true (member (depth - 1)) (none, []) >>= _) _ = _
  rw [← List.cons_append, ← Json.objectText, run_bind hobject]
  rfl

theorem read_json {g : Growth} (hg : ¬g.Unwritable) (depth : Nat) (rest : List Char) :
    StateT.run (read depth) (g.json ++ rest) = .ok (g.inMillis, rest) := by
  rw [json_eq]
  cases g with
  | exponential x =>
    have hx : x.isFinite = true := by simpa [Unwritable] using hg
    rw [memberTexts, read_object .exponential depth
      (fun rest hrest => glance_real hx hrest.endsNumber) (by simp)]
    rfl
  | linear step =>
    have hstep : Kind.linear.growth (.integer step.millis) = .ok (inMillis (linear step)) := by
      rw [Kind.growth, Value.asNatural, if_pos (by omega)]
      rfl
    rw [memberTexts, read_object .linear depth
      (fun rest hrest => glance_natural (step.millis_lt) hrest.endsNumber) (by simp), hstep]
    rfl

theorem read_unwritable {g : Growth} (hg : g.Unwritable) (depth : Nat) (rest : List Char) :
    StateT.run (read depth) (g.json ++ rest) = .error (.mismatch (.type .null "f64")) := by
  rw [json_eq]
  cases g with
  | exponential x =>
    rw [memberTexts, read_object .exponential depth (fun rest _ => glance_not_real hg) (by simp)]
    rfl
  | linear step => exact hg.elim

theorem json_inMillis (g : Growth) : g.inMillis.json = g.json := by
  cases g with
  | exponential x => rfl
  | linear step =>
    unfold inMillis json
    dsimp only
    rw [step.millis_inMillis]

theorem inMillis_eq_iff (g : Growth) : g.inMillis = g ↔ ∀ d ∈ g.durations, d.IsWhole := by
  cases g with
  | exponential x => simp [inMillis, durations]
  | linear step => simp [inMillis, durations, Duration.inMillis_eq_iff]

theorem ofJson_json {g : Growth} (hg : ¬g.Unwritable) :
    ofJson (String.ofList g.json) = .ok g.inMillis :=
  run_text (by simpa using read_json hg maxDepth [])

theorem ofJson_unwritable {g : Growth} (hg : g.Unwritable) :
    ofJson (String.ofList g.json) = .error (.mismatch (.type .null "f64")) :=
  run_text_error (by simpa using read_unwritable hg maxDepth [])

end Growth

namespace Pacing

/-- The pacing that the text of a pacing says. -/
def inMillis (p : Pacing) : Pacing :=
  ⟨p.initial.inMillis, p.longest.inMillis, p.increment.inMillis, p.growth.inMillis⟩

/-- The durations of a pacing. -/
def durations (p : Pacing) : List Duration :=
  [p.initial, p.longest, p.increment] ++ p.growth.durations

/-- The members of the text of a pacing before its growth. -/
def delayTexts (p : Pacing) : List (String × List Char) :=
  [("initial_delay", Json.natural p.initial.millis), ("max_delay", Json.natural p.longest.millis),
    ("min_increment", Json.natural p.increment.millis)]

theorem json_eq (p : Pacing) :
    p.json = Json.objectText (p.delayTexts ++ [("backoff", p.growth.json)]) := by
  unfold json delayTexts Json.objectText
  rw [List.cons_append, List.cons_append, List.cons_append, List.nil_append]
  simp only [Json.membersText]
  simp

theorem readMillis_text (d : Duration) {rest : List Char} (hrest : EndsMember rest) :
    StateT.run readMillis (Json.natural d.millis ++ rest) = .ok (d.inMillis, rest) := by
  rw [readMillis, run_bind (natural_text d.millis_lt hrest.endsNumber)]
  rfl

/-- What has been read of a pacing before its growth. -/
def delayDraft (p : Pacing) : Draft :=
  ⟨some p.initial.inMillis, some p.longest.inMillis, some p.increment.inMillis, none⟩

theorem takes_delays (p : Pacing) :
    TakesMembers Draft.member p.delayTexts {} p.delayDraft := by
  have initial : TakesMember Draft.member "initial_delay" (Json.natural p.initial.millis) {}
      ⟨some p.initial.inMillis, none, none, none⟩ :=
    ⟨by simp [Plain], fun rest hrest => run_field (readMillis_text p.initial hrest)⟩
  have longest : TakesMember Draft.member "max_delay" (Json.natural p.longest.millis)
      ⟨some p.initial.inMillis, none, none, none⟩
      ⟨some p.initial.inMillis, some p.longest.inMillis, none, none⟩ :=
    ⟨by simp [Plain], fun rest hrest => run_field (readMillis_text p.longest hrest)⟩
  have increment : TakesMember Draft.member "min_increment" (Json.natural p.increment.millis)
      ⟨some p.initial.inMillis, some p.longest.inMillis, none, none⟩ p.delayDraft :=
    ⟨by simp [Plain], fun rest hrest => run_field (readMillis_text p.increment hrest)⟩
  exact .cons initial (.cons longest (.cons increment (.nil _)))

/-- What becomes of the text of a pacing is what becomes of its members. -/
theorem ofJson_eq (text : List (String × List Char)) :
    ofJson (String.ofList (Json.objectText text))
      = Reader.run (object true Draft.member {} >>= Draft.finish)
        (String.ofList (Json.objectText text)) := by
  rw [ofJson, Reader.run, Reader.run, String.toList_ofList, Json.objectText, read,
    run_bind glance_map]

theorem ofJson_json {p : Pacing} (h : ¬p.growth.Unwritable) :
    ofJson (String.ofList p.json) = .ok p.inMillis := by
  have growth : TakesMember Draft.member "backoff" p.growth.json p.delayDraft
      { p.delayDraft with growth := some p.growth.inMillis } :=
    ⟨by simp [Plain], fun rest _ => run_field (p.growth.read_json h _ rest)⟩
  have hobject := object_text (p.takes_delays.concat growth) []
  rw [List.append_nil] at hobject
  rw [json_eq, ofJson_eq]
  refine run_text ?_
  rw [run_bind hobject]
  rfl

theorem ofJson_unwritable {p : Pacing} (h : p.growth.Unwritable) :
    ofJson (String.ofList p.json) = .error (.mismatch (.type .null "f64")) := by
  have hgrowth : ∀ rest, EndsMember rest →
      StateT.run (Draft.member "backoff" p.delayDraft) (':' :: p.growth.json ++ rest)
        = .error (.mismatch (.type .null "f64")) := by
    intro rest _
    exact run_field_error (p.growth.read_unwritable h _ rest)
  have hobject := object_fails p.takes_delays [] (by simp [Plain]) hgrowth []
  rw [List.append_nil] at hobject
  rw [json_eq, ofJson_eq]
  exact run_text_error (run_bind_error hobject _)

theorem json_inMillis (p : Pacing) : p.inMillis.json = p.json := by
  unfold json inMillis
  simp only [Duration.millis_inMillis, Growth.json_inMillis]

theorem inMillis_eq_iff (p : Pacing) : p.inMillis = p ↔ ∀ d ∈ p.durations, d.IsWhole := by
  rcases p with ⟨initial, longest, increment, growth⟩
  simp [inMillis, durations, Duration.inMillis_eq_iff, Growth.inMillis_eq_iff, or_imp,
    forall_and]

/-- With a finite multiplier, pacings agree when they are the same. -/
theorem agrees_inMillis {p : Pacing} (h : ¬p.growth.Unwritable) :
    p.inMillis.agrees p = true ↔ p.inMillis = p := by
  rcases p with ⟨initial, longest, increment, growth⟩
  cases growth with
  | exponential x =>
    have hself : (x == x) = true := by
      rw [Float.beq_self_iff]
      rintro rfl
      exact h rfl
    simp [agrees, inMillis, Growth.inMillis, Growth.agrees, hself, and_assoc]
  | linear step =>
    simp [agrees, inMillis, Growth.inMillis, Growth.agrees, and_assoc]

/-- Whether the text of a pacing survives reading is told by its durations alone. -/
theorem survivesJson_iff {p : Pacing} (h : ¬p.growth.Unwritable) :
    p.survivesJson = .ok true ↔ ∀ d ∈ p.durations, d.IsWhole := by
  rw [survivesJson, ofJson_json h, ← inMillis_eq_iff, ← agrees_inMillis h, Except.map,
    Except.ok.injEq]

/-- Reading undoes writing up to whole milliseconds.  A pacing is read back as itself with each
duration replaced by the milliseconds that are written; that is the same pacing just when its
durations are whole, and it is written the same way again.  With a multiplier that is no finite
number nothing is read back.  So it is with growths alone; phases, and gauges with counters of
sixty-four bits, are read back as they are. -/
theorem reads_back :
    (∀ d : Duration, d.inMillis.nanos = min (d.nanos / 1000000) (2 ^ 64 - 1) * 1000000) ∧
    (∀ p : Pacing, ¬p.growth.Unwritable →
      ofJson (String.ofList p.json) = .ok p.inMillis ∧
      p.inMillis.json = p.json ∧
      (p.inMillis = p ↔ ∀ d ∈ p.durations, d.IsWhole) ∧
      (p.survivesJson = .ok true ↔ ∀ d ∈ p.durations, d.IsWhole)) ∧
    (∀ p : Pacing, p.growth.Unwritable →
      ofJson (String.ofList p.json) = .error (.mismatch (.type .null "f64"))) ∧
    (∀ g : Growth, ¬g.Unwritable →
      Growth.ofJson (String.ofList g.json) = .ok g.inMillis ∧
      g.inMillis.json = g.json ∧
      (g.inMillis = g ↔ ∀ d ∈ g.durations, d.IsWhole)) ∧
    (∀ g : Growth, g.Unwritable →
      Growth.ofJson (String.ofList g.json) = .error (.mismatch (.type .null "f64"))) ∧
    (∀ p : Phase, Phase.ofJson (String.ofList p.json) = .ok p) ∧
    ∀ g : Gauges, g.Fits → Gauges.ofJson (String.ofList g.json) = .ok g :=
  ⟨Duration.nanos_inMillis,
    fun p h => ⟨ofJson_json h, p.json_inMillis, p.inMillis_eq_iff, survivesJson_iff h⟩,
    fun _ h => ofJson_unwritable h,
    fun g h => ⟨Growth.ofJson_json h, g.json_inMillis, g.inMillis_eq_iff⟩,
    fun _ h => Growth.ofJson_unwritable h,
    Phase.ofJson_json,
    fun _ h => Gauges.ofJson_json h⟩

/-- A pacing of half a millisecond at a time, whose text says no time at all; one that is written
in full; one whose multiplier has no text; and gauges at their largest. -/
theorem reads_back_concrete :
    ofJson (String.ofList (Pacing.json { initial := .ofNanos 500000 })) = .ok {} ∧
    ofJson (String.ofList (Pacing.json {})) = .ok {} ∧
    ofJson (String.ofList (Pacing.json { growth := .exponential (1.0 / 0.0) }))
      = .error (.mismatch (.type .null "f64")) ∧
    Growth.ofJson (String.ofList (Growth.json (.linear .longest)))
      = .ok (.linear (.ofMillis 18446744073709551615)) ∧
    Growth.ofJson (String.ofList (Growth.json (.exponential (0.0 / 0.0))))
      = .error (.mismatch (.type .null "f64")) ∧
    Gauges.ofJson (String.ofList (Gauges.json ⟨.running, 2 ^ 64 - 1, 0, 5000⟩))
      = .ok ⟨.running, 2 ^ 64 - 1, 0, 5000⟩ := by
  obtain ⟨-, whole, none, growth, noGrowth, -, gauges⟩ := reads_back
  have hgrowth : ¬Growth.doubling.Unwritable := by
    show ¬Float.isFinite 2.0 = false
    decide
  have half : Pacing.inMillis { initial := .ofNanos 500000 } = {} := by decide +kernel
  have usual : Pacing.inMillis {} = {} := by decide +kernel
  have long : Growth.inMillis (.linear .longest) = .linear (.ofMillis 18446744073709551615) := by
    decide +kernel
  have infinite : (Growth.exponential (1.0 / 0.0)).Unwritable := by
    show Float.isFinite (1.0 / 0.0) = false
    decide
  have noNumber : (Growth.exponential (0.0 / 0.0)).Unwritable := by
    show Float.isFinite (0.0 / 0.0) = false
    decide
  have fits : Gauges.Fits ⟨.running, 2 ^ 64 - 1, 0, 5000⟩ := ⟨by decide, by decide, by decide⟩
  exact ⟨(whole _ hgrowth).1.trans (congrArg _ half), (whole _ hgrowth).1.trans (congrArg _ usual),
    none _ infinite, (growth (.linear .longest) id).1.trans (congrArg _ long),
    noGrowth _ noNumber, gauges _ fits⟩

/-- Multipliers that never make a pause shorter are finite. -/
theorem not_unwritable {g : Growth} (h : Growth.flaw? g = none) : ¬g.Unwritable := by
  cases g with
  | exponential x =>
    intro hx
    rw [Growth.flaw?, show x.isFinite = false from hx] at h
    cases h
  | linear step => exact id

/-- A usable pacing is read back without the parts of its durations below a millisecond.  It is
usable again unless nothing is left of its longest pause or of its increment. -/
theorem usable_read_back {p : Pacing} (h : p.flaw? = none) :
    ∃ q, ofJson (String.ofList p.json) = .ok q ∧
      q.flaw? = if p.longest < .ofMillis 1 then some .longestZero
        else if p.increment < .ofMillis 1 then some .incrementZero
        else none := by
  obtain ⟨-, horder, -, hgrowth⟩ := flaw?_eq_none_iff.1 h
  have hkept : Growth.flaw? p.growth.inMillis = none := by
    cases hg : p.growth with
    | exponential x => rwa [hg] at hgrowth
    | linear step => rfl
  refine ⟨p.inMillis, ofJson_json (not_unwritable hgrowth), ?_⟩
  have hordered : ¬p.longest.inMillis < p.initial.inMillis :=
    Nat.not_lt.2 (Duration.inMillis_le horder)
  rw [flaw?]
  simp only [inMillis, Duration.isZero_inMillis, decide_eq_true_eq, hkept, hordered, if_false]

/-- Half a second at most, ten milliseconds more each time: usable, and usable when read back. -/
theorem usable_read_back_half_second :
    (upTo (.ofMillis 500)).flaw? = none ∧
      ∃ q, ofJson (String.ofList (upTo (.ofMillis 500)).json) = .ok q ∧ q.flaw? = none := by
  have usable : (upTo (.ofMillis 500)).flaw? = none := by decide +kernel
  exact ⟨usable, usable_read_back usable⟩

/-- A pacing that pauses for half a millisecond at most. -/
def brief : Pacing := upTo (.ofNanos 500000)

/-- A usable pacing is not always usable when it is read back. -/
theorem brief_read_back :
    brief.flaw? = none ∧ ofJson (String.ofList brief.json) = .ok brief.inMillis ∧
      brief.inMillis.flaw? = some .longestZero := by
  have usable : brief.flaw? = none := by decide +kernel
  exact ⟨usable, ofJson_json (not_unwritable (flaw?_eq_none_iff.1 usable).2.2.2), by decide +kernel⟩

end Pacing

end Polling
