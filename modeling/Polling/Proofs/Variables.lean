import Polling.Pacing.Environment
import Polling.Proofs.Literals

/-!
# What a pacing takes from the environment

A pacing is read from five variables, each with a grammar of its own.  Main statement: each of the
three durations is what its variable gives, and as usual if that gives nothing; a linear step goes
before a multiplier; and nothing else in the environment matters, least of all a value that the
grammar of its variable rejects (`pacing_reads_variables`).
-/

namespace Polling

/-- The variables that a pacing is read from. -/
inductive Variable where
  | initial
  | longest
  | increment
  | step
  | multiplier
deriving DecidableEq

namespace Variable

/-- What the name of a variable ends with. -/
def suffix : Variable → String
  | initial => "_INITIAL_DELAY_MS"
  | longest => "_MAX_DELAY_MS"
  | increment => "_MIN_INCREMENT_MS"
  | step => "_LINEAR_STEP_MS"
  | multiplier => "_BACKOFF_MULTIPLIER"

def name (stem : String) (v : Variable) : String := stem ++ v.suffix

theorem name_injective (stem : String) : Function.Injective (name stem) := by
  intro v w h
  have hsuffix : v.suffix = w.suffix := (String.append_right_inj stem).1 h
  revert hsuffix
  cases v <;> cases w <;> decide

end Variable

namespace Environment

/-! ### What a variable gives -/

/-- Whether a value is the text of a natural number below `2 ^ 64`. -/
def Counts (value : ByteArray) (n : Nat) : Prop :=
  ∃ s : String, value = s.toUTF8 ∧ Literal.NaturalText s.toList n ∧ n ≤ Literal.maxNatural

/-- Whether a value is the text of a binary number. -/
def Measures (value : ByteArray) (x : Float) : Prop :=
  ∃ s : String, value = s.toUTF8 ∧ ∃ v, Literal.RealText s.toList v ∧ v.toFloat = x

/-- Whether a variable is there and its value is that of a natural number. -/
def GivesCount (env : Environment) (name : String) (n : Nat) : Prop :=
  ∃ value, env.values.lookup name = some value ∧ Counts value n

/-- Whether a variable is there and its value is that of a binary number. -/
def GivesReal (env : Environment) (name : String) (x : Float) : Prop :=
  ∃ value, env.values.lookup name = some value ∧ Measures value x

/-- Whether a duration is as many milliseconds as a variable gives, and the usual one if it gives
none. -/
structure SetsDuration (env : Environment) (name : String) (d usual : Duration) : Prop where
  given : ∀ n, env.GivesCount name n → d.nanos = n * Duration.nanosPerMilli
  otherwise : (∀ n, ¬env.GivesCount name n) → d = usual

/-- Whether a growth is linear by as many milliseconds as one variable gives, if it gives any; and
if not, exponential by what the other variable gives, and by two if that gives nothing either. -/
structure SetsGrowth (env : Environment) (step multiplier : String) (g : Growth) : Prop where
  given : ∀ n, env.GivesCount step n → ∃ d, g = .linear d ∧ d.nanos = n * Duration.nanosPerMilli
  linear : ∀ d, g = .linear d → ∃ n, env.GivesCount step n
  multiplied : (∀ n, ¬env.GivesCount step n) → ∀ x, env.GivesReal multiplier x → g = .exponential x
  otherwise : (∀ n, ¬env.GivesCount step n) → (∀ x, ¬env.GivesReal multiplier x) →
    g = .exponential 2.0

/-- Whether the grammar of a variable accepts a value. -/
def Accepts : Variable → ByteArray → Prop
  | .multiplier, value => ∃ x, Measures value x
  | _, value => ∃ n, Counts value n

/-- Whether a variable is absent or has a value that its grammar rejects. -/
def Mute (env : Environment) (stem : String) (v : Variable) : Prop :=
  ∀ value, env.values.lookup (v.name stem) = some value → ¬Accepts v value

/-! ### Two environments -/

/-- Whether a variable is the same in two environments: absent in both, or of the same value. -/
def SameAt (env env' : Environment) (name : String) : Prop :=
  env.values.lookup name = env'.values.lookup name

/-- Whether two environments differ in one variable at most. -/
def SameBut (env env' : Environment) (name : String) : Prop :=
  ∀ other, other ≠ name → SameAt env env' other

/-- Whether two pacings differ at most in what one variable is for. -/
structure DifferBy (v : Variable) (p q : Pacing) : Prop where
  initial : v ≠ .initial → p.initial = q.initial
  longest : v ≠ .longest → p.longest = q.longest
  increment : v ≠ .increment → p.increment = q.increment
  growth : v ≠ .step → v ≠ .multiplier → p.growth = q.growth

variable {env env' : Environment} {name step multiplier stem : String} {v : Variable}

theorem fromUTF8?_eq_some_iff {b : ByteArray} {s : String} :
    String.fromUTF8? b = some s ↔ b = s.toUTF8 := by
  constructor
  · intro h
    unfold String.fromUTF8? at h
    split at h
    · obtain rfl := Option.some.inj h
      rfl
    · cases h
  · rintro rfl
    exact dif_pos s.isValidUTF8

theorem text?_eq_some_iff {cs : List Char} : env.text? name = some cs ↔
    ∃ s : String, env.values.lookup name = some s.toUTF8 ∧ s.toList = cs := by
  unfold text?
  constructor
  · intro h
    obtain ⟨s, hs, hcs⟩ := Option.map_eq_some_iff.1 h
    obtain ⟨value, hvalue, hb⟩ := Option.bind_eq_some_iff.1 hs
    rw [fromUTF8?_eq_some_iff.1 hb] at hvalue
    exact ⟨s, hvalue, hcs⟩
  · rintro ⟨s, hvalue, hcs⟩
    rw [hvalue, Option.bind_some, fromUTF8?_eq_some_iff.2 rfl, Option.map_some, hcs]

theorem millis?_eq_some_iff {d : Duration} :
    env.millis? name = some d ↔ ∃ n, env.GivesCount name n ∧ d = .ofMillis n := by
  unfold millis?
  constructor
  · intro h
    obtain ⟨n, hn, hd⟩ := Option.map_eq_some_iff.1 h
    obtain ⟨cs, hcs, hread⟩ := Option.bind_eq_some_iff.1 hn
    obtain ⟨s, hvalue, rfl⟩ := text?_eq_some_iff.1 hcs
    obtain ⟨htext, hle⟩ := Literal.natural?_eq_some_iff.1 hread
    exact ⟨n, ⟨_, hvalue, s, rfl, htext, hle⟩, hd.symm⟩
  · rintro ⟨n, ⟨value, hvalue, s, rfl, htext, hle⟩, rfl⟩
    rw [text?_eq_some_iff.2 ⟨s, hvalue, rfl⟩, Option.bind_some,
      Literal.natural?_eq_some_iff.2 ⟨htext, hle⟩, Option.map_some]

theorem real?_eq_some_iff {x : Float} : env.real? name = some x ↔ env.GivesReal name x := by
  unfold real?
  constructor
  · intro h
    obtain ⟨cs, hcs, hread⟩ := Option.bind_eq_some_iff.1 h
    obtain ⟨s, hvalue, rfl⟩ := text?_eq_some_iff.1 hcs
    exact ⟨_, hvalue, s, rfl, Literal.real?_eq_some_iff.1 hread⟩
  · rintro ⟨value, hvalue, s, rfl, hread⟩
    rw [text?_eq_some_iff.2 ⟨s, hvalue, rfl⟩, Option.bind_some]
    exact Literal.real?_eq_some_iff.2 hread

theorem millis?_eq_none (h : ∀ n, ¬env.GivesCount name n) : env.millis? name = none := by
  refine Option.eq_none_iff_forall_ne_some.2 fun d hd => ?_
  obtain ⟨n, hn, -⟩ := millis?_eq_some_iff.1 hd
  exact h n hn

theorem real?_eq_none (h : ∀ x, ¬env.GivesReal name x) : env.real? name = none :=
  Option.eq_none_iff_forall_ne_some.2 fun x hx => h x (real?_eq_some_iff.1 hx)

/-- Every number that a variable gives is short enough for a duration. -/
theorem GivesCount.nanos_ofMillis {n : Nat} (h : env.GivesCount name n) :
    (Duration.ofMillis n).nanos = n * Duration.nanosPerMilli := by
  obtain ⟨value, -, s, -, -, hle⟩ := h
  exact Duration.nanos_ofMillis hle

theorem setsDuration_getD (env : Environment) (name : String) (usual : Duration) :
    SetsDuration env name ((env.millis? name).getD usual) usual where
  given n hn := by
    rw [millis?_eq_some_iff.2 ⟨n, hn, rfl⟩]
    exact hn.nanos_ofMillis
  otherwise hnone := by
    rw [millis?_eq_none hnone]
    rfl

/-! ### The growth -/

theorem growth_of_step {d : Duration} (h : env.millis? (Variable.step.name stem) = some d) :
    Pacing.growthOfEnvironment env stem = .linear d := by
  unfold Pacing.growthOfEnvironment
  rw [show stem ++ "_LINEAR_STEP_MS" = Variable.step.name stem from rfl, h]

theorem growth_of_multiplier (h : env.millis? (Variable.step.name stem) = none) :
    Pacing.growthOfEnvironment env stem =
      ((env.real? (Variable.multiplier.name stem)).map Growth.exponential).getD .doubling := by
  unfold Pacing.growthOfEnvironment
  rw [show stem ++ "_LINEAR_STEP_MS" = Variable.step.name stem from rfl, h,
    show stem ++ "_BACKOFF_MULTIPLIER" = Variable.multiplier.name stem from rfl]
  cases env.real? (Variable.multiplier.name stem) <;> rfl

theorem setsGrowth_growthOfEnvironment (env : Environment) (stem : String) :
    SetsGrowth env (Variable.step.name stem) (Variable.multiplier.name stem)
      (Pacing.growthOfEnvironment env stem) where
  given n hn :=
    ⟨_, growth_of_step (millis?_eq_some_iff.2 ⟨n, hn, rfl⟩), hn.nanos_ofMillis⟩
  linear d hd := by
    by_contra hnone
    rw [growth_of_multiplier (millis?_eq_none (not_exists.1 hnone))] at hd
    cases hreal : env.real? (Variable.multiplier.name stem) <;> rw [hreal] at hd <;> cases hd
  multiplied hnone x hx := by
    rw [growth_of_multiplier (millis?_eq_none hnone), real?_eq_some_iff.2 hx]
    rfl
  otherwise hnone hreal := by
    rw [growth_of_multiplier (millis?_eq_none hnone), real?_eq_none hreal]
    rfl

/-! ### What does not matter -/

theorem SameAt.millis? (h : SameAt env env' name) : env.millis? name = env'.millis? name := by
  simp only [Environment.millis?, text?, show _ = _ from h]

theorem SameAt.real? (h : SameAt env env' name) : env.real? name = env'.real? name := by
  simp only [Environment.real?, text?, show _ = _ from h]

/-- A duration depends on its own variable only. -/
theorem SameAt.getD_millis? (h : SameAt env env' name) (usual : Duration) :
    (env.millis? name).getD usual = (env'.millis? name).getD usual := by
  rw [h.millis?]

theorem growth_congr (hstep : SameAt env env' (Variable.step.name stem))
    (hmultiplier : SameAt env env' (Variable.multiplier.name stem) ∨
      ∃ n, env.GivesCount (Variable.step.name stem) n) :
    Pacing.growthOfEnvironment env stem = Pacing.growthOfEnvironment env' stem := by
  cases hread : env.millis? (Variable.step.name stem) with
  | some d => rw [growth_of_step hread, growth_of_step (hstep.millis? ▸ hread)]
  | none =>
    rcases hmultiplier with hsame | ⟨n, hn⟩
    · rw [growth_of_multiplier hread, growth_of_multiplier (hstep.millis? ▸ hread), hsame.real?]
    · rw [millis?_eq_some_iff.2 ⟨n, hn, rfl⟩] at hread
      cases hread

/-- Environments that give the same numbers ask for the same pacing. -/
theorem ofEnvironment_congr
    (hmillis : ∀ v ≠ Variable.multiplier, env.millis? (v.name stem) = env'.millis? (v.name stem))
    (hreal : env.real? (Variable.multiplier.name stem) =
      env'.real? (Variable.multiplier.name stem)) :
    Pacing.ofEnvironment env stem = Pacing.ofEnvironment env' stem := by
  have hinitial := hmillis .initial (by decide)
  have hlongest := hmillis .longest (by decide)
  have hincrement := hmillis .increment (by decide)
  have hstep := hmillis .step (by decide)
  simp only [Variable.name, Variable.suffix] at hinitial hlongest hincrement hstep hreal
  simp only [Pacing.ofEnvironment, Pacing.growthOfEnvironment, hinitial, hlongest, hincrement,
    hstep, hreal]

theorem Mute.millis? (h : Mute env stem v) (hv : v ≠ .multiplier) :
    env.millis? (v.name stem) = none := by
  refine millis?_eq_none fun n ⟨value, hvalue, hcount⟩ => h value hvalue ?_
  cases v with
  | multiplier => exact absurd rfl hv
  | initial | longest | increment | step => exact ⟨n, hcount⟩

theorem Mute.real? (h : Mute env stem .multiplier) :
    env.real? (Variable.multiplier.name stem) = none :=
  real?_eq_none fun x ⟨value, hvalue, hmeasure⟩ => h value hvalue ⟨x, hmeasure⟩

theorem SameBut.sameAt {w : Variable} (h : SameBut env env' (v.name stem)) (hw : v ≠ w) :
    SameAt env env' (w.name stem) :=
  h _ fun hname => hw (Variable.name_injective stem hname).symm

/-- A value that the grammar of its variable rejects is as good as none. -/
theorem SameBut.ofEnvironment_eq (h : SameBut env env' (v.name stem)) (hmute : Mute env stem v)
    (hmute' : Mute env' stem v) :
    Pacing.ofEnvironment env stem = Pacing.ofEnvironment env' stem := by
  refine ofEnvironment_congr (fun w hw => ?_) ?_
  · by_cases hvw : v = w
    · obtain rfl := hvw
      rw [hmute.millis? hw, hmute'.millis? hw]
    · exact (h.sameAt hvw).millis?
  · by_cases hv : v = .multiplier
    · obtain rfl := hv
      rw [hmute.real?, hmute'.real?]
    · exact (h.sameAt hv).real?

/-- A variable changes only what it is for. -/
theorem SameBut.differBy (h : SameBut env env' (v.name stem)) :
    DifferBy v (Pacing.ofEnvironment env stem) (Pacing.ofEnvironment env' stem) where
  initial hv := (h.sameAt hv).getD_millis? _
  longest hv := (h.sameAt hv).getD_millis? _
  increment hv := (h.sameAt hv).getD_millis? _
  growth hstep hmultiplier := growth_congr (h.sameAt hstep) (.inl (h.sameAt hmultiplier))

/-- For every environment and whatever the names start with: a duration is as many milliseconds as
its variable gives, and the usual one if that gives none, where giving `n` is to be the text of a
natural number `n < 2 ^ 64`; and the growth is linear if the step is such a text, and otherwise
exponential by the multiplier if that is the text of a binary number, and by two if it is not.

In a second environment, what does not read a variable that differs is the same: a duration depends
on its own variable only, the growth on two and on the multiplier only if the step gives nothing.
If all five are the same, so are the pacings.  If they differ in one variable, the pacings differ
in what it is for; and not at all if its value, where it has one, is rejected in both. -/
theorem pacing_reads_variables (stem : String) (env : Environment) :
    SetsDuration env (Variable.initial.name stem) (Pacing.ofEnvironment env stem).initial .zero ∧
    SetsDuration env (Variable.longest.name stem) (Pacing.ofEnvironment env stem).longest
      (.ofMillis 5000) ∧
    SetsDuration env (Variable.increment.name stem) (Pacing.ofEnvironment env stem).increment
      (.ofMillis 10) ∧
    SetsGrowth env (Variable.step.name stem) (Variable.multiplier.name stem)
      (Pacing.ofEnvironment env stem).growth ∧
    ∀ env',
      (SameAt env env' (Variable.initial.name stem) →
        (Pacing.ofEnvironment env stem).initial = (Pacing.ofEnvironment env' stem).initial) ∧
      (SameAt env env' (Variable.longest.name stem) →
        (Pacing.ofEnvironment env stem).longest = (Pacing.ofEnvironment env' stem).longest) ∧
      (SameAt env env' (Variable.increment.name stem) →
        (Pacing.ofEnvironment env stem).increment = (Pacing.ofEnvironment env' stem).increment) ∧
      (SameAt env env' (Variable.step.name stem) →
        (SameAt env env' (Variable.multiplier.name stem) ∨
          ∃ n, env.GivesCount (Variable.step.name stem) n) →
        (Pacing.ofEnvironment env stem).growth = (Pacing.ofEnvironment env' stem).growth) ∧
      ((∀ v : Variable, SameAt env env' (v.name stem)) →
        Pacing.ofEnvironment env stem = Pacing.ofEnvironment env' stem) ∧
      ∀ v : Variable, SameBut env env' (v.name stem) →
        DifferBy v (Pacing.ofEnvironment env stem) (Pacing.ofEnvironment env' stem) ∧
        (Mute env stem v → Mute env' stem v →
          Pacing.ofEnvironment env stem = Pacing.ofEnvironment env' stem) := by
  refine ⟨setsDuration_getD _ _ _, setsDuration_getD _ _ _, setsDuration_getD _ _ _,
    setsGrowth_growthOfEnvironment env stem, fun env' => ⟨fun h => h.getD_millis? _,
    fun h => h.getD_millis? _, fun h => h.getD_millis? _, growth_congr, fun h => ?_,
    fun v h => ⟨h.differBy, h.ofEnvironment_eq⟩⟩⟩
  exact ofEnvironment_congr (fun v _ => (h v).millis?) (h .multiplier).real?

theorem pacing_reads_variables_signs :
    (Pacing.ofEnvironment
        ⟨[("POLLER_INITIAL_DELAY_MS", "+007".toUTF8), ("POLLER_LINEAR_STEP_MS", "-1".toUTF8)]⟩
        "POLLER").initial.nanos = 7 * Duration.nanosPerMilli ∧
      Pacing.ofEnvironment
          ⟨[("POLLER_INITIAL_DELAY_MS", "+007".toUTF8), ("POLLER_LINEAR_STEP_MS", "-1".toUTF8)]⟩
          "POLLER" =
        Pacing.ofEnvironment ⟨[("POLLER_INITIAL_DELAY_MS", "+007".toUTF8)]⟩ "POLLER" := by
  obtain ⟨hinitial, -, -, -, htwo⟩ := pacing_reads_variables "POLLER"
    ⟨[("POLLER_INITIAL_DELAY_MS", "+007".toUTF8), ("POLLER_LINEAR_STEP_MS", "-1".toUTF8)]⟩
  obtain ⟨-, -, -, -, -, hone⟩ := htwo ⟨[("POLLER_INITIAL_DELAY_MS", "+007".toUTF8)]⟩
  have hseven : Literal.NaturalText "+007".toList 7 := by
    have hrun : Json.IsRun ['0', '0', '7'] := ⟨by simp, by simp⟩
    have hvalue : Nat.ofDigits 10 (['0', '0', '7'].reverse.map Digits.value) = 7 := by decide
    rw [show "+007".toList = ['+', '0', '0', '7'] from rfl, ← hvalue]
    exact .plus hrun
  refine ⟨hinitial.given 7 ⟨_, rfl, "+007", rfl, hseven, by decide⟩, (hone .step ?_).2 ?_ ?_⟩
  · intro other hother
    have hstep : (other == "POLLER_LINEAR_STEP_MS") = false := beq_eq_false_iff_ne.2 hother
    simp [SameAt, List.lookup_cons, hstep]
  · rintro value hvalue ⟨n, s, hs, htext, -⟩
    obtain rfl : "-1".toUTF8 = value := Option.some.inj hvalue
    obtain rfl : "-1" = s := String.toByteArray_inj.1 hs
    cases htext with
    | plain run => exact absurd (run.2 '-' List.mem_cons_self) (by decide)
  · intro value hvalue
    cases hvalue

end Environment

end Polling
