import Mathlib.Data.Nat.Digits.Defs
import Polling.Number.Literal
import Polling.Proofs.NumberTexts

/-!
# The grammars of numbers that stand alone

The readers of `Polling.Number.Literal` accept a text if and only if a grammar does, and read the
number that the grammar gives it: `natural?_eq_some_iff` for natural numbers, `real?_eq_some_iff`
for binary numbers.  The grammars are relations between a text and what it denotes, with a rule for
each form that a text can have.
-/

namespace Polling

theorem Digits.toNat_eq_ofDigits (ds : List Char) :
    toNat ds = Nat.ofDigits 10 (ds.reverse.map value) := by
  induction ds using List.reverseRecOn with
  | nil => rfl
  | append_singleton ds c ih =>
    rw [toNat_append_singleton, ih, List.reverse_append, List.reverse_singleton,
      List.singleton_append, List.map_cons, Nat.ofDigits_cons, Nat.add_comm]

namespace Literal

/-- A natural number: digits, at least one of them, and perhaps a plus sign in front. -/
inductive NaturalText : List Char → Nat → Prop
  | plain {ds : List Char} (run : Json.IsRun ds) :
      NaturalText ds (Nat.ofDigits 10 (ds.reverse.map Digits.value))
  | plus {ds : List Char} (run : Json.IsRun ds) :
      NaturalText ('+' :: ds) (Nat.ofDigits 10 (ds.reverse.map Digits.value))

/-- An optional sign, and whether it is a minus. -/
inductive SignText : List Char → Bool → Prop
  | absent : SignText [] false
  | plus : SignText ['+'] false
  | minus : SignText ['-'] true

/-- An optional exponent. -/
inductive ExponentText : List Char → Int → Prop
  | absent : ExponentText [] 0
  | present {mark : Char} {s ds : List Char} {negative : Bool} (isMark : mark = 'e' ∨ mark = 'E')
      (sign : SignText s negative) (run : Json.IsRun ds) :
      ExponentText (mark :: (s ++ ds))
        (if negative then -(Digits.toNat ds : Int) else Digits.toNat ds)

/-- Digits with an optional point, at least one digit on either side of it, and an optional
exponent. -/
inductive DecimalText : List Char → Decimal → Prop
  | whole {ds tail : List Char} {e : Int} (run : Json.IsRun ds) (exponent : ExponentText tail e) :
      DecimalText (ds ++ tail) (.ofParts ds [] e)
  | point {ds fs tail : List Char} {e : Int} (digits : ∀ c ∈ ds ++ fs, c.isDigit = true)
      (nonempty : ds ++ fs ≠ []) (exponent : ExponentText tail e) :
      DecimalText (ds ++ '.' :: (fs ++ tail)) (.ofParts ds fs e)

/-- A word, whichever of its letters are capitals. -/
def IsWord (word : String) (cs : List Char) : Prop := cs.map Char.toLower = word.toList

/-- What may follow the sign of a binary number. -/
inductive BodyText (negative : Bool) : List Char → Numeral → Prop
  | infinity {cs : List Char} (word : IsWord "inf" cs ∨ IsWord "infinity" cs) :
      BodyText negative cs (.infinity negative)
  | notANumber {cs : List Char} (word : IsWord "nan" cs) : BodyText negative cs .notANumber
  | decimal {cs : List Char} {d : Decimal} (text : DecimalText cs d) :
      BodyText negative cs (.finite negative d)

/-- A binary number: an optional sign, and a decimal or a word. -/
inductive RealText : List Char → Numeral → Prop
  | mk {s body : List Char} {negative : Bool} {v : Numeral} (sign : SignText s negative)
      (text : BodyText negative body v) : RealText (s ++ body) v

variable {cs ds : List Char} {n : Nat} {e : Int} {d : Decimal} {v : Numeral} {negative : Bool}

/-! ### Natural numbers -/

theorem digits?_eq_some_iff : digits? cs = some n ↔ Json.IsRun cs ∧ Digits.toNat cs = n := by
  have hrun : (cs ≠ [] ∧ cs.all Char.isDigit) ↔ Json.IsRun cs := by
    simp only [Json.IsRun, List.all_eq_true]
  unfold digits?
  split
  · next h => simp [hrun.1 h]
  · next h => simp [mt hrun.2 h]

theorem digits?_of_isRun (run : Json.IsRun ds) : digits? ds = some (Digits.toNat ds) :=
  digits?_eq_some_iff.2 ⟨run, rfl⟩

/-- A run of digits does not start with any other character. -/
theorem head_ne_of_isRun (run : Json.IsRun ds) {c : Char} (hc : c.isDigit = false)
    {cs : List Char} : ds ≠ c :: cs := by
  rintro rfl
  have hdigit := run.2 c List.mem_cons_self
  rw [hc] at hdigit
  cases hdigit

theorem natural?_of_plus (r : List Char) :
    natural? ('+' :: r) = (digits? r).filter (· ≤ maxNatural) := rfl

theorem natural?_of_plain (hne : ∀ r, cs ≠ '+' :: r) :
    natural? cs = (digits? cs).filter (· ≤ maxNatural) := by
  unfold natural?
  split
  · exact absurd rfl (hne _)
  · rfl

theorem filter_digits?_eq_some_iff : (digits? cs).filter (· ≤ maxNatural) = some n ↔
    Json.IsRun cs ∧ Nat.ofDigits 10 (cs.reverse.map Digits.value) = n ∧ n ≤ maxNatural := by
  rw [Option.filter_eq_some_iff, digits?_eq_some_iff, Digits.toNat_eq_ofDigits, decide_eq_true_iff,
    and_assoc]

/-- A text is read as a natural number if and only if it is one that is not too large. -/
theorem natural?_eq_some_iff : natural? cs = some n ↔ NaturalText cs n ∧ n ≤ maxNatural := by
  constructor
  · intro h
    by_cases hplus : ∃ r, cs = '+' :: r
    · obtain ⟨r, rfl⟩ := hplus
      rw [natural?_of_plus, filter_digits?_eq_some_iff] at h
      obtain ⟨run, rfl, hle⟩ := h
      exact ⟨.plus run, hle⟩
    · rw [natural?_of_plain fun r hr => hplus ⟨r, hr⟩, filter_digits?_eq_some_iff] at h
      obtain ⟨run, rfl, hle⟩ := h
      exact ⟨.plain run, hle⟩
  · rintro ⟨htext, hle⟩
    cases htext with
    | plain run =>
      rw [natural?_of_plain fun _ => head_ne_of_isRun run (by decide)]
      exact filter_digits?_eq_some_iff.2 ⟨run, rfl, hle⟩
    | plus run =>
      rw [natural?_of_plus]
      exact filter_digits?_eq_some_iff.2 ⟨run, rfl, hle⟩

/-! ### Binary numbers -/

/-- Whether a text does not start with a sign. -/
def Unsigned (cs : List Char) : Prop := ∀ r, cs ≠ '+' :: r ∧ cs ≠ '-' :: r

/-- The sign of a text is what is taken off it. -/
theorem exists_signText (cs : List Char) : ∃ s, SignText s (sign cs).1 ∧ cs = s ++ (sign cs).2 := by
  unfold sign
  split
  · exact ⟨['-'], .minus, rfl⟩
  · exact ⟨['+'], .plus, rfl⟩
  · exact ⟨[], .absent, rfl⟩

theorem sign_append {s body : List Char} (hs : SignText s negative) (hbody : Unsigned body) :
    sign (s ++ body) = (negative, body) := by
  cases hs with
  | plus | minus => rfl
  | absent =>
    unfold sign
    split
    · next r heq => exact absurd heq (hbody r).2
    · next r heq => exact absurd heq (hbody r).1
    · rfl

theorem unsigned_of_isRun (run : Json.IsRun ds) : Unsigned ds := fun _ =>
  ⟨head_ne_of_isRun run (by decide), head_ne_of_isRun run (by decide)⟩

theorem exponent?_cons {mark : Char} (hmark : mark = 'e' ∨ mark = 'E') (r : List Char) :
    exponent? (mark :: r) = (digits? (sign r).2).map fun n : Nat =>
      if (sign r).1 then -(n : Int) else (n : Int) := by
  simp only [exponent?, hmark, if_true]
  cases digits? (sign r).2 <;> rfl

theorem exponent?_eq_some_iff : exponent? cs = some e ↔ ExponentText cs e := by
  constructor
  · intro h
    cases cs with
    | nil =>
      obtain rfl := Option.some.inj h
      exact .absent
    | cons mark r =>
      by_cases hmark : mark = 'e' ∨ mark = 'E'
      · obtain ⟨s, hs, hr⟩ := exists_signText r
        rw [exponent?_cons hmark] at h
        obtain ⟨n, hn, rfl⟩ := Option.map_eq_some_iff.1 h
        obtain ⟨run, rfl⟩ := digits?_eq_some_iff.1 hn
        have htext := ExponentText.present hmark hs run
        rwa [← hr] at htext
      · simp [exponent?, hmark] at h
  · intro h
    cases h with
    | absent => rfl
    | present hmark hs run =>
      rw [exponent?_cons hmark, sign_append hs (unsigned_of_isRun run), digits?_of_isRun run]
      rfl

/-- An exponent does not start with a digit, and not with a point. -/
theorem ExponentText.head (h : ExponentText cs e) {c : Char} (hc : cs.head? = some c) :
    c.isDigit = false ∧ c ≠ '.' := by
  cases h with
  | absent => cases hc
  | present hmark =>
    obtain rfl := Option.some.inj hc
    rcases hmark with rfl | rfl <;> decide

/-- Digits end where something else begins. -/
theorem span_digits (tail : List Char) (hds : ∀ c ∈ ds, c.isDigit = true)
    (htail : ∀ c, tail.head? = some c → c.isDigit = false) :
    (ds ++ tail).takeWhile Char.isDigit = ds ∧ (ds ++ tail).dropWhile Char.isDigit = tail := by
  rw [List.takeWhile_append_of_pos hds, List.dropWhile_append_of_pos hds]
  cases tail with
  | nil => simp
  | cons c r => simp [htail c rfl]

theorem decimal?_of_point {whole r : List Char} (hwhole : cs.takeWhile Char.isDigit = whole)
    (hrest : cs.dropWhile Char.isDigit = '.' :: r) :
    decimal? cs =
      if whole = [] ∧ r.takeWhile Char.isDigit = [] then none
      else (exponent? (r.dropWhile Char.isDigit)).map
        fun e => Decimal.ofParts whole (r.takeWhile Char.isDigit) e := by
  simp only [decimal?, hwhole, hrest]

theorem decimal?_of_plain {whole rest : List Char} (hwhole : cs.takeWhile Char.isDigit = whole)
    (hrest : cs.dropWhile Char.isDigit = rest) (hne : ∀ r, rest ≠ '.' :: r) :
    decimal? cs =
      if whole = [] then none
      else (exponent? rest).map fun e => Decimal.ofParts whole [] e := by
  simp only [decimal?, hwhole, hrest, and_true]

theorem decimal?_of_decimalText (h : DecimalText cs d) : decimal? cs = some d := by
  cases h with
  | @whole ds tail e run exponent =>
    obtain ⟨htake, hdrop⟩ := span_digits tail run.2 fun c hc => (exponent.head hc).1
    have hne : ∀ r, tail ≠ '.' :: r := by
      rintro r rfl
      exact (exponent.head rfl).2 rfl
    rw [decimal?_of_plain htake hdrop hne, if_neg run.1, exponent?_eq_some_iff.2 exponent]
    rfl
  | @point ds fs tail e digits nonempty exponent =>
    obtain ⟨hds, hfs⟩ := List.forall_mem_append.1 digits
    obtain ⟨htake, hdrop⟩ := span_digits ('.' :: (fs ++ tail)) hds
      fun c hc => by obtain rfl := Option.some.inj hc; decide
    obtain ⟨htake', hdrop'⟩ := span_digits tail hfs fun c hc => (exponent.head hc).1
    have hsome : ¬(ds = [] ∧ fs = []) := fun h => nonempty (by rw [h.1, h.2]; rfl)
    rw [decimal?_of_point htake hdrop, htake', hdrop', if_neg hsome,
      exponent?_eq_some_iff.2 exponent]
    rfl

/-- The digits at the beginning of a text, and what is left of it. -/
theorem isDigit_of_mem_span (cs : List Char) : ∀ c ∈ cs.takeWhile Char.isDigit, c.isDigit = true :=
  List.all_eq_true.1 List.all_takeWhile

theorem decimalText_of_decimal? (h : decimal? cs = some d) : DecimalText cs d := by
  have hcs : cs.takeWhile Char.isDigit ++ cs.dropWhile Char.isDigit = cs :=
    List.takeWhile_append_dropWhile
  by_cases hpoint : ∃ r, cs.dropWhile Char.isDigit = '.' :: r
  · obtain ⟨r, hr⟩ := hpoint
    rw [decimal?_of_point rfl hr] at h
    split at h
    · cases h
    · next hsome =>
      obtain ⟨e, he, rfl⟩ := Option.map_eq_some_iff.1 h
      have htext : DecimalText _ (.ofParts _ (r.takeWhile Char.isDigit) e) :=
        .point (List.forall_mem_append.2 ⟨isDigit_of_mem_span cs, isDigit_of_mem_span r⟩)
          (by simpa [List.append_eq_nil_iff] using hsome) (exponent?_eq_some_iff.1 he)
      rwa [List.takeWhile_append_dropWhile, ← hr, hcs] at htext
  · rw [decimal?_of_plain rfl rfl fun r hr => hpoint ⟨r, hr⟩] at h
    split at h
    · cases h
    · next hsome =>
      obtain ⟨e, he, rfl⟩ := Option.map_eq_some_iff.1 h
      have htext := DecimalText.whole ⟨hsome, isDigit_of_mem_span cs⟩ (exponent?_eq_some_iff.1 he)
      rwa [hcs] at htext

theorem decimal?_eq_some_iff : decimal? cs = some d ↔ DecimalText cs d :=
  ⟨decimalText_of_decimal?, decimal?_of_decimalText⟩

theorem DecimalText.head (h : DecimalText cs d) {c : Char} (hc : cs.head? = some c) :
    c.isDigit = true ∨ c = '.' := by
  cases h with
  | @whole ds tail e run =>
    cases ds with
    | nil => exact absurd rfl run.1
    | cons a ds =>
      obtain rfl := Option.some.inj hc
      exact .inl (run.2 a List.mem_cons_self)
  | @point ds fs tail e digits =>
    cases ds with
    | nil => exact .inr (Option.some.inj hc).symm
    | cons a ds =>
      obtain rfl := Option.some.inj hc
      exact .inl (digits a List.mem_cons_self)

/-- A decimal starts with no letter, and so it is no word. -/
theorem DecimalText.toLower_head (h : DecimalText cs d) {c : Char} {r : List Char}
    (hcs : cs.map Char.toLower = c :: r) : c.isDigit = true ∨ c = '.' := by
  cases cs with
  | nil => cases hcs
  | cons a cs =>
    obtain ⟨rfl, -⟩ := List.cons.inj hcs
    rcases h.head rfl with hdigit | rfl
    · have hlower : a.toLower = a := by
        simp only [Char.isDigit, Bool.and_eq_true, decide_eq_true_eq] at hdigit
        have hupper : ¬(a.val ≥ 'A'.val ∧ a.val ≤ 'Z'.val) := fun hu =>
          absurd (UInt32.le_trans hu.1 hdigit.2) (by decide)
        exact dif_neg hupper
      exact .inl (by rwa [hlower])
    · exact .inr rfl

/-- What follows the sign of a binary number does not start with another sign. -/
theorem BodyText.unsigned (h : BodyText negative cs v) : Unsigned cs := by
  intro r
  constructor <;> rintro rfl
  all_goals
    cases h with
    | infinity word => rcases word with word | word <;> cases word
    | notANumber word => cases word
    | decimal text => rcases text.head rfl with hdigit | hpoint <;> simp_all

/-- What follows the sign is read as the number that the grammar gives it. -/
theorem real?_of_bodyText {s : List Char} (hs : SignText s negative)
    (h : BodyText negative cs v) : real? (s ++ cs) = some v.toFloat := by
  simp only [real?, sign_append hs h.unsigned]
  cases h with
  | infinity word => exact if_pos word
  | notANumber word =>
    have hnot : ¬(cs.map Char.toLower = ['i', 'n', 'f'] ∨
        cs.map Char.toLower = ['i', 'n', 'f', 'i', 'n', 'i', 't', 'y']) := by
      rw [show cs.map Char.toLower = ['n', 'a', 'n'] from word]
      decide
    rw [if_neg hnot]
    exact if_pos word
  | decimal text =>
    have hword : ∀ c r, c.isDigit = false → c ≠ '.' → cs.map Char.toLower ≠ c :: r := by
      intro c r hdigit hpoint hcs
      rcases text.toLower_head hcs with h | h
      · rw [hdigit] at h
        cases h
      · exact hpoint h
    rw [if_neg (by simp [hword]), if_neg (hword _ _ (by decide) (by decide)),
      decimal?_eq_some_iff.2 text]
    rfl

/-- A text is read as a binary number if and only if it is one. -/
theorem real?_eq_some_iff {x : Float} :
    real? cs = some x ↔ ∃ v, RealText cs v ∧ v.toFloat = x := by
  constructor
  · intro h
    obtain ⟨s, hs, hcs⟩ := exists_signText cs
    have hbody : ∃ v, BodyText (sign cs).1 (sign cs).2 v ∧ v.toFloat = x := by
      simp only [real?] at h
      split at h
      · next hword => exact ⟨_, .infinity hword, Option.some.inj h⟩
      · split at h
        · next hword => exact ⟨_, .notANumber hword, Option.some.inj h⟩
        · obtain ⟨d, hd, rfl⟩ := Option.map_eq_some_iff.1 h
          exact ⟨_, .decimal (decimal?_eq_some_iff.1 hd), rfl⟩
    obtain ⟨v, hv, rfl⟩ := hbody
    exact ⟨v, hcs ▸ .mk hs hv, rfl⟩
  · rintro ⟨v, ⟨hs, hv⟩, rfl⟩
    exact real?_of_bodyText hs hv

end Literal

end Polling
