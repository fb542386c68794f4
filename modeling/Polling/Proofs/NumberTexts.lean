import Mathlib.Data.List.Induction
import Mathlib.Tactic.Ring
import Polling.Json.Lexeme

/-! # What the text of a number says

A `Literal` is a number as it is written.  Its text is read back as that literal, whatever follows
it (`literal?_text`).  The layout of JSON writes a decimal as one literal (`text_ofDecimal`), which
is never taken for an integer, and which says the same decimal but for zeros at its end, so the
binary number nearest to it is the one nearest to the decimal (`toFloat_ofDecimal`). -/

namespace Polling

namespace Digits

theorem toNat_append (cs ds : List Char) :
    toNat (cs ++ ds) = toNat cs * 10 ^ ds.length + toNat ds := by
  induction ds using List.reverseRecOn with
  | nil => simp [toNat]
  | append_singleton ds c ih =>
    rw [← List.append_assoc, toNat_append_singleton, ih, toNat_append_singleton,
      List.length_append, List.length_singleton, Nat.pow_succ]
    ring

theorem toNat_zeros (n : Nat) : toNat (List.replicate n '0') = 0 := by
  induction n with
  | zero => rfl
  | succ n ih => rw [List.replicate_succ', toNat_append_singleton, ih]; rfl

theorem length_pos (n : Nat) : 0 < (ofNat n).length :=
  List.length_pos_iff.2 (ofNat_ne_nil n)

theorem ofNat_zero : ofNat 0 = ['0'] := by rw [ofNat]; rfl

/-- Only zero itself is written with a leading zero. -/
theorem eq_zero_of_head {n : Nat} (h : (ofNat n).head? = some '0') : n = 0 :=
  Decidable.byContradiction fun hn => head_ofNat_ne_zero hn h

end Digits

namespace Decimal

theorem toFloat_zero (e : Int) : toFloat ⟨0, e⟩ = toFloat ⟨0, 0⟩ := by
  have htrim : ∀ e, trim ⟨0, e⟩ = ⟨0, e⟩ := fun e => by rw [trim]; simp
  rw [toFloat, toFloat, htrim, htrim]
  rfl

/-- Zeros at the end of the digits do not change the number. -/
theorem toFloat_zeros (n : Nat) (d : Decimal) :
    toFloat ⟨d.digits * 10 ^ n, d.exponent - n⟩ = d.toFloat := by
  rcases d with ⟨m, e⟩
  by_cases hm : m = 0
  · subst hm
    rw [Nat.zero_mul, toFloat_zero, ← toFloat_zero e]
  induction n with
  | zero => simp
  | succ n ih =>
    have hn : m * 10 ^ n ≠ 0 := Nat.mul_ne_zero hm (Nat.pow_pos (by decide)).ne'
    rw [← ih, ← toFloat_shift ⟨m * 10 ^ n, e - n⟩ hn]
    congr 2
    · ring
    · push_cast; ring

end Decimal

namespace Json

/-- A run of digits that is not empty. -/
def IsRun (ds : List Char) : Prop := ds ≠ [] ∧ ∀ c ∈ ds, c.isDigit = true

/-- No number goes on with what comes next: neither a digit nor a point nor the mark of an
exponent. -/
def EndsNumber (rest : List Char) : Prop :=
  ∀ c, rest.head? = some c → c.isDigit = false ∧ c ≠ '.' ∧ c ≠ 'e' ∧ c ≠ 'E'

theorem isRun_ofNat (n : Nat) : IsRun (Digits.ofNat n) :=
  ⟨Digits.ofNat_ne_nil n, fun _ => Digits.isDigit_of_mem_ofNat⟩

/-- A run of digits ends where the next character is no digit. -/
theorem run?_append {ds rest : List Char} (hds : IsRun ds)
    (hrest : ∀ c, rest.head? = some c → c.isDigit = false) :
    run? (ds ++ rest) = some (ds, rest) := by
  have htake : rest.takeWhile Char.isDigit = [] ∧ rest.dropWhile Char.isDigit = rest := by
    cases rest with
    | nil => exact ⟨rfl, rfl⟩
    | cons c cs => simp [hrest c rfl]
  rw [run?, List.takeWhile_append_of_pos hds.2, List.dropWhile_append_of_pos hds.2, htake.1,
    htake.2, List.append_nil]
  cases ds with
  | nil => exact absurd rfl hds.1
  | cons c cs => rfl

namespace Literal

/-- What follows the digits before the point. -/
def fractionText : Option (List Char) → List Char
  | none => []
  | some ds => '.' :: ds

/-- What follows the fraction. -/
def exponentText : Option Int → List Char
  | none => []
  | some e => 'e' :: Layout.power true e

/-- The text of a literal. -/
def text (l : Literal) : List Char :=
  (if l.negative then ['-'] else []) ++ (l.whole ++ (fractionText l.fraction
    ++ exponentText l.exponent))

/-- A literal with digits where there must be some, and no zeros too many in front. -/
structure Proper (l : Literal) : Prop where
  whole : IsRun l.whole
  leading : l.whole.head? = some '0' → l.whole = ['0']
  fraction : ∀ ds, l.fraction = some ds → IsRun ds

end Literal

theorem exponent?_text {rest : List Char} (hrest : EndsNumber rest) (e : Option Int) :
    exponent? (Literal.exponentText e ++ rest) = some (e, rest) := by
  have hdigit : ∀ c, rest.head? = some c → c.isDigit = false := fun c hc => (hrest c hc).1
  cases e with
  | none =>
    cases rest with
    | nil => rfl
    | cons c cs =>
      obtain ⟨-, -, he, hE⟩ := hrest c rfl
      simp [Literal.exponentText, exponent?, he, hE]
  | some e =>
    have hrun : ∀ n, run? (Digits.ofNat n ++ rest) = some (Digits.ofNat n, rest) :=
      fun n => run?_append (isRun_ofNat n) hdigit
    by_cases he : e < 0
    · simp only [Literal.exponentText, Layout.power, he, if_true, List.cons_append, exponent?,
        hrun, Option.map_some, Digits.toNat_ofNat, true_or]
      congr 3
      omega
    · simp only [Literal.exponentText, Layout.power, he, if_false, List.cons_append,
        List.nil_append, exponent?, hrun, Option.map_some, Digits.toNat_ofNat, true_or, if_true]
      congr 3
      omega

theorem fraction?_text {rest : List Char} (f : Option (List Char))
    (hf : ∀ ds, f = some ds → IsRun ds)
    (hrest : ∀ c, rest.head? = some c → c.isDigit = false ∧ c ≠ '.') :
    fraction? (Literal.fractionText f ++ rest) = some (f, rest) := by
  cases f with
  | none =>
    cases rest with
    | nil => rfl
    | cons c cs =>
      have hc := (hrest c rfl).2
      simp only [Literal.fractionText, List.nil_append]
      unfold fraction?
      split
      · simp_all
      · rfl
  | some ds =>
    rw [Literal.fractionText, List.cons_append, fraction?,
      run?_append (hf ds rfl) fun c hc => (hrest c hc).1]
    rfl

/-- A number is read up to its end. -/
theorem literal?_text {l : Literal} (hl : l.Proper) {rest : List Char} (hrest : EndsNumber rest) :
    literal? (l.text ++ rest) = some (l, rest) := by
  rcases l with ⟨negative, whole, fraction, exponent⟩
  have hwhole : IsRun whole := hl.whole
  -- Each part ends where the next one begins, so the parts are read from the last to the first.
  set tail := Literal.exponentText exponent ++ rest with htail
  have hexponent : exponent? tail = some (exponent, rest) := exponent?_text hrest exponent
  have htailHead : ∀ c, tail.head? = some c → c.isDigit = false ∧ c ≠ '.' := by
    cases exponent with
    | none => exact fun c hc => ⟨(hrest c hc).1, (hrest c hc).2.1⟩
    | some e =>
      intro c hc
      cases hc
      exact ⟨rfl, by decide⟩
  have hfraction : fraction? (Literal.fractionText fraction ++ tail) = some (fraction, tail) :=
    fraction?_text fraction hl.fraction htailHead
  have hrun : run? (whole ++ (Literal.fractionText fraction ++ tail))
      = some (whole, Literal.fractionText fraction ++ tail) := by
    refine run?_append hwhole fun c hc => ?_
    cases fraction with
    | none => exact (htailHead c hc).1
    | some ds => cases hc; rfl
  have hleading : ¬(whole.head? = some '0' ∧ whole ≠ ['0']) := fun h => h.2 (hl.leading h.1)
  have htext : Literal.text ⟨negative, whole, fraction, exponent⟩ ++ rest
      = (if negative then ['-'] else []) ++ (whole ++ (Literal.fractionText fraction ++ tail)) := by
    simp only [Literal.text, htail, List.append_assoc]
  rw [htext]
  cases negative with
  | true =>
    simp only [if_true, List.cons_append, List.nil_append, literal?, hrun, hfraction, hexponent,
      Option.bind_eq_bind, Option.bind_some, hleading, if_false]
    rfl
  | false =>
    cases whole with
    | nil => exact absurd rfl hwhole.1
    | cons c cs =>
      have hc : c ≠ '-' := fun h => absurd (hwhole.2 c List.mem_cons_self) (h ▸ by decide)
      simp only [Bool.false_eq_true, if_false, List.nil_append, literal?]
      split
      · simp_all
      · simp only [hrun, hfraction, hexponent, Option.bind_eq_bind, Option.bind_some, hleading,
          if_false]
        rfl

namespace Literal

/-- The literal that the layout of JSON writes a decimal as. -/
def ofDecimal (negative : Bool) (d : Decimal) : Literal :=
  let ds := Digits.ofNat d.digits
  let lead : Int := ds.length - 1 + d.exponent
  let places := (-d.exponent).toNat
  if layout.plain lead then
    if 0 ≤ d.exponent then
      ⟨negative, ds ++ List.replicate d.exponent.toNat '0', some ['0'], none⟩
    else if places < ds.length then
      ⟨negative, ds.take (ds.length - places), some (ds.drop (ds.length - places)), none⟩
    else
      ⟨negative, ['0'], some (List.replicate (places - ds.length) '0' ++ ds), none⟩
  else
    ⟨negative, ds.take 1, if ds.length = 1 then none else some (ds.drop 1), some lead⟩

theorem text_ofDecimal (negative : Bool) (d : Decimal) :
    (ofDecimal negative d).text = (if negative then ['-'] else []) ++ layout.decimal d := by
  simp only [ofDecimal, Layout.decimal, Layout.positional, Layout.scientific]
  split
  · split
    · simp [text, fractionText, exponentText, layout]
    · split <;> simp [text, fractionText, exponentText]
  · split <;> simp [text, fractionText, exponentText, layout]

@[simp] theorem negative_ofDecimal (negative : Bool) (d : Decimal) :
    (ofDecimal negative d).negative = negative := by
  simp only [ofDecimal]
  split
  · split
    · rfl
    · split <;> rfl
  · rfl

/-- A literal that a decimal is written as is no integer. -/
theorem value?_ofDecimal (negative : Bool) (d : Decimal) :
    (ofDecimal negative d).value? = (ofDecimal negative d).real? := by
  simp only [ofDecimal]
  split
  · split
    · rfl
    · split <;> rfl
  · split <;> rfl

/-- A zero must come without an exponent, as zeros would fill it up. -/
theorem proper_ofDecimal (negative : Bool) {d : Decimal} (hd : d.digits = 0 → d.exponent = 0) :
    (ofDecimal negative d).Proper := by
  have hdigit : ∀ c ∈ Digits.ofNat d.digits, c.isDigit = true :=
    fun _ => Digits.isDigit_of_mem_ofNat
  have hzeros : ∀ n, ∀ c ∈ List.replicate n '0', c.isDigit = true := by
    intro n c hc
    rw [List.eq_of_mem_replicate hc]
    rfl
  have hone : IsRun ['0'] := ⟨by simp, by simp⟩
  have htake : ∀ n, 0 < n → IsRun ((Digits.ofNat d.digits).take n) := fun n hn =>
    ⟨by simp [Digits.ofNat_ne_nil, hn.ne'], fun c hc => hdigit c (List.mem_of_mem_take hc)⟩
  have hdrop : ∀ n, n < (Digits.ofNat d.digits).length → IsRun ((Digits.ofNat d.digits).drop n) :=
    fun n hn => ⟨by simpa using hn, fun c hc => hdigit c (List.mem_of_mem_drop hc)⟩
  have hlen := Digits.length_pos d.digits
  unfold ofDecimal
  dsimp only
  split
  · split
    next h0 =>
      -- An integer: its digits, zeros up to the point, and one zero after it.
      refine ⟨⟨by simp [Digits.ofNat_ne_nil], fun c hc => ?_⟩, fun h => ?_, ?_⟩
      · exact (List.mem_append.1 hc).elim (hdigit c) (hzeros _ c)
      · have hz : d.digits = 0 := Digits.eq_zero_of_head (by
          rwa [List.head?_append, Option.or_of_isSome (by simp [Digits.ofNat_ne_nil])] at h)
        rw [hz, hd hz, Digits.ofNat_zero]
        rfl
      · rintro _ ⟨⟩
        exact hone
    next h0 =>
      split
      next hlt =>
        -- The point is among the digits.
        refine ⟨htake _ (by omega), fun h => ?_, ?_⟩
        · rw [List.head?_take, if_neg (by omega)] at h
          exact absurd (hd (Digits.eq_zero_of_head h)) (by omega)
        · rintro _ ⟨⟩
          exact hdrop _ (by omega)
      next hlt =>
        -- The digits come after the point, and after zeros.
        refine ⟨hone, fun _ => rfl, ?_⟩
        rintro _ ⟨⟩
        refine ⟨by simp [Digits.ofNat_ne_nil], fun c hc => ?_⟩
        exact (List.mem_append.1 hc).elim (hzeros _ c) (hdigit c)
  · -- One digit before the point, and an exponent.
    refine ⟨htake 1 (by decide), fun h => ?_, fun ds hds => ?_⟩
    · rw [List.head?_take, if_neg (by decide)] at h
      rw [Digits.eq_zero_of_head h, Digits.ofNat_zero]
      rfl
    · split at hds
      · cases hds
      · cases hds
        exact hdrop 1 (by omega)

/-- The literal says the decimal with zeros at its end, and not too long before the point. -/
theorem parts_ofDecimal (negative : Bool) (d : Decimal) :
    (ofDecimal negative d).whole.length ≤ maxWhole ∧
    ∃ n : Nat, Decimal.ofParts (ofDecimal negative d).whole
      ((ofDecimal negative d).fraction.getD []) ((ofDecimal negative d).exponent.getD 0)
        = ⟨d.digits * 10 ^ n, d.exponent - n⟩ := by
  unfold ofDecimal
  dsimp only
  split
  next hplain =>
    simp only [layout, Bool.and_eq_true, decide_eq_true_eq] at hplain
    split
    next h0 =>
      -- The zeros up to the point, and the one after it.
      refine ⟨?_, d.exponent.toNat + 1, ?_⟩
      · simp only [List.length_append, List.length_replicate, maxWhole]
        omega
      · simp only [Decimal.ofParts, Option.getD_some, Option.getD_none, Digits.toNat_append,
          Digits.toNat_ofNat, Digits.toNat_zeros, List.length_replicate]
        congr 1
        · show d.digits * 10 ^ d.exponent.toNat * 10 + 0 = _
          ring
        · simp only [List.length_singleton]
          omega
    next h0 =>
      split
      next hlt =>
        refine ⟨?_, 0, ?_⟩
        · simp only [List.length_take, maxWhole]
          omega
        · simp only [Decimal.ofParts, Option.getD_some, Option.getD_none,
            List.take_append_drop, Digits.toNat_ofNat, List.length_drop]
          congr 1
          · simp
          · omega
      next hlt =>
        refine ⟨by simp [maxWhole], 0, ?_⟩
        simp only [Decimal.ofParts, Option.getD_some, Option.getD_none, Digits.toNat_append,
          Digits.toNat_ofNat, Digits.toNat_zeros, List.length_replicate, List.length_append]
        congr 1
        · show 0 * _ + _ = _
          simp
        · omega
  next =>
    refine ⟨?_, 0, ?_⟩
    · simp [maxWhole]
    · have hfraction : (if (Digits.ofNat d.digits).length = 1 then none
          else some ((Digits.ofNat d.digits).drop 1)).getD [] = (Digits.ofNat d.digits).drop 1 := by
        split
        next h => rw [List.drop_eq_nil_of_le h.le, Option.getD_none]
        next => rfl
      rw [hfraction]
      simp only [Decimal.ofParts, Option.getD_some, List.take_append_drop, Digits.toNat_ofNat,
        List.length_drop]
      have := Digits.length_pos d.digits
      congr 1
      · simp
      · omega

theorem toFloat_ofDecimal (negative : Bool) (d : Decimal) :
    (ofDecimal negative d).decimal.toFloat = d.toFloat := by
  obtain ⟨hlen, n, hparts⟩ := parts_ofDecimal negative d
  rw [decimal, if_pos hlen, hparts, Decimal.toFloat_zeros]

end Literal

end Json

end Polling
