import Polling.Number.Digits

/-! # Decimal numbers

A `Decimal` is a number `digits * 10 ^ exponent`.  `Decimal.trim` moves trailing zeros of the
digits into the exponent, so the same number written with more zeros trims to the same decimal
(`trim_shift`).  `Decimal.toFloat` gives the binary number nearest to a decimal; it trims first
and therefore depends on the number alone, not on how it was written (`toFloat_shift`). -/

namespace Polling

/-- The number `digits * 10 ^ exponent`. -/
structure Decimal where
  digits : Nat
  exponent : Int
deriving DecidableEq, Inhabited

namespace Decimal

/-- The same number without trailing zeros in its digits. -/
def trim (d : Decimal) : Decimal :=
  if d.digits ≠ 0 ∧ d.digits % 10 = 0 then
    trim ⟨d.digits / 10, d.exponent + 1⟩
  else
    d
termination_by d.digits
decreasing_by omega

/-- The binary number nearest to a decimal, a tie going to the even neighbour; beyond the largest
one, infinity. -/
def toFloat (d : Decimal) : Float :=
  Float.ofModel (Float.Model.ofScientific d.trim.digits d.trim.exponent)

/-- The decimal denoted by digits with a point before the last `places` of them, times
`10 ^ exponent`. -/
def ofParts (whole fraction : List Char) (exponent : Int) : Decimal :=
  ⟨Digits.toNat (whole ++ fraction), exponent - fraction.length⟩

/-- A zero more among the digits is a smaller exponent. -/
theorem trim_shift (d : Decimal) (h : d.digits ≠ 0) :
    trim ⟨10 * d.digits, d.exponent - 1⟩ = d.trim := by
  rw [trim]
  have h0 : 10 * d.digits ≠ 0 ∧ 10 * d.digits % 10 = 0 := ⟨by omega, by omega⟩
  simp only [h0, ne_eq, not_false_eq_true, and_self, if_true]
  congr 2
  · omega
  · omega

theorem toFloat_shift (d : Decimal) (h : d.digits ≠ 0) :
    toFloat ⟨10 * d.digits, d.exponent - 1⟩ = d.toFloat := by
  simp only [toFloat, trim_shift d h]

end Decimal

end Polling
