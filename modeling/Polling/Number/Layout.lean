import Polling.Number.Numeral

/-! # Layouts of numbers

A `Layout` says how the digits of a decimal are set out as text: which magnitudes are written
without an exponent, whether a whole number keeps a fraction, and whether an exponent above zero
carries a sign.  The digits themselves come from `Numeral.ofFloat`; layouts differ in them only
where two shortest decimals are equally near. -/

namespace Polling

/-- How a decimal is set out as text. -/
structure Layout where
  /-- Which powers of ten, of the leading digit, are written without an exponent. -/
  plain : Int → Bool
  /-- Whether a whole number written without an exponent ends in a point and a zero. -/
  fraction : Bool
  /-- Whether an exponent above zero carries a sign. -/
  plus : Bool
  /-- Which of two equally near decimals is written. -/
  tie : Tie

namespace Layout

/-- Digits with the point set by `exponent`, filled up with zeros. -/
def positional (fraction : Bool) (ds : List Char) (exponent : Int) : List Char :=
  if 0 ≤ exponent then
    ds ++ List.replicate exponent.toNat '0' ++ (if fraction then ['.', '0'] else [])
  else
    let places := (-exponent).toNat
    if places < ds.length then
      ds.take (ds.length - places) ++ '.' :: ds.drop (ds.length - places)
    else
      '0' :: '.' :: (List.replicate (places - ds.length) '0' ++ ds)

/-- The exponent of a number whose leading digit stands for `10 ^ lead`. -/
def power (plus : Bool) (lead : Int) : List Char :=
  if lead < 0 then '-' :: Digits.ofNat (-lead).toNat
  else (if plus then ['+'] else []) ++ Digits.ofNat lead.toNat

/-- One digit before the point, the others after it, and an exponent. -/
def scientific (plus : Bool) (ds : List Char) (lead : Int) : List Char :=
  ds.take 1 ++ (if ds.length = 1 then [] else '.' :: ds.drop 1) ++ 'e' :: power plus lead

/-- The text of a decimal. -/
def decimal (l : Layout) (d : Decimal) : List Char :=
  let ds := Digits.ofNat d.digits
  -- The power of ten that the first digit stands for.
  let lead : Int := ds.length - 1 + d.exponent
  if l.plain lead then positional l.fraction ds d.exponent else scientific l.plus ds lead

/-- The text of a numeral. -/
def numeral (l : Layout) : Numeral → List Char
  | .notANumber => ['N', 'a', 'N']
  | .infinity negative => (if negative then ['-'] else []) ++ ['i', 'n', 'f']
  | .finite negative d => (if negative then ['-'] else []) ++ l.decimal d

/-- The text of a binary number. -/
def float (l : Layout) (x : Float) : List Char := l.numeral (Numeral.ofFloat l.tie x)

/-- Every digit up to the point is written out, and whole numbers have no fraction; a tie goes away
from zero. -/
def digitsOnly : Layout := ⟨fun _ => true, false, false, .away⟩

end Layout

end Polling
