import Polling.Number.Numeral

/-! # Number literals

The grammars of numbers that stand alone in a text: `natural?` reads a natural number, `real?` a
binary number.  Neither allows blanks or separators.

`real?` rounds exactly, to the binary number nearest to the decimal in the text
(`Decimal.toFloat`).  This is where the assumption enters that the text of a number reads back as
that number. -/

namespace Polling

namespace Literal

/-- An optional sign and what follows it. -/
def sign : List Char → Bool × List Char
  | '-' :: cs => (true, cs)
  | '+' :: cs => (false, cs)
  | cs => (false, cs)

/-- A run of digits that is not empty, and nothing else. -/
def digits? (cs : List Char) : Option Nat :=
  if cs ≠ [] ∧ cs.all Char.isDigit then some (Digits.toNat cs) else none

/-- The largest natural number that is read. -/
def maxNatural : Nat := 18446744073709551615

/-- An optional plus sign and digits; at most `maxNatural`. -/
def natural? (cs : List Char) : Option Nat :=
  let ds := match cs with
    | '+' :: r => r
    | r => r
  (digits? ds).filter (· ≤ maxNatural)

/-- Nothing, or an exponent: its mark, an optional sign and digits. -/
def exponent? : List Char → Option Int
  | [] => some 0
  | c :: cs =>
    if c = 'e' ∨ c = 'E' then
      let (negative, ds) := sign cs
      (digits? ds).map fun n => if negative then -(n : Int) else n
    else
      none

/-- Digits with an optional point, at least one digit on either side of it, and an optional
exponent. -/
def decimal? (cs : List Char) : Option Decimal :=
  let whole := cs.takeWhile Char.isDigit
  let rest := cs.dropWhile Char.isDigit
  let (fraction, rest) := match rest with
    | '.' :: r => (r.takeWhile Char.isDigit, r.dropWhile Char.isDigit)
    | r => ([], r)
  if whole = [] ∧ fraction = [] then none
  else (exponent? rest).map fun e => Decimal.ofParts whole fraction e

/-- An optional sign, then a decimal, or in any case one of the words `inf`, `infinity` and
`nan`. -/
def real? (cs : List Char) : Option Float :=
  let (negative, body) := sign cs
  let word := body.map Char.toLower
  if word = ['i', 'n', 'f'] ∨ word = ['i', 'n', 'f', 'i', 'n', 'i', 't', 'y'] then
    some (Numeral.infinity negative).toFloat
  else if word = ['n', 'a', 'n'] then
    some Numeral.notANumber.toFloat
  else
    (decimal? body).map fun d => (Numeral.finite negative d).toFloat

end Literal

end Polling
