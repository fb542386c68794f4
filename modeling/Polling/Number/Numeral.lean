import Polling.Number.Decimal

/-! # Decimal numerals of binary numbers

A `Numeral` is what a text says about a binary number: it is no number, an infinity, or a signed
decimal.  `Numeral.ofFloat` picks the decimal with the fewest digits that reads back, of those the
nearest to the number, and of two equally near the one that a `Tie` names.  Whatever the search
over one to seventeen digits finds does read back (`toFloat_of_search`); should it find nothing,
the numeral is the number's exact decimal expansion. -/

namespace Polling

/-- What a text says about a binary number. -/
inductive Numeral where
  | notANumber
  | infinity (negative : Bool)
  | finite (negative : Bool) (value : Decimal)
deriving DecidableEq

/-- Which of two decimals is taken that are equally near to a number. -/
inductive Tie where
  /-- The one whose last digit is even. -/
  | toEven
  /-- The one farther from zero. -/
  | away
deriving DecidableEq

/-- Whether the lower of two equally near neighbours is taken, given its digits. -/
def Tie.takesLower : Tie → Nat → Bool
  | toEven, below => below % 2 = 0
  | away, _ => false

namespace Numeral

/-- `x`, or its negation. -/
def signed (negative : Bool) (x : Float) : Float := if negative then -x else x

/-- The binary number that a numeral reads as. -/
def toFloat : Numeral → Float
  | notANumber => 0.0 / 0.0
  | infinity negative => signed negative (1.0 / 0.0)
  | finite negative d => signed negative d.toFloat

/-- The least `p` with `num / den < 10 ^ p`. -/
def magnitude (num den : Nat) : Int :=
  -- The numbers of digits tell the power up to one.
  let p : Int := Digits.length num - Digits.length den
  if num * Nat.pow 10 (-p).toNat < den * Nat.pow 10 p.toNat then p else p + 1

/-- The two multiples of `10 ^ exponent` that `num / den` lies between, the nearer one first; of
two equally near the one that the tie names comes first. -/
def neighbours (tie : Tie) (num den : Nat) (exponent : Int) : List Decimal :=
  let num := num * Nat.pow 10 (-exponent).toNat
  let den := den * Nat.pow 10 exponent.toNat
  let below := num / den
  let twice := 2 * (num % den)
  if twice < den ∨ (twice = den ∧ tie.takesLower below) then
    [⟨below, exponent⟩, ⟨below + 1, exponent⟩]
  else
    [⟨below + 1, exponent⟩, ⟨below, exponent⟩]

/-- The most digits that the search tries. -/
def maxDigits : Nat := 17

/-- The first neighbour of `num / den` that reads back as `x`, over one, two, ... digits. -/
def search (tie : Tie) (x : Float) (negative : Bool) (num den : Nat) : Option Decimal :=
  (List.range maxDigits).findSome? fun n =>
    (neighbours tie num den (magnitude num den - (n + 1 : Nat))).find? fun d =>
      (finite negative d).toFloat = x

/-- The exact decimal expansion of `m * 2 ^ e`. -/
def expansion (m : Nat) (e : Int) : Decimal :=
  ⟨m * Nat.pow 2 e.toNat * Nat.pow 5 (-e).toNat, -((-e).toNat : Int)⟩

/-- The shortest decimal that reads back as `x`, whose absolute value is `m * 2 ^ e`. -/
def shortest (tie : Tie) (x : Float) (negative : Bool) (m : Nat) (e : Int) : Decimal :=
  ((search tie x negative (m * Nat.pow 2 e.toNat) (Nat.pow 2 (-e).toNat)).getD
    (expansion m e)).trim

/-- The numeral that a binary number is written with. -/
def ofFloat (tie : Tie) (x : Float) : Numeral :=
  match x.toModel.unpack with
  | .notANumber => notANumber
  | .infinity s => infinity (s == .negative)
  | .zero s => finite (s == .negative) ⟨0, 0⟩
  | .finite s m e _ => finite (s == .negative) (shortest tie x (s == .negative) m e)

/-- Whatever the search finds reads back. -/
theorem toFloat_of_search {tie : Tie} {x : Float} {negative : Bool} {num den : Nat} {d : Decimal}
    (h : search tie x negative num den = some d) : (finite negative d).toFloat = x := by
  obtain ⟨n, -, hn⟩ := List.exists_of_findSome?_eq_some h
  simpa using List.find?_some hn

end Numeral

end Polling
