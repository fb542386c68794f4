import Polling.Json.Value

/-! # Strings and numbers of JSON

The two lexemes of JSON that have an inner form.  Both are read from a list of characters, and
what follows them is handed back.  A lexeme that is skipped need only be well formed; one that is
`kept` must also denote something: its surrogates come in pairs, and its number is in range. -/

namespace Polling

namespace Json

/-- The value of a hexadecimal digit. -/
def hexValue? (c : Char) : Option Nat :=
  if c.isDigit then some (c.toNat - 48)
  else if 'a' ≤ c ∧ c ≤ 'f' then some (c.toNat - 87)
  else if 'A' ≤ c ∧ c ≤ 'F' then some (c.toNat - 55)
  else none

/-- The value of four hexadecimal digits. -/
def hexUnit? (a b c d : Char) : Option Nat := do
  return (((← hexValue? a) * 16 + (← hexValue? b)) * 16 + (← hexValue? c)) * 16 + (← hexValue? d)

/-- Whether a unit opens a surrogate pair. -/
def isHighSurrogate (n : Nat) : Bool := 0xD800 ≤ n && n ≤ 0xDBFF

/-- Whether a unit closes a surrogate pair. -/
def isLowSurrogate (n : Nat) : Bool := 0xDC00 ≤ n && n ≤ 0xDFFF

/-- The character of a surrogate pair. -/
def pairedChar (high low : Nat) : Char :=
  Char.ofNat (0x10000 + (high - 0xD800) * 0x400 + (low - 0xDC00))

/-- The character behind a backslash that stands for one character. -/
def unescape? : Char → Option Char
  | '"' => some '"'
  | '\\' => some '\\'
  | '/' => some '/'
  | 'b' => some '\x08'
  | 'f' => some '\x0c'
  | 'n' => some '\n'
  | 'r' => some '\r'
  | 't' => some '\t'
  | _ => none

/-- The characters of a string up to its closing quotation mark, and what follows that. -/
def string? (kept : Bool) : List Char → Option (List Char × List Char)
  | [] => none
  | ['\\'] => none
  | '"' :: cs => some ([], cs)
  | '\\' :: 'u' :: a :: b :: c :: d :: cs =>
    match hexUnit? a b c d with
    | none => none
    | some n =>
      -- A skipped string keeps nothing, so half a pair does no harm there.
      if kept && isLowSurrogate n then none
      else if kept && isHighSurrogate n then
        match cs with
        | '\\' :: 'u' :: e :: f :: g :: h :: cs =>
          match hexUnit? e f g h with
          | none => none
          | some m =>
            if isLowSurrogate m then
              (string? kept cs).map fun (s, rest) => (pairedChar n m :: s, rest)
            else
              none
        | _ => none
      else
        (string? kept cs).map fun (s, rest) => (Char.ofNat n :: s, rest)
  | '\\' :: c :: cs =>
    match unescape? c with
    | none => none
    | some c => (string? kept cs).map fun (s, rest) => (c :: s, rest)
  | c :: cs =>
    if c.toNat < 32 then none else (string? kept cs).map fun (s, rest) => (c :: s, rest)

/-- A number as it is written. -/
structure Literal where
  negative : Bool
  whole : List Char
  fraction : Option (List Char)
  exponent : Option Int
deriving DecidableEq

/-- A run of digits that is not empty, and what follows it. -/
def run? (cs : List Char) : Option (List Char × List Char) :=
  match cs.takeWhile Char.isDigit with
  | [] => none
  | ds => some (ds, cs.dropWhile Char.isDigit)

/-- A point and digits, or nothing. -/
def fraction? : List Char → Option (Option (List Char) × List Char)
  | '.' :: cs => (run? cs).map fun (ds, rest) => (some ds, rest)
  | cs => some (none, cs)

/-- The mark of an exponent, an optional sign and digits, or nothing. -/
def exponent? : List Char → Option (Option Int × List Char)
  | [] => some (none, [])
  | c :: cs =>
    if c = 'e' ∨ c = 'E' then
      match cs with
      | '-' :: cs => (run? cs).map fun (ds, rest) => (some (-(Digits.toNat ds : Int)), rest)
      | '+' :: cs => (run? cs).map fun (ds, rest) => (some (Digits.toNat ds : Int), rest)
      | cs => (run? cs).map fun (ds, rest) => (some (Digits.toNat ds : Int), rest)
    else
      some (none, c :: cs)

/-- A number: an optional minus sign, digits without leading zeros, a fraction, an exponent. -/
def literal? (cs : List Char) : Option (Literal × List Char) := do
  let (negative, cs) := match cs with
    | '-' :: cs => (true, cs)
    | cs => (false, cs)
  let (whole, cs) ← run? cs
  if whole.head? = some '0' ∧ whole ≠ ['0'] then none
  let (fraction, cs) ← fraction? cs
  let (exponent, cs) ← exponent? cs
  return (⟨negative, whole, fraction, exponent⟩, cs)

/-- The most digits before the point that are looked at. -/
def maxWhole : Nat := 768

/-- The decimal that a number stands for, but for its sign.  A whole part of more than `maxWhole`
digits counts as a little more than its first `maxWhole` digits say, even if only zeros follow
them. -/
def Literal.decimal (l : Literal) : Decimal :=
  let exponent := l.exponent.getD 0
  if l.whole.length ≤ maxWhole then
    Decimal.ofParts l.whole (l.fraction.getD []) exponent
  else
    -- No tie between binary numbers takes more digits, so the one at the end can only break a tie.
    Decimal.ofParts (l.whole.take maxWhole ++ ['1']) []
      (exponent + (l.whole.length - maxWhole - 1 : Nat))

/-- The number as a binary number; none beyond the largest one. -/
def Literal.real? (l : Literal) : Option Value :=
  let x := (Numeral.finite l.negative l.decimal).toFloat
  if x.isFinite then some (.real x) else none

/-- The value of a number.  Digits alone are an integer if that fits: from zero up to sixty-four
bits, below zero down to the least number of sixty-four bits with a sign. -/
def Literal.value? (l : Literal) : Option Value :=
  match l.fraction, l.exponent with
  | none, none =>
    let n := Digits.toNat l.whole
    if l.negative then
      -- There is no negative zero among the integers.
      if n = 0 ∨ Nat.pow 2 63 < n then l.real? else some (.integer (-n))
    else
      if Nat.pow 2 64 ≤ n then l.real? else some (.integer n)
  | _, _ => l.real?

end Json

end Polling
