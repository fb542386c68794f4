import Polling.Number.Layout
import Polling.Text.Quoted

/-! # Values and errors of JSON reading

A reader of typed JSON goes through the text once and stops at the first error.  The text may be
`malformed`, or it may hold something else than what is wanted there, a `Mismatch`.  What was
found is reported as a `Value`; of arrays and objects only their kind is known. -/

namespace Polling

namespace Json

/-- What stands at some place of a text. -/
inductive Value where
  | null
  | bool (b : Bool)
  /-- An integer of at most sixty-four bits. -/
  | integer (n : Int)
  | real (x : Float)
  | string (s : String)
  | sequence
  | map
deriving DecidableEq

/-- Numbers have a fraction or an exponent with a sign; a leading digit that stands for a power
of ten from `-5` to `15` needs no exponent.  A tie goes to the even digit. -/
def layout : Layout := ⟨fun lead => -5 ≤ lead && lead ≤ 15, true, true, .toEven⟩

/-- The text of a natural number. -/
def natural (n : Nat) : List Char := Digits.ofNat n

/-- The text of a binary number; there is none for infinities and for no number. -/
def real (x : Float) : List Char :=
  if x.isFinite then layout.float x else ['n', 'u', 'l', 'l']

/-- How a message names what was found. -/
def Value.describe : Value → String
  | null => "null"
  | bool b => "boolean " ++ "`" ++ (if b then "true" else "false") ++ "`"
  | integer n =>
    "integer `" ++ (if n < 0 then "-" else "") ++ String.ofList (natural n.natAbs) ++ "`"
  | real x => "floating point `" ++ String.ofList (layout.float x) ++ "`"
  | string s => "string " ++ Quoted.text s
  | sequence => "sequence"
  | map => "map"

/-- Something else stands in the text than what is wanted there. -/
inductive Mismatch where
  /-- A value of another kind. -/
  | type (found : Value) (wanted : String)
  /-- A value of the right kind that is out of range. -/
  | range (found : Value) (wanted : String)
  /-- A name that is none of the known ones. -/
  | name (found : String) (known : List String)
  /-- An array of the wrong length. -/
  | length (found : Nat) (wanted : String)
  | missing (field : String)
  | duplicate (field : String)
deriving DecidableEq

/-- A list of names for a message. -/
def choices (known : List String) : String :=
  let quoted := known.map fun n => "`" ++ n ++ "`"
  match quoted with
  | [a, b] => a ++ " or " ++ b
  | _ => "one of " ++ ", ".intercalate quoted

/-- The wording of a mismatch. -/
def Mismatch.message : Mismatch → String
  | type found wanted => "invalid type: " ++ found.describe ++ ", expected " ++ wanted
  | range found wanted => "invalid value: " ++ found.describe ++ ", expected " ++ wanted
  | name found known => "unknown variant `" ++ found ++ "`, expected " ++ choices known
  | length found wanted =>
    "invalid length " ++ String.ofList (natural found) ++ ", expected " ++ wanted
  | missing field => "missing field `" ++ field ++ "`"
  | duplicate field => "duplicate field `" ++ field ++ "`"

/-- Why a text cannot be read. -/
inductive Error where
  | malformed
  | mismatch (m : Mismatch)
deriving DecidableEq

/-- A natural number of at most sixty-four bits. -/
def Value.asNatural : Value → Except Mismatch Nat
  | .integer n => if 0 ≤ n then .ok n.toNat else .error (.range (.integer n) "u64")
  | v => .error (.type v "u64")

/-- A binary number; integers are taken to the nearest one. -/
def Value.asReal : Value → Except Mismatch Float
  | .integer n => .ok (Numeral.finite (n < 0) ⟨n.natAbs, 0⟩).toFloat
  | .real x => .ok x
  | v => .error (.type v "f64")

end Json

end Polling
