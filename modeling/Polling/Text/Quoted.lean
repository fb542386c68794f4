import Polling.Number.Digits
import Polling.Text.Unprintable

/-! # Quoted text

`Quoted.text` writes a text between quotation marks so that it can be told from what surrounds
it: quotation marks and backslashes are escaped, and so is every character that cannot be printed
by itself. -/

namespace Polling

namespace Quoted

/-- A hexadecimal digit, for `d` below sixteen. -/
def hexDigit (d : Nat) : Char := if d < 10 then Char.ofNat (48 + d) else Char.ofNat (87 + d)

/-- Hexadecimal digits in lower case, most significant first. -/
def hex (n : Nat) : List Char :=
  if n < 16 then [hexDigit n] else hex (n / 16) ++ [hexDigit (n % 16)]

/-- A character as it stands in quoted text. -/
def char (c : Char) : List Char :=
  if c = '"' ∨ c = '\\' then ['\\', c]
  else if c = '\n' then ['\\', 'n']
  else if c = '\r' then ['\\', 'r']
  else if c = '\t' then ['\\', 't']
  else if c.toNat = 0 then ['\\', '0']
  else if Unprintable.has c then ['\\', 'u', '\x7b'] ++ hex c.toNat ++ ['\x7d']
  else [c]

/-- A text between quotation marks. -/
def text (s : String) : String := String.ofList ('"' :: s.toList.flatMap char ++ ['"'])

end Quoted

end Polling
