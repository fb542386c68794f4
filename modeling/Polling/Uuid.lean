/-! # Universally unique identifiers

`Uuid.canonical?` reads an identifier in one of its usual spellings and gives the one that is
shown: thirty-two hexadecimal digits in lower case, in groups of 8, 4, 4, 4 and 12. -/

namespace Polling

namespace Uuid

/-- Whether a character is a hexadecimal digit. -/
def isHexDigit (c : Char) : Bool :=
  c.isDigit || ('a' ≤ c && c ≤ 'f') || ('A' ≤ c && c ≤ 'F')

/-- Hyphens between the groups of thirty-two digits. -/
def hyphenate (ds : List Char) : List Char :=
  ds.take 8 ++ '-' :: (ds.drop 8).take 4 ++ '-' :: (ds.drop 12).take 4 ++ '-' ::
    (ds.drop 16).take 4 ++ '-' :: ds.drop 20

/-- Thirty-two digits, with hyphens between the groups or without. -/
def digits? (cs : List Char) : Option (List Char) :=
  let ds := cs.filter fun c => c ≠ '-'
  -- Hyphens are either all left out or stand exactly between the groups.
  if ds.length = 32 ∧ ds.all isHexDigit ∧ (cs = ds ∨ cs = hyphenate ds) then some ds else none

/-- What stands between braces or after the scheme name; the groups must then be hyphenated. -/
def unwrap (cs : List Char) : List Char :=
  let scheme := ['u', 'r', 'n', ':', 'u', 'u', 'i', 'd', ':']
  if cs.length = 45 ∧ scheme.isPrefixOf cs then cs.drop 9
  else if cs.length = 38 ∧ cs.head? = some '\x7b' ∧ cs.getLast? = some '\x7d' then
    (cs.drop 1).dropLast
  else cs

/-- The canonical spelling of an identifier. -/
def canonical? (text : String) : Option String :=
  (digits? (unwrap text.toList)).map fun ds => String.ofList (hyphenate (ds.map Char.toLower))

end Uuid

end Polling
