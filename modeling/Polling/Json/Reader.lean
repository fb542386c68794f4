import Polling.Json.Lexeme

/-! # Readers of typed JSON

A `Reader α` reads an `α` at the front of a text and leaves what follows it.  Readers go through
the text in order, so the first error in reading order is the one that is reported.

`glance` reads a value that is no container and stops in front of one that is.  `value` reads any
value; one that is `kept` may nest only so deep, one that is skipped as deep as it likes.
`object` and `items` read containers whose parts are typed by the caller.

`number` rounds exactly: what it reads is the binary number that is nearest to the decimal in the
text, however many digits that has (`Literal.real?`).  This is an assumption about numbers, and the
only one: a reader that rounds more than once on the way is faster, but may end up next to the
number that was written.  Everything that says that the text of a number reads back as that number
rests on it (`Numeral.toFloat_of_search`). -/

namespace Polling

namespace Json

/-- Reads at the front of a text. -/
abbrev Reader := StateT (List Char) (Except Error)

namespace Reader

/-- The text cannot go on like this. -/
def malformed {α : Type} : Reader α := throw .malformed

/-- A value that is not what is wanted. -/
def fail {α : Type} (m : Mismatch) : Reader α := throw (.mismatch m)

/-- A value that has been read, looked at as what is wanted. -/
def expect {α : Type} : Except Mismatch α → Reader α
  | .ok a => pure a
  | .error m => fail m

/-- Reads what a lexeme reads. -/
def lexeme {α : Type} (f : List Char → Option (α × List Char)) : Reader α := do
  match f (← get) with
  | some (a, rest) => set rest; pure a
  | none => malformed

/-- The characters between the parts of a text that mean nothing. -/
def isBlank (c : Char) : Bool := c = ' ' || c = '\t' || c = '\n' || c = '\r'

/-- The first character after blanks. -/
def peek : Reader (Option Char) := do
  modify (List.dropWhile isBlank)
  return (← get).head?

/-- Takes the character that must come next after blanks. -/
def take (c : Char) : Reader Unit := do
  if (← peek) = some c then modify (List.drop 1) else malformed

/-- Takes a word that must come next. -/
def word (w : List Char) : Reader Unit := do
  if w.isPrefixOf (← get) then modify (List.drop w.length) else malformed

/-- A string, from its opening quotation mark on. -/
def string (kept : Bool) : Reader String := do
  take '"'
  return String.ofList (← lexeme (string? kept))

/-- A number. -/
def number (kept : Bool) : Reader Value := do
  let l ← lexeme literal?
  if kept then
    match l.value? with
    | some v => pure v
    | none => malformed
  else
    pure .null

/-- Reads a value that is no container; stops in front of a container and tells its kind. -/
def glance (kept : Bool) : Reader Value := do
  match ← peek with
  | some 'n' => word ['n', 'u', 'l', 'l']; pure .null
  | some 't' => word ['t', 'r', 'u', 'e']; pure (.bool true)
  | some 'f' => word ['f', 'a', 'l', 's', 'e']; pure (.bool false)
  | some '"' => return .string (← string kept)
  | some '[' => pure .sequence
  | some '\x7b' => pure .map
  | some c => if c = '-' ∨ c.isDigit then number kept else malformed
  | none => malformed

/-- Whether an array goes on, with its separator taken; the first item has none. -/
def hasItem (first : Bool) : Reader Bool := do
  match ← peek with
  | some ']' => pure false
  | some ',' =>
    if first then malformed else
      take ','
      -- A separator promises another item.
      match ← peek with
      | some ']' => malformed
      | some _ => pure true
      | none => malformed
  | some _ => if first then pure true else malformed
  | none => malformed

/-- Whether an object goes on, with its separator taken; the first member has none. -/
def hasMember (first : Bool) : Reader Bool := do
  match ← peek with
  | some '\x7d' => pure false
  | some ',' =>
    if first then malformed else
      take ','
      match ← peek with
      | some '"' => pure true
      | _ => malformed
  | some '"' => if first then pure true else malformed
  | _ => malformed

/-- The items of an array up to its end; more than `fuel` of them are not read. -/
def items {α : Type} (item : Reader α) : (fuel : Nat) → (first : Bool) → Reader (List α)
  | 0, _ => malformed
  | fuel + 1, first => do
    if ← hasItem first then
      let a ← item
      return a :: (← items item fuel false)
    else
      return []

/-- The members of an object up to its end, each read after its key; more than `fuel` of them are
not read. -/
def members {σ : Type} (kept : Bool) (member : String → σ → Reader σ) :
    (fuel : Nat) → (first : Bool) → σ → Reader σ
  | 0, _, _ => malformed
  | fuel + 1, first, s => do
    if ← hasMember first then
      let key ← string kept
      let s ← member key s
      members kept member fuel false s
    else
      return s

/-- The rest of an array after some of its items, and its end.  Every item takes at least one
character, so there are fewer items than characters. -/
def rest {α : Type} (item : Reader α) (first : Bool) : Reader (List α) := do
  let as ← items item ((← get).length + 1) first
  take ']'
  return as

/-- An object, from its opening brace on. -/
def object {σ : Type} (kept : Bool) (member : String → σ → Reader σ) (s : σ) : Reader σ := do
  take '\x7b'
  let s ← members kept member ((← get).length + 1) true s
  take '\x7d'
  return s

/-- Any value whose containers nest at most `depth` deep. -/
def value (kept : Bool) : (depth : Nat) → Reader Value
  | 0 => do
    match ← glance kept with
    | .sequence | .map => malformed
    | v => pure v
  | depth + 1 => do
    match ← glance kept with
    | .sequence =>
      take '['
      let _ ← rest (value kept depth) true
      pure .sequence
    | .map =>
      object kept (fun _ _ => do take ':'; let _ ← value kept depth) ()
      pure .map
    | v => pure v

/-- How deep the containers of a text that is kept may nest. -/
def maxDepth : Nat := 127

/-- Skips a value that nobody wants.  It cannot nest deeper than there are characters. -/
def skip : Reader Unit := do
  let _ ← value false (← get).length

/-- A natural number. -/
def natural : Reader Nat := do expect (← glance true).asNatural

/-- The item at a place of an array that must be there. -/
def item {α : Type} (place : Nat) (wanted : String) (r : Reader α) : Reader α := do
  if ← hasItem (place = 0) then r else fail (.length place wanted)

/-- Fails if a field has a value already. -/
def once {α : Type} (field : String) : Option α → Reader Unit
  | none => pure ()
  | some _ => fail (.duplicate field)

/-- The value of a field that must be there. -/
def require {α : Type} (field : String) : Option α → Reader α
  | some a => pure a
  | none => fail (.missing field)

/-- Reads a whole text. -/
def run {α : Type} (r : Reader α) (text : String) : Except Error α := do
  let (a, rest) ← StateT.run r text.toList
  if rest.all isBlank then return a else throw .malformed

end Reader

end Json

end Polling
