import Polling.Json.Reader
import Polling.Pacing

/-! # Pacings as JSON

A pacing is written as an object with its three durations in whole milliseconds and its growth,
which is an object tagged by its kind.  It is read from such an object, with its members in any
order and others ignored, or from an array of the members' values.  The growth may be left out. -/

namespace Polling

open Json (Reader Mismatch Value)

namespace Growth

/-- The text of a growth. -/
def json : Growth → List Char
  | exponential x =>
    "\x7b\"kind\":\"exponential\",\"multiplier\":".toList ++ Json.real x ++ ['\x7d']
  | linear step =>
    "\x7b\"kind\":\"linear\",\"step\":".toList ++ Json.natural step.millis ++ ['\x7d']

/-- Which growth it is. -/
inductive Kind where
  | exponential
  | linear
deriving DecidableEq

namespace Kind

/-- The name that tags a growth. -/
def name : Kind → String
  | exponential => "exponential"
  | linear => "linear"

/-- The one field beside the tag. -/
def field : Kind → String
  | exponential => "multiplier"
  | linear => "step"

/-- What a message calls the fields that must follow the tag in an array. -/
def wanted : Kind → String
  | exponential => "struct variant BackoffStrategy::Exponential with 1 element"
  | linear => "struct variant BackoffStrategy::Linear with 1 element"

/-- The kind with a given name. -/
def ofName? (s : String) : Option Kind := [exponential, linear].find? fun k => k.name = s

/-- The tag of a growth. -/
def read : Reader Kind := do
  match ← Reader.glance true with
  | .string s =>
    match ofName? s with
    | some k => pure k
    | none => Reader.fail (.name s [exponential.name, linear.name])
  | v => Reader.fail (.type v "variant identifier")

/-- A growth of this kind with the given value of its field. -/
def growth (k : Kind) (v : Value) : Except Mismatch Growth :=
  match k with
  | exponential => v.asReal.map Growth.exponential
  | linear => v.asNatural.map fun n => Growth.linear (.ofMillis n)

/-- A growth of this kind from the members beside its tag, in reading order. -/
def ofMembers (k : Kind) (members : List (String × Value)) : Except Mismatch Growth :=
  match members.filter fun m => m.1 = k.field with
  | [] => .error (.missing k.field)
  | [(_, v)] => k.growth v
  -- The first value is looked at before the second one is met.
  | (_, v) :: _ => do
    let _ ← k.growth v
    .error (.duplicate k.field)

/-- A growth of this kind from the items after its tag. -/
def ofItems (k : Kind) : List Value → Except Mismatch Growth
  | [] => .error (.length 0 k.wanted)
  | [v] => k.growth v
  | v :: more => do
    let _ ← k.growth v
    .error (.length (1 + more.length) "1 element in sequence")

end Kind

/-- One member of a growth: its tag, or a value to be looked at once the tag is known. -/
def member (depth : Nat) (key : String) (s : Option Kind × List (String × Value)) :
    Reader (Option Kind × List (String × Value)) := do
  if key = "kind" then
    -- A repeated key is an error before its value is read.
    Reader.once key s.1
    Reader.take ':'
    return (some (← Kind.read), s.2)
  else
    Reader.take ':'
    return (s.1, s.2 ++ [(key, ← Reader.value true depth)])

/-- A growth whose containers nest at most `depth` deep, itself included. -/
def read (depth : Nat) : Reader Growth := do
  match ← Reader.glance true with
  | .map =>
    let (kind, members) ← Reader.object true (member (depth - 1)) (none, [])
    -- The tag may come last, so the other members wait until all are read.
    let kind ← Reader.require "kind" kind
    Reader.expect (kind.ofMembers members)
  | .sequence =>
    Reader.take '['
    if ← Reader.hasItem true then
      let kind ← Kind.read
      Reader.expect (kind.ofItems (← Reader.rest (Reader.value true (depth - 1)) false))
    else
      Reader.fail (.missing "kind")
  | v => Reader.fail (.type v "internally tagged enum BackoffStrategy")

/-- Reads a growth from a text. -/
def ofJson (text : String) : Except Json.Error Growth :=
  Reader.run (read Reader.maxDepth) text

end Growth

namespace Pacing

/-- The text of a pacing. -/
def json (p : Pacing) : List Char :=
  "\x7b\"initial_delay\":".toList ++ Json.natural p.initial.millis
    ++ ",\"max_delay\":".toList ++ Json.natural p.longest.millis
    ++ ",\"min_increment\":".toList ++ Json.natural p.increment.millis
    ++ ",\"backoff\":".toList ++ p.growth.json ++ ['\x7d']

/-- A duration, in whole milliseconds. -/
def readMillis : Reader Duration := do return .ofMillis (← Reader.natural)

/-- The members of a pacing that have been read. -/
structure Draft where
  initial : Option Duration := none
  longest : Option Duration := none
  increment : Option Duration := none
  growth : Option Growth := none

/-- One member of a pacing. -/
def Draft.member (key : String) (d : Draft) : Reader Draft := do
  match key with
  | "initial_delay" =>
    Reader.once key d.initial
    Reader.take ':'
    return { d with initial := some (← readMillis) }
  | "max_delay" =>
    Reader.once key d.longest
    Reader.take ':'
    return { d with longest := some (← readMillis) }
  | "min_increment" =>
    Reader.once key d.increment
    Reader.take ':'
    return { d with increment := some (← readMillis) }
  | "backoff" =>
    Reader.once key d.growth
    Reader.take ':'
    return { d with growth := some (← Growth.read (Reader.maxDepth - 1)) }
  | _ =>
    Reader.take ':'
    Reader.skip
    return d

/-- The pacing, once all members have been read. -/
def Draft.finish (d : Draft) : Reader Pacing := do
  return {
    initial := ← Reader.require "initial_delay" d.initial
    longest := ← Reader.require "max_delay" d.longest
    increment := ← Reader.require "min_increment" d.increment
    growth := d.growth.getD .doubling }

/-- What a message calls the items of a pacing that is written as an array. -/
def wantedItems : String := "struct PollerConfig with 4 elements"

/-- A pacing that is written as an array, after its opening bracket. -/
def readItems : Reader Pacing := do
  let initial ← Reader.item 0 wantedItems readMillis
  let longest ← Reader.item 1 wantedItems readMillis
  let increment ← Reader.item 2 wantedItems readMillis
  let growth ← if ← Reader.hasItem false then Growth.read (Reader.maxDepth - 1) else pure .doubling
  Reader.take ']'
  return { initial, longest, increment, growth }

/-- A pacing. -/
def read : Reader Pacing := do
  match ← Reader.glance true with
  | .map =>
    let d ← Reader.object true Draft.member {}
    d.finish
  | .sequence =>
    Reader.take '['
    readItems
  | v => Reader.fail (.type v "struct PollerConfig")

/-- Reads a pacing from a text. -/
def ofJson (text : String) : Except Json.Error Pacing := Reader.run read text

/-- Whether the text of a pacing, read again, agrees with it. -/
def survivesJson (p : Pacing) : Except Json.Error Bool :=
  (ofJson (String.ofList p.json)).map fun q => q.agrees p

end Pacing

end Polling
