import Polling.Phase

/-! # Gauges

What can be read off a poller at one moment: its phase, how many polls came back empty and how
many with a payload, and the pause after the next empty poll. -/

namespace Polling

open Json (Reader)

/-- The gauges of a poller. -/
structure Gauges where
  phase : Phase
  emptyPolls : Nat
  payloadPolls : Nat
  delayMillis : Nat
deriving DecidableEq

namespace Gauges

/-- The text of gauges. -/
def json (g : Gauges) : List Char :=
  "\x7b\"state\":".toList ++ g.phase.json
    ++ ",\"empty_polls\":".toList ++ Json.natural g.emptyPolls
    ++ ",\"payload_polls\":".toList ++ Json.natural g.payloadPolls
    ++ ",\"current_delay_ms\":".toList ++ Json.natural g.delayMillis ++ ['\x7d']

/-- The members of gauges that have been read. -/
structure Draft where
  phase : Option Phase := none
  emptyPolls : Option Nat := none
  payloadPolls : Option Nat := none
  delayMillis : Option Nat := none

/-- One member of gauges. -/
def Draft.member (key : String) (d : Draft) : Reader Draft := do
  match key with
  | "state" =>
    Reader.once key d.phase
    Reader.take ':'
    return { d with phase := some (← Phase.read) }
  | "empty_polls" =>
    Reader.once key d.emptyPolls
    Reader.take ':'
    return { d with emptyPolls := some (← Reader.natural) }
  | "payload_polls" =>
    Reader.once key d.payloadPolls
    Reader.take ':'
    return { d with payloadPolls := some (← Reader.natural) }
  | "current_delay_ms" =>
    Reader.once key d.delayMillis
    Reader.take ':'
    return { d with delayMillis := some (← Reader.natural) }
  | _ =>
    Reader.take ':'
    Reader.skip
    return d

/-- The gauges, once all members have been read. -/
def Draft.finish (d : Draft) : Reader Gauges := do
  return {
    phase := ← Reader.require "state" d.phase
    emptyPolls := ← Reader.require "empty_polls" d.emptyPolls
    payloadPolls := ← Reader.require "payload_polls" d.payloadPolls
    delayMillis := ← Reader.require "current_delay_ms" d.delayMillis }

/-- What a message calls the items of gauges that are written as an array. -/
def wantedItems : String := "struct PollerStats with 4 elements"

/-- Gauges that are written as an array, after its opening bracket. -/
def readItems : Reader Gauges := do
  let phase ← Reader.item 0 wantedItems Phase.read
  let emptyPolls ← Reader.item 1 wantedItems Reader.natural
  let payloadPolls ← Reader.item 2 wantedItems Reader.natural
  let delayMillis ← Reader.item 3 wantedItems Reader.natural
  Reader.take ']'
  return { phase, emptyPolls, payloadPolls, delayMillis }

/-- Gauges. -/
def read : Reader Gauges := do
  match ← Reader.glance true with
  | .map =>
    let d ← Reader.object true Draft.member {}
    d.finish
  | .sequence =>
    Reader.take '['
    readItems
  | v => Reader.fail (.type v "struct PollerStats")

/-- Reads gauges from a text. -/
def ofJson (text : String) : Except Json.Error Gauges := Reader.run read text

end Gauges

end Polling
