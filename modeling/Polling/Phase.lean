import Polling.Json.Reader

/-! # Phases of a poller

A poller is idle until somebody consumes what it polls, runs while a loop polls for that
consumer, is stopping from the request to stop until its loop has ended, and is then stopped for
good. -/

namespace Polling

open Json (Reader)

/-- Where a poller is in its life. -/
inductive Phase where
  /-- No loop is polling. -/
  | idle
  /-- A loop is polling for a consumer. -/
  | running
  /-- A loop has been asked to end. -/
  | stopping
  /-- Nothing will be polled any more. -/
  | stopped
deriving DecidableEq

namespace Phase

/-- The name of a phase. -/
def name : Phase → String
  | idle => "idle"
  | running => "running"
  | stopping => "stopping"
  | stopped => "stopped"

/-- All phases. -/
def all : List Phase := [idle, running, stopping, stopped]

/-- The phase with a given name. -/
def ofName? (s : String) : Option Phase := all.find? fun p => p.name = s

/-- The phase after a request to stop. -/
def afterStop : Phase → Phase
  | idle => stopped
  | running => stopping
  | p => p

/-- The text of a phase: its name between quotation marks. -/
def json (p : Phase) : List Char := '"' :: p.name.toList ++ ['"']

/-- The name of a phase, between quotation marks. -/
def readName : Reader Phase := do
  let s ← Reader.string true
  match ofName? s with
  | some p => pure p
  | none => Reader.fail (.name s (all.map name))

/-- A phase: a string, or an object whose one member has the phase as its key and no value. -/
def read : Reader Phase := do
  match ← Reader.peek with
  | some '"' => readName
  | some '\x7b' =>
    Reader.take '\x7b'
    let p ← readName
    Reader.take ':'
    -- A phase holds nothing, so nothing may be written under its name.
    match ← Reader.glance true with
    | .null => Reader.take '\x7d'; pure p
    | v => Reader.fail (.type v "unit")
  | _ => Reader.malformed

/-- Reads a phase from a text. -/
def ofJson (text : String) : Except Json.Error Phase := Reader.run read text

theorem ofName?_name (p : Phase) : ofName? p.name = some p := by
  cases p <;> decide

end Phase

end Polling
