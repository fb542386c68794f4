/-! # Errors

A `Failure` ends a poll loop for good: the source or the callback reported an error or panicked.
A call returns an `Error`: either a failure, which is fatal for the poller, or a reason why the
call was refused, which is not (`isFatal_iff`). -/

namespace Polling

/-- What a panic carries. -/
inductive Panic where
  | text (message : String)
  /-- Something that is not text. -/
  | other
deriving DecidableEq

/-- What is reported of a panic. -/
def Panic.message : Panic → String
  | text message => message
  | other => "unknown panic payload"

/-- Why a poll loop failed. -/
inductive Failure where
  | poll (reason : String)
  | callback (reason : String)
  | pollPanic (message : String)
  | callbackPanic (message : String)
deriving DecidableEq

/-- The wording of a failure. -/
def Failure.message : Failure → String
  | poll reason => "poll source failed: " ++ reason
  | callback reason => "subscriber callback failed: " ++ reason
  | pollPanic message => "poll source panicked: " ++ message
  | callbackPanic message => "subscriber callback panicked: " ++ message

/-- The error behind a failure, if the source or the callback reported one. -/
def Failure.source? : Failure → Option String
  | poll reason => some reason
  | callback reason => some reason
  | pollPanic _ => none
  | callbackPanic _ => none

/-- Why a call did not do what it was made for. -/
inductive Error where
  | failed (f : Failure)
  | stopped
  | disposed
  | alreadySubscribed
  | waitInProgress
  | unknownSubscription (subscription : String)
  | noRuntime
  | invalidPacing (reason : String)
deriving DecidableEq

namespace Error

/-- The wording of an error. -/
def message : Error → String
  | failed f => f.message
  | stopped => "poller is stopped"
  | disposed => "poller has been shut down"
  | alreadySubscribed => "a subscription is already active"
  | waitInProgress => "another caller is already waiting for a payload"
  | unknownSubscription subscription => "subscription " ++ subscription ++ " is not active"
  | noRuntime => "no tokio runtime available to run the poll loop"
  | invalidPacing reason => "invalid poller configuration: " ++ reason

/-- Whether the poller is finished. -/
def isFatal : Error → Bool
  | failed _ => true
  | _ => false

/-- The error behind an error. -/
def source? : Error → Option String
  | failed f => f.source?
  | _ => none

theorem isFatal_iff {e : Error} : e.isFatal = true ↔ ∃ f, e = failed f := by
  cases e <;> simp [isFatal]

end Error

end Polling
