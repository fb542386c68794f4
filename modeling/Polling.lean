import Polling.Backoff
import Polling.Duration
import Polling.Duration.Seconds
import Polling.Error
import Polling.Gauges
import Polling.Json.Lexeme
import Polling.Json.Reader
import Polling.Json.Value
import Polling.Number.Decimal
import Polling.Number.Digits
import Polling.Number.Layout
import Polling.Number.Literal
import Polling.Number.Numeral
import Polling.Pacing
import Polling.Pacing.Description
import Polling.Pacing.Environment
import Polling.Pacing.Json
import Polling.Phase
import Polling.Polled
import Polling.Poller.Basic
import Polling.Poller.Call
import Polling.Poller.Loop
import Polling.Script
import Polling.Session
import Polling.Signal
import Polling.System.Basic
import Polling.System.Run
import Polling.Table
import Polling.Text.Quoted
import Polling.Text.Unprintable
import Polling.Uuid
import Polling.Proofs.History
import Polling.Proofs.LifeCycle
import Polling.Proofs.LoopEffect
import Polling.Proofs.CallEffect
import Polling.Proofs.Soundness
import Polling.Proofs.Holdings
import Polling.Proofs.Cues
import Polling.Proofs.Payloads
import Polling.Proofs.LoopHistory
import Polling.Proofs.Shutdown
import Polling.Proofs.Unsubscription
import Polling.Proofs.Pending
import Polling.Proofs.Failures
import Polling.Proofs.Fatality
import Polling.Proofs.Impulses
import Polling.Proofs.Names
import Polling.Proofs.Tasks
import Polling.Proofs.Sessions
import Polling.Proofs.Phases
import Polling.Proofs.Readings
import Polling.Proofs.Activities
import Polling.Proofs.Order
import Polling.Proofs.Stages
import Polling.Proofs.Endings
import Polling.Proofs.SystemRuns
import Polling.Proofs.Parking
import Polling.Proofs.Handover
import Polling.Proofs.Answers
import Polling.Proofs.Stops
import Polling.Proofs.Signalling
import Polling.Proofs.Paces
import Polling.Proofs.PollLocks
import Polling.Proofs.Sleeps
import Polling.Proofs.Standby
import Polling.Proofs.Rest
import Polling.Proofs.Counters
import Polling.Proofs.Chronicles
import Polling.Proofs.Timing
import Polling.Proofs.Ascent
import Polling.Proofs.NumberTexts
import Polling.Proofs.Binaries
import Polling.Proofs.Objects
import Polling.Proofs.ReadingBack
import Polling.Proofs.Effort
import Polling.Proofs.Settling
import Polling.Proofs.Linear
import Polling.Proofs.Refusals
import Polling.Proofs.Occupants
import Polling.Proofs.Waiters
import Polling.Proofs.Takeover
import Polling.Proofs.Succession
import Polling.Proofs.Bookkeeping
import Polling.Proofs.Custody
import Polling.Proofs.Mortality
import Polling.Proofs.Casualties
import Polling.Proofs.Literals
import Polling.Proofs.Variables
import Polling.Proofs.Forecast
