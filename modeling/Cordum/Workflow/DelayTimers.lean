import Cordum.Text.Fields
import Mathlib.Data.Finset.Defs

/-!
# Delay timers

The timers of the workflow engine for one run, after `core/workflow/engine_events.go` and the sorted set of
`core/workflow/store_redis.go`. All timers of a run share one member of the set, whose score is the
second at which a poller may take it. Times are in nanoseconds.
-/

namespace Cordum.Flow

open GoString

/-- A second, in nanoseconds. -/
def second : ℤ := 1000000000

/-- From where on a delay is stored. -/
def durableDelayThreshold : ℤ := 3 * second

/-- How long a member is kept. -/
def staleDelayAge : ℤ := 3600 * second

/-- The second of a time. -/
def unix (t : ℤ) : ℤ := t / second

/-- The sorted set: the score of each member. -/
abbrev DelaySet := String → Option ℤ

variable (z : DelaySet) (workflowID runID : String)

/-- The member of a run. -/
def delayMember : String := workflowID ++ ":" ++ runID

/-- The workflow and run of a member. -/
def splitDelayMember (member : String) : String × String :=
  match indexByte member ':' with
  | none => ("", "")
  | some idx =>
    if idx = 0 ∨ idx ≥ member.toList.length - 1 then ("", "")
    else (String.ofList (member.toList.take idx), String.ofList (member.toList.drop (idx + 1)))

/-! ## The sorted set -/

/-- Adds the member, or moves it. -/
def addDelayTimer (fireAt : ℤ) : DelaySet :=
  Function.update z (delayMember workflowID runID) (some (unix fireAt))

/-- Removes the member. -/
def removeDelayTimer : DelaySet :=
  Function.update z (delayMember workflowID runID) none

/-- `ZREMRANGEBYSCORE` from below. -/
def removeUpTo (bound : ℤ) : DelaySet := fun member => (z member).filter fun score => bound < score

/-- `PopFiredDelays`: what is left after the due members are taken. -/
def popFiredDelays (now : ℤ) : DelaySet := removeUpTo z (unix now)

/-- `CleanStaleDelays`, as the poller calls it. -/
def cleanStaleDelays (now : ℤ) : DelaySet := removeUpTo z (unix (now - staleDelayAge))

/-! ## The timers of a run -/

/-- The engine and the store, as far as the timers of one run go. -/
structure DelayState where
  now : ℤ
  delays : DelaySet
  /-- When the local timers of the run fire. -/
  timers : List ℤ := []
  /-- Fired timers whose `StartRun` has not returned. -/
  resuming : ℕ := 0
  /-- The `NextAttemptAt` of the steps and children of the run that wait. -/
  waiting : List ℤ := []

/-- A timer, stored if the delay is long. -/
def scheduleAfter (s : DelayState) (delay : ℤ) (workflowID runID : String) : DelayState :=
  if delay ≤ 0 then s
  else
    { s with
      delays :=
        if delay ≥ durableDelayThreshold then addDelayTimer s.delays workflowID runID (s.now + delay)
        else s.delays
      timers := (s.now + delay) :: s.timers }

/-- What happens around the timers of a run. -/
inductive DelayOp
  /-- Time passes. -/
  | pass (d : ℕ)
  /-- A step is given a `NextAttemptAt`, and its timer a little later. -/
  | wait (delay : ℤ) (lag : ℕ)
  /-- A timer is scheduled again for what waits already. -/
  | schedule (delay : ℤ)
  /-- A step or child does not wait any more. -/
  | leave (next : ℤ)
  /-- A local timer fires and calls `StartRun`. -/
  | fire (fireAt : ℤ)
  /-- The `StartRun` of a fired timer returns; after a success the member is removed. -/
  | resumed (ok : Bool)
  /-- The poller takes what is due. -/
  | pop
  /-- The poller removes what is stale. -/
  | clean
  /-- The process is restarted: its local timers are gone. -/
  | crash

/-- One event for the run. -/
def DelayState.step (s : DelayState) : DelayOp → DelayState
  | .pass d => { s with now := s.now + d }
  | .wait delay lag =>
    scheduleAfter { s with waiting := (s.now - lag + delay) :: s.waiting } delay workflowID runID
  | .schedule delay => scheduleAfter s delay workflowID runID
  | .leave next => { s with waiting := s.waiting.erase next }
  | .fire fireAt =>
    if fireAt ∈ s.timers ∧ fireAt ≤ s.now then
      { s with timers := s.timers.erase fireAt, resuming := s.resuming + 1 }
    else s
  | .resumed ok =>
    if s.resuming = 0 then s
    else
      { s with
        resuming := s.resuming - 1
        delays := if ok then removeDelayTimer s.delays workflowID runID else s.delays }
  | .pop => { s with delays := popFiredDelays s.delays s.now }
  | .clean => { s with delays := cleanStaleDelays s.delays s.now }
  | .crash => { s with timers := [], resuming := 0 }

/-- A sequence of events. -/
def DelayState.run (s : DelayState) (ops : List DelayOp) : DelayState :=
  ops.foldl (DelayState.step workflowID runID) s

end Cordum.Flow
