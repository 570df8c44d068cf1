import Cordum.Scheduler.Engine

/-!
# Handling a job result

`handleJobResult` of the scheduler engine, for results that are not signed: one of a job that is
over is ignored; one that echoes its dispatch must pass the fence, which also marks it as seen
(`fenceResult`); then its status, and for a success the output policy, decide the job's state
(`resultOutcome`), and the pointer, the worker, the state and the dead letter are written, in this
order (`applyResult`).
-/

namespace Cordum

open Conc GoString

/-- A result, as far as the scheduler reads it. -/
structure JobResult where
  jobId : String
  status : JobStatus
  resultPtr : String := ""
  workerId : String := ""
  errorCode : String := ""
  errorMessage : String := ""
  dispatch : Option DispatchIdentity := none

/-- The verdicts on an output. -/
inductive OutputDecision
  | allow
  | deny
  | quarantine
  | redact
deriving DecidableEq, Repr

/-- The verdict with its pointer. -/
structure OutputSafetyRecord where
  decision : Option OutputDecision := none
  reason : String := ""
  redactedPtr : String := ""
deriving DecidableEq, Repr

/-- What a handling of a result finds outside the job's keys and the bus. -/
structure ResultAttempt where
  now : ℤ := 0
  production : Bool := false
  saga : Bool := false
  /-- The output policy is enabled and has a checker. -/
  outputSafety : Bool := false
  /-- `CheckOutputMeta` and `CheckOutputContent`; `none` is an error. -/
  checkOutputMeta : Option OutputSafetyRecord := none
  checkOutputContent : Option OutputSafetyRecord := none

/-! ## The fence -/

/-- `GetTopic`, for dead letters; it may fail. -/
def getTopic : EngineM String := do
  match ← tryKey .hgetAllMeta with
  | some m => .ret (if m.topic.getD "" = "" then "unknown" else m.topic.getD "")
  | none => .ret "unknown"

/-- The message id under which the fence marks the result of a dispatch. -/
def resultEventID (d : DispatchIdentity) : String := d.dispatchId ++ ":result"

variable (a : ResultAttempt) (res : JobResult)

/-- The dispatch fence; a failed look-up or check drops the result. -/
def fenceResult : EngineM Bool :=
  match res.dispatch with
  | none => .ret true
  | some d => do
    let m ← tryKey .hgetAllMeta
    match m.bind Meta.tenant with
    | some tenant => do
      match ← tryStore (acceptJobEvent (trimSpace res.jobId)
          ⟨d.dispatchId, d.attempt, d.assignedWorkerId, tenant⟩ (resultEventID d)) with
      | .ok accepted => .ret accepted
      | .error _ => .ret false
    | none => .ret false

/-- How a result enters: its job is over, the fence dropped it, or it is to be applied. -/
inductive ResultCheck
  | ended
  | dropped
  | accepted
deriving DecidableEq, Repr

/-- A handling up to the fence. A job whose state cannot be read goes on to it. -/
def checkResult : EngineM ResultCheck := do
  let state ← tryStore getState
  if (state.map terminalStates).toOption = some true then .ret .ended
  else do
    if ← fenceResult res then .ret .accepted else .ret .dropped

/-! ## The outcome -/

/-- `COMPLETED` is another name of `SUCCEEDED`. -/
def JobStatus.normalize : JobStatus → JobStatus
  | .completed => .succeeded
  | status => status

/-- The state a result's status maps to; an unknown status counts as a failure. -/
def JobStatus.state (status : JobStatus) : JobState :=
  match status.normalize with
  | .succeeded => .succeeded
  | .failed => .failed
  | .failedRetryable => .retrying
  | .failedFatal => .failed
  | .timeout => .timeout
  | .denied => .denied
  | .cancelled => .cancelled
  | _ => .failed

/-- `checkOutputSafety`: without a checker or a request, the output passes. -/
def checkOutputSafety (req : Option JobRequest) : OutputSafetyRecord :=
  if a.outputSafety = false ∨ req = none then { decision := some .allow }
  else
    match a.checkOutputMeta with
    | none => { decision := some .allow }
    | some checked => { checked with decision := checked.decision <|> some .allow }

/-- The reason without a sanitised output. -/
def redactionUnavailable : String := "output redaction required but sanitized output unavailable"

/-- A record that quarantines, with a reason. -/
def OutputSafetyRecord.withhold (r : OutputSafetyRecord) (reason : String) : OutputSafetyRecord :=
  { r with decision := some .quarantine, reason := if trimSpace r.reason = "" then reason else r.reason }

/-- The verdict with the sanitised output. -/
def materializeRedaction (req : Option JobRequest) (current : OutputSafetyRecord) : OutputSafetyRecord :=
  if a.outputSafety = false ∨ req = none then current.withhold
    "output redaction required but checker unavailable"
  else if trimSpace current.redactedPtr ≠ "" then current
  else
    match a.checkOutputContent with
    | none => current.withhold redactionUnavailable
    | some checked =>
      let record : OutputSafetyRecord :=
        { decision := checked.decision <|> some .redact
          reason := if checked.reason = "" then current.reason else checked.reason
          redactedPtr := checked.redactedPtr }
      if record.decision = some .redact ∧ trimSpace record.redactedPtr = ""
        then record.withhold redactionUnavailable
      else record

/-- What a result comes to: the state, whether it is a success, the pointer and the output policy's
reason. -/
structure ResultOutcome where
  state : JobState
  succeeded : Bool
  resultPtr : String
  reason : String := ""
deriving DecidableEq, Repr

/-- The output policy on a success; a redacted output stands in for it. -/
def applyOutputPolicy (req : Option JobRequest) (res : JobResult) : ResultOutcome :=
  let record := checkOutputSafety a req
  match record.decision with
  | some .quarantine | some .deny => ⟨.quarantined, false, res.resultPtr, record.reason⟩
  | some .redact =>
    let redacted := materializeRedaction a req record
    if trimSpace redacted.redactedPtr ≠ ""
      then ⟨.succeeded, true, trimSpace redacted.redactedPtr, redacted.reason⟩
    else ⟨.quarantined, false, res.resultPtr, (redacted.withhold redactionUnavailable).reason⟩
  | _ => ⟨.succeeded, true, res.resultPtr, record.reason⟩

/-- What a result comes to. -/
def resultOutcome (req : Option JobRequest) (res : JobResult) : ResultOutcome :=
  if res.status.normalize = .succeeded then applyOutputPolicy a req res
  else ⟨res.status.state, false, res.resultPtr, ""⟩

/-- The stored request, read only where the saga or the output policy needs it. -/
def requestForResult : EngineM (Option JobRequest) :=
  if a.saga ∨ (res.status.normalize = .succeeded ∧ a.outputSafety) then do
    match ← tryKey .getJobRequest with
    | some req => .ret req
    | none => .ret none
  else .ret none

/-! ## Its effects -/

/-- The dead letter of an outcome. -/
def resultDeadLetter (topic : String) (res : JobResult) (o : ResultOutcome) : Option DeadLetter :=
  if o.state = .quarantined then
    some ⟨topic, .denied, if trimSpace o.reason = "" then "output quarantined by policy"
      else trimSpace o.reason, "output_quarantined"⟩
  else if o.succeeded = false ∧ res.status.normalize ≠ .failedRetryable then
    some ⟨topic, res.status.normalize, res.errorMessage, res.errorCode⟩
  else none

/-- The pointer before the state, which may be final; then the dead letter. -/
def applyResult (topic : String) (res : JobResult) (o : ResultOutcome) : EngineM Unit := do
  Prog.when (o.resultPtr ≠ "") (inStore (setResultPtr o.resultPtr))
  Prog.when (trimSpace res.workerId ≠ "") do
    let _ ← tryKey (.setWorkerID (trimSpace res.workerId))
    .ret ()
  inStore (setState (trimSpace res.jobId) o.state a.now)
  match resultDeadLetter topic res o with
  | some d => emitDLQWithRetry d
  | none => .ret ()

/-- A handling up to the outcome, with its dead letter's topic; `none` if nothing is applied. -/
def decideResult : EngineM (Option (String × ResultOutcome)) :=
  if trimSpace res.jobId = "" then .ret none
  else if a.production ∧ res.dispatch = none then .ret none
  else do
    let topic ← getTopic
    match ← checkResult res with
    | .accepted => do
      let req ← requestForResult a res
      .ret (some (topic, resultOutcome a req res))
    | .ended | .dropped => .ret none

/-- `HandleJobResult`. -/
def handleJobResult : EngineM Unit := do
  match ← decideResult a res with
  | some (topic, o) => applyResult a topic res o
  | none => .ret ()

end Cordum
