import Cordum.Workflow.Schedule

/-!
# The operations on a run

What the engine, the API and the reconciler do with a stored run. Every operation reads the run, and
leaves a log of what it saved and published; the stored run is the one saved last (`persisted`). The
operations on one run come one after the other: they hold the run's lock.
-/

namespace Cordum.Flow

open GoString

/-- The run that is stored after a log. -/
def persisted (run : WorkflowRun) (log : List Effect) : WorkflowRun :=
  log.foldl (fun run e =>
    match e with
    | .save run' => run'
    | _ => run) run

theorem persisted_append {run : WorkflowRun} {l1 l2 : List Effect} :
    persisted run (l1 ++ l2) = persisted (persisted run l1) l2 := List.foldl_append

/-- Why something could not be read. -/
inductive GetErr
  | notFound
  | other
deriving DecidableEq, Repr

/-! ## Job results -/

/-- The status of a result. -/
inductive JobStatus
  | succeeded
  | denied
  | failed
  | timeout
  | failedRetryable
  | failedFatal
  | cancelled
  | other (name : String)
deriving DecidableEq, Repr

/-- A result, as far as the engine reads it. -/
structure JobResult where
  jobID : String
  status : JobStatus
  errorMessage : String := ""
  /-- `hasJobResultResource`. -/
  hasResult : Bool := false

/-- The run and step of a job. -/
def splitJobID (jobID : String) : String × String :=
  match indexByte jobID ':' with
  | none => ("", "")
  | some i =>
    let stepID := jobID.toList.drop (i + 1)
    let stepID :=
      match stepID.reverse.findIdx? (· == '@') with
      | none => stepID
      | some fromEnd =>
        if stepID.length - 1 - fromEnd = 0 then stepID else stepID.take (stepID.length - 1 - fromEnd)
    (String.ofList (jobID.toList.take i), String.ofList stepID)

/-- The parent of a child, and the child. -/
def splitForEachStep (stepID : String) : String × String :=
  match indexByte stepID '[' with
  | none => (stepID, "")
  | some i => (String.ofList (stepID.toList.take i), stepID)

/-- The attempt of a job. -/
def parseAttempt (jobID : String) : ℤ :=
  match jobID.toList.reverse.findIdx? (· == '@') with
  | none => 0
  | some fromEnd =>
    match atoi (trimSpace (String.ofList (jobID.toList.drop (jobID.toList.length - fromEnd)))) with
    | none => 0
    | some n => max n 0

/-- The step has an attempt left. -/
def shouldRetry (step : Option Step) (child : ChildRun) : Bool :=
  match step.bind (·.retry) with
  | none => false
  | some retry => 0 < retry.maxRetries && child.attempts ≤ retry.maxRetries

/-- `computeBackoff` in nanoseconds, with the multiplier as an exact number. -/
def computeBackoff (step : Option Step) (child : ChildRun) : ℤ :=
  match step.bind (·.retry) with
  | none => 1000000000
  | some retry =>
    let initial : ℤ := if retry.initialBackoffSec ≤ 0 then 1 else retry.initialBackoffSec
    let mult := if retry.multiplier ≤ 1 then 2 else retry.multiplier
    let delay : ℚ := initial * mult ^ (max 1 child.attempts - 1).toNat
    let delay := if 0 < retry.maxBackoffSec ∧ (retry.maxBackoffSec : ℚ) < delay
      then (retry.maxBackoffSec : ℚ) else delay
    Int.bmod (⌊delay⌋ * 1000000000) (2 ^ 64)

/-- `applyResult`, with the delay of a retry. -/
def applyResult (now : ℤ) (step : Option Step) (res : JobResult)
    (child : ChildRun) : ChildRun × Option ℤ :=
  let ended := fun status =>
    { child with status, completedAt := some now, error := some { message := res.errorMessage } }
  let retried := fun status =>
    if shouldRetry step child then
      let delay := computeBackoff step child
      ({ child with
          status := .pending
          nextAttemptAt := some (now + delay)
          error := some { message := res.errorMessage } }, some delay)
    else (ended status, none)
  match res.status with
  | .succeeded =>
    ({ child with
      status := .succeeded, completedAt := some now, nextAttemptAt := none, error := none }, none)
  | .denied => (ended .denied, none)
  | .timeout => retried .timedOut
  | .failed | .failedRetryable => retried .failed
  | .failedFatal => (ended .failed, none)
  | .cancelled => ({ child with status := .cancelled, completedAt := some now }, none)
  | .other name =>
    ({ child with
        status := .failed
        completedAt := some now
        error := some { message := s!"unexpected status: {name}" } }, none)

/-- The entry took its result already. -/
def shouldIgnoreProcessedResult (child : ChildRun) : Bool :=
  isTerminalStepStatus child.status || child.status = .pending && child.nextAttemptAt.isSome

/-- The status the children add up to. -/
def aggregateChildren (sr : StepRun) : StepStatus :=
  if sr.children.entries = [] then sr.status
  else if !(childrenIn sr fun s => s = .failed || s = .cancelled || s = .timedOut).isEmpty then .failed
  else if !(childrenIn sr (· = .denied)).isEmpty then .denied
  else if (childrenIn sr (· ≠ .succeeded)).isEmpty then .succeeded
  else .running

/-- What an operation finds outside the run once the definition is loaded. -/
structure OpEnv (wf : Workflow) where
  now : ℤ := 0
  timeoutSave : SaveResult := .ok
  cancelled : String → Bool := fun _ => true
  /-- Why `processStepOutput` rejects a result. -/
  output : Option String := none
  status : StatusOrders wf
  save : SaveResult := .ok
  /-- The second try of `handleJobResult`, unless it is told to stop. -/
  saveAgain : SaveResult := .ok
  stopped : Bool := false
  schedule : ScheduleEnv wf

variable {wf : Workflow}

/-- The entry with a job's result, and the delay of a retry; `none` when the result is not for it. -/
def takeResult (env : OpEnv wf) (step : Option Step) (res : JobResult) (child : ChildRun) :
    Option (ChildRun × Option ℤ) :=
  if child.jobID ≠ "" ∧ child.jobID ≠ res.jobID then none
  else
    let child := { child with jobID := res.jobID, attempts := max child.attempts (parseAttempt res.jobID) }
    if shouldIgnoreProcessedResult child then none
    else
      let (child, retry) := applyResult env.now step res child
      match env.output with
      | some e =>
        if retry.isNone && child.status = .succeeded && res.hasResult then
          some ({ child with
            status := .failed, completedAt := some env.now, error := some { message := e } }, retry)
        else some (child, retry)
      | none => some (child, retry)

/-- The statuses that activate an error handler when a result comes in. -/
def erring (status : StepStatus) : Bool := status = .failed || status = .denied || status = .timedOut

/-- The other children, cancelled. -/
def cancelForEachSiblings (env : OpEnv wf) (s : StepRun × Tick) : StepRun × Tick :=
  s.1.children.entries.foldl (fun s e =>
    if isTerminalStepStatus e.2.status then s
    else
      let t := if e.2.jobID ≠ "" ∧ env.cancelled e.2.jobID then s.2.emit (.cancelJob e.2.jobID) else s.2
      putChild e.1
        { e.2 with
          status := .cancelled
          completedAt := some env.now
          error := some (e.2.error.getD { message := "cancelled: forEach sibling failed" }) } s.1 t) s

/-- The timer of a retry. -/
def Tick.retryTimer (t : Tick) (now : ℤ) : Option ℤ → Tick
  | none => t
  | some delay => t.scheduleAfter now delay

/-- The result of a fan-out's child. -/
def childResult (env : OpEnv wf) (baseStepID childID : String) (res : JobResult)
    (t : Tick) : Option Tick :=
  let stepDef := wf.step baseStepID
  let parent := (t.run.step baseStepID).getD {}
  let child := ((parent.children.lookup childID).or ((t.run.step childID).map (·.toChildRun))).getD {}
  match takeResult env stepDef res child with
  | none => none
  | some (child, retry) =>
    let (parent, t) := putChild childID child parent t
    let isLoop := match stepDef with
      | some step => decide (step.type = StepType.loop)
      | none => false
    let parent :=
      if isLoop then { parent with status := .running, completedAt := none }
      else
        let status := aggregateChildren parent
        { parent with
          status
          completedAt := if status = .succeeded || erring status then some env.now
            else parent.completedAt }
    let fansOut := match stepDef with
      | some step => decide (step.forEach ≠ "")
      | none => false
    let (parent, t) := if erring parent.status && fansOut then cancelForEachSiblings env (parent, t)
      else (parent, t)
    let t := t.put baseStepID parent
    let t := if erring parent.status
        then { t with run := activateOnErrorHandler wf t.run baseStepID } else t
    some (t.retryTimer env.now retry)

/-- The result of a step's own job. -/
def stepResult (env : OpEnv wf) (stepID : String) (res : JobResult) (t : Tick) : Option Tick :=
  let sr := (t.run.step stepID).getD {}
  match takeResult env (wf.step stepID) res sr.toChildRun with
  | none => none
  | some (child, retry) =>
    let t := t.put stepID { sr with toChildRun := child }
    let t :=
      if retry.isNone && erring child.status
        then { t with run := activateOnErrorHandler wf t.run stepID } else t
    some (t.retryTimer env.now retry)

/-- `handleJobResultLocked` with the definition at hand. -/
def advance (env : OpEnv wf) (stepID : String) (res : JobResult) (run : WorkflowRun) : Tick :=
  let t : Tick := { run }
  if pastDeadline wf run env.now then timeoutRun wf env.now env.timeoutSave env.cancelled t
  else
    let (baseStepID, childKey) := splitForEachStep stepID
    match (if childKey ≠ "" then childResult env baseStepID stepID res t
      else stepResult env stepID res t) with
    | none => t
    | some t =>
      let t := { t with run := updateRunStatus env.status env.now t.run }
      let (t, saved) := t.save env.save
      let (t, saved) := if saved || env.stopped then (t, saved) else t.save env.saveAgain
      if saved && t.run.status = .running then scheduleReady env.schedule t else t

/-- What `HandleJobResult` finds. -/
structure ResultEnv where
  getRun : Option GetErr := none
  /-- `sameWorkflowIdentity`, or no production identity. -/
  sameIdentity : Bool := true
  workflow : Except GetErr Workflow
  op : (wf : Workflow) → OpEnv wf

/-- `HandleJobResult`. -/
def handleJobResult (env : ResultEnv) (res : JobResult) (run : WorkflowRun) : List Effect :=
  let (runID, stepID) := splitJobID res.jobID
  if runID = "" ∨ stepID = "" then []
  else if env.getRun.isSome ∨ !env.sameIdentity ∨ isTerminalRunStatus run.status then []
  else
    match env.workflow with
    | .error _ => []
    | .ok wf => (advance (env.op wf) stepID res run).log

/-! ## Starting a run -/

/-- What `StartRun` finds. -/
structure StartEnv where
  workflow : Except GetErr Workflow
  getRun : Option GetErr := none
  /-- The second look for a workflow that was not found. -/
  reload : Except GetErr Workflow
  now : ℤ := 0
  orphanSave : SaveResult := .ok
  /-- `validateWorkflowDefinition`, and the limit on active runs. -/
  valid : Bool := true
  withinLimit : Bool := true
  schedule : (wf : Workflow) → ScheduleEnv wf

/-- A run whose workflow was deleted. -/
def orphaned (now : ℤ) (run : WorkflowRun) : WorkflowRun :=
  { run with status := .failed, completedAt := some now, error := some "workflow deleted" }

/-- `startRunLocked` with the definition at hand. -/
def startWith (env : StartEnv) (wf : Workflow) (run : WorkflowRun) : List Effect :=
  if isTerminalRunStatus run.status then []
  else if run.status = .pending ∧ (!env.valid ∨ !env.withinLimit) then []
  else (scheduleReady (env.schedule wf) { run }).log

/-- `StartRun`. Without its workflow a run is failed whatever its status. -/
def startRun (env : StartEnv) (run : WorkflowRun) : List Effect :=
  if env.getRun.isSome then []
  else
    match env.workflow with
    | .ok wf => startWith env wf run
    | .error .other => []
    | .error .notFound =>
      match env.reload with
      | .ok wf => startWith env wf run
      | .error .other => []
      | .error .notFound => (({ run := orphaned env.now run } : Tick).save env.orphanSave).1.log

/-! ## Approval and cancellation -/

/-- `ApproveStep` with the definition at hand. A denial activates the error handler. -/
def approveWith (env : OpEnv wf) (stepID : String) (approved : Bool) (run : WorkflowRun) : Tick :=
  let t : Tick := { run }
  if pastDeadline wf run env.now then timeoutRun wf env.now env.timeoutSave env.cancelled t
  else if isTerminalRunStatus run.status then t
  else
    match run.step stepID with
    | none => t
    | some sr =>
      if sr.status ≠ .waiting then t
      else
        let sr := { sr with status := if approved
            then .succeeded else .failed, completedAt := some env.now }
        let t := t.put stepID sr
        let t := if approved then t else { t with run := activateOnErrorHandler wf t.run stepID }
        let (t, saved) := { t with run := updateRunStatus env.status env.now t.run }.save env.save
        if saved && t.run.status = .running then scheduleReady env.schedule t else t

/-- What `ApproveStep` and `CancelRun` find. -/
structure LoadEnv where
  getRun : Option GetErr := none
  workflow : Except GetErr Workflow
  op : (wf : Workflow) → OpEnv wf

/-- `ApproveStep`. -/
def approveStep (env : LoadEnv) (stepID : String) (approved : Bool) (run : WorkflowRun) : List Effect :=
  match env.getRun, env.workflow with
  | none, .ok wf => (approveWith (env.op wf) stepID approved run).log
  | _, _ => []

/-- `CancelRun`. -/
def cancelRun (env : LoadEnv) (run : WorkflowRun) : List Effect :=
  if env.getRun.isSome ∨ isTerminalRunStatus run.status then []
  else
    match env.workflow with
    | .error _ => []
    | .ok wf =>
      let op := env.op wf
      let (run, jobIDs) := endRun wf op.now .cancelled (cancelStepRun op.now) run
      let (t, saved) := ({ run } : Tick).save op.save
      (if saved then t.cancelJobs op.cancelled jobIDs else t).log

/-! ## The reconciler -/

/-- What `reconcileRun` finds. -/
structure ReconcileEnv where
  getRun : Option GetErr := none
  /-- The order of the steps whose jobs are looked at. -/
  order : (run : WorkflowRun) → { l : List String // l.Perm run.steps.keys } := WorkflowRun.order
  /-- The result the reconciler makes of a step's job, from the job store. -/
  job : String → Option JobResult := fun _ => none
  result : String → ResultEnv
  /-- The run is read again, for the steps that wait. -/
  refresh : Option GetErr := none
  now : ℤ := 0
  waitingOrder : (run : WorkflowRun) → { l : List String // l.Perm run.steps.keys } :=
    WorkflowRun.order
  /-- The job of a step that waits is known. -/
  jobKnown : String → Bool := fun _ => true
  stuckSave : SaveResult := .ok
  start : StartEnv

/-- An approval that has waited too long for a job nobody knows. -/
def stuck (env : ReconcileEnv) (id : String) (sr : StepRun) : Bool :=
  sr.status = .waiting && sr.jobID ≠ "" &&
    (match sr.startedAt with
      | none => true
      | some startedAt => 30000000000 ≤ env.now - startedAt) && !env.jobKnown id

/-- A stuck step is pending again, three times; then it has failed. -/
def recovered (now : ℤ) (sr : StepRun) : StepRun :=
  let retries := (sr.error.map (·.reconcileRetries)).getD 0
  if 3 ≤ retries then
    { sr with
      status := .failed
      completedAt := some now
      error := some
        { message := "approval dispatch failed after reconciler recovery attempts",
          reconcileRetries := retries } }
  else
    { sr with
      status := .pending
      jobID := ""
      attempts := 0
      startedAt := none
      error := some { sr.error.getD {} with reconcileRetries := retries + 1 } }

/-- The stuck steps of a run. -/
def stuckSteps (env : ReconcileEnv) (run : WorkflowRun) : List String :=
  (env.waitingOrder run).1.filter fun id =>
    match run.step id with
    | none => false
    | some sr => stuck env id sr

/-- `reconcileStuckWaitingSteps`. It does not look at the run's status. -/
def reconcileStuckWaitingSteps (env : ReconcileEnv) (run : WorkflowRun) : List Effect :=
  let ids := stuckSteps env run
  if ids = [] then []
  else
    let run' := ids.foldl (fun run id =>
      match run.step id with
      | none => run
      | some sr => run.setStep id (recovered env.now sr)) run
    (({ run := run' } : Tick).save env.stuckSave).1.log

/-- The results of the running steps' jobs, one after the other. -/
def reconcileJobs (env : ReconcileEnv) (loaded : WorkflowRun) : List String → WorkflowRun → List Effect
  | [], _ => []
  | id :: ids, run =>
    let log :=
      match loaded.step id with
      | none => []
      | some sr =>
        if sr.status = .running && sr.jobID ≠ "" then
          match env.job id with
          | none => []
          | some res => handleJobResult (env.result id) res run
        else []
    log ++ reconcileJobs env loaded ids (persisted run log)

/-- `reconcileRun`. -/
def reconcileRun (env : ReconcileEnv) (run : WorkflowRun) : List Effect :=
  if env.getRun.isSome ∨ isTerminalRunStatus run.status then []
  else
    let advanced := reconcileJobs env run (env.order run).1 run
    let run₁ := persisted run advanced
    let recovered := if env.refresh.isSome then [] else reconcileStuckWaitingSteps env run₁
    advanced ++ recovered ++ startRun env.start (persisted run₁ recovered)

/-! ## Any sequence of operations -/

/-- An operation on a stored run. A timer, the poller and the API start a run the same way. -/
inductive RunOp
  | result (env : ResultEnv) (res : JobResult)
  | start (env : StartEnv)
  | approve (env : LoadEnv) (stepID : String) (approved : Bool)
  | cancel (env : LoadEnv)
  | reconcile (env : ReconcileEnv)

/-- What an operation does to the stored run. -/
def RunOp.log (run : WorkflowRun) : RunOp → List Effect
  | .result env res => handleJobResult env res run
  | .start env => startRun env run
  | .approve env stepID approved => approveStep env stepID approved run
  | .cancel env => cancelRun env run
  | .reconcile env => reconcileRun env run

/-- One operation after the other. -/
def history : WorkflowRun → List RunOp → List Effect
  | _, [] => []
  | run, op :: ops => op.log run ++ history (persisted run (op.log run)) ops

end Cordum.Flow
