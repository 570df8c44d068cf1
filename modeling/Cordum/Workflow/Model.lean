import Mathlib.Data.List.AList
import Mathlib.Data.Rat.Floor
import Cordum.Text.GoString

/-!
# Workflows and their runs

The definition of a workflow, and one execution of it, with the fields the engine decides by. A
definition's expressions are evaluated elsewhere: what they yield is given to the functions that ask
for it.
-/

namespace Cordum.Flow

open GoString AList

/-- A Go map with string keys. -/
abbrev GoMap (V : Type) := AList fun _ : String => V

/-- `StepType`. The types without a handler of their own are dispatched as jobs. -/
inductive StepType
  | worker
  | approval
  | condition
  | delay
  | notify
  | switch
  | parallel
  | loop
  | transform
  | storage
  | subWorkflow
  | generic (name : String)
deriving DecidableEq, Repr

/-- The status of a run. -/
inductive RunStatus
  | pending
  | running
  | waiting
  | succeeded
  | failed
  | denied
  | cancelled
  | timedOut
deriving DecidableEq, Repr

/-- The run is over. -/
def isTerminalRunStatus : RunStatus → Bool
  | .succeeded | .failed | .denied | .cancelled | .timedOut => true
  | .pending | .running | .waiting => false

/-- `StepStatus`; `unset` is the zero value. -/
inductive StepStatus
  | unset
  | pending
  | running
  | waiting
  | succeeded
  | failed
  | denied
  | cancelled
  | timedOut
  | skipped
deriving DecidableEq, Repr

/-- `isTerminalStepStatus`. A skipped step does not count as terminal. -/
def isTerminalStepStatus : StepStatus → Bool
  | .succeeded | .failed | .denied | .cancelled | .timedOut => true
  | .unset | .pending | .running | .waiting | .skipped => false

/-- How often and when to try again. -/
structure RetryConfig where
  maxRetries : ℤ := 0
  initialBackoffSec : ℤ := 0
  maxBackoffSec : ℤ := 0
  multiplier : ℚ := 0
deriving DecidableEq, Repr

/-- `resolveLoopConfig` of a loop's input, the body apart. -/
structure LoopConfig where
  maxIterations : ℕ := 100
  conditionExpr : String := ""
  untilExpr : String := ""
deriving DecidableEq, Repr

/-- A node of the graph. -/
structure Step where
  id : String := ""
  type : StepType := .worker
  dependsOn : List String := []
  onError : String := ""
  condition : String := ""
  forEach : String := ""
  maxParallel : ℤ := 0
  retry : Option RetryConfig := none
  /-- `parseParallelStepIDs` of `Input["steps"]`; `none` when it does not parse. -/
  parallelSteps : Option (List String) := none
  /-- `resolveLoopConfig`. -/
  loopConfig : Except String LoopConfig := .ok {}
  /-- `loopInputString` of `Input["body_step"]` or `Input["body"]`. -/
  loopBody : String := ""
  /-- `delayForStep` at a time. -/
  delay : ℤ → Except String ℤ := fun _ => .ok 0
  /-- Whether there is an `Input`. -/
  hasInput : Bool := false

/-- A persisted definition. A step may be a nil pointer. -/
structure Workflow where
  id : String := ""
  steps : GoMap (Option Step) := ∅
  timeoutSec : ℤ := 0

/-- `wfDef.Steps[id]`. -/
def Workflow.step (wf : Workflow) (id : String) : Option Step := (wf.steps.lookup id).join

/-- The keys of `wfDef.Steps`. -/
def Workflow.ids (wf : Workflow) : List String := wf.steps.keys

theorem Workflow.mem_ids_of_step {wf : Workflow} {id : String} {step : Step}
    (h : wf.step id = some step) : id ∈ wf.ids := by
  have hso : (wf.steps.lookup id).isSome := by
    cases hl : wf.steps.lookup id with
    | none => rw [Workflow.step, hl] at h; cases h
    | some => rfl
  exact mem_keys.2 (lookup_isSome.1 hso)

/-- The `Error` of a step. -/
structure StepError where
  message : String := ""
  reason : String := ""
  /-- `_reconcile_retries`. -/
  reconcileRetries : ℕ := 0
deriving DecidableEq, Repr

/-- `Input["error"]`: the context an error handler is activated with. -/
inductive ErrorInput
  | absent
  | null
  | value
deriving DecidableEq, Repr

/-- A `StepRun` without children: what a fan-out keeps of a child. -/
structure ChildRun where
  status : StepStatus := .unset
  startedAt : Option ℤ := none
  completedAt : Option ℤ := none
  nextAttemptAt : Option ℤ := none
  attempts : ℤ := 0
  errorInput : ErrorInput := .absent
  error : Option StepError := none
  jobID : String := ""
  skipReason : String := ""
  auditHash : String := ""
deriving DecidableEq, Repr

/-- The entry of a step, with its children. -/
structure StepRun extends ChildRun where
  children : GoMap ChildRun := ∅
  /-- How many items a for-each was resolved to. -/
  resolvedItems : Option ℕ := none

/-- The entry of a child in the run's own map. -/
def ChildRun.toStepRun (child : ChildRun) : StepRun := { toChildRun := child }

/-- A run. -/
structure WorkflowRun where
  id : String := ""
  workflowID : String := ""
  status : RunStatus := .pending
  createdAt : Option ℤ := none
  startedAt : Option ℤ := none
  completedAt : Option ℤ := none
  error : Option String := none
  steps : GoMap StepRun := ∅

variable (run : WorkflowRun) (id : String) (sr : StepRun)

/-- The run goes on. -/
abbrev WorkflowRun.IsOpen : Prop := isTerminalRunStatus run.status = false

/-- `run.Steps[id]`. -/
def WorkflowRun.step : Option StepRun := run.steps.lookup id

/-- `run.Steps[id] = sr`. -/
def WorkflowRun.setStep : WorkflowRun :=
  { run with steps := run.steps.insert id sr }

/-- The status of a step, if it has an entry. -/
def WorkflowRun.stepStatus : Option StepStatus := (run.step id).map (·.status)

@[simp] theorem WorkflowRun.step_setStep : (run.setStep id sr).step id = some sr := lookup_insert _

theorem WorkflowRun.step_setStep_ne {id id' : String} (h : id' ≠ id) :
    (run.setStep id sr).step id' = run.step id' := lookup_insert_ne h

/-- The reason `switch` gives the branches it does not take. -/
def switchBranchNotTakenReason : String := "switch_branch_not_taken"

/-- The step is on a branch not taken. -/
def isSwitchBranchNotTaken : Bool :=
  sr.status = .cancelled &&
    match sr.error with
    | none => false
    | some e => trimSpace e.reason = switchBranchNotTakenReason

end Cordum.Flow
