import Cordum.Workflow.Status

/-!
# Scheduling a run

`scheduleReady` and the handlers of the step types. What a handler finds outside the run (the value of
an expression, the answer of the store or the bus) is its `StepEnv`; what it does there is the log of
the `Tick`.
-/

namespace Cordum.Flow

open GoString

/-! ## What a handler finds and does -/

/-- The end of an `UpdateRun`: saved, not saved, or saved with the answer lost. -/
inductive SaveResult
  | ok
  | lost
  | late
deriving DecidableEq, Repr

/-- What the engine does outside the run. -/
inductive Effect
  | save (run : WorkflowRun)
  | submit (jobID : String)
  | cancelJob (jobID : String)
  | timer (fireAt : ℤ)
  | alert (stepID : String)
  | createChild (workflowID runID : String)
  | startChild (workflowID runID : String)

/-- The run in memory, the effects so far, and `dispatchedThisTick`. -/
structure Tick where
  run : WorkflowRun
  log : List Effect := []
  dispatched : List String := []

/-- `run.Steps[stepID] = sr`. -/
def Tick.put (t : Tick) (stepID : String) (sr : StepRun) : Tick :=
  { t with run := t.run.setStep stepID sr }

/-- One more effect. -/
def Tick.emit (t : Tick) (e : Effect) : Tick := { t with log := t.log ++ [e] }

/-- `UpdateRun`, with whether it succeeded. -/
def Tick.save (t : Tick) : SaveResult → Tick × Bool
  | .ok => (t.emit (.save t.run), true)
  | .lost => (t, false)
  | .late => (t.emit (.save t.run), false)

theorem save_run (t : Tick) (o : SaveResult) : (t.save o).1.run = t.run := by
  cases o <;> rfl

/-- Building and publishing a job request. -/
structure DispatchEnv where
  /-- The payload, with its key `"error"`. -/
  payload : Except String ErrorInput := .ok .absent
  contextPtr : Except String String := .ok ""
  save : SaveResult := .ok
  /-- The error of `makeJobPacket` or of the publication. -/
  publish : Option String := none
  saveRevert : SaveResult := .ok

/-- A child run as `GetRun` finds it, with the message for an error. -/
structure ChildRunInfo where
  status : RunStatus := .running
  message : String := ""

/-- `parallel` strategies. -/
inductive Strategy
  | all
  | any
  | nOfM
deriving DecidableEq, Repr

/-- `resolveParallelConfig`. -/
structure ParallelConfig where
  childStepIDs : List String := []
  strategy : Strategy := .all
  required : ℕ := 0

/-- A switch: the cases, in their order, each with whether it matches. -/
structure SwitchConfig where
  cases : List (Bool × String) := []
  defaultStepID : String := ""

/-- What a visit of a step finds outside the run. -/
structure StepEnv where
  dispatch : DispatchEnv := {}
  /-- `evalCondition` of the gate, or of a condition step. -/
  condition : Except String Bool := .ok true
  /-- `validateInlineOutput`. -/
  outputCheck : Option String := none
  /-- `evalTemplates` of the input of a notify or transform step. -/
  input : Except String Unit := .ok ()
  busUp : Bool := true
  /-- `Eval` of the expression, `parseSwitchCases` and `parseSwitchDefault`. -/
  switch : Except String SwitchConfig := .ok {}
  /-- `resolveSubWorkflowConfig`. -/
  subWorkflow : Except String String := .ok ""
  /-- `containsString` of the call stack. -/
  circular : Bool := false
  /-- `normalizeSubWorkflowInput`, `GetWorkflow`, `CreateRun`, `StartRun`. -/
  childInput : Option String := none
  childWorkflow : Option String := none
  createRun : Option String := none
  startRun : Option String := none
  childRunID : String := ""
  childRun : Except String ChildRunInfo := .ok {}
  /-- `buildSubWorkflowOutput`. -/
  childOutput : Option String := none
  parallel : Except String ParallelConfig := .ok {}
  /-- `evalCondition` of a loop's condition and of its `until`. -/
  loopCondition : Except String Bool := .ok true
  loopUntil : Except String Bool := .ok false
  /-- `evalForEach`: how many items. -/
  items : Except String ℕ := .ok 0
  /-- The operation and key of a storage step, and whether the key is there to be read. -/
  storage : Except String (String × String) := .ok ("", "")
  keyFound : Bool := true
  /-- The children's dispatches. -/
  child : String → DispatchEnv := fun _ => {}
  /-- Whether the cancellation of a job is published. -/
  cancelled : String → Bool := fun _ => true

/-- A step that is visited. -/
structure Visit where
  wf : Workflow
  now : ℤ
  stepID : String
  step : Step
  env : StepEnv
  parallelOwners : GoMap String := ∅
  /-- `e.maxForEachItems`. -/
  maxForEachItems : ℤ := 0

/-! ## Handlers -/

variable (wf : Workflow) (run : WorkflowRun) (stepID : String) (now : ℤ)

/-- Fail a step. -/
def failed (message : String) (sr : StepRun) : StepRun :=
  { sr with status := .failed, completedAt := some now, error := some { message } }

/-- Start a step that has not started. -/
def started (sr : StepRun) : StepRun := { sr with startedAt := some (sr.startedAt.getD now) }

/-- Fail a step, started or not. -/
def startedFailed (message : String) (sr : StepRun) : StepRun := failed now message (started now sr)

/-- End a step with success. -/
def completed (sr : StepRun) : StepRun := { sr with status := .succeeded, completedAt := some now }

/-- A step that has not begun. -/
def fresh (status : StepStatus) : Bool := status = .unset || status = .pending

/-- Set a step running. -/
def begun (sr : StepRun) : StepRun := { sr with status := .running, startedAt := some now }

/-- The input of a job: the payload, and what it lacks from the step's own. -/
def mergeInput (payload own : ErrorInput) : ErrorInput := if payload = .absent then own else payload

/-- A timer for a delay. -/
def Tick.scheduleAfter (t : Tick) (now delay : ℤ) : Tick :=
  if delay ≤ 0 then t else t.emit (.timer (now + delay))

/-- A timer for a time. -/
def Tick.scheduleAt (t : Tick) (now next : ℤ) : Tick := t.scheduleAfter now (next - now)

/-- Wait for a step's next attempt. -/
def Tick.awaitAttempt (t : Tick) (now : ℤ) : Option ℤ → Tick
  | none => t
  | some next => t.scheduleAt now next

/-- The identifier of a dispatched job. -/
def jobIDFor (attempt : ℤ) : String := s!"{run.id}:{stepID}@{attempt}"

/-- The identifier of a fan-out's child. -/
def childIDFor (idx : ℕ) : String := s!"{stepID}[{idx}]"

/-- The time is after `now`. -/
def inFuture (at? : Option ℤ) : Bool :=
  match at? with
  | none => false
  | some next => now < next

variable (v : Visit) (sr : StepRun) (t : Tick)

/-- Condition steps. -/
def visitCondition : Tick :=
  if fresh sr.status then
    let sr := begun v.now sr
    if trimSpace v.step.condition = "" then t.put v.stepID
      (failed v.now "condition expression required" sr)
    else
      match v.env.condition with
      | .error e => t.put v.stepID (failed v.now e sr)
      | .ok _ =>
        match v.env.outputCheck with
        | some e => t.put v.stepID (failed v.now e sr)
        | none => t.put v.stepID (completed v.now sr)
  else t.put v.stepID sr

/-- A step whose dispatch did not go out. -/
def undispatched (attempts : ℤ) (sr : StepRun) : StepRun :=
  { sr with status := .pending, jobID := "", attempts, startedAt := none }

/-- Save the run, then publish; a step whose job does not go out is pending. -/
def saveAndSubmit (v : Visit) (attempts : ℤ) (sr : StepRun) (t : Tick) : Tick :=
  let (t, saved) := (t.put v.stepID sr).save v.env.dispatch.save
  if saved then
    match v.env.dispatch.publish with
    | some _ => ((t.put v.stepID (undispatched attempts sr)).save v.env.dispatch.saveRevert).1
    | none => t.emit (.submit sr.jobID)
  else t.put v.stepID (undispatched attempts sr)

/-- Approval steps: a gate job, and the run waits. -/
def visitApproval : Tick :=
  if fresh sr.status then
    match v.env.dispatch.payload with
    | .error e => t.put v.stepID { sr with status := .failed, error := some { message := e } }
    | .ok input =>
      let unstored := fun e => t.put v.stepID
        { sr with status := .failed, error := some { message := e }, errorInput := input }
      match v.env.dispatch.contextPtr with
      | .error e => unstored e
      | .ok ptr =>
        if trimSpace ptr = "" then unstored "approval context store unavailable"
        else
          let sr' : StepRun :=
            { sr with
              status := .waiting
              startedAt := some v.now
              jobID := jobIDFor t.run v.stepID 1
              attempts := 1
              errorInput := mergeInput input sr.errorInput }
          saveAndSubmit v 0 sr' { t with run := { t.run with status := .waiting } }
  else t.put v.stepID sr

/-- Delay steps. They are looked at whatever their status. -/
def visitDelay : Tick :=
  match v.step.delay v.now with
  | .error e => t.put v.stepID (failed v.now e sr)
  | .ok delay =>
    let done := fun sr : StepRun => t.put v.stepID { completed v.now sr with nextAttemptAt := none }
    if fresh sr.status then
      let sr := begun v.now sr
      if delay ≤ 0 then done sr
      else (t.put v.stepID { sr with nextAttemptAt := some (v.now + delay) }).scheduleAfter v.now delay
    else
      match sr.status, sr.nextAttemptAt with
      | .running, some next => if next ≤ v.now then done sr else (t.scheduleAt v.now next).put v.stepID sr
      | _, _ => t.put v.stepID sr

/-- Notify steps. -/
def visitNotify : Tick :=
  if fresh sr.status then
    match v.env.input with
    | .error e => t.put v.stepID (failed v.now e sr)
    | .ok _ =>
      if !v.env.busUp then t.put v.stepID (failed v.now "bus unavailable" sr)
      else
        match v.env.dispatch.publish with
        | some e => t.put v.stepID (failed v.now e sr)
        | none => (t.put v.stepID { completed v.now sr with startedAt := some v.now }).emit
            (.alert v.stepID)
  else t

/-- Transform steps. -/
def visitTransform : Tick :=
  if fresh sr.status then
    let sr := begun v.now sr
    if !v.step.hasInput then t.put v.stepID (completed v.now sr)
    else
      match v.env.input with
      | .error e => t.put v.stepID (failed v.now s!"transform expression error: {e}" sr)
      | .ok _ =>
        match v.env.outputCheck with
        | some e => t.put v.stepID (failed v.now e sr)
        | none => t.put v.stepID (completed v.now sr)
  else t.put v.stepID sr

/-- A branch that is not taken. -/
def notTaken (sr : StepRun) : StepRun :=
  { started now sr with
    status := .cancelled
    completedAt := some now
    error := some { message := "branch not taken", reason := switchBranchNotTakenReason } }

/-- Cancel the branches that are not taken. -/
def cancelBranches (branches : List String) (run : WorkflowRun) : WorkflowRun :=
  branches.foldl (fun run id =>
    let sr := (run.step id).getD {}
    if isTerminalStepStatus sr.status then run else run.setStep id (notTaken now sr)) run

/-- The targets of a switch other than the one it takes. -/
def unmatchedTargets (cfg : SwitchConfig) (target : String) : List String :=
  ((cfg.cases.map Prod.snd).filter fun id => id ≠ "" ∧ id ≠ target) ++
    if cfg.defaultStepID ≠ "" ∧ cfg.defaultStepID ≠ target then [cfg.defaultStepID] else []

/-- The first target that is not a step of the definition. -/
def invalidTarget (cfg : SwitchConfig) : Option String :=
  match cfg.cases.find? fun c => (wf.step c.2).isNone with
  | some c => some s!"switch case target step {c.2.quote} not found"
  | none =>
    if cfg.defaultStepID ≠ "" ∧ (wf.step cfg.defaultStepID).isNone then
      some s!"switch default target step {cfg.defaultStepID.quote} not found"
    else none

/-- The target of the first case that matches, or the default. -/
def SwitchConfig.target (cfg : SwitchConfig) : String :=
  match cfg.cases.find? Prod.fst with
  | some c => if c.2 = "" then cfg.defaultStepID else c.2
  | none => cfg.defaultStepID

/-- Switch steps. The branches are cancelled before the output is checked. -/
def visitSwitch : Tick :=
  let sr := if fresh sr.status then begun v.now sr else sr
  if trimSpace v.step.condition = "" then t.put v.stepID (failed v.now "switch expression required" sr)
  else
    match v.env.switch with
    | .error e => t.put v.stepID (failed v.now e sr)
    | .ok cfg =>
      match invalidTarget v.wf cfg with
      | some e => t.put v.stepID (failed v.now e sr)
      | none =>
        if trimSpace cfg.target = "" then t.put v.stepID (failed v.now "no matching case" sr)
        else
          let t := { t with run := cancelBranches v.now (unmatchedTargets cfg cfg.target) t.run }
          match v.env.outputCheck with
          | some e => t.put v.stepID (failed v.now e sr)
          | none =>
            let t := t.put v.stepID { completed v.now sr with error := none }
            let targetSR := (t.run.step cfg.target).getD {}
            t.put cfg.target
              (if targetSR.status = .unset then { targetSR with status := .pending } else targetSR)

/-- The status of the step of a run that ended. -/
def subWorkflowTerminalStatus : RunStatus → StepStatus
  | .cancelled => .cancelled
  | .timedOut => .timedOut
  | .denied => .denied
  | .pending | .running | .waiting | .succeeded | .failed => .failed

/-- Sub-workflow steps: a child run is started, and later looked at. -/
def visitSubWorkflow : Tick :=
  let fail := fun e => t.put v.stepID (startedFailed v.now e sr)
  match v.env.subWorkflow with
  | .error e => fail e
  | .ok childWorkflowID =>
    let childRunID := trimSpace sr.jobID
    if childRunID = "" then
      if v.env.circular then fail s!"circular workflow reference detected: {childWorkflowID}"
      else
        match v.env.childInput, v.env.childWorkflow, v.env.createRun with
        | some e, _, _ => fail e
        | none, some e, _ => fail s!"get child workflow: {e}"
        | none, none, some e => fail s!"create child run: {e}"
        | none, none, none =>
          let t := t.emit (.createChild childWorkflowID v.env.childRunID)
          match v.env.startRun with
          | some e => t.put v.stepID (startedFailed v.now s!"start child run: {e}" sr)
          | none =>
            (t.emit (.startChild childWorkflowID v.env.childRunID)).put v.stepID
              { started v.now sr with
                status := .running, completedAt := none, jobID := v.env.childRunID, error := none }
    else
      match v.env.childRun with
      | .error e => fail s!"get child run: {e}"
      | .ok info =>
        match info.status with
        | .pending | .running | .waiting => t.put v.stepID { sr with status := .running }
        | .succeeded =>
          match v.env.childOutput, v.env.outputCheck with
          | some e, _ => t.put v.stepID (failed v.now e sr)
          | none, some e => t.put v.stepID (failed v.now e sr)
          | none, none => t.put v.stepID { completed v.now sr with error := none }
        | .failed | .denied | .cancelled | .timedOut =>
          t.put v.stepID
            { sr with
              status := subWorkflowTerminalStatus info.status
              completedAt := some v.now
              error := some { message := info.message } }

/-- The end of a child's dispatch. -/
inductive ChildDispatch
  /-- The payload or its context could not be made. -/
  | unbuilt (child : ChildRun)
  /-- The job did not go out. -/
  | unsent (child : ChildRun) (message : String)
  | sent (child : ChildRun)

/-- Dispatch a child. -/
def dispatchChild (jobID : String) (env : DispatchEnv) (child : ChildRun) : ChildDispatch :=
  match env.payload with
  | .error e => .unbuilt { child with status := .failed, error := some { message := e } }
  | .ok input =>
    match env.contextPtr with
    | .error e =>
      .unbuilt { child with status := .failed, error := some { message := e }, errorInput := input }
    | .ok _ =>
      match env.publish with
      | some e => .unsent { child with errorInput := input } e
      | none =>
        .sent
          { child with
            status := .running
            startedAt := some now
            attempts := child.attempts + 1
            jobID
            errorInput := input }

/-- A parent with a child's entry, and the run with the same. -/
def putChild (childID : String) (child : ChildRun) (sr : StepRun) (t : Tick) : StepRun × Tick :=
  ({ sr with children := sr.children.insert childID child }, t.put childID child.toStepRun)

/-- The children of a parent in some status. -/
def childrenIn (sr : StepRun) (p : StepStatus → Bool) : List ChildRun :=
  (sr.children.entries.map (·.2)).filter fun child => p child.status

/-- The turn of a loop that dispatches the next iteration. -/
def dispatchIteration : Tick :=
  let childID := childIDFor v.stepID sr.children.entries.length
  let child := (sr.children.lookup childID).getD { status := .pending }
  let settle := fun (child : ChildRun) (t : Tick) =>
    let (sr, t) := putChild childID child sr t
    t.put v.stepID sr
  if inFuture v.now child.nextAttemptAt then settle child (t.awaitAttempt v.now child.nextAttemptAt)
  else
    match dispatchChild v.now (jobIDFor t.run childID (child.attempts + 1))
      (v.env.child childID) child with
    | .unbuilt child => settle child t
    | .unsent _ e => settle { child with status := .failed, error := some { message := e } } t
    | .sent child => settle child (t.emit (.submit child.jobID))

/-- Loop steps: one iteration after the other, while the condition holds. -/
def visitLoop : Tick :=
  match v.step.loopConfig with
  | .error e => t.put v.stepID (startedFailed v.now e sr)
  | .ok cfg =>
    if v.step.loopBody ≠ "" ∧ (v.wf.step v.step.loopBody).isNone then
      t.put v.stepID (startedFailed v.now s!"loop body_step {v.step.loopBody.quote} not found" sr)
    else
      let sr := if fresh sr.status then { started v.now sr with status := .running } else sr
      let hasFailed := !(childrenIn sr fun s => s = .failed || s = .cancelled || s = .timedOut).isEmpty
      let hasActive := !(childrenIn sr fun s => s = .running || s = .waiting || s = .pending).isEmpty
      if hasFailed then
        t.put v.stepID
          { sr with
            status := .failed
            completedAt := some v.now
            error := some (sr.error.getD { message := "loop child iteration failed" }) }
      else if hasActive then t.put v.stepID sr
      else
        let done := t.put v.stepID { completed v.now sr with error := none }
        let nextIndex := sr.children.entries.length
        if cfg.maxIterations ≤ nextIndex then
          if cfg.conditionExpr ≠ "" ∨ cfg.untilExpr ≠ "" then
            t.put v.stepID (failed v.now s!"loop max_iterations exceeded ({cfg.maxIterations})" sr)
          else done
        else
          match (if cfg.conditionExpr ≠ "" then v.env.loopCondition else .ok true) with
          | .error e => t.put v.stepID (failed v.now e sr)
          | .ok continues =>
            match (if cfg.untilExpr ≠ "" then v.env.loopUntil else .ok false) with
            | .error e => t.put v.stepID (failed v.now e sr)
            | .ok stops => if continues && !stops then dispatchIteration v sr t else done

/-! ### Parallel steps -/

/-- `summarizeParallelChildren`: succeeded, failed and running. -/
def summarizeParallelChildren (sr : StepRun) (childStepIDs : List String) : ℕ × ℕ × ℕ :=
  let count := fun p : StepStatus → Bool =>
    childStepIDs.countP fun id =>
      match sr.children.lookup id with
      | none => false
      | some child => p child.status
  (count (· = .succeeded), count (fun s => s = .failed || s = .denied || s = .cancelled || s = .timedOut),
    count fun s => s = .running || s = .waiting)

/-- `evaluateParallelOutcome`: `none` while it is open. -/
def evaluateParallelOutcome (strategy : Strategy) (required total succeeded failed : ℕ) :
    Option (Except String Unit) :=
  match strategy with
  | .all =>
    if 0 < failed then some (.error "parallel strategy all failed because at least one child failed")
    else if succeeded = total then some (.ok ())
    else none
  | .any =>
    if 0 < succeeded then some (.ok ())
    else if failed = total
      then some (.error "parallel strategy any exhausted all children without success")
    else none
  | .nOfM =>
    if required ≤ succeeded then some (.ok ())
    else if (total : ℤ) - failed < required then
      some (.error s!"parallel strategy n_of_m cannot reach required successes ({required}/{total})")
    else none

/-- Cancel a child that has not ended. -/
def cancelChild (v : Visit) (message childID : String) (child : ChildRun)
    (s : StepRun × Tick) : StepRun × Tick :=
  let t := if child.jobID ≠ "" ∧ v.env.cancelled child.jobID
    then s.2.emit (.cancelJob child.jobID) else s.2
  putChild childID
    { child with
      status := .cancelled
      completedAt := some v.now
      error := some (child.error.getD { message }) } s.1 t

/-- The children that are open, cancelled. -/
def cancelParallelChildren (v : Visit) (childStepIDs : List String)
    (s : StepRun × Tick) : StepRun × Tick :=
  childStepIDs.foldl (fun s id =>
    match (s.1.children.lookup id).or ((s.2.run.step id).map (·.toChildRun)) with
    | none => s
    | some child =>
      if isTerminalStepStatus child.status then s
        else cancelChild v "cancelled by parallel strategy" id child s) s

/-- The children a parallel step takes over, and why it cannot take the last. -/
def adoptChildren (v : Visit) : List String → StepRun × Tick →
    (StepRun × Tick) × List String × Option String
  | [], s => (s, [], none)
  | id :: ids, s =>
    let next :=
      let (s, active, fault) := adoptChildren v ids (adopt id s)
      (s, id :: active, fault)
    if (v.wf.step id).isNone then (s, [id], some s!"parallel child step {id.quote} not found")
    else
      match v.parallelOwners.lookup id with
      | some ownerID =>
        if ownerID ≠ v.stepID
          then (s, [id], some s!"parallel child step {id.quote} is reserved by {ownerID.quote}")
        else next
      | none => next
where
  /-- The entry of a child, pending when it has none. -/
  adopt (id : String) (s : StepRun × Tick) : StepRun × Tick :=
    let child := (s.2.run.step id).getD { status := .pending }
    let child := if child.status = .unset then { child with status := .pending } else child
    ({ s.1 with children := s.1.children.insert id child.toChildRun }, s.2.put id child)

/-- Drop the entries of children that are not listed. -/
def keepChildren (active : List String) (sr : StepRun) : StepRun :=
  { sr with
    children := (sr.children.keys.filter fun id => !active.contains id).foldl
      (fun m id => m.erase id) sr.children }

/-- Dispatch the children that are ready, as far as the limit allows. -/
def dispatchParallel (v : Visit) : List String → ℕ → StepRun × Tick → StepRun × Tick
  | [], _, s => s
  | id :: ids, running, s =>
    if 0 < v.step.maxParallel ∧ v.step.maxParallel ≤ running then s
    else
      let child := ((s.2.run.step id).getD { status := .pending }).toChildRun
      if (v.wf.step id).isNone ∨ !fresh child.status ∨ s.2.dispatched.contains id
        then dispatchParallel v ids running s
      else if inFuture v.now child.nextAttemptAt then
        dispatchParallel v ids running (s.1, s.2.awaitAttempt v.now child.nextAttemptAt)
      else
        match dispatchChild v.now (jobIDFor s.2.run id (child.attempts + 1)) (v.env.child id) child with
        | .unbuilt child => dispatchParallel v ids running (putChild id child s.1 s.2)
        | .unsent _ e =>
          dispatchParallel v ids running
            (putChild id { child with status := .failed, error := some { message := e } } s.1 s.2)
        | .sent child =>
          let t := s.2.emit (.submit child.jobID)
          dispatchParallel v ids (running + 1)
            (putChild id child s.1 { t with dispatched := id :: t.dispatched })

/-- Parallel steps. -/
def visitParallel : Tick :=
  match v.env.parallel with
  | .error e => t.put v.stepID (startedFailed v.now e sr)
  | .ok cfg =>
    if cfg.childStepIDs = [] then t.put v.stepID { completed v.now sr with startedAt := some v.now }
    else
      let sr := if fresh sr.status then { started v.now sr with status := .running } else sr
      let ((sr, t), active, fault) := adoptChildren v cfg.childStepIDs (sr, t)
      let sr := keepChildren active sr
      match fault with
      | some e => t.put v.stepID (startedFailed v.now e sr)
      | none =>
        let (succeeded, failures, running) := summarizeParallelChildren sr cfg.childStepIDs
        match evaluateParallelOutcome cfg.strategy cfg.required
          cfg.childStepIDs.length succeeded failures with
        | some outcome =>
          let (sr, t) := cancelParallelChildren v cfg.childStepIDs (sr, t)
          match outcome, v.env.outputCheck with
          | .error e, _ => t.put v.stepID (failed v.now e sr)
          | .ok _, some e => t.put v.stepID (failed v.now e sr)
          | .ok _, none => t.put v.stepID { completed v.now sr with error := none }
        | none =>
          let (sr, t) := dispatchParallel v cfg.childStepIDs running (sr, t)
          t.put v.stepID { sr with status := .running }

/-! ### For-each steps -/

/-- Pending entries for the items that have none. -/
def createChildren (items : ℕ) (s : StepRun × Tick) : StepRun × Tick :=
  (List.range items).foldl (fun s idx =>
    let id := childIDFor stepID idx
    if (s.1.children.lookup id).isSome then s else putChild id { status := .pending } s.1 s.2) s

/-- Dispatch the items that are ready, as far as the limit allows. A job may not go out. -/
def dispatchItems (v : Visit) : List ℕ → ℕ → StepRun × Tick → StepRun × Tick
  | [], _, s => s
  | idx :: idxs, running, s =>
    if 0 < v.step.maxParallel ∧ v.step.maxParallel ≤ running then s
    else
      let id := childIDFor v.stepID idx
      let child := (s.1.children.lookup id).getD { status := .pending }
      if !fresh child.status ∨ s.2.dispatched.contains id then dispatchItems v idxs running s
      else if inFuture v.now child.nextAttemptAt then
        dispatchItems v idxs running (s.1, s.2.awaitAttempt v.now child.nextAttemptAt)
      else
        match dispatchChild v.now (jobIDFor s.2.run id (child.attempts + 1)) (v.env.child id) child with
        | .unbuilt child => dispatchItems v idxs running (putChild id child s.1 s.2)
        | .unsent child _ =>
          dispatchItems v idxs running
            (putChild id { child with status := .pending, jobID := "", startedAt := none } s.1 s.2)
        | .sent child =>
          let t := s.2.emit (.submit child.jobID)
          dispatchItems v idxs (running + 1)
            (putChild id child s.1 { t with dispatched := id :: t.dispatched })

/-- The items of a for-each, evaluated once. -/
def resolveItems : Except String ℕ :=
  match sr.resolvedItems with
  | some n => .ok n
  | none =>
    match v.env.items with
    | .error e => .error e
    | .ok n =>
      if 0 < v.maxForEachItems ∧ v.maxForEachItems < n then
        .error s!"for_each fan-out exceeds limit ({n} > {v.maxForEachItems})"
      else .ok n

/-- For-each steps. -/
def visitForEach : Tick :=
  match resolveItems v sr with
  | .error e => t.put v.stepID (startedFailed v.now e sr)
  | .ok items =>
    let sr := { sr with resolvedItems := some items }
    if items = 0 then t.put v.stepID { completed v.now sr with startedAt := some v.now }
    else
      let (sr, t) := createChildren v.stepID items (sr, t)
      let sr := { started v.now sr with status := .running }
      let (sr, t) := dispatchItems v (List.range items) (childrenIn sr (· = .running)).length (sr, t)
      t.put v.stepID sr

/-! ### Storage steps and jobs -/

/-- Storage steps. -/
def visitStorage : Tick :=
  if fresh sr.status then
    let sr := begun v.now sr
    let fail := fun e => t.put v.stepID (failed v.now e sr)
    match v.env.storage with
    | .error e => fail s!"storage input expression error: {e}"
    | .ok (operation, key) =>
      let done :=
        match v.env.outputCheck with
        | some e => fail e
        | none => t.put v.stepID (completed v.now sr)
      if operation = "read" then
        if key = "" then fail "storage read: key is required"
        else if !v.env.keyFound then fail s!"storage read: key {key.quote} not found"
        else done
      else if operation = "write" then if key = "" then fail "storage write: key is required" else done
      else if operation = "delete" then if key = "" then fail "storage delete: key is required" else done
      else fail s!"unknown storage operation: {operation.quote}"
  else t.put v.stepID sr

/-- Every other step is a job for a worker. -/
def visitJob : Tick :=
  if inFuture v.now sr.nextAttemptAt then (t.awaitAttempt v.now sr.nextAttemptAt).put v.stepID sr
  else
    match v.env.dispatch.payload with
    | .error e => t.put v.stepID { sr with status := .failed, error := some { message := e } }
    | .ok input =>
      match v.env.dispatch.contextPtr with
      | .error e =>
        t.put v.stepID { sr with status := .failed, error := some { message := e }, errorInput := input }
      | .ok _ =>
        let sr' : StepRun :=
          { sr with
            status := .running
            startedAt := some v.now
            attempts := sr.attempts + 1
            jobID := jobIDFor t.run v.stepID (sr.attempts + 1)
            errorInput := mergeInput input sr.errorInput }
        saveAndSubmit v sr.attempts sr' t

/-! ## A pass -/

/-- Whether a step in this status is looked at again. A delay step always is. -/
def revisited (step : Step) (status : StepStatus) : Bool :=
  match status with
  | .unset | .pending | .waiting => true
  | .running | .succeeded | .failed | .denied | .cancelled | .timedOut | .skipped =>
    if step.forEach = "" ∧ step.type ≠ .parallel ∧ step.type ≠ .loop ∧
      step.type ≠ .subWorkflow then step.type = .delay
    else status = .running

/-- The handler of a step's type. -/
def handleStep : Tick :=
  match v.step.type with
  | .condition => visitCondition v sr t
  | .approval => visitApproval v sr t
  | .delay => visitDelay v sr t
  | .notify => visitNotify v sr t
  | .transform => visitTransform v sr t
  | .switch => visitSwitch v sr t
  | .subWorkflow => visitSubWorkflow v sr t
  | .parallel => visitParallel v sr t
  | .loop => visitLoop v sr t
  | .storage => if v.step.forEach ≠ "" then visitForEach v sr t else visitStorage v sr t
  | .worker | .generic _ => if v.step.forEach ≠ "" then visitForEach v sr t else visitJob v sr t

/-- A step that is due: its condition is looked at first. -/
def dueStep : Tick :=
  if v.step.condition ≠ "" ∧ v.step.type ≠ .condition ∧ v.step.type ≠ .switch then
    match v.env.condition with
    | .error e => t.put v.stepID (startedFailed v.now e sr)
    | .ok false => t.put v.stepID { completed v.now sr with startedAt := some v.now }
    | .ok true => handleStep v sr t
  else handleStep v sr t

/-- Whether the step is due. An error handler has to be activated. -/
def isDue (step : Step) : Bool :=
  let sr := (run.step stepID).getD {}
  revisited step sr.status && depsSatisfied (some step) run wf &&
    !(isOnErrorTarget wf stepID && (sr.status = .unset || sr.errorInput ≠ .value))

/-- The steps of a run as they are stored. -/
def WorkflowRun.order (run : WorkflowRun) : { l : List String // l.Perm run.steps.keys } :=
  ⟨run.steps.keys, .refl _⟩

/-- What one call of `scheduleReady` finds outside the run. -/
structure ScheduleEnv (wf : Workflow) where
  now : ℤ := 0
  maxForEachItems : ℤ := 0
  parallelOwners : Order wf := wf.order
  loopOwners : Order wf := wf.order
  /-- By the pass. -/
  main : ℕ → Order wf := fun _ => wf.order
  activation : ℕ → (run : WorkflowRun) → { l : List String // l.Perm run.steps.keys } :=
    fun _ => WorkflowRun.order
  /-- By the pass and the step. -/
  step : ℕ → String → StepEnv := fun _ _ => {}
  status : StatusOrders wf
  /-- The saving of a run that timed out, and which cancellations are published. -/
  timeoutSave : SaveResult := .ok
  cancelled : String → Bool := fun _ => true
  save : SaveResult := .ok

/-- The steps their owner dispatches. -/
def ScheduleEnv.managed {wf : Workflow} (env : ScheduleEnv wf) (stepID : String) : Bool :=
  managedBy (collectParallelChildOwners wf env.parallelOwners.1) stepID ||
    managedBy (collectLoopBodyOwners wf env.loopOwners.1) stepID

/-- One turn of the loop over the steps, none of which is nil. -/
def visitStep {wf : Workflow} (env : ScheduleEnv wf) (pass : ℕ) (t : Tick) (stepID : String) : Tick :=
  if env.managed stepID then t
  else
    match wf.step stepID with
    | none => t
    | some step =>
      if isDue wf t.run stepID step then
        dueStep
          { wf, now := env.now, stepID, step, env := env.step pass stepID
            parallelOwners := collectParallelChildOwners wf env.parallelOwners.1
            maxForEachItems := env.maxForEachItems }
          ((t.run.step stepID).getD {}) t
      else t

/-- The handler's step, pending again. -/
def activateOnErrorHandler : WorkflowRun :=
  match wf.step stepID with
  | none => run
  | some stepDef =>
    if stepDef.onError = "" ∨ stepDef.onError ∉ wf.ids then run
    else
      let target := (run.step stepDef.onError).getD {}
      if fresh target.status then run.setStep stepDef.onError
        { target with status := .pending, errorInput := .value }
      else run

theorem activateOnErrorHandler_status : (activateOnErrorHandler wf run stepID).status = run.status := by
  unfold activateOnErrorHandler
  dsimp only
  repeat' split
  all_goals rfl

/-- The activation of error handlers after a pass: of steps that failed or timed out. -/
def activateHandlers (order : List String) (run : WorkflowRun) : WorkflowRun :=
  order.foldl (fun run id =>
    match run.step id with
    | none => run
    | some sr =>
      if sr.status = .failed || sr.status = .timedOut then activateOnErrorHandler wf run id else run) run

/-- The steps that have ended. -/
def countTerminalSteps : ℕ := run.steps.entries.countP fun e => isTerminalStepStatus e.2.status

/-- One pass. -/
def schedulePass {wf : Workflow} (env : ScheduleEnv wf) (pass : ℕ) (t : Tick) : Tick :=
  let t := (env.main pass).1.foldl (visitStep env pass) t
  { t with run := activateHandlers wf (env.activation pass t.run).1 t.run }

/-- Passes, as long as steps complete. -/
def schedulePasses {wf : Workflow} (env : ScheduleEnv wf) : ℕ → ℕ → Tick → Tick
  | 0, _, t => t
  | n + 1, pass, t =>
    let t' := schedulePass env pass t
    if countTerminalSteps t'.run ≤ countTerminalSteps t.run then t' else schedulePasses env n (pass + 1) t'

/-! ## The whole -/

/-- The jobs of a step that can be cancelled. -/
def collectCancelableJobs (sr : StepRun) : List String :=
  let jobs := fun c : ChildRun => if (c.status = .running || c.status = .waiting) &&
    c.jobID ≠ "" then [c.jobID] else []
  jobs sr.toChildRun ++ (sr.children.entries.map (·.2)).flatMap jobs

/-- End a step that has not ended, and its children. -/
def endStepRun (change : ChildRun → ChildRun) (sr : StepRun) : StepRun :=
  let ended := fun c : ChildRun => if isTerminalStepStatus c.status then c else change c
  { sr with
    toChildRun := ended sr.toChildRun
    children := (sr.children.entries.map
      fun e => (⟨e.1, ended e.2⟩ : Sigma fun _ : String => ChildRun)).toAList }

/-- An open step, timed out. -/
def timeoutStepRun : StepRun → StepRun :=
  endStepRun fun c =>
    { c with
      status := .timedOut
      completedAt := some now
      error := some (c.error.getD { message := "workflow run timed out" }) }

/-- An open step, cancelled. -/
def cancelStepRun : StepRun → StepRun :=
  endStepRun fun c => { c with status := .cancelled, completedAt := some now }

/-- Every step of the definition with an entry. -/
def withAllSteps : WorkflowRun :=
  wf.ids.foldl (fun run id => if (run.step id).isSome then run else run.setStep id {}) run

/-- Every step of the run changed. -/
def mapSteps (f : StepRun → StepRun) (run : WorkflowRun) : WorkflowRun :=
  { run with steps :=
    (run.steps.entries.map fun e => (⟨e.1, f e.2⟩ : Sigma fun _ : String => StepRun)).toAList }

/-- End a run with all its steps: the run, and the jobs to be cancelled. -/
def endRun (status : RunStatus) (change : StepRun → StepRun) (run : WorkflowRun) :
    WorkflowRun × List String :=
  let run := withAllSteps wf run
  ({ mapSteps change run with status, completedAt := some now },
    ((run.steps.entries.map (·.2)).flatMap collectCancelableJobs).dedup)

/-- Publish the cancellation of jobs. -/
def Tick.cancelJobs (t : Tick) (cancelled : String → Bool) (jobIDs : List String) : Tick :=
  { t with log := t.log ++ (jobIDs.filter cancelled).map .cancelJob }

/-- `enforceWorkflowTimeout` is due. -/
def pastDeadline : Bool :=
  if wf.timeoutSec ≤ 0 ∨ isTerminalRunStatus run.status then false
  else
    match run.startedAt.or (if run.status = .pending then none else run.createdAt) with
    | none => false
    | some startedAt => startedAt + wf.timeoutSec * 1000000000 ≤ now

/-- The run past its deadline. -/
def timeoutRun (save : SaveResult) (cancelled : String → Bool) (t : Tick) : Tick :=
  let (run, jobIDs) := endRun wf now .timedOut (timeoutStepRun now) t.run
  let (t, saved) := { t with run := { run with error := some "workflow run timed out" } }.save save
  if saved then t.cancelJobs cancelled jobIDs else t

/-- `scheduleReady`. -/
def scheduleReady {wf : Workflow} (env : ScheduleEnv wf) (t : Tick) : Tick :=
  if isTerminalRunStatus t.run.status then t
  else
    let t :=
      if t.run.status = .pending
        then { t with run := { t.run with status := .running, startedAt := some env.now } } else t
    if pastDeadline wf t.run env.now then timeoutRun wf env.now env.timeoutSave env.cancelled t
    else
      let t := schedulePasses env (max 1 wf.ids.length) 0 { t with dispatched := [] }
      ({ t with run := updateRunStatus env.status env.now t.run }.save env.save).1

end Cordum.Flow
