import Cordum.Graph.Sweep
import Cordum.Workflow.Schedule

/-!
# Running again from a step

`RerunFrom` makes a new run of a definition that resumes at a step: what the step depends on, directly
or through others, is taken over from the old run, and must have succeeded there.
-/

namespace Cordum.Flow

open Graph

/-- The set of dependencies found so far. The empty text names no step. -/
def depMarking : Marking String (List String) where
  pending deps dep := dep ≠ "" && dep ∉ deps
  mark dep deps := dep :: deps
  pending_mark a s b := by
    by_cases hb : b = a <;> simp [hb]

variable (wf : Workflow) (stepID : String)

/-- The steps a step depends on. -/
def stepDeps : List String :=
  match if stepID = "" then none else wf.step stepID with
  | none => []
  | some step => step.dependsOn

/-- `collectDependencies`, with fuel for every name in the definition. -/
def collectDependencies : List String :=
  sweep depMarking (stepDeps wf) ((wf.ids.flatMap (stepDeps wf)).length + 1) stepID []

/-- A value in the context of a run. -/
inductive ContextValue (V : Type)
  | object (entries : GoMap V)
  | other (v : V)

/-- A run as the store has it; `rest` is what is copied as it is. -/
structure StoredRun (V R : Type) extends WorkflowRun where
  rest : R
  context : Option (GoMap (ContextValue V)) := none
  labels : Option (GoMap String) := none
  metadata : Option (GoMap String) := none
  rerunOf : String := ""
  rerunStep : String := ""
  dryRun : Bool := false

variable {V R : Type}

/-- The entries of a map under these keys. -/
def restrict (m : GoMap V) (keys : List String) : GoMap V :=
  keys.foldl (fun out key =>
    match m.lookup key with
    | none => out
    | some v => out.insert key v) ∅

/-- The context of those steps. -/
def cloneContextForDeps (ctx : Option (GoMap (ContextValue V))) (deps : List String) :
    Option (GoMap (ContextValue V)) :=
  match ctx with
  | none => none
  | some out =>
    match out.lookup "steps" with
    | some (.object steps) => some (out.insert "steps" (.object (restrict steps deps)))
    | _ => some out

/-- The runs and the definitions. -/
structure RunStore (V R : Type) where
  runs : GoMap (StoredRun V R) := ∅
  workflows : GoMap Workflow := ∅

/-- What a call finds: the calls that fail, with their errors, and the id it draws. -/
structure RerunEnv (st : RunStore V R) where
  locked : Bool := false
  getRun : Option String := none
  getWorkflow : Option String := none
  createRun : Option String := none
  newID : String
  fresh : newID ∉ st.runs
  now : ℤ
  order : (deps : List String) → { l : List String // l.Perm deps } := fun deps => ⟨deps, .refl _⟩

variable {st : RunStore V R}

/-- The run that takes over `deps` from an old one. -/
def newRun (e : RerunEnv st) (run : StoredRun V R) (stepID : String) (dryRun : Bool)
    (deps : List String) : StoredRun V R :=
  let metadata := (run.metadata.getD ∅).insert "rerun_of" run.id
  let metadata := if stepID = "" then metadata else metadata.insert "rerun_step" stepID
  { id := e.newID
    workflowID := run.workflowID
    rest := run.rest
    context := cloneContextForDeps run.context deps
    status := .pending
    steps := restrict run.steps (e.order deps).1
    createdAt := some e.now
    rerunOf := run.id
    rerunStep := stepID
    dryRun := dryRun
    labels := if dryRun then some ((run.labels.getD ∅).insert "dry_run" "true") else run.labels
    metadata := if dryRun then metadata.insert "dry_run" "true" else metadata }

/-- What `RerunFrom` hands to `CreateRun`. -/
def rerun (e : RerunEnv st) (runID stepID : String) (dryRun : Bool) : Except String (StoredRun V R) :=
  if e.locked then .error s!"run {runID} is being processed by another replica"
  else if runID = "" then .error "run id required"
  else
    match e.getRun, st.runs.lookup runID with
    | some err, _ => .error s!"get run: {err}"
    | none, none => .error s!"get run: get run {runID}: redis: nil"
    | none, some run =>
      match e.getWorkflow, st.workflows.lookup run.workflowID with
      | some err, _ => .error s!"get workflow: {err}"
      | none, none => .error s!"get workflow: get workflow {run.workflowID}: redis: nil"
      | none, some wf =>
        if stepID ≠ "" ∧ stepID ∉ wf.steps then .error "step not found"
        else
          let deps := if stepID = "" then [] else collectDependencies wf stepID
          match (e.order deps).1.find? (run.stepStatus · ≠ some .succeeded) with
          | some depID => .error s!"dependency {depID} not succeeded"
          | none => .ok (newRun e run stepID dryRun deps)

/-- `RerunFrom`. -/
def rerunFrom (e : RerunEnv st) (runID stepID : String) (dryRun : Bool) :
    Except String String × RunStore V R :=
  match rerun e runID stepID dryRun, e.createRun with
  | .error err, _ | .ok _, some err => (.error err, st)
  | .ok run, none => (.ok e.newID, { st with runs := st.runs.insert e.newID run })

end Cordum.Flow
