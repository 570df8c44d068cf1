import Cordum.Workflow.Reach

/-!
# Operations that go well

Operations that find the definition, and whose saves succeed. What the steps find outside the run is
the same in every pass.
-/

namespace Cordum.Flow

variable {wf : Workflow} {T : Terms}

/-- A call of `scheduleReady` at a time. -/
def scheduleAtTime (now : ℤ) (env : String → StepEnv) (wf : Workflow) : ScheduleEnv wf where
  now := now
  step _ := env
  status := inOrder wf wf.order

/-- A start of a run. -/
def RunOp.started (wf : Workflow) (now : ℤ) (env : String → StepEnv) : RunOp :=
  .start { workflow := .ok wf, reload := .ok wf, now, schedule := scheduleAtTime now env }

/-- A result of a job. -/
def RunOp.resulted (wf : Workflow) (now : ℤ) (env : String → StepEnv) (res : JobResult) : RunOp :=
  .result
    { workflow := .ok wf
      op := fun wf => { now, status := inOrder wf wf.order, schedule := scheduleAtTime now env wf } } res

/-- What the steps find is as asked for, and no gate closes. -/
structure StepsMeet (wf : Workflow) (T : Terms) (now : ℤ) (env : String → StepEnv) : Prop where
  visits : ∀ id step, wf.step id = some step →
    ((scheduleAtTime now env wf).visit 0 id step).Proper ∧
    T.visit ((scheduleAtTime now env wf).visit 0 id step)
  gates : ∀ id, (env id).condition ≠ .ok false

/-- The gates are as asked for where those that can close are. -/
theorem passesMeet_of_closed {env : ScheduleEnv wf}
    (h : ∀ pass id step, (env.visit pass id step).Closed → ∀ run, T.gate run id) (n pass : ℕ) (t : Tick) :
    env.PassesMeet T n pass t := by
  have hgat : ∀ ids pass t, env.GatesMeet T pass ids t := by
    intro ids
    induction ids with
    | nil => exact fun _ _ => trivial
    | cons id ids ih => exact fun pass t => ⟨fun step _ _ hcl => h pass id step hcl _, ih pass _⟩
  induction n generalizing pass t with
  | zero => trivial
  | succ n ih => exact ⟨hgat _ _ _, ih _ _⟩

variable {env : String → StepEnv} {now : ℤ} {run : WorkflowRun}

theorem StepsMeet.schedule (h : StepsMeet wf T now env) (t : Tick) :
    (scheduleAtTime now env wf).Meets T t := by
  refine ⟨fun pass id step hsp => h.visits id step hsp, passesMeet_of_closed ?_ _ _ _, fun _ => ⟨rfl, rfl⟩⟩
  rintro pass id step ⟨-, -, -, hcon⟩
  exact absurd hcon (h.gates id)

theorem loads_ok : Loads wf (.ok wf) := by
  intro wf' h
  cases h
  rfl

theorem meets_started (h : StepsMeet wf T now env) : (RunOp.started wf now env).Meets wf T run :=
  ⟨loads_ok, loads_ok, fun _ => h.schedule _, fun _ => rfl⟩

theorem meets_resulted (h : StepsMeet wf T now env) {res : JobResult}
    (hres : T.result run (splitJobID res.jobID).2 res) : (RunOp.resulted wf now env res).Meets wf T run :=
  ⟨loads_ok, fun _ => ⟨fun _ _ => hres, fun _ _ => h.schedule _, fun _ => ⟨rfl, rfl⟩⟩⟩

end Cordum.Flow
