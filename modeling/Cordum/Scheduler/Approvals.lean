import Cordum.Scheduler.Runs

/-!
# Approvals, from submission to dispatch

The engine, which handles submitted and redelivered requests; the replayer of approved jobs; the
gateway, which resolves approvals; and the reconciler, which classifies an approval whose parts
disagree and applies the repair, perhaps much later.
-/

namespace Cordum

open Conc GoString

/-- What the reconciler reads of a job. -/
def inspectApprovalRepair (cfg : StoreConfig) : StoreM ApprovalRepairSnapshot :=
  if cfg.jobID = "" then .fail (.invalid "jobID required")
  else do
    let state ← getState
    match ← key .getJobRequest "job store get request" with
    | none => .fail (.notFound "job store get request")
    | some req => do
      let safety ← key .hgetAllMeta "job store get safety decision"
      let approval ← key .hgetAllMeta "job store get approval record"
      .ret (approvalRepairSnapshot cfg.hasher state req safety.safetyRecord approval.approval)

/-- `replayApproved` up to the engine: the stored request of a job that waits and is labelled as
granted. -/
def approvedRequest : StoreM (Option JobRequest) := do
  let state ← getState
  if state ≠ .approval then .ret none
  else
    match ← key .getJobRequest "job store get request" with
    | none => .ret none
    | some req => if req.labels.get labelApprovalGranted = "true" then .ret (some req) else .ret none

/-- `replayApproved`, for one job. -/
def replayApproved (h : Hasher) (a : Attempt) : EngineM Unit := do
  match ← tryStore approvedRequest with
  | .ok (some req) => handleJobRequest h a req
  | _ => .ret ()

/-- One step of one of the parties. A repair names a plan that was made before. -/
inductive ApprovalStep
  | submit (a : Attempt) (req : JobRequest)
  | replayApproved (a : Attempt)
  | resolveApproval (p : ApprovalResolutionParams) (now : ℤ)
  | classifyRepair (opts : ApprovalRepairClassifyOptions)
  | applyRepair (plan : ℕ) (actor note : String) (now : ℤ)

/-- The job, and the repair plans made so far. -/
structure ApprovalWorld where
  sys : Sys := {}
  plans : List ApprovalRepairPlan := []

variable (cfg : StoreConfig) (w : ApprovalWorld)

/-- A step, its commands under the faults `fs`. -/
def ApprovalWorld.step (fs : List Fault) : ApprovalStep → ApprovalWorld
  | .submit a req => { w with sys := ((handleJobRequest cfg.hasher a req).run (engine cfg) fs w.sys).st }
  | .replayApproved a =>
    { w with sys := ((Cordum.replayApproved cfg.hasher a).run (engine cfg) fs w.sys).st }
  | .resolveApproval p now =>
    { w with sys := ((tryStore (Cordum.resolveApproval cfg.jobID p now)).run (engine cfg) fs w.sys).st }
  | .classifyRepair opts =>
    match (tryStore (inspectApprovalRepair cfg)).run (engine cfg) fs w.sys with
    | ⟨.ok (.ok snapshot), _, s⟩ =>
      { sys := s, plans := w.plans ++ [classifyApprovalRepair snapshot opts] }
    | ⟨_, _, s⟩ => { w with sys := s }
  | .applyRepair i actor note now =>
    match w.plans[i]? with
    | some plan =>
      { w with sys := ((tryStore (applyApprovalRepair cfg.jobID ⟨plan, actor, note⟩ now)).run
          (engine cfg) fs w.sys).st }
    | none => w

/-- The world after steps that follow one another. -/
def worldAfter (cs : List (ApprovalStep × List Fault)) : ApprovalWorld :=
  cs.foldl (fun w c => w.step cfg c.2 c.1) w

@[simp] theorem worldAfter_snoc {cs : List (ApprovalStep × List Fault)} {c : ApprovalStep × List Fault} :
    worldAfter cfg w (cs ++ [c]) = (worldAfter cfg w cs).step cfg c.2 c.1 := by
  simp [worldAfter]

/-- The request a step handles, with the faults ahead and the system then. -/
def ApprovalStep.handles (c : ApprovalStep) (fs : List Fault) (s : Sys) :
    Option (Attempt × JobRequest × List Fault × Sys) :=
  match c with
  | .submit a req => some (a, req, fs, s)
  | .replayApproved a =>
    match (tryStore approvedRequest).run (engine cfg) fs s with
    | ⟨.ok (.ok (some req)), fs', s'⟩ => some (a, req, fs', s')
    | _ => none
  | _ => none

/-- The handling's safety check returns the decision 'approval granted'. -/
def FastPath (s : Sys) (a : Attempt) (req : JobRequest) (fs : List Fault) : Prop :=
  ∃ fs' s' r, (untilSafety a req).run (engine cfg) fs s = ⟨.ok true, fs', s'⟩ ∧
    ((checkSafetyDecision cfg.hasher a (attachEffectiveConfig a req)).run (engine cfg) fs' s').ans =
    .ok (.granted r)

/-- In this step the engine takes the job as approved, with hash `hash`. -/
def TakesFastPath (c : ApprovalStep × List Fault) (hash : Option String) : Prop :=
  ∃ a req fs s, c.1.handles cfg c.2 w.sys = some (a, req, fs, s) ∧ FastPath cfg s a req fs ∧
    cfg.hasher.hash req = hash

/-- In this step a `ResolveApproval` with decision approve is committed for a request with hash
`hash`, whatever its caller was told. -/
def CommitsApprove (c : ApprovalStep × List Fault) (hash : String) : Prop :=
  ∃ p now r req, c.1 = .resolveApproval p now ∧ p.decision = .approve ∧ trimSpace cfg.jobID ≠ "" ∧
    c.2.headD .none ≠ .lost ∧ resolveApprovalChecks cfg.hasher p w.sys.keys = .ok r ∧
    w.sys.keys.request = some req ∧ cfg.hasher.hash req = some hash

/-- Some step of `cs` committed an approval of a request with hash `hash`. -/
def ApprovedIn (cs : List (ApprovalStep × List Fault)) (hash : String) : Prop :=
  ∃ b₁ c b₂, cs = b₁ ++ c :: b₂ ∧ CommitsApprove cfg (worldAfter cfg w b₁) c hash

end Cordum
