import Mathlib.Data.Finmap
import Cordum.Text.GoString

/-!
# Jobs, their requests and approvals

The lifecycle of a job as `core/model/job.go` names it, the transition table of the job store, and
the records that the store keeps and the scheduler reads: the request, the safety decision on it and
the human approval. A Go string type whose values are constants is an inductive type here, and its
zero value `""` is `none`.

`reqhash.Canonical` strips what the control plane itself writes into a request before it is hashed;
`Hasher` stands for the hash.
-/

namespace Cordum

open GoString

/-- The states of a job. -/
inductive JobState
  | pending
  | approval
  | scheduled
  | dispatched
  | running
  | retrying
  | succeeded
  | failed
  | cancelled
  | timeout
  | denied
  | quarantined
deriving DecidableEq, Repr

namespace JobState

/-- The string a state is stored as. -/
def value : JobState → String
  | pending => "PENDING"
  | approval => "APPROVAL_REQUIRED"
  | scheduled => "SCHEDULED"
  | dispatched => "DISPATCHED"
  | running => "RUNNING"
  | retrying => "RETRYING"
  | succeeded => "SUCCEEDED"
  | failed => "FAILED"
  | cancelled => "CANCELLED"
  | timeout => "TIMEOUT"
  | denied => "DENIED"
  | quarantined => "OUTPUT_QUARANTINED"

/-- `projectedJobStates`: the states that have an index. -/
def all : List JobState :=
  [pending, approval, scheduled, dispatched, running, retrying, succeeded, failed, cancelled, timeout,
    denied, quarantined]

end JobState

open JobState

/-- `terminalStates` of the job store. -/
def terminalStates : JobState → Bool
  | succeeded | failed | cancelled | timeout | denied | quarantined => true
  | pending | approval | scheduled | dispatched | running | retrying => false

/-- `isActiveState`: a state that is set and not terminal. -/
def isActiveState (s : JobState) : Bool := !terminalStates s

/-- `allowedTransitions`. The row of `none` is the one Go keys by the empty string. -/
def allowedTransitions : Option JobState → List JobState
  | none => [pending, approval, scheduled, dispatched, running, failed, cancelled]
  | some pending =>
    [approval, scheduled, dispatched, running, denied, failed, timeout, succeeded, cancelled,
      retrying]
  | some approval =>
    [pending, scheduled, dispatched, running, denied, failed, timeout, succeeded, cancelled]
  | some scheduled => [scheduled, dispatched, running, denied, failed, timeout, succeeded, cancelled,
      quarantined, retrying]
  | some dispatched => [scheduled, running, succeeded, failed, cancelled, timeout, quarantined, retrying]
  | some running => [running, succeeded, failed, cancelled, timeout, quarantined, retrying]
  | some retrying => [scheduled, dispatched, running, retrying, succeeded, failed, cancelled, timeout]
  | some succeeded => [quarantined]
  | some failed | some cancelled | some timeout | some denied | some quarantined => []

/-- The table has the move. -/
def isAllowedTransition (source : Option JobState) (target : JobState) : Bool :=
  (allowedTransitions source).contains target

/-- A terminal state goes nowhere, save that a succeeded output may be quarantined. -/
theorem isAllowedTransition_terminal {s t : JobState} (hs : terminalStates s)
    (h : isAllowedTransition (some s) t) : s = succeeded ∧ t = quarantined := by
  cases s <;> simp_all [terminalStates, isAllowedTransition, allowedTransitions]

/-- The status a worker reports. -/
inductive JobStatus
  | unspecified
  | pending
  | scheduled
  | dispatched
  | running
  | succeeded
  | failed
  | cancelled
  | denied
  | timeout
  | failedRetryable
  | failedFatal
  | completed
deriving DecidableEq, Repr

/-- String maps: labels and environment of a request. -/
abbrev StrMap := Finmap fun _ : String => String

/-- `pb.DispatchIdentity`: the dispatch that a worker echoes in its events. -/
structure DispatchIdentity where
  dispatchId : String
  attempt : ℕ
  assignedWorkerId : String
deriving DecidableEq, Repr

/-- A request, as far as the scheduler reads it. -/
structure JobRequest where
  jobId : String
  topic : String
  tenantId : String
  /-- `identity.tenant_id`, empty when there is no identity. -/
  identityTenant : String
  /-- `meta.tenant_id`, empty when there is no metadata. -/
  metaTenant : String
  labels : StrMap
  env : StrMap
  /-- `budget.deadline_ms`, zero when there is no budget. -/
  deadlineMs : ℕ
  dispatch : Option DispatchIdentity
  /-- Everything else in the message. -/
  body : String
deriving DecidableEq

/-- The value a Go map lookup gives: the zero value when the key is missing. -/
def StrMap.get (m : StrMap) (k : String) : String := (m.lookup k).getD ""

/-- The tenant of a request, wherever it is named. -/
def extractTenant (req : JobRequest) : String :=
  if req.identityTenant ≠ "" then req.identityTenant
  else if req.tenantId ≠ "" then req.tenantId
  else if req.env.get "tenant_id" ≠ "" then req.env.get "tenant_id"
  else "default"

/-- The tenant `SetJobMeta` stores. -/
def metaTenantOf (req : JobRequest) : String :=
  let tenant := if req.metaTenant ≠ "" then req.metaTenant else req.tenantId
  if tenant = "" then req.env.get "tenant_id" else tenant

/-- The verdicts of the policy kernel. -/
inductive SafetyDecision
  | allow
  | deny
  | requireApproval
  | throttle
  | allowWithConstraints
  | unavailable
deriving DecidableEq, Repr

/-- The life of an approval. -/
inductive ApprovalStatus
  | pending
  | approved
  | rejected
  | expired
  | invalidated
  | repaired
deriving DecidableEq, Repr

/-- Whether an approval can be resolved. -/
inductive ApprovalActionability
  | actionable
  | resolved
  | expired
  | invalidated
  | repaired
deriving DecidableEq, Repr

/-- How an approval was resolved. -/
inductive ApprovalDecision
  | approve
  | reject
  | expire
  | invalidate
  | repair
deriving DecidableEq, Repr

/-- Whether the resolution went out. -/
inductive ApprovalPublishStatus
  | pending
  | published
deriving DecidableEq, Repr

/-- Where the resolution goes. -/
inductive ApprovalPublishTarget
  | submit
  | dlq
  | dlqAndResult
deriving DecidableEq, Repr

/-- Why an approval cannot be resolved. -/
inductive ApprovalConflictCode
  | alreadyResolved
  | retryableLock
  | terminalRun
  | staleSnapshot
  | staleRequest
  | notActionable
deriving DecidableEq, Repr

/-- Only a pending one can be acted on. -/
def ApprovalStatus.defaultActionability : ApprovalStatus → ApprovalActionability
  | pending => .actionable
  | approved | rejected => .resolved
  | expired => .expired
  | invalidated => .invalidated
  | repaired => .repaired

/-- `pb.PolicyConstraints`: the budgets and the redaction level; `body` is its JSON. -/
structure PolicyConstraints where
  maxRetries : ℕ
  maxConcurrentJobs : ℕ
  maxRuntimeMs : ℕ
  maxArtifactBytes : ℕ
  redactionLevel : String
  body : String
deriving DecidableEq, Repr

/-- The stored verdict. -/
structure SafetyDecisionRecord where
  decision : Option SafetyDecision := none
  reason : String := ""
  ruleId : String := ""
  policySnapshot : String := ""
  constraints : Option PolicyConstraints := none
  approvalRequired : Bool := false
  approvalRef : String := ""
  jobHash : String := ""
  checkedAt : ℤ := 0
  approvalStatus : Option ApprovalStatus := none
  actionability : Option ApprovalActionability := none
  approvalRevision : ℤ := 0
  approvalDecision : Option ApprovalDecision := none
deriving DecidableEq

/-- The decision asks for a human. -/
def SafetyDecisionRecord.needsApproval (r : SafetyDecisionRecord) : Bool :=
  r.approvalRequired || r.decision == some .requireApproval

/-- The stored approval. -/
structure ApprovalRecord where
  approvedBy : String := ""
  approvedRole : String := ""
  approvedAt : ℤ := 0
  reason : String := ""
  note : String := ""
  policySnapshot : String := ""
  jobHash : String := ""
  status : Option ApprovalStatus := none
  actionability : Option ApprovalActionability := none
  revision : ℤ := 0
  decision : Option ApprovalDecision := none
  publishStatus : Option ApprovalPublishStatus := none
  publishTarget : Option ApprovalPublishTarget := none
  publishedAt : ℤ := 0
deriving DecidableEq

/-- The resolution did not go out yet. -/
def ApprovalRecord.hasPendingPublish (r : ApprovalRecord) : Bool :=
  r.publishStatus == some .pending && r.publishTarget.isSome

/-! ## The canonical request -/

/-- The label with the message id. -/
def labelBusMsgID : String := "cordum.bus_msg_id"

/-- The label the gateway adds. -/
def policyAttachmentID : String := "policy.attachment_id"

/-- The entry with the effective configuration. -/
def effectiveConfigEnvVar : String := "CORDUM_EFFECTIVE_CONFIG"

/-- The label of a grant. -/
def labelApprovalGranted : String := "approval_granted"

/-- The label with the snapshot of a grant. -/
def labelApprovalSnapshot : String := "approval_snapshot"

/-- What `Canonical` keeps of a request. -/
structure CanonicalRequest where
  jobId : String
  topic : String
  tenantId : String
  identityTenant : String
  metaTenant : String
  labels : String → Option String
  env : String → Option String
  deadlineMs : ℕ
  dispatch : Option DispatchIdentity
  body : String

/-- The labels `Canonical` deletes. -/
def strippedLabel (key : String) : Bool :=
  hasPrefix (toLower key) "approval_" || key == labelBusMsgID || key == policyAttachmentID

/-- `Canonical`: what a request is hashed by. -/
def canonical (req : JobRequest) : CanonicalRequest where
  jobId := req.jobId
  topic := req.topic
  tenantId := req.tenantId
  identityTenant := req.identityTenant
  metaTenant := req.metaTenant
  labels := fun key => if strippedLabel key then none else req.labels.lookup key
  env := fun key => if key = effectiveConfigEnvVar then none else req.env.lookup key
  deadlineMs := req.deadlineMs
  dispatch := req.dispatch
  body := req.body

/-- The hash of a canonical request; `none` when it cannot be encoded. -/
structure Hasher where
  digest : CanonicalRequest → Option String

/-- `HashJobRequest`. -/
def Hasher.hash (h : Hasher) (req : JobRequest) : Option String := h.digest (canonical req)

end Cordum
