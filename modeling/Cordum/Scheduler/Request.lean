import Cordum.Scheduler.Engine

/-!
# Handling a job request

`handleJobRequest` and `processJob` of the scheduler engine: admission under the job lock
(`admitRequest`), the checks on topic, schema and attempts (`vet`), the delegation token
(`checkDelegation`), the safety decision (`checkSafetyDecision`, `actOnDecision`), the limits
(`checkLimits`), the worker choice (`pickSubject`) and the dispatch itself (`dispatch`). A stage that
ends the handling answers `false` or `none`; an error asks for redelivery. A handling that loses the
job lock has its remaining commands cancelled, which is a fault of theirs.
-/

namespace Cordum

open Conc GoString

variable (h : Hasher) (a : Attempt) (req : JobRequest)

/-! ## Admission -/

/-- The deadline `SetJobMeta` and `SetDeadline` store, in microseconds. -/
def deadlineAt (now : ℤ) (req : JobRequest) : Option ℤ :=
  if req.deadlineMs > 0 then some (now + 1000 * req.deadlineMs) else none

/-- Store the request; a new job is `PENDING`, a scheduled one counts an attempt. -/
def persistRequest (current : Option JobState) : EngineM Unit := do
  inStore (key (.setJobMeta req.topic (metaTenantOf req) (deadlineAt a.now req)) "job store set meta")
  inStore (key (.setJobRequest req) "job store set request")
  match current with
  | none => inStore (setState (trimSpace req.jobId) .pending a.now)
  | some .scheduled => do
    let _ ← tryKey .incrAttempts
    .ret ()
  | some _ => .ret ()

/-- The status in the dead letter of a request for a job that is over. -/
def redeliveryStatus (state : JobState) : JobStatus := if state = .denied then .denied else .failed

/-- A request for a job that is with a worker or over is not processed again. -/
def admitRequest : EngineM Bool := do
  if a.stopped then .ret false
  else
    match ← tryStore getState with
    | .ok state =>
      if state = .dispatched ∨ state = .running then .ret false
      else if terminalStates state then do
        if state = .denied ∨ state = .failed then do
          let _ ← (emitDLQWithRetry
              ⟨trimSpace req.topic, redeliveryStatus state, "terminal state redelivery",
            "redelivery_dlq_retry"⟩).attempt
          .ret false
        else .ret false
      else do
        persistRequest a req (some state)
        .ret true
    | .error (.notFound _) => do
      persistRequest a req none
      .ret true
    | .error e => .fail (.store e)

/-! ## Topic, schema and attempts -/

/-- The attempts to place a job. -/
def maxSchedulingRetries : ℕ := 50

/-- `GetAttempts`; an unreadable counter counts as `limit`. -/
def getAttempts (limit : ℕ) : EngineM ℕ := do
  match ← tryKey .hgetAllMeta with
  | some m => .ret m.attempts
  | none => .ret limit

/-- End the job as failed. -/
def failJob (reason reasonCode : String) : EngineM Unit :=
  closeJob (trimSpace req.jobId) .failed a.now ⟨trimSpace req.topic, .failed, reason, reasonCode⟩

/-- End the job as denied. -/
def denyJob (reason reasonCode : String) : EngineM Unit :=
  closeJob (trimSpace req.jobId) .denied a.now ⟨trimSpace req.topic, .denied, reason, reasonCode⟩

/-- `processJob` up to the effective configuration. -/
def vet : EngineM Bool :=
  match a.topic, a.schemaCheck with
  | .failed, _ => .fail (.external "topic registration")
  | .unknown, _ => do
    failJob a req "unknown topic" "unknown_topic"
    .ret false
  | .known, .failed => .fail (.external "schema validation")
  | .known, .rejected reason code => do
    failJob a req reason code
    .ret false
  | .known, .passed => do
    let attempts ← getAttempts maxSchedulingRetries
    if attempts ≥ maxSchedulingRetries then do
      failJob a req s!"max scheduling retries exceeded (attempts={attempts})" "max_scheduling_retries"
      .ret false
    else .ret true

/-- The request with its configuration. -/
def attachEffectiveConfig : JobRequest :=
  match a.effectiveConfig with
  | some config => { req with env := req.env.insert effectiveConfigEnvVar config }
  | none => req

theorem attachEffectiveConfig_labels : (attachEffectiveConfig a req).labels = req.labels := by
  unfold attachEffectiveConfig
  split <;> rfl

/-! ## Delegation -/

/-- The request has delegation labels. -/
def requestCarriesDelegation (req : JobRequest) : Bool :=
  trimSpace (req.labels.get "_delegation.jti") != "" ||
    trimSpace (req.labels.get "_delegation.depth") != "" ||
    trimSpace (req.labels.get "_delegation.issuer_chain") != ""

/-- `classifyDelegationDispatchError`: reason, reason code, and whether to retry. -/
def classifyDelegationDispatchError : DelegationErr → String × String × Bool
  | .revoked => ("delegation token revoked before dispatch", "delegation.revoked_before_dispatch", false)
  | .expired => ("delegation token expired before dispatch", "delegation.expired_before_dispatch", false)
  | .audienceMismatch =>
    ("delegation token audience mismatch before dispatch",
      "delegation.audience_mismatch_before_dispatch", false)
  | .scopeExceeded =>
    ("delegation token scope exceeded before dispatch", "delegation.scope_exceeded_before_dispatch", false)
  | .chainTooDeep =>
    ("delegation token chain too deep before dispatch", "delegation.chain_too_deep_before_dispatch", false)
  | .invalid => ("delegation token invalid before dispatch", "delegation.invalid_before_dispatch", false)
  | .missing => ("delegation token missing before dispatch", "delegation.missing_dispatch_token", false)
  | .unavailable text => (text, "delegation.dispatch_reverify_unavailable", true)

/-- The error is worth another attempt. -/
def DelegationErr.retry (e : DelegationErr) : Bool := (classifyDelegationDispatchError e).2.2

/-- `GetDelegationDispatchToken`. A failed read gives no error: its empty value is taken for a missing
field. -/
def getDelegationDispatchToken : EngineM String := do
  match ← tryKey .hgetAllMeta with
  | some m => .ret (m.delegationToken.getD "")
  | none => .ret ""

/-- Whether the job is delegated, or why it must not run. A token that verified, or never will, is
wiped. -/
def verifyDelegationToken (token : String) : EngineM (Except DelegationErr Bool) :=
  if trimSpace token = "" then
    if requestCarriesDelegation req then .ret (.error .missing) else .ret (.ok false)
  else if a.tokenService = false then .ret (.error (.unavailable "delegation token service"))
  else
    match a.verifyToken token with
    | .error e =>
      if e.retry then .ret (.error e)
      else do
        let _ ← tryKey .clearDelegationToken
        .ret (.error e)
    | .ok lineage => do
      match ← tryKey (.setDelegationLineage lineage) with
      | none => .ret (.error (.unavailable "job store set delegation lineage"))
      | some _ => do
        let _ ← tryKey .clearDelegationToken
        .ret (.ok true)

/-- The delegation check. -/
def verifyDelegationBeforeDispatch : EngineM (Except DelegationErr Bool) := do
  verifyDelegationToken a req (← getDelegationDispatchToken)

/-- What `processJob` makes of the verification. -/
def checkDelegation : EngineM Bool := do
  match ← verifyDelegationBeforeDispatch a req with
  | .ok _ => .ret true
  | .error e =>
    if e.retry then .fail (.external (classifyDelegationDispatchError e).1)
    else do
      let _ ← tryKey (.setFailureReason (classifyDelegationDispatchError e).2.1)
      failJob a req (classifyDelegationDispatchError e).1 (classifyDelegationDispatchError e).2.1
      .ret false

/-! ## The safety decision -/

/-- The topics of approval gates. -/
def isApprovalGateTopic (topic : String) : Bool :=
  topic == subjectApprovalGate || topic == subjectWorkflowApprovalGate

/-- A snapshot without its suffix. -/
def snapshotBase (snap : String) : String := cut '|' snap

/-- What `checkSafetyDecision` asks of the stored decision `prev` before it takes an approval as
granted. -/
def grantMatches (prev : SafetyDecisionRecord) : Bool :=
  let asserted := trimSpace (req.labels.get labelApprovalSnapshot)
  let stored := trimSpace prev.policySnapshot
  prev.needsApproval && prev.jobHash != "" && h.hash req == some prev.jobHash &&
    (isApprovalGateTopic (trimSpace req.topic) ||
      (asserted != "" && stored != "" && snapshotBase asserted == snapshotBase stored))

/-- The decision of the fast path. -/
def grantedRecord (prev : SafetyDecisionRecord) (now : ℤ) : SafetyDecisionRecord where
  decision := some .allow
  reason := "approval granted"
  checkedAt := now
  constraints := prev.constraints
  policySnapshot := prev.policySnapshot
  ruleId := prev.ruleId
  jobHash := prev.jobHash

/-- The kernel's verdict as a record: a timeout is unavailable, and a request for approval does not
allow. -/
def Attempt.record (a : Attempt) : SafetyDecisionRecord :=
  let v := a.verdict
  let decision := if a.checkTimedOut then some .unavailable else v.decision
  { decision :=
      if v.approvalRequired ∧ (decision = some .allow ∨ decision = some .allowWithConstraints) then
        some .requireApproval
      else decision
    reason := v.reason
    ruleId := v.ruleId
    policySnapshot := v.policySnapshot
    constraints := v.constraints
    approvalRequired := v.approvalRequired
    approvalRef := v.approvalRef
    checkedAt := a.now }

/-- How a safety check ended: the fast path, a full check, or a failure to save the decision or to
read the hash. -/
inductive SafetyOutcome
  | granted (record : SafetyDecisionRecord)
  | checked (record : SafetyDecisionRecord) (failed : Bool)
  | unsaved (record : SafetyDecisionRecord)
  | hashFenceRead
deriving DecidableEq

/-- The record of a check that asks for approval is bound to the stored hash, or to this request's. -/
def fencedRecord (m : Meta) (r : SafetyDecisionRecord) : SafetyDecisionRecord :=
  { r with jobHash := if m.safety.jobHash ≠ "" then m.safety.jobHash else (h.hash req).getD "" }

/-- Save a checked decision. -/
def saveDecision (a : Attempt) (r : SafetyDecisionRecord) : EngineM SafetyOutcome := do
  match ← tryKey (.setSafetyDecision r a.now) with
  | some _ => .ret (.checked r (a.checkFailed || a.checkTimedOut))
  | none => .ret (.unsaved r)

/-- `checkSafetyDecision` past the fast path. -/
def fullCheck : EngineM SafetyOutcome :=
  if a.stoppedBefore then
    .ret (.checked { decision := some .deny, reason := "engine shutting down", checkedAt := a.now } true)
  else if a.stoppedDuring then .ret (.checked a.record true)
  else if a.record.needsApproval then do
    match ← tryKey .hgetAllMeta with
    | none => .ret .hashFenceRead
    | some m => saveDecision a (fencedRecord h req m a.record)
  else saveDecision a a.record

/-- The safety check. -/
def checkSafetyDecision : EngineM SafetyOutcome :=
  if labelGranted req.labels then do
    match ← tryKey .hgetAllMeta with
    | some m =>
      if grantMatches h req m.safetyRecord then do
        match ← tryKey (.setSafetyDecision (grantedRecord m.safetyRecord a.now) a.now) with
        | some _ => .ret (.granted (grantedRecord m.safetyRecord a.now))
        | none => .ret (.unsaved (grantedRecord m.safetyRecord a.now))
      else fullCheck h a req
    | none => fullCheck h a req
  else fullCheck h a req

/-- The request under the policy's constraints. -/
def applyConstraints (req : JobRequest) (c : PolicyConstraints) : JobRequest :=
  let env := req.env.insert "CORDUM_POLICY_CONSTRAINTS" c.body
  let env := if c.redactionLevel ≠ "" then env.insert "CORDUM_REDACTION_LEVEL" c.redactionLevel else env
  let env :=
    if c.maxArtifactBytes > 0 then env.insert "CORDUM_MAX_ARTIFACT_BYTES" (toString c.maxArtifactBytes)
    else env
  let env :=
    if c.maxConcurrentJobs > 0 then env.insert "CORDUM_MAX_CONCURRENT_JOBS" (toString c.maxConcurrentJobs)
    else env
  let env := if c.maxRetries > 0 then env.insert "CORDUM_MAX_RETRIES" (toString c.maxRetries) else env
  { req with
    env := env
    deadlineMs :=
      if c.maxRuntimeMs > 0 ∧ (req.deadlineMs = 0 ∨ req.deadlineMs > c.maxRuntimeMs) then c.maxRuntimeMs
      else req.deadlineMs }

/-- The labels of a job let through because the policy kernel did not answer. -/
def bypassLabels (reason : String) (req : JobRequest) : JobRequest :=
  let why := "fail-open: safety unavailable — " ++ reason
  { req with labels := (req.labels.insert "safety_bypassed" "true").insert "safety_bypass_reason" why }

/-- `processJob` on a decision: the request to dispatch, unless the handling ends here. -/
def actOnRecord (decision : Option SafetyDecision) (r : SafetyDecisionRecord) :
    EngineM (Option JobRequest) :=
  let jobID := trimSpace req.jobId
  match decision with
  | some .allow | some .allowWithConstraints =>
    if isApprovalGateTopic (trimSpace req.topic) then do
      let _ ← Prog.exec (Sum.inr BusCmd.publishResult) EngineErr.publish
      inStore (setState jobID .succeeded a.now)
      .ret none
    else .ret (some (r.constraints.elim req (applyConstraints req)))
  | some .throttle =>
    .fail (.throttled
      (if trimSpace r.reason ≠ "" then "safety throttle: " ++ r.reason else "safety throttle"))
  | some .unavailable =>
    if a.failOpen then .ret (some (bypassLabels r.reason req))
    else .fail (.safetyUnavailable ("safety unavailable: " ++ r.reason))
  | some .requireApproval => do
    inStore (setState jobID .approval a.now)
    .ret none
  | some .deny => do
    denyJob a req r.reason "safety_denied"
    .ret none
  | none => do
    denyJob a req r.reason "safety_unknown"
    .ret none

/-- The decision a check leads to; `none` when the stored hash was not read. -/
def SafetyOutcome.decided : SafetyOutcome → Option (Option SafetyDecision × SafetyDecisionRecord)
  | .granted r => some (r.decision, r)
  | .checked r failed => some (if failed then some .unavailable else r.decision, r)
  | .unsaved r => some (some .unavailable, r)
  | .hashFenceRead => none

/-- `processJob` from the safety check to the request to dispatch. -/
def actOnDecision :
    EngineM (Option (JobRequest × Option PolicyConstraints)) := do
  match (← checkSafetyDecision h a req).decided with
  | none => .fail .hashFenceRead
  | some (decision, r) => do
    match ← actOnRecord a req decision r with
    | some req' => .ret (some (req', r.constraints))
    | none => .ret none

/-! ## Limits -/

/-- The retries they allow. -/
def maxRetriesFromConstraints (c : Option PolicyConstraints) : ℕ := c.elim 0 PolicyConstraints.maxRetries

/-- The concurrent jobs they allow. -/
def maxConcurrentFromConstraints (c : Option PolicyConstraints) : ℕ :=
  c.elim 0 PolicyConstraints.maxConcurrentJobs

/-- The policy's bound on attempts; `false` when the job failed for it. -/
def checkRetries (maxRetries : ℕ) : EngineM Bool :=
  if maxRetries = 0 then .ret true
  else do
    let attempts ← getAttempts (maxRetries + 1)
    if attempts ≥ maxRetries + 1 then do
      failJob a req s!"max retries exceeded (attempts={attempts}, max_retries={maxRetries})"
        "max_retries_exceeded"
      .ret false
    else .ret true

/-- The bounds on a tenant's active jobs, the policy's and the licence's. -/
def checkConcurrency (maxConcurrent : ℕ) : EngineM Unit := do
  Prog.when (maxConcurrent > 0)
    (match a.activeForPolicy with
    | none => .fail (.external "job store count active")
    | some active => Prog.when (active ≥ maxConcurrent) (.fail (.scheduling .tenantLimit)))
  Prog.when (trimSpace (extractTenant req) ≠ "")
    (match a.activeForTier with
    | none => .fail (.external "job store count active")
    | some active => Prog.when (a.tierAllows (active + 1) = false) (.fail (.scheduling .tierLimit)))

/-- `processJob` between the decision and the worker choice. -/
def checkLimits (c : Option PolicyConstraints) : EngineM Bool := do
  if ← checkRetries a req (maxRetriesFromConstraints c) then do
    checkConcurrency a req (maxConcurrentFromConstraints c)
    match deadlineAt a.now req with
    | some deadline => do
      inStore (key (.setDeadline deadline) "job store set deadline")
      .ret true
    | none => .ret true
  else .ret false

/-! ## Dispatch -/

/-- The worker a subject belongs to. -/
def extractWorkerFromSubject (subject : String) : String :=
  if hasPrefix subject "worker." && hasSuffix subject ".jobs"
    then trimSuffix (trimPrefix subject "worker.") ".jobs"
  else ""

/-- The workers that are tried. -/
def maxDispatchRetries : ℕ := 3

/-- The loop over worker choices: a dead worker is chosen again. -/
def pickSubject (picks : ℕ → Pick) : ℕ → ℕ → Except SchedulingErr String
  | 0, _ => .error .noWorkers
  | n + 1, i =>
    match picks i with
    | .noTrusted => .error .noWorkers
    | .failed e => .error e
    | .subject s alive =>
      if extractWorkerFromSubject s = "" ∨ alive then .ok s else pickSubject picks n (i + 1)

/-- Undoes a dispatch that was not published. -/
def rollbackFailedDispatch (jobID : String) (now : ℤ) : Option (String × ℤ) → StoreM Unit
  | some (dispatchID, attempt) => do
    let rolledBack ← rollbackDispatch jobID dispatchID attempt
    Prog.when rolledBack (setState jobID .scheduled now)
  | none => setState jobID .scheduled now

/-- Publish the request; a failure rolls the dispatch back. -/
def publishDispatch (a : Attempt) (subject : String) (req : JobRequest) (fence : Option (String × ℤ)) :
    EngineM Unit := do
  let outbound := if a.production then { req with topic := subject } else req
  match ← Prog.cmd (Sum.inr (BusCmd.publishJob subject outbound)) with
  | none => do
    let _ ← tryStore (rollbackFailedDispatch (trimSpace req.jobId) a.now fence)
    .fail .publish
  | some _ => inStore (setState (trimSpace req.jobId) .running a.now)

/-- `processJob` once a subject is chosen; a worker's own subject is fenced first. -/
def dispatch (a : Attempt) (subject : String) (req : JobRequest) : EngineM Unit := do
  let jobID := trimSpace req.jobId
  let worker := extractWorkerFromSubject subject
  inStore (setState jobID .scheduled a.now)
  if a.busUp = false then .fail .publish
  else do
    inStore (setState jobID .dispatched a.now)
    if worker = "" then publishDispatch a subject req none
    else
      match ← tryStore (beginDispatch jobID worker (extractTenant req) a.dispatchID) with
      | .error e => do
        let _ ← tryStore (setState jobID .scheduled a.now)
        .fail (.store e)
      | .ok (dispatchID, attempt) =>
        publishDispatch a subject { req with dispatch := some ⟨dispatchID, attempt.toNat, worker⟩ }
          (some (dispatchID, attempt))

/-- `processJob` from the worker choice on. -/
def schedule : EngineM Unit :=
  match pickSubject a.picks maxDispatchRetries 0 with
  | .ok subject => dispatch a subject req
  | .error e =>
    if e.retryable then do
      let _ ← tryKey .incrAttempts
      .fail (.scheduling e)
    else failJob a req e.text (reasonCodeForSchedulingError e)

/-! ## The whole handling -/

/-- `processJob` after the delegation check. -/
def decideAndDispatch : EngineM Unit := do
  match ← actOnDecision h a req with
  | none => .ret ()
  | some (req', constraints) => do
    if ← checkLimits a req' constraints then schedule a req' else .ret ()

/-- `processJob` from the delegation check on. -/
def processVetted : EngineM Unit := do
  if ← checkDelegation a req then decideAndDispatch h a req else .ret ()

/-- The handling behind the admission. -/
def processJob : EngineM Unit := do
  if ← vet a req then processVetted h a (attachEffectiveConfig a req) else .ret ()

/-- An error of `processJob` as `handleJobRequest` returns it: a scheduling error is left to the
reconciler. -/
def settle : Except EngineErr Unit → EngineM Unit
  | .ok () => .ret ()
  | .error e => if isRetryableSchedulingError e then .ret () else .fail e

/-- Process a job and settle its error. -/
def settled (p : EngineM Unit) : EngineM Unit := do settle (← p.attempt)

/-- `HandleJobRequest`. -/
def handleJobRequest : EngineM Unit :=
  if trimSpace req.jobId = "" then .ret ()
  else if trimSpace req.topic = "" then inStore (setState (trimSpace req.jobId) .failed a.now)
  else do
    if ← admitRequest a req then settled (processJob h a req) else .ret ()

end Cordum
