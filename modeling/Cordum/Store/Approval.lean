import Cordum.Model.Records
import Cordum.Store.Keys

/-!
# Approvals in the job store

The safety decision that asks for an approval (`setSafetyDecision`), its resolution
(`resolveApprovalTx`), and the repair of an approval whose parts disagree
(`classifyApprovalRepair`, `applyApprovalRepairTx`). All of these write the meta hash, the state key
and the stored request; none touches the runtime hash.
-/

namespace Cordum

open GoString

/-! ## The records as stored -/

/-- `GetSafetyDecision`: the record the meta hash spells. -/
def Meta.safetyRecord (m : Meta) : SafetyDecisionRecord where
  decision := m.safety.decision
  reason := m.safety.reason
  ruleId := m.safety.ruleId
  policySnapshot := m.safety.snapshot
  constraints := m.safety.constraints
  approvalRequired := m.safety.approvalRequired
  approvalRef := m.safety.approvalRef
  jobHash := m.safety.jobHash
  checkedAt := m.safety.checkedAt
  approvalStatus := m.approval.status
  actionability := m.approval.actionability
  approvalRevision := m.approval.revision
  approvalDecision := m.approval.decision

/-- `SetSafetyDecision`: a missing hash or constraint keeps the stored one; only a decision that
requires it writes the approval. -/
def setSafetyDecision (record : SafetyDecisionRecord) (now : ℤ) (m : Meta) : Meta :=
  let status := record.approvalStatus.getD .pending
  { m with
    safety := {
      decision := record.decision
      reason := record.reason
      ruleId := record.ruleId
      snapshot := record.policySnapshot
      checkedAt := if record.checkedAt = 0 then now else record.checkedAt
      constraints := record.constraints <|> m.safety.constraints
      approvalRequired := record.approvalRequired
      approvalRef := record.approvalRef
      jobHash := if record.jobHash ≠ "" then record.jobHash else m.safety.jobHash }
    approval :=
      if record.approvalRequired then
        { m.approval with
          status := some status
          actionability := some (record.actionability.getD status.defaultActionability)
          revision := if record.approvalRevision ≤ 0 then 1 else record.approvalRevision
          decision := record.approvalDecision <|> m.approval.decision }
      else m.approval }

/-! ## The canonical view of an approval -/

/-- The status, derived if missing. -/
def derivedApprovalStatus (state : Option JobState) (safety : SafetyDecisionRecord)
    (record : ApprovalRecord) :
    Option ApprovalStatus :=
  match record.status with
  | some status => some status
  | none =>
    match record.decision with
    | some .approve => some .approved
    | some .reject => some .rejected
    | some .expire => some .expired
    | some .invalidate => some .invalidated
    | some .repair => some .repaired
    | none =>
      let fallback : Option ApprovalStatus :=
        if record.approvedBy ≠ "" then some .approved
        else if safety.needsApproval then some .pending
        else none
      match state with
      | some .approval => if safety.needsApproval then some .pending else fallback
      | some .denied => some .rejected
      | some .timeout => if safety.needsApproval then some .expired else fallback
      | some .pending | some .scheduled | some .dispatched | some .running | some .succeeded | some .failed
      | some .cancelled | some .quarantined =>
        if record.approvedBy ≠ "" || safety.needsApproval then some .approved else fallback
      | some .retrying | none => fallback

/-- The decision, derived if missing. -/
def derivedApprovalDecision (record : ApprovalRecord) : Option ApprovalDecision :=
  match record.decision with
  | some decision => some decision
  | none =>
    match record.status with
    | some .approved => some .approve
    | some .rejected => some .reject
    | some .expired => some .expire
    | some .invalidated => some .invalidate
    | some .repaired => some .repair
    | some .pending | none => none

/-- The revision, derived if missing. -/
def derivedApprovalRevision (safety : SafetyDecisionRecord) (record : ApprovalRecord) : ℤ :=
  if record.revision > 0 then record.revision
  else if safety.approvalRevision > 0 then safety.approvalRevision
  else if safety.needsApproval then 1
  else 0

/-- A record with what it lacks. -/
def normalizeApprovalRecord (state : Option JobState) (safety : SafetyDecisionRecord)
    (record : ApprovalRecord) :
    ApprovalRecord :=
  let r1 := { record with status := derivedApprovalStatus state safety record }
  let r2 := { r1 with decision := derivedApprovalDecision r1 }
  let r3 := { r2 with actionability :=
    r2.actionability <|> r2.status.map ApprovalStatus.defaultActionability }
  { r3 with revision := derivedApprovalRevision safety r3 }

/-! ## Resolution -/

/-- What a resolution asks for. -/
structure ApprovalResolutionParams where
  decision : ApprovalDecision
  resultState : JobState
  approvedBy : String := ""
  approvedRole : String := ""
  reason : String := ""
  note : String := ""
  policySnapshot : String := ""
  labelUpdates : List (String × String) := []
  publishTarget : Option ApprovalPublishTarget := none

/-- The loop over `LabelUpdates`: a blank value deletes the label. -/
def applyLabelUpdates (updates : List (String × String)) (labels : StrMap) : StrMap :=
  updates.foldl (fun ls kv => if trimSpace kv.2 = "" then ls.erase kv.1 else ls.insert kv.1 kv.2) labels

/-- The status a decision leads to. -/
def ApprovalDecision.status : ApprovalDecision → ApprovalStatus
  | approve => .approved
  | reject => .rejected
  | expire => .expired
  | invalidate => .invalidated
  | repair => .repaired

/-- Why `ResolveApproval` refuses a job that is not awaiting approval. -/
def notAwaitingConflict (status : Option ApprovalStatus) : StoreErr :=
  match status with
  | some .approved | some .rejected => .approvalConflict .alreadyResolved "approval already resolved"
  | some .expired => .approvalConflict .notActionable "approval expired"
  | some .invalidated => .approvalConflict .notActionable "approval invalidated"
  | some .repaired => .approvalConflict .notActionable "approval already repaired"
  | some .pending | none => .approvalConflict .notActionable "job not awaiting approval"

/-- Why it refuses one whose approval is no longer actionable. -/
def notActionableConflict (status : Option ApprovalStatus) : StoreErr :=
  match status with
  | some .approved | some .rejected => .approvalConflict .alreadyResolved "approval already resolved"
  | _ => .approvalConflict .notActionable "approval is no longer actionable"

/-- The checks of `ResolveApproval`: the stored request, or an error. -/
def resolveApprovalChecks (h : Hasher) (p : ApprovalResolutionParams) (k : JobKeys) :
    Except StoreErr (JobState × ApprovalRecord × JobRequest) :=
  match k.storedState with
  | none => .error (.notFound "job store resolve approval")
  | some current =>
    let safety := k.jobMeta.safetyRecord
    let record := normalizeApprovalRecord (some current) safety k.jobMeta.approval
    if current ≠ .approval then .error (notAwaitingConflict record.status)
    else if record.actionability ≠ none ∧ record.actionability ≠ some .actionable then
      .error (notActionableConflict record.status)
    else match k.request with
      | none => .error (.invalid "job request not found")
      | some req =>
        if p.decision = .approve then
          match h.hash req with
          | none => .error (.invalid "hash approval request")
          | some hash =>
            if safety.jobHash = "" ∨ hash ≠ safety.jobHash then
              .error (.approvalConflict .staleRequest "job request changed; approval no longer valid")
            else .ok (current, record, req)
        else .ok (current, record, req)

/-- The approval record a resolution stores. -/
def resolvedRecord (p : ApprovalResolutionParams) (record : ApprovalRecord) (safety : SafetyDecisionRecord)
    (now : ℤ) : ApprovalRecord :=
  let target := match p.decision with
    | .approve => p.publishTarget <|> some .submit
    | .reject => p.publishTarget <|> some .dlq
    | _ => p.publishTarget
  { approvedBy := trimSpace p.approvedBy
    approvedRole := trimSpace p.approvedRole
    approvedAt := now
    reason := trimSpace p.reason
    note := trimSpace p.note
    policySnapshot :=
      if trimSpace p.policySnapshot = "" then safety.policySnapshot else trimSpace p.policySnapshot
    jobHash := safety.jobHash
    status := some p.decision.status
    actionability := some p.decision.status.defaultActionability
    revision := if record.revision + 1 ≤ 1 then 2 else record.revision + 1
    decision := some p.decision
    publishStatus := if target.isSome then some .pending else none
    publishTarget := target }

/-- The transaction of `ResolveApproval`. Returns the state it moved the job to. -/
def resolveApprovalTx (h : Hasher) (p : ApprovalResolutionParams) (now : ℤ) (k : JobKeys) :
    JobKeys × Except StoreErr JobState :=
  match resolveApprovalChecks h p k with
  | .error e => (k, .error e)
  | .ok (current, record, req) =>
    let resolved := resolvedRecord p record k.jobMeta.safetyRecord now
    let approval := { resolved with
      publishStatus := resolved.publishStatus <|> k.jobMeta.approval.publishStatus
      publishTarget := resolved.publishTarget <|> k.jobMeta.approval.publishTarget
      publishedAt := k.jobMeta.approval.publishedAt }
    -- on approve the safety record follows the snapshot the human approved
    let safety :=
      if p.decision = .approve ∧ trimSpace resolved.policySnapshot ≠ "" then
        { k.jobMeta.safety with snapshot := resolved.policySnapshot }
      else k.jobMeta.safety
    ({ k with
      jobMeta := { k.jobMeta with approval := approval, safety := safety }
      request := some { req with labels := applyLabelUpdates p.labelUpdates req.labels } }.commitState
        (some current) p.resultState now, .ok p.resultState)

/-- What the checks of a resolution found when they passed. -/
structure ResolvePassed (h : Hasher) (p : ApprovalResolutionParams) (k : JobKeys)
    (r : JobState × ApprovalRecord × JobRequest) : Prop where
  stored : k.storedState = some r.1
  awaiting : r.1 = .approval
  record : r.2.1 = normalizeApprovalRecord (some r.1) k.jobMeta.safetyRecord k.jobMeta.approval
  actionable : r.2.1.actionability = none ∨ r.2.1.actionability = some .actionable
  request : k.request = some r.2.2
  /-- To approve, the request must hash to what was checked. -/
  hash : p.decision = .approve → k.jobMeta.safety.jobHash ≠ "" ∧
    h.hash r.2.2 = some k.jobMeta.safety.jobHash

variable {k : JobKeys} {key jobID : String} {now : ℤ} {p : ApprovalResolutionParams}

theorem resolveApprovalChecks_ok {h : Hasher}
    {r : JobState × ApprovalRecord × JobRequest} (hc : resolveApprovalChecks h p k = .ok r) :
    ResolvePassed h p k r := by
  unfold resolveApprovalChecks at hc
  split at hc
  · cases hc
  rename_i current hcur
  dsimp only at hc
  split at hc
  · cases hc
  rename_i hawa
  split at hc
  · cases hc
  rename_i hact
  have hact' := Decidable.or_iff_not_not_and_not.2 hact
  split at hc
  · cases hc
  rename_i req hreq
  split at hc
  · split at hc
    · cases hc
    rename_i hash hhs
    split at hc
    · cases hc
    rename_i hne
    cases hc
    obtain ⟨h1, h2⟩ := not_or.1 hne
    exact ⟨hcur, not_not.1 hawa, rfl, hact', hreq, fun _ => ⟨h1, by rw [hhs, not_not.1 h2]; rfl⟩⟩
  · rename_i hd
    cases hc
    exact ⟨hcur, not_not.1 hawa, rfl, hact', hreq, fun h' => absurd h' hd⟩

theorem applyLabelUpdates_get {updates : List (String × String)}
    (h : ∀ kv ∈ updates, kv.1 ≠ key) (labels : StrMap) :
    (applyLabelUpdates updates labels).get key = labels.get key := by
  induction updates generalizing labels with
  | nil => rfl
  | cons kv rest ih =>
    have hkv : key ≠ kv.1 := (h kv (by simp)).symm
    have hrs := ih fun kv' h' => h kv' (by simp [h'])
    change (applyLabelUpdates rest _).get key = _
    rw [hrs]
    dsimp only
    split
    · simp [StrMap.get, Finmap.lookup_erase_ne hkv]
    · simp [StrMap.get, Finmap.lookup_insert_of_ne _ hkv]

/-- A resolution writes nothing, or its checks passed and it commits. -/
theorem resolveApprovalTx_cases (h : Hasher) (p : ApprovalResolutionParams) (now : ℤ) (k : JobKeys) :
    (∃ e, resolveApprovalTx h p now k = (k, .error e)) ∨
    ∃ current record req approval safety, resolveApprovalChecks h p k = .ok (current, record, req) ∧
      approval.decision = some p.decision ∧ approval.status = some p.decision.status ∧
      safety.jobHash = k.jobMeta.safety.jobHash ∧
      resolveApprovalTx h p now k = ({ k with
        jobMeta := { k.jobMeta with approval := approval, safety := safety }
        request := some { req with labels := applyLabelUpdates p.labelUpdates req.labels } }.commitState
          (some current) p.resultState now, .ok p.resultState) := by
  unfold resolveApprovalTx
  cases hc : resolveApprovalChecks h p k with
  | error e => exact .inl ⟨e, rfl⟩
  | ok r =>
    obtain ⟨current, record, req⟩ := r
    refine .inr ⟨current, record, req, _, _, rfl, ?_, ?_, ?_, rfl⟩
    · rfl
    · rfl
    · split <;> rfl

theorem resolveApprovalTx_runtime (h : Hasher) : (resolveApprovalTx h p now k).1.runtime = k.runtime := by
  rcases resolveApprovalTx_cases h p now k with ⟨e, he⟩ | ⟨_, _, _, _, _, -, -, -, -, he⟩
  · rw [he]
  · rw [he]; simp

/-! ## Repair -/

/-- The kinds of repair. -/
inductive ApprovalRepairKind
  | none
  | replayPendingPublish
  | applyApprovedResolution
  | applyRejectedResolution
  | invalidateTerminalRun
  | invalidateStaleRequest
  | invalidateStaleSnapshot
deriving DecidableEq, Repr

/-- What the reconciler is told. -/
structure ApprovalRepairClassifyOptions where
  workflowTerminal : Bool := false
  staleSnapshot : Bool := false

/-- What the reconciler read. -/
structure ApprovalRepairSnapshot where
  state : JobState
  topic : String
  request : Option JobRequest
  requestHash : String
  safetyRecord : SafetyDecisionRecord
  approvalRecord : ApprovalRecord

/-- What is to be repaired. -/
structure ApprovalRepairPlan where
  kind : ApprovalRepairKind := .none
  repairable : Bool := false
  reason : String := ""
  currentState : Option JobState := none
  targetState : Option JobState := none
  approvalStatus : Option ApprovalStatus := none
  actionability : Option ApprovalActionability := none
  decision : Option ApprovalDecision := none
  publishTarget : Option ApprovalPublishTarget := none
deriving DecidableEq

/-- The subject of approval gates. -/
def subjectApprovalGate : String := "sys.approval.gate"

/-- The topic of workflow gates. -/
def subjectWorkflowApprovalGate : String := "job.cordum.approval-gate"

/-- The label test of the fast path: `true` up to case and blanks. -/
def labelGranted (labels : StrMap) : Bool := equalFold (trimSpace (labels.get labelApprovalGranted)) "true"

/-- The snapshot `InspectApprovalRepair` takes of a job. -/
def approvalRepairSnapshot (h : Hasher) (state : JobState) (request : JobRequest)
    (safety : SafetyDecisionRecord) (approval : ApprovalRecord) : ApprovalRepairSnapshot where
  state := state
  topic := trimSpace request.topic
  request := some request
  requestHash := (h.hash request).getD ""
  safetyRecord := safety
  approvalRecord := normalizeApprovalRecord (some state) safety approval

/-- A plan that moves a waiting job to `target`, with the approval in `status`. -/
def repairPlan (current target : JobState) (kind : ApprovalRepairKind) (reason : String)
    (status : ApprovalStatus) (decision : ApprovalDecision) (publish : Option ApprovalPublishTarget) :
    ApprovalRepairPlan where
  kind := kind
  repairable := true
  reason := reason
  currentState := some current
  targetState := some target
  approvalStatus := some status
  actionability := some status.defaultActionability
  decision := some decision
  publishTarget := publish

/-- The snapshot shows an approval, in its record or as a label. -/
def ApprovalRepairSnapshot.approved (s : ApprovalRepairSnapshot) : Bool :=
  s.approvalRecord.decision == some .approve || s.approvalRecord.status == some .approved ||
    (match s.request with
      | some req => labelGranted req.labels
      | none => false)

/-- `ClassifyApprovalRepair`. The request's own label counts as a resolution. -/
def classifyApprovalRepair (s : ApprovalRepairSnapshot) (opts : ApprovalRepairClassifyOptions) :
    ApprovalRepairPlan :=
  let approval := s.approvalRecord
  let rejected := approval.decision == some .reject || approval.status == some .rejected
  if s.state ≠ .approval then
    if approval.hasPendingPublish then
      { kind := .replayPendingPublish, repairable := true
        reason := "approval decision committed but publish intent is still pending"
        currentState := some s.state, targetState := some s.state
        approvalStatus := approval.status, actionability := approval.actionability
        decision := approval.decision, publishTarget := approval.publishTarget }
    else { currentState := some s.state }
  else if s.approved then
    repairPlan s.state .pending .applyApprovedResolution
      "approval was already resolved as approved while the job remained awaiting approval"
      .approved .approve (some .submit)
  else if rejected then
    repairPlan s.state .denied .applyRejectedResolution
      "approval was already resolved as rejected while the job remained awaiting approval"
      .rejected .reject
      (some (if s.topic = subjectWorkflowApprovalGate then .dlqAndResult else .dlq))
  else if opts.workflowTerminal then
    repairPlan s.state .denied .invalidateTerminalRun
      "workflow run already reached a terminal state; approval is no longer valid"
      .invalidated .invalidate none
  else if opts.staleSnapshot then
    repairPlan s.state .denied .invalidateStaleSnapshot
      "policy snapshot changed since the approval request was created"
      .invalidated .invalidate none
  else if s.safetyRecord.jobHash ≠ "" ∧ s.requestHash ≠ "" ∧ s.requestHash ≠ s.safetyRecord.jobHash then
    repairPlan s.state .denied .invalidateStaleRequest
      "job request changed since the approval request was created"
      .invalidated .invalidate none
  else { currentState := some s.state }

/-- A plan that approves nothing. -/
def ApprovalRepairPlan.Harmless (p : ApprovalRepairPlan) : Prop :=
  p.kind ≠ .applyApprovedResolution ∧ (p.kind = .replayPendingPublish ∨ p.targetState = none ∨
    ∃ d, d ≠ .approve ∧ p.decision = some d ∧ p.approvalStatus = some d.status)

/-- Only a waiting job whose snapshot shows an approval gets a plan that approves. -/
theorem classifyApprovalRepair_cases (s : ApprovalRepairSnapshot) (opts : ApprovalRepairClassifyOptions) :
    (s.state = .approval ∧ s.approved) ∨ (classifyApprovalRepair s opts).Harmless := by
  unfold classifyApprovalRepair
  dsimp only
  split
  · right
    split
    · exact ⟨nofun, .inl rfl⟩
    · exact ⟨nofun, .inr (.inl rfl)⟩
  · split
    · rename_i hsta happ; exact .inl ⟨not_not.1 hsta, happ⟩
    right
    split
    · exact ⟨nofun, .inr (.inr ⟨.reject, nofun, rfl, rfl⟩)⟩
    split_ifs
    · exact ⟨nofun, .inr (.inr ⟨.invalidate, nofun, rfl, rfl⟩)⟩
    · exact ⟨nofun, .inr (.inr ⟨.invalidate, nofun, rfl, rfl⟩)⟩
    · exact ⟨nofun, .inr (.inr ⟨.invalidate, nofun, rfl, rfl⟩)⟩
    · exact ⟨nofun, .inr (.inl rfl)⟩

/-- A plan, by whom and why. -/
structure ApprovalRepairApplyParams where
  plan : ApprovalRepairPlan
  actor : String := ""
  note : String := ""

/-- The approval record a repair stores. -/
def repairedRecord (p : ApprovalRepairApplyParams) (record : ApprovalRecord)
    (safety : SafetyDecisionRecord) (now : ℤ) : ApprovalRecord :=
  let status := p.plan.approvalStatus <|> record.status
  let decision := p.plan.decision <|> record.decision
  let by' := trimSpace record.approvedBy
  let role := trimSpace record.approvedRole
  let actor := trimSpace p.actor
  let reason := trimSpace record.reason
  let note := trimSpace record.note
  let repairNote := if trimSpace p.note = "" then trimSpace p.plan.reason else trimSpace p.note
  let entry := "repair: " ++ repairNote
  { approvedBy := if by' ≠ "" then by' else if actor ≠ "" then actor else "system/repair"
    approvedRole := if by' = "" ∧ role = "" then "system" else role
    approvedAt := if record.approvedAt = 0 then now else record.approvedAt
    reason :=
      if reason = "" ∧ decision = some .invalidate then trimSpace p.plan.reason else reason
    note :=
      if repairNote = "" then note
      else if note = "" then entry
      else if contains note entry then note
      else note ++ "\n" ++ entry
    policySnapshot :=
      if trimSpace record.policySnapshot = "" then trimSpace safety.policySnapshot
      else trimSpace record.policySnapshot
    jobHash := if trimSpace record.jobHash = "" then trimSpace safety.jobHash else trimSpace record.jobHash
    status := status
    actionability := p.plan.actionability <|> status.map ApprovalStatus.defaultActionability
    revision := if record.revision + 1 ≤ 0 then 1 else record.revision + 1
    decision := decision
    publishStatus := if p.plan.publishTarget.isSome then some .pending else none
    publishTarget := p.plan.publishTarget
    publishedAt := 0 }

/-- The labels an approved repair stamps on the stored request. -/
def repairLabels (jobID : String) (r : ApprovalRecord) (labels : StrMap) : StrMap :=
  let ls := (labels.insert labelApprovalGranted "true").insert labelBusMsgID ("approval:" ++ jobID)
  let ls := if r.reason ≠ "" then ls.insert "approval_reason" r.reason else ls
  if r.note ≠ "" then ls.insert "approval_note" r.note else ls

/-- The request a repair stores back. -/
def repairRequest (jobID : String) (kind : ApprovalRepairKind) (r : ApprovalRecord) (req : JobRequest) :
    JobRequest :=
  if kind = .applyApprovedResolution then { req with labels := repairLabels jobID r req.labels } else req

/-- The transaction of `ApplyApprovalRepair`, with the state it leaves. A plan without a target cannot
reach the write. -/
def applyApprovalRepairTx (jobID : String) (p : ApprovalRepairApplyParams) (now : ℤ) (k : JobKeys) :
    JobKeys × Except StoreErr JobState :=
  match k.storedState with
  | none => (k, .error (.notFound "job store apply approval repair"))
  | some current =>
    if p.plan.currentState ≠ none ∧ p.plan.currentState ≠ some current then
      (k, .error (.invalid "approval repair state changed"))
    else
      let record := normalizeApprovalRecord (some current) k.jobMeta.safetyRecord k.jobMeta.approval
      if p.plan.kind = .replayPendingPublish then (k, .ok current)
      else match p.plan.targetState with
        | none => (k, .error (.invalid "approval repair plan required"))
        | some target =>
          let repaired := repairedRecord p record k.jobMeta.safetyRecord now
          ({ k with
            jobMeta := { k.jobMeta with approval := repaired }
            request := k.request.map (repairRequest jobID p.plan.kind repaired) }.commitState
              (some current) target now, .ok target)

/-- A repair fails, replays a publish, or stores the repaired record and request and commits the
target. -/
theorem applyApprovalRepairTx_cases (jobID : String) (p : ApprovalRepairApplyParams)
    (now : ℤ) (k : JobKeys) :
    (∃ e, applyApprovalRepairTx jobID p now k = (k, .error e)) ∨
    (p.plan.kind = .replayPendingPublish ∧ ∃ current, k.storedState = some current ∧
      applyApprovalRepairTx jobID p now k = (k, .ok current)) ∨
    ∃ current target repaired, k.storedState = some current ∧ p.plan.kind ≠ .replayPendingPublish ∧
      (p.plan.currentState = none ∨ p.plan.currentState = some current) ∧
      p.plan.targetState = some target ∧
      repaired = repairedRecord p
        (normalizeApprovalRecord (some current) k.jobMeta.safetyRecord k.jobMeta.approval)
        k.jobMeta.safetyRecord now ∧
      applyApprovalRepairTx jobID p now k = ({ k with
        jobMeta := { k.jobMeta with approval := repaired }
        request := k.request.map (repairRequest jobID p.plan.kind repaired) }.commitState
          (some current) target now, .ok target) := by
  unfold applyApprovalRepairTx
  cases hs : k.storedState with
  | none => exact .inl ⟨_, rfl⟩
  | some current =>
    dsimp only
    split
    · exact .inl ⟨_, rfl⟩
    rename_i hcur
    split
    · rename_i hkd; exact .inr (.inl ⟨hkd, current, rfl, rfl⟩)
    rename_i hkd
    cases ht : p.plan.targetState with
    | none => exact .inl ⟨_, rfl⟩
    | some target =>
      refine .inr (.inr ⟨current, target, _, rfl, hkd, ?_, rfl, rfl, rfl⟩)
      by_cases hn : p.plan.currentState = none
      · exact .inl hn
      · exact .inr (not_not.1 fun h => hcur ⟨hn, h⟩)

theorem applyApprovalRepairTx_runtime {p : ApprovalRepairApplyParams} :
    (applyApprovalRepairTx jobID p now k).1.runtime = k.runtime := by
  rcases applyApprovalRepairTx_cases jobID p now k with ⟨_, h⟩ | ⟨-, _, -, h⟩ | ⟨_, _, _, -, -, -, -, -, h⟩
  · rw [h]
  · rw [h]
  · rw [h]; simp

end Cordum
