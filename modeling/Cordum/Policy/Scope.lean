import Cordum.Policy.Merge

/-!
# Which rules a request is judged by

The view of a policy by section and tier, the invariants that are laid over it, and the policy that
the kernel evaluates for one request, after
`core/controlplane/safetykernel/{global_policy,global_policy_tiers,tier_scope,kernel_invariants}.go`
and the first half of `evaluate` in `kernel.go`.
-/

namespace Cordum.Policy

open GoString

/-! ## Invariants -/

/-- `isGlobalInvariantDeny`, the list of the spellings that block. -/
def isGlobalInvariantDeny (decision : String) : Bool :=
  ["deny", "require_approval", "require-approval", "require_human", "throttle"].contains
    (toLower (trimSpace decision))

/-- The two functions that split invariants: the rules that block, and the others. -/
def splitInvariantRules (rules : List PolicyRule) : List PolicyRule × List PolicyRule :=
  rules.partition fun r => isGlobalInvariantDeny r.decision

/-- The policy between its invariants. -/
def applyKernelInvariants (base inv : Option SafetyPolicy) : Option SafetyPolicy :=
  match inv with
  | none => base.map cloneSafetyPolicy
  | some inv =>
    let out := (base.map cloneSafetyPolicy).getD {}
    let (denies, allows) := splitInvariantRules inv.rules
    some { out with
      rules := denies ++ out.rules ++ allows
      outputRules := inv.outputRules ++ out.outputRules
      outputPolicy := mergeOutputPolicy out.outputPolicy inv.outputPolicy
      inputRules := inv.inputRules ++ out.inputRules }

/-! ## Sections -/

/-- The topic of edge actions. -/
def edgeActionTopic : String := "job.edge.action"

/-- A rule about edge actions. -/
def isEdgeActionRule (rule : PolicyRule) : Bool :=
  rule.terms.topics.any fun raw => trimSpace raw = edgeActionTopic

/-- A rule about MCP tools. -/
def isMCPToolRule (rule : PolicyRule) : Bool :=
  let mcp := rule.terms.mcp
  !(mcp.allowServers.isEmpty && mcp.denyServers.isEmpty && mcp.allowTools.isEmpty &&
    mcp.denyTools.isEmpty &&
    mcp.allowResources.isEmpty && mcp.denyResources.isEmpty && mcp.allowActions.isEmpty &&
    mcp.denyActions.isEmpty)

/-- `GlobalPolicy`, without the output rules and the snapshots. -/
structure GlobalPolicy where
  inputRules : List PolicyRule := []
  edgeActionRules : List PolicyRule := []
  mcpToolRules : List PolicyRule := []
  workflowOverrides : String → List PolicyRule := fun _ => []
  jobOverrides : String → List PolicyRule := fun _ => []
  invariants : List PolicyRule := []
  globalDefaultDecision : Option Decision := none
  workflowDefaultDecisions : String → Option Decision := fun _ => none
  jobDefaultDecisions : String → Option Decision := fun _ => none

/-- The decision a text stands for, if any. -/
def normalizedOptionalDecision (raw : String) : Option Decision :=
  if trimSpace raw = "" then none else some (normalizeDecision raw)

/-- A rule as it stands in the sections of the global tier. -/
def PolicyRule.globalised (rule : PolicyRule) : PolicyRule :=
  { rule with tier := Tier.global.text, selector := {} }

namespace GlobalPolicy

/-- A rule in its sections. -/
def addRule (g : GlobalPolicy) (rule : PolicyRule) : GlobalPolicy :=
  let tier := normalizePolicyTier rule.tier
  let own := { rule with tier := tier.text, selector := trimPolicySelector rule.selector }
  let key := policySelectorKey tier rule.selector
  if tier = .workflow ∧ key ≠ "" then
    { g with workflowOverrides :=
      Function.update g.workflowOverrides key (g.workflowOverrides key ++ [own]) }
  else if tier = .job ∧ key ≠ "" then
    { g with jobOverrides := Function.update g.jobOverrides key (g.jobOverrides key ++ [own]) }
  else if isEdgeActionRule rule then { g with edgeActionRules := g.edgeActionRules ++ [rule.globalised] }
  else if isMCPToolRule rule then { g with mcpToolRules := g.mcpToolRules ++ [rule.globalised] }
  else { g with inputRules := g.inputRules ++ [rule.globalised] }

/-- The default of a tier. -/
def addTierDefault (g : GlobalPolicy) (d : PolicyTierDefault) : GlobalPolicy :=
  match normalizedOptionalDecision d.decision with
  | none => g
  | some decision =>
    let tier := normalizePolicyTier d.tier
    let key := policySelectorKey tier d.selector
    if tier = .workflow ∧ key ≠ "" then
      { g with workflowDefaultDecisions := Function.update g.workflowDefaultDecisions key (some decision) }
    else if tier = .job ∧ key ≠ "" then
      { g with jobDefaultDecisions := Function.update g.jobDefaultDecisions key (some decision) }
    else g

/-- The default of the policy. -/
def addPolicyLevelDefault (g : GlobalPolicy) (p : SafetyPolicy) : GlobalPolicy :=
  if normalizePolicyTier p.tier = .global then g
  else
    match normalizedOptionalDecision p.defaultDecision with
    | none => g
    | some decision =>
      g.addTierDefault ⟨(normalizePolicyTier p.tier).text, trimPolicySelector p.selector, decision.text⟩

end GlobalPolicy

/-- The sections of a policy. -/
def fromSafetyPolicy (policy : Option SafetyPolicy) (invariants : List PolicyRule) : GlobalPolicy :=
  let g : GlobalPolicy := { invariants := invariants.map PolicyRule.globalised }
  match policy with
  | none => g
  | some p =>
    let g := if normalizePolicyTier p.tier = .global then
        { g with globalDefaultDecision := normalizedOptionalDecision p.defaultDecision }
      else g
    p.rules.foldl GlobalPolicy.addRule
      (p.tierDefaults.foldl GlobalPolicy.addTierDefault (g.addPolicyLevelDefault p))

namespace GlobalPolicy

/-- The rules of a section for a job, by tier. -/
def rulesForScopedSection (g : GlobalPolicy) (workflowID jobID : String) (include' : PolicyRule → Bool)
    (globalRules : List PolicyRule) : List PolicyRule :=
  let workflowID := trimSpace workflowID
  let jobID := trimSpace jobID
  let (denies, allows) := splitInvariantRules g.invariants
  denies ++ (if jobID ≠ "" then (g.jobOverrides jobID).filter include' else []) ++
    (if workflowID ≠ "" then (g.workflowOverrides workflowID).filter include' else []) ++
    globalRules ++ allows

/-- `RulesForInput` of a workflow and a job, which is `RulesForJobWorkflow`. -/
def rulesForInput (g : GlobalPolicy) (workflowID jobID : String) : List PolicyRule :=
  g.rulesForScopedSection workflowID jobID (fun r => !(isEdgeActionRule r || isMCPToolRule r)) g.inputRules

/-- The rules for an edge action. -/
def rulesForEdgeAction (g : GlobalPolicy) (workflowID jobID : String) : List PolicyRule :=
  g.rulesForScopedSection workflowID jobID isEdgeActionRule g.edgeActionRules

/-- The rules for an MCP tool. -/
def rulesForMCPTool (g : GlobalPolicy) (workflowID jobID : String) : List PolicyRule :=
  g.rulesForScopedSection workflowID jobID isMCPToolRule g.mcpToolRules

/-- The default of a key; rules without one deny. -/
def scopedDefault (defaults : String → Option Decision) (rules : String → List PolicyRule) (key : String) :
    Option Decision :=
  let key := trimSpace key
  if key = "" then none
  else
    match defaults key with
    | some decision => some decision
    | none => if rules key ≠ [] then some .deny else none

/-- The default of the narrowest tier. -/
def defaultDecisionForJobWorkflowTier (g : GlobalPolicy) (workflowID jobID : String) : Decision × Tier :=
  match scopedDefault g.jobDefaultDecisions g.jobOverrides jobID with
  | some decision => (decision, .job)
  | none =>
    match scopedDefault g.workflowDefaultDecisions g.workflowOverrides workflowID with
    | some decision => (decision, .workflow)
    | none => (g.globalDefaultDecision.getD .deny, .global)

end GlobalPolicy

/-! ## Requests -/

/-- The first of the labels that is there. -/
def pickLabel (labels : Labels) (keys : List String) : String :=
  ((keys.filterMap fun key => labels.lookup key).map trimSpace).find? (· ≠ "") |>.getD ""

/-- The MCP request that labels describe. -/
def extractMCPRequest (labels : Labels) : MCPRequest where
  server := pickLabel labels ["mcp.server", "mcp_server", "mcpServer"]
  tool := pickLabel labels ["mcp.tool", "mcp_tool", "mcpTool"]
  resource := pickLabel labels ["mcp.resource", "mcp_resource", "mcpResource"]
  action := toLower (pickLabel labels ["mcp.action", "mcp_action", "mcpAction"])

/-- `PolicyCheckRequest`, as far as the rules read it, with risk tags and agent looked up. -/
structure PolicyCheckRequest where
  jobID : String := ""
  topic : String
  tenant : String := "default"
  labels : Labels := []
  details : PolicyMeta := {}

/-- The workflow and the job of a request. -/
def resolvePolicyScope (req : PolicyCheckRequest) : String × String :=
  let workflowID := pickLabel req.labels
    ["workflow_id", "workflow.id", "workflow", "workflow_run_id", "workflow.run_id"]
  let attached := pickLabel req.labels ["policy.attachment_id"]
  let jobID := if attached ≠ "" then attached else trimSpace req.jobID
  (workflowID,
    if jobID ≠ "" then jobID
    else pickLabel req.labels ["job_id", "job.id", "edge.job_id", "session_id", "edge.session_id"])

/-- The request is marked as holding secrets. -/
def secretsPresent (M : Matchers) (details : PolicyMeta) (labels : Labels) : Bool :=
  let v := trimSpace ((labels.lookup "secrets_present").getD "")
  if v ≠ "" then v = "true" || v = "1" || M.equalFold v "yes"
  else details.riskTags.any fun tag => M.equalFold tag "secrets"

/-- `normalizeDelegationList`: the parts without blanks and repetitions. -/
def normalizeDelegationList (raw : String) : List String :=
  ((split ',' raw).map trimSpace).foldl
    (fun out part =>
      if part = "" ∨ (out.map toLower).contains (toLower part) then out else out ++ [part]) []

/-- The delegation that labels describe. -/
def delegationContextFromLabels (labels : Labels) : Option DelegationContext :=
  let text := fun key => (labels.lookup key).getD ""
  match atoi (trimSpace (text "_delegation.depth")) with
  | none => none
  | some depth =>
    if depth ≤ 0 then none
    else
      let chain := normalizeDelegationList (text "_delegation.issuer_chain")
      let issuer := trimSpace (text "_delegation.issuer")
      let root := if issuer = "" then chain.headD "" else issuer
      some
        { depth := depth
          issuerChain := if chain = [] ∧ root ≠ "" then [root] else chain
          scope := normalizeDelegationList (text "_delegation.scope")
          rootIssuer := root }

/-- What the kernel is set up with. -/
structure KernelEnv where
  matchers : Matchers
  velocity : VelocityEnv
  delegation : Bool

/-- A kernel for runs of small policies. -/
def quietKernel : KernelEnv := ⟨.literal, unchecked, false⟩

/-- The input that rules are matched with. -/
def policyInput (K : KernelEnv) (req : PolicyCheckRequest) : PolicyInput where
  tenant := req.tenant
  topic := trimSpace req.topic
  labels := req.labels
  details := req.details
  secretsPresent := secretsPresent K.matchers req.details req.labels
  mcp := extractMCPRequest req.labels
  delegation := if K.delegation then delegationContextFromLabels req.labels else none

/-- The policy with the rules of one section. -/
def scopedPolicyForRequest (base : SafetyPolicy) (g : GlobalPolicy)
    (workflowID jobID topic : String) (labels : Labels) :
    SafetyPolicy :=
  let (defaultDecision, defaultTier) := g.defaultDecisionForJobWorkflowTier workflowID jobID
  { tier := defaultTier.text
    defaultDecision := defaultDecision.text
    rules :=
      if trimSpace topic = edgeActionTopic then g.rulesForEdgeAction workflowID jobID
      else if mcpUsed (extractMCPRequest labels) then g.rulesForMCPTool workflowID jobID
      else g.rulesForInput workflowID jobID
    tenants := base.tenants }

/-- What `setPolicyWithInvariants` keeps: the policy that is evaluated and its sections. -/
def loadedPolicy (base inv : Option SafetyPolicy) : Option SafetyPolicy × GlobalPolicy :=
  (applyKernelInvariants base inv, fromSafetyPolicy base ((inv.map (·.rules)).getD []))

/-- The policy of a request. -/
def requestPolicy (base inv : Option SafetyPolicy) (req : PolicyCheckRequest) : Option SafetyPolicy :=
  (loadedPolicy base inv).1.map fun combined =>
    scopedPolicyForRequest combined (loadedPolicy base inv).2 (resolvePolicyScope req).1
      (resolvePolicyScope req).2 (trimSpace req.topic) req.labels

/-- The policy decision of `evaluate`, before the effective config and the input rules. -/
def checkPolicy (K : KernelEnv) (base inv : Option SafetyPolicy)
    (req : PolicyCheckRequest) : PolicyDecision :=
  match requestPolicy base inv req with
  | none => { decision := .deny, reason := "no policy loaded — fail-closed", ruleTier := .other "" }
  | some p =>
    if trimSpace req.topic = ""
      then { decision := .deny, reason := "missing topic", ruleTier := .other "" }
    else if hasPrefix (trimSpace req.topic) "job." = false then
      { decision := .deny, reason := "unsupported topic", ruleTier := .other "" }
    else policyDecision K.matchers K.velocity p (policyInput K req)

end Cordum.Policy
