import Cordum.Policy.Scope

/-!
# Input rules

The scans of a request's content, after `core/controlplane/safetykernel/input_policy.go`, and the rest
of `evaluate` in `kernel.go`: the effective config, the input rules and the decision that is sent.
Regular expressions, keyword scans, named scanners and the structured scope check are a parameter.
-/

namespace Cordum.Policy

open GoString

/-- The bytes of an input or output. -/
abbrev Content := List UInt8

/-- `outputFinding`. -/
structure Finding where
  type : String
  severity : String
  detail : String
  scanner : String
  confidence : ℚ := 0
  matchedPattern : String := ""
deriving DecidableEq

/-- What scanning takes from elsewhere. -/
structure Scanning where
  /-- `validateRegexComplexity` and `regexp.Compile` accept the pattern. -/
  patternValid : String → Bool
  patternMatch : String → Content → Bool
  /-- The keyword scanner of a list of keywords. -/
  keywordScan : List String → Content → List Finding
  /-- The registry of named scanners. -/
  registry : String → Option (Content → List Finding)
  /-- `validateScopeConfig` accepts the scope. -/
  scopeValid : ScopeConfig → Bool
  /-- `evaluateScope`: whether the scope is violated, and what was found. -/
  scopeFindings : ScopeConfig → Content → Bool × List (String × String)

/-! ## Compiled rules -/

/-- The decisions of input rules. -/
inductive InputDecision
  | deny
  | requireApproval
deriving DecidableEq

/-- The spellings that `compileInputRules` accepts. -/
def parseInputDecision (raw : String) : Option InputDecision :=
  let decision := toLower (trimSpace raw)
  if decision = "deny" then some .deny
  else if decision = "require_approval" ∨ decision = "require-approval" ∨ decision = "require_human" then
    some .requireApproval
  else none

/-- A rule with its expressions compiled. -/
structure CompiledInputRule where
  id : String
  tier : Tier
  selector : PolicySelector
  decision : InputDecision
  reason : String
  severity : String
  tenants : List String
  topics : List String
  capabilities : List String
  riskTags : List String
  contentTypes : List String
  scanners : List String
  patterns : List String
  keywords : List String
  maxBytes : ℤ
  scope : Option ScopeConfig
deriving DecidableEq

/-- `high` for what is no severity. -/
def normalizeSeverity (raw : String) : String :=
  let severity := toLower (trimSpace raw)
  if ["critical", "high", "medium", "low"].contains severity then severity else "high"

/-- The values without blanks. -/
def normalizeList (values : List String) : List String := (values.map trimSpace).filter (· ≠ "")

/-- The name a scanner is registered under. -/
def normalizeScannerName (raw : String) : String :=
  let name := toLower (trimSpace raw)
  if name = "secret_leak" then "secret" else if name = "code_injection" then "injection" else name

/-- The scanners of both lists, each once. -/
def mergeScannerLists (primary secondary : List String) : List String :=
  ((primary ++ secondary).map normalizeScannerName).foldl
    (fun out name => if name = "" ∨ name ∈ out then out else out ++ [name]) []

/-- The tier of a compiled rule. -/
def inputRuleTier (policy : SafetyPolicy) (rule : InputPolicyRule) : Tier :=
  let tier := normalizePolicyTier (if trimSpace rule.tier = "" then policy.tier else rule.tier)
  if isValidPolicyTier tier then tier else .global

/-- One rule of `compileInputRules`. -/
def compileInputRule (S : Scanning) (policy : SafetyPolicy) (rule : InputPolicyRule) :
    Option CompiledInputRule :=
  if rule.enabled = some false then none
  else
    match parseInputDecision rule.decision with
    | none => none
    | some decision =>
      let patterns := (normalizeList rule.terms.contentPatterns).filter S.patternValid
      if rule.terms.contentPatterns ≠ [] ∧ patterns = [] then none
      else if rule.terms.scope.any fun scope => !S.scopeValid scope then none
      else
        some
          { id := trimSpace rule.id
            tier := inputRuleTier policy rule
            selector :=
              if inputRuleTier policy rule = .global then {}
                else mergePolicySelector policy.selector rule.selector
            decision := decision
            reason := trimSpace rule.reason
            severity := normalizeSeverity rule.severity
            tenants := normalizeList rule.terms.tenants
            topics := normalizeList rule.terms.topics
            capabilities := normalizeList rule.terms.capabilities
            riskTags := normalizeList rule.terms.riskTags
            contentTypes := normalizeList rule.terms.contentTypes
            scanners := mergeScannerLists rule.terms.scanners rule.terms.detectors
            patterns := patterns
            keywords := normalizeList rule.terms.keywords
            maxBytes := max rule.terms.maxInputBytes rule.terms.inputSizeGt
            scope := rule.terms.scope }

/-- The rules that can be compiled. -/
def compileInputRules (S : Scanning) (policy : Option SafetyPolicy) : List CompiledInputRule :=
  match policy with
  | none => []
  | some p => p.inputRules.filterMap (compileInputRule S p)

/-- Whether the rule is for the workflow and the job. -/
def inputRuleAppliesToScope (rule : CompiledInputRule) (workflowID jobID : String) : Bool :=
  match rule.tier with
  | .workflow => policySelectorKey .workflow rule.selector ≠ "" &&
      policySelectorKey .workflow rule.selector = workflowID
  | .job => policySelectorKey .job rule.selector ≠ "" && policySelectorKey .job rule.selector = jobID
  | .global => true
  | .other _ => false

/-- The rules of a tier that apply to the scope, in their order. -/
def inputRulesOfTier (rules : List CompiledInputRule) (workflowID jobID : String) (tier : Tier) :
    List CompiledInputRule :=
  rules.filter fun rule => inputRuleAppliesToScope rule (trimSpace workflowID) (trimSpace jobID) &&
    rule.tier = tier

/-- The rules for a job, by tier. -/
def selectInputRulesForScope (rules : List CompiledInputRule) (workflowID jobID : String) :
    List CompiledInputRule :=
  inputRulesOfTier rules workflowID jobID .job ++ inputRulesOfTier rules workflowID jobID .workflow ++
    inputRulesOfTier rules workflowID jobID .global

/-! ## Evaluation -/

/-- An input and what is known of it. -/
structure InputEvaluateRequest where
  tenant : String
  topic : String
  capabilities : List String := []
  riskTags : List String := []
  contentType : String := ""
  content : Content := []
  inputSize : ℤ := 0

/-- One of the values is required, in any case. -/
def containsAnyFold (M : Matchers) (values required : List String) : Bool :=
  values.any fun value => required.any fun req => M.equalFold (trimSpace value) (trimSpace req)

/-- One of the patterns matches. -/
def matchAny (M : Matchers) (patterns : List String) (value : String) : Bool :=
  value ≠ "" && patterns.any fun pat => matchTopic M pat value

section

variable (M : Matchers) (S : Scanning) (rule : CompiledInputRule) (req : InputEvaluateRequest)

/-- The terms of a rule that are not about content. -/
def inputMetadataMatches : Bool :=
  listed rule.tenants (containsAnyFold M [req.tenant] rule.tenants) &&
  listed rule.topics (matchAny M rule.topics req.topic) &&
  listed rule.capabilities (containsAnyFold M req.capabilities rule.capabilities) &&
  listed rule.riskTags (containsAnyFold M req.riskTags rule.riskTags) &&
  listed rule.contentTypes (containsAnyFold M [req.contentType] rule.contentTypes)

/-- The rule looks into the content. -/
def inputRuleUsesContentMatchers : Bool := !rule.scanners.isEmpty ||
    !rule.patterns.isEmpty || !rule.keywords.isEmpty

/-- The rule needs the content. -/
def inputRuleContentSensitive : Bool := inputRuleUsesContentMatchers rule || rule.scope.isSome

/-- More was declared than has arrived. -/
def inputContentIncomplete : Bool := req.inputSize > req.content.length

/-- The finding for content that is cut off. -/
def inputTruncatedFailClosedFinding : Finding where
  type := "content_truncated"
  severity := "high"
  detail :=
    "declared input size exceeds received content; unscanned tail may violate policy - failing closed"
  scanner := "size_check"

/-- The finding when the input is too large. -/
def evaluateInputSizeRule : Option (List Finding) :=
  let size := if req.inputSize ≤ 0 then (req.content.length : ℤ) else req.inputSize
  if size ≤ rule.maxBytes then none
  else some [⟨"input_size_exceeded", rule.severity, "input size exceeds policy limit",
    "size_check", 0, ""⟩]

/-- The findings when there is no content. -/
def evaluateMissingInputRule : Option (List Finding) :=
  if rule.scope.any fun scope => scope.onMissingInput ≠ "allow" then
    some [⟨"content_required_but_missing", rule.severity,
      "scope rule requires structured input content but none was provided", "scope_evaluator", 0, ""⟩]
  else if inputRuleContentSensitive rule then none
  else some []

variable (content : Content) (findings : List Finding)

/-- The findings of the scope; `none` if it is kept. -/
def scanInputScope : Option (List Finding) :=
  match rule.scope with
  | none => some []
  | some scope =>
    let (violated, found) := S.scopeFindings scope content
    let findings :=
      found.map fun (type, detail) => (⟨type, rule.severity, detail, "scope_evaluator", 0, ""⟩ : Finding)
    if !violated && findings.isEmpty then none else some findings

/-- The findings of the patterns. -/
def scanInputPatterns : Option (List Finding) :=
  if rule.patterns = [] then some findings
  else
    let findings := findings ++ (rule.patterns.filter fun pat => S.patternMatch pat content).map fun pat =>
      (⟨"content_pattern_match", rule.severity, "input content matched pattern",
        "regex", 0, pat⟩ : Finding)
    if findings.isEmpty then none else some findings

/-- The end of `scanInputKeywords` and of `scanInputNamedScanners`. -/
def addMatches (findings found : List Finding) : Option (List Finding) :=
  if found.isEmpty && findings.isEmpty then none else some (findings ++ found)

/-- The findings of the keywords. -/
def scanInputKeywords : Option (List Finding) :=
  if rule.keywords = [] then some findings else addMatches findings (S.keywordScan rule.keywords content)

/-- The findings a scanner may report. -/
def maxFindingsPerScanner : ℕ := 32

/-- The findings of named scanners. -/
def scanWithScanners (names : List String) : List Finding :=
  if content = [] then []
  else
    (names.foldl (fun out name =>
      if out.length ≥ maxFindingsPerScanner then out
      else
        match S.registry (normalizeScannerName name) with
        | none => out
        | some scan => out ++ scan content) []).take maxFindingsPerScanner

/-- The findings of the rule's scanners. -/
def scanInputNamedScanners : Option (List Finding) :=
  if rule.scanners = [] then some findings else addMatches findings
    (scanWithScanners S content rule.scanners)

/-- The findings of a rule on the content. -/
def evaluateInputContentRule : Option (List Finding) := do
  let findings ← scanInputScope S rule content
  let findings ← scanInputPatterns S rule content findings
  let findings ← scanInputKeywords S rule content findings
  let findings ← scanInputNamedScanners S rule content findings
  if inputRuleUsesContentMatchers rule && findings.isEmpty then none else some findings

/-- `evaluateInputRule`: none when the rule does not match, else what was found. -/
def evaluateInputRule : Option (List Finding) :=
  if inputMetadataMatches M rule req = false then none
  else if inputRuleContentSensitive rule && inputContentIncomplete req
    then some [inputTruncatedFailClosedFinding]
  else if rule.maxBytes > 0 then evaluateInputSizeRule rule req
  else if req.content = [] then evaluateMissingInputRule rule
  else evaluateInputContentRule S rule req.content

end

/-- The rank of a severity, 0 for none. -/
def severityRank (s : String) : ℕ :=
  let s := toLower (trimSpace s)
  if s = "low" then 1 else if s = "medium" then 2 else if s = "high" then 3
    else if s = "critical" then 4 else 0

/-- A denial that the threshold hands to a human. -/
def shouldDowngradeDenyToRequireHuman (rule : CompiledInputRule)
    (findings : List Finding) (hasAction : Bool) (threshold : RequireHumanThreshold) : Bool :=
  let minRank := severityRank threshold.minSeverityForDeny
  (threshold.downgradeWhenPromptOnly && !hasAction) ||
  (minRank > 0 && (findings.any (fun f => severityRank f.severity < minRank) ||
    (severityRank rule.severity > 0 && severityRank rule.severity < minRank))) ||
  (threshold.minConfidenceForDeny > 0 &&
    findings.any fun f => f.confidence > 0 && f.confidence < threshold.minConfidenceForDeny)

/-- The reason that is given. -/
def inputRuleReason (rule : CompiledInputRule) (findings : List Finding) : String :=
  if findings = [] then rule.reason
  else
    let parts := ", ".intercalate (findings.map Finding.detail)
    if rule.reason ≠ "" then rule.reason ++ ": " ++ parts else "input content flagged: " ++ parts

/-! ## The kernel -/

/-- The safety section of the effective config. -/
structure EffectiveSafety where
  allowedTopics : List String := []
  deniedTopics : List String := []
  mcp : MCPPolicy := {}

/-- The whole of a request, as far as the kernel reads it. -/
structure KernelRequest extends PolicyCheckRequest where
  inputContent : Content := []
  inputContentType : String := ""
  inputSizeBytes : ℤ := 0
  hasAction : Bool := false
  effective : Option EffectiveSafety := none

/-- What the effective config leaves of a decision. -/
def applyEffective (K : KernelEnv) (req : KernelRequest) (d : PolicyDecision) : PolicyDecision :=
  match req.effective with
  | none => d
  | some eff =>
    let topic := trimSpace req.topic
    let d := if matchAny K.matchers eff.deniedTopics topic then
        { d with decision := .deny, reason := "topic '" ++ topic ++ "' denied by effective config" }
      else d
    let d := if eff.allowedTopics ≠ [] ∧ matchAny K.matchers eff.allowedTopics topic = false then
        { d with decision := .deny, reason := "topic '" ++ topic ++ "' not allowed by effective config" }
      else d
    match mcpAllowed K.matchers eff.mcp (extractMCPRequest req.labels) with
    | none => d
    | some reason => { d with decision := .deny, reason := reason }

/-- The decision that the input rules start from; without a policy or a job's topic it is final. -/
def baseDecision (K : KernelEnv) (base inv : Option SafetyPolicy) (req : KernelRequest) : PolicyDecision :=
  let d := checkPolicy K base inv req.toPolicyCheckRequest
  if (requestPolicy base inv req.toPolicyCheckRequest).isNone ∨
    hasPrefix (trimSpace req.topic) "job." = false then d
  else applyEffective K req d

/-- Input rules run on every decision that lets the request proceed. -/
def Decision.Scanned : Decision → Prop
  | .allow | .allowWithConstraints | .throttle => True
  | _ => False

instance : DecidablePred Decision.Scanned := fun d => by
  cases d <;> unfold Decision.Scanned <;> infer_instance

/-- The content that is scanned: the input, else the prompt. -/
def KernelRequest.content (req : KernelRequest) : Content :=
  if req.inputContent = [] then ((req.labels.lookup "_content.prompt").getD "").toUTF8.data.toList
    else req.inputContent

/-- The request as the input rules see it. -/
def inputRequest (req : KernelRequest) : InputEvaluateRequest where
  tenant := req.tenant
  topic := trimSpace req.topic
  capabilities := [req.details.capability]
  riskTags := req.details.riskTags
  contentType := req.inputContentType
  content := req.content
  inputSize := req.inputSizeBytes

/-- The input rules of a request. -/
def requestInputRules (S : Scanning) (base inv : Option SafetyPolicy) (req : KernelRequest) :
    List CompiledInputRule :=
  selectInputRulesForScope (compileInputRules S (loadedPolicy base inv).1)
    (resolvePolicyScope req.toPolicyCheckRequest).1 (resolvePolicyScope req.toPolicyCheckRequest).2

/-- The threshold that `setPolicyWithInvariants` keeps. -/
def requireHumanThreshold (base inv : Option SafetyPolicy) : RequireHumanThreshold :=
  (((loadedPolicy base inv).1).map (·.requireHuman)).getD {}

/-- What a matching input rule decides. -/
def inputVerdict (threshold : RequireHumanThreshold) (hasAction : Bool) (rule : CompiledInputRule)
    (findings : List Finding) :
    Decision :=
  match rule.decision with
  | .deny => if shouldDowngradeDenyToRequireHuman rule findings hasAction threshold
      then .requireApproval else .deny
  | .requireApproval => .requireApproval

/-- The loop over the input rules: the first one that matches, and what was found. -/
def firstInputMatch (M : Matchers) (S : Scanning) (req : InputEvaluateRequest)
    (rules : List CompiledInputRule) :
    Option (CompiledInputRule × List Finding) :=
  rules.findSome? fun rule => (evaluateInputRule M S rule req).map fun findings => (rule, findings)

/-- `evaluate`: the rules, then the input rules. -/
def evaluate (K : KernelEnv) (S : Scanning) (base inv : Option SafetyPolicy)
    (req : KernelRequest) : PolicyDecision :=
  let d := baseDecision K base inv req
  if d.decision.Scanned then
    match firstInputMatch K.matchers S (inputRequest req) (requestInputRules S base inv req) with
    | none => d
    | some (rule, findings) =>
      let decision := inputVerdict (requireHumanThreshold base inv) req.hasAction rule findings
      { decision := decision
        reason := inputRuleReason rule findings
        ruleID := rule.id
        ruleTier := rule.tier
        approvalRequired := d.approvalRequired || decision = .requireApproval }
  else d

end Cordum.Policy
