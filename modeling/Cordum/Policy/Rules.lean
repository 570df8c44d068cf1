import Cordum.Text.Fields
import Mathlib.Data.Rat.Defs

/-!
# Safety policies

Rules, what a request is matched by, and the first-match evaluation, after
`core/infra/config/safety_policy.go`, `delegation_policy.go`, `mcp.go` and
`core/controlplane/safetykernel/velocity.go`. The functions of the standard library that a match
depends on (`strings.EqualFold`, `path.Match`, `strconv.ParseFloat`, `strconv.Quote`) are a parameter.
-/

namespace Cordum.Policy

open GoString

/-- What matching takes from the standard library. -/
structure Matchers where
  /-- `strings.EqualFold`. -/
  equalFold : String → String → Bool
  /-- `path.Match`, without its error. -/
  glob : String → String → Bool
  /-- The text is a number above the bound. -/
  exceeds : String → ℚ → Bool
  /-- `strconv.Quote`. -/
  quote : String → String
  equalFold_refl : ∀ s, equalFold s s
  /-- A pattern without special characters matches itself. -/
  glob_self : ∀ s, (∀ c ∈ s.toList, c ≠ '*' ∧ c ≠ '?' ∧ c ≠ '[' ∧ c ≠ '\\') → glob s s

/-- Equal texts, and no patterns: enough to run small policies. -/
def Matchers.literal : Matchers where
  equalFold s t := s == t
  glob s t := s == t
  exceeds _ _ := false
  quote s := s
  equalFold_refl _ := beq_self_eq_true _
  glob_self _ _ := beq_self_eq_true _

/-- The labels of a request. -/
abbrev Labels := List (String × String)

/-! ## Tiers and selectors -/

/-- The workflow, job or session a rule is for. -/
structure PolicySelector where
  workflowID : String := ""
  jobID : String := ""
  sessionID : String := ""
deriving DecidableEq

/-- A normalised tier. -/
inductive Tier
  | «global»
  | workflow
  | job
  | other (name : String)
deriving DecidableEq

/-- The canonical text of a tier. -/
def Tier.text : Tier → String
  | .global => "global"
  | .workflow => "workflow"
  | .job => "job"
  | .other name => name

/-- The tier a text stands for. -/
def normalizePolicyTier (raw : String) : Tier :=
  let tier := toLower (trimSpace raw)
  if tier = "" ∨ tier = "global" then .global
  else if tier = "workflow" then .workflow
  else if tier = "job" then .job
  else .other tier

/-- The tiers a rule may name. -/
def isValidPolicyTier : Tier → Bool
  | .other _ => false
  | _ => true

/-- A selector without white space. -/
def trimPolicySelector (s : PolicySelector) : PolicySelector :=
  ⟨trimSpace s.workflowID, trimSpace s.jobID, trimSpace s.sessionID⟩

/-- The overlay where it says something. -/
def mergePolicySelector (base overlay : PolicySelector) : PolicySelector :=
  let out := trimPolicySelector base
  let overlay := trimPolicySelector overlay
  { workflowID := if overlay.workflowID ≠ "" then overlay.workflowID else out.workflowID
    jobID := if overlay.jobID ≠ "" then overlay.jobID else out.jobID
    sessionID := if overlay.sessionID ≠ "" then overlay.sessionID else out.sessionID }

/-- What a selector of a tier selects by. -/
def policySelectorKey (tier : Tier) (selector : PolicySelector) : String :=
  let selector := trimPolicySelector selector
  match tier with
  | .workflow => selector.workflowID
  | .job => if selector.jobID ≠ "" then selector.jobID else selector.sessionID
  | _ => ""

/-! ## Requests -/

/-- What a request does over MCP. -/
structure MCPRequest where
  server : String := ""
  tool : String := ""
  resource : String := ""
  action : String := ""
deriving DecidableEq

/-- `DelegationContext`, as far as rules read it. -/
structure DelegationContext where
  depth : ℤ
  issuerChain : List String
  scope : List String
  rootIssuer : String

/-- `PolicyMeta`, as far as rules read it. -/
structure PolicyMeta where
  actorID : String := ""
  actorType : String := ""
  capability : String := ""
  riskTags : List String := []
  requires : List String := []
  packID : String := ""
  agentRiskTier : String := ""
  agentDataClassifications : List String := []

/-- A request, as the rules see it. -/
structure PolicyInput where
  tenant : String
  topic : String
  labels : Labels := []
  details : PolicyMeta := {}
  secretsPresent : Bool := false
  mcp : MCPRequest := {}
  delegation : Option DelegationContext := none

/-! ## Rules -/

/-- `MCPPolicy`, the lists. -/
structure MCPPolicy where
  allowServers : List String := []
  denyServers : List String := []
  allowTools : List String := []
  denyTools : List String := []
  allowResources : List String := []
  denyResources : List String := []
  allowActions : List String := []
  denyActions : List String := []
deriving DecidableEq

/-- The terms of a rule on delegation. -/
structure DelegationMatch where
  maxDepth : Option ℤ := none
  issuers : List String := []
  requireIssuer : String := ""
  requiredScope : List String := []
  forbidDelegated : Bool := false
  delegationRequired : Option Bool := none
deriving DecidableEq

/-- The terms of a rule. -/
structure PolicyMatch where
  tenants : List String := []
  topics : List String := []
  capabilities : List String := []
  riskTags : List String := []
  requires : List String := []
  packIDs : List String := []
  actorIDs : List String := []
  actorTypes : List String := []
  agentRiskTiers : List String := []
  agentDataClassifications : List String := []
  labels : Labels := []
  labelAllowlist : List (String × List String) := []
  labelThreshold : List (String × ℚ) := []
  secretsPresent : Option Bool := none
  predicate : String := ""
  delegation : Option DelegationMatch := none
  mcp : MCPPolicy := {}
deriving DecidableEq

/-- A limit on requests within a window. -/
structure VelocityConfig where
  maxRequests : ℤ
  windowSeconds : ℤ
  key : String
deriving DecidableEq

/-- `PolicyRule`; constraints and remediations only travel along. -/
structure PolicyRule where
  id : String
  tier : String := ""
  selector : PolicySelector := {}
  terms : PolicyMatch := {}
  velocity : Option VelocityConfig := none
  decision : String
  reason : String := ""
deriving DecidableEq

/-- What a tenant may do. -/
structure TenantPolicy where
  allowTopics : List String := []
  denyTopics : List String := []
  allowedRepoHosts : List String := []
  deniedRepoHosts : List String := []
  maxConcurrent : ℤ := 0
  mcp : MCPPolicy := {}
deriving DecidableEq

/-- The tenants of a policy, each once, in the order of the map's iteration. -/
structure TenantPolicies where
  entries : List (String × TenantPolicy) := []
  nodup : (entries.map Prod.fst).Nodup := by exact List.nodup_nil
deriving DecidableEq

/-- The policy of a tenant. -/
def TenantPolicies.get (m : TenantPolicies) (tenant : String) :
    Option TenantPolicy := m.entries.lookup tenant

/-- The default decision of a tier. -/
structure PolicyTierDefault where
  tier : String
  selector : PolicySelector
  decision : String
deriving DecidableEq

/-! ## Matching -/

section

variable (M : Matchers)

/-- The value is listed, in any case. -/
def containsString (list : List String) (value : String) : Bool :=
  value ≠ "" && list.any fun v => M.equalFold (trimSpace v) (trimSpace value)

/-- One of the values is listed. -/
def containsAny (list values : List String) : Bool := values.any (containsString M list)

/-- All that is required is there. -/
def containsAll (values required : List String) : Bool := required.all (containsString M values)

/-- The pattern matches the topic. -/
def matchTopic (pattern topic : String) : Bool :=
  trimSpace pattern ≠ "" && M.glob (trimSpace pattern) topic

/-- One of the patterns matches. -/
def matchAnyTopic (patterns : List String) (topic : String) : Bool :=
  patterns.any fun p => matchTopic M p topic

/-- The labels have what is required. -/
def labelsMatch (required actual : Labels) : Bool :=
  required.isEmpty || (!actual.isEmpty && required.all fun kv => (actual.lookup kv.1).getD "" == kv.2)

/-- `labelAllowlistMatch`: some label has a value outside its list. -/
def labelAllowlistMatch (allowlists : List (String × List String)) (labels : Labels) : Bool :=
  allowlists.any fun kv =>
    match labels.lookup kv.1 with
    | none => false
    | some actual => !kv.2.any fun v => toLower (trimSpace v) == toLower (trimSpace actual)

/-- `labelThresholdMatch`: some label is a number above its bound. -/
def labelThresholdMatch (thresholds : List (String × ℚ)) (labels : Labels) : Bool :=
  thresholds.any fun kv =>
    match labels.lookup kv.1 with
    | none => false
    | some actual => M.exceeds (trimSpace actual) kv.2

/-- `mcpUsed`, and `policyScopeMCPUsed`. -/
def mcpUsed (req : MCPRequest) : Bool :=
  trimSpace req.server ≠ "" || trimSpace req.tool ≠ "" || trimSpace req.resource ≠ "" ||
    trimSpace req.action ≠ ""

/-- `matchMCPField`: none when the value may pass, else why not. -/
def matchMCPField (field value : String) (allow deny : List String) : Option String :=
  if containsString M deny value then some ("mcp " ++ field ++ " " ++ M.quote value ++ " denied")
  else if allow ≠ [] ∧ containsString M allow value = false then
    some ("mcp " ++ field ++ " " ++ M.quote value ++ " not allowed")
  else none

/-- `MCPAllowed`: none when the request may pass, else the field that may not. -/
def mcpAllowed (policy : MCPPolicy) (req : MCPRequest) : Option String :=
  if mcpUsed req = false then none
  else
    matchMCPField M "server" req.server policy.allowServers policy.denyServers <|>
      matchMCPField M "tool" req.tool policy.allowTools policy.denyTools <|>
      matchMCPField M "resource" req.resource policy.allowResources policy.denyResources <|>
      matchMCPField M "action" req.action policy.allowActions policy.denyActions

/-- The MCP terms allow the request. -/
def mcpMatch (policy : MCPPolicy) (req : MCPRequest) : Bool := (mcpAllowed M policy req).isNone

/-- The terms ask something of the chain. -/
def hasDelegationScopedConstraint (m : DelegationMatch) : Bool :=
  m.maxDepth.isSome || !m.issuers.isEmpty || trimSpace m.requireIssuer ≠ "" || !m.requiredScope.isEmpty

/-- Whether the terms on delegation hold. -/
def evaluateDelegationMatch (terms : Option DelegationMatch)
    (delegation : Option DelegationContext) : Bool :=
  match terms with
  | none => true
  | some m =>
    if m.forbidDelegated then delegation.isNone
    else
      match delegation with
      | none =>
        match m.delegationRequired with
        | some required => !required
        | none => !hasDelegationScopedConstraint m
      | some d =>
        (match m.maxDepth with
          | none => true
          | some depth => decide (d.depth ≤ depth)) &&
        (m.issuers.isEmpty || d.issuerChain.all fun id => (m.issuers.map trimSpace).contains
          (trimSpace id)) &&
        (trimSpace m.requireIssuer = "" || M.equalFold (trimSpace d.rootIssuer)
          (trimSpace m.requireIssuer)) &&
        m.requiredScope.all fun s => (d.scope.map fun s => toLower (trimSpace s)).contains
          (toLower (trimSpace s))

/-- A parsed `delegationPredicate`. -/
inductive DelegationPredicate
  | depth (op : String) (bound : ℤ)
  | issuer (value : String)
  | scopeContains (value : String)

/-- The value, in lower case and without quotes. -/
def parseDelegationPredicateValue (raw : String) : Option String :=
  let raw := trimSpace raw
  let quoted := 2 ≤ raw.toList.length ∧
    ((hasPrefix raw "'" ∧ hasSuffix raw "'") ∨ (hasPrefix raw "\"" ∧ hasSuffix raw "\""))
  let value := trimSpace (if quoted then String.ofList (raw.toList.tail.dropLast) else raw)
  if value = "" then none else some (toLower value)

/-- The predicate a text stands for. -/
def parseDelegationPredicate (raw : String) : Option DelegationPredicate :=
  let raw := trimSpace raw
  if hasPrefix raw "delegation.depth" then
    let tail := trimSpace (trimPrefix raw "delegation.depth")
    match [">=", "<=", "==", ">", "<"].find? (hasPrefix tail) with
    | none => none
    | some op => (atoi (trimSpace (trimPrefix tail op))).map (.depth op)
  else if hasPrefix raw "delegation.issuer" then
    let tail := trimSpace (trimPrefix raw "delegation.issuer")
    if hasPrefix tail "==" then
      (parseDelegationPredicateValue (trimSpace (trimPrefix tail "=="))).map .issuer
    else none
  else if hasPrefix raw "delegation.scope.contains(" ∧ hasSuffix raw ")" then
    (parseDelegationPredicateValue
      (trimSpace (trimSuffix (trimPrefix raw "delegation.scope.contains(") ")"))).map
      .scopeContains
  else none

/-- The comparison an operator stands for. -/
def compareDelegationDepth (actual : ℤ) (op : String) (expected : ℤ) : Bool :=
  if op = ">" then actual > expected
  else if op = ">=" then actual ≥ expected
  else if op = "<" then actual < expected
  else if op = "<=" then actual ≤ expected
  else op = "==" && actual = expected

/-- Whether a predicate holds. -/
def delegationPredicateMatch (raw : String) (delegation : Option DelegationContext) : Bool :=
  if trimSpace raw = "" then true
  else
    match parseDelegationPredicate raw, delegation with
    | some (.depth op bound), some d => compareDelegationDepth d.depth op bound
    | some (.issuer value), some d => M.equalFold (trimSpace d.rootIssuer) value
    | some (.scopeContains value), some d => containsString M d.scope value
    | _, _ => false

/-- An empty list of alternatives is no condition. -/
def listed (alternatives : List String) (ok : Bool) : Bool := alternatives.isEmpty || ok

/-- Whether all terms of a rule hold. -/
def matchRule (m : PolicyMatch) (input : PolicyInput) : Bool :=
  listed m.tenants (containsString M m.tenants input.tenant) &&
  listed m.topics (matchAnyTopic M m.topics input.topic) &&
  listed m.capabilities (containsString M m.capabilities input.details.capability) &&
  listed m.riskTags (containsAny M m.riskTags input.details.riskTags) &&
  listed m.requires (containsAll M input.details.requires m.requires) &&
  listed m.packIDs (containsString M m.packIDs input.details.packID) &&
  listed m.actorIDs (containsString M m.actorIDs input.details.actorID) &&
  listed m.actorTypes (containsString M m.actorTypes input.details.actorType) &&
  listed m.agentRiskTiers (containsString M m.agentRiskTiers input.details.agentRiskTier) &&
  listed m.agentDataClassifications
    (containsAny M m.agentDataClassifications input.details.agentDataClassifications) &&
  (match m.secretsPresent with
    | none => true
    | some b => input.secretsPresent == b) &&
  labelsMatch m.labels input.labels &&
  (m.labelAllowlist.isEmpty || labelAllowlistMatch m.labelAllowlist input.labels) &&
  (m.labelThreshold.isEmpty || labelThresholdMatch M m.labelThreshold input.labels) &&
  delegationPredicateMatch M m.predicate input.delegation &&
  evaluateDelegationMatch M m.delegation input.delegation &&
  mcpMatch M m.mcp input.mcp

end

/-! ## Decisions -/

/-- A normalised decision. -/
inductive Decision
  | allow
  | deny
  | requireApproval
  | allowWithConstraints
  | throttle
deriving DecidableEq

/-- The canonical text of a decision. -/
def Decision.text : Decision → String
  | .allow => "allow"
  | .deny => "deny"
  | .requireApproval => "require_approval"
  | .allowWithConstraints => "allow_with_constraints"
  | .throttle => "throttle"

/-- The decision lets the request proceed. -/
def Decision.Allows : Decision → Prop
  | .allow | .allowWithConstraints => True
  | _ => False

instance : DecidablePred Decision.Allows := fun d => by
  cases d <;> unfold Decision.Allows <;> infer_instance

/-- `normalizeDecision`: unknown spellings deny. -/
def normalizeDecision (raw : String) : Decision :=
  let d := toLower (trimSpace raw)
  if d = "allow" ∨ d = "permit" then .allow
  else if d = "deny" ∨ d = "block" then .deny
  else if d = "require_approval" ∨ d = "require-approval" ∨ d = "require_human" then .requireApproval
  else if d = "allow_with_constraints" ∨ d = "allow-with-constraints" then .allowWithConstraints
  else if d = "throttle" then .throttle
  else .deny

/-- What a rule decides. -/
structure PolicyDecision where
  decision : Decision
  reason : String
  ruleID : String := ""
  ruleTier : Tier
  approvalRequired : Bool := false

/-- The decision of a rule that matched. -/
def buildDecision (rule : PolicyRule) : PolicyDecision where
  decision := normalizeDecision rule.decision
  reason := rule.reason
  ruleID := rule.id
  ruleTier := normalizePolicyTier rule.tier
  approvalRequired := normalizeDecision rule.decision = .requireApproval

/-- From where on a human decides. -/
structure RequireHumanThreshold where
  minSeverityForDeny : String := ""
  minConfidenceForDeny : ℚ := 0
  downgradeWhenPromptOnly : Bool := false
deriving DecidableEq

/-- `ScopeConfig`, as far as a missing input asks for it. -/
structure ScopeConfig where
  body : String
  onMissingInput : String := ""
deriving DecidableEq

/-- The terms of an input rule. -/
structure InputPolicyMatch where
  tenants : List String := []
  topics : List String := []
  capabilities : List String := []
  riskTags : List String := []
  scanners : List String := []
  contentPatterns : List String := []
  keywords : List String := []
  contentTypes : List String := []
  detectors : List String := []
  inputSizeGt : ℤ := 0
  maxInputBytes : ℤ := 0
  scope : Option ScopeConfig := none
deriving DecidableEq

/-- A rule about inputs. -/
structure InputPolicyRule where
  id : String
  tier : String := ""
  selector : PolicySelector := {}
  enabled : Option Bool := none
  severity : String := ""
  terms : InputPolicyMatch := {}
  decision : String
  reason : String := ""
deriving DecidableEq

/-- The settings of output scanning. -/
structure OutputPolicyConfig where
  enabled : Bool := false
  failMode : String := ""
deriving DecidableEq

/-- The terms of an output rule. -/
structure OutputPolicyMatch where
  tenants : List String := []
  topics : List String := []
  capabilities : List String := []
  riskTags : List String := []
  scanners : List String := []
  contentPatterns : List String := []
  keywords : List String := []
  contentTypes : List String := []
  detectors : List String := []
  outputSizeGt : ℤ := 0
  maxOutputBytes : ℤ := 0
  hasError : Option Bool := none
deriving DecidableEq

/-- A rule about outputs. -/
structure OutputPolicyRule where
  id : String
  enabled : Option Bool := none
  severity : String := ""
  terms : OutputPolicyMatch := {}
  decision : String
  reason : String := ""
deriving DecidableEq

/-- A policy. -/
structure SafetyPolicy where
  version : String := ""
  tier : String := ""
  selector : PolicySelector := {}
  rules : List PolicyRule := []
  inputRules : List InputPolicyRule := []
  requireHuman : RequireHumanThreshold := {}
  outputPolicy : OutputPolicyConfig := {}
  outputRules : List OutputPolicyRule := []
  defaultTenant : String := ""
  defaultDecision : String := ""
  tenants : TenantPolicies := {}
  tierDefaults : List PolicyTierDefault := []
deriving DecidableEq

/-- The rules of one list of topics in the older form, numbered from 1. -/
def legacyTopicRules (tenant kind : String) (reason : String → String) (tp : TenantPolicy)
    (topics : List String) :
    List PolicyRule :=
  topics.mapIdx fun i pat =>
    { id := "legacy:" ++ tenant ++ ":" ++ kind ++ ":" ++ toString (i + 1)
      decision := kind
      reason := reason pat
      terms := { tenants := [tenant], topics := [pat], mcp := tp.mcp } }

/-- The topic lists of the tenants, as rules. -/
def legacyRules (M : Matchers) (p : SafetyPolicy) : List PolicyRule :=
  p.tenants.entries.flatMap fun (tenant, tp) =>
    legacyTopicRules tenant "deny" (fun pat => "topic " ++ M.quote pat ++ " denied by tenant policy") tp
      tp.denyTopics ++ legacyTopicRules tenant "allow" (fun _ => "") tp tp.allowTopics

/-- The rules; without any, those of the tenants. -/
def effectiveRules (M : Matchers) (p : SafetyPolicy) : List PolicyRule :=
  if p.rules ≠ [] then p.rules else legacyRules M p

/-- The decision when no rule matches. -/
def defaultPolicyDecision (p : SafetyPolicy) : PolicyDecision :=
  let dd := toLower (trimSpace p.defaultDecision)
  if dd = "allow" ∨ dd = "permit" then
    { decision := .allow, reason := "no matching rule — default policy: allow",
      ruleTier := normalizePolicyTier p.tier }
  else { decision := .deny, reason := "no matching rule — default policy: deny", ruleTier :=
    normalizePolicyTier p.tier }

/-! ## Evaluation -/

/-- The sliding windows of an evaluation: the limit of the licence, the checker, which says whether a
key's window is exceeded, and what its failure is taken for. -/
structure VelocityEnv where
  limit : ℤ
  checker : Option (String → String → VelocityConfig → Option Bool)
  failOpen : Bool

/-- No limit. -/
def unlimited : ℤ := -1

/-- Velocity clauses without a checker. -/
def unchecked : VelocityEnv := ⟨unlimited, none, true⟩

/-- The value of one component of a key. -/
def resolveKeyPart (key : String) (input : PolicyInput) : String :=
  if hasPrefix key "labels." then (input.labels.lookup (trimPrefix key "labels.")).getD ""
  else if key = "actor_id" then input.details.actorID
  else if key = "actor_type" then input.details.actorType
  else if key = "tenant" then input.tenant
  else if key = "topic" then input.topic
  else if key = "pack_id" then input.details.packID
  else if key = "capability" then input.details.capability
  else ""

/-- The components of a key, joined. -/
def VelocityConfig.resolveKey (v : VelocityConfig) (input : PolicyInput) : String :=
  if v.key = "" then ""
  else if contains v.key ":" then
    let parts := (split ':' v.key).map fun part => resolveKeyPart (trimSpace part) input
    if parts.contains "" then "" else join ':' parts
  else resolveKeyPart v.key input

/-- What decided. -/
inductive Verdict
  | rule (r : PolicyRule)
  | velocityUnavailable
  | default
deriving DecidableEq

section

variable (M : Matchers) (E : VelocityEnv)

/-- The loop of `evaluateRulesWithVelocity`, after `count` rules with a velocity clause, over windows
of any type. -/
def velocityLoop {σ : Type} (checker : Option (σ → String → String → VelocityConfig → Option Bool × σ))
    (limit : ℤ) (failOpen : Bool) (input : PolicyInput) : ℤ → List PolicyRule → σ → Verdict × σ
  | _, [], s => (.default, s)
  | count, rule :: rules, s =>
    let next := fun count => velocityLoop checker limit failOpen input count rules
    match rule.velocity with
    | none => if matchRule M rule.terms input then (.rule rule, s) else next count s
    | some v =>
      if limit ≠ unlimited ∧ count + 1 > limit then next (count + 1) s
      else if matchRule M rule.terms input = false then next (count + 1) s
      else
        match checker with
        | none => next (count + 1) s
        | some check =>
          if v.resolveKey input = "" then next (count + 1) s
          else
            match check s rule.id (v.resolveKey input) v with
            | (none, s) => if failOpen then next (count + 1) s else (.velocityUnavailable, s)
            | (some exceeded, s) => if exceeded then (.rule rule, s) else next (count + 1) s

/-- The loop as one evaluation meets it, where each answer of the checker is given. -/
def walkRules (input : PolicyInput) (count : ℤ) (rules : List PolicyRule) : Verdict :=
  (velocityLoop M (E.checker.map fun check (_ : Unit) id key v => (check id key v, ()))
    E.limit E.failOpen input count rules ()).1

theorem walkRules_step (input : PolicyInput) (count : ℤ) (rule : PolicyRule) (rules : List PolicyRule) :
    walkRules M E input count (rule :: rules) =
      match rule.velocity with
      | none => if matchRule M rule.terms input then .rule rule else walkRules M E input count rules
      | some v =>
        if E.limit ≠ unlimited ∧ count + 1 > E.limit then walkRules M E input (count + 1) rules
        else if matchRule M rule.terms input = false then walkRules M E input (count + 1) rules
        else
          match E.checker with
          | none => walkRules M E input (count + 1) rules
          | some check =>
            if v.resolveKey input = "" then walkRules M E input (count + 1) rules
            else
              match check rule.id (v.resolveKey input) v with
              | none => if E.failOpen then walkRules M E input (count + 1) rules else .velocityUnavailable
              | some exceeded =>
                if exceeded then .rule rule else walkRules M E input (count + 1) rules := by
  rw [walkRules, velocityLoop]
  cases rule.velocity with
  | none => exact apply_ite Prod.fst ..
  | some v =>
    cases hche : E.checker with
    | none => simp only [walkRules, hche, Option.map_none, apply_ite Prod.fst]
    | some check =>
      simp only [walkRules, hche, Option.map_some, apply_ite Prod.fst]
      rcases check rule.id (v.resolveKey input) v with _ | exceeded <;> simp only [apply_ite Prod.fst]

/-- How many velocity rules the licence lets count. -/
def effectiveVelocityRuleCount (rules : List PolicyRule) : ℕ :=
  let n := (rules.filter fun r => r.velocity.isSome).length
  if E.limit = 0 then 0
  else if E.limit = unlimited then n
  else if E.limit < 0 then min n 1
  else min n E.limit.toNat

/-- The loop of `Evaluate`, which does not look at velocity clauses. -/
def firstMatch (input : PolicyInput) (rules : List PolicyRule) : Verdict :=
  match rules.find? fun r => matchRule M r.terms input with
  | some r => .rule r
  | none => .default

/-- Which rule decides: `evaluateRulesWithVelocity` when velocity rules count, else `Evaluate`. -/
def verdict (p : SafetyPolicy) (input : PolicyInput) : Verdict :=
  if effectiveVelocityRuleCount E (effectiveRules M p) > 0 then walkRules M E input 0 (effectiveRules M p)
  else firstMatch M input (effectiveRules M p)

/-- The decision of a verdict. -/
def Verdict.decide (p : SafetyPolicy) : Verdict → PolicyDecision
  | .rule r => buildDecision r
  | .velocityUnavailable =>
    { decision := .requireApproval, reason := "velocity check unavailable", ruleTier := .global,
      approvalRequired := true }
  | .default => defaultPolicyDecision p

/-- The policy decision of `evaluate`: the verdict, and the tenant's MCP lists. -/
def policyDecision (p : SafetyPolicy) (input : PolicyInput) : PolicyDecision :=
  let d := (verdict M E p input).decide p
  match p.tenants.get input.tenant with
  | none => d
  | some tp =>
    match mcpAllowed M tp.mcp input.mcp with
    | none => d
    | some reason => { d with decision := .deny, reason := reason }

end

end Cordum.Policy
