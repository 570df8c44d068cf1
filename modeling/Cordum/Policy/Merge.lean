import Cordum.Policy.Rules
import Mathlib.Data.List.Nodup

/-!
# Merging policies

The copies of a policy, the normal form of its tiers and the merge of two policies, after
`core/infra/config/policy_merge.go`, which the kernel and the gateway share. A copy is a value here,
so a copy that only allocates is left out.
-/

namespace Cordum.Policy

open GoString

/-! ## Copies -/

/-- A rule, trimmed. -/
def clonePolicyRule (rule : PolicyRule) : PolicyRule :=
  { rule with
    id := trimSpace rule.id
    tier := trimSpace rule.tier
    selector := trimPolicySelector rule.selector
    decision := trimSpace rule.decision }

/-- `CloneOutputPolicyRules`, of one rule. -/
def cloneOutputPolicyRule (rule : OutputPolicyRule) : OutputPolicyRule :=
  { rule with
    id := trimSpace rule.id, severity := trimSpace rule.severity, decision := trimSpace rule.decision }

theorem cloneOutputPolicyRule_clone {rule : OutputPolicyRule} :
    cloneOutputPolicyRule (cloneOutputPolicyRule rule) = cloneOutputPolicyRule rule := by
  simp only [cloneOutputPolicyRule, trimSpace_trimSpace]

/-- `ClonePolicyTierDefaults`, of one of them. -/
def clonePolicyTierDefault (d : PolicyTierDefault) : PolicyTierDefault :=
  ⟨trimSpace d.tier, trimPolicySelector d.selector, trimSpace d.decision⟩

variable (p : SafetyPolicy)

/-- `CloneSafetyPolicy`; the input rules are copied as they are. -/
def cloneSafetyPolicy : SafetyPolicy :=
  { p with
    selector := trimPolicySelector p.selector
    rules := p.rules.map clonePolicyRule
    outputRules := p.outputRules.map cloneOutputPolicyRule
    tierDefaults := p.tierDefaults.map clonePolicyTierDefault }

/-! ## Tiers -/

/-- The tier of a rule that may leave it to its policy. -/
def ruleTier (policyTier tier : String) : Tier :=
  normalizePolicyTier (if trimSpace tier = "" then policyTier else tier)

/-- The selector of a rule of this tier, under that of its policy. -/
def ruleSelector (policySelector : PolicySelector) (tier : Tier)
    (selector : PolicySelector) : PolicySelector :=
  if tier = .global then {} else mergePolicySelector policySelector selector

/-- The default decision, moved to its tier. -/
def moveScopedDefaultDecision : SafetyPolicy :=
  let decision := trimSpace p.defaultDecision
  if decision = "" ∨ p.tier = Tier.global.text then { p with defaultDecision := decision }
  else { p with tierDefaults := p.tierDefaults ++ [⟨p.tier, p.selector, decision⟩], defaultDecision := "" }

/-- A default in its normal form, if it is one of a tier other than the global one. -/
def normalTierDefault (d : PolicyTierDefault) : Option PolicyTierDefault :=
  let decision := trimSpace d.decision
  let tier := normalizePolicyTier d.tier
  if decision = "" ∨ tier = .global then none
    else some ⟨tier.text, trimPolicySelector d.selector, decision⟩

/-- The defaults of tiers that are valid. -/
def normalizeTierDefaults : SafetyPolicy :=
  { p with tierDefaults := p.tierDefaults.filterMap normalTierDefault }

/-- A rule with its own tier and selector. -/
def PolicyRule.under (tier : String) (selector : PolicySelector) (rule : PolicyRule) : PolicyRule :=
  let t := ruleTier tier rule.tier
  { rule with tier := t.text, selector := ruleSelector selector t rule.selector }

/-- An input rule with its own tier and selector. -/
def InputPolicyRule.under (tier : String) (selector : PolicySelector)
    (rule : InputPolicyRule) : InputPolicyRule :=
  let t := ruleTier tier rule.tier
  { rule with tier := t.text, selector := ruleSelector selector t rule.selector }

/-- The tier and selector of the policy in its rules. -/
def applyPolicyTierMetadata : SafetyPolicy :=
  let tier := normalizePolicyTier p.tier
  let selector := trimPolicySelector p.selector
  let p := normalizeTierDefaults
      (moveScopedDefaultDecision { p with tier := tier.text, selector := selector })
  { p with
    rules := p.rules.map (PolicyRule.under tier.text selector)
    inputRules := p.inputRules.map (InputPolicyRule.under tier.text selector)
    selector := if tier = .global then {} else selector }

theorem applyPolicyTierMetadata_output :
    (applyPolicyTierMetadata p).outputPolicy = p.outputPolicy ∧
      (applyPolicyTierMetadata p).outputRules = p.outputRules := by
  unfold applyPolicyTierMetadata normalizeTierDefaults moveScopedDefaultDecision
  dsimp only
  split <;> exact ⟨rfl, rfl⟩

/-- A copy with its tiers. -/
def cloneSafetyPolicyWithTierMetadata : SafetyPolicy := applyPolicyTierMetadata (cloneSafetyPolicy p)

/-! ## Rules by id -/

section

variable {T : Type} (id : T → String)

/-- The map `seen` for the rules of the base: an id is at its last position. -/
def seenRules (base : List T) : String → Option ℕ :=
  base.zipIdx.foldl
    (fun seen r => if id r.1 ≠ "" then Function.update seen (id r.1) (some r.2) else seen) fun _ => none

/-- One turn of the loop over the added rules. -/
def mergeRule (s : (String → Option ℕ) × List T) (r : T) : (String → Option ℕ) × List T :=
  if id r = "" then (s.1, s.2 ++ [r])
  else
    match s.1 (id r) with
    | some idx => (s.1, s.2.set idx r)
    | none => (Function.update s.1 (id r) (some s.2.length), s.2 ++ [r])

/-- A rule replaces one of its id. -/
def mergeRulesByID (base add : List T) : List T :=
  if add.isEmpty then base else (add.foldl (mergeRule id) (seenRules id base, base)).2

end

/-! ## Tenants -/

/-- The map with the policy of a tenant set. -/
def TenantPolicies.set (m : TenantPolicies) (tenant : String) (tp : TenantPolicy) : TenantPolicies :=
  if h : tenant ∈ m.entries.map Prod.fst then
    ⟨m.entries.map fun e => if e.1 = tenant then (tenant, tp) else e, by
      have hkeys : (m.entries.map fun e => if e.1 = tenant then (tenant, tp) else e).map Prod.fst =
          m.entries.map Prod.fst := by
        rw [List.map_map]
        refine List.map_congr_left fun e _ => ?_
        by_cases he : e.1 = tenant
        · simp [he]
        · simp [he]
      rw [hkeys]
      exact m.nodup⟩
  else
    ⟨m.entries ++ [(tenant, tp)], by
      rw [List.map_append, List.map_singleton]
      exact List.nodup_append_comm.1 (List.nodup_cons.2 ⟨h, m.nodup⟩)⟩

/-- The lists, one after the other. -/
def mergeMCPPolicy (base extra : MCPPolicy) : MCPPolicy where
  allowServers := base.allowServers ++ extra.allowServers
  denyServers := base.denyServers ++ extra.denyServers
  allowTools := base.allowTools ++ extra.allowTools
  denyTools := base.denyTools ++ extra.denyTools
  allowResources := base.allowResources ++ extra.allowResources
  denyResources := base.denyResources ++ extra.denyResources
  allowActions := base.allowActions ++ extra.allowActions
  denyActions := base.denyActions ++ extra.denyActions

/-- The bound on concurrent jobs of `MergeTenantPolicies`. -/
def mergeMaxConcurrent (merged add : ℤ) : ℤ :=
  if add > 0 ∧ (merged = 0 ∨ add < merged) then add else merged

/-- The policies of one tenant. -/
def mergeTenantPolicy (merged add : TenantPolicy) : TenantPolicy where
  allowTopics := merged.allowTopics ++ add.allowTopics
  denyTopics := merged.denyTopics ++ add.denyTopics
  allowedRepoHosts := merged.allowedRepoHosts ++ add.allowedRepoHosts
  deniedRepoHosts := merged.deniedRepoHosts ++ add.deniedRepoHosts
  maxConcurrent := mergeMaxConcurrent merged.maxConcurrent add.maxConcurrent
  mcp := mergeMCPPolicy merged.mcp add.mcp

/-- One tenant of the second map. -/
def mergeTenant (out : TenantPolicies) (e : String × TenantPolicy) : TenantPolicies :=
  match out.get e.1 with
  | none => out.set e.1 e.2
  | some current => out.set e.1 (mergeTenantPolicy current e.2)

/-- The tenants of both. -/
def mergeTenantPolicies (base extra : TenantPolicies) : TenantPolicies :=
  extra.entries.foldl mergeTenant base

/-! ## Policies -/

/-- The policy is of the global tier, as `MergePolicies` ends with. -/
def SafetyPolicy.globalTier : SafetyPolicy := { p with tier := Tier.global.text, selector := {} }

/-- The output policies: enabled by any, with the first fail mode that is set. -/
def mergeOutputPolicy (out add : OutputPolicyConfig) : OutputPolicyConfig where
  enabled := out.enabled || add.enabled
  failMode := if trimSpace out.failMode = "" then trimSpace add.failMode else out.failMode

/-- `MergePolicies` of two policies, after their copies. -/
def mergeFields (out add : SafetyPolicy) : SafetyPolicy :=
  { out with
    version := if out.version = "" then add.version else out.version
    defaultTenant := if out.defaultTenant = "" then add.defaultTenant else out.defaultTenant
    defaultDecision :=
      if trimSpace out.defaultDecision = "" then trimSpace add.defaultDecision else out.defaultDecision
    requireHuman := if out.requireHuman = {} then add.requireHuman else out.requireHuman
    outputPolicy := mergeOutputPolicy out.outputPolicy add.outputPolicy
    rules := mergeRulesByID PolicyRule.id out.rules add.rules
    outputRules :=
      mergeRulesByID OutputPolicyRule.id out.outputRules (add.outputRules.map cloneOutputPolicyRule)
    inputRules := mergeRulesByID InputPolicyRule.id out.inputRules add.inputRules
    tierDefaults := out.tierDefaults ++ add.tierDefaults
    tenants := mergeTenantPolicies out.tenants add.tenants }

/-- `mergePolicies`. -/
def mergePolicies (base extra : Option SafetyPolicy) : Option SafetyPolicy :=
  match base, extra with
  | none, extra => extra.map fun p => (cloneSafetyPolicyWithTierMetadata p).globalTier
  | some base, none => some (cloneSafetyPolicyWithTierMetadata base).globalTier
  | some base, some extra =>
    some (mergeFields (cloneSafetyPolicyWithTierMetadata base).globalTier
      (cloneSafetyPolicyWithTierMetadata extra))

end Cordum.Policy
