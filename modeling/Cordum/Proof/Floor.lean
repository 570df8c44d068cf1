import Cordum.Policy.Walk

/-!
# The invariant floor

The invariant rules that block stand before all others in every section, so one that matches decides,
whatever the tiers of the policy hold. But a list of spellings tells which rules block, and `block`,
which the evaluation takes for a deny, is not on it.

* `floor_uncrossable_iff`: the floor holds against every policy exactly when a matching invariant is
  spelled as on the list.
-/

namespace Cordum.Policy

open GoString List

variable {K : KernelEnv} {inv : SafetyPolicy} {req : PolicyCheckRequest} {rule : PolicyRule}
  {M : Matchers} {field v : String}

/-! ## The floor holds -/

/-- An invariant that matches the request, and has no velocity clause. -/
def FloorRule (K : KernelEnv) (inv : SafetyPolicy) (req : PolicyCheckRequest) (rule : PolicyRule) : Prop :=
  rule ∈ inv.rules ∧ rule.velocity = none ∧ matchRule K.matchers rule.terms (policyInput K req)

theorem not_allows_of_floor {base : Option SafetyPolicy}
    (h : FloorRule K inv req rule) (hblo : isGlobalInvariantDeny rule.decision) :
    ¬ (checkPolicy K base (some inv) req).decision.Allows := by
  obtain ⟨hmem, hvel, hmt⟩ := h
  intro hall
  obtain ⟨p, hp, hvd⟩ := checkPolicy_allows hall
  obtain ⟨own, hrs⟩ := requestPolicy_rules hp
  rw [append_assoc] at hrs
  have hfrt : ∃ r ∈ blockingInvariants inv, r.velocity = none ∧
      matchRule K.matchers r.terms (policyInput K req) :=
    ⟨rule.globalised, mem_map_of_mem (mem_filter.2 ⟨hmem, hblo⟩), hvel, hmt⟩
  rcases verdict_floor hrs hfrt with hun | ⟨r, hr, hru⟩
  · rw [hun] at hvd
    exact hvd
  · rw [hru] at hvd
    exact not_allows_of_blockingInvariant hr hvd

/-! ## The floor is crossed -/

/-- The list of a value, if there is one. -/
def ownValue (v : String) : List String := if trimSpace v ≠ "" then [v] else []

/-- The MCP terms that admit a request, none without MCP labels. -/
def ownMCP (req : MCPRequest) : MCPPolicy where
  allowServers := ownValue req.server
  allowTools := ownValue req.tool
  allowResources := ownValue req.resource
  allowActions := ownValue req.action

/-- A rule that allows a request, of the section that judges it. -/
def openRule (req : PolicyCheckRequest) : PolicyRule where
  id := "open"
  decision := "allow"
  terms := if trimSpace req.topic = edgeActionTopic then { topics := [edgeActionTopic] }
    else { mcp := ownMCP (extractMCPRequest req.labels) }

theorem matchMCPField_own : matchMCPField M field v (ownValue v) [] = none := by
  unfold matchMCPField ownValue containsString
  by_cases hv : trimSpace v = ""
  · simp [hv]
  have hne : v ≠ "" := by
    rintro rfl
    exact hv trimSpace_empty
  simp [hne, M.equalFold_refl]

theorem mcpMatch_own {req : MCPRequest} : mcpMatch M (ownMCP req) req := by
  unfold mcpMatch mcpAllowed
  split
  · rfl
  · simp only [ownMCP, matchMCPField_own]
    rfl

theorem isMCPToolRule_own {req : MCPRequest} (h : rule.terms.mcp = ownMCP req) :
    isMCPToolRule rule = mcpUsed req := by
  unfold isMCPToolRule mcpUsed
  rw [h]
  have hown : ∀ v, (ownValue v).isEmpty = !decide (trimSpace v ≠ "") := by
    intro v
    unfold ownValue
    split_ifs with hv
    · simp [hv]
    · simp [hv]
  simp only [ownMCP, hown, isEmpty_nil, Bool.and_true, Bool.not_and, Bool.not_not]

theorem matchRule_open : matchRule K.matchers (openRule req).terms (policyInput K req) := by
  unfold openRule
  split_ifs with htop
  · -- the pattern has no special character
    have hpl : edgeActionTopic.toList.all (fun c => c ≠ '*' ∧ c ≠ '?' ∧ c ≠ '[' ∧ c ≠ '\\') := by
      decide +kernel
    have hgl : K.matchers.glob edgeActionTopic edgeActionTopic :=
      K.matchers.glob_self _ fun c hc => of_decide_eq_true (all_eq_true.1 hpl c hc)
    have htr : trimSpace edgeActionTopic = edgeActionTopic := by decide +kernel
    have hany : matchAnyTopic K.matchers [edgeActionTopic] (policyInput K req).topic := by
      have htop' : (policyInput K req).topic = edgeActionTopic := htop
      rw [matchAnyTopic, any_cons, matchTopic, htr, htop', hgl]
      rfl
    have hmcp := mcpMatch_none K.matchers (policyInput K req).mcp
    simp [matchRule, listed, labelsMatch, delegationPredicateMatch, evaluateDelegationMatch, hany, hmcp]
  · have hmcp : mcpMatch K.matchers (ownMCP (extractMCPRequest req.labels)) (policyInput K req).mcp :=
      mcpMatch_own
    simp [matchRule, listed, labelsMatch, delegationPredicateMatch, evaluateDelegationMatch, hmcp]

theorem inSection_open : inSection req (openRule req) := by
  unfold inSection
  by_cases htop : trimSpace req.topic = edgeActionTopic
  · have hed : isEdgeActionRule (openRule req) := by
      rw [openRule, if_pos htop]
      decide +kernel
    rw [if_pos htop, hed]
  · have hter : (openRule req).terms = { mcp := ownMCP (extractMCPRequest req.labels) } := if_neg htop
    have hed : isEdgeActionRule (openRule req) = false := by
      rw [isEdgeActionRule, hter]
      rfl
    have hmcp := isMCPToolRule_own (congrArg PolicyMatch.mcp hter)
    rw [if_neg htop, hed, hmcp]
    cases mcpUsed (extractMCPRequest req.labels) with
    | false | true => rfl

/-- With no blocking invariant that matches, a policy of one rule lets the request proceed. -/
theorem allows_of_open (htop : hasPrefix (trimSpace req.topic) "job.")
    (hno : ∀ rule, FloorRule K inv req rule → isGlobalInvariantDeny rule.decision = false) :
    (checkPolicy { K with velocity := unchecked } (some { rules := [openRule req] })
      (some inv) req).decision.Allows := by
  have htie : GlobalOnly { rules := [openRule req] } := by
    intro r hr
    rw [mem_singleton.1 hr]
    exact normalizePolicyTier_empty
  obtain ⟨p, hp, htns, hrs⟩ := requestPolicy_global htie inv req
  rw [filter_cons_of_pos inSection_open, filter_nil, map_cons, map_nil] at hrs
  -- the walk passes the blocking invariants and stops at the open rule
  have hfrt : (blockingInvariants inv).find? (fun r => r.velocity.isNone &&
      matchRule K.matchers r.terms (policyInput K req)) = none := by
    refine find?_eq_none.2 fun r hr hmt => ?_
    obtain ⟨rule, hru, rfl⟩ := mem_map.1 hr
    obtain ⟨hmem, hblo⟩ := mem_filter.1 hru
    rw [Bool.and_eq_true, Option.isNone_iff_eq_none] at hmt
    have hpas := hno rule ⟨hmem, hmt.1, hmt.2⟩
    rw [hpas] at hblo
    cases hblo
  have hop : ((openRule req).globalised.velocity.isNone &&
      matchRule K.matchers (openRule req).globalised.terms (policyInput K req)) := matchRule_open
  have hvd : verdict K.matchers unchecked p (policyInput K req) = .rule (openRule req).globalised := by
    rw [verdict_unchecked (by simp [hrs]), hrs, append_assoc, find?_append, hfrt,
      singleton_append, find?_cons, hop]
    rfl
  have hck : checkPolicy { K with velocity := unchecked } (some { rules := [openRule req] })
    (some inv) req = buildDecision (openRule req).globalised := by
    rw [checkPolicy_eq htop hp htns]
    exact congrArg (Verdict.decide p) hvd
  rw [hck]
  have hall : (normalizeDecision "allow").Allows := by decide +kernel
  exact hall

/-- **The floor is uncrossable.** -/
theorem floor_uncrossable_iff (K : KernelEnv) (inv : SafetyPolicy) (req : PolicyCheckRequest) :
    (∀ (base : Option SafetyPolicy) (velocity : VelocityEnv),
      (∃ rule, FloorRule K inv req rule ∧ ¬ (normalizeDecision rule.decision).Allows) →
        ¬ (checkPolicy { K with velocity := velocity } base (some inv) req).decision.Allows) ↔
    (hasPrefix (trimSpace req.topic) "job." = true →
      (∃ rule, FloorRule K inv req rule ∧ ¬ (normalizeDecision rule.decision).Allows) →
        ∃ rule, FloorRule K inv req rule ∧ isGlobalInvariantDeny rule.decision = true) := by
  constructor
  · intro hhd htop hflr
    by_contra hno
    refine hhd _ _ hflr (allows_of_open htop fun rule hru => ?_)
    by_contra hblo
    exact hno ⟨rule, hru, by simpa using hblo⟩
  · intro hcd base velocity hflr
    by_cases htop : hasPrefix (trimSpace req.topic) "job."
    · obtain ⟨rule, hru, hblo⟩ := hcd htop hflr
      exact not_allows_of_floor hru hblo
    -- the request is refused before any rule is looked at
    unfold checkPolicy
    split
    · exact id
    split_ifs with hemp
    · exact id
    · exact id
    · simp_all

/-- A bundle of invariants with one rule, spelled `block`, that matches every request. -/
def blockInvariants : SafetyPolicy := { rules := [{ id := "floor", decision := "block" }] }

/-- An open rule crosses the floor. -/
theorem block_floor_crossed :
    let req : PolicyCheckRequest := { topic := "job.default" }
    (∃ rule, FloorRule quietKernel blockInvariants req rule ∧ normalizeDecision rule.decision = .deny) ∧
      (checkPolicy quietKernel (some { rules := [{ id := "open", decision := "allow" }] })
        (some blockInvariants) req).decision = .allow :=
  ⟨⟨{ id := "floor", decision := "block" },
    ⟨mem_singleton.2 rfl, rfl, by decide +kernel⟩, by decide +kernel⟩, by decide +kernel⟩

end Cordum.Policy
