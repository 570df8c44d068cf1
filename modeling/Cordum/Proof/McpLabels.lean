import Cordum.Policy.Walk

/-!
# MCP labels and denies

A request that names an MCP server, tool, resource or action is judged by the invariants and the rules
with MCP terms, and by no other rule of the policy. So a caller who adds such a label leaves a plain
rule of the policy behind, but not one of the invariants, which are in every section.

* `mcp_labels_escape_iff`: from which place in the merged policy a rule can be escaped.
-/

namespace Cordum.Policy

open GoString List PolicyRule PolicyCheckRequest Option

/-- The labels of an MCP request. -/
def mcpKeys : List String := ["mcp.server", "mcp.tool", "mcp.resource", "mcp.action"]

/-- A match without MCP, label, allow-list and threshold terms. -/
structure PolicyMatch.Plain (m : PolicyMatch) : Prop where
  labels : m.labels = []
  labelAllowlist : m.labelAllowlist = []
  labelThreshold : m.labelThreshold = []
  mcp : m.mcp = {}

/-- The request with more labels. -/
def PolicyCheckRequest.withLabels (req : PolicyCheckRequest) (labels : Labels) : PolicyCheckRequest :=
  { req with labels := labels ++ req.labels }

/-- A request that is no MCP request and carries none of its labels. -/
structure PolicyCheckRequest.NoMCP (req : PolicyCheckRequest) : Prop where
  unused : mcpUsed (extractMCPRequest req.labels) = false
  absent : ∀ key ∈ mcpKeys, req.labels.lookup key = none

/-- Labels of MCP requests. -/
def McpLabels (labels : Labels) : Prop := ∀ kv ∈ labels, kv.1 ∈ mcpKeys

/-- Where in the merged policy a rule is listed first. -/
inductive Origin
  | floor
  | policy
  | rest
deriving DecidableEq

/-- Where a rule of the merged policy comes from. -/
def origin (base : SafetyPolicy) (inv : Option SafetyPolicy) (rule : PolicyRule) : Origin :=
  if rule ∈ blockingInvariants (inv.getD {}) then .floor
  else if rule ∈ base.rules.map PolicyRule.globalised then .policy
  else .rest

/-- The rule, which is one of the merged policy, denies the request. -/
structure DeniedBy (K : KernelEnv) (base : SafetyPolicy) (inv : Option SafetyPolicy)
    (req : PolicyCheckRequest) (rule : PolicyRule) : Prop where
  topic : hasPrefix (trimSpace req.topic) "job."
  listed : rule ∈ mergedRules base inv
  denies : normalizeDecision rule.decision = .deny
  decides : ∃ p, requestPolicy (some base) inv req = some p ∧
    verdict K.matchers K.velocity p (policyInput K req) = .rule rule

/-- The request is allowed by a rule listed after the given one, or by the default. -/
def Escapes (K : KernelEnv) (base : SafetyPolicy) (inv : Option SafetyPolicy)
    (req : PolicyCheckRequest) (rule : PolicyRule) :
    Prop :=
  (checkPolicy K (some base) inv req).decision.Allows ∧ ∃ p, requestPolicy (some base) inv req = some p ∧
    (verdict K.matchers K.velocity p (policyInput K req) = .default ∨
      ∃ later, verdict K.matchers K.velocity p (policyInput K req) = .rule later ∧
        (mergedRules base inv).idxOf rule < (mergedRules base inv).idxOf later)

variable {K : KernelEnv} {base p : SafetyPolicy} {inv : Option SafetyPolicy}
  {req : PolicyCheckRequest} {labels : Labels}
  {rule x later : PolicyRule} {key : String} {v : VelocityConfig}

/-! ## What the labels leave alone -/

theorem lookup_withLabels (req : PolicyCheckRequest) (h : McpLabels labels) (hkey : key ∉ mcpKeys) :
    (req.withLabels labels).labels.lookup key = req.labels.lookup key := by
  have hno : labels.lookup key = none := by
    refine lookup_eq_none_iff.2 fun kv hkv => ?_
    have hne : key ≠ kv.1 := fun heq => hkey (heq ▸ h kv hkv)
    simpa using hne
  rw [withLabels, lookup_append, hno, none_or]

/-- The labels change what is read of the MCP request, and nothing else. -/
theorem policyInput_withLabels (h : McpLabels labels) : policyInput K (req.withLabels labels) =
    { policyInput K req with
      labels := (req.withLabels labels).labels
      mcp := extractMCPRequest (req.withLabels labels).labels } := by
  have hsec : secretsPresent K.matchers (req.withLabels labels).details (req.withLabels labels).labels =
      secretsPresent K.matchers req.details req.labels := by
    rw [secretsPresent, secretsPresent, lookup_withLabels req h (by decide)]
    rfl
  have hdel : delegationContextFromLabels (req.withLabels labels).labels =
      delegationContextFromLabels req.labels := by
    simp only [delegationContextFromLabels, lookup_withLabels req h
      (show "_delegation.depth" ∉ mcpKeys by decide),
      lookup_withLabels req h (show "_delegation.issuer_chain" ∉ mcpKeys by decide),
      lookup_withLabels req h (show "_delegation.issuer" ∉ mcpKeys by decide),
      lookup_withLabels req h (show "_delegation.scope" ∉ mcpKeys by decide)]
  rw [policyInput, hsec, hdel]
  rfl

/-- **A plain rule matches with the labels as without them.** -/
theorem matchRule_plain {m : PolicyMatch} (hm : m.Plain) (h : McpLabels labels) :
    matchRule K.matchers m (policyInput K (req.withLabels labels)) =
      matchRule K.matchers m (policyInput K req) := by
  rw [policyInput_withLabels h]
  simp only [matchRule, hm.labels, hm.labelAllowlist, hm.labelThreshold, hm.mcp, mcpMatch_none,
    labelsMatch, isEmpty_nil, Bool.true_or]

theorem resolveKeyPart_withLabels (h : McpLabels labels) (hreq : req.NoMCP)
    (hkey : resolveKeyPart key (policyInput K req) ≠ "") :
    resolveKeyPart key (policyInput K (req.withLabels labels)) =
      resolveKeyPart key (policyInput K req) := by
  unfold resolveKeyPart at hkey ⊢
  by_cases hlab : hasPrefix key "labels."
  · rw [if_pos hlab] at hkey
    rw [if_pos hlab, if_pos hlab]
    -- a key that the request resolves is none of the new labels
    by_cases hmem : trimPrefix key "labels." ∈ mcpKeys
    · have habs : (policyInput K req).labels.lookup (trimPrefix key "labels.") = none := hreq.absent _ hmem
      rw [habs] at hkey
      exact absurd rfl hkey
    · exact congrArg (getD · "") (lookup_withLabels req h hmem)
  · rw [if_neg hlab, if_neg hlab]
    rfl

theorem resolveKey_withLabels (h : McpLabels labels) (hreq : req.NoMCP)
    (hkey : v.resolveKey (policyInput K req) ≠ "") :
    v.resolveKey (policyInput K (req.withLabels labels)) = v.resolveKey (policyInput K req) := by
  unfold VelocityConfig.resolveKey at hkey ⊢
  by_cases hemp : v.key = ""
  · rw [if_pos hemp, if_pos hemp]
  rw [if_neg hemp] at hkey
  rw [if_neg hemp, if_neg hemp]
  by_cases hcol : contains v.key ":"
  · rw [if_pos hcol] at hkey
    rw [if_pos hcol, if_pos hcol]
    have hpar : ((split ':' v.key).map fun part => resolveKeyPart (trimSpace part)
        (policyInput K req)).contains "" = false := by
      by_contra hcon
      rw [if_pos (by simpa using hcon)] at hkey
      exact hkey rfl
    have hsm : ((split ':' v.key).map fun part =>
          resolveKeyPart (trimSpace part) (policyInput K (req.withLabels labels))) =
        (split ':' v.key).map fun part => resolveKeyPart (trimSpace part) (policyInput K req) := by
      refine map_congr_left fun part hpr => resolveKeyPart_withLabels h hreq fun hno => ?_
      have hmem : "" ∈ (split ':' v.key).map fun part => resolveKeyPart
          (trimSpace part) (policyInput K req) :=
        mem_map.2 ⟨part, hpr, hno⟩
      rw [← contains_iff_mem, hpar] at hmem
      cases hmem
    rw [hsm]
  · rw [if_neg hcol] at hkey
    rw [if_neg hcol, if_neg hcol]
    exact resolveKeyPart_withLabels h hreq hkey

/-- **A plain rule fires with the labels as without them.** -/
theorem Fires.plain {count : ℤ} {E : VelocityEnv} (hm : rule.terms.Plain)
    (h : McpLabels labels) (hreq : req.NoMCP) (hfi : Fires K.matchers E (policyInput K req) count rule) :
    Fires K.matchers E (policyInput K (req.withLabels labels)) count rule := by
  refine ⟨(matchRule_plain hm h).trans hfi.1, fun v hv => ?_⟩
  obtain ⟨hlim, hkey, hck⟩ := hfi.2 v hv
  rw [resolveKey_withLabels h hreq hkey]
  exact ⟨hlim, hkey, hck⟩

/-! ## What cannot be escaped -/

theorem rules_of_requestPolicy (hbs : GlobalOnly base) (hp : requestPolicy (some base) inv req = some p) :
    p.rules = blockingInvariants (inv.getD {}) ++ (base.rules.filter (inSection req)).map globalised ++
      otherInvariants (inv.getD {}) := by
  rw [requestPolicy_getD] at hp
  obtain ⟨p', hp', -, hrs⟩ := requestPolicy_global hbs (inv.getD {}) req
  rw [hp] at hp'
  cases hp'
  exact hrs

theorem mem_of_mem_section (h : x ∈ (base.rules.filter (inSection req)).map globalised) :
    x ∈ base.rules.map globalised := by
  obtain ⟨r, hr, rfl⟩ := mem_map.1 h
  exact mem_map_of_mem (mem_filter.1 hr).1

theorem notMem_of_origin_rest (h : origin base inv rule = .rest) :
    rule ∉ blockingInvariants (inv.getD {}) ∧ rule ∉ base.rules.map globalised := by
  unfold origin at h
  split_ifs at h with hflr hpol
  exact ⟨hflr, hpol⟩

theorem not_escapes_of_stops (front : List PolicyRule)
    (hstp : ∀ p, requestPolicy (some base) inv req = some p →
      verdict K.matchers K.velocity p (policyInput K req) = .velocityUnavailable ∨
        ∃ x ∈ front, verdict K.matchers K.velocity p (policyInput K req) = .rule x)
    (hfrt : ∀ x ∈ front, (mergedRules base inv).idxOf rule < (mergedRules base inv).idxOf x →
      ¬ (normalizeDecision x.decision).Allows) : ¬ Escapes K base inv req rule := by
  rintro ⟨hall, p, hp, hesc⟩
  obtain ⟨p', hp', hvd⟩ := checkPolicy_allows hall
  rw [hp] at hp'
  cases hp'
  rcases hstp p hp with hun | ⟨x, hx, hru⟩
  · rw [hun] at hesc
    rcases hesc with hdef | ⟨later, hlat, -⟩
    · cases hdef
    · cases hlat
  · rw [hru] at hesc hvd
    rcases hesc with hdef | ⟨later, hlat, hidx⟩
    · cases hdef
    · cases hlat
      exact hfrt x hx hidx hvd

theorem DeniedBy.spec (h : DeniedBy K base inv req rule) :
    rule.globalised = rule ∧ matchRule K.matchers rule.terms (policyInput K req) ∧
      ∃ p, requestPolicy (some base) inv req = some p ∧ rule ∈ p.rules ∧
        verdict K.matchers K.velocity p (policyInput K req) = .rule rule := by
  obtain ⟨p, hp, hvd⟩ := h.decides
  have hsf : rule.globalised = rule := by
    have hlst := h.listed
    rw [mergedRules, blockingInvariants, otherInvariants, ← map_append, ← map_append] at hlst
    obtain ⟨r, -, rfl⟩ := mem_map.1 hlst
    rfl
  obtain ⟨hmem, hmt⟩ := verdict_rule hvd
  refine ⟨hsf, hmt, p, hp, ?_, hvd⟩
  unfold effectiveRules at hmem
  split_ifs at hmem with hne
  · exact hmem
  · rw [← hsf] at hmem
    exact absurd hmem globalised_notMem_legacyRules

/-- A rule of the floor that denies: no verdict with the labels allows. -/
theorem no_escape_floor (hbs : GlobalOnly base) (hm : rule.terms.Plain)
    (h : McpLabels labels) (hreq : req.NoMCP)
    (hden : DeniedBy K base inv req rule) (hor : origin base inv rule = .floor) :
    ¬ Escapes K base inv (req.withLabels labels) rule := by
  obtain ⟨-, hmt, p, hp, -, hvd⟩ := hden.spec
  have hmem : rule ∈ blockingInvariants (inv.getD {}) := by
    unfold origin at hor
    split_ifs at hor with hmem
    exact hmem
  have hrs := rules_of_requestPolicy hbs hp
  rw [append_assoc] at hrs
  refine not_escapes_of_stops (blockingInvariants (inv.getD {})) (fun p' hp' => ?_)
    fun x hx _ => not_allows_of_blockingInvariant hx
  have hrs' := rules_of_requestPolicy hbs hp'
  rw [append_assoc] at hrs'
  exact verdict_front hrs hrs' hmem (fun _ => Fires.plain hm h hreq) ((matchRule_plain hm h).trans hmt) hvd

/-- An invariant behind the policy that denies stops the walk. -/
theorem no_escape_rest (hbs : GlobalOnly base) (hm : rule.terms.Plain) (h : McpLabels labels)
    (hden : DeniedBy K base inv req rule) (hor : origin base inv rule = .rest)
    (hvl : ∀ v, rule.velocity = some v → v.resolveKey (policyInput K req) = "") :
    ¬ Escapes K base inv (req.withLabels labels) rule := by
  obtain ⟨-, hmt, p, hp, hmem, hvd⟩ := hden.spec
  have hmt' := (matchRule_plain hm h).trans hmt
  obtain ⟨hflr, hpol⟩ := notMem_of_origin_rest hor
  have hrs : rule ∈ otherInvariants (inv.getD {}) := by
    rw [rules_of_requestPolicy hbs hp] at hmem
    rcases mem_append.1 hmem with hmem | hmem
    · rcases mem_append.1 hmem with hmem | hmem
      · exact absurd hmem hflr
      · exact absurd (mem_of_mem_section hmem) hpol
    · exact hmem
  obtain ⟨before, after, hsp, hfst⟩ := eq_append_cons_of_mem hrs
  let front := blockingInvariants (inv.getD {}) ++
    (base.rules.filter (inSection (req.withLabels labels))).map globalised ++ before
  let listed := blockingInvariants (inv.getD {}) ++ base.rules.map globalised ++ before
  -- the walk stops at the rule or before it
  refine not_escapes_of_stops (front ++ [rule]) (fun p' hp' => ?_) (fun x hx hidx => ?_)
  · have hrs' : p'.rules = front ++ [rule] ++ after := by
      rw [rules_of_requestPolicy hbs hp', hsp]
      simp only [front, append_assoc, singleton_append]
    have hin : rule ∈ front ++ [rule] := mem_append_right _ (mem_singleton.2 rfl)
    cases hvel : rule.velocity with
    | none => exact verdict_floor hrs' ⟨rule, hin, hvel, hmt'⟩
    | some v =>
      -- a rule whose window has no name decides only where no walk looks at windows
      have hlim : K.velocity.limit = 0 := by
        by_contra hlim
        rw [verdict, effectiveRules_of_ne_nil (ne_nil_of_mem hmem),
          if_pos (effectiveVelocityRuleCount_pos_iff.2 ⟨hlim, velocityCount_pos hmem hvel⟩)] at hvd
        obtain ⟨-, later, -, hfi⟩ := fires_of_walkRules hvd
        exact (hfi.2 v hvel).2.1 (hvl v hvel)
      have hne' : p'.rules ≠ [] := by
        rw [hrs']
        exact append_ne_nil_of_left_ne_nil (ne_nil_of_mem hin) _
      rw [verdict_unlicensed hlim hne', hrs']
      exact .inr (firstMatch_floor ⟨rule, hin, hmt'⟩)
  · -- and what stands there is not listed behind the rule
    have hmrg : mergedRules base inv = listed ++ rule :: after := by
      rw [mergedRules, hsp]
      simp only [listed, append_assoc]
    have hnot : rule ∉ listed := by
      simp only [listed, mem_append, not_or]
      exact ⟨⟨hflr, hpol⟩, hfst⟩
    have hsf : (mergedRules base inv).idxOf rule = listed.length := by
      rw [hmrg, idxOf_append_of_notMem hnot, idxOf_cons_self, Nat.add_zero]
    rcases mem_append.1 hx with hx | hx
    · have hlst : x ∈ listed := by
        simp only [front, listed, mem_append] at hx ⊢
        exact hx.imp_left (Or.imp_right mem_of_mem_section)
      have hlt := idxOf_lt_length_iff.2 hlst
      rw [hsf, hmrg, idxOf_append_of_mem hlst] at hidx
      omega
    · rw [mem_singleton.1 hx] at hidx
      omega

/-! ## What can be escaped -/

/-- A rule that allows a server. -/
def openServer : PolicyRule :=
  { id := "open", decision := "allow", terms := { mcp := { allowServers := ["x"] } } }

/-- A rule with a velocity clause. -/
def countedServer : PolicyRule where
  id := "counted"
  decision := "deny"
  velocity := some ⟨1, 1, "tenant"⟩
  terms := { mcp := { denyServers := ["x"] } }

/-- A rule that allows everything. -/
def fallback : PolicyRule := { id := "fallback", decision := "allow" }

/-- The label that names the server. -/
def serverLabel : Labels := [("mcp.server", "x")]

theorem serverLabel_mcp : McpLabels serverLabel := by
  intro kv hkv
  rw [mem_singleton.1 hkv]
  decide

theorem server_withLabels : (extractMCPRequest (req.withLabels serverLabel).labels).server = "x" := by
  have htr : trimSpace "x" = "x" := by decide +kernel
  simp [extractMCPRequest, withLabels, serverLabel, pickLabel, htr]

theorem mcpUsed_withLabels : mcpUsed (extractMCPRequest (req.withLabels serverLabel).labels) := by
  have htr : trimSpace "x" ≠ "" := by decide +kernel
  rw [mcpUsed, server_withLabels]
  simp [htr]

theorem inSection_noMCP (hreq : req.NoMCP) (hedge : trimSpace req.topic ≠ edgeActionTopic) :
    inSection req rule = (!isEdgeActionRule rule && !isMCPToolRule rule) := by
  rw [inSection, if_neg hedge, hreq.unused]
  rfl

theorem inSection_server (hedge : trimSpace req.topic ≠ edgeActionTopic) :
    inSection (req.withLabels serverLabel) rule = (!isEdgeActionRule rule && isMCPToolRule rule) := by
  have hedge' : trimSpace (req.withLabels serverLabel).topic ≠ edgeActionTopic := hedge
  rw [inSection, if_neg hedge', mcpUsed_withLabels]
  rfl

theorem PolicyMatch.Plain.not_mcpToolRule (hm : rule.terms.Plain) : isMCPToolRule rule = false := by
  rw [isMCPToolRule, hm.mcp]
  rfl

theorem escapes_of_verdict (htop : hasPrefix (trimSpace req.topic) "job.")
    (hp : requestPolicy (some base) inv req = some p) (htns : p.tenants = {})
    (hvd : verdict K.matchers K.velocity p (policyInput K req) = .rule later)
    (hall : (normalizeDecision later.decision).Allows)
    (hidx : (mergedRules base inv).idxOf rule < (mergedRules base inv).idxOf later) :
    Escapes K base inv req rule := by
  refine ⟨?_, p, hp, .inr ⟨later, hvd, hidx⟩⟩
  rw [checkPolicy_eq htop hp htns, hvd]
  exact hall

theorem matchRule_openServer (K : KernelEnv) (req : PolicyCheckRequest) :
    matchRule K.matchers openServer.terms (policyInput K (req.withLabels serverLabel)) := by
  have hser : (policyInput K (req.withLabels serverLabel)).mcp.server = "x" := server_withLabels
  have hmcp : mcpMatch K.matchers openServer.terms.mcp
      (policyInput K (req.withLabels serverLabel)).mcp := by
    simp [mcpMatch, mcpAllowed, matchMCPField, containsString, openServer, hser, K.matchers.equalFold_refl]
  rw [matchRule, hmcp]
  simp [openServer, listed, labelsMatch, delegationPredicateMatch, evaluateDelegationMatch]

theorem matchRule_countedServer (K : KernelEnv) (req : PolicyCheckRequest) :
    matchRule K.matchers countedServer.globalised.terms
      (policyInput K (req.withLabels serverLabel)) = false := by
  have hser : (policyInput K (req.withLabels serverLabel)).mcp.server = "x" := server_withLabels
  have hus : mcpUsed (policyInput K (req.withLabels serverLabel)).mcp := mcpUsed_withLabels
  have hmcp : mcpMatch K.matchers countedServer.terms.mcp
      (policyInput K (req.withLabels serverLabel)).mcp = false := by
    simp [mcpMatch, mcpAllowed, hus, matchMCPField, containsString, countedServer, hser,
      K.matchers.equalFold_refl]
  have hter : countedServer.globalised.terms = countedServer.terms := rfl
  rw [hter, matchRule, hmcp, Bool.and_false]

theorem matchRule_fallback (K : KernelEnv) (req : PolicyCheckRequest) :
    matchRule K.matchers fallback.globalised.terms (policyInput K req) := by
  have hmcp := mcpMatch_none K.matchers (policyInput K req).mcp
  simp [matchRule, fallback, globalised, listed, labelsMatch, delegationPredicateMatch,
    evaluateDelegationMatch, hmcp]

/-- Policies under which the rule denies the request, and lets it through once it names a server. -/
def EscapedFrom (K : KernelEnv) (req : PolicyCheckRequest) (rule : PolicyRule) (place : Origin) : Prop :=
  ∃ base inv velocity, GlobalOnly base ∧ origin base inv rule = place ∧
    DeniedBy { K with velocity := velocity } base inv req rule ∧
    Escapes { K with velocity := velocity } base inv (req.withLabels serverLabel) rule

section

variable (hsf : rule.globalised = rule) (hm : rule.terms.Plain) (hreq : req.NoMCP)
  (hedge : trimSpace req.topic ≠ edgeActionTopic) (htop : hasPrefix (trimSpace req.topic) "job.")
  (hmt : matchRule K.matchers rule.terms (policyInput K req))
  (hdn : normalizeDecision rule.decision = .deny)

include hsf hm hreq hedge htop hmt hdn

/-- **A rule of the policy can be escaped**: a rule for the server, behind it, decides. -/
theorem escape_policy (hsec : isEdgeActionRule rule → isGlobalInvariantDeny rule.decision = false) :
    EscapedFrom K req rule .policy := by
  -- a rule that also names the edge topic judges the request as an invariant only
  let inv : SafetyPolicy := { rules := if isEdgeActionRule rule then [rule] else [] }
  let base : SafetyPolicy := { rules := [rule, openServer] }
  have hbs : GlobalOnly base := by
    intro r hr
    rcases mem_cons.1 hr with rfl | hr
    · rw [← hsf]
      exact show normalizePolicyTier "global" = .global by decide +kernel
    · rw [mem_singleton.1 hr]
      exact normalizePolicyTier_empty
  have hblo : blockingInvariants inv = [] := by
    by_cases hru : isEdgeActionRule rule
    · simp [blockingInvariants, inv, hsec hru]
    · simp [blockingInvariants, inv, hru]
  have hoth : otherInvariants inv = if isEdgeActionRule rule then [rule] else [] := by
    by_cases hru : isEdgeActionRule rule
    · simp [otherInvariants, inv, hru, hsec hru, hsf]
    · simp [otherInvariants, inv, hru]
  have hmrg : mergedRules base (some inv) =
      rule :: openServer.globalised :: if isEdgeActionRule rule then [rule] else [] := by
    rw [mergedRules, getD_some, hblo, hoth]
    simp [base, hsf]
  have hne : rule ≠ openServer.globalised := by
    rintro rfl
    exact absurd hm.mcp (by decide)
  obtain ⟨p, hp, htns, hrs⟩ := requestPolicy_global hbs inv req
  obtain ⟨p', hp', htns', hrs'⟩ := requestPolicy_global hbs inv (req.withLabels serverLabel)
  have hser : isEdgeActionRule openServer = false ∧ isMCPToolRule openServer := by decide
  have hvw : p.rules = [rule] := by
    rw [hrs, hblo, hoth]
    simp only [base, filter_cons, inSection_noMCP hreq hedge, hm.not_mcpToolRule, hser]
    cases isEdgeActionRule rule with
    | false => simp [hsf]
    | true => simp
  have hvw' : p'.rules = openServer.globalised :: if isEdgeActionRule rule then [rule] else [] := by
    rw [hrs', hblo, hoth]
    simp [base, inSection_server hedge, hm.not_mcpToolRule, hser]
  refine ⟨base, some inv, ⟨0, none, true⟩, hbs, ?_, ⟨htop, ?_, hdn, p, hp, ?_⟩, ?_⟩
  · rw [origin, getD_some, hblo, if_neg not_mem_nil, if_pos]
    exact mem_map.2 ⟨rule, mem_cons_self .., hsf⟩
  · rw [hmrg]
    exact mem_cons_self ..
  · have hvd : verdict K.matchers ⟨0, none, true⟩ p (policyInput K req) = .rule rule := by
      rw [verdict_unlicensed rfl (by simp [hvw]), hvw, firstMatch, find?_cons, hmt]
    exact hvd
  · have hvd : verdict K.matchers ⟨0, none, true⟩ p' (policyInput K (req.withLabels serverLabel)) =
        .rule openServer.globalised := by
      rw [verdict_unlicensed rfl (by simp [hvw']), hvw', firstMatch, find?_cons,
        show matchRule _ openServer.globalised.terms _ = true from matchRule_openServer K req]
    refine escapes_of_verdict htop hp' htns' hvd (by decide +kernel) ?_
    rw [hmrg, idxOf_cons_self, idxOf_cons_ne _ hne]
    exact Nat.succ_pos _

/-- **A counted rule behind the policy can be escaped**: a rule for the server uses up the licence. -/
theorem escape_counted (hre : isGlobalInvariantDeny rule.decision = false)
    (hvel : rule.velocity = some v) (hkey : v.resolveKey (policyInput K req) ≠ "") :
    EscapedFrom K req rule .rest := by
  let inv : SafetyPolicy := { rules := [rule, fallback] }
  let base : SafetyPolicy := { rules := [countedServer] }
  let E : VelocityEnv := ⟨1, some fun _ _ _ => some true, true⟩
  have hbs : GlobalOnly base := by
    intro r hr
    rw [mem_singleton.1 hr]
    exact normalizePolicyTier_empty
  have hfal : isGlobalInvariantDeny fallback.decision = false := by decide +kernel
  have hblo : blockingInvariants inv = [] := by simp [blockingInvariants, inv, hre, hfal]
  have hoth : otherInvariants inv = [rule, fallback.globalised] := by
    simp [otherInvariants, inv, hre, hfal, hsf]
  have hmrg : mergedRules base (some inv) = [countedServer.globalised, rule, fallback.globalised] := by
    rw [mergedRules, getD_some, hblo, hoth]
    simp [base]
  have hcou : rule ≠ countedServer.globalised := by
    rintro rfl
    exact absurd hm.mcp (by decide)
  have hls : rule ≠ fallback.globalised := by
    rintro rfl
    cases hvel
  obtain ⟨p, hp, htns, hrs⟩ := requestPolicy_global hbs inv req
  obtain ⟨p', hp', htns', hrs'⟩ := requestPolicy_global hbs inv (req.withLabels serverLabel)
  have hser : isEdgeActionRule countedServer = false ∧ isMCPToolRule countedServer := by decide
  have hvw : p.rules = [rule, fallback.globalised] := by
    rw [hrs, hblo, hoth]
    simp [base, inSection_noMCP hreq hedge, hser]
  have hvw' : p'.rules = [countedServer.globalised, rule, fallback.globalised] := by
    rw [hrs', hblo, hoth]
    simp [base, inSection_server hedge, hser]
  refine ⟨base, some inv, E, hbs, ?_, ⟨htop, ?_, hdn, p, hp, ?_⟩, ?_⟩
  · rw [origin, getD_some, hblo, if_neg not_mem_nil]
    simpa [base] using hcou
  · rw [hmrg]
    simp
  · have hvd : verdict K.matchers E p (policyInput K req) = .rule rule := by
      have hpos : effectiveVelocityRuleCount E p.rules > 0 :=
        effectiveVelocityRuleCount_pos_iff.2
          ⟨by decide, velocityCount_pos (by rw [hvw]; exact mem_cons_self ..) hvel⟩
      rw [verdict, effectiveRules_of_ne_nil (by simp [hvw]), if_pos hpos, hvw]
      simp [walkRules_step, hvel, hmt, hkey, E]
    exact hvd
  · have hvd : verdict K.matchers E p' (policyInput K (req.withLabels serverLabel)) =
        .rule fallback.globalised := by
      have hpos : effectiveVelocityRuleCount E p'.rules > 0 :=
        effectiveVelocityRuleCount_pos_iff.2
          ⟨by decide, velocityCount_pos (by rw [hvw']; exact mem_cons_self ..) rfl⟩
      have hden := matchRule_countedServer K req
      have hop := matchRule_fallback K (req.withLabels serverLabel)
      rw [verdict, effectiveRules_of_ne_nil (by simp [hvw']), if_pos hpos, hvw']
      -- the first rule is counted though it does not match, and the second one is past the limit
      have hfst : countedServer.globalised.velocity = some ⟨1, 1, "tenant"⟩ := rfl
      have hls' : fallback.globalised.velocity = none := rfl
      simp [walkRules_step, hfst, hden, hvel, hls', hop, E, unlimited]
    refine escapes_of_verdict htop hp' htns' hvd (by decide +kernel) ?_
    have hdis : countedServer.globalised ≠ fallback.globalised := by decide
    rw [hmrg, idxOf_cons_ne _ hcou.symm, idxOf_cons_self, idxOf_cons_ne _ hdis, idxOf_cons_ne _ hls]
    omega

end

/-- **MCP labels are no escape** from a plain rule that denies, when it is a blocking invariant, or
another one that is not counted; from any other place it can be escaped. -/
theorem mcp_labels_escape_iff (K : KernelEnv) {rule : PolicyRule} (hm : rule.terms.Plain)
    {req : PolicyCheckRequest}
    (hreq : req.NoMCP) (hedge : trimSpace req.topic ≠ edgeActionTopic) (place : Origin)
    (hdenied : ∃ base inv velocity, GlobalOnly base ∧ origin base inv rule = place ∧
      DeniedBy { K with velocity := velocity } base inv req rule) :
    (∀ base inv velocity labels, GlobalOnly base → origin base inv rule = place → McpLabels labels →
      DeniedBy { K with velocity := velocity } base inv req rule →
        ¬ Escapes { K with velocity := velocity } base inv (req.withLabels labels) rule) ↔
    (place = .floor ∨
      place = .rest ∧ ∀ v, rule.velocity = some v → v.resolveKey (policyInput K req) = "") := by
  obtain ⟨base, inv, velocity, hbs, hor, hden⟩ := hdenied
  obtain ⟨hsf, hmt, p, hp, hmem, -⟩ := hden.spec
  have hrs := rules_of_requestPolicy hbs hp
  -- a rule that is neither on the floor nor in the section of the policy is one of the other invariants
  have hoth : rule ∉ blockingInvariants (inv.getD {}) →
      rule ∉ (base.rules.filter (inSection req)).map globalised →
      isGlobalInvariantDeny rule.decision = false := by
    intro hflr hsec
    rw [hrs, mem_append, mem_append] at hmem
    obtain ⟨r, hr, rfl⟩ := mem_map.1 ((hmem.resolve_left fun h => h.elim hflr hsec))
    have hpas : isGlobalInvariantDeny r.decision = false := by simpa using (mem_filter.1 hr).2
    exact hpas
  constructor
  · intro hno
    have hes : ¬ EscapedFrom K req rule place := fun ⟨base', inv', velocity', hbs', hor', hden', hesc⟩ =>
      hno base' inv' velocity' serverLabel hbs' hor' serverLabel_mcp hden' hesc
    cases place with
    | floor => exact .inl rfl
    | policy =>
      exfalso
      have hflr : rule ∉ blockingInvariants (inv.getD {}) := by
        unfold origin at hor
        split_ifs at hor with hflr
        exact hflr
      have hpas : isEdgeActionRule rule → isGlobalInvariantDeny rule.decision = false := by
        refine fun hru => hoth hflr fun hsec => ?_
        obtain ⟨r, hr, rfl⟩ := mem_map.1 hsec
        have hr' := (mem_filter.1 hr).2
        rw [inSection_noMCP hreq hedge, show isEdgeActionRule r = true from hru] at hr'
        cases hr'
      exact hes (escape_policy hsf hm hreq hedge hden.topic hmt hden.denies hpas)
    | rest =>
      refine .inr ⟨rfl, fun v hv => ?_⟩
      by_contra hkey
      obtain ⟨hflr, hpol⟩ := notMem_of_origin_rest hor
      have hpas := hoth hflr fun hsec => hpol (mem_of_mem_section hsec)
      exact hes (escape_counted hsf hm hreq hedge hden.topic hmt hden.denies hpas hv hkey)
  · rintro (rfl | ⟨rfl, hvel⟩) base' inv' velocity' labels hbs' hor' hlab hden'
    · exact no_escape_floor hbs' hm hlab hreq hden' hor'
    · exact no_escape_rest hbs' hm hlab hden' hor' hvel

/-- A rule that denies the jobs of a topic, as it stands in its section. -/
def denyDefault : PolicyRule :=
  { id := "deny", tier := "global", decision := "deny", terms := { topics := ["job.default"] } }

theorem mcp_labels_escape_iff_deny :
    ∃ place, (∀ base inv velocity labels, GlobalOnly base → origin base inv denyDefault = place →
      McpLabels labels →
      DeniedBy { quietKernel with velocity := velocity } base inv { topic := "job.default" } denyDefault →
        ¬ Escapes { quietKernel with velocity := velocity } base inv
          (PolicyCheckRequest.withLabels { topic := "job.default" } labels) denyDefault) ↔
    (place = .floor ∨ place = .rest ∧
      ∀ v, denyDefault.velocity = some v →
      v.resolveKey (policyInput quietKernel { topic := "job.default" }) = "") :=
  ⟨.policy, mcp_labels_escape_iff quietKernel ⟨rfl, rfl, rfl, rfl⟩
    ⟨by decide +kernel, fun _ _ => rfl⟩ (by decide +kernel) _
    ⟨{ rules := [denyDefault] }, none, unchecked, by decide +kernel, by decide +kernel,
      ⟨by decide +kernel, by decide +kernel, by decide +kernel, _, rfl, by decide +kernel⟩⟩⟩

/-- A request that a rule denies is allowed by default once it names an MCP server. -/
theorem mcp_label_escapes :
    let base : SafetyPolicy := { rules := [denyDefault], defaultDecision := "allow" }
    let req : PolicyCheckRequest := { topic := "job.default" }
    (checkPolicy quietKernel (some base) none req).decision = .deny ∧
      (checkPolicy quietKernel (some base) none req).ruleID = "deny" ∧
      (checkPolicy quietKernel (some base) none (req.withLabels serverLabel)).decision = .allow ∧
      (checkPolicy quietKernel (some base) none (req.withLabels serverLabel)).reason =
        "no matching rule — default policy: allow" := by
  decide +kernel

end Cordum.Policy
