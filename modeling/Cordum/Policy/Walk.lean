import Cordum.Policy.Scope
import Mathlib.Data.List.Find

/-!
# Which rule decides

What a walk over the rules comes to when the rules in front are known, and which rules stand in front
for a request.
-/

namespace Cordum.Policy

open GoString List PolicyRule GlobalPolicy

variable {front rules before rest rest' after : List PolicyRule} {base inv : Option SafetyPolicy}
  {req : PolicyCheckRequest}
  {rule : PolicyRule} {p p' : SafetyPolicy} {count later : ℤ} {M : Matchers} {E : VelocityEnv}
  {input input' : PolicyInput} {K : KernelEnv}

/-! ## Walks -/

/-- The rules with a velocity clause. -/
def velocityCount (rules : List PolicyRule) : ℕ := (rules.filter fun r => r.velocity.isSome).length

/-- The walk stops at the rule when it comes to it. -/
def Fires (M : Matchers) (E : VelocityEnv) (input : PolicyInput) (count : ℤ) (rule : PolicyRule) : Prop :=
  matchRule M rule.terms input ∧ ∀ v, rule.velocity = some v →
    ¬ (E.limit ≠ unlimited ∧ count + 1 > E.limit) ∧ v.resolveKey input ≠ "" ∧
      ∃ check, E.checker = some check ∧ check rule.id (v.resolveKey input) v = some true

theorem walkRules_cons (M : Matchers) (E : VelocityEnv) (input : PolicyInput) (count : ℤ)
    (rule : PolicyRule) (rules : List PolicyRule) :
    walkRules M E input count (rule :: rules) = .velocityUnavailable ∨
      (Fires M E input count rule ∧ walkRules M E input count (rule :: rules) = .rule rule) ∨
      (¬ Fires M E input count rule ∧ walkRules M E input count (rule :: rules) =
        walkRules M E input (count + velocityCount [rule]) rules) := by
  rw [walkRules_step]
  cases hvel : rule.velocity with
  | none =>
    have hcnt : count + (velocityCount [rule]) = count := by simp [velocityCount, hvel]
    rw [hcnt]
    by_cases hmt : matchRule M rule.terms input
    · rw [if_pos hmt]
      exact .inr (.inl ⟨⟨hmt, fun v hv => by rw [hvel] at hv; cases hv⟩, rfl⟩)
    · rw [if_neg hmt]
      exact .inr (.inr ⟨fun h => hmt h.1, rfl⟩)
  | some v =>
    have hcnt : count + (velocityCount [rule]) = count + 1 := by simp [velocityCount, hvel]
    dsimp only
    rw [hcnt]
    by_cases hlim : E.limit ≠ unlimited ∧ count + 1 > E.limit
    · rw [if_pos hlim]
      exact .inr (.inr ⟨fun h => (h.2 v hvel).1 hlim, rfl⟩)
    rw [if_neg hlim]
    by_cases hmt : matchRule M rule.terms input = false
    · rw [if_pos hmt]
      exact .inr (.inr ⟨fun h => Bool.noConfusion (h.1.symm.trans hmt), rfl⟩)
    rw [if_neg hmt]
    cases hche : E.checker with
    | none =>
      refine .inr (.inr ⟨fun h => ?_, rfl⟩)
      obtain ⟨check, hck, -⟩ := (h.2 v hvel).2.2
      rw [hche] at hck
      cases hck
    | some check =>
      dsimp only
      by_cases hkey : v.resolveKey input = ""
      · rw [if_pos hkey]
        exact .inr (.inr ⟨fun h => (h.2 v hvel).2.1 hkey, rfl⟩)
      rw [if_neg hkey]
      -- a rule that fires was found exceeded by this checker
      have hex : Fires M E input count rule → check rule.id (v.resolveKey input) v = some true := by
        intro h
        obtain ⟨check', hck', hexc⟩ := (h.2 v hvel).2.2
        rw [hche] at hck'
        cases hck'
        exact hexc
      cases hck : check rule.id (v.resolveKey input) v with
      | none =>
        by_cases hop : E.failOpen
        · rw [if_pos hop]
          exact .inr (.inr ⟨fun h => (nomatch (hex h).symm.trans hck), rfl⟩)
        · rw [if_neg hop]
          exact .inl rfl
      | some exceeded =>
        cases exceeded with
        | true =>
          refine .inr (.inl ⟨⟨by simpa using hmt, fun v' hv' => ?_⟩, rfl⟩)
          rw [hvel] at hv'
          cases hv'
          exact ⟨hlim, hkey, check, hche, hck⟩
        | false => exact .inr (.inr ⟨fun h => (nomatch (hex h).symm.trans hck), rfl⟩)

/-- **A walk stops in the front of its list or goes on behind it.** -/
theorem walkRules_append (M : Matchers) (E : VelocityEnv) (input : PolicyInput)
    (front rest : List PolicyRule) (count : ℤ) :
    walkRules M E input count (front ++ rest) = .velocityUnavailable ∨
      (∃ r ∈ front, walkRules M E input count (front ++ rest) = .rule r) ∨
      walkRules M E input count (front ++ rest) = walkRules M E input
        (count + velocityCount front) rest := by
  induction front generalizing count with
  | nil =>
    simp [velocityCount]
  | cons r front ih =>
    rw [cons_append]
    rcases walkRules_cons M E input count r (front ++ rest) with hun | ⟨-, hru⟩ | ⟨-, hnx⟩
    · exact .inl hun
    · exact .inr (.inl ⟨r, mem_cons_self .., hru⟩)
    · have hcnt : count + velocityCount (r :: front) = count + velocityCount
          [r] + velocityCount front := by
        have hsum : velocityCount (r :: front) = velocityCount [r] + velocityCount front := by
          rw [velocityCount, ← singleton_append, filter_append, length_append]
          rfl
        omega
      rw [hnx, hcnt]
      rcases ih (count + velocityCount [r]) with hun | ⟨r', hr', hru⟩ | hps
      · exact .inl hun
      · exact .inr (.inl ⟨r', mem_cons_of_mem _ hr', hru⟩)
      · exact .inr (.inr hps)

theorem fires_of_walkRules (h : walkRules M E input count rules = .rule rule) :
    rule ∈ rules ∧ ∃ later ≥ count, Fires M E input later rule := by
  induction rules generalizing count with
  | nil => cases h
  | cons r rules ih =>
    rcases walkRules_cons M E input count r rules with hun | ⟨hfi, hru⟩ | ⟨-, hnx⟩
    · rw [hun] at h
      cases h
    · rw [hru] at h
      cases h
      exact ⟨mem_cons_self .., count, le_refl _, hfi⟩
    · rw [hnx] at h
      obtain ⟨hmem, later, hlat, hfi⟩ := ih h
      exact ⟨mem_cons_of_mem _ hmem, later, by omega, hfi⟩

/-- A rule that fires when the walk comes to it: the walk does not get past the front. -/
theorem walkRules_stops (h : Fires M E input (count + velocityCount before) rule) :
    walkRules M E input count (before ++ rule :: after ++ rest) = .velocityUnavailable ∨
      ∃ r ∈ before ++ rule :: after, walkRules M E input count
        (before ++ rule :: after ++ rest) = .rule r := by
  rw [append_assoc, cons_append]
  rcases walkRules_append M E input before (rule :: (after ++ rest)) count with
    hun | ⟨r, hr, hru⟩ | hps
  · exact .inl hun
  · exact .inr ⟨r, mem_append_left _ hr, hru⟩
  · rw [hps]
    rcases walkRules_cons M E input (count + velocityCount before) rule (after ++ rest) with
      hun | ⟨-, hru⟩ | ⟨hno, -⟩
    · exact .inl hun
    · exact .inr ⟨rule, by simp, hru⟩
    · exact absurd h hno

theorem firstMatch_floor (h : ∃ r ∈ front, matchRule M r.terms input) :
    ∃ r ∈ front, firstMatch M input (front ++ rest) = .rule r := by
  obtain ⟨r, hr, hmt⟩ := h
  have hso : (front.find? fun r => matchRule M r.terms input).isSome := find?_isSome.2 ⟨r, hr, hmt⟩
  obtain ⟨r', hr'⟩ := Option.isSome_iff_exists.1 hso
  refine ⟨r', mem_of_find?_eq_some hr', ?_⟩
  rw [firstMatch, find?_append, hr']
  rfl

theorem effectiveRules_of_ne_nil (h : p.rules ≠ []) : effectiveRules M p = p.rules := if_pos h

theorem effectiveRules_front (hp : p.rules = front ++ rest) (h : rule ∈ front) :
    effectiveRules M p = front ++ rest := by
  rw [effectiveRules_of_ne_nil (by rw [hp]; exact append_ne_nil_of_left_ne_nil (ne_nil_of_mem h) rest), hp]

/-- **A rule without a velocity clause that matches** decides, if none before it does. -/
theorem verdict_floor (hp : p.rules = front ++ rest)
    (h : ∃ r ∈ front, r.velocity = none ∧ matchRule M r.terms input) :
    verdict M E p input = .velocityUnavailable ∨ ∃ r ∈ front, verdict M E p input = .rule r := by
  obtain ⟨rule, hru, hvel, hmt⟩ := h
  rw [verdict, effectiveRules_front hp hru]
  split
  · obtain ⟨before, after, rfl⟩ := append_of_mem hru
    have hfi : Fires M E input (0 + velocityCount before) rule :=
      ⟨hmt, fun v hv => by rw [hvel] at hv; cases hv⟩
    exact walkRules_stops hfi
  · right
    exact firstMatch_floor ⟨rule, hru, hmt⟩

/-- Without a checker, a walk searches a matching rule without a velocity clause. -/
theorem walkRules_unchecked (count : ℤ) (rules : List PolicyRule) :
    walkRules M unchecked input count rules =
      match rules.find? fun r => r.velocity.isNone && matchRule M r.terms input with
      | some r => .rule r
      | none => .default := by
  induction rules generalizing count with
  | nil => rfl
  | cons r rules ih =>
    rw [walkRules_step, find?_cons]
    cases hvel : r.velocity with
    | none =>
      by_cases hmt : matchRule M r.terms input
      · rw [hmt]
        rfl
      · have hfal : matchRule M r.terms input = false := by simpa using hmt
        rw [hfal]
        exact ih count
    | some v =>
      dsimp only
      rw [if_neg (fun h => h.1 rfl)]
      split
      · exact ih _
      · exact ih _

theorem verdict_unchecked (hp : p.rules ≠ []) :
    verdict M unchecked p input =
      match p.rules.find? fun r => r.velocity.isNone && matchRule M r.terms input with
      | some r => .rule r
      | none => .default := by
  rw [verdict, effectiveRules_of_ne_nil hp]
  split
  · exact walkRules_unchecked 0 p.rules
  next hcnt =>
  have hno : ∀ r ∈ p.rules, r.velocity.isNone := by
    intro r hr
    have hlen : (p.rules.filter fun r => r.velocity.isSome).length = 0 := by
      rw [effectiveVelocityRuleCount] at hcnt
      have hz : unchecked.limit ≠ 0 := by decide
      have hunl : unchecked.limit = unlimited := rfl
      simp only [if_neg hz, if_pos hunl] at hcnt
      omega
    have hfil := length_eq_zero_iff.1 hlen
    have hr' := filter_eq_nil_iff.1 hfil r hr
    simpa using hr'
  have hsm : (p.rules.find? fun r => matchRule M r.terms input) =
      p.rules.find? fun r => r.velocity.isNone && matchRule M r.terms input :=
    find?_congr fun r hr => by rw [hno r hr, Bool.true_and]
  exact congrArg
    (fun o : Option PolicyRule => match o with | some r => Verdict.rule r | none => .default) hsm

theorem effectiveVelocityRuleCount_pos_iff : effectiveVelocityRuleCount E rules > 0 ↔
    E.limit ≠ 0 ∧ velocityCount rules > 0 := by
  unfold effectiveVelocityRuleCount velocityCount unlimited
  dsimp only
  split_ifs <;> omega

theorem velocityCount_pos (hmem : rule ∈ rules) {v : VelocityConfig} (hv : rule.velocity = some v) :
    velocityCount rules > 0 :=
  length_pos_of_mem (mem_filter.2 ⟨hmem, by rw [hv]; rfl⟩)

theorem verdict_rule (h : verdict M E p input = .rule rule) :
    rule ∈ effectiveRules M p ∧ matchRule M rule.terms input := by
  rw [verdict] at h
  split at h
  · obtain ⟨hmem, later, -, hfi⟩ := fires_of_walkRules h
    exact ⟨hmem, hfi.1⟩
  rw [firstMatch] at h
  split at h
  · next r hr =>
    cases h
    have hfd := find?_some hr
    exact ⟨mem_of_find?_eq_some hr, hfd⟩
  · cases h

theorem verdict_unlicensed (hlim : E.limit = 0) (hp : p.rules ≠ []) :
    verdict M E p input = firstMatch M input p.rules := by
  rw [verdict, effectiveRules_of_ne_nil hp,
    if_neg fun hpos => (effectiveVelocityRuleCount_pos_iff.1 hpos).1 hlim]

/-- **One front, two requests.** When a rule of the front decides for one and fires alike for the
other, neither gets past the front. -/
theorem verdict_front (hp : p.rules = front ++ rest) (hp' : p'.rules = front ++ rest')
    (hmem : rule ∈ front) (hsm : ∀ count, Fires M E input count rule → Fires M E input' count rule)
    (hmt : matchRule M rule.terms input') (h : verdict M E p input = .rule rule) :
    verdict M E p' input' = .velocityUnavailable ∨ ∃ r ∈ front, verdict M E p' input' = .rule r := by
  cases hvel : rule.velocity with
  | none => exact verdict_floor hp' ⟨rule, hmem, hvel, hmt⟩
  | some v =>
    rw [verdict, effectiveRules_front hp' hmem]
    by_cases hlim : E.limit = 0
    · rw [if_neg fun hpos => (effectiveVelocityRuleCount_pos_iff.1 hpos).1 hlim]
      exact .inr (firstMatch_floor ⟨rule, hmem, hmt⟩)
    have hpos : ∀ rest, effectiveVelocityRuleCount E (front ++ rest) > 0 := fun rest =>
      effectiveVelocityRuleCount_pos_iff.2 ⟨hlim, velocityCount_pos (mem_append_left _ hmem) hvel⟩
    rw [verdict, effectiveRules_front hp hmem, if_pos (hpos rest)] at h
    rw [if_pos (hpos rest')]
    -- both walks come to the rule's first place in the front with the same count
    obtain ⟨before, after, rfl, hfst⟩ := eq_append_cons_of_mem hmem
    have hfi : Fires M E input (0 + velocityCount before) rule := by
      rw [append_assoc, cons_append] at h
      rcases walkRules_append M E input before (rule :: (after ++ rest)) 0 with hun | ⟨r, hr, hru⟩ | hps
      · rw [hun] at h
        cases h
      · rw [hru] at h
        cases h
        exact absurd hr hfst
      · rw [hps] at h
        obtain ⟨-, later, hlat, hfi⟩ := fires_of_walkRules h
        refine ⟨hfi.1, fun v hv => ⟨fun hlim => (hfi.2 v hv).1 ⟨hlim.1, ?_⟩, (hfi.2 v hv).2⟩⟩
        omega
    exact walkRules_stops (hsm _ hfi)

/-! ## The rules of a request -/

/-- The invariants that block, as they stand in the sections. -/
def blockingInvariants (inv : SafetyPolicy) : List PolicyRule :=
  (inv.rules.filter fun r => isGlobalInvariantDeny r.decision).map PolicyRule.globalised

/-- The other invariants. -/
def otherInvariants (inv : SafetyPolicy) : List PolicyRule :=
  (inv.rules.filter fun r => !isGlobalInvariantDeny r.decision).map PolicyRule.globalised

theorem not_allows_of_blocks {decision : String} (h : isGlobalInvariantDeny decision) :
    ¬ (normalizeDecision decision).Allows := by
  have hmem : toLower (trimSpace decision) ∈
      ["deny", "require_approval", "require-approval", "require_human", "throttle"] := contains_iff_mem.1 h
  rw [normalizeDecision]
  simp only [mem_cons, not_mem_nil, or_false] at hmem
  rcases hmem with heq | heq | heq | heq | heq <;> rw [heq] <;> decide

theorem not_allows_of_blockingInvariant {inv : SafetyPolicy} (h : rule ∈ blockingInvariants inv) :
    ¬ (normalizeDecision rule.decision).Allows := by
  obtain ⟨r, hr, rfl⟩ := mem_map.1 h
  exact not_allows_of_blocks (mem_filter.1 hr).2

theorem policyDecision_allows
    (h : (policyDecision M E p input).decision.Allows) :
    ((verdict M E p input).decide p).decision.Allows := by
  unfold policyDecision at h
  split at h
  · exact h
  · split at h
    · exact h
    · exact absurd h id

theorem checkPolicy_allows (h : (checkPolicy K base inv req).decision.Allows) :
    ∃ p, requestPolicy base inv req = some p ∧
      ((verdict K.matchers K.velocity p (policyInput K req)).decide p).decision.Allows := by
  unfold checkPolicy at h
  split at h
  · exact absurd h id
  next p hp =>
  split_ifs at h
  · exact absurd h id
  · exact absurd h id
  · exact ⟨p, hp, policyDecision_allows h⟩

/-- Where no tenant has MCP lists, the verdict is the decision. -/
theorem checkPolicy_eq (htop : hasPrefix (trimSpace req.topic) "job.")
    (hp : requestPolicy base inv req = some p) (htns : p.tenants = {}) :
    checkPolicy K base inv req = (verdict K.matchers K.velocity p (policyInput K req)).decide p := by
  have hne : trimSpace req.topic ≠ "" := by
    intro hemp
    rw [hemp] at htop
    exact absurd htop (by decide)
  rw [checkPolicy, hp]
  dsimp only
  rw [if_neg hne, htop, policyDecision, htns]
  rfl

theorem split_globalised : splitInvariantRules (rules.map globalised) =
      ((rules.filter fun r => isGlobalInvariantDeny r.decision).map globalised,
        (rules.filter fun r => !isGlobalInvariantDeny r.decision).map globalised) := by
  rw [splitInvariantRules, partition_eq_filter_filter, filter_map, filter_map]
  rfl

theorem defaults_eq (p : SafetyPolicy) (g : GlobalPolicy) :
    ∃ w j, p.tierDefaults.foldl addTierDefault (g.addPolicyLevelDefault p) =
      { g with workflowDefaultDecisions := w, jobDefaultDecisions := j } := by
  have hone : ∀ d (g : GlobalPolicy),
      ∃ w j, g.addTierDefault d = { g with workflowDefaultDecisions := w, jobDefaultDecisions := j } := by
    intro d g
    unfold addTierDefault
    split
    · exact ⟨_, _, rfl⟩
    dsimp only
    split_ifs
    · exact ⟨_, _, rfl⟩
    · exact ⟨_, _, rfl⟩
    · exact ⟨_, _, rfl⟩
  have hlev : ∃ w j, g.addPolicyLevelDefault p =
      { g with workflowDefaultDecisions := w, jobDefaultDecisions := j } := by
    unfold addPolicyLevelDefault
    split
    · exact ⟨_, _, rfl⟩
    · split
      · exact ⟨_, _, rfl⟩
      · exact hone _ g
  refine foldlRecOn (motive := fun g' : GlobalPolicy => ∃ w j, g' =
    { g with workflowDefaultDecisions := w, jobDefaultDecisions := j }) p.tierDefaults _ hlev ?_
  rintro _ ⟨w, j, rfl⟩ d -
  exact hone d _

theorem invariants_foldl_addRule {g : GlobalPolicy} :
    (rules.foldl addRule g).invariants = g.invariants := by
  refine foldlRecOn (motive := fun g' : GlobalPolicy => g'.invariants = g.invariants) rules _ rfl
    fun g' h r _ => ?_
  rw [← h]
  unfold addRule
  dsimp only
  split_ifs <;> rfl

theorem invariants_fromSafetyPolicy : (fromSafetyPolicy base rules).invariants = rules.map globalised := by
  cases base with
  | none => rfl
  | some p =>
    rw [fromSafetyPolicy]
    obtain ⟨w, j, h⟩ := defaults_eq p (if normalizePolicyTier p.tier = .global then
      { invariants := rules.map globalised
        globalDefaultDecision := normalizedOptionalDecision p.defaultDecision }
      else { invariants := rules.map globalised })
    rw [invariants_foldl_addRule, h]
    split <;> rfl

/-- **Every request's rules** begin with the invariants that block. -/
theorem requestPolicy_rules {inv : SafetyPolicy} (h : requestPolicy base (some inv) req = some p) :
    ∃ own, p.rules = blockingInvariants inv ++ own ++ otherInvariants inv := by
  obtain ⟨combined, -, rfl⟩ := Option.map_eq_some_iff.1 h
  have hinv : (loadedPolicy base (some inv)).2.invariants = inv.rules.map globalised :=
    invariants_fromSafetyPolicy
  have hsec : ∀ workflowID jobID include' globalRules,
      ∃ own, (loadedPolicy base (some inv)).2.rulesForScopedSection workflowID jobID include' globalRules =
        blockingInvariants inv ++ own ++ otherInvariants inv := by
    intro workflowID jobID include' globalRules
    rw [rulesForScopedSection, hinv, split_globalised]
    refine ⟨(if trimSpace jobID ≠ "" then
        ((loadedPolicy base (some inv)).2.jobOverrides (trimSpace jobID)).filter include' else []) ++
      (if trimSpace workflowID ≠ "" then
        ((loadedPolicy base (some inv)).2.workflowOverrides (trimSpace workflowID)).filter
          include' else []) ++
      globalRules, ?_⟩
    simp only [blockingInvariants, otherInvariants, append_assoc]
  rw [scopedPolicyForRequest]
  dsimp only
  split
  · exact hsec ..
  · split
    · exact hsec ..
    · exact hsec ..

theorem requestPolicy_getD {base : SafetyPolicy} :
    requestPolicy (some base) inv req = requestPolicy (some base) (some (inv.getD {})) req := by
  cases inv <;> rfl

theorem globalised_notMem_legacyRules : rule.globalised ∉ legacyRules M p := by
  have hli : ∀ tenant kind reason tp topics, rule.globalised ∉
      legacyTopicRules tenant kind reason tp topics := by
    intro tenant kind reason tp topics hmem
    obtain ⟨i, hi, heq⟩ := mem_mapIdx.1 hmem
    have htr : "" = "global" := congrArg tier heq
    exact absurd htr (by decide)
  intro hmem
  obtain ⟨⟨tenant, tp⟩, -, hmem⟩ := mem_flatMap.1 hmem
  rcases mem_append.1 hmem with hmem | hmem
  · exact hli _ _ _ _ _ hmem
  · exact hli _ _ _ _ _ hmem

/-- The rules of the merged policy, as they stand in the sections. -/
def mergedRules (base : SafetyPolicy) (inv : Option SafetyPolicy) : List PolicyRule :=
  blockingInvariants (inv.getD {}) ++ base.rules.map PolicyRule.globalised ++ otherInvariants (inv.getD {})

/-! ## Policies of the global tier -/

theorem mcpMatch_none (M : Matchers) (req : MCPRequest) : mcpMatch M {} req := by
  simp [mcpMatch, mcpAllowed, matchMCPField, containsString]

theorem normalizePolicyTier_empty : normalizePolicyTier "" = .global := by decide +kernel

/-- The rule is of the section that judges the request. -/
def inSection (req : PolicyCheckRequest) (rule : PolicyRule) : Bool :=
  if trimSpace req.topic = edgeActionTopic then isEdgeActionRule rule
  else if mcpUsed (extractMCPRequest req.labels) then !isEdgeActionRule rule && isMCPToolRule rule
  else !isEdgeActionRule rule && !isMCPToolRule rule

/-- All rules of the policy are of the global tier. -/
def GlobalOnly (p : SafetyPolicy) : Prop := ∀ r ∈ p.rules, normalizePolicyTier r.tier = .global

instance (p : SafetyPolicy) : Decidable (GlobalOnly p) :=
  inferInstanceAs (Decidable (∀ r ∈ p.rules, normalizePolicyTier r.tier = .global))

theorem foldl_addRule_global (h : ∀ r ∈ rules, normalizePolicyTier r.tier = .global) {g : GlobalPolicy} :
    rules.foldl addRule g =
      { g with
        edgeActionRules := g.edgeActionRules ++ (rules.filter isEdgeActionRule).map globalised
        mcpToolRules := g.mcpToolRules ++
          (rules.filter fun r => !isEdgeActionRule r && isMCPToolRule r).map globalised
        inputRules := g.inputRules ++
          (rules.filter fun r => !isEdgeActionRule r && !isMCPToolRule r).map globalised } := by
  induction rules generalizing g with
  | nil => simp
  | cons rule rules ih =>
    rw [foldl_cons, addRule, h rule (mem_cons_self ..), if_neg (fun hw => nomatch hw.1),
      if_neg (fun hj => nomatch hj.1), ih fun r hr => h r (mem_cons_of_mem _ hr)]
    by_cases hed : isEdgeActionRule rule
    · simp [hed]
    · by_cases hmcp : isMCPToolRule rule
      · simp [hed, hmcp]
      · simp [hed, hmcp]

theorem fromSafetyPolicy_global {base : SafetyPolicy} (hrs : GlobalOnly base) :
    ∃ dd w j, fromSafetyPolicy (some base) rules =
      { invariants := rules.map globalised
        globalDefaultDecision := dd
        workflowDefaultDecisions := w
        jobDefaultDecisions := j
        edgeActionRules := (base.rules.filter isEdgeActionRule).map globalised
        mcpToolRules := (base.rules.filter fun r => !isEdgeActionRule r && isMCPToolRule r).map globalised
        inputRules :=
        (base.rules.filter fun r => !isEdgeActionRule r && !isMCPToolRule r).map globalised } := by
  have hlev : ∃ dd, (if normalizePolicyTier base.tier = .global then
      { invariants := rules.map globalised
        globalDefaultDecision := normalizedOptionalDecision base.defaultDecision }
      else { invariants := rules.map globalised } : GlobalPolicy) =
        { invariants := rules.map globalised, globalDefaultDecision := dd } := by
    split
    · exact ⟨_, rfl⟩
    · exact ⟨_, rfl⟩
  obtain ⟨dd, hdd⟩ := hlev
  rw [fromSafetyPolicy]
  rw [hdd]
  obtain ⟨w, j, h⟩ := defaults_eq base { invariants := rules.map globalised, globalDefaultDecision := dd }
  rw [h, foldl_addRule_global hrs]
  exact ⟨dd, w, j, by simp only [nil_append]⟩

/-- **The rules of a request** when the loaded policy is of the global tier. -/
theorem requestPolicy_global {base : SafetyPolicy} (hrs : GlobalOnly base) (inv : SafetyPolicy)
    (req : PolicyCheckRequest) :
    ∃ p, requestPolicy (some base) (some inv) req = some p ∧ p.tenants = base.tenants ∧
      p.rules = blockingInvariants inv ++ (base.rules.filter (inSection req)).map globalised ++
      otherInvariants inv := by
  obtain ⟨dd, w, j, hvw⟩ := fromSafetyPolicy_global hrs
  obtain ⟨combined, hcom, htns⟩ :
      ∃ combined, (loadedPolicy (some base) (some inv)).1 = some combined ∧
      combined.tenants = base.tenants := ⟨_, rfl, rfl⟩
  have hloa : (loadedPolicy (some base) (some inv)).2 = fromSafetyPolicy (some base) inv.rules := rfl
  have hsec : ∀ workflowID jobID include' globalRules,
      (fromSafetyPolicy (some base) inv.rules).rulesForScopedSection workflowID
        jobID include' globalRules = blockingInvariants inv ++ globalRules ++ otherInvariants inv := by
    intro workflowID jobID include' globalRules
    rw [hvw, rulesForScopedSection, split_globalised]
    simp only [filter_nil, ite_self, append_nil, blockingInvariants, otherInvariants]
  refine ⟨scopedPolicyForRequest combined (loadedPolicy (some base) (some inv)).2
    (resolvePolicyScope req).1 (resolvePolicyScope req).2 (trimSpace req.topic) req.labels, by
    rw [requestPolicy, hcom, Option.map_some],
    htns, ?_⟩
  unfold scopedPolicyForRequest rulesForEdgeAction rulesForMCPTool rulesForInput
  rw [hloa, trimSpace_trimSpace]
  simp only [hsec]
  rw [hvw]
  unfold inSection
  split_ifs with hed hmcp
  · rfl
  · rfl
  · rfl

end Cordum.Policy
