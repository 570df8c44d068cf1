import Cordum.Policy.Input

/-!
# The invariant input scans

The invariant input rules are put in front of the policy's, but the rules of a request are then sorted
by tier: job, workflow, global. So an invariant rule that denies is decided against by any rule of a
more specific tier that matches and asks for an approval.

* `input_floor_denies_iff`: when the invariant rule's deny is the kernel's decision.
* `truncation_keeps_match`: content that is cut off matches every rule that the whole content matches.
-/

namespace Cordum.Policy

open GoString List

variable {rule : CompiledInputRule} {K : KernelEnv} {S : Scanning} {base : Option SafetyPolicy}
  {inv policy : SafetyPolicy} {req : KernelRequest} {findings : List Finding}

/-- The policy with its invariants. -/
def combinedPolicy (base : Option SafetyPolicy) (inv : SafetyPolicy) : SafetyPolicy :=
  (loadedPolicy base (some inv)).1.getD {}

/-- The rule is for the request's scope. -/
def AppliesTo (req : KernelRequest) (rule : CompiledInputRule) : Prop :=
  inputRuleAppliesToScope rule (trimSpace (resolvePolicyScope req.toPolicyCheckRequest).1)
    (trimSpace (resolvePolicyScope req.toPolicyCheckRequest).2)

/-- The rule is for the request and matches it. -/
def Matches (K : KernelEnv) (S : Scanning) (req : KernelRequest) (rule : CompiledInputRule)
    (findings : List Finding) : Prop :=
  AppliesTo req rule ∧ evaluateInputRule K.matchers S rule (inputRequest req) = some findings

/-- The deny of a rule stands. -/
def HardDeny (base : Option SafetyPolicy) (inv : SafetyPolicy) (req : KernelRequest)
    (rule : CompiledInputRule) (findings : List Finding) : Prop :=
  rule.decision = .deny ∧
    shouldDowngradeDenyToRequireHuman rule findings req.hasAction
      (requireHumanThreshold base (some inv)) = false

/-- An invariant input rule denies the request, and no earlier one matches. -/
structure FloorScan (K : KernelEnv) (S : Scanning) (base : Option SafetyPolicy)
    (inv : SafetyPolicy) (req : KernelRequest)
    (rule : CompiledInputRule) (findings : List Finding) : Prop where
  listed : ∃ before raw after, inv.inputRules = before ++ raw :: after ∧
    compileInputRule S (combinedPolicy base inv) raw = some rule ∧
    ∀ earlier ∈ before, ∀ c, compileInputRule S (combinedPolicy base inv) earlier = some c →
    ∀ found, ¬ Matches K S req c found
  found : Matches K S req rule findings
  denies : HardDeny base inv req rule findings

/-- The rules of a request that stand before those of a tier. -/
def moreSpecificRules (S : Scanning) (base : Option SafetyPolicy) (inv : SafetyPolicy)
    (req : KernelRequest) (tier : Tier) :
    List CompiledInputRule :=
  let rules := compileInputRules S (loadedPolicy base (some inv)).1
  let scope := resolvePolicyScope req.toPolicyCheckRequest
  match tier with
  | .job => []
  | .workflow => inputRulesOfTier rules scope.1 scope.2 .job
  | _ => inputRulesOfTier rules scope.1 scope.2 .job ++ inputRulesOfTier rules scope.1 scope.2 .workflow

/-! ## Tiers -/

theorem valid_inputRuleTier {rule : InputPolicyRule} : isValidPolicyTier (inputRuleTier policy rule) := by
  unfold inputRuleTier
  generalize normalizePolicyTier (if trimSpace rule.tier = "" then policy.tier else rule.tier) = tier
  by_cases hval : isValidPolicyTier tier
  · rw [if_pos hval]
    exact hval
  · rw [if_neg hval]
    rfl

theorem tier_of_compileInputRule {raw : InputPolicyRule}
    (h : compileInputRule S policy raw = some rule) : isValidPolicyTier rule.tier := by
  unfold compileInputRule at h
  split at h
  · cases h
  split at h
  · cases h
  dsimp only at h
  split at h
  · cases h
  split at h
  · cases h
  · cases h
    exact valid_inputRuleTier

/-- The rules of a tier stand behind the more specific ones, and before the rest. -/
theorem requestInputRules_eq {tier : Tier} (htr : isValidPolicyTier tier) :
    ∃ rest, requestInputRules S base (some inv) req =
      moreSpecificRules S base inv req tier ++ inputRulesOfTier
        (compileInputRules S (loadedPolicy base (some inv)).1)
          (resolvePolicyScope req.toPolicyCheckRequest).1
            (resolvePolicyScope req.toPolicyCheckRequest).2 tier ++ rest := by
  unfold requestInputRules selectInputRulesForScope moreSpecificRules
  cases tier with
  | job => exact ⟨_, by rw [nil_append, append_assoc]⟩
  | workflow => exact ⟨_, rfl⟩
  | «global» => exact ⟨[], by rw [append_nil]⟩
  | other name => cases htr

/-! ## The first rule that matches -/

theorem firstInputMatch_append {M : Matchers} {r : InputEvaluateRequest}
    {front rest : List CompiledInputRule} :
    firstInputMatch M S r (front ++ rest) = (firstInputMatch M S r front).or
      (firstInputMatch M S r rest) :=
  findSome?_append

/-- **Within its tier** the invariant rule is the first that matches. -/
theorem FloorScan.firstInputMatch (h : FloorScan K S base inv req rule findings) :
    firstInputMatch K.matchers S (inputRequest req)
      (inputRulesOfTier (compileInputRules S (loadedPolicy base (some inv)).1)
        (resolvePolicyScope req.toPolicyCheckRequest).1
          (resolvePolicyScope req.toPolicyCheckRequest).2 rule.tier) =
      some (rule, findings) := by
  obtain ⟨before, raw, after, hli, hcom, hear⟩ := h.listed
  obtain ⟨happ, hfd⟩ := h.found
  -- the invariants stand in front of the policy's own rules
  obtain ⟨own, hown⟩ : ∃ own, (combinedPolicy base inv).inputRules = inv.inputRules ++ own := ⟨_, rfl⟩
  have hrs : compileInputRules S (loadedPolicy base (some inv)).1 =
      before.filterMap (compileInputRule S (combinedPolicy base inv)) ++
        rule :: (after ++ own).filterMap (compileInputRule S (combinedPolicy base inv)) := by
    have hloa : (loadedPolicy base (some inv)).1 = some (combinedPolicy base inv) := rfl
    rw [hloa, compileInputRules, hown, hli, append_assoc, cons_append, filterMap_append,
      filterMap_cons_some hcom]
  rw [hrs, inputRulesOfTier, filter_append, firstInputMatch_append]
  have hno : Policy.firstInputMatch K.matchers S (inputRequest req)
      ((before.filterMap (compileInputRule S (combinedPolicy base inv))).filter fun c =>
        inputRuleAppliesToScope c (trimSpace (resolvePolicyScope req.toPolicyCheckRequest).1)
          (trimSpace (resolvePolicyScope req.toPolicyCheckRequest).2) && c.tier = rule.tier) = none := by
    refine findSome?_eq_none_iff.2 fun c hc => ?_
    obtain ⟨hc, hsel⟩ := mem_filter.1 hc
    obtain ⟨earlier, hmem, hcm⟩ := mem_filterMap.1 hc
    rw [Bool.and_eq_true] at hsel
    cases hev : evaluateInputRule K.matchers S c (inputRequest req) with
    | none => rfl
    | some found => exact absurd ⟨hsel.1, hev⟩ (hear earlier hmem c hcm found)
  have hsf : (inputRuleAppliesToScope rule (trimSpace (resolvePolicyScope req.toPolicyCheckRequest).1)
      (trimSpace (resolvePolicyScope req.toPolicyCheckRequest).2) && decide (rule.tier = rule.tier)) := by
    rw [happ, decide_eq_true rfl]
    rfl
  rw [hno, filter_cons, if_pos hsf, Policy.firstInputMatch, findSome?_cons, hfd]
  rfl

theorem inputVerdict_eq_deny_iff :
    inputVerdict (requireHumanThreshold base (some inv)) req.hasAction rule findings = .deny ↔
      HardDeny base inv req rule findings := by
  unfold inputVerdict HardDeny
  cases rule.decision with
  | deny =>
    split_ifs with hdw
    · simp [hdw]
    · simp [hdw]
  | requireApproval => simp

/-- **When an invariant input scan that denies decides**: when the first match of a more specific
tier, if any, denies as well. -/
theorem input_floor_denies_iff {rule : CompiledInputRule} {findings : List Finding}
    (hbase : (baseDecision K base (some inv) req).decision.Scanned)
    (h : FloorScan K S base inv req rule findings) :
    (evaluate K S base (some inv) req).decision = .deny ↔
      ∀ other found, firstInputMatch K.matchers S (inputRequest req)
        (moreSpecificRules S base inv req rule.tier) =
        some (other, found) → HardDeny base inv req other found := by
  have htr : isValidPolicyTier rule.tier := by
    obtain ⟨before, raw, after, -, hcom, -⟩ := h.listed
    exact tier_of_compileInputRule hcom
  obtain ⟨rest, hrs⟩ := requestInputRules_eq htr
  have hfst : firstInputMatch K.matchers S (inputRequest req) (requestInputRules S base (some inv) req) =
      (firstInputMatch K.matchers S (inputRequest req) (moreSpecificRules S base inv req rule.tier)).or
        (some (rule, findings)) := by
    rw [hrs, firstInputMatch_append, firstInputMatch_append, h.firstInputMatch,
      Option.or_assoc, Option.some_or]
  rw [evaluate]
  rw [if_pos hbase, hfst]
  cases firstInputMatch K.matchers S (inputRequest req) (moreSpecificRules S base inv req rule.tier) with
  | none =>
    refine iff_of_true ?_ fun _ _ hno => nomatch hno
    exact inputVerdict_eq_deny_iff.2 h.denies
  | some other =>
    obtain ⟨other, found⟩ := other
    refine inputVerdict_eq_deny_iff.trans ⟨fun hdn m f hm => ?_, fun hall => hall other found rfl⟩
    cases hm
    exact hdn

/-! ## A scan that is crossed -/

/-- No scanner finds anything: enough for rules on metadata. -/
def Scanning.silent : Scanning where
  patternValid _ := true
  patternMatch _ _ := false
  keywordScan _ _ := []
  registry _ := none
  scopeValid _ := true
  scopeFindings _ _ := (false, [])

/-- A floor of one rule. -/
def denyScan : SafetyPolicy := { inputRules := [{ id := "floor", decision := "deny" }] }

/-- A policy whose workflow rule asks a human. -/
def approvingWorkflow : SafetyPolicy where
  rules := [{ id := "open", decision := "allow" }]
  inputRules :=
    [{ id := "ask", tier := "workflow", selector := { workflowID := "wf" }, decision := "require_human" }]

/-- A request of that workflow. -/
def workflowRequest : KernelRequest := { topic := "job.default", labels := [("workflow_id", "wf")] }

/-- The rule of the floor, compiled. -/
def compiledDenyScan : CompiledInputRule where
  id := "floor"
  tier := .global
  selector := {}
  decision := .deny
  reason := ""
  severity := "high"
  tenants := []
  topics := []
  capabilities := []
  riskTags := []
  contentTypes := []
  scanners := []
  patterns := []
  keywords := []
  maxBytes := 0
  scope := none

theorem denyScan_floorScan :
    FloorScan quietKernel .silent (some approvingWorkflow) denyScan workflowRequest
      compiledDenyScan [] where
  listed := ⟨[], { id := "floor", decision := "deny" }, [], rfl, by decide +kernel,
    fun _ hmem => absurd hmem not_mem_nil⟩
  found := ⟨rfl, by decide +kernel⟩
  denies := ⟨rfl, by decide +kernel⟩

theorem input_floor_denies_iff_workflow :
    (evaluate quietKernel .silent (some approvingWorkflow) (some denyScan) workflowRequest).decision =
      .deny ↔ ∀ other found, firstInputMatch quietKernel.matchers .silent (inputRequest workflowRequest)
        (moreSpecificRules .silent (some approvingWorkflow) denyScan workflowRequest
          compiledDenyScan.tier) =
          some (other, found) → HardDeny (some approvingWorkflow) denyScan workflowRequest other found :=
  input_floor_denies_iff (by decide +kernel) denyScan_floorScan

/-- The invariant rule denies, and the answer is to ask for an approval. -/
theorem input_floor_crossed :
    (baseDecision quietKernel (some approvingWorkflow) (some denyScan) workflowRequest).decision = .allow ∧
      FloorScan quietKernel .silent (some approvingWorkflow) denyScan workflowRequest compiledDenyScan [] ∧
      (evaluate quietKernel .silent (some approvingWorkflow) (some denyScan) workflowRequest).decision =
        .requireApproval :=
  ⟨by decide +kernel, denyScan_floorScan, by decide +kernel⟩

/-! ## Truncated content -/

section

variable {M : Matchers} {q : InputEvaluateRequest}

/-- A rule that reads no content matches by its metadata and size bound. -/
theorem evaluateInputRule_plain (hs : inputRuleContentSensitive rule = false) :
    (evaluateInputRule M S rule q).isSome ↔
      inputMetadataMatches M rule q ∧ (rule.maxBytes > 0 → (evaluateInputSizeRule rule q).isSome) := by
  have hno := hs
  simp only [inputRuleContentSensitive, inputRuleUsesContentMatchers,
    Bool.or_eq_false_iff, Bool.not_eq_false',
    List.isEmpty_iff, Option.isSome_eq_false_iff, Option.isNone_iff_eq_none] at hno
  obtain ⟨⟨⟨hsca, hpat⟩, hkey⟩, hsc⟩ := hno
  rw [evaluateInputRule, hs]
  cases inputMetadataMatches M rule q with
  | false => simp
  | true =>
    by_cases hsz : rule.maxBytes > 0
    · simp [hsz]
    · have hmis : evaluateMissingInputRule rule = some [] := by
        rw [evaluateMissingInputRule, hs, hsc]
        rfl
      have hcon : evaluateInputContentRule S rule q.content = some [] := by
        simp [evaluateInputContentRule, scanInputScope, scanInputPatterns,
          scanInputKeywords, scanInputNamedScanners,
          inputRuleUsesContentMatchers, hsca, hpat, hkey, hsc]
      simp [hsz, hmis, hcon]

/-- **Truncation hides nothing.** A rule that matches the whole content matches every part of it that
arrives under the whole size. -/
theorem truncation_keeps_match {p : Content} (hp : p <+: q.content) (hne : p ≠ q.content)
    (h : (evaluateInputRule M S rule { q with inputSize := q.content.length }).isSome) :
    (evaluateInputRule M S rule { q with content := p, inputSize := q.content.length }).isSome := by
  have hlen : p.length < q.content.length :=
    lt_of_le_of_ne hp.length_le fun heq => hne (hp.eq_of_length heq)
  by_cases hs : inputRuleContentSensitive rule
  · -- the declared size gives the cut away
    have hcut : inputContentIncomplete { q with content := p, inputSize := q.content.length } = true :=
      decide_eq_true (Int.ofNat_lt.2 hlen)
    have hm : inputMetadataMatches M rule { q with inputSize := q.content.length } ≠ false := by
      intro hm
      rw [evaluateInputRule, if_pos hm] at h
      cases h
    rw [evaluateInputRule, if_neg (by exact hm), hs, hcut]
    rfl
  · rw [Bool.not_eq_true] at hs
    rw [evaluateInputRule_plain hs] at h ⊢
    have hsz : ¬ (q.content.length : ℤ) ≤ 0 := by omega
    refine ⟨h.1, fun hmax => ?_⟩
    have hru := h.2 hmax
    rw [evaluateInputSizeRule] at hru ⊢
    rw [if_neg hsz] at hru ⊢
    exact hru

/-- A registry with one scanner, which looks for the bytes of "ok" at the end. -/
def Scanning.endsOk : Scanning := { Scanning.silent with
  registry := fun name => if name = "ok" then some fun content =>
    if [111, 107] <:+ content then [⟨"ok", "high", "", "ok", 0, ""⟩] else [] else none }

/-- What the scanner would find is cut off. -/
theorem truncation_keeps_scanner_match :
    (evaluateInputRule .literal .endsOk { compiledDenyScan with scanners := ["ok"] }
      { tenant := "t", topic := "job.x", content := [33, 111], inputSize := 3 }).isSome :=
  truncation_keeps_match (q := { tenant := "t", topic := "job.x", content := [33, 111, 107] })
    (p := [33, 111]) (by decide) (by decide) (by decide +kernel)

end

end Cordum.Policy
