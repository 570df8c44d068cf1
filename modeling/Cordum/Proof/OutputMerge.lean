import Cordum.Data.KeyedList
import Cordum.Policy.Output

/-!
# Output scanning in merged policies

`output_scanning_kept_iff`: when a merge, and when the invariants, leave output scanning on.
-/

namespace Cordum.Policy

open GoString Keyed List Function

/-! ## Merging by id -/

section

variable {T : Type} (id : T → String)

/-- The key of a rule is its id, if it has one. -/
def ruleKey (r : T) : Option String := if id r = "" then none else some (id r)

variable {id} {r r' : T} {s : (String → Option ℕ) × List T}

theorem ruleKey_ne_none (h : id r ≠ "") : ruleKey id r ≠ none := by
  rw [ruleKey, if_neg h]
  exact Option.some_ne_none _

theorem ruleKey_eq_iff (h : id r ≠ "") : ruleKey id r' = ruleKey id r ↔ id r' = id r := by
  unfold ruleKey
  by_cases h' : id r' = ""
  · simp [h, h']
  · simp [h, h']

/-- The map `seen` holds the last position of every id. -/
def Seen (id : T → String) (s : (String → Option ℕ) × List T) : Prop :=
  ∀ r, id r ≠ "" → s.1 (id r) = slot (ruleKey id) r s.2

theorem Seen.append (h : Seen id s) (r : T) :
    Seen id (if id r ≠ "" then update s.1 (id r) (some s.2.length) else s.1, s.2 ++ [r]) := by
  intro r' hr'
  have hno := ruleKey_ne_none hr'
  rw [slot_append_singleton, ← h r' hr']
  simp only [ne_eq, hno, not_false_eq_true, true_and, ruleKey_eq_iff hr']
  by_cases heq : id r = id r'
  · rw [if_pos heq, if_pos (by rw [heq]; exact hr'), heq, update_self]
  split
  · exact update_of_ne (Ne.symm heq) _ _
  · rfl

theorem seen_seenRules {base : List T} : Seen id (seenRules id base, base) := by
  induction base using reverseRecOn with
  | nil => exact fun _ _ => rfl
  | append_singleton base r ih =>
    have hsp : seenRules id (base ++ [r]) =
        if id r ≠ "" then update (seenRules id base) (id r) (some base.length) else seenRules id base := by
      rw [seenRules, zipIdx_append]
      simp [seenRules]
    rw [hsp]
    exact ih.append r

theorem Seen.mergeRule (h : Seen id s) (r : T) :
    Seen id (mergeRule id s r) ∧ (mergeRule id s r).2 = upsert (ruleKey id) s.2 r := by
  unfold Policy.mergeRule upsert
  by_cases hr : id r = ""
  · have hsl : slot (ruleKey id) r s.2 = none := slot_eq_none_iff.2 (.inl (if_pos hr))
    rw [if_pos hr, hsl]
    have happ := h.append r
    rw [if_neg (not_not.2 hr)] at happ
    exact ⟨happ, rfl⟩
  · rw [if_neg hr, h r hr]
    cases hsl : slot (ruleKey id) r s.2 with
    | none =>
      have happ := h.append r
      rw [if_pos hr] at happ
      exact ⟨happ, rfl⟩
    | some i => exact ⟨fun r' hr' => (h r' hr').trans (slot_congr rfl (map_key_set hsl).symm), rfl⟩

/-- **`MergeRulesByID` is the merge by keys.** -/
theorem mergeRulesByID_eq {base add : List T} :
    mergeRulesByID id base add = merge (ruleKey id) base add := by
  have hfl : ∀ add s, Seen id s → (add.foldl (mergeRule id) s).2 = merge (ruleKey id) s.2 add := by
    intro add
    induction add with
    | nil => exact fun _ _ => rfl
    | cons r add ih =>
      intro s hs
      obtain ⟨hsn, hli⟩ := hs.mergeRule r
      rw [foldl_cons, ih _ hsn, hli]
      rfl
  unfold mergeRulesByID
  split
  · rename_i hadd
    rw [isEmpty_iff.1 hadd]
    rfl
  · exact hfl add _ seen_seenRules

end

/-! ## Output scanning -/

variable (compile : String → Option Expression)

/-- Output scanning is on. -/
def scansOutput (p : Option SafetyPolicy) : Bool := outputPolicyEnabled p (compileOutputRules compile p)

/-- The rule is compiled. -/
def Active (rule : OutputPolicyRule) : Prop := (compileOutputRule compile rule).isSome

/-- The settings of two policies together leave scanning on. -/
def SwitchedOn (a b : OutputPolicyConfig) : Prop :=
  a.enabled ∨ b.enabled ∨ (trimSpace a.failMode = "" ∧ trimSpace b.failMode = "")

/-- The id of an output rule as merging sees it. -/
def outputKey : OutputPolicyRule → Option String := ruleKey fun r => trimSpace r.id

/-- A rule of `b` is compiled and no later one of `b` has its id; or one of `a` is, whose id is not in
`b` or comes again in `a`. -/
def RuleStays (a b : List OutputPolicyRule) : Prop :=
  Stays outputKey (Active compile) (fun k ks => k = none ∨ k ∉ ks) b ∨
    Stays outputKey (Active compile) (fun k ks => k = none ∨ k ∉ b.map outputKey ∨ k ∈ ks) a

theorem scansOutput_iff (p : SafetyPolicy) : scansOutput compile (some p) ↔
    (∃ r ∈ p.outputRules, Active compile r) ∧
      (p.outputPolicy.enabled ∨ trimSpace p.outputPolicy.failMode = "") := by
  rw [scansOutput, outputPolicyEnabled, Bool.and_eq_true, Bool.or_eq_true,
    decide_eq_true_eq, compileOutputRules,
    Bool.not_eq_true', Bool.eq_false_iff, Ne, List.isEmpty_iff, List.filterMap_eq_nil_iff]
  simp only [Active, Option.isSome_iff_ne_none, not_forall, exists_prop]

theorem switchedOn_iff {a b : OutputPolicyConfig} :
    SwitchedOn a b ↔ (mergeOutputPolicy a b).enabled ∨
      trimSpace (mergeOutputPolicy a b).failMode = "" := by
  unfold SwitchedOn mergeOutputPolicy
  rw [Bool.or_eq_true, or_assoc]
  refine or_congr_right (or_congr_right ?_)
  split
  · rename_i hbl
    rw [trimSpace_trimSpace, and_iff_right hbl]
  · rename_i hset
    exact ⟨fun h => absurd h.1 hset, fun h => absurd h hset⟩

theorem active_clone {rule : OutputPolicyRule} :
    Active compile (cloneOutputPolicyRule rule) ↔ Active compile rule := by
  unfold Active compileOutputRule
  simp only [cloneOutputPolicyRule, parseOutputDecision, trimSpace_trimSpace]
  split
  · exact Iff.rfl
  · split
    · exact Iff.rfl
    · split <;> exact Iff.rfl

theorem scansOutput_merge (a b : SafetyPolicy) : scansOutput compile (mergePolicies (some a) (some b)) ↔
      SwitchedOn a.outputPolicy b.outputPolicy ∧ RuleStays compile a.outputRules b.outputRules := by
  obtain ⟨hpl, hrul⟩ := applyPolicyTierMetadata_output (cloneSafetyPolicy a)
  obtain ⟨hplc, hru⟩ := applyPolicyTierMetadata_output (cloneSafetyPolicy b)
  have hpol : mergeOutputPolicy (cloneSafetyPolicyWithTierMetadata a).globalTier.outputPolicy
      (cloneSafetyPolicyWithTierMetadata b).outputPolicy =
      mergeOutputPolicy a.outputPolicy b.outputPolicy :=
    congrArg₂ mergeOutputPolicy hpl hplc
  have hrs : mergeRulesByID OutputPolicyRule.id
      (cloneSafetyPolicyWithTierMetadata a).globalTier.outputRules
      ((cloneSafetyPolicyWithTierMetadata b).outputRules.map cloneOutputPolicyRule) =
        merge (ruleKey OutputPolicyRule.id) (a.outputRules.map cloneOutputPolicyRule)
          (b.outputRules.map cloneOutputPolicyRule) := by
    have hb : (cloneSafetyPolicyWithTierMetadata b).outputRules.map cloneOutputPolicyRule =
        b.outputRules.map cloneOutputPolicyRule := by
      rw [cloneSafetyPolicyWithTierMetadata, hru]
      exact (map_map ..).trans (map_congr_left fun r _ => cloneOutputPolicyRule_clone)
    rw [mergeRulesByID_eq, hb]
    exact congrArg₂ _ hrul rfl
  rw [mergePolicies, scansOutput_iff, and_comm, mergeFields, hpol, hrs, ← switchedOn_iff,
    exists_merge_iff, stays_map, stays_map, map_map]
  simp only [active_clone]
  rfl

theorem scansOutput_invariants (base : Option SafetyPolicy) (inv : SafetyPolicy)
    (h : scansOutput compile (some inv)) :
    scansOutput compile (applyKernelInvariants base (some inv)) ↔
      SwitchedOn ((base.map (·.outputPolicy)).getD {}) inv.outputPolicy := by
  obtain ⟨⟨r, hr, hact⟩, -⟩ := (scansOutput_iff compile inv).1 h
  have hpol : ((base.map cloneSafetyPolicy).getD {}).outputPolicy =
      (base.map (·.outputPolicy)).getD {} := by
    cases base <;> rfl
  rw [applyKernelInvariants, scansOutput_iff, ← hpol, switchedOn_iff]
  exact and_iff_right ⟨r, mem_append_left _ hr, hact⟩

/-- **When output scanning stays on**: the settings leave it on, and for a merge a compiled rule
stays. -/
theorem output_scanning_kept_iff (a b inv : SafetyPolicy) (base : Option SafetyPolicy) :
    (((scansOutput compile (some a) = true ∨ scansOutput compile (some b) = true →
        scansOutput compile (mergePolicies (some a) (some b)) = true) ↔
      (scansOutput compile (some a) = true ∨ scansOutput compile (some b) = true →
        SwitchedOn a.outputPolicy b.outputPolicy ∧ RuleStays compile a.outputRules b.outputRules))) ∧
    ((scansOutput compile (some inv) = true →
      scansOutput compile (applyKernelInvariants base (some inv)) = true) ↔
      (scansOutput compile (some inv) = true →
        SwitchedOn ((base.map (·.outputPolicy)).getD {}) inv.outputPolicy)) :=
  ⟨imp_congr_right fun _ => scansOutput_merge compile a b,
    forall_congr' fun h => scansOutput_invariants compile base inv h⟩

/-- **A bundle with a fail mode and nothing else switches off the scanning of another.** -/
theorem fail_mode_switches_off :
    scansOutput (fun _ => none) (some { outputRules := [{ id := "r", decision := "deny" }] }) = true ∧
    scansOutput (fun _ => none)
      (mergePolicies (some { outputRules := [{ id := "r", decision := "deny" }] })
      (some { outputPolicy := { failMode := "closed" } })) = false := by
  decide +kernel

end Cordum.Policy
