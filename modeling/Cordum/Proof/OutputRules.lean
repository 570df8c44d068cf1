import Cordum.Policy.Output

/-!
# Which outputs a rule matches

`output_rule_matches_iff`: an output rule matches what it describes, except that content without any
match of its patterns counts as matched, and that of the card-like matches only the first ten are
looked at.
-/

namespace Cordum.Policy

open GoString Utf8 List OutputScanner

variable (M : Matchers) (U : CaseMap) (registry : String → Option OutputScanner)
  (rule : CompiledOutputRule)
  (req : OutputEvaluateRequest) {keyword text : Bytes} {out findings : List ScanFinding} {pos n : ℕ}
  {keywords names : List String} {content : Content}

/-! ## What a rule describes -/

/-- One of the expressions matches. -/
def PatternOccurs (patterns : List Expression) (content : Content) : Prop :=
  ∃ re ∈ patterns, re content ≠ []

/-- One of the keywords stands in the content, in whatever case. -/
def KeywordOccurs (keywords : List String) (content : Content) : Prop :=
  ∃ kw ∈ keywordEntries U keywords, kw.2 <:+: U.toLower content

/-- A named scanner has something to find; `limit` cuts the matches. -/
def ScannerOccurs (limit : List (ℕ × ℕ) → List (ℕ × ℕ)) (names : List String) (content : Content) : Prop :=
  ∃ name ∈ names, ∃ s, registry (normalizeScannerName name) = some s ∧ s.found U limit content ≠ []

/-- **What the rule describes.** -/
structure Described : Prop where
  metadata : outputMetadataMatches M rule req
  size : outputSizeExceeded rule req
  patterns : rule.patterns = [] ∨ PatternOccurs rule.patterns req.outputContent
  keywords : rule.keywords = [] ∨ KeywordOccurs U rule.keywords req.outputContent
  scanners : rule.scanners = [] ∨ ScannerOccurs U registry id rule.scanners req.outputContent

/-- The other terms hold, and no pattern occurs; or a scanner would find something only behind the
first ten card-like matches; or the content is empty. -/
structure Misjudged : Prop where
  metadata : outputMetadataMatches M rule req
  size : outputSizeExceeded rule req
  keywords : rule.keywords = [] ∨ KeywordOccurs U rule.keywords req.outputContent
  content :
    (req.outputContent ≠ [] ∧ (rule.patterns ≠ [] ∧ ¬ PatternOccurs rule.patterns req.outputContent) ∧
      (rule.scanners = [] ∨
        ScannerOccurs U registry (·.take maxFindingsPerPattern) rule.scanners req.outputContent)) ∨
    (req.outputContent ≠ [] ∧ (rule.patterns = [] ∨ PatternOccurs rule.patterns req.outputContent) ∧
      ScannerOccurs U registry id rule.scanners req.outputContent ∧
      ¬ ScannerOccurs U registry (·.take maxFindingsPerPattern) rule.scanners req.outputContent) ∨
    (req.outputContent = [] ∧ (rule.patterns ≠ [] ∨ rule.scanners ≠ []) ∧
      (rule.patterns = [] ∨ PatternOccurs rule.patterns req.outputContent) ∧
      (rule.scanners = [] ∨ ScannerOccurs U registry id rule.scanners req.outputContent))

/-! ## Keywords -/

/-- The loop over `strings.Index` finds a keyword that is there. -/
theorem keywordHits_eq_nil (hk : keyword ≠ []) :
    keywordHits keyword 0 pos text = [] ↔ ¬ keyword <:+: text := by
  induction text generalizing pos with
  | nil =>
    rw [infix_nil]
    exact ⟨fun _ => hk, fun _ => rfl⟩
  | cons b text ih =>
    rw [infix_cons_iff, keywordHits]
    by_cases hp : keyword.isPrefixOf (b :: text)
    · rw [if_pos hp]
      exact ⟨nofun, absurd (.inl (List.isPrefixOf_iff_prefix.1 hp))⟩
    · rw [if_neg hp, ih, not_or]
      exact ⟨fun h => ⟨fun hpre => hp (List.isPrefixOf_iff_prefix.2 hpre), h⟩, And.right⟩

theorem toLower_ne_nil (h : text ≠ []) : U.toLower text ≠ [] := by
  have hlow : ∀ p, U.lowerPiece p ≠ [] := by
    intro p
    cases p with
    | rune r => exact U.lower_ne_nil r
    | stray b => exact cons_ne_nil _ _
  cases text with
  | nil => exact absurd rfl h
  | cons b s =>
    obtain ⟨p, ps, hp⟩ : ∃ p ps, pieces (b :: s) = p :: ps := by
      rw [pieces, piecesFrom]
      split
      · exact ⟨_, _, rfl⟩
      · exact ⟨_, _, rfl⟩
    rw [CaseMap.toLower, hp]
    exact append_ne_nil_of_left_ne_nil (hlow p) _

theorem keywordEntries_ne_nil {kw : String × Bytes} (h : kw ∈ keywordEntries U keywords) : kw.2 ≠ [] := by
  obtain ⟨word, hwr, rfl⟩ := mem_map.1 h
  refine toLower_ne_nil U fun hnil => ?_
  have hne : word ≠ "" := of_decide_eq_true (mem_filter.1 hwr).2
  exact hne (String.toByteArray_eq_empty_iff.1 (ByteArray.ext (Array.toList_inj.1 hnil)))

/-! ## The three classes -/

theorem scan_ne_nil {s : OutputScanner} (hc : content ≠ []) :
    s.scan U content ≠ [] ↔ s.found U (·.take maxFindingsPerPattern) content ≠ [] := by
  rw [scan, if_neg hc, Ne, take_eq_nil_iff]
  exact not_congr (or_iff_right (by decide))

theorem scan_keyword_ne_nil (hc : content ≠ []) (keywords : List String) :
    (OutputScanner.keyword keywords).scan U content ≠ [] ↔ KeywordOccurs U keywords content := by
  rw [scan_ne_nil U hc, found, Ne, flatMap_eq_nil_iff]
  push Not
  refine exists_congr fun kw => and_congr_right fun hkw => ?_
  rw [Ne, map_eq_nil_iff, keywordHits_eq_nil (keywordEntries_ne_nil U hkw), not_not]

theorem keywordOccurs_content (h : KeywordOccurs U keywords content) : content ≠ [] := by
  rintro rfl
  obtain ⟨kw, hkw, hin⟩ := h
  exact keywordEntries_ne_nil U hkw (infix_nil.1 hin)

/-- A pattern leaves a finding whether it matches or not. -/
theorem scanPatterns_eq_nil {text : Content} {patterns : List Expression}
    (h : scanPatterns rule text patterns out = []) : patterns = [] ∧ out = [] := by
  induction patterns generalizing out with
  | nil => exact ⟨rfl, h⟩
  | cons re patterns ih =>
    rw [scanPatterns] at h
    split at h
    · cases append_eq_nil_iff.1 (ih h).2 |>.2
    rename_i hht
    have hout : ∀ finding n, out ++ (((re text).take maxFindingsPerPattern).map finding).take
        (max 1 n) ≠ [] := by
      intro finding n hnil
      have htk := (append_eq_nil_iff.1 hnil).2
      rw [take_eq_nil_iff, map_eq_nil_iff] at htk
      exact htk.elim (by omega) hht
    dsimp only at h
    split at h
    · exact absurd h (hout _ _)
    · exact absurd (ih h).2 (hout _ _)

theorem scanNames_eq_nil : scanNames U registry content names out = [] ↔
      out = [] ∧ ∀ name ∈ names, ∀ s, registry (normalizeScannerName name) = some s →
      s.scan U content = [] := by
  induction names generalizing out with
  | nil => simp [scanNames]
  | cons name names ih =>
    rw [scanNames, forall_mem_cons]
    cases hs : registry (normalizeScannerName name) with
    | none => simp [ih]
    | some s =>
      simp only [Option.some.injEq, forall_eq']
      split
      · rename_i hlen
        rw [take_eq_nil_iff, append_eq_nil_iff]
        have hne : out ++ s.scan U content ≠ [] := by
          intro hnil
          rw [hnil] at hlen
          cases hlen
        rw [Ne, append_eq_nil_iff] at hne
        constructor
        · rintro (h | h)
          · cases h
          · exact absurd h hne
        · exact fun h => absurd ⟨h.1, h.2.1⟩ hne
      · rw [ih, append_eq_nil_iff, and_assoc]

/-! ## The verdict -/

theorem requireFindings_isSome {unused : Bool} :
    (requireFindings unused content findings).isSome ↔ unused ∨ (content ≠ [] ∧ findings ≠ []) := by
  unfold requireFindings
  cases unused with
  | true => simp
  | false =>
    by_cases h : content = [] ∨ findings = []
    · rw [if_pos h]
      exact ⟨nofun, fun hne => h.elim (fun hc => absurd hc (hne.resolve_left nofun).1)
        fun hf => absurd hf (hne.resolve_left nofun).2⟩
    · rw [if_neg h]
      exact ⟨fun _ => .inr (not_or.1 h), fun _ => rfl⟩

/-- **When a rule matches.** -/
theorem evaluateOutputRule_isSome : (evaluateOutputRule M U registry rule req).isSome ↔
      outputMetadataMatches M rule req ∧ outputSizeExceeded rule req ∧
      (rule.patterns = [] ∨ req.outputContent ≠ []) ∧
      (rule.keywords = [] ∨ KeywordOccurs U rule.keywords req.outputContent) ∧
      (rule.scanners = [] ∨ (req.outputContent ≠ [] ∧
        ScannerOccurs U registry (·.take maxFindingsPerPattern) rule.scanners req.outputContent)) := by
  have hp : (requireFindings rule.patterns.isEmpty req.outputContent
      (scanWithContentPatterns req.outputContent rule)).isSome ↔
      rule.patterns = [] ∨ req.outputContent ≠ [] := by
    rw [requireFindings_isSome, List.isEmpty_iff]
    by_cases hnil : rule.patterns = []
    · simp [hnil]
    · refine or_congr_right ⟨And.left, fun hc => ⟨hc, ?_⟩⟩
      rw [scanWithContentPatterns, if_neg hc]
      exact fun h => hnil (scanPatterns_eq_nil rule h).1
  have hk : (requireFindings rule.keywords.isEmpty req.outputContent
      ((keyword rule.keywords).scan U req.outputContent)).isSome ↔
        rule.keywords = [] ∨ KeywordOccurs U rule.keywords req.outputContent := by
    rw [requireFindings_isSome, List.isEmpty_iff]
    refine or_congr_right ⟨fun h => (scan_keyword_ne_nil U h.1 _).1 h.2, fun h => ?_⟩
    have hc := keywordOccurs_content U h
    exact ⟨hc, (scan_keyword_ne_nil U hc _).2 h⟩
  have hs : (requireFindings rule.scanners.isEmpty req.outputContent
      (scanNames U registry req.outputContent rule.scanners [])).isSome ↔
        rule.scanners = [] ∨ (req.outputContent ≠ [] ∧
          ScannerOccurs U registry (·.take maxFindingsPerPattern) rule.scanners req.outputContent) := by
    rw [requireFindings_isSome, List.isEmpty_iff]
    refine or_congr_right (and_congr_right fun hc => ?_)
    rw [Ne, scanNames_eq_nil]
    push Not
    simp only [forall_const]
    exact exists_congr fun name => and_congr_right fun _ => exists_congr fun s => and_congr_right
      fun _ => scan_ne_nil U hc
  rw [← hp, ← hk, ← hs, evaluateOutputRule]
  cases outputMetadataMatches M rule req with
  | false => simp
  | true =>
    cases outputSizeExceeded rule req with
    | false => simp
    | true =>
      dsimp only
      generalize requireFindings rule.patterns.isEmpty _ _ = a
      generalize requireFindings rule.keywords.isEmpty _ _ = b
      generalize requireFindings rule.scanners.isEmpty _ _ = c
      cases a <;> cases b <;> cases c <;> simp

/-- Cutting the matches only takes findings away. -/
theorem ScannerOccurs.of_take
    (h : ScannerOccurs U registry (·.take n) names content) :
    ScannerOccurs U registry id names content := by
  obtain ⟨name, hnm, s, hs, hne⟩ := h
  refine ⟨name, hnm, s, hs, fun hnil => hne ?_⟩
  cases s with
  | regex scanner findingType patterns =>
    simp only [found, flatMap_eq_nil_iff, map_eq_nil_iff, id_eq] at hnil ⊢
    intro p hp
    rw [hnil p hp, take_nil]
  | pii s =>
    simp only [found, append_eq_nil_iff, map_eq_nil_iff, filter_eq_nil_iff, id_eq] at hnil ⊢
    obtain ⟨⟨⟨hema, hssn⟩, hpho⟩, hcr⟩ := hnil
    rw [hema, hssn, hpho, take_nil]
    exact ⟨⟨⟨rfl, rfl⟩, rfl⟩, fun hit hhit => hcr hit (mem_of_mem_take hhit)⟩
  | keyword keywords => exact hnil

/-- **A rule matches exactly what it describes, unless it is misjudged.** -/
theorem output_rule_matches_iff :
    ((evaluateOutputRule M U registry rule req).isSome = true ↔ Described M U registry rule req) ↔
      ¬ Misjudged M U registry rule req := by
  rw [evaluateOutputRule_isSome]
  have hsub := @ScannerOccurs.of_take U registry maxFindingsPerPattern rule.scanners req.outputContent
  have hnam : ScannerOccurs U registry (·.take maxFindingsPerPattern) rule.scanners req.outputContent ∨
      ScannerOccurs U registry id rule.scanners req.outputContent → rule.scanners ≠ [] := by
    rintro (⟨name, hnm, -⟩ | ⟨name, hnm, -⟩) hnil <;> rw [hnil] at hnm <;> cases hnm
  constructor
  · rintro hiff ⟨hm, hz, hk, ⟨hc, ⟨hus, hno⟩, hs⟩ | ⟨hc, hp, hs, hcut⟩ | ⟨hc, hus, hp, hs⟩⟩
    · -- no pattern occurs, and the rule matches all the same
      obtain ⟨-, -, hp, -, -⟩ := hiff.1 ⟨hm, hz, .inr hc, hk, hs.imp_right fun h => ⟨hc, h⟩⟩
      exact hp.elim hus hno
    · obtain ⟨-, -, -, -, hs'⟩ := hiff.2 ⟨hm, hz, hp, hk, .inr hs⟩
      exact hs'.elim (hnam (.inr hs)) fun h => hcut h.2
    · obtain ⟨-, -, hp', -, hs'⟩ := hiff.2 ⟨hm, hz, hp, hk, hs⟩
      rw [hc] at hp' hs'
      exact hus.elim (fun h => hp'.elim h fun h' => h' rfl) fun h => hs'.elim h fun h' => h'.1 rfl
  · intro hmis
    constructor
    · rintro ⟨hm, hz, hp, hk, hs⟩
      refine ⟨hm, hz, ?_, hk, hs.imp_right fun h => hsub h.2⟩
      by_contra hno
      rw [not_or] at hno
      have hc := hp.resolve_left hno.1
      exact hmis ⟨hm, hz, hk, .inl ⟨hc, hno, hs.imp_right And.right⟩⟩
    · rintro ⟨hm, hz, hp, hk, hs⟩
      by_cases hc : req.outputContent = []
      · refine ⟨hm, hz, .inl ?_, hk, .inl ?_⟩
        · by_contra hus
          exact hmis ⟨hm, hz, hk, .inr (.inr ⟨hc, .inl hus, hp, hs⟩)⟩
        · by_contra hus
          exact hmis ⟨hm, hz, hk, .inr (.inr ⟨hc, .inr hus, hp, hs⟩)⟩
      · refine ⟨hm, hz, .inr hc, hk, hs.imp_right fun h => ⟨hc, ?_⟩⟩
        by_contra hcut
        exact hmis ⟨hm, hz, hk, .inr (.inl ⟨hc, hp, h, hcut⟩)⟩

/-- The texts with a byte `s` in them. -/
def sExpression : Expression := fun text => (text.zipIdx.filter (·.1 = 115)).map fun b => (b.2, 1)

/-- **A rule for `s` matches the output `ok`**, with a timeout that did not happen. -/
theorem ok_matches_s :
    (evaluateOutputRule .literal .ascii (fun _ => none) { id := "s", patterns := [sExpression] }
      { outputContent := [111, 107] }).isSome = true ∧
    ¬ Described .literal .ascii (fun _ => none) { id := "s", patterns := [sExpression] }
      { outputContent := [111, 107] } := by
  refine ⟨by decide +kernel, fun h => ?_⟩
  rcases h.patterns with hnil | ⟨re, hre, hne⟩
  · cases hnil
  · rw [mem_singleton.1 hre] at hne
    exact hne (by decide +kernel)

end Cordum.Policy
