import Cordum.Codec.Utf8
import Cordum.Policy.Input

/-!
# Scanners, output rules and redaction

After `scanners.go`, `output_policy.go` and `content_redact.go` of `core/controlplane/safetykernel`. A
regular expression is what it finds in a text, and the case mapping of runes is a parameter. No
evaluation of an expression times out.
-/

namespace Cordum.Policy

open GoString Utf8

/-! ## Scanners -/

/-- `regexp.Regexp`: the offsets and lengths of its matches, leftmost first, without overlaps. -/
abbrev Expression := Content → List (ℕ × ℕ)

/-- `outputFinding`, without the excerpt of what matched. -/
structure ScanFinding where
  type : String
  severity : String
  detail : String
  offset : ℕ := 0
  length : ℕ := 0
  scanner : String
  confidence : ℚ := 0
deriving DecidableEq

/-- `unicode.ToLower`, from the bytes of a rune to those of another. -/
structure CaseMap where
  lower : Bytes → Bytes
  lower_ne_nil : ∀ r, lower r ≠ []

/-- The case mapping of ASCII letters. -/
def CaseMap.ascii : CaseMap where
  lower r := match r with
    | [b] => [if 65 ≤ b ∧ b ≤ 90 then b + 32 else b]
    | b :: r => b :: r
    | [] => [0]
  lower_ne_nil r := by
    split <;> exact List.cons_ne_nil _ _

/-- `strings.ToLower`: a byte of no rune becomes U+FFFD. -/
def CaseMap.lowerPiece (U : CaseMap) : Piece → Bytes
  | .rune r => U.lower r
  | .stray _ => Piece.replacement

/-- `bytes.ToLower`. -/
def CaseMap.toLower (U : CaseMap) (text : Bytes) : Bytes := (pieces text).flatMap U.lowerPiece

/-- A named expression of a scanner. -/
structure RegexPattern where
  label : String
  severity : String
  expression : Expression
  confidence : ℚ

/-- The expressions for personal data. -/
structure PIIScanner where
  email : Expression
  ssn : Expression
  phone : Expression
  card : Expression

/-- The implementations of `OutputScanner`. -/
inductive OutputScanner
  | regex (name findingType : String) (patterns : List RegexPattern)
  | pii (s : PIIScanner)
  | keyword (keywords : List String)

/-- The matches that are looked at. -/
def maxFindingsPerPattern : ℕ := 10

/-- `digitsOnly`, as numbers. -/
def digitsOnly (raw : Content) : List ℕ :=
  (raw.map UInt8.toNat).filterMap fun b => if 48 ≤ b ∧ b ≤ 57 then some (b - 48) else none

/-- The sum of `luhnValid`, from the last digit on. -/
def luhnSum : Bool → List ℕ → ℕ
  | _, [] => 0
  | double, d :: ds =>
    (if double then if 2 * d > 9 then 2 * d - 9 else 2 * d else d) + luhnSum (!double) ds

/-- The check of card numbers. -/
def luhnValid (digits : List ℕ) : Bool := digits ≠ [] && luhnSum false digits.reverse % 10 = 0

/-- The checks of `piiScanner.Scan` on a match of the card expression. -/
def isCard (text : Content) (hit : ℕ × ℕ) : Bool :=
  let digits := digitsOnly ((text.drop hit.1).take hit.2)
  13 ≤ digits.length && digits.length ≤ 19 && luhnValid digits

/-- The positions that the loop over `strings.Index` visits, `skip` bytes behind the last one. -/
def keywordHits (keyword : Bytes) : (skip pos : ℕ) → Bytes → List ℕ
  | _, _, [] => []
  | skip + 1, pos, _ :: text => keywordHits keyword skip (pos + 1) text
  | 0, pos, b :: text =>
    if keyword.isPrefixOf (b :: text) then pos :: keywordHits keyword (keyword.length - 1) (pos + 1) text
    else keywordHits keyword 0 (pos + 1) text

/-- The entries of `newKeywordScanner`: a keyword and its lower case. -/
def keywordEntries (U : CaseMap) (keywords : List String) : List (String × Bytes) :=
  (normalizeList keywords).map fun kw => (kw, U.toLower kw.toUTF8.data.toList)

/-- What a scanner finds in a text, with `limit` on the matches of each expression. -/
def OutputScanner.found (U : CaseMap) (limit : List (ℕ × ℕ) → List (ℕ × ℕ)) (text : Content) :
    OutputScanner → List ScanFinding
  | regex name findingType patterns =>
    patterns.flatMap fun p => (limit (p.expression text)).map fun hit =>
      ⟨findingType, p.severity, p.label, hit.1, hit.2, name, p.confidence⟩
  | pii s =>
    let finding (confidence : ℚ) (detail : String) (hit : ℕ × ℕ) : ScanFinding :=
      ⟨"pii", "high", detail, hit.1, hit.2, "pii", confidence⟩
    (limit (s.email text)).map (finding 0.9 "email address detected") ++
    (limit (s.ssn text)).map (finding 0.9 "ssn detected") ++
    (limit (s.phone text)).map (finding 0.9 "phone number detected") ++
    ((limit (s.card text)).filter (isCard text)).map (finding 0.95 "payment card number detected")
  | keyword keywords =>
    (keywordEntries U keywords).flatMap fun kw => (keywordHits kw.2 0 0 (U.toLower text)).map fun pos =>
      ⟨"keyword_match", "high", "keyword matched: " ++ kw.1, pos, kw.2.length, "keyword", 1⟩

/-- `Scan`: ten matches of an expression, and at most 32 findings. -/
def OutputScanner.scan (U : CaseMap) (s : OutputScanner) (content : Content) : List ScanFinding :=
  if content = [] then []
  else (s.found U (·.take maxFindingsPerPattern) content).take maxFindingsPerScanner

/-! ## Output rules -/

/-- What an output rule decides. -/
inductive OutputDecision
  | allow
  | quarantine
  | redact
deriving DecidableEq

/-- The decision a text stands for. -/
def parseOutputDecision (raw : String) : Option OutputDecision :=
  let decision := GoString.toLower (trimSpace raw)
  if decision = "allow" then some .allow
  else if decision = "quarantine" ∨ decision = "deny" then some .quarantine
  else if decision = "redact" then some .redact
  else none

/-- A rule with its expressions compiled. -/
structure CompiledOutputRule where
  id : String
  decision : OutputDecision := .quarantine
  reason : String := ""
  severity : String := "high"
  tenants : List String := []
  topics : List String := []
  capabilities : List String := []
  riskTags : List String := []
  contentTypes : List String := []
  scanners : List String := []
  patterns : List Expression := []
  keywords : List String := []
  maxOutputBytes : ℤ := 0
  hasError : Option Bool := none

/-- One rule of `compileOutputRules`; `compile` may refuse an expression. -/
def compileOutputRule (compile : String → Option Expression) (rule : OutputPolicyRule) :
    Option CompiledOutputRule :=
  if rule.enabled = some false then none
  else
    match parseOutputDecision rule.decision with
    | none => none
    | some decision =>
      let patterns := (normalizeList rule.terms.contentPatterns).filterMap compile
      if rule.terms.contentPatterns ≠ [] ∧ patterns.isEmpty then none
      else
        some
          { id := trimSpace rule.id
            decision := decision
            reason := trimSpace rule.reason
            severity := normalizeSeverity rule.severity
            tenants := normalizeList rule.terms.tenants
            topics := normalizeList rule.terms.topics
            capabilities := normalizeList rule.terms.capabilities
            riskTags := normalizeList rule.terms.riskTags
            contentTypes := normalizeList rule.terms.contentTypes
            scanners := mergeScannerLists rule.terms.scanners rule.terms.detectors
            patterns := patterns
            keywords := normalizeList rule.terms.keywords
            maxOutputBytes := max rule.terms.maxOutputBytes rule.terms.outputSizeGt
            hasError := rule.terms.hasError }

/-- The rules that can be compiled. -/
def compileOutputRules (compile : String → Option Expression) (policy : Option SafetyPolicy) :
    List CompiledOutputRule :=
  match policy with
  | none => []
  | some p => p.outputRules.filterMap (compileOutputRule compile)

/-- `outputPolicyEnabled`: rules without the block are enabled. -/
def outputPolicyEnabled (policy : Option SafetyPolicy) (rules : List CompiledOutputRule) : Bool :=
  match policy with
  | none => false
  | some p => !rules.isEmpty && (p.outputPolicy.enabled || trimSpace p.outputPolicy.failMode = "")

/-- `OutputEvaluateRequest`, as far as rules read it. -/
structure OutputEvaluateRequest where
  tenant : String := ""
  topic : String := ""
  capabilities : List String := []
  riskTags : List String := []
  contentType : String := ""
  errorMessage : String := ""
  errorCode : String := ""
  outputSizeBytes : ℤ := 0
  outputContent : Content := []

section

variable (M : Matchers) (U : CaseMap) (registry : String → Option OutputScanner)

/-- The metadata terms of `evaluateOutputRule`. -/
def outputMetadataMatches (rule : CompiledOutputRule) (req : OutputEvaluateRequest) : Bool :=
  listed rule.tenants (containsAnyFold M [req.tenant] rule.tenants) &&
  listed rule.topics (matchAny M rule.topics req.topic) &&
  listed rule.capabilities (containsAnyFold M req.capabilities rule.capabilities) &&
  listed rule.riskTags (containsAnyFold M req.riskTags rule.riskTags) &&
  listed rule.contentTypes (containsAnyFold M [req.contentType] rule.contentTypes) &&
  rule.hasError.all fun want => (trimSpace req.errorMessage ≠ "" || trimSpace req.errorCode ≠ "") == want

/-- The size bound of `evaluateOutputRule`. -/
def outputSizeExceeded (rule : CompiledOutputRule) (req : OutputEvaluateRequest) : Bool :=
  let size := if req.outputSizeBytes ≤ 0 then (req.outputContent.length : ℤ) else req.outputSizeBytes
  rule.maxOutputBytes ≤ 0 || rule.maxOutputBytes < size

/-- The finding for an expression without hits, also returned after a timeout. -/
def regexTimeout (rule : CompiledOutputRule) : ScanFinding where
  type := "regex_timeout"
  severity := "high"
  detail := "regex pattern timed out - possible ReDoS, output quarantined for safety"
  scanner := rule.id

/-- The loop of `scanWithContentPatterns`; only a hit looks at the count. -/
def scanPatterns (rule : CompiledOutputRule) (text : Content) :
    List Expression → List ScanFinding → List ScanFinding
  | [], out => out
  | re :: patterns, out =>
    let hits := (re text).take maxFindingsPerPattern
    if hits = [] then scanPatterns rule text patterns (out ++ [regexTimeout rule])
    else
      let found : List ScanFinding := hits.map fun hit =>
        ⟨"pattern_match", normalizeSeverity rule.severity, "content pattern matched", hit.1,
          hit.2, "content_pattern", 0.9⟩
      let out := out ++ found.take (max 1 (maxFindingsPerScanner - out.length))
      if out.length ≥ maxFindingsPerScanner then out else scanPatterns rule text patterns out

/-- The findings of the patterns of a rule. -/
def scanWithContentPatterns (content : Content) (rule : CompiledOutputRule) : List ScanFinding :=
  if content = [] then [] else scanPatterns rule content rule.patterns []

/-- The loop of `scanWithScanners`. -/
def scanNames (content : Content) : List String → List ScanFinding → List ScanFinding
  | [], out => out
  | name :: names, out =>
    match registry (normalizeScannerName name) with
    | none => scanNames content names out
    | some s =>
      let out := out ++ s.scan U content
      if out.length ≥ maxFindingsPerScanner then out.take maxFindingsPerScanner
        else scanNames content names out

/-- A class of matchers that the rule uses has to find something. -/
def requireFindings (unused : Bool) (content : Content) (findings : List ScanFinding) :
    Option (List ScanFinding) :=
  if unused then some [] else if content = [] ∨ findings = [] then none else some findings

/-- `evaluateOutputRule`: none when the rule does not match, else what was found. -/
def evaluateOutputRule (rule : CompiledOutputRule) (req : OutputEvaluateRequest) :
    Option (List ScanFinding) := do
  if outputMetadataMatches M rule req = false ∨ outputSizeExceeded rule req = false then none
  let content := req.outputContent
  let patterns ← requireFindings rule.patterns.isEmpty content (scanWithContentPatterns content rule)
  let keywords ← requireFindings rule.keywords.isEmpty content
      ((OutputScanner.keyword rule.keywords).scan U content)
  let scanners ← requireFindings rule.scanners.isEmpty content
      (scanNames U registry content rule.scanners [])
  return patterns ++ keywords ++ scanners

end

/-! ## Redaction -/

/-- `ContentScanOptions`, with the scanners that are selected. -/
structure ContentScanOptions where
  secrets : Option (List RegexPattern) := none
  pii : Option PIIScanner := none
  keywords : List String := []
  extraPatterns : List (String × Expression) := []

/-- The scanners that `ScanContent` selects. -/
def ContentScanOptions.scanners (opts : ContentScanOptions) : List OutputScanner :=
  (opts.secrets.map (.regex "secret_leak" "secret_leak")).toList ++ (opts.pii.map .pii).toList ++
  (if opts.keywords = [] then [] else [.keyword opts.keywords]) ++
  if opts.extraPatterns.isEmpty then []
  else [.regex "custom" "custom" (opts.extraPatterns.map fun p => ⟨p.1, "high", p.2, 0.9⟩)]

/-- By offset, and the longer span first. -/
def spanLE (f g : ScanFinding) : Bool := f.offset < g.offset ||
    (f.offset = g.offset && g.length ≤ f.length)

/-- The findings of all that is asked for. -/
def scanContent (U : CaseMap) (content : Content) (opts : ContentScanOptions) : List ScanFinding :=
  (opts.scanners.flatMap fun s => s.scan U content).mergeSort spanLE

/-- What `RedactContent` writes: a part of the content, or a mark. -/
inductive Segment
  | copy (start stop : ℕ)
  | mark (type : String)
deriving DecidableEq

/-- The loop of `RedactContent`. -/
def redactSegments (len : ℕ) : ℕ → List ScanFinding → List Segment
  | cursor, [] => [.copy cursor len]
  | cursor, f :: findings =>
    let stop := f.offset + f.length
    if len < stop then redactSegments len cursor findings
    else if f.offset < cursor then redactSegments len (max cursor stop) findings
    else .copy cursor f.offset :: .mark f.type :: redactSegments len stop findings

/-- A segment as text: a slice of the content, or the mark. -/
def Segment.bytes (content : Content) : Segment → Content
  | copy start stop => (content.take stop).drop start
  | mark type => ("<redacted:" ++ type ++ ">").toUTF8.data.toList

/-- What `RedactContent` makes of its findings. -/
def redactFindings (content : Content) (findings : List ScanFinding) : Content :=
  (redactSegments content.length 0 findings).flatMap (Segment.bytes content)

/-- The content with its findings masked. -/
def redactContent (U : CaseMap) (content : Content) (opts : ContentScanOptions) : Content :=
  redactFindings content (scanContent U content opts)

end Cordum.Policy
