import Cordum.Policy.Output

/-!
# What redaction leaves in a text

`redaction_masks_runs`: the output has one mark in place of each run of overlapping spans, and the
rest of the text. `redaction_complete_iff`: `RedactContent` copies no byte of an occurrence exactly
when each of these bytes lies in an occurrence that its scanner gets to: one of the first ten of its
expression, with fewer than 32 before it.
-/

namespace Cordum.Policy

open Utf8 List

/-! ## Occurrences -/

variable (U : CaseMap) (content : Content)

/-- The byte belongs to an occurrence of what the scanner looks for. -/
def OutputScanner.Occupies (i : ℕ) : OutputScanner → Prop
  | keyword keywords =>
    ∃ kw ∈ keywordEntries U keywords, ∃ before word after, pieces content = before ++ word ++ after ∧
      (∀ p ∈ word, p.isStray = false) ∧ word.flatMap U.lowerPiece = kw.2 ∧
      (before.flatMap Piece.bytes).length ≤ i ∧
      i < (before.flatMap Piece.bytes).length + (word.flatMap Piece.bytes).length
  | s => ∃ f ∈ s.found U id content, f.offset ≤ i ∧ i < f.offset + f.length

/-- A byte of the content that is to be redacted. -/
def Sensitive (opts : ContentScanOptions) (i : ℕ) : Prop :=
  i < content.length ∧ ∃ s ∈ opts.scanners, s.Occupies U content i

/-- The occurrences of one expression or keyword, with their lengths. A scanner looks at the first
`cap` of them and takes those that count. -/
structure Occurrences where
  spans : List (ℕ × ℕ)
  counts : ℕ × ℕ → Bool := fun _ => true
  cap : ℕ := maxFindingsPerPattern

/-- What is taken of them. -/
def Occurrences.taken (g : Occurrences) : List (ℕ × ℕ) := (g.spans.take g.cap).filter g.counts

/-- What a scanner looks for, in its order. Keywords are sought in lower case, without overlaps. -/
def OutputScanner.sought : OutputScanner → List Occurrences
  | regex _ _ patterns => patterns.map fun p => { spans := p.expression content }
  | pii s => [{ spans := s.email content }, { spans := s.ssn content }, { spans := s.phone content },
      { spans := s.card content, counts := isCard content }]
  | keyword keywords => (keywordEntries U keywords).map fun kw =>
      let hits := (keywordHits kw.2 0 0 (U.toLower content)).map (·, kw.2.length)
      { spans := hits, cap := hits.length }

/-- A scanner with room for `room` more findings gets to this occurrence: it is one of the first
`cap`, and there is still room. -/
def GetsTo (span : ℕ × ℕ) : (room : ℕ) → List Occurrences → Prop
  | _, [] => False
  | room, g :: sought =>
    (∃ left right, g.spans = left ++ span :: right ∧ left.length < g.cap ∧ g.counts span ∧
      left.countP g.counts < room) ∨ GetsTo span (room - g.taken.length) sought

/-- The byte lies in an occurrence inside the content that a scanner gets to. -/
def Reached (opts : ContentScanOptions) (i : ℕ) : Prop :=
  ∃ s ∈ opts.scanners, ∃ span, GetsTo span maxFindingsPerScanner (s.sought U content) ∧
    span.1 + span.2 ≤ content.length ∧ span.1 ≤ i ∧ i < span.1 + span.2

/-- Some segment copies the byte at this position. -/
def Copies (segments : List Segment) (i : ℕ) : Prop :=
  ∃ start stop, .copy start stop ∈ segments ∧ start ≤ i ∧ i < stop

/-! ## The cursor -/

theorem copies_cons_copy {start stop i : ℕ} {segments : List Segment} {type : String} :
    Copies (.copy start stop :: .mark type :: segments) i ↔
      (start ≤ i ∧ i < stop) ∨ Copies segments i := by
  constructor
  · rintro ⟨a, b, hmem, hi⟩
    rcases mem_cons.1 hmem with heq | hmem
    · cases heq
      exact .inl hi
    · exact .inr ⟨a, b, (mem_cons.1 hmem).resolve_left nofun, hi⟩
  · rintro (hi | ⟨a, b, hmem, hi⟩)
    · exact ⟨start, stop, mem_cons_self, hi⟩
    · exact ⟨a, b, mem_cons_of_mem _ (mem_cons_of_mem _ hmem), hi⟩

/-- **What the loop copies**: from the cursor on, what no span covers. -/
theorem copies_redactSegments {len i : ℕ} {findings : List ScanFinding}
    (hsrd : findings.Pairwise fun f g => f.offset ≤ g.offset) {cursor : ℕ} :
    Copies (redactSegments len cursor findings) i ↔ cursor ≤ i ∧ i < len ∧
      ∀ f ∈ findings, f.offset + f.length ≤ len → ¬ (f.offset ≤ i ∧ i < f.offset + f.length) := by
  induction findings generalizing cursor with
  | nil => simp [redactSegments, Copies]
  | cons f findings ih =>
    obtain ⟨hfst, hrs⟩ := pairwise_cons.1 hsrd
    rw [redactSegments, forall_mem_cons]
    by_cases hout : len < f.offset + f.length
    · rw [if_pos hout, ih hrs]
      exact and_congr_right fun _ => and_congr_right
        fun _ => ⟨fun hfr => ⟨fun _ => by omega, hfr⟩, And.right⟩
    rw [if_neg hout]
    by_cases hov : f.offset < cursor
    · rw [if_pos hov, ih hrs]
      constructor
      · rintro ⟨hc, hi, hfr⟩
        exact ⟨by omega, hi, fun _ => by omega, hfr⟩
      · rintro ⟨hc, hi, hf, hfr⟩
        exact ⟨by omega, hi, hfr⟩
    · rw [if_neg hov, copies_cons_copy, ih hrs]
      constructor
      · rintro (⟨hc, hi⟩ | ⟨hc, hi, hfr⟩)
        · -- the spans behind begin later
          refine ⟨hc, by omega, fun _ => by omega, fun g hg _ => ?_⟩
          have hle := hfst g hg
          omega
        · exact ⟨by omega, hi, fun _ => by omega, hfr⟩
      · rintro ⟨hc, hi, hf, hfr⟩
        by_cases hbef : i < f.offset
        · exact .inl ⟨hc, hbef⟩
        · exact .inr ⟨by omega, hi, hfr⟩

/-! ## Runs of spans -/

theorem spanLE_iff {f g : ScanFinding} : spanLE f g ↔ f.offset < g.offset ∨
    (f.offset = g.offset ∧ g.length ≤ f.length) := by
  simp [spanLE]

theorem offset_le_of_spanLE {f g : ScanFinding} (h : spanLE f g) : f.offset ≤ g.offset := by
  have := spanLE_iff.1 h
  omega

/-- A span, and those behind it that overlap. -/
structure Run where
  first : ScanFinding
  others : List ScanFinding

/-- All findings of the run. -/
def Run.findings (r : Run) : List ScanFinding := r.first :: r.others

/-- How far the spans reach. -/
def reach (cursor : ℕ) (findings : List ScanFinding) : ℕ :=
  findings.foldl (fun c f => max c (f.offset + f.length)) cursor

/-- Where the run ends. -/
def Run.stop (r : Run) : ℕ := reach (r.first.offset + r.first.length) r.others

/-- Each span begins before the end of what those ahead of it cover. -/
def Overlapping : ℕ → List ScanFinding → Prop
  | _, [] => True
  | cursor, f :: findings => f.offset < cursor ∧ Overlapping (max cursor (f.offset + f.length)) findings

/-- A mark for each run, and the text between them. -/
def maskRuns (content : Content) : ℕ → List Run → Content
  | cursor, [] => content.drop cursor
  | cursor, r :: runs => (content.take r.first.offset).drop cursor ++
      (("<redacted:" ++ r.first.type ++ ">").toUTF8.data.toList ++ maskRuns content r.stop runs)

/-- The slices lie within the text, each one behind the last. -/
def Ascending (len : ℕ) : ℕ → List Segment → Prop
  | _, [] => True
  | cursor, .mark _ :: segments => Ascending len cursor segments
  | cursor, .copy start stop :: segments =>
    cursor ≤ start ∧ start ≤ stop ∧ stop ≤ len ∧ Ascending len stop segments

section

variable {content : Content} {cursor : ℕ} {findings : List ScanFinding}
  (hrg : ∀ f ∈ findings, f.offset + f.length ≤ content.length)

include hrg

theorem ascending_redactSegments (hcur : cursor ≤ content.length) {start : ℕ} (hsrt : start ≤ cursor) :
    Ascending content.length start (redactSegments content.length cursor findings) := by
  induction findings generalizing cursor start with
  | nil => exact ⟨hsrt, hcur, le_rfl, trivial⟩
  | cons f findings ih =>
    obtain ⟨hf, hrg⟩ := forall_mem_cons.1 hrg
    rw [redactSegments, if_neg (Nat.not_lt.2 hf)]
    split
    · exact ih hrg (max_le hcur hf) (hsrt.trans (le_max_left ..))
    · exact ⟨hsrt, by omega, by omega, ih hrg hf (Nat.le_add_right ..)⟩

/-- The loop from a cursor: the spans that still overlap, and the runs behind them. -/
theorem exists_runs (hsrd : findings.Pairwise fun f g => f.offset ≤ g.offset) (cursor : ℕ) :
    ∃ ahead runs, findings = ahead ++ runs.flatMap Run.findings ∧ Overlapping cursor ahead ∧
      (∀ r ∈ runs, Overlapping (r.first.offset + r.first.length) r.others) ∧
      runs.Pairwise (fun r r' => ∀ g ∈ r'.findings, r.stop ≤ g.offset) ∧
      (∀ r ∈ runs, ∀ g ∈ r.findings, reach cursor ahead ≤ g.offset) ∧
      (redactSegments content.length cursor findings).flatMap (Segment.bytes content) =
        maskRuns content (reach cursor ahead) runs := by
  induction findings generalizing cursor with
  | nil => exact ⟨[], [], rfl, trivial, forall_mem_nil _, .nil,
      forall_mem_nil _, by simp [redactSegments, Segment.bytes]; rfl⟩
  | cons f findings ih =>
    obtain ⟨hf, hrg⟩ := forall_mem_cons.1 hrg
    obtain ⟨hfst, hsrd⟩ := pairwise_cons.1 hsrd
    rw [redactSegments, if_neg (Nat.not_lt.2 hf)]
    split
    · rename_i hov
      obtain ⟨ahead, runs, hsp, hahe, hrs⟩ := ih hrg hsrd (max cursor (f.offset + f.length))
      exact ⟨f :: ahead, runs, by rw [hsp]; rfl, ⟨hov, hahe⟩, hrs⟩
    · rename_i hov
      obtain ⟨ahead, runs, hsp, hahe, hrn, hapa, hbeh, heq⟩ := ih hrg hsrd (f.offset + f.length)
      refine ⟨[], ⟨f, ahead⟩ :: runs, by rw [hsp]; rfl, trivial, forall_mem_cons.2 ⟨hahe, hrn⟩,
        pairwise_cons.2 ⟨hbeh, hapa⟩, fun r hr g hg => ?_, ?_⟩
      · -- every span is no earlier than this one
        have hmem : g ∈ f :: findings := by
          rw [hsp]
          exact mem_flatMap.2 ⟨r, hr, hg⟩
        rcases mem_cons.1 hmem with rfl | hmem
        · exact Nat.not_lt.1 hov
        · exact (Nat.not_lt.1 hov).trans (hfst g hmem)
      · rw [flatMap_cons, flatMap_cons, heq]
        rfl

/-- **Redaction masks exactly the reported spans.** The output has one mark for each run of
overlapping spans and the text between them; a byte is copied if no span covers it. -/
theorem redaction_masks_runs (hsrd : findings.Pairwise fun f g => spanLE f g) :
    (∃ runs : List Run, findings = runs.flatMap Run.findings ∧
      (∀ r ∈ runs, Overlapping (r.first.offset + r.first.length) r.others) ∧
      runs.Pairwise (fun r r' => ∀ g ∈ r'.findings, r.stop ≤ g.offset) ∧
      redactFindings content findings = maskRuns content 0 runs) ∧
    Ascending content.length 0 (redactSegments content.length 0 findings) ∧
    (∀ i, Copies (redactSegments content.length 0 findings) i ↔
      i < content.length ∧ ∀ f ∈ findings, ¬ (f.offset ≤ i ∧ i < f.offset + f.length)) ∧
    ∀ U opts, scanContent U content opts = findings → redactContent U content opts =
    redactFindings content findings := by
  have hoff := hsrd.imp offset_le_of_spanLE
  refine ⟨?_, ascending_redactSegments hrg (Nat.zero_le _) le_rfl, fun i => ?_, ?_⟩
  · obtain ⟨ahead, runs, hsp, hahe, hrn, hapa, -, heq⟩ := exists_runs hrg hoff 0
    cases ahead with
    | nil => exact ⟨runs, hsp, hrn, hapa, heq⟩
    | cons f ahead => exact absurd hahe.1 (Nat.not_lt_zero _)
  · rw [copies_redactSegments hoff]
    exact (and_iff_right (Nat.zero_le i)).trans (and_congr_right fun _ => forall₂_congr fun f hf =>
      imp_iff_right (hrg f hf))
  · rintro U opts rfl
    rfl

end

/-- A number inside of a secret, and a word behind it. -/
def nestedFindings : List ScanFinding :=
  [⟨"secret_leak", "high", "token", 2, 6, "secret_leak", 1⟩,
    ⟨"pii", "high", "ssn detected", 3, 4, "pii", 0.9⟩, ⟨"custom", "high", "word", 9, 1, "custom", 0.9⟩]

/-- The number gets no mark of its own. -/
theorem redaction_masks_nested :
    redactFindings (ascii "a 123456 b c") nestedFindings =
      ascii "a <redacted:secret_leak> <redacted:custom> c" ∧
    Ascending 12 0 (redactSegments 12 0 nestedFindings) :=
  ⟨by decide +kernel,
    (@redaction_masks_runs (ascii "a 123456 b c") _ (by decide +kernel) (by decide)).2.1⟩

theorem scanContent_sorted (opts : ContentScanOptions) :
    (scanContent U content opts).Pairwise fun f g => spanLE f g := by
  refine pairwise_mergeSort (fun f g h hfg hgh => ?_) (fun f g => ?_) _
  · rw [spanLE_iff] at hfg hgh ⊢
    omega
  · rw [Bool.or_eq_true, spanLE_iff, spanLE_iff]
    omega

/-! ## What a scanner gets to -/

theorem mem_take_iff {α : Type} {l : List α} {x : α} {n : ℕ} :
    x ∈ l.take n ↔ ∃ a b, l = a ++ x :: b ∧ a.length < n := by
  constructor
  · intro h
    obtain ⟨a, b, hab⟩ := append_of_mem h
    refine ⟨a, b ++ l.drop n, ?_, ?_⟩
    · rw [← cons_append, ← append_assoc, ← hab, take_append_drop]
    · have hlen := congrArg length hab
      rw [length_take, length_append, length_cons] at hlen
      omega
  · rintro ⟨a, b, rfl, hn⟩
    rw [take_append]
    exact mem_append_right _ (by rw [take_cons (by omega)]; exact mem_cons_self)

theorem mem_take_taken {g : Occurrences} {span : ℕ × ℕ} {room : ℕ} : span ∈ g.taken.take room ↔
    ∃ left right, g.spans = left ++ span :: right ∧ left.length < g.cap ∧ g.counts span ∧
    left.countP g.counts < room := by
  rw [mem_take_iff, Occurrences.taken]
  constructor
  · rintro ⟨a, b, hf, hroom⟩
    obtain ⟨l₁, l₂, hl, rfl, h₂⟩ := filter_eq_append_iff.1 hf
    obtain ⟨skipped, right, rfl, hno, hspan, -⟩ := filter_eq_cons_iff.1 h₂
    have hlen := congrArg length hl
    rw [length_take, length_append, length_append, length_cons] at hlen
    refine ⟨l₁ ++ skipped, right ++ g.spans.drop g.cap, ?_, by rw [length_append]; omega, hspan, ?_⟩
    · rw [← cons_append, ← append_assoc, append_assoc l₁, ← hl, take_append_drop]
    · rw [countP_append, countP_eq_zero.2 hno, countP_eq_length_filter]
      exact hroom
  · rintro ⟨left, right, hsp, hcap, hspan, hroom⟩
    refine ⟨left.filter g.counts, (right.take (g.cap - left.length - 1)).filter g.counts, ?_, ?_⟩
    · rw [hsp, take_append, take_of_length_le (Nat.le_of_lt hcap), take_cons (by omega), filter_append,
        filter_cons_of_pos hspan]
    · rwa [← countP_eq_length_filter]

theorem getsTo_iff {span : ℕ × ℕ} {room : ℕ} {sought : List Occurrences} :
    GetsTo span room sought ↔ span ∈ (sought.flatMap Occurrences.taken).take room := by
  induction sought generalizing room with
  | nil => simp [GetsTo]
  | cons g sought ih => rw [GetsTo, ih, ← mem_take_taken, flatMap_cons, take_append, mem_append]

theorem found_spans (s : OutputScanner) :
    (s.found U (·.take maxFindingsPerPattern) content).map (fun f => (f.offset, f.length)) =
      (s.sought U content).flatMap Occurrences.taken := by
  cases s with
  | regex name type patterns =>
    simp [OutputScanner.found, OutputScanner.sought, map_flatMap, flatMap_map,
      Occurrences.taken, Function.comp_def]
  | pii s => simp [OutputScanner.found, OutputScanner.sought, Occurrences.taken, Function.comp_def]
  | keyword keywords =>
    have hall : ∀ g : Occurrences, g.cap = g.spans.length → (∀ span, g.counts span) →
        g.taken = g.spans := by
      intro g hcap hcts
      rw [Occurrences.taken, hcap, take_length, filter_eq_self]
      exact fun span _ => hcts span
    simp only [OutputScanner.found, OutputScanner.sought, map_flatMap, flatMap_map, map_map]
    refine flatMap_congr fun kw _ => ?_
    rw [hall _ rfl fun _ => rfl]
    rfl

variable {U content}

theorem mem_scan_iff {s : OutputScanner} {span : ℕ × ℕ} (hne : content ≠ []) :
    (∃ f ∈ s.scan U content, (f.offset, f.length) = span) ↔
      GetsTo span maxFindingsPerScanner (s.sought U content) := by
  rw [getsTo_iff, ← found_spans, ← map_take, mem_map, OutputScanner.scan, if_neg hne]

theorem copies_iff (hne : content ≠ []) (opts : ContentScanOptions) (i : ℕ) :
    Copies (redactSegments content.length 0 (scanContent U content opts)) i ↔
      i < content.length ∧ ¬ Reached U content opts i := by
  rw [copies_redactSegments ((scanContent_sorted U content opts).imp offset_le_of_spanLE)]
  simp only [Nat.zero_le, true_and, scanContent, mem_mergeSort, mem_flatMap]
  refine and_congr_right fun _ => ⟨?_, ?_⟩
  · rintro hfr ⟨s, hs, span, hspan, hin, hi⟩
    obtain ⟨f, hf, rfl⟩ := (mem_scan_iff hne).2 hspan
    exact hfr f ⟨s, hs, hf⟩ hin hi
  · rintro hnot f ⟨s, hs, hf⟩ hin hi
    exact hnot ⟨s, hs, _, (mem_scan_iff hne).1 ⟨f, hf, rfl⟩, hin, hi⟩

/-- The expression `a`. -/
def aExpression : Expression := fun text => (text.zipIdx.filter (·.1 = 97)).map fun b => (b.2, 1)

end Cordum.Policy
