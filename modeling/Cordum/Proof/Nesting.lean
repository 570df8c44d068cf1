import Cordum.Text.Fields
import Cordum.Workflow.Schedule
import Mathlib.Data.Finset.Card

/-!
# Sub-workflow nesting

A run that a sub-workflow step creates carries the workflows above it as one text, where the step
looks for the child's workflow before it creates a run. A name with a separator in it does not come
out of the text again.

* `nesting_finite_iff`: along every chain of runs the workflows are distinct exactly when no name
  with a separator can be called beside another.
* `nesting_unbounded`: two workflows that call each other for ever.
-/

namespace Cordum.Flow

open GoString List

/-- The workflows that a text names. -/
def parseCallStack (raw : String) : List String :=
  let raw := trimSpace raw
  if raw = "" then []
  else ((split '>' (replaceAll [',', ';'] '>' raw)).map trimSpace).filter (· ≠ "")

/-- The text of a call stack. -/
def encodeCallStack (stack : List String) : String := join '>' ((stack.map trimSpace).filter (· ≠ ""))

/-- What the check reads of a run: its workflow, and `Metadata["call_stack"]`. -/
structure CallFrame where
  workflowID : String
  callStack : String := ""
deriving DecidableEq, Repr

/-- The stack with the run's own workflow. -/
def normalizeCallStackForRun (run : CallFrame) : List String :=
  let stack := parseCallStack run.callStack
  let current := trimSpace run.workflowID
  if current = "" then stack
  else if stack.getLast? = some current then stack
  else stack ++ [current]

/-- The value is listed. -/
def containsString (values : List String) (needle : String) : Bool :=
  let needle := trimSpace needle
  if needle = "" then false else values.any fun value => trimSpace value = needle

/-- The run that a sub-workflow step of `run` creates. -/
def subRun (run : CallFrame) (workflowID : String) : Option CallFrame :=
  let childWorkflowID := trimSpace workflowID
  if childWorkflowID = "" then none
  else
    let callStack := normalizeCallStackForRun run
    if containsString callStack childWorkflowID then none
    else some { workflowID := childWorkflowID, callStack :=
      encodeCallStack (callStack ++ [childWorkflowID]) }

/-- The chains of runs, the newest first; the root carries no call stack, and every workflow is
stored. -/
inductive Nested (stored : Finset String) : List CallFrame → Prop
  | root {workflowID : String} (hne : workflowID ≠ "") (h : workflowID ∈ stored) : Nested stored
      [{ workflowID }]
  | sub {run child : CallFrame} {runs : List CallFrame} {workflowID : String}
    (h : Nested stored (run :: runs)) (hsub : subRun run workflowID = some child)
    (hstored : child.workflowID ∈ stored) :
    Nested stored (child :: run :: runs)

/-- What separates workflows in the text. -/
def separators : List Char := [',', ';', '>']

/-- The name has a separator. -/
def separable (id : String) : Bool := id.toList.any fun c => separators.contains c

variable {id raw needle value workflowID u : String} {stack values : List String}

theorem separable_iff : separable id ↔ ∃ c ∈ id.toList, c ∈ separators := by
  simp [separable]

/-- The names a sub-workflow step can call: it trims what it is given. -/
def Callable (id : String) : Prop := trimSpace id = id ∧ id ≠ ""

instance (id : String) : Decidable (Callable id) := inferInstanceAs (Decidable (_ ∧ _))

theorem not_separable_of_mem_parse (h : id ∈ parseCallStack raw) : separable id = false := by
  unfold parseCallStack at h
  dsimp only at h
  split at h
  · cases h
  obtain ⟨part, hpr, rfl⟩ := mem_map.1 (mem_filter.1 h).1
  refine Bool.eq_false_iff.2 fun hsep => ?_
  obtain ⟨c, hc, hcs⟩ := separable_iff.1 hsep
  obtain ⟨hmem, hne⟩ := mem_of_mem_split hpr (mem_of_mem_trimSpace hc)
  have hold : c ∈ [',', ';'] := by
    rcases mem_append.1 (show c ∈ [',', ';'] ++ ['>'] from hcs) with h | h
    · exact h
    · exact absurd (mem_singleton.1 h) hne
  exact not_mem_replaceAll hold hne hmem

theorem mem_parse_trimmed (h : id ∈ parseCallStack raw) : Callable id := by
  unfold parseCallStack at h
  dsimp only at h
  split at h
  · cases h
  · obtain ⟨hmem, hne⟩ := mem_filter.1 h
    obtain ⟨part, -, rfl⟩ := mem_map.1 hmem
    exact ⟨trimSpace_trimSpace, by simpa using hne⟩

/-- **A name without separators comes out of the call stack as it went in.** -/
theorem mem_parse_encode (hid : Callable id) (hsep : separable id = false)
    (h : id ∈ stack) : id ∈ parseCallStack (encodeCallStack stack) := by
  set words := (stack.map trimSpace).filter (· ≠ "") with hwor
  have hcal : ∀ w ∈ words, Callable w := by
    intro w hw
    obtain ⟨hmem, hne⟩ := mem_filter.1 hw
    obtain ⟨part, -, rfl⟩ := mem_map.1 hmem
    exact ⟨trimSpace_trimSpace, by simpa using hne⟩
  have hmem : id ∈ words := mem_filter.2 ⟨mem_map.2 ⟨id, h, hid.1⟩, by simpa using hid.2⟩
  have hno : ∀ c ∈ separators, c ∉ id.toList := by
    intro c hc hcid
    rw [separable_iff.2 ⟨c, hcid, hc⟩] at hsep
    cases hsep
  have htr : trimSpace (encodeCallStack stack) = join '>' words := trimSpace_join hcal
  have hne : join '>' words ≠ "" := by
    cases hw : words with
    | nil =>
      rw [hw] at hmem
      cases hmem
    | cons w rest =>
      have hw' : w ≠ "" := (hcal w (by rw [hw]; exact mem_cons_self)).2
      exact fun heq => join_ne_nil '>' hw' rest (by rw [heq]; rfl)
  have hpar : id ∈ split '>' (replaceAll [',', ';'] '>' (join '>' words)) := by
    rw [replaceAll_join]
    refine mem_split_join (hno '>' (by decide))
      (mem_map.2 ⟨id, hmem, replaceAll_eq_self fun c hc => hno c ?_⟩)
    simp only [mem_cons, not_mem_nil, or_false] at hc
    rcases hc with rfl | rfl <;> decide
  unfold parseCallStack
  rw [htr, if_neg hne]
  exact mem_filter.2 ⟨mem_map.2 ⟨id, hpar, hid.1⟩, by simpa using hid.2⟩

/-! ## One call -/

theorem containsString_eq (h : ∀ value ∈ values, trimSpace value = value)
    (hnee : Callable needle) : containsString values needle ↔ needle ∈ values := by
  simp only [containsString, hnee.1, hnee.2, if_false, any_eq_true, decide_eq_true_eq]
  constructor
  · rintro ⟨value, hmem, heq⟩
    rw [h value hmem] at heq
    exact heq ▸ hmem
  · exact fun hmem => ⟨needle, hmem, hnee.1⟩

theorem trimmed_of_mem_stack {run : CallFrame} (h : value ∈ normalizeCallStackForRun run) :
    trimSpace value = value := by
  unfold normalizeCallStackForRun at h
  dsimp only at h
  split at h
  · exact (mem_parse_trimmed h).1
  split at h
  · exact (mem_parse_trimmed h).1
  rcases mem_append.1 h with h | h
  · exact (mem_parse_trimmed h).1
  · rw [mem_singleton.1 h]
    exact trimSpace_trimSpace

theorem mem_stack_iff {run : CallFrame} (hrun : trimSpace run.workflowID ≠ "") :
    value ∈ normalizeCallStackForRun run ↔
      value ∈ parseCallStack run.callStack ∨ value = trimSpace run.workflowID := by
  unfold normalizeCallStackForRun
  rw [if_neg hrun]
  split
  next hls =>
    refine ⟨.inl, fun h => h.elim id fun heq => heq ▸ ?_⟩
    exact mem_of_getLast? hls
  · simp

theorem subRun_eq_some_iff {run child : CallFrame} :
    subRun run workflowID = some child ↔ Callable child.workflowID ∧
      child.workflowID = trimSpace workflowID ∧ child.workflowID ∉ normalizeCallStackForRun run ∧
      child.callStack = encodeCallStack (normalizeCallStackForRun run ++ [child.workflowID]) := by
  unfold subRun
  by_cases hemp : trimSpace workflowID = ""
  · rw [if_pos hemp]
    constructor
    · nofun
    · exact fun h => absurd (h.2.1.trans hemp) h.1.2
  rw [if_neg hemp]
  have hcal : Callable (trimSpace workflowID) := ⟨trimSpace_trimSpace, hemp⟩
  have hcon := containsString_eq
    (fun value (h : value ∈ normalizeCallStackForRun run) => trimmed_of_mem_stack h) hcal
  by_cases hin : trimSpace workflowID ∈ normalizeCallStackForRun run
  · rw [if_pos (hcon.2 hin)]
    constructor
    · nofun
    · exact fun h => absurd (h.2.1 ▸ hin) h.2.2.1
  rw [if_neg (hcon.not.2 hin)]
  constructor
  · intro h
    cases h
    exact ⟨hcal, rfl, hin, rfl⟩
  · rintro ⟨-, hid, -, hsta⟩
    rw [← hid, ← hsta]

/-! ## Chains of runs -/

variable {stored : Finset String} {run : CallFrame} {runs : List CallFrame}

theorem Nested.mem_stored (h : Nested stored runs) : ∀ r ∈ runs, r.workflowID ∈ stored := by
  induction h with
  | root _ h => simpa using h
  | sub _ _ hsto ih => exact forall_mem_cons.2 ⟨hsto, ih⟩

theorem Nested.callable (h : Nested stored (run :: runs)) (hrn : runs ≠ []) : Callable run.workflowID := by
  cases h with
  | root => exact absurd rfl hrn
  | sub _ hsub => exact (subRun_eq_some_iff.1 hsub).1

theorem Nested.mem_stack (h : Nested stored (run :: runs)) :
    ∀ r ∈ run :: runs, Callable r.workflowID → separable r.workflowID = false →
      r.workflowID ∈ normalizeCallStackForRun run := by
  have hown : ∀ r : CallFrame, Callable r.workflowID → r.workflowID ∈ normalizeCallStackForRun r := by
    intro r hr
    have hne : trimSpace r.workflowID ≠ "" := by
      rw [hr.1]
      exact hr.2
    exact (mem_stack_iff hne).2 (.inr hr.1.symm)
  generalize hchn : run :: runs = chain at h
  induction h generalizing run runs with
  | root =>
    cases hchn
    intro r hr hcal _
    rw [mem_singleton.1 hr] at hcal ⊢
    exact hown _ hcal
  | @sub parent child rest _ _ hsub _ ih =>
    cases hchn
    obtain ⟨hch, -, -, hsta⟩ := subRun_eq_some_iff.1 hsub
    intro r hr hcal hsep
    rcases mem_cons.1 hr with rfl | hr
    · exact hown r hcal
    -- a name of the parent's stack goes into the child's text and out of it
    have hpar := ih rfl r hr hcal hsep
    have hne : trimSpace child.workflowID ≠ "" := by
      rw [hch.1]
      exact hch.2
    refine (mem_stack_iff hne).2 (.inl ?_)
    rw [hsta]
    exact mem_parse_encode hcal hsep (mem_append_left _ hpar)

/-- No name that the call stack takes apart can be called beside another. -/
def Unambiguous (stored : Finset String) : Prop :=
  ∀ u ∈ stored, ∀ x ∈ stored, Callable u → Callable x → u ≠ x → separable u = false

theorem Nested.nodup (hsto : Unambiguous stored) (h : Nested stored runs) :
    (runs.map (·.workflowID)).Nodup := by
  induction h with
  | root => exact nodup_singleton _
  | @sub run child runs _ h hsub hch ih =>
    obtain ⟨hcal, -, hnew, -⟩ := subRun_eq_some_iff.1 hsub
    refine nodup_cons.2 ⟨fun hmem => hnew ?_, ih⟩
    obtain ⟨r, hr, hsm⟩ := mem_map.1 hmem
    have heq : r.workflowID = child.workflowID := hsm
    cases hsep : separable child.workflowID with
    | false =>
      rw [← heq] at hcal hsep ⊢
      exact h.mem_stack r hr hcal hsep
    | true =>
      -- every name that can be called is the child's, the newest run's too
      have hon : ∀ x ∈ stored, Callable x → x = child.workflowID := by
        intro x hx hxc
        by_contra hne
        rw [hsto _ hch x hx hcal hxc (Ne.symm hne)] at hsep
        cases hsep
      have hrun : run.workflowID = child.workflowID := by
        by_cases hrt : runs = []
        · subst hrt
          rw [← mem_singleton.1 hr]
          exact heq
        · exact hon _ (h.mem_stored run mem_cons_self) (h.callable hrt)
      have hne : trimSpace run.workflowID ≠ "" := by
        rw [hrun, hcal.1]
        exact hcal.2
      exact (mem_stack_iff hne).2 (.inr (by rw [hrun, hcal.1]))

theorem subRun_of_separable (hu : Callable u) (hsep : separable u) (hrun : Callable run.workflowID)
    (hne : u ≠ run.workflowID) : ∃ child, subRun run u = some child ∧ child.workflowID = u := by
  refine ⟨{ workflowID := u, callStack := encodeCallStack (normalizeCallStackForRun run ++ [u]) }, ?_, rfl⟩
  refine subRun_eq_some_iff.2 ⟨hu, hu.1.symm, fun hmem => ?_, rfl⟩
  have hrun' : trimSpace run.workflowID ≠ "" := by
    rw [hrun.1]
    exact hrun.2
  rcases (mem_stack_iff hrun').1 hmem with hmem | heq
  · rw [not_separable_of_mem_parse hmem] at hsep
    cases hsep
  · exact hne (heq.trans hrun.1)

/-- **Nesting is finite exactly when no name with a separator can be called beside another**: then the
workflows along every chain are distinct. -/
theorem nesting_finite_iff (stored : Finset String) :
    (∀ runs, Nested stored runs → (runs.map (·.workflowID)).Nodup ∧ runs.length ≤ stored.card) ↔
      Unambiguous stored := by
  constructor
  · intro h u hu x hx hcu hcx hne
    refine Bool.eq_false_iff.2 fun hsep => ?_
    -- `u` calls `x`, and `x` calls `u` again
    have hrt : Nested stored [{ workflowID := u }] := .root hcu.2 hu
    have hnew : x ∉ normalizeCallStackForRun { workflowID := u } := by
      intro hmem
      have hu' : trimSpace u ≠ "" := by
        rw [hcu.1]
        exact hcu.2
      rcases (mem_stack_iff hu').1 hmem with hmem | heq
      · simp [parseCallStack] at hmem
      · exact hne (heq.trans hcu.1).symm
    let called : CallFrame :=
      { workflowID := x,
        callStack := encodeCallStack (normalizeCallStackForRun { workflowID := u } ++ [x]) }
    have hcal : subRun { workflowID := u } x = some called :=
      subRun_eq_some_iff.2 ⟨hcx, hcx.1.symm, hnew, rfl⟩
    have hfst : Nested stored [called, { workflowID := u }] := .sub hrt hcal hx
    have hrun : Callable called.workflowID := hcx
    obtain ⟨child, hsub, hch⟩ := subRun_of_separable hcu hsep hrun hne
    have hsec := (h _ (.sub hfst hsub (by rw [hch]; exact hu))).1
    simp [hch] at hsec
  · intro hsto runs h
    have hnd := h.nodup hsto
    refine ⟨hnd, ?_⟩
    calc runs.length = (runs.map (·.workflowID)).toFinset.card := by
          rw [toFinset_card_of_nodup hnd, length_map]
      _ ≤ stored.card := by
          refine Finset.card_le_card fun id hid => ?_
          obtain ⟨r, hr, rfl⟩ := mem_map.1 (mem_toFinset.1 hid)
          exact h.mem_stored r hr

/-- Two workflows that call each other are nested as deep as one likes. -/
theorem nested_of_length (n : ℕ) : ∃ runs, Nested {"billing,eu", "billing,us"} runs ∧
    runs.length = n + 1 := by
  have hcal : ∀ id ∈ ({"billing,eu", "billing,us"} : Finset String), Callable id ∧ separable id := by
    decide +kernel
  induction n with
  | zero => exact ⟨_, .root (by decide) (Finset.mem_insert_self _ _), rfl⟩
  | succ n ih =>
    obtain ⟨runs, hrn, hlen⟩ := ih
    cases runs with
    | nil => cases hlen
    | cons run runs =>
      have hrun := hrn.mem_stored run mem_cons_self
      have hoth : ∃ id ∈ ({"billing,eu", "billing,us"} : Finset String), id ≠ run.workflowID := by
        rcases Finset.mem_insert.1 hrun with heq | heq
        · exact ⟨"billing,us", by simp, by rw [heq]; decide⟩
        · exact ⟨"billing,eu", by simp, by rw [Finset.mem_singleton.1 heq]; decide⟩
      obtain ⟨id, hid, hne⟩ := hoth
      obtain ⟨child, hsub, hch⟩ :=
        subRun_of_separable (hcal id hid).1 (hcal id hid).2 (hcal _ hrun).1 hne
      refine ⟨child :: run :: runs, .sub hrn hsub (by rw [hch]; exact hid), ?_⟩
      rw [length_cons, hlen]

/-- They are nested without a bound. -/
theorem nesting_unbounded : ¬ ∃ bound, ∀ runs, Nested {"billing,eu", "billing,us"} runs →
    runs.length ≤ bound := by
  rintro ⟨bound, hbou⟩
  obtain ⟨runs, hrn, hlen⟩ := nested_of_length bound
  have := hbou runs hrn
  omega

end Cordum.Flow
