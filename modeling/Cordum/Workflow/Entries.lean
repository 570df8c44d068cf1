import Cordum.Workflow.Turns

/-!
# The entries of a run

What the parts of the engine that look at every step make of a single entry.
-/

namespace Cordum.Flow

open Graph WorkflowRun List

variable {wf : Workflow} {run run' : WorkflowRun} {id failedStepID stepID : String} {now : ℤ}

/-! ## Error handlers -/

/-- An error handler that has not begun is pending, with the error. -/
theorem step_activateOnErrorHandler (wf : Workflow) (run : WorkflowRun) (stepID id : String) :
    (activateOnErrorHandler wf run stepID).step id = run.step id ∨
      (∃ step, wf.step stepID = some step ∧ step.onError = id) ∧ id ∈ wf.ids ∧
      fresh (run.entry id).status ∧
        (activateOnErrorHandler wf run stepID).step id =
          some { run.entry id with status := .pending, errorInput := .value } := by
  unfold activateOnErrorHandler
  split
  · exact .inl rfl
  rename_i step hsp
  split
  · exact .inl rfl
  rename_i htar
  rw [not_or, not_not] at htar
  dsimp only
  split
  · rename_i hfr
    by_cases hid : id = step.onError
    · subst hid
      exact .inr ⟨⟨step, hsp, rfl⟩, htar.2, hfr, step_setStep _ _ _⟩
    · exact .inl (step_setStep_ne _ _ hid)
  · exact .inl rfl

/-! ## The status of the run -/

/-- A pending step that is skipped. -/
def skipped (reason : String) (now : ℤ) (sr : StepRun) : StepRun :=
  { sr with status := .skipped, skipReason := reason, completedAt := some now }

/-- Pending steps of the definition may have been skipped. -/
def Skipped (wf : Workflow) (run run' : WorkflowRun) : Prop :=
  ∀ id, run'.step id = run.step id ∨ ∃ sr reason now, run.step id = some sr ∧ sr.status = .pending ∧
    (wf.step id).isSome ∧ run'.step id = some (skipped reason now sr)

theorem Skipped.skipStep (h : Skipped wf run run') (hdef : (wf.step id).isSome)
    (hp : run'.stepStatus id = some .pending) (failedStepID : String) (now : ℤ) :
    Skipped wf run (run'.skipStep failedStepID now id) := by
  intro id'
  by_cases hid : id' = id
  · subst hid
    cases hsr : run'.step id' with
    | none => rw [stepStatus, hsr] at hp; cases hp
    | some sr =>
      have hst : sr.status = .pending := by
        rw [stepStatus, hsr] at hp
        simpa using hp
      rcases h id' with hsm | ⟨sr', reason, now', -, -, -, hsk⟩
      · refine .inr ⟨sr, s!"dependency {failedStepID} failed", now, by rw [← hsm, hsr], hst, hdef, ?_⟩
        rw [WorkflowRun.skipStep, hsr]
        exact step_setStep _ _ _
      -- a skipped step is not pending
      rw [hsr, Option.some.injEq] at hsk
      rw [hsk] at hst
      cases hst
  · rw [step_skipStep_ne _ _ _ hid]
    exact h id'

theorem skipped_skipDependentSteps {order : String → List String}
    (h : Skipped wf run run') : Skipped wf run (skipDependentSteps wf order now run' failedStepID) := by
  refine sweep_keeps (P := fun s : WorkflowRun × List String => Skipped wf run s.1)
    (fun d a s ha hp hs => ?_) _ _ _ h
  have hdep := (mem_filter.1 ha).2
  have hdef : (wf.step a).isSome := by
    unfold dependsOn at hdep
    split at hdep
    · cases hdep
    · rename_i step hsp
      rw [hsp]
      rfl
  refine hs.skipStep hdef ?_ failedStepID now
  have hpn : (a ∉ s.2 && s.1.stepStatus a = some .pending) := hp
  rw [Bool.and_eq_true] at hpn
  exact of_decide_eq_true hpn.2

theorem skipped_countStep (o : StatusOrders wf) (now : ℤ) (s : Tally × WorkflowRun) (stepID : String)
    (h : Skipped wf run s.2) : Skipped wf run (countStep o now s stepID).2 := by
  unfold countStep
  split
  · exact h
  dsimp only
  split
  · exact skipped_skipDependentSteps h
  · exact skipped_skipDependentSteps h
  · exact h

/-- A turn that finds no failure leaves the run alone. -/
theorem countStep_quiet {o : StatusOrders wf} {s : Tally × WorkflowRun}
    (hf : (countStep o now s stepID).1.hasFailed = false)
    (hd : (countStep o now s stepID).1.hasDenied = false) :
    s.1.hasFailed = false ∧ s.1.hasDenied = false ∧ (countStep o now s stepID).2 = s.2 := by
  unfold countStep at hf hd ⊢
  split
  · rename_i hm
    rw [if_pos hm] at hf hd
    exact ⟨hf, hd, rfl⟩
  rename_i hm
  rw [if_neg hm] at hf hd
  cases hv : verdict wf s.2 stepID <;> rw [hv] at hf hd
    <;> first | exact ⟨hf, hd, rfl⟩ | cases hf | cases hd

theorem fold_countStep (o : StatusOrders wf) (now : ℤ) (l : List String) (s : Tally × WorkflowRun)
    (h : Skipped wf run s.2) :
    Skipped wf run (l.foldl (countStep o now) s).2 ∧
      ((l.foldl (countStep o now) s).1.hasFailed = false →
        (l.foldl (countStep o now) s).1.hasDenied = false →
        s.1.hasFailed = false ∧ s.1.hasDenied = false ∧ (l.foldl (countStep o now) s).2 = s.2) := by
  induction l generalizing s with
  | nil => exact ⟨h, fun hf hd => ⟨hf, hd, rfl⟩⟩
  | cons id l ih =>
    obtain ⟨hskp, hq⟩ := ih (countStep o now s id) (skipped_countStep o now s id h)
    refine ⟨hskp, fun hf hd => ?_⟩
    obtain ⟨hf', hd', hrun⟩ := hq hf hd
    obtain ⟨hf'', hd'', hrun'⟩ := countStep_quiet hf' hd'
    exact ⟨hf'', hd'', hrun.trans hrun'⟩

/-- **What `updateRunStatus` makes of the entries**: it skips pending steps when the run is over. -/
theorem step_updateRunStatus (o : StatusOrders wf) (now : ℤ) (run : WorkflowRun) :
    Skipped wf run (updateRunStatus o now run) ∧
      (isTerminalRunStatus (updateRunStatus o now run).status = false →
        (updateRunStatus o now run).steps = run.steps) := by
  have hrf : Skipped wf run run := fun id => .inl rfl
  unfold updateRunStatus
  split
  · exact ⟨hrf, fun _ => rfl⟩
  · exact ⟨hrf, fun _ => rfl⟩
  · obtain ⟨hskp, hq⟩ := fold_countStep o now o.main.1 ({ expectedSteps := expectedSteps o }, run) hrf
    refine ⟨hskp, fun hop => ?_⟩
    dsimp only at hop ⊢
    set s := o.main.1.foldl (countStep o now) ({ expectedSteps := expectedSteps o }, run) with hs
    have hf : s.1.hasFailed = false := by
      rw [← Bool.not_eq_true]
      intro hf
      rw [Tally.status, if_pos hf] at hop
      cases hop
    have hd : s.1.hasDenied = false := by
      rw [← Bool.not_eq_true]
      intro hd
      rw [Tally.status, hf, if_pos hd] at hop
      cases hop
    rw [(hq hf hd).2.2]

/-! ## The end of the run -/

theorem step_withAllSteps :
    (withAllSteps wf run).step id = (run.step id).or (if id ∈ wf.ids then some {} else none) := by
  refine (Loop.foldl_at (a := id) (v := fun run : WorkflowRun => run.step id)
    (g := fun sr => sr.or (some {})) (fun run => ?_) (fun run a ha => ?_) (.inr fun sr => ?_) run).trans ?_
  · cases hsr : run.step id with
    | none => simp
    | some sr => simp [hsr]
  · split
    · rfl
    · exact step_setStep_ne _ _ ha
  · simp
  · split <;> simp

theorem lookup_mapped {V : Type} (m : GoMap V) (f : V → V) (id : String) :
    ((m.entries.map fun e => (⟨e.1, f e.2⟩ : Sigma fun _ : String => V)).toAList).lookup id =
      (m.lookup id).map f := by
  have h := dlookup_map₂ (l := m.entries) (f := fun _ => f) id
  rw [AList.lookup, toAList]
  rw [dlookup_dedupKeys]
  exact h

/-- **The entries of a run that is over.** -/
theorem step_endRun (wf : Workflow) (now : ℤ) (status : RunStatus)
    (change : StepRun → StepRun) (run : WorkflowRun) (id : String) :
    (endRun wf now status change run).1.step id =
      ((run.step id).or (if id ∈ wf.ids then some {} else none)).map change := by
  rw [← step_withAllSteps]
  exact lookup_mapped _ _ _

theorem lookup_endStepRun (change : ChildRun → ChildRun) (sr : StepRun) (id : String) :
    (endStepRun change sr).children.lookup id =
      (sr.children.lookup id).map fun c => if isTerminalStepStatus c.status then c else change c :=
  lookup_mapped sr.children (fun c => if isTerminalStepStatus c.status then c else change c) id

end Cordum.Flow
