import Cordum.Workflow.Dag

/-!
# Validated dependencies

`validateDAG` is sound and complete for what it reads (`validateDAG_sound_complete`); the engine takes
a dependency as it is written (`validated_deps_executed_iff`).
-/

namespace Cordum.Flow

open List Relation Graph GoString

variable (steps : GoMap Step)

/-- The step names `b`, with or without white space around it. -/
def DependsOn (a b : String) : Prop := b ≠ "" ∧ ∃ step ∈ steps.lookup a,
    ∃ dep ∈ step.dependsOn, trimSpace dep = b

variable {steps}

theorem mem_dependencies {a b : String} : b ∈ dependencies steps a ↔ DependsOn steps a b := by
  unfold dependencies DependsOn
  split <;> simp_all [and_comm]

/-- **`validateDAG` is sound and complete**: it ends, without an error exactly when every dependency
is a step and none depends on itself. -/
theorem validateDAG_sound_complete (order order' : StepOrder steps) :
    validateDAG steps order order' ≠ .error none ∧ (validateDAG steps order order' = .ok () ↔
      (∀ a b, DependsOn steps a b → b ∈ steps) ∧ ∀ a, ¬ TransGen (DependsOn steps) a a) := by
  have hed : Edge (dependencies steps) = DependsOn steps := funext₂ fun a b => propext mem_dependencies
  unfold validateDAG
  split
  · rename_i e hmis
    obtain ⟨id, -, hid⟩ := exists_of_findSome?_eq_some hmis
    obtain ⟨dep, hdep, -⟩ := Option.map_eq_some_iff.1 hid
    refine ⟨nofun, nofun, fun h => ?_⟩
    have hno : dep ∉ steps := by simpa using find?_some hdep
    exact absurd (h.1 id dep (mem_dependencies.1 (mem_of_find?_eq_some hdep))) hno
  · rename_i hnn
    have hall : ∀ a, ∀ b ∈ dependencies steps a, b ∈ steps := by
      intro a b hb
      have ha : a ∈ order.1 := by
        obtain ⟨-, step, hsp, -⟩ := mem_dependencies.1 hb
        exact order.2.mem_iff.2 (AList.mem_keys.2 (AList.lookup_isSome.1 (Option.isSome_of_mem hsp)))
      have := find?_eq_none.1 (Option.map_eq_none_iff.1 (findSome?_eq_none_iff.1 hnn a ha)) b hb
      simpa using this
    have hdom : ∀ a, ∀ b ∈ dependencies steps a, b ∈ order'.1 :=
      fun a b hb => order'.2.mem_iff.2 (AList.mem_keys.2 (hall a b hb))
    obtain ⟨⟨color, hok⟩, hacy⟩ | ⟨⟨path, herr⟩, c, hc⟩ :=
      search_cases hdom (Nat.lt_succ_of_le order'.2.length_eq.le)
    · rw [hok]
      exact ⟨nofun, fun _ => ⟨fun a b hab => hall a b (mem_dependencies.2 hab), hed ▸ hacy⟩, fun _ => rfl⟩
    · rw [herr]
      exact ⟨nofun, nofun, fun h => absurd (hed ▸ hc) (h.2 c)⟩

/-- Every step that `step` names has succeeded. -/
def NamedSucceeded (step : Step) (run : WorkflowRun) : Prop :=
  ∀ dep ∈ step.dependsOn, trimSpace dep ≠ "" → ∃ sr ∈ run.step (trimSpace dep), sr.status = .succeeded

/-- A run in which these steps have succeeded and no other is there. -/
def succeededRun (names : List String) : WorkflowRun where
  steps := (names.map fun name => ⟨name, { status := .succeeded }⟩).toAList

variable {names : List String} {name : String}

theorem succeededRun_step {sr : StepRun}
    (h : (succeededRun names).step name = some sr) : name ∈ names ∧ sr.status = .succeeded := by
  rw [WorkflowRun.step, succeededRun, AList.lookup_to_alist] at h
  obtain ⟨n, hn, heq⟩ := mem_map.1 (of_mem_dlookup h)
  cases heq
  exact ⟨hn, rfl⟩

theorem exists_succeededRun_step (h : name ∈ names) :
    ∃ sr ∈ (succeededRun names).step name, sr.status = .succeeded := by
  have hso : ((succeededRun names).step name).isSome := by
    rw [WorkflowRun.step, succeededRun, AList.lookup_to_alist, dlookup_isSome, keys, List.map_map, mem_map]
    exact ⟨name, h, rfl⟩
  obtain ⟨sr, hsr⟩ := Option.isSome_iff_exists.1 hso
  exact ⟨sr, hsr, (succeededRun_step hsr).2⟩

/-- **The engine waits for the validated dependencies** exactly when each is written as it is read. -/
theorem validated_deps_executed_iff (wf : Workflow) (step : Step) :
    (∀ run, NamedSucceeded step run → depsSatisfied (some step) run wf) ↔
      ∀ dep ∈ step.dependsOn, trimSpace dep = dep ∧ dep ≠ "" := by
  constructor
  · intro h dep hdep
    let names := (step.dependsOn.map trimSpace).filter (· ≠ "")
    have hdn : NamedSucceeded step (succeededRun names) := fun d hd hne =>
      exists_succeededRun_step (mem_filter.2 ⟨mem_map_of_mem hd, decide_eq_true hne⟩)
    have hsat := h _ hdn
    have hact : errorActivated (succeededRun names) step.id = false := by
      unfold errorActivated
      split
      · rfl
      · rw [(succeededRun_step ‹_›).2]
        rfl
    have hone : depSatisfied wf (succeededRun names) dep := by
      rw [depsSatisfied, hact, Bool.or_false, Bool.or_eq_true] at hsat
      rcases hsat with hemp | hall
      · rw [isEmpty_iff.1 hemp] at hdep
        cases hdep
      · exact all_eq_true.1 hall dep hdep
    unfold depSatisfied at hone
    split at hone
    · cases hone
    -- a name of the run is trimmed and not blank
    · obtain ⟨hmem, hne⟩ := mem_filter.1 (succeededRun_step ‹_›).1
      obtain ⟨d, -, rfl⟩ := mem_map.1 hmem
      exact ⟨trimSpace_trimSpace, of_decide_eq_true hne⟩
  · intro h run hrun
    have hall : step.dependsOn.all (depSatisfied wf run) := by
      refine all_eq_true.2 fun dep hdep => ?_
      obtain ⟨htr, hne⟩ := h dep hdep
      obtain ⟨sr, hsr, hok⟩ := hrun dep hdep (htr.symm ▸ hne)
      rw [htr] at hsr
      rw [depSatisfied, hsr]
      simp [hok]
    rw [depsSatisfied, hall, Bool.or_true]

/-- A step that names another with a blank before the name. -/
def paddedStep : Step := { id := "b", dependsOn := [" a"] }

/-- A dependency with white space around it. -/
def paddedSteps : GoMap Step := AList.insert "b" paddedStep (AList.insert "a" { id := "a" } ∅)

/-- What the step names has succeeded, and still it never runs. -/
theorem padded_dep_never_runs :
    validateDAG paddedSteps ⟨paddedSteps.keys, .refl _⟩ ⟨paddedSteps.keys, .refl _⟩ = .ok () ∧
      NamedSucceeded paddedStep (succeededRun ["a"]) ∧ ∀ wf,
      depsSatisfied (some paddedStep) (succeededRun ["a"]) wf = false := by
  refine ⟨by decide +kernel, forall_mem_singleton.2 fun _ => exists_succeededRun_step ?_, fun wf => ?_⟩
  · decide +kernel
  · rfl

/-- Where `validateDAG` finds nothing wrong, one of the open steps has its dependencies behind it. -/
theorem exists_ready {order order' : StepOrder steps} (hval : validateDAG steps order order' = .ok ())
    (done : String → Prop) {id : String} (hid : id ∈ steps) (hopen : ¬ done id) :
    ∃ a ∈ steps, ¬ done a ∧ ∀ b ∈ dependencies steps a, done b := by
  unfold validateDAG at hval
  split at hval
  · cases hval
  rename_i hnn
  split at hval
  · cases hval
  have hacc := search_acc ‹_› id (order'.2.mem_iff.2 hid)
  induction hacc with
  | intro a _ ih =>
    by_contra hno
    obtain ⟨b, hb, hdn⟩ : ∃ b ∈ dependencies steps a, ¬ done b := by
      by_contra hall
      exact hno ⟨a, hid, hopen, by simpa using hall⟩
    have hnam := find?_eq_none.1
      (Option.map_eq_none_iff.1 (findSome?_eq_none_iff.1 hnn a (order.2.mem_iff.2 hid))) b hb
    exact hno (ih b hb (by simpa using hnam) hdn)

/-- A definition that the gateway accepted, written as it reads it. -/
structure AcceptedSteps where
  steps : GoMap Step
  order : StepOrder steps
  order' : StepOrder steps
  valid : validateDAG steps order order' = .ok ()
  plain : ∀ id, ∀ step ∈ steps.lookup id, ∀ dep ∈ step.dependsOn, trimSpace dep = dep ∧ dep ≠ ""

/-- **A run of an accepted definition is never held up by its dependencies alone**: while a step has
not succeeded, one has nothing to wait for. -/
theorem accepted_run_ready (d : AcceptedSteps) (run : WorkflowRun) :
    (∀ id ∈ d.steps, run.stepStatus id = some .succeeded) ∨
    ∃ id, run.stepStatus id ≠ some .succeeded ∧ ∃ step ∈ d.steps.lookup id, ∀ wf,
    depsSatisfied (some step) run wf := by
  by_cases hall : ∀ id ∈ d.steps, run.stepStatus id = some .succeeded
  · exact .inl hall
  push Not at hall
  obtain ⟨id, hid, hne⟩ := hall
  obtain ⟨a, ha, hna, hdeps⟩ := exists_ready d.valid (run.stepStatus · = some .succeeded) hid hne
  obtain ⟨step, hstep⟩ := Option.isSome_iff_exists.1 (AList.lookup_isSome.2 ha)
  refine .inr ⟨a, hna, step, hstep, fun wf => ?_⟩
  have hsat : step.dependsOn.all (depSatisfied wf run) := by
    refine all_eq_true.2 fun dep hdep => ?_
    obtain ⟨htr, hbl⟩ := d.plain a step hstep dep hdep
    obtain ⟨sr, hsr, hok⟩ :=
      Option.map_eq_some_iff.1 (hdeps dep (mem_dependencies.2 ⟨hbl, step, hstep, dep, hdep, htr⟩))
    rw [depSatisfied, hsr]
    simp [hok]
  rw [depsSatisfied, hsat, Bool.or_true]

/-- Three steps, the last of which waits for both others. -/
def releaseSteps : GoMap Step :=
  ([⟨"build", {}⟩, ⟨"test", { dependsOn := ["build"] }⟩, ⟨"ship", { dependsOn := ["build", "test"] }⟩] :
    List (Sigma fun _ : String => Step)).toAList

/-- The order of the keys. -/
def releaseOrder : StepOrder releaseSteps := ⟨releaseSteps.keys, .refl _⟩

/-- The release, as a definition that was accepted. -/
def acceptedRelease : AcceptedSteps where
  steps := releaseSteps
  order := releaseOrder
  order' := releaseOrder
  valid := by decide +kernel
  plain id step h := by
    have hall : ∀ e ∈ releaseSteps.entries, ∀ dep ∈ e.2.dependsOn, trimSpace dep = dep ∧ dep ≠ "" := by
      decide +kernel
    exact hall ⟨id, step⟩ (AList.mem_lookup_iff.1 h)

/-- After `build` another step is ready. -/
theorem accepted_run_ready_sample : ∃ id, (succeededRun ["build"]).stepStatus id ≠ some .succeeded ∧
    ∃ step ∈ releaseSteps.lookup id, ∀ wf, depsSatisfied (some step) (succeededRun ["build"]) wf :=
  (accepted_run_ready acceptedRelease (succeededRun ["build"])).resolve_left fun hall =>
    absurd (hall "ship" (by decide +kernel)) (by decide +kernel)

end Cordum.Flow
