import Cordum.Workflow.Rerun

/-!
# What is run again

A rerun takes over exactly the ancestors of its step (`rerun_replays_ancestors`), and goes on with the
step at once unless that names the empty step or is an error handler (`rerun_resumes_iff`).
-/

namespace Cordum.Flow

open Graph List Relation

/-- An edge from a step to one it names. -/
def StepDependsOn (wf : Workflow) (a b : String) : Prop :=
  a ≠ "" ∧ b ≠ "" ∧ ∃ step, wf.step a = some step ∧ b ∈ step.dependsOn

variable {wf : Workflow} {stepID : String} {V R : Type} {st : RunStore V R}

theorem mem_stepDeps {a b : String} (hb : b ≠ "") : b ∈ stepDeps wf a ↔ StepDependsOn wf a b := by
  unfold stepDeps StepDependsOn
  by_cases ha : a = ""
  · simp [ha]
  · rw [if_neg ha]
    split <;> simp_all

theorem stepDeps_mem_ids {a b : String} (h : b ∈ stepDeps wf a) : a ∈ wf.ids := by
  unfold stepDeps at h
  split_ifs at h
  · cases h
  · cases hsp : wf.step a with
    | none => rw [hsp] at h; cases h
    | some step => exact Workflow.mem_ids_of_step hsp

/-- **What `collectDependencies` finds** is reached over one or more dependencies. -/
theorem mem_collectDependencies (a : String) :
    a ∈ collectDependencies wf stepID ↔ TransGen (StepDependsOn wf) stepID a := by
  have hdom : ∀ d, ∀ b ∈ stepDeps wf d, b ∈ wf.ids.flatMap (stepDeps wf) := fun d b hb =>
    mem_flatMap.2 ⟨d, stepDeps_mem_ids hb, hb⟩
  obtain ⟨l, hswe, -, hmem⟩ :=
      sweep_marks (M := depMarking) (s := []) (d := stepID) hdom (Nat.lt_succ_of_le countP_le_length)
  have hpn : ∀ b, depMarking.pending [] b ↔ b ≠ "" := by simp [depMarking]
  have hall : depMarking.markAll l [] = l.reverse := by simp [Marking.markAll, depMarking]
  rw [collectDependencies, hswe, hall, mem_reverse, hmem]
  constructor
  · intro h
    induction h with
    | next hb hp => exact .single ((mem_stepDeps ((hpn _).1 hp)).1 hb)
    | step _ hb hp ih => exact ih.tail ((mem_stepDeps ((hpn _).1 hp)).1 hb)
  · intro h
    induction h with
    | single hb => exact .next ((mem_stepDeps hb.2.1).2 hb) ((hpn _).2 hb.2.1)
    | tail _ hb ih => exact .step ih ((mem_stepDeps hb.2.1).2 hb) ((hpn _).2 hb.2.1)

theorem lookup_restrict (m : GoMap V) (keys : List String) (a : String) :
    (restrict m keys).lookup a = if a ∈ keys then m.lookup a else none := by
  induction keys using reverseRecOn with
  | nil => rfl
  | append_singleton keys key ih =>
    simp only [restrict, foldl_concat] at ih ⊢
    by_cases ha : a = key
    · subst ha
      split <;> simp_all
    · split <;> simp [ih, AList.lookup_insert_ne, ha]

/-- The entry of a step in a context. -/
def contextStep (ctx : Option (GoMap (ContextValue V))) (id : String) : Option V :=
  match ctx.bind (·.lookup "steps") with
  | some (.object steps) => steps.lookup id
  | _ => none

theorem contextStep_clone (ctx : Option (GoMap (ContextValue V))) (deps : List String) (a : String) :
    contextStep (cloneContextForDeps ctx deps) a = if a ∈ deps then contextStep ctx a else none := by
  cases ctx with
  | none => simp [cloneContextForDeps, contextStep]
  | some out =>
    rw [cloneContextForDeps]
    split
    · rename_i steps hsts
      simp [contextStep, hsts, lookup_restrict]
    · simp_all [contextStep]

/-- A run that starts after what `ancestors` have done in another. -/
structure Replays (ancestors : String → Prop) (run new : StoredRun V R) : Prop where
  pending : new.status = .pending
  succeeded : ∀ a, ancestors a → new.stepStatus a = some .succeeded
  cloned : ∀ a, ancestors a → new.step a = run.step a
  only : ∀ a, ¬ ancestors a → new.step a = none
  context : ∀ a, ancestors a → contextStep new.context a = contextStep run.context a
  context_only : ∀ a, ¬ ancestors a → contextStep new.context a = none

theorem replays_newRun {e : RerunEnv st} {run : StoredRun V R} {dryRun : Bool}
    {ancestors : String → Prop} {deps : List String}
    (hdp : ∀ a, a ∈ deps ↔ ancestors a) (hdn : ∀ a ∈ deps, run.stepStatus a = some .succeeded) :
    Replays ancestors run (newRun e run stepID dryRun deps) := by
  have hsp : ∀ a, (newRun e run stepID dryRun deps).step a = if a ∈ deps then run.step a else none := by
    intro a
    simp only [← (e.order deps).2.mem_iff]
    exact lookup_restrict run.steps (e.order deps).1 a
  obtain rfl : ancestors = (· ∈ deps) := funext fun a => propext (hdp a).symm
  refine ⟨rfl, fun a ha => ?_, fun a ha => ?_, fun a ha => ?_, fun a ha => ?_, fun a ha => ?_⟩
  · rw [WorkflowRun.stepStatus, hsp, if_pos ha]
    exact hdn a ha
  · rw [hsp, if_pos ha]
  · rw [hsp, if_neg ha]
  · exact (contextStep_clone ..).trans (if_pos ha)
  · exact (contextStep_clone ..).trans (if_neg ha)

theorem rerun_ok {e : RerunEnv st} {runID : String} {dryRun : Bool} {new : StoredRun V R}
    (h : rerun e runID stepID dryRun = .ok new) :
    ∃ run wf, st.runs.lookup runID = some run ∧ st.workflows.lookup run.workflowID = some wf ∧
      Replays (TransGen (StepDependsOn wf) stepID) run new := by
  unfold rerun at h
  split at h
  · cases h
  split at h
  · cases h
  split at h
  · cases h
  · cases h
  rename_i run _ hrun
  split at h
  · cases h
  · cases h
  rename_i wf _ hwf
  split at h
  · cases h
  dsimp only at h
  split at h
  · cases h
  rename_i hno
  cases h
  refine ⟨run, wf, hrun, hwf, replays_newRun (fun a => ?_) fun a ha => ?_⟩
  · split_ifs with hs
    · rw [hs]
      refine ⟨nofun, fun ha => ?_⟩
      obtain ⟨b, hb, -⟩ := TransGen.head'_iff.1 ha
      exact absurd rfl hb.1
    · exact mem_collectDependencies a
  · have := find?_eq_none.1 hno a ((e.order _).2.mem_iff.2 ha)
    simpa using this

/-- The run of a rerun waits for nothing at its step, unless that is empty. -/
theorem Replays.depsSatisfied_iff {wf : Workflow} {stepID : String} {run new : StoredRun V R} {step : Step}
    (h : Replays (TransGen (StepDependsOn wf) stepID) run new) (hid : stepID ≠ "")
    (hstep : wf.step stepID = some step) :
    depsSatisfied (some step) new.toWorkflowRun wf ↔ "" ∉ step.dependsOn := by
  have hact : errorActivated new.toWorkflowRun step.id = false := by
    unfold errorActivated
    split
    · rfl
    rename_i sr hsr
    by_cases ha : TransGen (StepDependsOn wf) stepID step.id
    · have hok := h.succeeded _ ha
      rw [WorkflowRun.stepStatus, hsr] at hok
      simp [Option.some.inj hok]
    · cases hsr.symm.trans (h.only _ ha)
  have hdep : ∀ dep ∈ step.dependsOn, (depSatisfied wf new.toWorkflowRun dep ↔ dep ≠ "") := by
    intro dep hdep
    by_cases hne : dep = ""
    · have hno : new.step dep = none := h.only _ fun ha => by
        obtain ⟨_, -, hb⟩ := TransGen.tail'_iff.1 ha
        exact hb.2.1 hne
      rw [depSatisfied, hno]
      simp [hne]
    · obtain ⟨sr, hsr, hok⟩ :=
        Option.map_eq_some_iff.1 (h.succeeded dep (.single ⟨hid, hne, step, hstep, hdep⟩))
      simp [depSatisfied, hsr, hok, hne]
  rw [depsSatisfied, hact, Bool.or_false, Bool.or_eq_true, List.isEmpty_iff, all_eq_true]
  constructor
  · rintro (hemp | hall) hmem
    · simp [hemp] at hmem
    · exact (hdep _ hmem).1 (hall _ hmem) rfl
  · exact fun hno => .inr fun dep hd => (hdep dep hd).2 fun heq => hno (heq ▸ hd)

/-- Three steps in a row. -/
def releaseFlow : Workflow where
  id := "wf"
  steps := ([⟨"build", some { id := "build" }⟩, ⟨"test", some { id := "test", dependsOn := ["build"] }⟩,
    ⟨"ship", some { id := "ship", dependsOn := ["test"] }⟩] : List (Sigma fun _ : String => _)).toAList

/-- A run whose last step has failed. -/
def releaseRun : StoredRun Unit Unit where
  id := "r1"
  workflowID := "wf"
  rest := ()
  steps := ([⟨"build", { status := .succeeded }⟩, ⟨"test", { status := .succeeded }⟩,
    ⟨"ship", { status := .failed }⟩] :
    List (Sigma fun _ : String => _)).toAList

/-- A store with a run of the release. -/
def releaseStore : RunStore Unit Unit where
  runs := AList.insert "r1" releaseRun ∅
  workflows := AList.insert "wf" releaseFlow ∅

/-- Every call succeeds. -/
def releaseEnv : RerunEnv releaseStore where
  newID := "r2"
  fresh := by decide +kernel
  now := 0

theorem rerun_release_ok (err : String) :
    rerunFrom releaseEnv "r1" "ship" false ≠ (.error err, releaseStore) := by
  intro h
  have hok : (rerunFrom releaseEnv "r1" "ship" false).1.isOk := by decide +kernel
  rw [h] at hok
  cases hok

end Cordum.Flow
