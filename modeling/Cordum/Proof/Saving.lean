import Cordum.Workflow.RunStore

/-!
# Saving a run

The script stores the payload it is given byte by byte, unless it has a hash to carry forward: then it
decodes and encodes the whole document.

* `saved_faithfully_iff`: a save preserves the run exactly when nothing is carried or the run is plain.
* `empty_array_lost`: an empty array that becomes an object.
-/

namespace Cordum.Flow

namespace StepDoc

mutual

/-- No empty array in the step's fields, and no number that is not a double. -/
def Plain : StepDoc → Prop
  | .null => True
  | .step _ _ fields children => Json.PlainMembers fields ∧ PlainAll children

def PlainAll : List (String × StepDoc) → Prop
  | [] => True
  | (_, s) :: steps => s.Plain ∧ PlainAll steps

end

mutual

/-- **A step comes back through `cjson` exactly when it is plain.** -/
theorem recode_apply_iff (hashes hashes' : List (String × String)) : (s : StepDoc) →
    ((s.apply hashes).recode = s.apply hashes' ↔ s.Plain ∧ s.apply hashes = s.apply hashes')
  | .null => by simp [apply, recode, Plain]
  | .step jobID auditHash fields children => by
    have hfds := Json.recodeMembers_eq_self_iff fields
    have hchs := recodeAll_applyAll_iff hashes hashes' children
    simp only [apply, recode, Plain, step.injEq, hfds, hchs, true_and]
    tauto

theorem recodeAll_applyAll_iff (hashes hashes' : List (String × String)) :
    (steps : List (String × StepDoc)) → (recodeAll (applyAll hashes steps) = applyAll hashes' steps ↔
      PlainAll steps ∧ applyAll hashes steps = applyAll hashes' steps)
  | [] => by simp [applyAll, recodeAll, PlainAll]
  | (id, s) :: steps => by
    have hs := recode_apply_iff hashes hashes' s
    have hsts := recodeAll_applyAll_iff hashes hashes' steps
    simp only [applyAll, recodeAll, PlainAll, List.cons.injEq, Prod.mk.injEq, true_and, hs, hsts]
    tauto

end

mutual

theorem apply_nil : (s : StepDoc) → s.apply [] = s
  | .null => rfl
  | .step jobID auditHash fields children => by
    have hchs := applyAll_nil children
    simp [apply, carried, hashOf, hchs]

theorem applyAll_nil : (steps : List (String × StepDoc)) → applyAll [] steps = steps
  | [] => rfl
  | (id, s) :: steps => by
    have hs := apply_nil s
    have hsts := applyAll_nil steps
    simp [applyAll, hs, hsts]

end

theorem hashOf_isSome {hashes : List (String × String)} {jobID : String} :
    (hashOf hashes jobID).isSome ↔ ∃ hash, (jobID, hash) ∈ hashes := by
  simp [hashOf]

mutual

theorem merges_iff (hashes : List (String × String)) : (s : StepDoc) →
    (s.merges hashes ↔ ∃ jobID, (jobID, "") ∈ s.jobs ∧ jobID ≠ "" ∧ ∃ hash, (jobID, hash) ∈ hashes)
  | .null => by simp [merges, jobs]
  | .step jobID auditHash fields children => by
    have hchs := mergesAny_iff hashes children
    simp only [merges, jobs, Bool.or_eq_true, Bool.and_eq_true, decide_eq_true_eq, hashOf_isSome, hchs,
      List.mem_cons, Prod.mk.injEq]
    constructor
    · rintro (⟨⟨hne, rfl⟩, hkno⟩ | ⟨job, hmem, hjob⟩)
      · exact ⟨jobID, .inl ⟨rfl, rfl⟩, hne, hkno⟩
      · exact ⟨job, .inr hmem, hjob⟩
    · rintro ⟨job, ⟨rfl, rfl⟩ | hmem, hne, hkno⟩
      · exact .inl ⟨⟨hne, rfl⟩, hkno⟩
      · exact .inr ⟨job, hmem, hne, hkno⟩

/-- **A hash is carried forward** when a step has none and its job has one. -/
theorem mergesAny_iff (hashes : List (String × String)) : (steps : List (String × StepDoc)) →
    (mergesAny hashes steps ↔ ∃ jobID, (jobID, "") ∈ jobsAll steps ∧ jobID ≠ "" ∧ ∃ hash,
      (jobID, hash) ∈ hashes)
  | [] => by simp [mergesAny, jobsAll]
  | (id, s) :: steps => by
    have hs := merges_iff hashes s
    have hsts := mergesAny_iff hashes steps
    simp only [mergesAny, jobsAll, Bool.or_eq_true, hs, hsts, List.mem_append]
    constructor
    · rintro (⟨job, hmem, hjob⟩ | ⟨job, hmem, hjob⟩)
      · exact ⟨job, .inl hmem, hjob⟩
      · exact ⟨job, .inr hmem, hjob⟩
    · rintro ⟨job, hmem | hmem, hjob⟩
      · exact .inl ⟨job, hmem, hjob⟩
      · exact .inr ⟨job, hmem, hjob⟩

end

end StepDoc

open StepDoc RunDoc

/-- No empty array in the run, and no number that is not a double. -/
def RunDoc.Plain (d : RunDoc) : Prop := Json.PlainMembers d.fields ∧ PlainAll d.steps

/-- **The property of a save**: the payload is stored, with empty hashes filled from the document
before. -/
def Faithful (prev : Option RunDoc) (payload stored : RunDoc) : Prop :=
  ∃ hashes, (∀ p ∈ hashes, ∃ d, prev = some d ∧ p ∈ collectAll d.steps) ∧
    stored = { payload with steps := applyAll hashes payload.steps }

/-- Both documents can be decoded, and a step of the payload without a hash has a job that has one in
the previous document. -/
def Carries (prev : Option RunDoc) (payload : RunDoc) : Prop :=
  ∃ d, prev = some d ∧ d.decodes ∧ payload.decodes ∧
    ∃ jobID, (jobID, "") ∈ payload.jobs ∧ jobID ≠ "" ∧ ∃ hash, (jobID, hash) ∈ collectAll d.steps

theorem updateRunScript_stored (order : PairsOrder) (prev : Option RunDoc) (payload : RunDoc) :
    (∃ d, prev = some d ∧ Carries prev payload ∧ (updateRunScript order prev payload).1 =
      { payload with steps := applyAll (order (collectAll d.steps)).1 payload.steps }.recode) ∨
    (¬ Carries prev payload ∧ (updateRunScript order prev payload).1 = payload) := by
  cases prev with
  | none =>
    refine .inr ⟨?_, rfl⟩
    rintro ⟨d, hd, -⟩
    cases hd
  | some d =>
    have hmer : mergesAny (order (collectAll d.steps)).1 payload.steps ↔
        ∃ jobID, (jobID, "") ∈ payload.jobs ∧ jobID ≠ "" ∧ ∃ hash, (jobID, hash) ∈ collectAll d.steps := by
      rw [mergesAny_iff]
      simp only [(order (collectAll d.steps)).2.mem_iff, RunDoc.jobs]
    have hcar : Carries (some d) payload ↔ d.decodes ∧ payload.decodes ∧
        mergesAny (order (collectAll d.steps)).1 payload.steps := by
      rw [hmer]
      simp [Carries]
    unfold updateRunScript
    dsimp only
    by_cases hdec : d.decodes
    · rw [if_pos hdec]
      by_cases hmrg : payload.decodes ∧ mergesAny (order (collectAll d.steps)).1 payload.steps
      · refine .inl ⟨d, rfl, hcar.2 ⟨hdec, hmrg⟩, ?_⟩
        rw [if_pos (by simp [hmrg])]
      · refine .inr ⟨fun h => hmrg (hcar.1 h).2, ?_⟩
        rw [if_neg (by simpa using hmrg)]
    · rw [if_neg hdec]
      exact .inr ⟨fun h => hdec (hcar.1 h).1, rfl⟩

/-- **A save preserves the run exactly when it carries no hash or the run is plain.** -/
theorem saved_faithfully_iff (order : PairsOrder) (prev : Option RunDoc) (payload : RunDoc) :
    Faithful prev payload (updateRunScript order prev payload).1 ↔
      (Carries prev payload → payload.Plain) := by
  rcases updateRunScript_stored order prev payload with ⟨d, rfl, hcar, hsto⟩ | ⟨hnot, hsto⟩
  · rw [hsto]
    have hhas : ∀ p ∈ (order (collectAll d.steps)).1, ∃ d', some d = some d' ∧ p ∈ collectAll d'.steps :=
      fun p hp => ⟨d, rfl, (order (collectAll d.steps)).2.mem_iff.1 hp⟩
    constructor
    · rintro ⟨hashes, -, heq⟩ -
      have hfds : Json.recodeMembers payload.fields = payload.fields := congrArg fields heq
      have hsts : recodeAll (applyAll (order (collectAll d.steps)).1 payload.steps) =
          applyAll hashes payload.steps :=
        congrArg steps heq
      exact ⟨(Json.recodeMembers_eq_self_iff _).1 hfds, ((recodeAll_applyAll_iff _ _ _).1 hsts).1⟩
    · intro hpl
      obtain ⟨hfds, hsts⟩ := hpl hcar
      refine ⟨_, hhas, ?_⟩
      simp only [RunDoc.recode, (Json.recodeMembers_eq_self_iff _).2 hfds,
        (recodeAll_applyAll_iff _ (order (collectAll d.steps)).1 _).2 ⟨hsts, rfl⟩]
  · rw [hsto]
    refine iff_of_true ⟨[], by simp, ?_⟩ fun h => absurd h hnot
    simp [applyAll_nil]

/-- A run with a step, with or without a hash, and an empty array in its context. -/
def taggedRun (auditHash : String) : RunDoc where
  workflowID := "wf"
  status := "running"
  steps := [("a", .step "run:a@1" auditHash [("status", .str "running")] [])]
  fields := [("context", .obj [("tags", .arr [])])]

/-- **The empty array is an object afterwards**: the run is saved after the step's hash was stored. -/
theorem empty_array_lost :
    let saved := (updateRunScript (fun l => ⟨l, .refl l⟩) (some (taggedRun "ab")) (taggedRun "")).1
    saved.fields = [("context", .obj [("tags", .obj [])])] ∧
      ¬ Faithful (some (taggedRun "ab")) (taggedRun "") saved := by
  have hfds : (updateRunScript (fun l => ⟨l, .refl l⟩) (some (taggedRun "ab")) (taggedRun "")).1.fields =
      [("context", .obj [("tags", .obj [])])] := rfl
  refine ⟨hfds, ?_⟩
  rintro ⟨hashes, -, heq⟩
  have hsm := (congrArg fields heq).symm.trans hfds
  simp [taggedRun] at hsm

end Cordum.Flow
