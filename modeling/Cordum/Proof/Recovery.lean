import Cordum.Workflow.Status

/-!
# When an error counts as recovered

Two parts of the engine decide whether a step that ended without success was recovered from:
`depsSatisfied`, for its dependents, looks at the step's own handler; `walkOnErrorChain`, for the
status of the run, goes on to the handler's handler.

* `recovery_agrees_iff`: the two agree unless the handler that succeeded is not the step's own.
* `recovery_disagrees`: a handler's handler succeeds, and the step's dependents wait for ever.
-/

namespace Cordum.Flow

open Graph

variable {wf : Workflow} {run : WorkflowRun}

/-- The error handler a step names. -/
def handlerOf (wf : Workflow) (id : String) : Option String :=
  match wf.step id with
  | none => none
  | some step => if step.onError = "" then none else some step.onError

/-- The statuses of a handler the walk goes on from. -/
def spent : Option StepStatus → Bool
  | some .waiting | some .failed | some .denied | some .cancelled | some .timedOut | some .skipped => true
  | none | some .unset | some .pending | some .running | some .succeeded => false

/-- The `n` handlers after `id` were spent, and the next one succeeded. -/
def RecoveredAt (wf : Workflow) (run : WorkflowRun) : ℕ → String → Prop
  | 0, id => ∃ h, handlerOf wf id = some h ∧ run.stepStatus h = some .succeeded
  | n + 1, id => ∃ h, handlerOf wf id = some h ∧ spent (run.stepStatus h) ∧ RecoveredAt wf run n h

theorem chainStep_eq {id : String} :
    chainStep wf run id =
      match handlerOf wf id with
      | none => .inl .exhausted
      | some h =>
        if spent (run.stepStatus h) then .inr h
        else if run.stepStatus h = some .succeeded then .inl .recovered
        else .inl .pending := by
  unfold chainStep handlerOf
  cases wf.step id with
  | none => rfl
  | some step =>
    by_cases hon : step.onError = ""
    · simp only [hon, if_true]
    simp only [hon, if_false]
    cases run.stepStatus step.onError with
    | none => rfl
    | some status => cases status <;> rfl

variable {id h dep : String} {sr : StepRun}

theorem chainStep_recovered_iff :
    chainStep wf run id = .inl .recovered ↔ ∃ h, handlerOf wf id = some h ∧
      run.stepStatus h = some .succeeded := by
  rw [chainStep_eq]
  cases handlerOf wf id with
  | none => simp
  | some h =>
    by_cases hs : run.stepStatus h = some .succeeded
    · simp [hs, spent]
    · by_cases hspt : spent (run.stepStatus h) = true <;> simp [hs, hspt]

theorem chainStep_next_iff : chainStep wf run id = .inr h ↔ handlerOf wf id = some h ∧
    spent (run.stepStatus h) := by
  rw [chainStep_eq]
  cases handlerOf wf id with
  | none => simp
  | some h' =>
    by_cases hspt : spent (run.stepStatus h')
    · simp only [hspt, if_true, Sum.inr.injEq, Option.some.injEq]
      constructor
      · rintro rfl
        exact ⟨rfl, hspt⟩
      · exact And.left
    · dsimp only
      rw [if_neg hspt]
      constructor
      · intro hc
        split at hc <;> cases hc
      · rintro ⟨heq, hs⟩
        cases heq
        exact absurd hs hspt

/-- The chain ends in recovery exactly where a handler down it succeeded. -/
theorem stopsIn_recovered_iff {n : ℕ} : StopsIn (chainStep wf run) n id .recovered ↔
    RecoveredAt wf run n id := by
  induction n generalizing id with
  | zero =>
    constructor
    · rintro (h | _)
      exact chainStep_recovered_iff.1 h
    · intro h
      exact .here (chainStep_recovered_iff.2 h)
  | succ n ih =>
    constructor
    · rintro (_ | ⟨h, hs⟩)
      obtain ⟨hh, hspt⟩ := chainStep_next_iff.1 h
      exact ⟨_, hh, hspt, ih.1 hs⟩
    · rintro ⟨h, hh, hspt, hr⟩
      exact .next (chainStep_next_iff.2 ⟨hh, hspt⟩) (ih.2 hr)

theorem walkOnErrorChain_recovered_iff : walkOnErrorChain wf run id = .recovered ↔
    ∃ n, RecoveredAt wf run n id := by
  rw [walkOnErrorChain_eq_iff (by decide)]
  simp only [stopsIn_recovered_iff]

/-! ## The outcome of a walk -/

/-- The statuses of a handler that has ended without success. -/
def dead : Option StepStatus → Bool
  | some .failed | some .denied | some .cancelled | some .timedOut | some .skipped => true
  | none | some .unset | some .pending | some .running | some .waiting | some .succeeded => false

/-- The handler of `id` where it is in a status of `p`, for the walk to go on with; else its end. -/
def nextHandler (p : Option StepStatus → Bool) (wf : Workflow) (run : WorkflowRun) (id : String) :
    Option String ⊕ String :=
  match handlerOf wf id with
  | none => .inl none
  | some h => if p (run.stepStatus h) then .inr h else .inl (some h)

/-- `h` is the first handler from `id` on that is not in a status of `p`. -/
def First (p : Option StepStatus → Bool) (wf : Workflow) (run : WorkflowRun) (id h : String) : Prop :=
  ∃ n, StopsIn (nextHandler p wf run) n id (some h)

/-- The chain from `id` is recovered when its first handler that is not dead has succeeded, exhausted
when it has none, and else pending. -/
structure Classified (wf : Workflow) (run : WorkflowRun) (id : String) (o : ChainOutcome) : Prop where
  recovered : o = .recovered ↔ ∃ h, First dead wf run id h ∧ run.stepStatus h = some .succeeded
  exhausted : o = .exhausted ↔ ∀ h, ¬ First dead wf run id h
  pending : o = .pending ↔ ∃ h, First dead wf run id h ∧ run.stepStatus h ≠ some .succeeded

/-- What the walk makes of its end. -/
def outcomeAt (run : WorkflowRun) : Option String → ChainOutcome
  | none => .exhausted
  | some h => if run.stepStatus h = some .succeeded then .recovered else .pending

theorem chainStep_eq_map :
    chainStep wf run = fun id => (nextHandler spent wf run id).map (outcomeAt run) fun h => h := by
  funext id
  rw [chainStep_eq]
  unfold nextHandler
  cases handlerOf wf id with
  | none => rfl
  | some h =>
    dsimp only
    split_ifs with h1 h2
    · rfl
    · exact congrArg Sum.inl (if_pos h2).symm
    · exact congrArg Sum.inl (if_neg h2).symm

theorem walk_eq_iff {o : ChainOutcome} (ho : o ≠ .exhausted) :
    walkOnErrorChain wf run id = o ↔ ∃ h, First spent wf run id h ∧ outcomeAt run (some h) = o := by
  rw [walkOnErrorChain_eq_iff ho, chainStep_eq_map]
  simp only [stopsIn_map]
  constructor
  · rintro ⟨n, _ | h, hn, hout⟩
    · exact absurd hout.symm ho
    · exact ⟨h, ⟨n, hn⟩, hout⟩
  · rintro ⟨h, ⟨n, hn⟩, hout⟩
    exact ⟨n, some h, hn, hout⟩

theorem First.unique {p : Option StepStatus → Bool} {h' : String} (hf : First p wf run id h)
    (hf' : First p wf run id h') :
    h = h' := by
  obtain ⟨n, hn⟩ := hf
  obtain ⟨m, hm⟩ := hf'
  exact Option.some.inj (hn.unique hm).2

/-- The walk differs from one that goes on from dead handlers only where they wait. -/
theorem nextHandler_or (wf : Workflow) (run : WorkflowRun) (id : String) :
    nextHandler dead wf run id = nextHandler spent wf run id ∨
      ∃ p, (∃ h, p = some h ∧ run.stepStatus h = some .waiting) ∧ nextHandler dead wf run id = .inl p := by
  have hsm : ∀ s, s ≠ some .waiting → dead s = spent s := by rintro (_ | _ | _) <;> simp [dead, spent]
  unfold nextHandler
  cases handlerOf wf id with
  | none => exact .inl rfl
  | some h =>
    by_cases hw : run.stepStatus h = some .waiting
    · exact .inr ⟨some h, ⟨h, rfl, hw⟩, by simp [hw, dead]⟩
    · exact .inl (by simp only [hsm _ hw])

theorem First.of_dead (hf : First dead wf run id h) (hw : run.stepStatus h ≠ some .waiting) :
    First spent wf run id h := by
  obtain ⟨n, hn⟩ := hf
  refine ⟨n, hn.refine (nextHandler_or wf run) ?_⟩
  rintro ⟨_, ⟨⟩, hwt⟩
  exact hw hwt

theorem First.exists_dead (hf : First spent wf run id h) : ∃ h', First dead wf run id h' := by
  obtain ⟨n, hn⟩ := hf
  obtain ⟨m, hm⟩ | ⟨m, _, ⟨h', rfl, -⟩, hm⟩ := hn.unrefine (nextHandler_or wf run)
  · exact ⟨h, m, hm⟩
  · exact ⟨h', m, hm⟩

theorem First.classified (hf : First dead wf run id h) :
    Classified wf run id (outcomeAt run (some h)) := by
  refine ⟨⟨fun ho => ⟨h, hf, ?_⟩, ?_⟩, iff_of_false ?_ fun hno => hno h hf, ⟨fun ho => ⟨h, hf, ?_⟩, ?_⟩⟩
  · by_contra hs
    simp [outcomeAt, hs] at ho
  · rintro ⟨h', hf', hs⟩
    rw [hf.unique hf', outcomeAt, if_pos hs]
  · simp only [outcomeAt]
    split_ifs <;> decide
  · intro hs
    simp [outcomeAt, hs] at ho
  · rintro ⟨h', hf', hs⟩
    rw [hf.unique hf', outcomeAt, if_neg hs]

/-- **A walk classifies its chain** exactly when the first handler that is not dead is not waiting, or
the walk goes on to one that is neither spent nor succeeded. -/
theorem walk_classifies_iff (wf : Workflow) (run : WorkflowRun) (id : String) :
    Classified wf run id (walkOnErrorChain wf run id) ↔
      ∀ h, First dead wf run id h → run.stepStatus h = some .waiting →
        ∃ h', First spent wf run id h' ∧ run.stepStatus h' ≠ some .succeeded := by
  constructor
  · intro hc h hf hw
    have hp := hc.pending.2 ⟨h, hf, by rw [hw]; decide⟩
    obtain ⟨h', hf', hout⟩ := (walk_eq_iff (by decide)).1 hp
    exact ⟨h', hf', fun hs => by simp [outcomeAt, hs] at hout⟩
  · intro hcd
    by_cases hlv : ∃ h, First dead wf run id h
    · obtain ⟨h, hf⟩ := hlv
      -- a handler the walk stops at, with the outcome of the first live one
      obtain ⟨h', hf', hout⟩ : ∃ h', First spent wf run id h' ∧
          outcomeAt run (some h') = outcomeAt run (some h) := by
        by_cases hw : run.stepStatus h = some .waiting
        · obtain ⟨h', hf', hs⟩ := hcd h hf hw
          exact ⟨h', hf', by simp [outcomeAt, hs, hw]⟩
        · exact ⟨h, hf.of_dead hw, rfl⟩
      rw [(walk_eq_iff (fun ho => hf.classified.exhausted.1 ho h hf)).2 ⟨h', hf', hout⟩]
      exact hf.classified
    · have hwl : walkOnErrorChain wf run id = .exhausted := by
        by_contra ho
        obtain ⟨h, hf, -⟩ := (walk_eq_iff ho).1 rfl
        exact hlv hf.exists_dead
      rw [hwl]
      exact ⟨iff_of_false nofun fun ⟨h, hf, _⟩ => hlv ⟨h, hf⟩, iff_of_true rfl fun h hf => hlv ⟨h, hf⟩,
        iff_of_false nofun fun ⟨h, hf, _⟩ => hlv ⟨h, hf⟩⟩

/-- The handler of a failed step waits, and the chain counts as exhausted. -/
theorem walk_gives_up_waiting :
    let wf : Workflow := { steps := ([⟨"a", some { id := "a", onError := "h" }⟩,
      ⟨"h", some { id := "h", type := .approval }⟩] : List (Sigma fun _ : String => _)).toAList }
    let run : WorkflowRun :=
        { status := .waiting, steps := ([⟨"a", { status := .failed }⟩, ⟨"h", { status := .waiting }⟩] :
      List (Sigma fun _ : String => _)).toAList }
    run.stepStatus "h" = some .waiting ∧ ¬ Classified wf run "a" (walkOnErrorChain wf run "a") := by
  intro wf run
  exact ⟨rfl, fun hc => hc.exhausted.1 (by decide) "h" ⟨0, .here (by decide)⟩⟩

/-- The statuses of a step that ended in an error. -/
def erred : StepStatus → Bool
  | .failed | .denied | .timedOut => true
  | .unset | .pending | .running | .waiting | .succeeded | .cancelled | .skipped => false

/-- A failed dependency is met exactly when its own handler succeeded. -/
theorem depSatisfied_of_erred (hsr : run.step dep = some sr) (he : erred sr.status) :
    depSatisfied wf run dep ↔ RecoveredAt wf run 0 dep := by
  have hown : depSatisfied wf run dep =
      match wf.step dep with
      | none => false
      | some depDef => depDef.onError ≠ "" && run.stepStatus depDef.onError = some .succeeded := by
    unfold depSatisfied
    rw [hsr]
    dsimp only
    cases hs : sr.status with
    | failed | denied | timedOut => rfl
    | _ => rw [hs] at he; cases he
  rw [hown, RecoveredAt]
  unfold handlerOf
  cases wf.step dep with
  | none => simp
  | some depDef => by_cases hon : depDef.onError = "" <;> simp [hon]

/-- `updateRunStatus` counts a failed step as completed exactly when the walk finds a recovery. -/
theorem verdict_completed_of_erred (hsr : run.step id = some sr)
    (he : erred sr.status) : verdict wf run id = .completed ↔ walkOnErrorChain wf run id = .recovered := by
  have haft : ∀ ended : Verdict, ended ≠ .completed →
      (afterError wf run id ended = .completed ↔ walkOnErrorChain wf run id = .recovered) := by
    intro ended hend
    have hno : handlerOf wf id = none → walkOnErrorChain wf run id ≠ .recovered := by
      intro hn hr
      obtain ⟨n, hn'⟩ := walkOnErrorChain_recovered_iff.1 hr
      cases n <;> obtain ⟨h, hh, -⟩ := hn' <;> rw [hn] at hh <;> cases hh
    unfold afterError
    cases hsp : wf.step id with
    | none => exact ⟨fun h => absurd h hend, fun h => absurd h (hno (by rw [handlerOf, hsp]))⟩
    | some stepDef =>
      by_cases hon : stepDef.onError = ""
      · simp only [hon]
        exact ⟨fun h => absurd h hend,
          fun h => absurd h (hno (by simp only [handlerOf, hsp, hon, if_true]))⟩
      · simp only [hon]
        cases walkOnErrorChain wf run id <;> simp [hend]
  rw [verdict_some hsr, verdictOf]
  cases hs : sr.status with
  | failed => exact haft .failed (by decide)
  | denied => exact haft .denied (by decide)
  | timedOut => exact haft .timedOut (by decide)
  | _ => rw [hs] at he; cases he

/-- **Dependencies and the status of a run agree on a recovery exactly when no handler further down
the chain was the one to succeed.** -/
theorem recovery_agrees_iff (wf : Workflow) (run : WorkflowRun) (d : String) (sr : StepRun)
    (hsr : run.step d = some sr) (he : erred sr.status = true) :
    ((depSatisfied wf run d = true ↔ walkOnErrorChain wf run d = .recovered) ↔ ∀ n,
      RecoveredAt wf run n d → n = 0) ∧ (∀ s : Step, d ∈ s.dependsOn → errorActivated run s.id = false →
        (∀ e ∈ s.dependsOn, e ≠ d → depSatisfied wf run e = true) →
        depsSatisfied (some s) run wf = depSatisfied wf run d) ∧
      (verdict wf run d = .completed ↔ walkOnErrorChain wf run d = .recovered) := by
  refine ⟨?_, ?_, verdict_completed_of_erred hsr he⟩
  · rw [depSatisfied_of_erred hsr he, walkOnErrorChain_recovered_iff]
    constructor
    · intro h n hn
      -- a chain ends after one number of steps only
      have h0 := h.2 ⟨n, hn⟩
      exact ((stopsIn_recovered_iff.2 hn).unique (stopsIn_recovered_iff.2 h0)).1
    · intro h
      refine ⟨fun h0 => ⟨0, h0⟩, fun ⟨n, hn⟩ => ?_⟩
      have := h n hn
      exact this ▸ hn
  · intro s hd hact hoth
    have hne : s.dependsOn.isEmpty = false := by
      cases hdp : s.dependsOn with
      | nil => rw [hdp] at hd; cases hd
      | cons => rfl
    simp only [depsSatisfied, hne, hact, Bool.false_or]
    cases hdep : depSatisfied wf run d with
    | true =>
      rw [List.all_eq_true]
      intro e hmem
      by_cases heq : e = d
      · rw [heq, hdep]
      · exact hoth e hmem heq
    | false =>
      rw [List.all_eq_false]
      exact ⟨d, hd, by rw [hdep]; decide⟩

/-! ## A handler's handler -/

/-- `b` depends on `a`, whose handler `h` has the handler `g`. -/
def relayed : Workflow where
  steps := ([⟨"a", some { id := "a", onError := "h" }⟩, ⟨"h", some { id := "h", onError := "g" }⟩,
    ⟨"g", some { id := "g" }⟩, ⟨"b", some { id := "b", dependsOn := ["a"] }⟩] : List
      (Sigma fun _ : String => _)).toAList

/-- `a` and `h` failed, `g` succeeded. -/
def relayedRun : WorkflowRun where
  status := .running
  steps := ([⟨"a", { status := .failed }⟩, ⟨"h", { status := .failed }⟩, ⟨"g", { status := .succeeded }⟩] :
    List (Sigma fun _ : String => _)).toAList

theorem recovery_agrees_iff_relayed :
    (depSatisfied relayed relayedRun "a" = true ↔ walkOnErrorChain relayed relayedRun "a" = .recovered) ↔
      ∀ n, RecoveredAt relayed relayedRun n "a" → n = 0 :=
  (recovery_agrees_iff relayed relayedRun "a" { status := .failed } rfl rfl).1

/-- The failure counts as recovered for the run, not for the step behind it. -/
theorem recovery_disagrees :
    relayedRun.stepStatus "a" = some .failed ∧ walkOnErrorChain relayed relayedRun "a" = .recovered ∧
      verdict relayed relayedRun "a" = .completed ∧
      depsSatisfied (relayed.step "b") relayedRun relayed = false := by
  decide

end Cordum.Flow
