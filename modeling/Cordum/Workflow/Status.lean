import Cordum.Data.Loop
import Cordum.Graph.Chase
import Cordum.Graph.Sweep
import Cordum.Workflow.Model

/-!
# The status of a run

What the engine reads off the steps of a run: which steps a fan-out looks after, whether a step's
dependencies are met, whether an error was recovered from, and the status of the run. A definition is
a Go map, so every `range` over it comes with an order of its own (`Order`).
-/

namespace Cordum.Flow

open Graph WorkflowRun List

variable (wf : Workflow) (run : WorkflowRun) (stepID : String) (failedStepID : String) (now : ℤ)

/-- An order in which the steps of a definition are enumerated. -/
abbrev Order := { l : List String // l.Perm wf.ids }

/-- The order of the definition itself. -/
def Workflow.order : Order wf := ⟨wf.ids, .refl _⟩

/-! ## Owners -/

/-- The children each step lists, under the first step that lists them. -/
def collectOwners (childrenOf : Step → List String) (order : List String) : GoMap String :=
  order.foldl (fun owners parentID =>
    match wf.step parentID with
    | none => owners
    | some step => (childrenOf step).foldl (fun owners childID =>
        if childID = "" ∨ childID = parentID then owners
        else if (owners.lookup childID).isSome then owners
        else owners.insert childID parentID) owners) ∅

/-- The children a parallel step lists. -/
def parallelChildren (step : Step) : List String :=
  if step.type = .parallel then step.parallelSteps.getD [] else []

/-- The body of a loop. -/
def loopBodies (step : Step) : List String := if step.type = .loop then [step.loopBody] else []

/-- The parallel step of each listed step. -/
def collectParallelChildOwners (order : List String) : GoMap String :=
  collectOwners wf parallelChildren order

/-- The loop of each body. -/
def collectLoopBodyOwners (order : List String) : GoMap String := collectOwners wf loopBodies order

/-- The step is dispatched by another one. -/
def managedBy (owners : GoMap String) (stepID : String) : Bool :=
  match owners.lookup stepID with
  | some ownerID => ownerID ≠ stepID
  | none => false

/-- One of the steps lists `childID`, under a name of its own. -/
def Listed (childrenOf : Step → List String) (parents : List String) (childID : String) : Prop :=
  ∃ parentID ∈ parents, ∃ step, wf.step parentID = some step ∧ childID ∈ childrenOf step ∧ childID ≠ "" ∧
    childID ≠ parentID

theorem isSome_addOwner (parentID childID : String) (owners : GoMap String) (c : String) :
    ((if c = "" ∨ c = parentID then owners
      else if (owners.lookup c).isSome then owners else owners.insert c parentID).lookup childID).isSome ↔
      (owners.lookup childID).isSome ∨ c = childID ∧ c ≠ "" ∧ c ≠ parentID := by
  by_cases hc : childID = c
  · subst hc
    split_ifs with hsk hold
    · simp only [true_and, ← not_or, hsk, not_true_eq_false, or_false]
    · simp [hold]
    · simp [← not_or, hsk]
  · split_ifs <;> simp [AList.lookup_insert_ne hc, Ne.symm hc]

variable {childrenOf : Step → List String} {order : List String}

theorem owner_ne : ∀ c p, (collectOwners wf childrenOf order).lookup c = some p → p ≠ c := by
  refine foldlRecOn (motive := fun owners : GoMap String => ∀ c p, owners.lookup c = some p → p ≠ c)
    order _ (by simp)
    fun owners h parentID _ => ?_
  split
  · exact h
  refine foldlRecOn (motive := fun owners : GoMap String => ∀ c p, owners.lookup c = some p → p ≠ c) _ _ h
    fun owners h child _ => ?_
  split_ifs with hsk
  · exact h
  · exact h
  intro c p hlk
  by_cases hc : c = child
  · rw [hc, AList.lookup_insert] at hlk
    cases hlk
    exact fun heq => hsk (.inr (hc ▸ heq.symm))
  · rw [AList.lookup_insert_ne hc] at hlk
    exact h c p hlk

/-- Which steps another one dispatches does not depend on the order. -/
theorem managedBy_collectOwners
    {childID : String} : managedBy (collectOwners wf childrenOf order) childID ↔
      Listed wf childrenOf order childID := by
  have hiff : ((collectOwners wf childrenOf order).lookup childID).isSome ↔
      Listed wf childrenOf order childID := by
    refine (Loop.foldl_iff (P := fun owners : GoMap String => (owners.lookup childID).isSome)
      (fun owners parentID => ?_)
      order ∅).trans (or_iff_right (by simp))
    cases hsp : wf.step parentID with
    | none => simp
    | some step =>
      have hchs := Loop.foldl_iff (P := fun owners : GoMap String => (owners.lookup childID).isSome)
        (isSome_addOwner parentID childID) (childrenOf step) owners
      simpa using hchs
  rw [← hiff, managedBy]
  cases hl : (collectOwners wf childrenOf order).lookup childID with
  | none => simp
  | some ownerID => simp [owner_ne wf _ _ hl]

/-! ## Dependencies and error handlers -/

/-- Whether a dependency holds nothing up. -/
def depSatisfied (dep : String) : Bool :=
  match run.step dep with
  | none => false
  | some sr =>
    match sr.status with
    | .succeeded => true
    | .failed | .denied | .timedOut =>
      match wf.step dep with
      | none => false
      | some depDef => depDef.onError ≠ "" && run.stepStatus depDef.onError = some .succeeded
    | .unset | .pending | .running | .waiting | .cancelled | .skipped => false

/-- A pending step that was activated with an error. -/
def errorActivated : Bool :=
  match run.step stepID with
  | none => false
  | some sr => sr.status = .pending && sr.errorInput ≠ .absent

/-- The dependencies of a step are met. -/
def depsSatisfied (step : Option Step) (run : WorkflowRun) (wf : Workflow) : Bool :=
  match step with
  | none => true
  | some step =>
    step.dependsOn.isEmpty || errorActivated run step.id || step.dependsOn.all (depSatisfied wf run)

/-- Some step has this one as its handler. -/
def isOnErrorTarget : Bool :=
  wf.ids.any fun id =>
    match wf.step id with
    | none => false
    | some step => step.onError = stepID

/-- What became of a chain of handlers. -/
inductive ChainOutcome
  | pending
  | recovered
  | exhausted
deriving DecidableEq, Repr

/-- One turn of `walkOnErrorChain`: an outcome, or the handler to go on with. -/
def chainStep (cur : String) : ChainOutcome ⊕ String :=
  match wf.step cur with
  | none => .inl .exhausted
  | some stepDef =>
    if stepDef.onError = "" then .inl .exhausted
    else
      match run.stepStatus stepDef.onError with
      | none | some .unset | some .pending | some .running => .inl .pending
      | some .succeeded => .inl .recovered
      | some .waiting | some .failed | some .denied | some .cancelled | some .timedOut | some .skipped =>
        .inr stepDef.onError

/-- `walkOnErrorChain`. A chain can leave each step of the definition once. -/
def walkOnErrorChain (startStepID : String) : ChainOutcome :=
  chase (chainStep wf run) .exhausted (wf.ids.length + 1) [] startStepID

/-- The walk comes to an outcome other than exhaustion exactly where the chain has it. -/
theorem walkOnErrorChain_eq_iff {wf : Workflow} {run : WorkflowRun} {id : String} {o : ChainOutcome}
    (ho : o ≠ .exhausted) : walkOnErrorChain wf run id = o ↔ ∃ n, StopsIn (chainStep wf run) n id o := by
  refine chase_eq_iff ?_ (Nat.lt_succ_self _) ho
  intro a a' h
  cases hsp : wf.step a with
  | none => rw [chainStep, hsp] at h; cases h
  | some step => exact Workflow.mem_ids_of_step hsp

/-! ## Skipping what depends on a failure -/

/-- The step lists the dependency. -/
def dependsOn (depID stepID : String) : Bool :=
  match wf.step stepID with
  | none => false
  | some stepDef => stepDef.dependsOn.contains depID

/-- Skip one step. -/
def WorkflowRun.skipStep (stepID : String) : WorkflowRun :=
  match run.step stepID with
  | none => run
  | some sr =>
    run.setStep stepID
      { sr with status := .skipped, skipReason :=
        s!"dependency {failedStepID} failed", completedAt := some now }

theorem WorkflowRun.step_skipStep_ne {stepID id : String}
    (h : id ≠ stepID) : (run.skipStep failedStepID now stepID).step id = run.step id := by
  unfold skipStep
  split
  · rfl
  · exact run.step_setStep_ne _ h

/-- The cascade of `skipDependentSteps`: the run with the steps it has visited. -/
def skipMarking : Marking String (WorkflowRun × List String) where
  pending s id := id ∉ s.2 && s.1.stepStatus id = some .pending
  mark id s := (s.1.skipStep failedStepID now id, id :: s.2)
  pending_mark a s b := by
    by_cases hb : b = a
    · simp [hb]
    · simp [hb, WorkflowRun.stepStatus, WorkflowRun.step_skipStep_ne _ _ _ hb]

/-- `skipDependentSteps`, with an order for each step the cascade comes to. -/
def skipDependentSteps (order : String → List String) (now : ℤ) (run : WorkflowRun)
    (failedStepID : String) : WorkflowRun :=
  (sweep (skipMarking failedStepID now) (fun depID => (order depID).filter (dependsOn wf depID))
    (wf.ids.length + 1)
    failedStepID (run, [failedStepID])).1

/-- `run'` is `run` with the pending steps `K` skipped. -/
structure Skips (run run' : WorkflowRun) (K : String → Prop) : Prop where
  pending : ∀ id, K id → run.stepStatus id = some .pending
  skipped : ∀ id, K id → run'.stepStatus id = some .skipped
  others : ∀ id, ¬ K id → run'.step id = run.step id

/-- The pending steps that depend on a step, directly or through pending ones. -/
inductive Downstream (wf : Workflow) (run : WorkflowRun) (failedStepID : String) : String → Prop
  | direct {id : String} (h : dependsOn wf failedStepID id) (hp : run.stepStatus id = some .pending) :
    Downstream wf run failedStepID id
  | through {a b : String} (ha : Downstream wf run failedStepID a) (h : dependsOn wf a b)
    (hp : run.stepStatus b = some .pending) : Downstream wf run failedStepID b

theorem Downstream.pending {wf : Workflow} {run : WorkflowRun} {failedStepID id : String}
    (h : Downstream wf run failedStepID id) : run.stepStatus id = some .pending := by
  cases h with
  | direct _ hp | through _ _ hp => exact hp

theorem WorkflowRun.step_skipStep (id : String) : (run.skipStep failedStepID now id).step id =
    (run.step id).map fun sr =>
      { sr with status := .skipped, skipReason :=
        s!"dependency {failedStepID} failed", completedAt := some now } := by
  unfold skipStep
  split
  · rename_i hsr
    rw [hsr]
    rfl
  · rename_i hsr
    rw [hsr, step_setStep]
    rfl

theorem skips_markAll (l : List String) (hl : l.Nodup) (run : WorkflowRun)
    (visited : List String) (hp : ∀ id ∈ l, run.stepStatus id = some .pending) :
    Skips run ((skipMarking failedStepID now).markAll l (run, visited)).1 (· ∈ l) := by
  have hsp : ∀ id, ((skipMarking failedStepID now).markAll l (run, visited)).1.step id = _ := fun id =>
    Loop.foldl_at (v := fun s : WorkflowRun × List String => s.1.step id)
      (fun s => step_skipStep s.1 failedStepID now id)
      (fun s _ h => s.1.step_skipStep_ne failedStepID now h) (.inl hl) (run, visited)
  refine ⟨hp, fun id hid => ?_, fun id hid => (hsp id).trans (if_neg hid)⟩
  have hpn := hp id hid
  unfold stepStatus at hpn ⊢
  rw [hsp, if_pos hid]
  cases hsr : run.step id with
  | none => rw [hsr] at hpn; cases hpn
  | some sr => simp

/-- **What `skipDependentSteps` does**: it skips what depends on the step. -/
theorem skipDependentSteps_skips {wf : Workflow} (order : String → Order wf) (now : ℤ) {run : WorkflowRun}
    {failedStepID : String} (hf : run.stepStatus failedStepID ≠ some .pending) :
    Skips run (skipDependentSteps wf (fun dep => (order dep).1) now run failedStepID)
      (Downstream wf run failedStepID) := by
  set M := skipMarking failedStepID now
  set next := fun depID => ((order depID).1).filter (dependsOn wf depID)
  have hnx : ∀ d a, a ∈ next d ↔ dependsOn wf d a := by
    intro d a
    simp only [next, mem_filter, (order d).2.mem_iff, and_iff_right_iff_imp]
    intro h
    cases hsp : wf.step a with
    | none => rw [dependsOn, hsp] at h; cases h
    | some step => exact Workflow.mem_ids_of_step hsp
  have hdom : ∀ d, ∀ a ∈ next d, a ∈ wf.ids := by
    intro d a ha
    exact (order d).2.mem_iff.1 (mem_filter.1 ha).1
  have hfu : pendingCount M wf.ids (run, [failedStepID]) < wf.ids.length + 1 :=
    Nat.lt_succ_of_le countP_le_length
  obtain ⟨l, hswe, hnd, hmem⟩ := sweep_marks hdom hfu
  have hpn : ∀ id, M.pending (run, [failedStepID]) id ↔ run.stepStatus id = some .pending := by
    intro id
    simp only [M, skipMarking, mem_singleton, Bool.and_eq_true, decide_eq_true_eq, and_iff_right_iff_imp]
    rintro h rfl
    exact hf h
  have hrea : ∀ id, id ∈ l ↔ Downstream wf run failedStepID id := by
    intro id
    rw [hmem]
    constructor
    · intro h
      induction h with
      | next h hp => exact .direct ((hnx _ _).1 h) ((hpn _).1 hp)
      | step _ hb hp ih => exact .through ih ((hnx _ _).1 hb) ((hpn _).1 hp)
    · intro h
      induction h with
      | direct h hp => exact .next ((hnx _ _).2 h) ((hpn _).2 hp)
      | through _ h hp ih => exact .step ih ((hnx _ _).2 h) ((hpn _).2 hp)
  have hski :=
    skips_markAll failedStepID now l hnd run [failedStepID] fun id hid => ((hrea id).1 hid).pending
  have hK : (· ∈ l) = Downstream wf run failedStepID := funext fun id => propext (hrea id)
  rw [skipDependentSteps, hswe]
  exact hK ▸ hski

/-! ## The status of a run -/

/-- What a step means for its run. -/
inductive Verdict
  /-- An error handler nobody asked for. -/
  | notNeeded
  | unfinished
  | waiting
  | completed
  | failed
  | denied
  | timedOut
  /-- Cancelled, and not as a branch not taken. -/
  | cancelled
deriving DecidableEq, Repr

/-- A step that ended without success: its error handlers decide. -/
def afterError (ended : Verdict) : Verdict :=
  match wf.step stepID with
  | none => ended
  | some stepDef =>
    if stepDef.onError = "" then ended
    else
      match walkOnErrorChain wf run stepID with
      | .pending => .unfinished
      | .recovered => .completed
      | .exhausted => ended

/-- The switch of `updateRunStatus`. -/
def verdictOf (sr : StepRun) : Verdict :=
  match sr.status with
  | .failed => afterError wf run stepID .failed
  | .denied => afterError wf run stepID .denied
  | .timedOut => afterError wf run stepID .timedOut
  | .cancelled => if isSwitchBranchNotTaken sr then .completed else .cancelled
  | .succeeded => .completed
  | .waiting => .waiting
  | .unset | .pending | .running | .skipped => .unfinished

/-- What `updateRunStatus` makes of a step, with an entry in the run or without. -/
def verdict : Verdict :=
  match run.step stepID with
  | none => if isOnErrorTarget wf stepID then .notNeeded else .unfinished
  | some sr => verdictOf wf run stepID sr

theorem verdict_some {wf : Workflow} {run : WorkflowRun} {stepID : String} {sr : StepRun}
    (h : run.step stepID = some sr) : verdict wf run stepID = verdictOf wf run stepID sr := by
  rw [verdict, h]

/-- The counters of `updateRunStatus`. -/
structure Tally where
  hasFailed : Bool := false
  hasDenied : Bool := false
  hasTimedOut : Bool := false
  waiting : Bool := false
  allDone : Bool := true
  completed : ℤ := 0
  expectedSteps : ℤ
deriving DecidableEq, Repr

/-- Count a step. -/
def Tally.count (t : Tally) : Verdict → Tally
  | .notNeeded => { t with expectedSteps := t.expectedSteps - 1 }
  | .unfinished => { t with allDone := false }
  | .waiting => { t with waiting := true, allDone := false }
  | .completed => { t with completed := t.completed + 1 }
  | .failed | .cancelled => { t with hasFailed := true }
  | .denied => { t with hasDenied := true }
  | .timedOut => { t with hasTimedOut := true }

/-- The orders of the enumerations in one call of `updateRunStatus`. -/
structure StatusOrders (wf : Workflow) where
  parallelOwners : Order wf
  loopOwners : Order wf
  expected : Order wf
  main : Order wf
  /-- By the failed step and the step whose dependents are looked for. -/
  cascade : String → String → Order wf

/-- The orders with a given one for the main loop. -/
def inOrder (main : Order wf) : StatusOrders wf where
  parallelOwners := wf.order
  loopOwners := wf.order
  expected := wf.order
  main := main
  cascade _ _ := wf.order

/-- The steps their owner dispatches. -/
def StatusOrders.managed {wf : Workflow} (o : StatusOrders wf) (stepID : String) : Bool :=
  managedBy (collectParallelChildOwners wf o.parallelOwners.1) stepID ||
    managedBy (collectLoopBodyOwners wf o.loopOwners.1) stepID

/-- One turn of the loop over the steps. -/
def countStep {wf : Workflow} (o : StatusOrders wf) (now : ℤ) (s : Tally × WorkflowRun) (stepID : String) :
    Tally × WorkflowRun :=
  if o.managed stepID then s
  else
    let v := verdict wf s.2 stepID
    (s.1.count v,
      match v with
      | .failed | .denied => skipDependentSteps wf (fun dep => (o.cascade stepID dep).1) now s.2 stepID
      | _ => s.2)

/-- The steps to be completed. -/
def expectedSteps {wf : Workflow} (o : StatusOrders wf) : ℤ :=
  max 0 (o.expected.1.foldl (fun n stepID => if o.managed stepID then n - 1 else n) (wf.ids.length : ℤ))

/-- What the counters come to. -/
def Tally.status (t : Tally) : RunStatus :=
  if t.hasFailed then .failed
  else if t.hasDenied then .denied
  else if t.hasTimedOut then .timedOut
  else if t.waiting then .waiting
  else if t.allDone ∧ t.completed = t.expectedSteps then .succeeded
  else .running

/-- The run with the status its steps add up to. -/
def updateRunStatus {wf : Workflow} (o : StatusOrders wf) (now : ℤ) (run : WorkflowRun) : WorkflowRun :=
  match run.status with
  | .cancelled | .timedOut => run
  | _ =>
    let s := o.main.1.foldl (countStep o now) ({ expectedSteps := expectedSteps o }, run)
    { s.2 with
      status := s.1.status
      completedAt := if isTerminalRunStatus s.1.status then some now else s.2.completedAt }

end Cordum.Flow
