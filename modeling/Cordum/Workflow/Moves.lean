import Cordum.Workflow.Engine
import Cordum.Workflow.Turns

/-!
# What an operation can do

The operations on a run, told as sequences of moves: the turns of the visits, and what results,
approvals, the reconciler and the end of a run do to its entries.
-/

namespace Cordum.Flow

open Relation WorkflowRun Bool

variable {wf : Workflow} {v : Visit} {run : WorkflowRun}

/-! ## Moves -/

/-- A step that another one dispatches. -/
def Workflow.Managed (wf : Workflow) (id : String) : Prop :=
  Listed wf parallelChildren wf.ids id ∨ Listed wf loopBodies wf.ids id

/-- What is asked of the visits, the gates and the results of a run. -/
structure Terms where
  visit : Visit → Prop := fun _ => True
  /-- By the run and the step whose gate closes. -/
  gate : WorkflowRun → String → Prop := fun _ _ => True
  /-- By the run, the step or child and the result. -/
  result : WorkflowRun → String → JobResult → Prop := fun _ _ _ => True
  /-- The reconciler may find steps that wait for a job nobody knows. -/
  recovers : Prop := True
  /-- The run is stored at the end of every operation. -/
  stored : Prop := False

/-- An operation first changes the run, then schedules its steps. -/
inductive Phase
  | handling
  | scheduling

/-- A visit of the main loop. -/
structure Visiting (wf : Workflow) (v : Visit) : Prop where
  wf_eq : v.wf = wf
  step : wf.step v.stepID = some v.step
  unmanaged : ¬ wf.Managed v.stepID
  owners : ∃ order : Order wf, v.parallelOwners = collectParallelChildOwners wf order.1
  proper : v.Proper

/-- The entry of a child: its parent's copy, or the run's. -/
def WorkflowRun.childEntry (run : WorkflowRun) (base childID : String) : ChildRun :=
  (((run.entry base).children.lookup childID).or ((run.step childID).map (·.toChildRun))).getD {}

/-- The step is a loop. -/
def ofLoop : Option Step → Bool
  | some step => decide (step.type = StepType.loop)
  | none => false

/-- A parent whose child has a result. -/
def withResult (step : Option Step) (now : ℤ) (parent : StepRun) : StepRun :=
  if ofLoop step then { parent with status := .running, completedAt := none }
  else
    let status := aggregateChildren parent
    { parent with
      status
      completedAt := if status = .succeeded || erring status then some now else parent.completedAt }

/-- What the end of a run makes of a step that has not ended. -/
def Ending (change : ChildRun → ChildRun) : Prop :=
  ∀ c, ((change c).status = .timedOut ∨ (change c).status = .cancelled) ∧ (change c).jobID = c.jobID ∧
    (change c).attempts = c.attempts ∧ (change c).auditHash = c.auditHash

/-- A move of an operation. -/
inductive Move (wf : Workflow) (T : Terms) : Phase → Tick → Tick → Prop
  | turn {v : Visit} {t t' : Tick} (hv : Visiting wf v) (hT : T.visit v)
      (hopen : isTerminalRunStatus t.run.status = false) (h : Turn v t t') : Move wf T .scheduling t t'
  /-- The gate of a step is closed. -/
  | gated {v : Visit} {t : Tick} (hv : Visiting wf v) (hT : T.gate t.run v.stepID)
    (hopen : isTerminalRunStatus t.run.status = false) (hclosed : v.Closed)
    (hdue : Due v (t.entry v.stepID)) :
    Move wf T .scheduling t (t.put v.stepID (gated v.now (t.entry v.stepID)))
  | begun {t : Tick} (now : ℤ) (h : t.run.status = .pending) :
    Move wf T .scheduling t { t with run := { t.run with status := .running, startedAt := some now } }
  | ticked {t : Tick} (dispatched : List String) : Move wf T .scheduling t { t with dispatched }
  | activated {phase : Phase} {t : Tick} (id : String) (h : erring (t.entry id).status) :
    Move wf T phase t { t with run := activateOnErrorHandler wf t.run id }
  | counted {phase : Phase} {t : Tick} (o : StatusOrders wf) (now : ℤ)
      (hopen : isTerminalRunStatus t.run.status = false) :
    Move wf T phase t { t with run := updateRunStatus o now t.run }
  | saved {phase : Phase} {t : Tick} : Move wf T phase t (t.emit (.save t.run))
  | other {phase : Phase} {t : Tick} {e : Effect} (he : e.quiet) : Move wf T phase t (t.emit e)
  /-- The result of a step's own job. -/
  | result {t : Tick} {stepID : String} {res : JobResult} {child : ChildRun} {retry : Option ℤ}
    (env : OpEnv wf) (hid : '[' ∉ stepID.toList) (hT : T.result t.run stepID res)
    (hopen : isTerminalRunStatus t.run.status = false)
    (h : takeResult env (wf.step stepID) res (t.entry stepID).toChildRun = some (child, retry)) :
    Move wf T .handling t (t.put stepID { t.entry stepID with toChildRun := child })
  /-- The result of a child. -/
  | childResult {t : Tick} {base childID : String} {res : JobResult} {child : ChildRun} {retry : Option ℤ}
    (env : OpEnv wf) (hid : splitForEachStep childID = (base, childID)) (hkey : childID ≠ "")
    (hT : T.result t.run childID res) (hopen : isTerminalRunStatus t.run.status = false)
    (h : takeResult env (wf.step base) res (t.run.childEntry base childID) = some (child, retry)) :
    Move wf T .handling t ((t.put childID child.toStepRun).put base
      (withResult (wf.step base) env.now
        { t.entry base with children := (t.entry base).children.insert childID child }))
  /-- A child is cancelled because another one failed. -/
  | sibling {t : Tick} {base childID : String} {step : Step} {child : ChildRun} (env : OpEnv wf)
    (hstep : wf.step base = some step) (hf : step.forEach ≠ "") (hparent : erring (t.entry base).status)
    (h : (t.entry base).children.lookup childID = some child)
    (hchild : isTerminalStepStatus child.status = false) :
    Move wf T .handling t (t.putBoth base childID
      { child with
        status := .cancelled
        completedAt := some env.now
        error := some (child.error.getD { message := "cancelled: forEach sibling failed" }) })
  | decided {t : Tick} {stepID : String} {sr : StepRun} (approved : Bool) (now : ℤ)
    (hopen : isTerminalRunStatus t.run.status = false) (h : t.run.step stepID = some sr)
    (hs : sr.status = .waiting) :
    Move wf T .handling t (t.put stepID
      { sr with status := if approved then .succeeded else .failed, completedAt := some now })
  /-- The run is over, by its deadline or by a cancellation. -/
  | ended {phase : Phase} {t : Tick} {status : RunStatus} {change : ChildRun → ChildRun} (now : ℤ)
    (hstatus : status = .timedOut ∨ status = .cancelled) (hchange : Ending change)
    (error : Option String) :
    Move wf T phase t { t with run := { (endRun wf now status (endStepRun change) t.run).1 with error } }
  /-- The reconciler takes a step up again that waits for a job nobody knows. -/
  | recovered {t : Tick} {id : String} {sr : StepRun} (now : ℤ) (hT : T.recovers)
    (h : t.run.step id = some sr) (hs : sr.status = .waiting) :
    Move wf T .handling t (t.put id (recovered now sr))
  | orphaned {t : Tick} (now : ℤ) : Move wf T .handling t { t with run := orphaned now t.run }

/-- Moves, one after the other. -/
abbrev Moves (wf : Workflow) (T : Terms) (phase : Phase) : Tick → Tick → Prop :=
  ReflTransGen (Move wf T phase)

/-! ## Scheduling -/

theorem Sending.opened {t : Tick} {sr sr' : StepRun} {status : RunStatus} {undo : ℤ}
    (h : Sending v t sr status undo sr') (hop : t.run.IsOpen) : isTerminalRunStatus status = false := by
  cases h with
  | approval => rfl
  | job => exact hop

theorem Turn.opened {t t' : Tick} (h : Turn v t t') (hop : t.run.IsOpen) : t'.run.IsOpen := by
  cases h with
  | own | adopted | child | childSent | other => exact hop
  | fanned =>
    refine createChildren_induction (P := fun s => (held v s).run.IsOpen) hop ?_
    exact fun _ _ _ hs _ => hs
  | sent hdue h => exact h.opened hop
  | unsent hdue h hsv ht' =>
    rw [ht']
    exact h.opened hop
  | switched _ _ _ _ _ _ hrun => exact (congrArg isTerminalRunStatus hrun.2.1).trans hop

variable {T : Terms} {phase : Phase} {t t' : Tick} {parents jobIDs : List String} {childID id : String}
  {cancelled : String → Bool} {o save : SaveResult}

theorem moves_turns (hv : Visiting wf v) (hT : T.visit v) (hop : t.run.IsOpen)
    (h : Turns v t t') : Moves wf T .scheduling t t' ∧ t'.run.IsOpen := by
  induction h with
  | refl => exact ⟨.refl, hop⟩
  | tail _ htn ih => exact ⟨ih.1.tail (.turn hv hT ih.2 htn), htn.opened ih.2⟩

theorem listed_iff_of_perm {childrenOf : Step → List String} (h : parents.Perm wf.ids) :
    Listed wf childrenOf parents childID ↔ Listed wf childrenOf wf.ids childID := by
  unfold Listed
  simp only [h.mem_iff]

theorem managed_iff {env : ScheduleEnv wf} : env.managed id ↔ wf.Managed id := by
  rw [ScheduleEnv.managed, or_eq_true, collectParallelChildOwners, collectLoopBodyOwners,
    managedBy_collectOwners,
    managedBy_collectOwners, listed_iff_of_perm env.parallelOwners.2, listed_iff_of_perm env.loopOwners.2]
  rfl

/-- The gates that close in a pass. -/
def ScheduleEnv.GatesMeet (T : Terms) (env : ScheduleEnv wf) (pass : ℕ) : List String → Tick → Prop
  | [], _ => True
  | id :: ids, t =>
    (∀ step, wf.step id = some step → isDue wf t.run id step →
      (env.visit pass id step).Closed → T.gate t.run id) ∧
      env.GatesMeet T pass ids (visitStep env pass t id)

/-- The gates that close in the passes of a call. -/
def ScheduleEnv.PassesMeet (T : Terms) (env : ScheduleEnv wf) : ℕ → ℕ → Tick → Prop
  | 0, _, _ => True
  | n + 1, pass, t =>
    env.GatesMeet T pass (env.main pass).1 t ∧ env.PassesMeet T n (pass + 1) (schedulePass env pass t)

/-- The run as the first pass of a call finds it. -/
def ScheduleEnv.begin (env : ScheduleEnv wf) (t : Tick) : Tick :=
  { run := if t.run.status = .pending
    then { t.run with status := .running, startedAt := some env.now } else t.run
    log := t.log }

/-- A call of `scheduleReady` finds what is asked for. -/
structure ScheduleEnv.Meets (T : Terms) (env : ScheduleEnv wf) (t : Tick) : Prop where
  visits : ∀ pass id step, wf.step id = some step → (env.visit pass id step).Proper ∧
    T.visit (env.visit pass id step)
  gates : env.PassesMeet T (max 1 wf.ids.length) 0 (env.begin t)
  stored : T.stored → env.save = .ok ∧ env.timeoutSave = .ok

section

variable {env : ScheduleEnv wf}
  (henv : ∀ pass id step, wf.step id = some step → (env.visit pass id step).Proper ∧
  T.visit (env.visit pass id step))

include henv

theorem moves_visitStep (pass : ℕ) (stepID : String)
    (hgt : ∀ step, wf.step stepID = some step → isDue wf t.run stepID step →
      (env.visit pass stepID step).Closed → T.gate t.run stepID) (hop : t.run.IsOpen) :
    Moves wf T .scheduling t (visitStep env pass t stepID) ∧ (visitStep env pass t stepID).run.IsOpen := by
  rcases visitStep_turns fun step hsp _ => (henv pass stepID step hsp).1 with
    h | ⟨step, hsp, hman, hisd, hdue, h⟩
  · rw [h]
    exact ⟨.refl, hop⟩
  obtain ⟨hprp, hT⟩ := henv pass stepID step hsp
  have hunm : ¬ wf.Managed stepID := by
    rw [← managed_iff, hman]
    exact false_ne_true
  have hv : Visiting wf (env.visit pass stepID step) := ⟨rfl, hsp, hunm, ⟨env.parallelOwners, rfl⟩, hprp⟩
  rcases h with ⟨hcl, h⟩ | htur
  · rw [h]
    exact ⟨.single (.gated hv (hgt step hsp hisd hcl) hop hcl hdue), hop⟩
  · exact moves_turns hv hT hop htur

theorem moves_visits (pass : ℕ) (order : List String) (hgat : env.GatesMeet T pass order t)
    (hop : t.run.IsOpen) :
    Moves wf T .scheduling t (order.foldl (visitStep env pass) t) ∧
      (order.foldl (visitStep env pass) t).run.IsOpen := by
  induction order generalizing t with
  | nil => exact ⟨.refl, hop⟩
  | cons id order ih =>
    obtain ⟨hvis, hop'⟩ := moves_visitStep henv pass id hgat.1 hop
    obtain ⟨hrs, hop''⟩ := ih hgat.2 hop'
    exact ⟨hvis.trans hrs, hop''⟩

omit henv in
theorem moves_activateHandlers (order : List String) :
    Moves wf T phase t { t with run := activateHandlers wf order t.run } ∧
      (activateHandlers wf order t.run).status = t.run.status := by
  unfold activateHandlers
  induction order generalizing t with
  | nil => exact ⟨.refl, rfl⟩
  | cons id order ih =>
    rw [List.foldl_cons]
    cases hsp : t.run.step id with
    | none => exact ih
    | some sr =>
      dsimp only
      split
      · rename_i hst
        have herr : erring (t.entry id).status := by
          rw [Tick.entry, entry, hsp, Option.getD_some]
          cases hs : sr.status <;> simp_all [erring]
        obtain ⟨hrs, hsm⟩ := ih (t := { t with run := activateOnErrorHandler wf t.run id })
        exact ⟨.head (.activated id herr) hrs, hsm.trans (activateOnErrorHandler_status wf t.run id)⟩
      · exact ih

theorem moves_schedulePass (pass : ℕ) (hgat : env.GatesMeet T pass (env.main pass).1 t)
    (hop : t.run.IsOpen) :
    Moves wf T .scheduling t (schedulePass env pass t) ∧ (schedulePass env pass t).run.IsOpen := by
  obtain ⟨hvis, hop'⟩ := moves_visits henv pass (env.main pass).1 hgat hop
  set t1 := (env.main pass).1.foldl (visitStep env pass) t with ht1
  have hact : Moves wf T .scheduling t1
      { t1 with run := activateHandlers wf (env.activation pass t1.run).1 t1.run } ∧
      (activateHandlers wf (env.activation pass t1.run).1 t1.run).status = t1.run.status :=
      moves_activateHandlers _
  have hst : (schedulePass env pass t).run.status = t1.run.status := hact.2
  exact ⟨hvis.trans hact.1, by rw [WorkflowRun.IsOpen, hst]; exact hop'⟩

theorem moves_schedulePasses (n pass : ℕ) (hgat : env.PassesMeet T n pass t) (hop : t.run.IsOpen) :
    Moves wf T .scheduling t (schedulePasses env n pass t) ∧ (schedulePasses env n pass t).run.IsOpen := by
  induction n generalizing pass t with
  | zero => exact ⟨.refl, hop⟩
  | succ n ih =>
    obtain ⟨hps, hop'⟩ := moves_schedulePass henv pass hgat.1 hop
    unfold schedulePasses
    dsimp only
    split
    · exact ⟨hps, hop'⟩
    · obtain ⟨hrs, hop''⟩ := ih (pass + 1) hgat.2 hop'
      exact ⟨hps.trans hrs, hop''⟩

end

theorem moves_save (h : Moves wf T phase t t') (o : SaveResult) : Moves wf T phase t (t'.save o).1 := by
  cases o with
  | ok => exact h.tail .saved
  | lost => exact h
  | late => exact h.tail .saved

theorem moves_cancelJobs (h : Moves wf T phase t t') :
    Moves wf T phase t (t'.cancelJobs cancelled jobIDs) := by
  have hall : ∀ (ids : List String) t', Moves wf T phase t t' →
      Moves wf T phase t { t' with log := t'.log ++ ids.map .cancelJob } := by
    intro ids
    induction ids with
    | nil => intro t' h; simpa using h
    | cons id ids ih =>
      intro t' h
      have hrs := ih (t'.emit (.cancelJob id)) (h.tail (.other rfl))
      simpa [Tick.emit] using hrs
  exact hall _ _ h

/-- The log ends with the run. -/
def Stored (run : WorkflowRun) (t : Tick) : Prop := persisted run t.log = t.run

theorem stored_save (run : WorkflowRun) (h : (t.save o).2) : Stored run (t.save o).1 := by
  cases o with
  | ok =>
    unfold Stored Tick.save Tick.emit
    rw [persisted_append]
    rfl
  | lost | late => cases h

theorem stored_cancelJobs (h : Stored run t) : Stored run (t.cancelJobs cancelled jobIDs) := by
  have hq : ∀ (ids : List String) r, persisted r (ids.map .cancelJob) = r := by
    intro ids
    induction ids with
    | nil => intro r; rfl
    | cons id ids ih => intro r; exact ih r
  unfold Stored Tick.cancelJobs
  rw [persisted_append, hq]
  exact h

theorem moves_timeoutRun {now : ℤ} : Moves wf T phase t (timeoutRun wf now save cancelled t) ∧
      ∀ run, save = .ok → Stored run (timeoutRun wf now save cancelled t) := by
  have hend : Move wf T phase t
      { t with run := { (endRun wf now .timedOut (timeoutStepRun now)
        t.run).1 with error := some "workflow run timed out" } } :=
    .ended now (.inl rfl) (by exact fun _ => ⟨.inl rfl, rfl, rfl, rfl⟩) _
  have hsv := moves_save (.single hend) save
  unfold timeoutRun
  dsimp only
  split
  · rename_i hsvd
    exact ⟨moves_cancelJobs hsv, fun run _ => stored_cancelJobs (stored_save run hsvd)⟩
  rename_i huns
  refine ⟨hsv, fun run hok => absurd ?_ huns⟩
  rw [hok]
  rfl

/-- **A call of `scheduleReady` is a sequence of moves.** -/
theorem moves_scheduleReady {env : ScheduleEnv wf} (henv : env.Meets T t) :
    Moves wf T .scheduling t (scheduleReady env t) ∧
      ∀ run, T.stored → (isTerminalRunStatus t.run.status → Stored run t) →
      Stored run (scheduleReady env t) := by
  unfold scheduleReady
  split
  · rename_i htm
    exact ⟨.refl, fun run _ h => h htm⟩
  rename_i htm
  have hop : t.run.IsOpen := eq_false_iff.2 htm
  dsimp only
  set t1 : Tick :=
    if t.run.status = .pending
      then { t with run := { t.run with status := .running, startedAt := some env.now } } else t
    with ht1
  have hbeg : Moves wf T .scheduling t t1 ∧ t1.run.IsOpen ∧
      { t1 with dispatched := [] } = env.begin t := by
    rw [ht1, ScheduleEnv.begin]
    split
    · rename_i hpn
      exact ⟨.single (.begun env.now hpn), rfl, rfl⟩
    · exact ⟨.refl, hop, rfl⟩
  obtain ⟨hbg, hopen1, hfst⟩ := hbeg
  split
  · have htim : Moves wf T .scheduling t1 (timeoutRun wf env.now env.timeoutSave env.cancelled t1) ∧ _ :=
      moves_timeoutRun
    obtain ⟨hmvs, hsto⟩ := htim
    exact ⟨hbg.trans hmvs, fun run h _ => hsto run (henv.stored h).2⟩
  · rw [hfst]
    have hrea : Moves wf T .scheduling t (env.begin t) := by
      rw [← hfst]
      exact hbg.tail (.ticked [])
    have hopen2 : (env.begin t).run.IsOpen := by
      rw [← hfst]
      exact hopen1
    obtain ⟨hpas, hop'⟩ := moves_schedulePasses henv.visits _ 0 henv.gates hopen2
    refine ⟨moves_save ((hrea.trans hpas).tail (.counted env.status env.now hop')) env.save,
      fun run h _ => ?_⟩
    refine stored_save run ?_
    rw [(henv.stored h).1]
    rfl

/-! ### Stuck steps -/

theorem waiting_of_stuck {env : ReconcileEnv} (h : id ∈ stuckSteps env run) :
    ∃ sr, run.step id = some sr ∧ sr.status = .waiting := by
  have hstu := (List.mem_filter.1 h).2
  split at hstu
  · cases hstu
  rename_i sr hsr
  refine ⟨sr, hsr, ?_⟩
  unfold stuck at hstu
  rw [and_eq_true, and_eq_true, and_eq_true] at hstu
  exact of_decide_eq_true hstu.1.1.1

theorem nodup_stuckSteps (env : ReconcileEnv) (run : WorkflowRun) : (stuckSteps env run).Nodup :=
  ((env.waitingOrder run).2.nodup_iff.2 run.steps.keys_nodup).filter _

/-- The entries after the recovery of the stuck steps. -/
theorem step_recovered_stuck (env : ReconcileEnv) (run : WorkflowRun) (id : String) :
    ((stuckSteps env run).foldl (fun run id => match run.step id with
      | none => run
      | some sr => run.setStep id (recovered env.now sr)) run).step id =
      if id ∈ stuckSteps env run then (run.step id).map (recovered env.now) else run.step id := by
  refine Loop.foldl_at (v := fun run : WorkflowRun => run.step id) (fun run => ?_) (fun run a hid => ?_)
    (.inl (nodup_stuckSteps env run)) run
  · cases hsr : run.step id with
    | none => exact hsr
    | some sr => exact step_setStep _ _ _
  · cases run.step a with
    | none => rfl
    | some sr => exact step_setStep_ne _ _ hid

end Cordum.Flow
