import Cordum.Workflow.Schedule

/-!
# What a visit can do

The handlers of the step types, told as sequences of turns: each turn writes the visited step, or one
of its children with it, and says what it found. What holds along a run is then shown turn by turn.
-/

namespace Cordum.Flow

open GoString Relation WorkflowRun AList Tick List Step

variable {ids branches active : List String} {s : StepRun × Tick}
  {id id' target stepID message a b own : String} {cfg : SwitchConfig} {wf : Workflow}

/-! ## Entries -/

variable (now : ℤ) (run : WorkflowRun)

/-- The entry of a step, the zero value when it has none. -/
def WorkflowRun.entry (id : String) : StepRun := (run.step id).getD {}

@[simp] theorem WorkflowRun.entry_setStep (id : String) (sr : StepRun) :
    (run.setStep id sr).entry id = sr := by
  rw [entry, step_setStep]
  rfl

theorem WorkflowRun.entry_setStep_ne (sr : StepRun) (h : id' ≠ id) :
    (run.setStep id sr).entry id' = run.entry id' := by
  rw [entry, step_setStep_ne _ _ h]
  rfl

/-- The entry of a step in the run at hand. -/
abbrev Tick.entry (t : Tick) (id : String) : StepRun := t.run.entry id

@[simp] theorem Tick.entry_put (t : Tick) (id : String) (sr : StepRun) : (t.put id sr).run.entry id = sr :=
  WorkflowRun.entry_setStep _ _ _

theorem Tick.put_put (t : Tick) (id : String) (sr sr' : StepRun) :
    (t.put id sr).put id sr' = t.put id sr' := by
  simp only [put, setStep, insert_insert]

theorem insert_insert_insert {V : Type} {m : GoMap V} {x y z : V} :
    ((m.insert a x).insert b y).insert a z = (m.insert b y).insert a z := by
  by_cases hab : a = b
  · subst hab
    simp only [insert_insert]
  · apply ext
    have hba : b ≠ a := Ne.symm hab
    simp [hab, hba, kerase_comm a b]

theorem Tick.put_put_put (t : Tick) (own id : String) (sr child sr' : StepRun) :
    ((t.put own sr).put id child).put own sr' = (t.put id child).put own sr' := by
  simp only [put, setStep, insert_insert_insert]

/-- A child's entry in the run, and the same in its parent's. -/
def Tick.putBoth (t : Tick) (own id : String) (child : ChildRun) : Tick :=
  (t.put id child.toStepRun).put own
    { t.entry own with children := (t.entry own).children.insert id child }

/-- The run with another status. -/
def Tick.withStatus (t : Tick) (status : RunStatus) : Tick := { t with run := { t.run with status } }

/-- An effect that neither saves the run nor publishes a job. -/
def Effect.quiet : Effect → Bool
  | .save _ | .submit _ => false
  | .cancelJob _ | .timer _ | .alert _ | .createChild _ _ | .startChild _ _ => true

/-! ## Turns -/

/-- A step that has a child for each of its items. -/
def Step.fansOut (step : Step) : Bool :=
  match step.type with
  | .worker | .generic _ | .storage => step.forEach ≠ ""
  | _ => false

/-- The step has no children. -/
abbrev Step.Lone (step : Step) : Prop := step.type ≠ .loop ∧ step.fansOut = false

/-- A step with a job of its own. -/
def Step.isJob (step : Step) : Bool :=
  match step.type with
  | .worker | .generic _ => step.forEach = ""
  | _ => false

/-- The step is one that is looked at. An error handler has been activated. -/
structure Due (v : Visit) (sr : StepRun) : Prop where
  status : revisited v.step sr.status
  handler : isOnErrorTarget v.wf v.stepID → sr.status ≠ .unset ∧ sr.errorInput = .value

/-- A step that its handler ends. -/
structure Ended (v : Visit) (sr sr' : StepRun) : Prop where
  terminal : isTerminalStepStatus sr'.status
  jobID : sr'.jobID = sr.jobID
  hash : sr'.auditHash = sr.auditHash
  attempts : sr'.attempts = sr.attempts
  children : sr'.children = sr.children
  items : sr'.resolvedItems = sr.resolvedItems
  input : sr'.errorInput = sr.errorInput ∨ v.step.isJob ∨ v.step.type = .approval
  error : sr'.status ≠ .succeeded → sr'.error.isSome
  /-- Only the denial of a child run denies a step. -/
  denied : sr'.status = .denied → v.step.type = .subWorkflow ∧ ∃ info,
    v.env.childRun = .ok info ∧ info.status = .denied
  succeeded : sr'.status = .succeeded → v.step.type ≠ .loop ∧ v.step.fansOut = false

/-- What a handler makes of its own step, jobs apart. -/
inductive OwnTurn (v : Visit) (sr : StepRun) : StepRun → Prop
  | kept : OwnTurn v sr sr
  | ended {sr' : StepRun} (h : Ended v sr sr') : OwnTurn v sr sr'
  | delayed {d : ℤ} (ht : v.step.type = .delay) (hs : fresh sr.status) (hd : 0 < d) :
    OwnTurn v sr { begun v.now sr with nextAttemptAt := some (v.now + d) }
  /-- A child run was started, or goes on. -/
  | childRun {startedAt completedAt : Option ℤ} {error : Option StepError} {jobID : String}
    (ht : v.step.type = .subWorkflow)
    (hjob : trimSpace sr.jobID ≠ "" ∧ jobID = sr.jobID ∨ trimSpace sr.jobID = "" ∧
      jobID = v.env.childRunID) :
    OwnTurn v sr { sr with status := .running, startedAt, completedAt, error, jobID }
  /-- A parent starts, or goes on. -/
  | begun {startedAt : Option ℤ} (ht : v.step.type = .loop ∨ v.step.type = .parallel) :
    OwnTurn v sr { sr with status := .running, startedAt }
  | noItems (hf : v.step.fansOut) (hn : resolveItems v sr = .ok 0) :
    OwnTurn v sr { sr with
      status := .succeeded, completedAt := some v.now, startedAt := some v.now, resolvedItems := some 0 }
  /-- No iteration failed, and none goes on. -/
  | loopDone (ht : v.step.type = .loop)
    (hfailed : childrenIn sr (fun s => s = .failed || s = .cancelled || s = .timedOut) = [])
    (hactive : childrenIn sr (fun s => s = .running || s = .waiting || s = .pending) = []) :
    OwnTurn v sr { completed v.now sr with error := none }
  | dropped (ht : v.step.type = .parallel) (active : List String) : OwnTurn v sr (keepChildren active sr)

/-- The entry of a step whose job is to be published, the run's status, and the attempts otherwise. -/
inductive Sending (v : Visit) (t : Tick) (sr : StepRun) : RunStatus → ℤ → StepRun → Prop
  | approval {input : ErrorInput} (ht : v.step.type = .approval) (hs : fresh sr.status)
    (hp : v.env.dispatch.payload = .ok input) :
    Sending v t sr .waiting 0
      { sr with
        status := .waiting
        startedAt := some v.now
        jobID := jobIDFor t.run v.stepID 1
        attempts := 1
        errorInput := mergeInput input sr.errorInput }
  | job {input : ErrorInput} (ht : v.step.isJob) (hnext : inFuture v.now sr.nextAttemptAt = false)
    (hp : v.env.dispatch.payload = .ok input) :
    Sending v t sr t.run.status sr.attempts
      { sr with
        status := .running
        startedAt := some v.now
        attempts := sr.attempts + 1
        jobID := jobIDFor t.run v.stepID (sr.attempts + 1)
        errorInput := mergeInput input sr.errorInput }

/-- The children of a parallel step that run. -/
def runningIn (ids : List String) : ℕ :=
  ids.countP fun id => (run.entry id).status = .running || (run.entry id).status = .waiting

/-- A child that its parent dispatches, as it was. -/
inductive Source (v : Visit) (t : Tick) (id : String) : ChildRun → Prop
  | iteration {cfg : LoopConfig} (ht : v.step.type = .loop) (hcfg : v.step.loopConfig = .ok cfg)
    (hid : id = childIDFor v.stepID (t.entry v.stepID).children.entries.length)
    (hmax : (t.entry v.stepID).children.entries.length < cfg.maxIterations)
    (hfailed : childrenIn (t.entry v.stepID)
      (fun s => s = .failed || s = .cancelled || s = .timedOut) = [])
    (hactive : childrenIn (t.entry v.stepID)
      (fun s => s = .running || s = .waiting || s = .pending) = []) :
    Source v t id (((t.entry v.stepID).children.lookup id).getD { status := .pending })
  | item {idx n : ℕ} (hf : v.step.fansOut) (hid : id = childIDFor v.stepID idx)
    (hn : (t.entry v.stepID).resolvedItems = some n) (hidx : idx < n)
    (hfresh : fresh (((t.entry v.stepID).children.lookup id).getD { status := .pending }).status)
    (hlimit : 0 < v.step.maxParallel →
      ((childrenIn (t.entry v.stepID) (· = .running)).length : ℤ) < v.step.maxParallel) :
    Source v t id (((t.entry v.stepID).children.lookup id).getD { status := .pending })
  | branch {cfg : ParallelConfig} (ht : v.step.type = .parallel) (hcfg : v.env.parallel = .ok cfg)
    (hid : id ∈ cfg.childStepIDs) (hdef : (v.wf.step id).isSome)
    (howner : ∀ owner, v.parallelOwners.lookup id = some owner → owner = v.stepID)
    (hfresh : fresh ((t.run.step id).getD { status := .pending }).status)
    (hlimit : 0 < v.step.maxParallel → (runningIn t.run cfg.childStepIDs : ℤ) < v.step.maxParallel) :
    Source v t id ((t.run.step id).getD { status := .pending }).toChildRun

/-- The payload and the context of a request can be made. -/
def DispatchEnv.Built (env : DispatchEnv) : Prop := env.payload.isOk ∧ env.contextPtr.isOk

/-- What a parent makes of a child without a job going out. -/
inductive ChildTurn (v : Visit) (t : Tick) (id : String) : ChildRun → Prop
  | awaited {child : ChildRun} (ht : v.step.type = .loop)
      (h : Source v t id child) : ChildTurn v t id child
  | failed {child child' : ChildRun} (h : Source v t id child) (hstatus : child'.status = .failed)
    (hjob : child'.jobID = child.jobID) (hhash : child'.auditHash = child.auditHash)
    (hattempts : child'.attempts = child.attempts) (hbuild : v.step.fansOut → ¬ (v.env.child id).Built) :
    ChildTurn v t id child'
  /-- The job did not go out. -/
  | unsent {child : ChildRun} {input : ErrorInput} (hf : v.step.fansOut) (h : Source v t id child) :
    ChildTurn v t id { child with status := .pending, jobID := "", startedAt := none, errorInput := input }
  /-- The outcome of a parallel step is known. -/
  | cancelled {cfg : ParallelConfig} {child child' : ChildRun} (ht : v.step.type = .parallel)
    (hcfg : v.env.parallel = .ok cfg) (hid : id ∈ cfg.childStepIDs) (hdef : (v.wf.step id).isSome)
    (hchild : (t.run.step id).map (·.toChildRun) = some child)
    (hopen : isTerminalStepStatus child.status = false) (hstatus : child'.status = .cancelled)
    (hjob : child'.jobID = child.jobID) (hhash : child'.auditHash = child.auditHash)
    (hattempts : child'.attempts = child.attempts) : ChildTurn v t id child'

/-- What a switch makes of the entry of another step. -/
inductive Switched (now : ℤ) (o : Option StepRun) : Option StepRun → Prop
  | same : Switched now o o
  | notTaken (hopen : isTerminalStepStatus (o.getD {}).status = false) : Switched now o
      (some (notTaken now (o.getD {})))
  | taken : Switched now o
      (some (if (o.getD {}).status = .unset then { o.getD {} with status := .pending } else o.getD {}))

/-- The entry a parallel step takes over: pending when there was none. -/
def adoptee (o : Option StepRun) : StepRun :=
  let child := o.getD { status := .pending }
  if child.status = .unset then { child with status := .pending } else child

/-- A child whose job went out. -/
def sentChild (id : String) (input : ErrorInput) (child : ChildRun) : ChildRun :=
  { child with
    status := .running
    startedAt := some now
    attempts := child.attempts + 1
    jobID := jobIDFor run id (child.attempts + 1)
    errorInput := input }

/-- A parent in memory, and the run with it. -/
def held (v : Visit) (s : StepRun × Tick) : Tick := s.2.put v.stepID s.1

/-- A turn of a visit, the gate of its step apart. -/
inductive Turn (v : Visit) : Tick → Tick → Prop
  | own {t : Tick} {sr' : StepRun} (hdue : Due v (t.entry v.stepID))
      (h : OwnTurn v (t.entry v.stepID) sr') :
    Turn v t (t.put v.stepID sr')
  /-- The items of a for-each, with a child for each. -/
  | fanned {t : Tick} {startedAt : Option ℤ} {n : ℕ} (hdue : Due v (t.entry v.stepID))
      (hf : v.step.fansOut) (hn : resolveItems v (t.entry v.stepID) = .ok n) (h0 : n ≠ 0) :
    Turn v t (held v (createChildren v.stepID n
      ({ t.entry v.stepID with status := .running, startedAt, resolvedItems := some n }, t)))
  | sent {t : Tick} {status : RunStatus} {undo : ℤ} {sr' : StepRun} (hdue : Due v (t.entry v.stepID))
    (h : Sending v t (t.entry v.stepID) status undo sr') :
    Turn v t ((((t.withStatus status).put v.stepID sr').emit
      (.save ((t.withStatus status).put v.stepID sr').run)).emit (.submit sr'.jobID))
  | unsent {t t' : Tick} {status : RunStatus} {undo : ℤ} {sr' : StepRun} {saves : List WorkflowRun}
    (hdue : Due v (t.entry v.stepID)) (h : Sending v t (t.entry v.stepID) status undo sr')
    (hsaves : ∀ r ∈ saves, r = ((t.withStatus status).put v.stepID sr').run ∨
      r = ((t.withStatus status).put v.stepID (undispatched undo sr')).run)
    (ht' : t' = { (t.withStatus status).put v.stepID
      (undispatched undo sr') with log := t.log ++ saves.map .save }) :
    Turn v t t'
  | switched {t t' : Tick} {sr' : StepRun} (hdue : Due v (t.entry v.stepID)) (ht : v.step.type = .switch)
    (h : Ended v (t.entry v.stepID) sr') (hown : t'.run.step v.stepID = some sr')
    (hothers : ∀ id, id ≠ v.stepID → Switched v.now (t.run.step id) (t'.run.step id))
    (hdef : ∀ id, id ≠ v.stepID → t'.run.step id ≠ t.run.step id → (v.wf.step id).isSome)
    (hrun : t'.run.id = t.run.id ∧ t'.run.status = t.run.status ∧ t'.run.workflowID = t.run.workflowID)
    (hlog : t'.log = t.log) (hdispatched : t'.dispatched = t.dispatched) : Turn v t t'
  /-- A parallel step takes over the entry of a child. -/
  | adopted {t : Tick} {id : String} {cfg : ParallelConfig} (hdue : Due v (t.entry v.stepID))
    (ht : v.step.type = .parallel) (hcfg : v.env.parallel = .ok cfg) (hid : id ∈ cfg.childStepIDs)
    (hdef : (v.wf.step id).isSome)
    (howner : ∀ owner, v.parallelOwners.lookup id = some owner → owner = v.stepID) :
    Turn v t ((t.put id (adoptee (t.run.step id))).put v.stepID
      { t.entry v.stepID with
        children := (t.entry v.stepID).children.insert id (adoptee (t.run.step id)).toChildRun })
  | child {t : Tick} {id : String} {child : ChildRun} (hdue : Due v (t.entry v.stepID))
      (h : ChildTurn v t id child) :
    Turn v t (t.putBoth v.stepID id child)
  | childSent {t : Tick} {id : String} {child : ChildRun} (input : ErrorInput) {dispatched : List String}
    (hdue : Due v (t.entry v.stepID)) (h : Source v t id child) (hnext : inFuture v.now
      child.nextAttemptAt = false)
    (hdispatched : v.step.type = .loop ∧ dispatched = t.dispatched ∨ dispatched = id :: t.dispatched) :
    Turn v t { (t.putBoth v.stepID id (sentChild v.now t.run id input child)).emit
      (.submit (jobIDFor t.run id (child.attempts + 1))) with dispatched }
  | other {t : Tick} {e : Effect} (he : e.quiet) : Turn v t (t.emit e)

/-- The turns of a visit, one after the other. -/
abbrev Turns (v : Visit) : Tick → Tick → Prop := ReflTransGen (Turn v)

section

variable {v : Visit} {t t' : Tick} {sr sr0 sr' : StepRun} {o : Option StepError}
  {startedAt next : Option ℤ} {p : StepStatus → Bool} {n : ℕ} {delay undo : ℤ} {child : ChildRun}

/-- What a handler that ends its step leaves alone. -/
def StepRun.work (sr : StepRun) : String × String × ℤ × GoMap ChildRun × Option ℕ × ErrorInput :=
  (sr.jobID, sr.auditHash, sr.attempts, sr.children, sr.resolvedItems, sr.errorInput)

theorem ended_failed (h : sr0.work = sr.work) : Ended v sr (failed v.now message sr0) := by
  simp only [StepRun.work, Prod.mk.injEq] at h
  obtain ⟨hjob, hhs, hatt, hchs, hits, hinp⟩ := h
  exact ⟨rfl, hjob, hhs, hatt, hchs, hits, .inl hinp, fun _ => rfl, nofun, nofun⟩

theorem ended_completed (ht : v.step.type ≠ .loop) (hf : v.step.fansOut = false) (h : sr0.work = sr.work) :
    Ended v sr { completed v.now sr0 with error := o, startedAt, nextAttemptAt := next } := by
  simp only [StepRun.work, Prod.mk.injEq] at h
  obtain ⟨hjob, hhs, hatt, hchs, hits, hinp⟩ := h
  exact ⟨rfl, hjob, hhs, hatt, hchs, hits, .inl hinp, absurd rfl, nofun, fun _ => ⟨ht, hf⟩⟩

theorem turns_scheduleAfter (h : Turns v t t') {now : ℤ} : Turns v t (t'.scheduleAfter now delay) := by
  unfold Tick.scheduleAfter
  split
  · exact h
  · exact h.tail (.other rfl)

theorem turns_awaitAttempt (h : Turns v t t') (now : ℤ) (next : Option ℤ) :
    Turns v t (t'.awaitAttempt now next) := by
  cases next with
  | none => exact h
  | some next => exact turns_scheduleAfter h

@[simp] theorem scheduleAfter_run {now : ℤ} : (t.scheduleAfter now delay).run = t.run := by
  unfold Tick.scheduleAfter
  split <;> rfl

@[simp] theorem awaitAttempt_run (t : Tick) (now : ℤ) (next : Option ℤ) :
    (t.awaitAttempt now next).run = t.run := by
  cases next with
  | none => rfl
  | some next => exact scheduleAfter_run

/-! ### Switches -/

/-- A branch that is cancelled stays as it is. -/
theorem step_cancelBranches {run : WorkflowRun} : (cancelBranches now branches run).step id =
      if id ∈ branches ∧ isTerminalStepStatus (run.entry id).status = false
      then some (notTaken now (run.entry id))
      else run.step id := by
  unfold cancelBranches
  induction branches generalizing run with
  | nil => simp
  | cons b branches ih =>
    rw [foldl_cons, ih]
    dsimp only
    by_cases hid : id = b
    · subst hid
      split
      · rename_i hend
        simp [WorkflowRun.entry, hend]
      · rename_i hop
        have hcan : isTerminalStepStatus (notTaken now ((run.step id).getD {})).status := rfl
        simp [WorkflowRun.entry, hop, hcan]
    · split
      · simp [hid]
      · simp [hid, WorkflowRun.entry_setStep_ne _ _ hid, WorkflowRun.step_setStep_ne _ _ hid]

theorem switched_cancelBranches {run : WorkflowRun} :
    Switched now (run.step id) ((cancelBranches now branches run).step id) := by
  rw [step_cancelBranches]
  split
  · rename_i h
    exact .notTaken h.2
  · exact .same

theorem cancelBranches_notMem (h : id ∉ branches) {now : ℤ} {run : WorkflowRun} :
    (cancelBranches now branches run).step id = run.step id := by
  rw [step_cancelBranches, if_neg fun hmem => h hmem.1]

theorem cancelBranches_run {run : WorkflowRun} :
    (cancelBranches now branches run).id = run.id ∧ (cancelBranches now branches run).status = run.status ∧
      (cancelBranches now branches run).workflowID = run.workflowID := by
  refine foldlRecOn (motive := fun r : WorkflowRun =>
    r.id = run.id ∧ r.status = run.status ∧ r.workflowID = run.workflowID) branches _
      ⟨rfl, rfl, rfl⟩ fun r h b _ => ?_
  dsimp only
  split
  · exact h
  · exact h

theorem isSome_of_valid (h : invalidTarget wf cfg = none) : (∀ c ∈ cfg.cases, (wf.step c.2).isSome) ∧
      (cfg.defaultStepID ≠ "" → (wf.step cfg.defaultStepID).isSome) := by
  unfold invalidTarget at h
  split at h
  · cases h
  rename_i hcas
  split at h
  · cases h
  rename_i hdef
  refine ⟨fun c hc => ?_, fun hne => ?_⟩
  · have hno := find?_eq_none.1 hcas c hc
    cases hsp : wf.step c.2 with
    | none => simp [hsp] at hno
    | some step => rfl
  · cases hsp : wf.step cfg.defaultStepID with
    | none => simp [hsp, hne] at hdef
    | some step => rfl

theorem isSome_of_unmatched (h : invalidTarget wf cfg = none) (hid : id ∈ unmatchedTargets cfg target) :
    (wf.step id).isSome := by
  obtain ⟨hcas, hdef⟩ := isSome_of_valid h
  rcases mem_append.1 hid with hid | hid
  · obtain ⟨c, hc, rfl⟩ := mem_map.1 (mem_filter.1 hid).1
    exact hcas c hc
  split at hid
  · rename_i hne
    rw [mem_singleton] at hid
    subst hid
    exact hdef hne.1
  · cases hid

theorem isSome_target (h : invalidTarget wf cfg = none) (hne : trimSpace cfg.target ≠ "") :
    (wf.step cfg.target).isSome := by
  obtain ⟨hcas, hdef⟩ := isSome_of_valid h
  have hdef' : cfg.target = cfg.defaultStepID → (wf.step cfg.target).isSome := by
    intro heq
    rw [heq] at hne ⊢
    refine hdef fun hemp => hne ?_
    rw [hemp]
    decide +kernel
  unfold SwitchConfig.target at hne hdef' ⊢
  split
  · rename_i c hc
    rw [hc] at hdef' hne
    dsimp only at hdef' hne ⊢
    split
    · rename_i hemp
      rw [if_pos hemp] at hdef'
      exact hdef' rfl
    · exact hcas c (mem_of_find?_eq_some hc)
  · rename_i hno
    rw [hno] at hdef'
    exact hdef' rfl

theorem target_notMem_unmatched : target ∉ unmatchedTargets cfg target := by
  simp only [unmatchedTargets, mem_append, mem_filter, decide_eq_true_eq, ne_eq,
    not_true_eq_false, and_false, false_or]
  split
  · rename_i hne
    rw [mem_singleton]
    exact fun h => hne.2 h.symm
  · exact not_mem_nil

/-! ### Loops -/

theorem Due.running (hdue : Due v sr)
    (ht : v.step.type = .loop ∨ v.step.type = .parallel ∨ v.step.fansOut) :
    Due v { sr with status := .running, startedAt } := by
  refine ⟨?_, fun h => ⟨nofun, (hdue.handler h).2⟩⟩
  have hpr : ¬ (v.step.forEach = "" ∧ v.step.type ≠ .parallel ∧ v.step.type ≠ .loop ∧
      v.step.type ≠ .subWorkflow) := by
    rintro ⟨hfor, hpar, hlp, -⟩
    rcases ht with h | h | h
    · exact hlp h
    · exact hpar h
    · unfold fansOut at h
      split at h <;> simp_all
  simp [revisited, hpr]

theorem childrenIn_eq_nil (h : (!(childrenIn sr p).isEmpty) = false) : childrenIn sr p = [] := by
  simpa using h

theorem putBoth_put :
    (t.put own sr).putBoth own id child =
      (t.put id child.toStepRun).put own { sr with children := sr.children.insert id child } := by
  rw [putBoth, Tick.entry, entry_put, put_put_put]

@[simp] theorem held_entry (s : StepRun × Tick) : (held v s).entry v.stepID = s.1 := entry_put _ _ _

theorem held_putChild (id : String) (child : ChildRun) (s : StepRun × Tick) :
    held v (putChild id child s.1 s.2) = (held v s).putBoth v.stepID id child := by
  rw [held, held, putBoth_put]
  rfl

theorem held_awaitAttempt (s : StepRun × Tick) (next : Option ℤ) :
    held v (s.1, s.2.awaitAttempt v.now next) = (held v s).awaitAttempt v.now next := by
  cases next with
  | none => rfl
  | some next =>
    unfold held awaitAttempt scheduleAt Tick.scheduleAfter
    dsimp only
    split <;> rfl

theorem turn_child (hdue : Due v s.1) (h : ChildTurn v (held v s) id child) :
    Turn v (held v s) (held v (putChild id child s.1 s.2)) := by
  rw [held_putChild]
  exact .child (by rwa [held_entry]) h

theorem turn_childSent (input : ErrorInput) {dispatched : List String} (hdue : Due v s.1)
    (h : Source v (held v s) id child) (hnx : ¬ inFuture v.now child.nextAttemptAt)
    (hdis : v.step.type = .loop ∧ dispatched = s.2.dispatched ∨ dispatched = id :: s.2.dispatched) :
    Turn v (held v s) (held v (putChild id (sentChild v.now s.2.run id input child) s.1
      { s.2.emit (.submit (jobIDFor s.2.run id (child.attempts + 1))) with dispatched })) := by
  have htn := Turn.childSent input (by rwa [held_entry]) h (Bool.eq_false_iff.2 hnx) hdis
  rw [← held_putChild] at htn
  exact htn

theorem dispatchChild_cases (h : Source v t id child) (jobID : String) :
    (∃ child', dispatchChild v.now jobID (v.env.child id) child = .unbuilt child' ∧
      child'.status = .failed ∧ ChildTurn v t id child') ∨
    (∃ input e, dispatchChild v.now jobID (v.env.child id) child =
      .unsent { child with errorInput := input } e) ∨
    (∃ input, dispatchChild v.now jobID (v.env.child id) child =
      .sent { child with
        status := .running
        startedAt := some v.now
        attempts := child.attempts + 1
        jobID
        errorInput := input }) := by
  unfold dispatchChild
  split
  · rename_i e he
    exact .inl ⟨_, rfl, rfl, .failed h rfl rfl rfl rfl fun _ => by
      simp [DispatchEnv.Built, he, Except.toBool]⟩
  split
  · rename_i e he
    exact .inl ⟨_, rfl, rfl, .failed h rfl rfl rfl rfl fun _ => by
      simp [DispatchEnv.Built, he, Except.toBool]⟩
  · split
    · exact .inr (.inl ⟨_, _, rfl⟩)
    · exact .inr (.inr ⟨_, rfl⟩)

theorem childTurn_unsent (h : Source v t id child) (hf : v.step.fansOut = false) (e : String) :
    ChildTurn v t id { child with status := .failed, error := some { message := e } } :=
  .failed h rfl rfl rfl rfl fun hf' => by simp [hf] at hf'

theorem turns_dispatchIteration {cfg : LoopConfig} (ht : v.step.type = .loop) (hdue : Due v sr)
    (hcfg : v.step.loopConfig = .ok cfg) (hmax : sr.children.entries.length < cfg.maxIterations)
    (hfl : childrenIn sr (fun s => s = .failed || s = .cancelled || s = .timedOut) = [])
    (hact : childrenIn sr (fun s => s = .running || s = .waiting || s = .pending) = []) :
    Turns v (t.put v.stepID sr) (dispatchIteration v sr t) := by
  set childID := childIDFor v.stepID sr.children.entries.length
  set child : ChildRun := (sr.children.lookup childID).getD { status := .pending }
  have hsrc : ∀ t : Tick, Source v (held v (sr, t)) childID child := by
    intro t
    have hent : (held v (sr, t)).entry v.stepID = sr := held_entry (sr, t)
    have h : Source v (held v (sr, t)) childID
        ((((held v (sr, t)).entry v.stepID).children.lookup childID).getD { status := .pending }) :=
      .iteration ht hcfg (by rw [hent]) (by rwa [hent]) (by rwa [hent]) (by rwa [hent])
    rwa [hent] at h
  have hf : v.step.fansOut = false := by simp [fansOut, ht]
  unfold dispatchIteration
  dsimp only
  split
  · have hawa : Turns v (held v (sr, t)) (held v (sr, t.awaitAttempt v.now child.nextAttemptAt)) := by
      rw [held_awaitAttempt (sr, t)]
      exact turns_awaitAttempt .refl _ _
    exact hawa.tail (turn_child hdue (.awaited ht (hsrc _)))
  · rename_i hnx
    rcases dispatchChild_cases (hsrc t) (jobIDFor t.run childID (child.attempts + 1)) with
      ⟨child', hd, -, hfa⟩ | ⟨input, e, hd⟩ | ⟨input, hd⟩
    · rw [hd]
      exact .single (turn_child (s := (sr, t)) hdue hfa)
    · rw [hd]
      exact .single (turn_child (s := (sr, t)) hdue (childTurn_unsent (hsrc t) hf e))
    · rw [hd]
      exact .single (turn_childSent (s := (sr, t)) input hdue (hsrc t) hnx (.inl ⟨ht, rfl⟩))

/-! ### For-each steps -/

theorem length_childrenIn :
    (childrenIn sr p).length = sr.children.entries.countP fun e => p e.2.status := by
  rw [childrenIn, ← countP_eq_length_filter, countP_map]
  rfl

theorem countP_kerase {l : List (Sigma fun _ : String => ChildRun)}
    (h : ∀ child ∈ l.dlookup id, p child.status = false) :
    (l.kerase id).countP (fun e => p e.2.status) = l.countP fun e => p e.2.status := by
  by_cases hid : id ∈ l.keys
  · obtain ⟨child, l1, l2, hl1, rfl, hker⟩ := exists_of_kerase hid
    have hlk : (l1 ++ ⟨id, child⟩ :: l2).dlookup id = some child := by
      rw [dlookup_append, dlookup_eq_none.2 hl1]
      simp
    have hch := h child hlk
    rw [hker]
    simp [hch]
  · rw [kerase_of_notMem_keys hid]

theorem length_childrenIn_insert (p : StepStatus → Bool) (child : ChildRun)
    (h : ∀ old ∈ sr.children.lookup id, p old.status = false) :
    (childrenIn { sr with children := sr.children.insert id child } p).length =
      (childrenIn sr p).length + if p child.status then 1 else 0 := by
  rw [length_childrenIn, length_childrenIn]
  simp only [entries_insert, countP_cons]
  rw [countP_kerase h]

theorem createChildren_induction {P : StepRun × Tick → Prop} (h : P s)
    (hnew : ∀ s idx, idx < n → P s → s.1.children.lookup (childIDFor stepID idx) = none →
      P (putChild (childIDFor stepID idx) { status := .pending } s.1 s.2)) :
    P (createChildren stepID n s) := by
  refine foldlRecOn (range n) _ h fun s hs idx hidx => ?_
  dsimp only
  split
  · exact hs
  · rename_i hno
    exact hnew s idx (mem_range.1 hidx) hs (Option.not_isSome_iff_eq_none.1 hno)

theorem ne_running_of_fresh {status : StepStatus} (h : fresh status) : status ≠ .running := by
  rintro rfl
  cases h

theorem Due.withChild (hdue : Due v sr) (children : GoMap ChildRun) : Due v { sr with children } :=
  ⟨hdue.status, hdue.handler⟩

/-- A parent of items, in the middle of a visit. -/
structure Items (v : Visit) (n : ℕ) (sr : StepRun) : Prop where
  due : Due v sr
  resolved : sr.resolvedItems = some n

theorem turns_dispatchItems (hf : v.step.fansOut) (idxs : List ℕ)
    (hidx : ∀ idx ∈ idxs, idx < n) (running : ℕ)
    (hs : Items v n s.1) (hrng : (childrenIn s.1 (· = .running)).length = running) :
    Turns v (held v s) (held v (dispatchItems v idxs running s)) := by
  induction idxs generalizing running s with
  | nil => exact .refl
  | cons idx idxs ih =>
    have hrs : ∀ i ∈ idxs, i < n := fun i hi => hidx i (mem_cons_of_mem _ hi)
    unfold dispatchItems
    dsimp only
    split
    · exact .refl
    rename_i hlim
    set id := childIDFor v.stepID idx with hid
    set child : ChildRun := (s.1.children.lookup id).getD { status := .pending } with hch
    split
    · exact ih hrs running hs hrng
    rename_i hsk
    have hfr : fresh child.status := by
      rw [not_or] at hsk
      simpa using hsk.1
    have hsrc : Source v (held v s) id child := by
      have hbel : 0 < v.step.maxParallel → running < v.step.maxParallel := by
        intro hpos
        by_contra hle
        exact hlim ⟨hpos, not_lt.1 hle⟩
      have h : Source v (held v s) id
          ((((held v s).entry v.stepID).children.lookup id).getD { status := .pending }) :=
        .item hf hid (by rw [held_entry]; exact hs.resolved) (hidx idx mem_cons_self)
          (by rw [held_entry]; exact hfr) (by rw [held_entry, hrng]; exact hbel)
      rwa [held_entry] at h
    -- the entry that is replaced was not running
    have hold : ∀ old ∈ s.1.children.lookup id, (decide (old.status = StepStatus.running)) = false := by
      intro old hmem
      have heq : child = old := by rw [hch, Option.mem_def.1 hmem, Option.getD_some]
      rw [heq] at hfr
      exact decide_eq_false (ne_running_of_fresh hfr)
    have hsm : ∀ child' : ChildRun, child'.status ≠ .running →
        (childrenIn (putChild id child' s.1 s.2).1 (· = .running)).length = running := by
      intro child' hne
      have h := length_childrenIn_insert (· = .running) child' hold
      simp only [putChild]
      rw [h, hrng]
      simp [hne]
    have hke : ∀ child', Items v n (putChild id child' s.1 s.2).1 :=
      fun child' => ⟨hs.due.withChild _, hs.resolved⟩
    split
    · refine ReflTransGen.trans ?_ (ih hrs running hs hrng)
      rw [held_awaitAttempt]
      exact turns_awaitAttempt .refl _ _
    · rename_i hnx
      rcases dispatchChild_cases hsrc (jobIDFor s.2.run id (child.attempts + 1)) with
        ⟨child', hd, hst, hfl⟩ | ⟨input, e, hd⟩ | ⟨input, hd⟩
      · rw [hd]
        exact .head (turn_child hs.due hfl) (ih hrs running (hke child') (hsm child' (by simp [hst])))
      · rw [hd]
        exact .head (turn_child hs.due (.unsent hf hsrc)) (ih hrs running (hke _) (hsm _ (by simp)))
      · rw [hd]
        refine .head (turn_childSent input hs.due hsrc hnx (.inr rfl)) (ih hrs (running + 1) (hke _) ?_)
        have h := length_childrenIn_insert (· = .running) (sentChild v.now s.2.run id input child) hold
        exact h.trans (by rw [hrng]; rfl)

/-! ### Parallel steps -/

/-- The list of a parallel step has no repetitions, nor the step itself. -/
def Visit.Proper (v : Visit) : Prop :=
  ∀ cfg, v.env.parallel = .ok cfg → v.stepID ∉ cfg.childStepIDs ∧ cfg.childStepIDs.Nodup

theorem held_step (h : id ≠ v.stepID) (s : StepRun × Tick) : (held v s).run.step id = s.2.run.step id :=
  step_setStep_ne _ _ h

/-- A child that was taken over: both entries are the same. -/
structure Adopted (v : Visit) (s : StepRun × Tick) (id : String) : Prop where
  inDef : (v.wf.step id).isSome
  owner : ∀ owner, v.parallelOwners.lookup id = some owner → owner = v.stepID
  entry : ∃ child : StepRun, s.2.run.step id = some child ∧ s.1.children.lookup id = some child.toChildRun

/-- Turns of a parent in memory, which stays due. -/
def Stays (v : Visit) (s s' : StepRun × Tick) : Prop := Turns v (held v s) (held v s') ∧ Due v s'.1

theorem Stays.head {s' s'' : StepRun × Tick} (h : Turns v (held v s) (held v s'))
    (h' : Stays v s' s'') : Stays v s s'' :=
  ⟨h.trans h'.1, h'.2⟩

theorem lookup_keepChildren :
    (keepChildren active sr).children.lookup id = if id ∈ active then sr.children.lookup id else none := by
  refine (Loop.foldl_at (v := fun m : GoMap ChildRun => m.lookup id) (g := fun _ => none)
    (fun m => lookup_erase id m) (fun m b h => lookup_erase_ne h) (.inr fun _ => rfl) sr.children).trans ?_
  by_cases hkey : id ∈ sr.children.keys
  · simp [hkey]
  · have hno : sr.children.lookup id = none := lookup_eq_none.2 (mt mem_keys.2 hkey)
    simp [hno]

/-- A parent's copy of a child is the child's entry. -/
def Copied (s : StepRun × Tick) (id : String) : Prop :=
  s.1.children.lookup id = (s.2.run.step id).map (·.toChildRun)

theorem copied_putChild (h : id' ≠ id) (hrun : t.run = s.2.run) (hs : Copied s id') :
    Copied (putChild id child s.1 t) id' := by
  unfold Copied putChild put
  rw [lookup_insert_ne h, step_setStep_ne _ _ h, hrun]
  exact hs

/-- A count that only one element can add to. -/
theorem countP_le_add {α : Type} {l : List α} {p q : α → Bool} {a : α} (hnd : l.Nodup)
    (h : ∀ b ∈ l, b ≠ a → q b → p b) : l.countP q ≤ l.countP p + if q a then 1 else 0 := by
  induction l with
  | nil => simp
  | cons b l ih =>
    obtain ⟨hnew, hnd'⟩ := nodup_cons.1 hnd
    rw [countP_cons, countP_cons]
    by_cases hb : b = a
    · have hrs : l.countP q ≤ l.countP p :=
        countP_mono_left fun c hc => h c (mem_cons_of_mem _ hc) (ne_of_mem_of_not_mem hc (hb ▸ hnew))
      rw [hb]
      omega
    · have hrs := ih hnd' fun c hc => h c (mem_cons_of_mem _ hc)
      have hhe := h b mem_cons_self hb
      grind

theorem runningIn_setStep_le (hnd : ids.Nodup) (id : String) (sr : StepRun) :
    runningIn (run.setStep id sr) ids ≤ runningIn run ids + if sr.status = .running ||
      sr.status = .waiting then 1 else 0 := by
  have hle : runningIn (run.setStep id sr) ids ≤ runningIn run ids + _ :=
    countP_le_add (a := id) hnd fun b _ hb h => by rwa [entry_setStep_ne _ _ hb] at h
  rwa [entry_setStep] at hle

theorem runningIn_held (hown : v.stepID ∉ ids) (s : StepRun × Tick) :
    runningIn (held v s).run ids = runningIn s.2.run ids := by
  refine countP_congr fun id hid => ?_
  unfold WorkflowRun.entry
  rw [held_step (ne_of_mem_of_not_mem hid hown)]

section

variable {cfg : ParallelConfig} (ht : v.step.type = .parallel) (hcfg : v.env.parallel = .ok cfg)
  (hown : v.stepID ∉ cfg.childStepIDs)

include ht hcfg hown

/-- What taking over a list of children comes to. -/
structure Adoption (v : Visit) (ids : List String) (s : StepRun × Tick)
    (r : (StepRun × Tick) × List String × Option String) : Prop where
  turns : Turns v (held v s) (held v r.1)
  due : Due v r.1.1
  frame : ∀ id, id ∉ ids → r.1.2.run.step id = s.2.run.step id ∧
    r.1.1.children.lookup id = s.1.children.lookup id
  done : r.2.2 = none → r.2.1 = ids ∧ (ids.Nodup → ∀ id ∈ ids, Adopted v r.1 id)

theorem adoption_cons (hid : id ∈ cfg.childStepIDs) (hdue : Due v s.1) (hdef : (v.wf.step id).isSome)
    (howr : ∀ owner, v.parallelOwners.lookup id = some owner → owner = v.stepID)
    {r : (StepRun × Tick) × List String × Option String}
    (h : Adoption v ids (adoptChildren.adopt id s) r) :
    Adoption v (id :: ids) s (r.1, id :: r.2.1, r.2.2) := by
  have htn : Turn v (held v s) (held v (adoptChildren.adopt id s)) := by
    have h := Turn.adopted (by rw [held_entry]; exact hdue) ht hcfg hid hdef howr
    rw [held_step (ne_of_mem_of_not_mem hid hown), held_entry] at h
    unfold held at h ⊢
    rw [put_put_put] at h
    exact h
  refine ⟨.head htn h.turns, h.due, fun id' hid' => ?_, fun hflt => ⟨by rw [(h.done hflt).1], ?_⟩⟩
  · rw [mem_cons, not_or] at hid'
    obtain ⟨h1, h2⟩ := h.frame id' hid'.2
    exact ⟨h1.trans (step_setStep_ne _ _ hid'.1), h2.trans (lookup_insert_ne hid'.1)⟩
  · intro hnd id' hid'
    obtain ⟨hnew, hnd'⟩ := nodup_cons.1 hnd
    rcases mem_cons.1 hid' with rfl | hid'
    · -- the others leave the entry alone
      obtain ⟨h1, h2⟩ := h.frame id' hnew
      refine ⟨hdef, howr, adoptee (s.2.run.step id'), ?_, ?_⟩
      · rw [h1]
        exact step_setStep _ _ _
      · rw [h2]
        exact lookup_insert _
    · exact (h.done hflt).2 hnd' id' hid'

theorem adoption_adoptChildren (ids : List String) (hids : ∀ id ∈ ids, id ∈ cfg.childStepIDs)
    (hdue : Due v s.1) : Adoption v ids s (adoptChildren v ids s) := by
  induction ids generalizing s with
  | nil => exact ⟨.refl, hdue, fun _ _ => ⟨rfl, rfl⟩, fun _ => ⟨rfl, fun _ _ h => by cases h⟩⟩
  | cons id ids ih =>
    have hid := hids id mem_cons_self
    have hrs : Adoption v ids (adoptChildren.adopt id s)
        (adoptChildren v ids (adoptChildren.adopt id s)) :=
      ih (fun id' h => hids id' (mem_cons_of_mem _ h)) (hdue.withChild _)
    have hflt : ∀ e : String, Adoption v (id :: ids) s (s, [id], some e) :=
      fun e => ⟨.refl, hdue, fun _ _ => ⟨rfl, rfl⟩, nofun⟩
    unfold adoptChildren
    dsimp only
    split
    · exact hflt _
    rename_i hdef
    have hdef' : (v.wf.step id).isSome := Option.isSome_iff_ne_none.2 (by simpa using hdef)
    split
    · rename_i owner howr
      split
      · exact hflt _
      rename_i heq
      refine adoption_cons ht hcfg hown hid hdue hdef' (fun owner' h => ?_) hrs
      rw [howr] at h
      cases h
      exact not_not.1 heq
    · rename_i hno
      refine adoption_cons ht hcfg hown hid hdue hdef' (fun owner' h => ?_) hrs
      rw [hno] at h
      cases h

theorem turns_cancelParallelChildren (ids : List String) (hnd : ids.Nodup)
    (hids : ∀ id ∈ ids, id ∈ cfg.childStepIDs ∧ (v.wf.step id).isSome) (hdue : Due v s.1)
    (hs : ∀ id ∈ ids, Copied s id) :
    Stays v s (cancelParallelChildren v ids s) := by
  unfold cancelParallelChildren
  induction ids generalizing s with
  | nil => exact ⟨.refl, hdue⟩
  | cons id ids ih =>
    obtain ⟨hid, hdef⟩ := hids id mem_cons_self
    have hne : id ≠ v.stepID := ne_of_mem_of_not_mem hid hown
    obtain ⟨hnew, hnd'⟩ := nodup_cons.1 hnd
    have hrs := fun id' h => hids id' (mem_cons_of_mem id h)
    have hs' : ∀ id' ∈ ids, Copied s id' := fun id' h => hs id' (mem_cons_of_mem _ h)
    have hsm : s.1.children.lookup id = (s.2.run.step id).map (·.toChildRun) := hs id mem_cons_self
    rw [foldl_cons]
    split
    · exact ih hnd' hrs hdue hs'
    rename_i child hch
    rw [hsm, Option.or_self] at hch
    split
    · exact ih hnd' hrs hdue hs'
    rename_i hop
    set child' : ChildRun :=
      { child with
        status := .cancelled
        completedAt := some v.now
        error := some (child.error.getD { message := "cancelled by parallel strategy" }) }
    have hcan : ∀ t : Tick, t.run = s.2.run →
        Turn v (held v (s.1, t)) (held v (putChild id child' s.1 t)) := by
      intro t hrun
      have hlk : ((held v (s.1, t)).run.step id).map (·.toChildRun) = some child := by
        rw [held_step hne, hrun]
        exact hch
      exact turn_child hdue (.cancelled ht hcfg hid hdef hlk (Bool.eq_false_iff.2 hop) rfl rfl rfl rfl)
    have hcop : ∀ t : Tick, t.run = s.2.run → ∀ id' ∈ ids, Copied (putChild id child' s.1 t) id' := by
      intro t hrun id' hid'
      exact copied_putChild (ne_of_mem_of_not_mem hid' hnew) hrun (hs' id' hid')
    unfold cancelChild
    split
    · have hem : Turn v (held v s) (held v (s.1, s.2.emit (.cancelJob child.jobID))) := .other rfl
      exact .head (.head hem (.single (hcan _ rfl))) (ih hnd' hrs (hdue.withChild _) (hcop _ rfl))
    · exact .head (.single (hcan _ rfl)) (ih hnd' hrs (hdue.withChild _) (hcop _ rfl))

theorem turns_dispatchParallel (hnd : cfg.childStepIDs.Nodup) (ids : List String)
    (hids : ∀ id ∈ ids, id ∈ cfg.childStepIDs ∧
      ∀ owner, v.parallelOwners.lookup id = some owner → owner = v.stepID) (running : ℕ) (hdue : Due v s.1)
    (hrng : runningIn s.2.run cfg.childStepIDs ≤ running) : Stays v s
    (dispatchParallel v ids running s) := by
  induction ids generalizing running s with
  | nil => exact ⟨.refl, hdue⟩
  | cons id ids ih =>
    obtain ⟨hid, howr⟩ := hids id mem_cons_self
    have hne : id ≠ v.stepID := ne_of_mem_of_not_mem hid hown
    have hrs := fun id' h => hids id' (mem_cons_of_mem id h)
    unfold dispatchParallel
    dsimp only
    split
    · exact ⟨.refl, hdue⟩
    rename_i hlim
    set child : ChildRun := ((s.2.run.step id).getD { status := .pending }).toChildRun
    split
    · exact ih hrs running hdue hrng
    rename_i hsk
    rw [not_or, not_or] at hsk
    have hdef : (v.wf.step id).isSome := Option.isSome_iff_ne_none.2 (by simpa using hsk.1)
    have hfr : fresh child.status := by simpa using hsk.2.1
    have hsrc : Source v (held v s) id child := by
      have hbel : 0 < v.step.maxParallel → (runningIn (held v s).run cfg.childStepIDs) <
          v.step.maxParallel := by
        rw [runningIn_held hown]
        intro hpos
        by_contra hle
        refine hlim ⟨hpos, le_trans (not_lt.1 hle) ?_⟩
        exact_mod_cast hrng
      have h : Source v (held v s) id (((held v s).run.step id).getD { status := .pending }).toChildRun :=
        .branch ht hcfg hid hdef howr (by rw [held_step hne]; exact hfr) hbel
      rwa [held_step hne] at h
    -- a child that does not start leaves the others running
    have hsm : ∀ child' : ChildRun, child'.status = .failed →
        runningIn (putChild id child' s.1 s.2).2.run cfg.childStepIDs ≤ running := by
      intro child' hst
      have h := runningIn_setStep_le s.2.run hnd id child'.toStepRun
      have hst' : child'.toStepRun.status = .failed := hst
      rw [hst'] at h
      exact le_trans h hrng
    have hf : v.step.fansOut = false := by simp [fansOut, ht]
    split
    · refine .head ?_ (ih hrs running hdue (by rwa [awaitAttempt_run]))
      rw [held_awaitAttempt]
      exact turns_awaitAttempt .refl _ _
    · rename_i hnx
      rcases dispatchChild_cases hsrc (jobIDFor s.2.run id (child.attempts + 1)) with
        ⟨child', hd, hst, hfl⟩ | ⟨input, e, hd⟩ | ⟨input, hd⟩
      · rw [hd]
        exact .head (.single (turn_child hdue hfl)) (ih hrs running (hdue.withChild _) (hsm child' hst))
      · rw [hd]
        exact .head (.single (turn_child hdue (childTurn_unsent hsrc hf e)))
          (ih hrs running (hdue.withChild _) (hsm _ rfl))
      · rw [hd]
        have hmr := runningIn_setStep_le s.2.run hnd id (sentChild v.now s.2.run id input child).toStepRun
        exact .head (.single (turn_childSent input hdue hsrc hnx (.inr rfl)))
          (ih hrs (running + 1) (hdue.withChild _) (le_trans hmr (Nat.add_le_add_right hrng 1)))

end

/-- The gate of the step is looked at, and does not hold. -/
def Visit.Closed (v : Visit) : Prop :=
  v.step.condition ≠ "" ∧ v.step.type ≠ .condition ∧ v.step.type ≠ .switch ∧ v.env.condition = .ok false

/-- A step whose gate does not hold. -/
def gated (sr : StepRun) : StepRun := { completed now sr with startedAt := some now }

/-! ### Visits -/

theorem turns_to (h : Turns v t (held v s)) (hdue : Due v s.1) (htn : OwnTurn v s.1 sr') :
    Turns v t (s.2.put v.stepID sr') := by
  have h' := Turn.own (t := held v s) (by rwa [held_entry]) (by rwa [held_entry])
  rw [held, put_put] at h'
  exact h.tail h'

section

variable (hsr : t.entry v.stepID = sr) (hdue : Due v sr)

include hsr hdue

theorem turns_own (h : OwnTurn v sr sr') : Turns v t (t.put v.stepID sr') := by
  subst hsr
  exact .single (.own hdue h)

theorem turns_ended (h : Ended v sr sr') : Turns v t (t.put v.stepID sr') := turns_own hsr hdue (.ended h)

theorem turns_failed (h : sr0.work = sr.work) : Turns v t (t.put v.stepID (failed v.now message sr0)) :=
  turns_ended hsr hdue (ended_failed h)

theorem turns_completed (hty : v.step.Lone) (h : sr0.work = sr.work) :
    Turns v t (t.put v.stepID { completed v.now sr0 with error := o, startedAt, nextAttemptAt := next }) :=
  turns_ended hsr hdue (ended_completed hty.1 hty.2 h)

/-- The steps that are done where they stand. -/
theorem turns_visitLone (hty : v.step.Lone) :
    Turns v t (visitCondition v sr t) ∧ Turns v t (visitTransform v sr t) ∧
      Turns v t (visitStorage v sr t) := by
  unfold visitCondition visitTransform visitStorage
  refine ⟨?_, ?_, ?_⟩
  all_goals
    repeat' split
    all_goals first
      | exact turns_failed hsr hdue rfl
      | exact turns_completed hsr hdue hty rfl
      | exact turns_own hsr hdue .kept

theorem turns_visitNotify (ht : v.step.type = .notify) : Turns v t (visitNotify v sr t) := by
  have hty : v.step.Lone := by simp [Step.Lone, fansOut, ht]
  unfold visitNotify
  repeat' split
  all_goals first
    | exact .refl
    | exact turns_failed hsr hdue rfl
    | exact (turns_completed hsr hdue hty rfl).tail (.other rfl)

theorem turns_visitDelay (ht : v.step.type = .delay) : Turns v t (visitDelay v sr t) := by
  have hty : v.step.Lone := by simp [Step.Lone, fansOut, ht]
  have hwt : ∀ next, Turns v t ((t.scheduleAt v.now next).put v.stepID sr) := by
    intro next
    have hent : (t.scheduleAt v.now next).entry v.stepID = sr := by
      rw [Tick.scheduleAt, Tick.entry, scheduleAfter_run]
      exact hsr
    exact (turns_scheduleAfter .refl).trans (turns_own hent hdue .kept)
  unfold visitDelay
  split
  · exact turns_failed hsr hdue rfl
  split
  · rename_i hs
    split
    · exact turns_completed hsr hdue hty rfl
    · rename_i hd
      exact turns_scheduleAfter (turns_own hsr hdue (.delayed ht hs (not_le.1 hd)))
  · split
    · split
      · exact turns_completed hsr hdue hty rfl
      · exact hwt _
    · exact turns_own hsr hdue .kept

theorem turns_saveAndSubmit {status : RunStatus} (h : Sending v t sr status undo sr') :
    Turns v t (saveAndSubmit v undo sr' (t.withStatus status)) := by
  subst hsr
  set t1 := (t.withStatus status).put v.stepID sr' with ht1
  set t2 := (t.withStatus status).put v.stepID (undispatched undo sr')
  have hbk : t1.put v.stepID (undispatched undo sr') = t2 := put_put _ _ _ _
  -- what the engine saves on the way
  have huns : ∀ saves : List WorkflowRun, (∀ r ∈ saves, r = t1.run ∨ r = t2.run) →
      Turns v t { t2 with log := t.log ++ saves.map .save } :=
    fun saves hsv => .single (.unsent hdue h hsv rfl)
  have hput : (t1.emit (.save t1.run)).put v.stepID (undispatched undo sr') =
      { t2 with log := t.log ++ [t1.run].map .save } := by
    rw [← hbk]
    rfl
  unfold saveAndSubmit
  rw [← ht1]
  cases v.env.dispatch.save with
  | ok =>
    cases hpub : v.env.dispatch.publish with
    | none => exact .single (.sent hdue h)
    | some e =>
      have hbt : Turns v t ({ t2 with log := t.log ++ [t1.run].map Effect.save }.emit (.save t2.run)) := by
        have h2 := huns [t1.run, t2.run] (by simp)
        simpa [emit] using h2
      simp only [save, hput]
      cases v.env.dispatch.saveRevert with
      | lost => exact huns [t1.run] (by simp)
      | ok | late => exact hbt
  | lost =>
    have h2 := huns [] (by simp)
    rw [map_nil, append_nil] at h2
    simp only [save, Bool.false_eq_true, hbk]
    exact h2
  | late =>
    simp only [save, Bool.false_eq_true, hput]
    exact huns [t1.run] (by simp)

theorem turns_visitApproval (ht : v.step.type = .approval) : Turns v t (visitApproval v sr t) := by
  unfold visitApproval
  split
  · rename_i hs
    split
    · exact turns_ended hsr hdue ⟨rfl, rfl, rfl, rfl, rfl, rfl, .inr (.inr ht), fun _ => rfl, nofun, nofun⟩
    rename_i input hp
    repeat' split
    all_goals first
      | exact turns_ended hsr hdue
          ⟨rfl, rfl, rfl, rfl, rfl, rfl, .inr (.inr ht), fun _ => rfl, nofun, nofun⟩
      | exact turns_saveAndSubmit hsr hdue (.approval ht hs hp)
  · exact turns_own hsr hdue .kept

theorem turns_visitJob (ht : v.step.isJob) : Turns v t (visitJob v sr t) := by
  unfold visitJob
  split
  · have hent : (t.awaitAttempt v.now sr.nextAttemptAt).entry v.stepID = sr := by
      rw [Tick.entry, awaitAttempt_run]
      exact hsr
    exact (turns_awaitAttempt .refl _ _).trans (turns_own hent hdue .kept)
  · rename_i hnx
    split
    · exact turns_ended hsr hdue ⟨rfl, rfl, rfl, rfl, rfl, rfl, .inr (.inl ht), fun _ => rfl, nofun, nofun⟩
    rename_i input hp
    split
    · exact turns_ended hsr hdue ⟨rfl, rfl, rfl, rfl, rfl, rfl, .inr (.inl ht), fun _ => rfl, nofun, nofun⟩
    · exact turns_saveAndSubmit hsr hdue (.job ht (Bool.eq_false_iff.2 hnx) hp)

theorem turns_visitSubWorkflow (ht : v.step.type = .subWorkflow) :
    Turns v t (visitSubWorkflow v sr t) := by
  have hty : v.step.Lone := by simp [Step.Lone, fansOut, ht]
  unfold visitSubWorkflow
  dsimp only
  split
  · exact turns_failed hsr hdue rfl
  split
  · rename_i hjob
    split
    · exact turns_failed hsr hdue rfl
    split
    · exact turns_failed hsr hdue rfl
    · exact turns_failed hsr hdue rfl
    · exact turns_failed hsr hdue rfl
    · have hcre : ∀ wfID runID, Turns v t (t.emit (.createChild wfID runID)) :=
        fun _ _ => .single (.other rfl)
      split
      · exact (hcre _ _).trans (turns_ended hsr hdue (ended_failed rfl))
      · exact ((hcre _ _).tail (.other rfl)).trans (turns_own hsr hdue (.childRun ht (.inr ⟨hjob, rfl⟩)))
  · rename_i hjob
    split
    · exact turns_failed hsr hdue rfl
    rename_i info hin
    split
    · exact turns_own hsr hdue (.childRun ht (.inl ⟨hjob, rfl⟩))
    · exact turns_own hsr hdue (.childRun ht (.inl ⟨hjob, rfl⟩))
    · exact turns_own hsr hdue (.childRun ht (.inl ⟨hjob, rfl⟩))
    · split
      · exact turns_failed hsr hdue rfl
      · exact turns_failed hsr hdue rfl
      · exact turns_completed hsr hdue hty rfl
    all_goals
      rename_i hst
      refine turns_ended hsr hdue ⟨?_, rfl, rfl, rfl, rfl, rfl, .inl rfl, fun _ => rfl, ?_, ?_⟩
      all_goals simp only [hst]
    all_goals first
      | rfl
      | exact fun _ => ⟨ht, info, hin, hst⟩
      | exact nofun

theorem turn_switched (ht : v.step.type = .switch)
    (hval : invalidTarget v.wf cfg = none) (h : Ended v sr sr') (hown : t'.run.step v.stepID = some sr')
    (hoth : ∀ id, id ≠ v.stepID → t'.run.step id =
      (cancelBranches v.now (unmatchedTargets cfg cfg.target) t.run).step id ∨
        Switched v.now (t.run.step id) (t'.run.step id) ∧ (v.wf.step id).isSome)
    (hrun : t'.run.id = t.run.id ∧ t'.run.status = t.run.status ∧ t'.run.workflowID = t.run.workflowID)
    (hlog : t'.log = t.log) (hdis : t'.dispatched = t.dispatched) : Turn v t t' := by
  subst hsr
  refine .switched hdue ht h hown (fun id hid => ?_) (fun id hid hne => ?_) hrun hlog hdis
  · rcases hoth id hid with hsm | ⟨hswi, -⟩
    · rw [hsm]
      exact switched_cancelBranches _
    · exact hswi
  · rcases hoth id hid with hsm | ⟨-, hdef⟩
    · rw [hsm] at hne
      by_contra hdef
      exact hne (cancelBranches_notMem (fun hmem => hdef (isSome_of_unmatched hval hmem)))
    · exact hdef

theorem turns_visitSwitch (ht : v.step.type = .switch) : Turns v t (visitSwitch v sr t) := by
  have hty : v.step.Lone := by simp [Step.Lone, fansOut, ht]
  unfold visitSwitch
  dsimp only
  set sr1 := if fresh sr.status then begun v.now sr else sr with hsr1
  have hwr : sr1.work = sr.work := by rw [hsr1]; split <;> rfl
  split
  · exact turns_failed hsr hdue hwr
  split
  · exact turns_failed hsr hdue hwr
  rename_i cfg _
  split
  · exact turns_failed hsr hdue hwr
  rename_i hval
  split
  · exact turns_failed hsr hdue hwr
  rename_i htar
  split
  · exact .single (turn_switched hsr hdue ht hval (ended_failed hwr) (step_setStep _ _ _)
      (fun id hid => .inl (step_setStep_ne _ _ hid)) (cancelBranches_run _) rfl rfl)
  set done : StepRun := { completed v.now sr1 with error := none }
  set t1 :=
    ({ t with run := cancelBranches v.now (unmatchedTargets cfg cfg.target) t.run }).put v.stepID done
  have hown : t1.run.step v.stepID = some done := step_setStep _ _ _
  have hoth : ∀ {id}, id ≠ v.stepID →
      t1.run.step id = (cancelBranches v.now (unmatchedTargets cfg cfg.target) t.run).step id :=
    step_setStep_ne _ _
  refine .single (turn_switched hsr hdue ht hval (ended_completed hty.1 hty.2 hwr : Ended v sr done) ?_
    (fun id hid => ?_) (cancelBranches_run _) rfl rfl)
  · -- the switch may name itself: it has ended by then
    by_cases heq : v.stepID = cfg.target
    · simp only [put]
      rw [← heq, step_setStep, hown]
      rfl
    · simp only [put]
      rw [step_setStep_ne _ _ heq, hown]
  · simp only [put]
    by_cases heq : id = cfg.target
    · subst heq
      rw [step_setStep, hoth hid, cancelBranches_notMem target_notMem_unmatched]
      exact .inr ⟨.taken, isSome_target hval htar⟩
    · rw [step_setStep_ne _ _ heq]
      exact .inl (hoth hid)

theorem turns_begin (ht : v.step.type = .loop ∨ v.step.type = .parallel) :
    Turns v t (t.put v.stepID
      (if fresh sr.status then { started v.now sr with status := .running } else sr)) ∧
      Due v (if fresh sr.status then { started v.now sr with status := .running } else sr) := by
  split
  · refine ⟨turns_own hsr hdue (.begun ht), hdue.running ?_⟩
    exact ht.imp_right Or.inl
  · exact ⟨turns_own hsr hdue .kept, hdue⟩

theorem turns_visitLoop (ht : v.step.type = .loop) : Turns v t (visitLoop v sr t) := by
  unfold visitLoop
  split
  · exact turns_failed hsr hdue rfl
  rename_i cfg hcfg
  split
  · exact turns_failed hsr hdue rfl
  obtain ⟨hsrt, hdue1⟩ := turns_begin hsr hdue (.inl ht)
  set sr1 : StepRun := if fresh sr.status then { started v.now sr with status := .running } else sr
  have hto : ∀ sr', OwnTurn v sr1 sr' → Turns v t (t.put v.stepID sr') :=
    fun _ => turns_to (s := (sr1, t)) hsrt hdue1
  dsimp only
  split
  · exact hto _ (.ended ⟨rfl, rfl, rfl, rfl, rfl, rfl, .inl rfl, fun _ => rfl, nofun, nofun⟩)
  rename_i hfl
  split
  · exact hsrt
  rename_i hact
  have hfl' := childrenIn_eq_nil (Bool.eq_false_iff.2 hfl)
  have hact' := childrenIn_eq_nil (Bool.eq_false_iff.2 hact)
  have hdn := hto _ (.loopDone ht hfl' hact')
  split
  · split
    · exact hto _ (.ended (ended_failed rfl))
    · exact hdn
  rename_i hmax
  split
  · exact hto _ (.ended (ended_failed rfl))
  split
  · exact hto _ (.ended (ended_failed rfl))
  · split
    · exact hsrt.trans (turns_dispatchIteration ht hdue1 hcfg (not_le.1 hmax) hfl' hact')
    · exact hdn

theorem turns_visitForEach (hf : v.step.fansOut) : Turns v t (visitForEach v sr t) := by
  unfold visitForEach
  split
  · exact turns_failed hsr hdue rfl
  rename_i n hn
  split
  · rename_i h0
    subst h0
    exact turns_own hsr hdue (.noItems hf hn)
  rename_i h0
  subst hsr
  set sr := t.entry v.stepID with hsr
  set sr2 : StepRun :=
    { sr with status := .running, startedAt := some (sr.startedAt.getD v.now), resolvedItems := some n }
  have hfan : Turn v t (held v (createChildren v.stepID n (sr2, t))) := .fanned hdue hf hn h0
  have hdue2 : Due v { sr with status := .running, startedAt := some (sr.startedAt.getD v.now) } :=
    hdue.running (.inr (.inr hf))
  have hits : Items v n sr2 := ⟨⟨hdue2.status, hdue2.handler⟩, rfl⟩
  have hits' : Items v n (createChildren v.stepID n (sr2, t)).1 :=
    createChildren_induction (P := fun s => Items v n s.1) hits
      fun s _ _ hs _ => ⟨hs.due.withChild _, hs.resolved⟩
  -- the parent is set running after its children are created
  let run (s : StepRun × Tick) : StepRun × Tick := ({ started v.now s.1 with status := .running }, s.2)
  have hrun (s : StepRun × Tick) : createChildren v.stepID n (run s) =
      run (createChildren v.stepID n s) := by
    refine foldl_hom run fun s idx => ?_
    dsimp only [run, started]
    split
    · rfl
    · rfl
  have hcm : createChildren v.stepID n (sr2, t) =
      run (createChildren v.stepID n ({ sr with resolvedItems := some n }, t)) :=
    hrun ({ sr with resolvedItems := some n }, t)
  rw [hcm] at hfan hits'
  exact .head hfan (turns_dispatchItems hf (range n) (fun idx h => mem_range.1 h) _ hits' rfl)

theorem turns_visitParallel (hprp : v.Proper) (ht : v.step.type = .parallel) :
    Turns v t (visitParallel v sr t) := by
  have hty : v.step.Lone := by simp [Step.Lone, fansOut, ht]
  unfold visitParallel
  split
  · exact turns_failed hsr hdue rfl
  rename_i cfg hcfg
  obtain ⟨hown, hnd⟩ := hprp cfg hcfg
  split
  · exact turns_completed hsr hdue hty rfl
  obtain ⟨hsrt, hdue1⟩ := turns_begin hsr hdue (.inr ht)
  set sr1 : StepRun := if fresh sr.status then { started v.now sr with status := .running } else sr
  have hado := adoption_adoptChildren (s := (sr1, t)) ht hcfg hown cfg.childStepIDs (fun _ h => h) hdue1
  dsimp only
  set r := adoptChildren v cfg.childStepIDs (sr1, t)
  set sr2 := keepChildren r.2.1 r.1.1
  have hdue2 : Due v sr2 := hado.due.withChild _
  -- the children that are not listed are dropped
  have hhd : Turns v t (held v (sr2, r.1.2)) :=
    turns_to (s := r.1) (hsrt.trans hado.turns) hado.due (.dropped ht r.2.1)
  split
  · exact turns_to (s := (sr2, r.1.2)) hhd hdue2 (.ended (ended_failed rfl))
  rename_i hflt
  obtain ⟨hact, hadp⟩ := hado.done hflt
  -- the copies are the children's entries
  have hcp : ∀ id ∈ cfg.childStepIDs, ∃ child : StepRun, r.1.2.run.step id = some child ∧
      sr2.children.lookup id = some child.toChildRun := by
    intro id hid
    obtain ⟨child, hsp, hlk⟩ := (hadp hnd id hid).entry
    refine ⟨child, hsp, ?_⟩
    rw [lookup_keepChildren, if_pos (by rw [hact]; exact hid)]
    exact hlk
  split
  · have hcop : ∀ id ∈ cfg.childStepIDs, Copied (sr2, r.1.2) id := by
      intro id hid
      obtain ⟨child, hsp, hlk⟩ := hcp id hid
      unfold Copied
      rw [hsp, hlk]
      rfl
    obtain ⟨hcan, hdue3⟩ := turns_cancelParallelChildren ht hcfg hown cfg.childStepIDs hnd
      (fun id hid => ⟨hid, (hadp hnd id hid).inDef⟩) hdue2 hcop
    have hheld3 := hhd.trans hcan
    split
    · exact turns_to hheld3 hdue3 (.ended (ended_failed rfl))
    · exact turns_to hheld3 hdue3 (.ended (ended_failed rfl))
    · exact turns_to hheld3 hdue3 (.ended (ended_completed hty.1 hty.2 rfl))
  · have hcnt : runningIn r.1.2.run cfg.childStepIDs ≤
        (summarizeParallelChildren sr2 cfg.childStepIDs).2.2 := by
      refine le_of_eq (countP_congr fun id hid => ?_)
      obtain ⟨child, hsp, hlk⟩ := hcp id hid
      rw [hlk, WorkflowRun.entry, hsp, Option.getD_some]
    obtain ⟨hdis, hdue3⟩ := turns_dispatchParallel (s := (sr2, r.1.2)) ht hcfg hown hnd cfg.childStepIDs
      (fun id hid => ⟨hid, (hadp hnd id hid).owner⟩) _ hdue2 hcnt
    exact turns_to (hhd.trans hdis) hdue3 (.begun (.inr ht))

theorem turns_handleStep (hprp : v.step.type = .parallel → v.Proper) : Turns v t (handleStep v sr t) := by
  unfold handleStep
  split
  · exact (turns_visitLone hsr hdue (by simp [Step.Lone, fansOut, *])).1
  · exact turns_visitApproval hsr hdue ‹_›
  · exact turns_visitDelay hsr hdue ‹_›
  · exact turns_visitNotify hsr hdue ‹_›
  · exact (turns_visitLone hsr hdue (by simp [Step.Lone, fansOut, *])).2.1
  · exact turns_visitSwitch hsr hdue ‹_›
  · exact turns_visitSubWorkflow hsr hdue ‹_›
  · exact turns_visitParallel hsr hdue (hprp ‹_›) ‹_›
  · exact turns_visitLoop hsr hdue ‹_›
  · rename_i ht
    split
    · rename_i hf
      exact turns_visitForEach hsr hdue (by simp [fansOut, ht, hf])
    · rename_i hf
      exact (turns_visitLone hsr hdue (by simp [Step.Lone, fansOut, ht, not_not.1 hf])).2.2
  all_goals
    rename_i ht
    split
    · rename_i hf
      exact turns_visitForEach hsr hdue (by simp [fansOut, ht, hf])
    · rename_i hf
      exact turns_visitJob hsr hdue (by simp [isJob, ht, not_not.1 hf])

theorem turns_dueStep (hprp : v.step.type = .parallel → v.Proper) :
    v.Closed ∧ dueStep v sr t = t.put v.stepID (gated v.now sr) ∨ Turns v t (dueStep v sr t) := by
  unfold dueStep
  split
  · rename_i hcd
    split
    · exact .inr (turns_failed hsr hdue rfl)
    · rename_i hgt
      exact .inl ⟨⟨hcd.1, hcd.2.1, hcd.2.2, hgt⟩, rfl⟩
    · exact .inr (turns_handleStep hsr hdue hprp)
  · exact .inr (turns_handleStep hsr hdue hprp)

end

end

/-- The visit of a step in a pass. -/
def ScheduleEnv.visit {wf : Workflow} (env : ScheduleEnv wf) (pass : ℕ) (stepID : String)
    (step : Step) : Visit where
  wf := wf
  now := env.now
  stepID := stepID
  step := step
  env := env.step pass stepID
  parallelOwners := collectParallelChildOwners wf env.parallelOwners.1
  maxForEachItems := env.maxForEachItems

/-- **A visit is a sequence of turns**, of a step that nobody else dispatches, unless its gate is
closed. -/
theorem visitStep_turns {env : ScheduleEnv wf} {pass : ℕ} {t : Tick}
    (hprp : ∀ step, wf.step stepID = some step → step.type = .parallel →
      (env.visit pass stepID step).Proper) :
    visitStep env pass t stepID = t ∨
      ∃ step, wf.step stepID = some step ∧ env.managed stepID = false ∧ isDue wf t.run stepID step ∧
        Due (env.visit pass stepID step) (t.entry stepID) ∧
        ((env.visit pass stepID step).Closed ∧ visitStep env pass t stepID =
          t.put stepID (gated env.now (t.entry stepID)) ∨
          Turns (env.visit pass stepID step) t (visitStep env pass t stepID)) := by
  unfold visitStep
  split
  · exact .inl rfl
  rename_i hman
  split
  · exact .inl rfl
  rename_i step hsp
  split
  · rename_i hisd
    have hdue : Due (env.visit pass stepID step) (t.entry stepID) := by
      unfold isDue at hisd
      rw [Bool.and_eq_true, Bool.and_eq_true] at hisd
      refine ⟨hisd.1.1, fun hhan => ?_⟩
      have hact := hisd.2
      change isOnErrorTarget wf stepID = true at hhan
      rw [hhan] at hact
      simpa [Tick.entry, WorkflowRun.entry] using hact
    exact .inr ⟨step, hsp, Bool.eq_false_iff.2 hman, hisd, hdue, turns_dueStep rfl hdue (hprp step hsp)⟩
  · exact .inl rfl

end Cordum.Flow
