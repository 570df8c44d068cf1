import Cordum.Workflow.Moves

/-!
# Terminal runs are final

Once a run is stored with a terminal status, no later operation may change its status, its completion
time or the statuses of its steps.

* `terminal_runs_final_iff`: the operations leave a terminal run alone exactly when no start finds
  the workflow of a terminal run gone and no recovery of waiting steps comes after the run has ended.
* `terminal_run_failed`: a run that succeeded, started after its workflow was deleted.
-/

namespace Cordum.Flow

open List Effect WorkflowRun Option

variable {e : Effect} {l l1 l2 saves : List Effect} {s : StepRun × Tick} {t' : Tick}
  {run run' : WorkflowRun} {wf : Workflow} {t₀ t : Tick} {base childID stepID : String} {res : JobResult}

/-! ## Scheduling saves runs that go on -/

/-- From `t₀` to `t` the run stayed open, and so is every version saved. -/
structure Opened (t₀ t : Tick) : Prop where
  stays : isTerminalRunStatus t.run.status = false
  saves : ∃ new, t.log = t₀.log ++ new ∧ ∀ r, Effect.save r ∈ new → isTerminalRunStatus r.status = false

theorem Opened.refl (h : t.run.IsOpen) : Opened t t :=
  ⟨h, [], by simp, by simp⟩

theorem Opened.put (h : Opened t₀ t) (id : String) (sr : StepRun) : Opened t₀ (t.put id sr) :=
  ⟨h.stays, h.saves⟩

theorem Opened.setRun (h : Opened t₀ t) (hrun : run.IsOpen) : Opened t₀ { t with run := run } :=
  ⟨hrun, h.saves⟩

theorem Opened.setDispatched (h : Opened t₀ t) (l : List String) : Opened t₀ { t with dispatched := l } :=
  ⟨h.stays, h.saves⟩

theorem Opened.emit (h : Opened t₀ t) (he : ∀ r, e = .save r → r.IsOpen) : Opened t₀ (t.emit e) := by
  obtain ⟨new, hlog, hnew⟩ := h.saves
  refine ⟨h.stays, new ++ [e], ?_, ?_⟩
  · rw [Tick.emit, hlog, append_assoc]
  · intro r hr
    rcases mem_append.1 hr with hr | hr
    · exact hnew r hr
    · exact he r (mem_singleton.1 hr).symm

/-- The run that was saved. -/
def Effect.saved : Effect → Option WorkflowRun
  | .save run => some run
  | _ => none

theorem Effect.ne_save (he : e.saved = none) (run : WorkflowRun) : e ≠ .save run := by
  rintro rfl
  cases he

theorem Opened.emitOther (h : Opened t₀ t) (he : e.saved = none) : Opened t₀ (t.emit e) :=
  h.emit fun r hr => absurd hr (ne_save he r)

theorem Opened.save (h : Opened t₀ t) (o : SaveResult) : Opened t₀ (t.save o).1 := by
  have hem : Opened t₀ (t.emit (.save t.run)) := h.emit fun r hr => by cases hr; exact h.stays
  cases o with
  | ok => exact hem
  | lost => exact h
  | late => exact hem

theorem Opened.submit (h : Opened t₀ t) (id : String) : Opened t₀ (t.emit (.submit id)) := h.emitOther rfl

theorem Opened.scheduleAfter (h : Opened t₀ t) (now delay : ℤ) :
    Opened t₀ (t.scheduleAfter now delay) := by
  unfold Tick.scheduleAfter
  split
  · exact h
  · exact h.emitOther rfl

theorem Opened.awaitAttempt (h : Opened t₀ t) (now : ℤ) (at? : Option ℤ) :
    Opened t₀ (t.awaitAttempt now at?) := by
  cases at? with
  | none => exact h
  | some next => exact h.scheduleAfter _ _

theorem Opened.putChild (h : Opened t₀ t) (id : String) (child : ChildRun) (sr : StepRun) :
    Opened t₀ (putChild id child sr t).2 := h.put _ _

section

variable (v : Visit) (sr : StepRun)

theorem Opened.adoptChildren (ids : List String) (h : Opened t₀ s.2) :
    Opened t₀ (adoptChildren v ids s).1.2 := by
  induction ids generalizing s with
  | nil => exact h
  | cons id ids ih =>
    have hnx := ih (s := adoptChildren.adopt id s) (h.put _ _)
    unfold adoptChildren
    dsimp only
    repeat' split
    all_goals first | exact h | exact hnx

theorem Opened.cancelParallelChildren (ids : List String) (h : Opened t₀ s.2) :
    Opened t₀ (cancelParallelChildren v ids s).2 := by
  refine foldlRecOn (motive := fun s : StepRun × Tick => Opened t₀ s.2) ids _ h fun s h id _ => ?_
  split
  · exact h
  split
  · exact h
  unfold cancelChild
  split
  · exact (h.emitOther rfl).putChild _ _ _
  · exact h.putChild _ _ _

theorem Opened.dispatchParallel (ids : List String) (running : ℕ) (h : Opened t₀ s.2) :
    Opened t₀ (dispatchParallel v ids running s).2 := by
  induction ids generalizing s running with
  | nil => exact h
  | cons id ids ih =>
    unfold dispatchParallel
    dsimp only
    repeat' split
    all_goals first
      | exact h
      | exact ih _ h
      | exact ih _ (h.awaitAttempt _ _)
      | exact ih _ (h.putChild _ _ _)
      | exact ih _ (((h.submit _).setDispatched _).putChild _ _ _)

theorem Opened.visitParallel (h : Opened t₀ t) : Opened t₀ (visitParallel v sr t) := by
  have hado : ∀ ids sr, Opened t₀ (Flow.adoptChildren v ids (sr, t)).1.2 :=
    fun ids sr => Opened.adoptChildren v ids h
  unfold Flow.visitParallel
  dsimp only
  repeat' split
  all_goals first
    | exact h.put _ _
    | exact (hado _ _).put _ _
    | (refine (Opened.cancelParallelChildren v _ ?_).put _ _; exact hado _ _)
    | (refine (Opened.dispatchParallel v _ _ ?_).put _ _; exact hado _ _)

end

theorem Opened.turn {v : Visit} (h : Opened t₀ t) (ht : Turn v t t') : Opened t₀ t' := by
  cases ht with
  | own => exact h.put _ _
  | fanned => exact createChildren_induction (P := fun s => Opened t₀ (held v s)) (h.put _ _) fun _ _ _ hs
      _ => ⟨hs.stays, hs.saves⟩
  | sent hdue hs => exact (((h.setRun (hs.opened h.stays)).put _ _).save .ok).submit _
  | unsent hdue hs hsv ht' =>
    obtain ⟨new, hlog, hnew⟩ := h.saves
    subst ht'
    refine ⟨hs.opened h.stays, new ++ _, by rw [hlog, append_assoc], fun r hr => ?_⟩
    rcases mem_append.1 hr with hr | hr
    · exact hnew r hr
    obtain ⟨r', hr', heq⟩ := mem_map.1 hr
    cases heq
    rcases hsv r hr' with rfl | rfl
    · exact hs.opened h.stays
    · exact hs.opened h.stays
  | switched _ _ _ _ _ _ hrun hlog =>
    refine ⟨hrun.2.1 ▸ h.stays, ?_⟩
    rw [hlog]
    exact h.saves
  | adopted | child => exact (h.put _ _).put _ _
  | childSent => exact (((h.put _ _).put _ _).submit _).setDispatched _
  | other he => exact h.emit fun r hr => by rw [hr] at he; cases he

theorem Opened.visitStep (h : Opened t₀ t) (env : ScheduleEnv wf) (pass : ℕ) (stepID : String) :
    Opened t₀ (visitStep env pass t stepID) := by
  by_cases hpar : ∃ step, wf.step stepID = some step ∧ step.type = .parallel
  · obtain ⟨step, hsp, hty⟩ := hpar
    have hhd : ∀ v sr, v.step = step → Opened t₀ (handleStep v sr t) := by
      intro v sr hv
      rw [handleStep, hv, hty]
      exact h.visitParallel v sr
    unfold Flow.visitStep dueStep
    rw [hsp]
    dsimp only
    repeat' split
    all_goals first | exact h | exact h.put _ _ | exact hhd _ _ rfl
  · rcases visitStep_turns fun step hsp hty => absurd ⟨step, hsp, hty⟩ hpar with
      hsm | ⟨step, -, -, -, -, ⟨-, hgat⟩ | htur⟩
    · rw [hsm]
      exact h
    · rw [hgat]
      exact h.put _ _
    · generalize Flow.visitStep env pass t stepID = t' at htur ⊢
      induction htur with
      | refl => exact h
      | tail _ htn ih => exact ih.turn htn

theorem activateHandlers_status {order : List String} :
    (activateHandlers wf order run).status = run.status := by
  refine foldlRecOn (motive := fun r : WorkflowRun => r.status = run.status) order _ rfl
    fun r hr id _ => ?_
  rw [← hr]
  repeat' split
  all_goals first | rfl | exact activateOnErrorHandler_status wf r id

theorem Opened.schedulePass (h : Opened t₀ t) (env : ScheduleEnv wf) (pass : ℕ) :
    Opened t₀ (schedulePass env pass t) := by
  have hps := foldlRecOn (env.main pass).1 (Flow.visitStep env pass) h
    fun _ h id _ => h.visitStep env pass id
  exact hps.setRun (by rw [WorkflowRun.IsOpen, activateHandlers_status]; exact hps.stays)

theorem Opened.schedulePasses (env : ScheduleEnv wf) (n pass : ℕ) (h : Opened t₀ t) :
    Opened t₀ (schedulePasses env n pass t) := by
  induction n generalizing pass t with
  | zero => exact h
  | succ n ih =>
    unfold schedulePasses
    dsimp only
    split
    · exact h.schedulePass env pass
    · exact ih _ (h.schedulePass env pass)

/-! ## Versions of a run -/

/-- The status of a child. -/
def WorkflowRun.childStatus (run : WorkflowRun) (id childID : String) : Option StepStatus :=
  (run.step id).bind fun sr => (sr.children.lookup childID).map (·.status)

/-- The same status, completion time and statuses of steps and children. -/
structure Keeps (run run' : WorkflowRun) : Prop where
  status : run'.status = run.status
  completedAt : run'.completedAt = run.completedAt
  steps : ∀ id, run'.stepStatus id = run.stepStatus id
  children : ∀ id childID, run'.childStatus id childID = run.childStatus id childID

theorem Keeps.refl (run : WorkflowRun) : Keeps run run := ⟨rfl, rfl, fun _ => rfl, fun _ _ => rfl⟩

/-- **Terminal versions are final**: a version saved after a terminal one keeps it. -/
def Final : WorkflowRun → List Effect → Prop
  | _, [] => True
  | run, e :: log =>
    (∀ run', e = .save run' → isTerminalRunStatus run.status → Keeps run run') ∧
      Final (persisted run [e]) log

theorem final_append : Final run (l1 ++ l2) ↔ Final run l1 ∧ Final (persisted run l1) l2 := by
  induction l1 generalizing run with
  | nil => exact ⟨fun h => ⟨trivial, h⟩, fun h => h.2⟩
  | cons e l1 ih =>
    change _ ∧ Final _ (l1 ++ l2) ↔ (_ ∧ _) ∧ Final (persisted run ([e] ++ l1)) l2
    rw [ih, persisted_append, and_assoc]

theorem final_save : Final run [.save run'] ↔ (isTerminalRunStatus run.status → Keeps run run') := by
  constructor
  · exact fun h => h.1 run' rfl
  · exact fun h => ⟨fun r hr => by cases hr; exact h, trivial⟩

theorem final_of_open (hl : ∀ r, save r ∈ l → r.IsOpen) (hrun : run.IsOpen) :
    Final run l ∧ (persisted run l).IsOpen := by
  induction l generalizing run with
  | nil => exact ⟨trivial, hrun⟩
  | cons e l ih =>
    have hop : (persisted run [e]).IsOpen := by
      cases e with
      | save r => exact hl r mem_cons_self
      | _ => exact hrun
    obtain ⟨hfin, hsta⟩ := ih (fun r hr => hl r (mem_cons_of_mem _ hr)) hop
    refine ⟨⟨fun run' _ ht => ?_, hfin⟩, hsta⟩
    rw [hrun] at ht
    cases ht

/-- A log that does no harm to a run that goes on. -/
def OpenFinal (l : List Effect) : Prop := ∀ run, isTerminalRunStatus run.status = false → Final run l

theorem openFinal_append (h1 : ∀ r, save r ∈ l1 → r.IsOpen) (h2 : OpenFinal l2) :
    OpenFinal (l1 ++ l2) := by
  intro run hrun
  obtain ⟨hfin, hop⟩ := final_of_open h1 hrun
  exact final_append.2 ⟨hfin, h2 _ hop⟩

/-- A log that saves one version of the run only. -/
theorem openFinal_of_same (run' : WorkflowRun) (h : ∀ r, save r ∈ l → r = run') : OpenFinal l := by
  have hfin : ∀ run, (isTerminalRunStatus run.status → run = run') → Final run l := by
    induction l with
    | nil => exact fun _ _ => trivial
    | cons e l ih =>
      intro run hrun
      refine ⟨?_, ih (fun r hr => h r (mem_cons_of_mem _ hr)) _ ?_⟩
      · rintro r rfl ht
        rw [h r mem_cons_self, hrun ht]
        exact .refl run'
      · cases e with
        | save r => exact fun _ => h r mem_cons_self
        | _ => exact hrun
  intro run hrun
  refine hfin run fun ht => ?_
  rw [hrun] at ht
  cases ht

theorem openFinal_nil : OpenFinal [] := fun _ _ => trivial

theorem openFinal_save (run : WorkflowRun) : OpenFinal [.save run] := openFinal_of_same run (by simp)

/-- Nothing was saved. -/
def NoSave (l : List Effect) : Prop := ∀ r, Effect.save r ∉ l

theorem noSave_of_nil (h : l = []) : NoSave l := by simp [NoSave, h]

theorem save_log (t : Tick) (o : SaveResult) :
    ∃ saves, (t.save o).1.log = t.log ++ saves ∧ ∀ e ∈ saves, e = .save t.run := by
  cases o with
  | ok | late => exact ⟨[.save t.run], rfl, by simp⟩
  | lost => exact ⟨[], (append_nil _).symm, by simp⟩

theorem timeoutRun_log (wf : Workflow) (now : ℤ)
    (save : SaveResult) (cancelled : String → Bool) (t : Tick) :
    ∃ new, (timeoutRun wf now save cancelled t).log = t.log ++ new ∧ OpenFinal new := by
  unfold timeoutRun
  dsimp only
  generalize { (endRun wf now .timedOut (timeoutStepRun now)
    t.run).1 with error := some "workflow run timed out" } = ended
  cases save with
  | ok => exact ⟨_, append_assoc _ _ _, openFinal_of_same ended (by simp)⟩
  | lost => exact ⟨[], (append_nil _).symm, openFinal_nil⟩
  | late => exact ⟨_, rfl, openFinal_save _⟩

/-- **What `scheduleReady` saves**: versions that go on, and a last one. -/
theorem scheduleReady_log (env : ScheduleEnv wf) (t : Tick) :
    ∃ new, (scheduleReady env t).log = t.log ++ new ∧ OpenFinal new := by
  unfold scheduleReady
  split
  · exact ⟨[], (append_nil _).symm, openFinal_nil⟩
  next hop =>
  have hop : t.run.IsOpen := Bool.eq_false_iff.2 hop
  dsimp only
  set t1 := if t.run.status = .pending
      then { t with run := { t.run with status := .running, startedAt := some env.now } }
    else t with ht1
  have hlog1 : t1.log = t.log := by
    rw [ht1]
    split
    · rfl
    · rfl
  have hopen1 : t1.run.IsOpen := by
    rw [ht1]
    split
    · rfl
    · exact hop
  split
  · obtain ⟨new, hlog, hnew⟩ := timeoutRun_log wf env.now env.timeoutSave env.cancelled t1
    exact ⟨new, by rw [hlog, hlog1], hnew⟩
  have hpas := Opened.schedulePasses env (max 1 wf.ids.length) 0 ((Opened.refl hopen1).setDispatched [])
  obtain ⟨new, hlog, hnew⟩ := hpas.saves
  set t2 := schedulePasses env (max 1 wf.ids.length) 0 { t1 with dispatched := [] }
  obtain ⟨saves, hsa, hsv⟩ :=
      save_log { t2 with run := updateRunStatus env.status env.now t2.run } env.save
  refine ⟨new ++ saves, ?_, openFinal_append hnew (openFinal_of_same _ fun r hr => save.inj (hsv _ hr))⟩
  rw [hsa, ← append_assoc, ← hlog1]
  exact congrArg (· ++ saves) hlog

/-! ## The operations -/

theorem noSave_emit (h : NoSave t.log) (he : e.saved = none) : NoSave (t.emit e).log := by
  intro r hr
  rcases mem_append.1 hr with hr | hr
  · exact h r hr
  · exact ne_save he r (mem_singleton.1 hr).symm

theorem noSave_retryTimer (h : NoSave t.log) {now : ℤ} {retry : Option ℤ} :
    NoSave (t.retryTimer now retry).log := by
  cases retry with
  | none => exact h
  | some delay =>
    unfold Tick.retryTimer Tick.scheduleAfter
    dsimp only
    split
    · exact h
    · exact noSave_emit h rfl

theorem noSave_cancelForEachSiblings {env : OpEnv wf} (h : NoSave s.2.log) :
    NoSave (cancelForEachSiblings env s).2.log := by
  refine foldlRecOn (motive := fun s : StepRun × Tick => NoSave s.2.log) s.1.children.entries _ h
    fun s h e _ => ?_
  split
  · exact h
  split
  · exact noSave_emit h rfl
  · exact h

theorem noSave_childResult {env : OpEnv wf} (h : NoSave t.log)
    (hres : childResult env base childID res t = some t') : NoSave t'.log := by
  unfold childResult at hres
  dsimp only at hres
  split at hres
  · cases hres
  cases hres
  refine noSave_retryTimer ?_
  repeat' split
  all_goals first | exact h | (refine noSave_cancelForEachSiblings ?_; exact h)

theorem noSave_stepResult {env : OpEnv wf} (h : NoSave t.log)
    (hres : stepResult env stepID res t = some t') : NoSave t'.log := by
  unfold stepResult at hres
  dsimp only at hres
  split at hres
  · cases hres
  cases hres
  refine noSave_retryTimer ?_
  split
  all_goals exact h

/-- What a tick logs that saves its run, and schedules if the run goes on. -/
theorem openFinal_saved (schedule : ScheduleEnv wf) (h : NoSave t.log) (ht' : t'.run = t.run)
    (hlog : t'.log = t.log ++ saves) (hsv : ∀ e ∈ saves, e = .save t.run) (b : Bool) :
    OpenFinal (if b && t'.run.status = .running then scheduleReady schedule t' else t').log := by
  have hsm : ∀ r, save r ∈ t'.log → r = t.run := by
    intro r hr
    rw [hlog] at hr
    exact save.inj (hsv _ ((mem_append.1 hr).resolve_left (h r)))
  split
  next hb =>
    have hrng : t.run.status = .running := by
      rw [← ht']
      exact of_decide_eq_true (Bool.and_eq_true_iff.1 hb).2
    obtain ⟨new, hnew, hfin⟩ := scheduleReady_log schedule t'
    rw [hnew]
    refine openFinal_append (fun r hr => ?_) hfin
    rw [WorkflowRun.IsOpen, hsm r hr, hrng]
    rfl
  next => exact openFinal_of_same _ hsm

theorem advance_openFinal {env : OpEnv wf} : OpenFinal (advance env stepID res run).log := by
  unfold advance
  dsimp only
  split
  · obtain ⟨new, hlog, hnew⟩ := timeoutRun_log wf env.now env.timeoutSave env.cancelled { run }
    rw [hlog]
    exact hnew
  split
  · exact openFinal_nil
  next t hres =>
  have hnos : NoSave t.log := by
    split at hres
    · exact noSave_childResult (noSave_of_nil rfl) hres
    · exact noSave_stepResult (noSave_of_nil rfl) hres
  set t1 : Tick := { t with run := updateRunStatus env.status env.now t.run }
  have h1 : NoSave t1.log := hnos
  obtain ⟨saves, hlog, hsv⟩ := save_log t1 env.save
  split
  · -- saved, or told to stop
    exact openFinal_saved env.schedule h1 (save_run _ _) hlog hsv _
  -- a second try
  obtain ⟨saves', hlog', hsv'⟩ := save_log (t1.save env.save).1 env.saveAgain
  rw [hlog, append_assoc] at hlog'
  rw [save_run] at hsv'
  exact openFinal_saved env.schedule h1 (by rw [save_run, save_run]) hlog'
    (forall_mem_append.2 ⟨hsv, hsv'⟩) _

theorem final_of_cases (ht : isTerminalRunStatus run.status → l = [])
    (ho : OpenFinal l) : Final run l := by
  by_cases h : isTerminalRunStatus run.status
  · rw [ht h]
    trivial
  · exact ho run (Bool.eq_false_iff.2 h)

/-- **Job results leave terminal runs alone.** -/
theorem handleJobResult_final (env : ResultEnv) (res : JobResult) (run : WorkflowRun) :
    Final run (handleJobResult env res run) := by
  refine final_of_cases (fun ht => ?_) ?_
  · unfold handleJobResult
    dsimp only
    split
    · rfl
    · rw [if_pos (.inr (.inr ht))]
  · unfold handleJobResult
    repeat' split
    all_goals first | exact openFinal_nil | exact advance_openFinal

/-- **Approvals leave terminal runs alone.** -/
theorem approveStep_final {env : LoadEnv} {approved : Bool} :
    Final run (approveStep env stepID approved run) := by
  refine final_of_cases (fun ht => ?_) ?_
  · unfold approveStep
    split
    · unfold approveWith
      have hdl : ∀ wf now, pastDeadline wf run now = false := fun wf now => by simp [pastDeadline, ht]
      simp [hdl, ht]
    · rfl
  · unfold approveStep
    split
    next wf _ _ =>
      unfold approveWith
      split
      · obtain ⟨new, hlog, hnew⟩ :=
          timeoutRun_log wf (env.op wf).now (env.op wf).timeoutSave (env.op wf).cancelled { run }
        rw [hlog]
        exact hnew
      split
      · exact openFinal_nil
      split
      · exact openFinal_nil
      split
      · exact openFinal_nil
      · obtain ⟨saves, hlog, hsv⟩ := save_log _ (env.op wf).save
        exact openFinal_saved _ (noSave_of_nil (by cases approved <;> rfl)) (save_run _ _) hlog hsv _
    · exact openFinal_nil

/-- **Cancellations leave terminal runs alone.** -/
theorem cancelRun_final (env : LoadEnv) (run : WorkflowRun) : Final run (cancelRun env run) := by
  refine final_of_cases (fun ht => ?_) ?_
  · unfold cancelRun
    rw [if_pos (.inr ht)]
  · unfold cancelRun
    split
    · exact openFinal_nil
    split
    · exact openFinal_nil
    next wf _ =>
    dsimp only
    generalize endRun wf (env.op wf).now .cancelled (cancelStepRun (env.op wf).now) run = ended
    cases (env.op wf).save with
    | ok =>
      exact openFinal_of_same ended.1 (by simp [Tick.save, Tick.emit, Tick.cancelJobs])
    | lost => exact openFinal_nil
    | late => exact openFinal_save ended.1

theorem startWith_final {env : StartEnv} : Final run (startWith env wf run) := by
  refine final_of_cases (fun ht => ?_) ?_
  · unfold startWith
    rw [if_pos ht]
  · unfold startWith
    split
    · exact openFinal_nil
    split
    · exact openFinal_nil
    obtain ⟨new, hlog, hfin⟩ := scheduleReady_log (env.schedule wf) { run }
    rw [hlog]
    exact hfin

/-- A start that finds the workflow gone finds the run open, or just failed. -/
def StartHarmless (env : StartEnv) (run : WorkflowRun) : Prop :=
  env.getRun = none → env.workflow = .error .notFound → env.reload = .error .notFound →
    env.orphanSave ≠ .lost →
    isTerminalRunStatus run.status → run.status = .failed ∧ run.completedAt = some env.now

/-- **Starts leave terminal runs alone**, unless the workflow is gone. -/
theorem startRun_final_iff {env : StartEnv} : Final run (startRun env run) ↔ StartHarmless env run := by
  have hsv : env.orphanSave ≠ .lost →
      (({ run := orphaned env.now run } : Tick).save env.orphanSave).1.log =
      [.save (orphaned env.now run)] := by
    intro h
    cases ho : env.orphanSave with
    | ok => rfl
    | lost => exact absurd ho h
    | late => rfl
  unfold startRun StartHarmless
  cases hget : env.getRun with
  | some e => simp [Final]
  | none =>
    simp only [isSome_none, Bool.false_eq_true, if_false]
    cases hwf : env.workflow with
    | ok wf => simp [startWith_final]
    | error e =>
      cases e with
      | other => simp [Final]
      | notFound =>
        cases hre : env.reload with
        | ok wf => simp [startWith_final]
        | error e =>
          cases e with
          | other => simp [Final]
          | notFound =>
            simp only [true_implies]
            by_cases hlo : env.orphanSave = .lost
            · rw [hlo]
              simp [Tick.save, Final]
            · rw [hsv hlo, final_save]
              constructor
              · exact fun h _ ht => ⟨(h ht).status.symm, (h ht).completedAt.symm⟩
              · exact fun h ht => ⟨(h hlo ht).1.symm, (h hlo ht).2.symm, fun _ => rfl, fun _ _ => rfl⟩

/-! ## The reconciler -/

theorem recovered_status {now : ℤ} {sr : StepRun} : (recovered now sr).status ≠ .waiting := by
  unfold recovered
  dsimp only
  split <;> nofun

variable (env : ReconcileEnv)

/-- A recovery of stuck steps comes while the run is open. -/
def RecoveryHarmless (run : WorkflowRun) : Prop :=
  stuckSteps env run ≠ [] → env.stuckSave ≠ .lost → isTerminalRunStatus run.status = false

/-- **Recovering stuck steps changes the run**, whatever its status. -/
theorem reconcileStuckWaitingSteps_final_iff :
    Final run (reconcileStuckWaitingSteps env run) ↔ RecoveryHarmless env run := by
  unfold reconcileStuckWaitingSteps RecoveryHarmless
  dsimp only
  split
  next hnil => simp [hnil, Final]
  next hids =>
    simp only [ne_eq, hids, not_false_eq_true]
    obtain ⟨id, hid⟩ := exists_mem_of_ne_nil _ hids
    -- a stuck step waits, and does not after its recovery
    obtain ⟨sr, hsr, hst⟩ := waiting_of_stuck hid
    set run' := (stuckSteps env run).foldl _ run
    have hchd : run'.step id = _ := step_recovered_stuck env run id
    rw [if_pos hid] at hchd
    have hkee : ¬ Keeps run run' := by
      intro h
      have hsm := h.steps id
      rw [stepStatus, stepStatus, hchd, hsr] at hsm
      exact recovered_status ((some.inj hsm).trans hst)
    have hsvd : Final run [.save run'] ↔ run.IsOpen := by
      rw [final_save, WorkflowRun.IsOpen, Bool.eq_false_iff]
      exact ⟨fun h ht => hkee (h ht), fun h ht => absurd ht h⟩
    cases env.stuckSave with
    | ok | late => simpa [Tick.save, Tick.emit] using hsvd
    | lost => simp [Tick.save, Final]

theorem reconcileJobs_final (loaded : WorkflowRun) (ids : List String) (run : WorkflowRun) :
    Final run (reconcileJobs env loaded ids run) := by
  induction ids generalizing run with
  | nil => trivial
  | cons id ids ih =>
    refine final_append.2 ⟨?_, ih _⟩
    repeat' split
    all_goals first | trivial | exact handleJobResult_final _ _ _

/-- What a reconciliation of an open run meets after the results it has taken in. -/
def ReconcileHarmless (run : WorkflowRun) : Prop :=
  env.getRun = none → isTerminalRunStatus run.status = false →
    let run₁ := persisted run (reconcileJobs env run (env.order run).1 run)
    let recovered := if env.refresh.isSome then [] else reconcileStuckWaitingSteps env run₁
    (env.refresh = none → RecoveryHarmless env run₁) ∧ StartHarmless env.start (persisted run₁ recovered)

theorem reconcileRun_final_iff (run : WorkflowRun) :
    Final run (reconcileRun env run) ↔ ReconcileHarmless env run := by
  unfold reconcileRun ReconcileHarmless
  split
  next h =>
    refine iff_of_true trivial fun hget hop => ?_
    rw [hget, hop] at h
    simp at h
  next h =>
    rw [not_or] at h
    have hget : env.getRun = none := not_isSome_iff_eq_none.1 h.1
    have hop : run.IsOpen := Bool.eq_false_iff.2 h.2
    simp only [hget, hop, true_implies]
    rw [final_append, final_append, persisted_append, startRun_final_iff]
    have hrec : ∀ run1,
        Final run1 (if env.refresh.isSome then [] else reconcileStuckWaitingSteps env run1) ↔
        (env.refresh = none → RecoveryHarmless env run1) := by
      intro run1
      rw [← reconcileStuckWaitingSteps_final_iff]
      cases env.refresh with
      | none => simp
      | some e => simp [Final]
    rw [hrec]
    exact and_congr_left fun _ => and_iff_right (reconcileJobs_final env run _ run)

/-! ## Any sequence of operations -/

/-- An operation that does not act on a terminal run. -/
def RunOp.Harmless (run : WorkflowRun) : RunOp → Prop
  | .result _ _ | .approve _ _ _ | .cancel _ => True
  | .start env => StartHarmless env run
  | .reconcile env => ReconcileHarmless env run

/-- Every operation of a history is harmless where it comes. -/
def AllHarmless : WorkflowRun → List RunOp → Prop
  | _, [] => True
  | run, op :: ops => op.Harmless run ∧ AllHarmless (persisted run (op.log run)) ops

theorem RunOp.final_iff (run : WorkflowRun) (op : RunOp) : Final run (op.log run) ↔ op.Harmless run := by
  cases op with
  | result env res => exact iff_of_true (handleJobResult_final env res run) trivial
  | start env => exact startRun_final_iff
  | approve env stepID approved => exact iff_of_true approveStep_final trivial
  | cancel env => exact iff_of_true (cancelRun_final env run) trivial
  | reconcile env => exact reconcileRun_final_iff env run

/-- **Terminal runs are final exactly when every operation is harmless where it comes**. -/
theorem terminal_runs_final_iff (run : WorkflowRun) (ops : List RunOp) :
    Final run (history run ops) ↔ AllHarmless run ops := by
  induction ops generalizing run with
  | nil => exact iff_of_true trivial trivial
  | cons op ops ih =>
    change Final run (_ ++ _) ↔ _ ∧ _
    rw [final_append, op.final_iff run, ih]

/-! ## A deleted workflow, and an approval nobody knows of -/

/-- A start that finds no workflow. -/
def deletedWorkflow (now : ℤ) : StartEnv where
  workflow := .error .notFound
  reload := .error .notFound
  now := now
  schedule wf := { status := inOrder wf wf.order }

/-- A workflow of an approval and a job. -/
def approvalAndJob : Workflow where
  steps := ([⟨"approve", some { id := "approve", type := .approval }⟩, ⟨"work", some { id := "work" }⟩] :
    List (Sigma fun _ : String => _)).toAList

/-- Its run, with both waiting. -/
def approvalAndJobRun : WorkflowRun where
  id := "run"
  status := .running
  steps := ([⟨"approve", { status := .waiting, jobID := "run:approve@1" }⟩,
    ⟨"work", { status := .running, jobID := "run:work@1" }⟩] : List (Sigma fun _ : String => _)).toAList

/-- A reconciliation that finds the job failed. -/
def jobFailed : ReconcileEnv where
  job id := if id = "work" then some { jobID := "run:work@1", status := .failedFatal } else none
  result _ :=
    { workflow := .ok approvalAndJob
      op := fun wf =>
        { status := inOrder wf wf.order, schedule := { status := inOrder wf wf.order } } }
  jobKnown _ := false
  start :=
    { workflow := .ok approvalAndJob
      reload := .ok approvalAndJob
      schedule := fun wf => { status := inOrder wf wf.order } }

/-- A run that succeeded is failed when it is started after its workflow was deleted. A reconciliation
stores a failed run again with another status for the approval. -/
theorem terminal_run_failed :
    (let run : WorkflowRun := { status := .succeeded, completedAt := some 5 }
      let run' := persisted run (history run [.start (deletedWorkflow 9)])
      run'.status = .failed ∧ run'.completedAt = some 9) ∧
    (history approvalAndJobRun [.reconcile jobFailed]).filterMap (fun e =>
      match e with
      | .save run => some (run.status, run.stepStatus "approve")
      | _ => none) = [(.failed, some .waiting), (.failed, some .pending)] := by
  decide +kernel

end Cordum.Flow
