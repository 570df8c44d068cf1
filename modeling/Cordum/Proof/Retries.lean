import Cordum.Workflow.Healthy
import Cordum.Workflow.Parents

/-!
# The retry budget

A step with `max_retries` may be requested once and then that many times again, each time with the
next attempt in the job's identifier. Requests count the attempts in the step's entry, except those of
an approval, whose entry is set to one attempt each time: an approval with retries is requested again
and again under one identifier (`approval_requested_again`). Where approvals have no retries the
budget holds (`retry_budget`).
-/

namespace Cordum.Flow

open List Step

variable {child child' : ChildRun} {res : JobResult} {l : List Effect}
  {new old : List String} {status : RunStatus}
  {v : Visit} {undo n : ℤ} {wf : Workflow} {T : Terms} {phase : Phase} {t t' : Tick} {env : ResultEnv}
  {ops ops₁ ops₂ : List RunOp} {retry : Option ℤ}

/-- `Retry.MaxRetries`; a step without a configuration has none. -/
def Step.maxRetries (step : Step) : ℤ := max 0 ((step.retry.map (·.maxRetries)).getD 0)

theorem Step.maxRetries_nonneg (step : Step) : 0 ≤ step.maxRetries := le_max_left _ _

theorem attempts_of_shouldRetry {step : Step} (h : shouldRetry (some step) child) :
    child.attempts ≤ step.maxRetries := by
  unfold shouldRetry at h
  unfold maxRetries
  cases hret : step.retry with
  | none => simp [hret] at h
  | some retry =>
    simp only [hret, Option.bind_some, Bool.and_eq_true, decide_eq_true_eq] at h
    simp only [Option.map_some, Option.getD_some]
    omega

/-- The requests for a step: at most `m + 1` attempts, each of them once. -/
structure RetryBudget (m : ℤ) (run : WorkflowRun) (id : String) (log : List Effect) : Prop where
  requests : ∃ attempts : List ℤ, attempts.Nodup ∧ (attempts.length : ℤ) ≤ m + 1 ∧
    ∀ n, jobIDFor run id n ∈ published log ↔ n ∈ attempts
  distinct : ∀ n, (published log).count (jobIDFor run id n) ≤ 1

/-! ## Entries and their requests -/

/-- What may become of an entry, with the attempt that is requested. -/
inductive CellMove (m : ℤ) (c : ChildRun) : Option ℤ → ChildRun → Prop
  | kept {c' : ChildRun} (hattempts : c'.attempts = c.attempts) (hfresh : fresh c'.status → fresh c.status)
    (hended : isTerminalStepStatus c.status → isTerminalStepStatus c'.status) : CellMove m c none c'
  | taken {c' : ChildRun} (hopen : isTerminalStepStatus c.status = false)
    (hattempts : c.attempts ≤ c'.attempts) (hretry : fresh c'.status → c'.attempts ≤ m) :
    CellMove m c none c'
  | sent {c' : ChildRun} (hfresh : fresh c.status) (hattempts : c'.attempts = c.attempts + 1)
    (hrunning : fresh c'.status = false) : CellMove m c (some c'.attempts) c'

/-- What is published, as far as the step is concerned. -/
def Adds (run : WorkflowRun) (id : String) (attempt : Option ℤ) (old new : List String) : Prop :=
  ∃ extra, new = old ++ extra ∧
    match attempt with
    | none => ∀ n, jobIDFor run id n ∉ extra
    | some n => extra = [jobIDFor run id n]

variable {run : WorkflowRun} {id : String}

theorem Adds.append {attempt : Option ℤ} (h : Adds run id attempt old new)
    (before : List String) : Adds run id attempt (before ++ old) (before ++ new) := by
  obtain ⟨extra, hnew, hex⟩ := h
  exact ⟨extra, by rw [hnew, append_assoc], hex⟩

/-- The jobs of an entry, each once and within the budget. -/
structure Budgeted (m : ℤ) (run : WorkflowRun) (id : String) (jobs : List String)
    (c : ChildRun) : Prop where
  sent : ∀ n, jobIDFor run id n ∈ jobs → 1 ≤ n ∧ n ≤ c.attempts ∧ n ≤ m + 1
  once : ∀ n, jobs.count (jobIDFor run id n) ≤ 1
  fresh : fresh c.status → c.attempts ≤ m
  nonneg : 0 ≤ c.attempts

section

variable {m : ℤ} {run : WorkflowRun} {id : String} {jobs jobs' : List String}
  {c c' : ChildRun} {attempt : Option ℤ}

/-- **The requests go on fitting the entry.** -/
theorem Budgeted.step (h : Budgeted m run id jobs c) (hmove : CellMove m c attempt c')
    (hadd : Adds run id attempt jobs jobs') : Budgeted m run id jobs' c' := by
  obtain ⟨extra, rfl, hex⟩ := hadd
  -- nothing is requested
  have hno : (∀ n, jobIDFor run id n ∉ extra) →
      ∀ n, (jobIDFor run id n ∈ jobs ++ extra ↔ jobIDFor run id n ∈ jobs) ∧
      (jobs ++ extra).count (jobIDFor run id n) = jobs.count (jobIDFor run id n) := by
    intro hex n
    rw [mem_append, count_append, count_eq_zero.2 (hex n)]
    exact ⟨⟨fun hmem => hmem.resolve_right (hex n), .inl⟩, rfl⟩
  have hnonneg := h.nonneg
  cases hmove with
  | kept hatt hfr =>
    refine ⟨fun n hn => ?_, fun n => ?_, fun hs => ?_, by omega⟩
    · rw [hatt]
      exact h.sent n ((hno hex n).1.1 hn)
    · rw [(hno hex n).2]
      exact h.once n
    · rw [hatt]
      exact h.fresh (hfr hs)
  | taken hop hatt hret =>
    refine ⟨fun n hn => ?_, fun n => ?_, hret, by omega⟩
    · have hbef := h.sent n ((hno hex n).1.1 hn)
      omega
    · rw [(hno hex n).2]
      exact h.once n
  | sent hfr hatt hrng =>
    subst hex
    have hlimit := h.fresh hfr
    -- the attempt is a new one
    have hnew : jobIDFor run id c'.attempts ∉ jobs := by
      intro hmem
      have hbef := h.sent _ hmem
      omega
    refine ⟨fun n hn => ?_, fun n => ?_, fun hs => ?_, by omega⟩
    · rcases mem_append.1 hn with hn | hn
      · have hbef := h.sent n hn
        omega
      · obtain ⟨-, rfl⟩ := jobIDFor_injective rfl (mem_singleton.1 hn)
        omega
    · rw [count_append, count_singleton]
      split
      · rename_i heq
        obtain ⟨-, rfl⟩ := jobIDFor_injective rfl (eq_of_beq heq)
        rw [count_eq_zero.2 hnew]
      · exact h.once n
    · rw [hrng] at hs
      cases hs

theorem Budgeted.budget (hm : 0 ≤ m) {log : List Effect} (h : Budgeted m run id (published log) c) :
    RetryBudget m run id log := by
  refine ⟨⟨((range (m + 1).toNat).map fun (k : ℕ) => (k + 1 : ℤ)).filter fun n => jobIDFor run id n ∈
    published log, ?_, ?_, fun n => ?_⟩, h.once⟩
  · refine List.Nodup.filter _ (List.Nodup.map ?_ nodup_range)
    intro a b hab
    have hab' : (a + 1 : ℤ) = b + 1 := hab
    omega
  · have hle := length_filter_le (fun n => decide (jobIDFor run id n ∈ published log))
      ((range (m + 1).toNat).map fun (k : ℕ) => (k + 1 : ℤ))
    rw [length_map, length_range] at hle
    omega
  · rw [mem_filter, mem_map, decide_eq_true_eq]
    refine ⟨fun hn => ⟨?_, hn⟩, fun hn => hn.2⟩
    obtain ⟨hone, -, hmax⟩ := h.sent n hn
    refine ⟨(n - 1).toNat, mem_range.2 (by omega), by omega⟩

theorem CellMove.ended (h : CellMove m c attempt c') (hend : isTerminalStepStatus c.status) :
    attempt = none ∧ isTerminalStepStatus c'.status := by
  cases h with
  | kept hatt hfr hkp => exact ⟨rfl, hkp hend⟩
  | taken hop =>
    rw [hend] at hop
    cases hop
  | sent hfr =>
    rw [open_of_fresh hfr] at hend
    cases hend

theorem CellMove.nonneg (h : CellMove m c attempt c') (hc : 0 ≤ c.attempts) : 0 ≤ c'.attempts := by
  cases h <;> omega

end

/-- The entry a budget is read off, of a run whose moves treat it as they should. -/
structure Cell (wf : Workflow) (T : Terms) (run₀ : WorkflowRun) (id : String) (m : ℤ) where
  of : WorkflowRun → ChildRun
  /-- What has to hold of the run. -/
  kept : WorkflowRun → Prop
  move : ∀ {phase : Phase} {t t' : Tick}, Move wf T phase t t' → kept t.run →
    (fresh (of t.run).status → (of t.run).attempts ≤ m) → 0 ≤ (of t.run).attempts →
    kept t'.run ∧ ∃ attempt, CellMove m (of t.run) attempt (of t'.run) ∧
      Adds run₀ id attempt (published t.log) (published t'.log)
  /-- A result that is not retried ends it. -/
  result : ∀ {env : OpEnv wf} {res : JobResult} {run : WorkflowRun} {t₀ : Tick},
    TakenFirst env id res run t₀ →
    T.result run id res → res.status = .denied ∨ res.status = .failedFatal →
    isTerminalStepStatus (of t₀.run).status

/-- `HandleJobResult` takes the result, for the step. -/
structure TakenAt (wf : Workflow) (env : ResultEnv) (res : JobResult) (run : WorkflowRun)
    (id : String) : Prop where
  runID : (splitJobID res.jobID).1 ≠ ""
  stepID : (splitJobID res.jobID).2 = id
  named : id ≠ ""
  getRun : env.getRun = none
  identity : env.sameIdentity
  workflow : env.workflow = .ok wf
  open_ : isTerminalRunStatus run.status = false
  deadline : pastDeadline wf run (env.op wf).now = false
  takes : ((env.op wf).takes id res run).isSome

theorem TakenAt.log (h : TakenAt wf env res run id) :
    handleJobResult env res run = (advance (env.op wf) id res run).log := by
  unfold handleJobResult
  dsimp only
  have hid : (splitJobID res.jobID).2 ≠ "" := h.stepID ▸ h.named
  rw [if_neg (by rw [not_or]; exact ⟨h.runID, hid⟩),
    if_neg (by rw [h.getRun, h.identity, h.open_]; simp), h.workflow, h.stepID]

namespace Cell

variable {run₀ : WorkflowRun} {id : String} {m : ℤ} (cell : Cell wf T run₀ id m)

theorem published_append {l1 l2 : List Effect} : published (l1 ++ l2) = published l1 ++ published l2 :=
  filterMap_append

/-- **The budget of an entry**, along every history that stores the run. -/
theorem budgeted (hT : T.stored) {log : List Effect} (h : Reached wf T run₀ log) (hkp : cell.kept run₀)
    (hatt : (cell.of run₀).attempts = 0) (hm : 0 ≤ m) :
    cell.kept (persisted run₀ log) ∧ Budgeted m run₀ id (published log)
      (cell.of (persisted run₀ log)) := by
  have hin : Budgeted m run₀ id (published []) (cell.of run₀) :=
    ⟨nofun, fun _ => Nat.zero_le _, fun _ => by omega, by omega⟩
  refine h.logged
    (K := fun log run => cell.kept run ∧ Budgeted m run₀ id (published log) (cell.of run)) hT ?_ []
    ⟨hkp, hin⟩
  rintro phase pre t t' hmove ⟨hkp, hbud⟩
  obtain ⟨hkp', attempt, hcl, hadd⟩ := cell.move hmove hkp hbud.fresh hbud.nonneg
  rw [published_append] at hbud ⊢
  exact ⟨hkp', hbud.step hcl (hadd.append _)⟩

/-- The entry has ended, and nothing was requested since. -/
structure Shut (log : List Effect) (run : WorkflowRun) : Prop where
  kept : cell.kept run
  nonneg : 0 ≤ (cell.of run).attempts
  ended : isTerminalStepStatus (cell.of run).status
  silent : ∀ n, jobIDFor run₀ id n ∉ published log

variable {cell}

theorem Shut.move {pre : List Effect} (h : cell.Shut (pre ++ t.log) t.run) (hmove : Move wf T phase t t') :
    cell.Shut (pre ++ t'.log) t'.run := by
  have hfr : fresh (cell.of t.run).status → (cell.of t.run).attempts ≤ m := by
    intro hs
    have hop := open_of_fresh hs
    rw [h.ended] at hop
    cases hop
  obtain ⟨hkp, attempt, hcl, extra, hnew, hex⟩ := cell.move hmove h.kept hfr h.nonneg
  obtain ⟨rfl, hend⟩ := hcl.ended h.ended
  refine ⟨hkp, hcl.nonneg h.nonneg, hend, fun n hn => ?_⟩
  rw [published_append, hnew, ← append_assoc, ← published_append] at hn
  exact (mem_append.1 hn).elim (h.silent n) (hex n)

theorem Shut.step (h : cell.Shut t.log t.run) (hmove : Move wf T phase t t') :
    cell.Shut t'.log t'.run := by
  have hsh : cell.Shut ([] ++ t.log) t.run := h
  exact hsh.move hmove

theorem Shut.moves (h : cell.Shut t.log t.run) (hmvs : Moves wf T phase t t') :
    cell.Shut t'.log t'.run := by
  induction hmvs with
  | refl => exact h
  | tail _ hls ih => exact ih.step hls

/-- **Nothing is requested after a result that is not retried.** -/
theorem none_after (hT : T.stored) (hkp : cell.kept run) {jobs : List String}
    (hbud : Budgeted m run₀ id jobs (cell.of run))
    (hmts : Meets wf T run (.result env res :: ops)) (htk : TakenAt wf env res run id)
    (hst : res.status = .denied ∨ res.status = .failedFatal) :
    ∀ n, jobIDFor run₀ id n ∉ published (history run (.result env res :: ops)) := by
  obtain ⟨hfst, hrs⟩ := hmts
  have hadv := hfst.advance htk.open_
  rw [htk.stepID] at hadv
  obtain ⟨t, ht⟩ := Option.isSome_iff_exists.1 htk.takes
  obtain ⟨t0, t1, hres, hmove, hhan, hsch⟩ :=
    advance_taken htk.named htk.open_ hadv htk.deadline ht
  have hlog : t0.log = [] := by
    cases hres with
    | own | child => rfl
  obtain ⟨hkept0, attempt, hcl, -⟩ := cell.move hmove hkp hbud.fresh hbud.nonneg
  have hsh : cell.Shut t0.log t0.run := by
    refine ⟨hkept0, hcl.nonneg hbud.nonneg, cell.result hres (hadv.result _ ht) hst, fun n => ?_⟩
    rw [hlog]
    exact not_mem_nil
  have hend := (hsh.moves hhan).moves hsch
  have hsto : persisted run (advance (env.op wf) id res run).log = (advance (env.op wf) id res run).run :=
    (episode_advance htk.named htk.open_ hadv).2 hT
  have hop : RunOp.log run (.result env res) = (advance (env.op wf) id res run).log := htk.log
  rw [hop, hsto] at hrs
  have hls := (reached_history hrs).logged hT (fun _ _ _ _ hmove h => h.move hmove) _ hend
  have hhis : history run (.result env res :: ops) =
      (advance (env.op wf) id res run).log ++ history (advance (env.op wf) id res run).run ops := by
    rw [history, hop, hsto]
  rw [hhis]
  exact hls.silent

end Cell

/-! ## Conditions -/

/-- A step with children of its own: iterations, or items. -/
def Step.isParent (step : Step) : Prop := step.type = .loop ∨ step.fansOut

/-- The step has no children, or leaves the main loop alone. -/
def Workflow.Separate (wf : Workflow) (id : String) : Prop :=
  ∀ step, wf.step id = some step → step.isParent → wf.Managed id

/-- Approvals have no retries, parallel steps list no loop and no for-each that the main loop visits
too, and results are for jobs of the run. -/
def retryTerms (wf : Workflow) : Terms where
  visit v := (v.step.type = .approval → v.step.maxRetries = 0) ∧
    ∀ cfg, v.env.parallel = .ok cfg → ∀ id ∈ cfg.childStepIDs, wf.Separate id
  result run id _ := wf.Separate id ∧
    ∀ base, splitForEachStep id = (base, id) → ¬ wf.Managed base ∧
    (∃ step, wf.step base = some step ∧ step.isParent) ∧
      ((run.entry base).children.lookup id).isSome
  recovers := False
  stored := True

/-- The steps and the items that have jobs, with their budgets. -/
inductive Dispatched (wf : Workflow) : String → ℤ → Prop
  | step {id : String} {step : Step} (hstep : wf.step id = some step) (hkind : wf.Separate id) :
    Dispatched wf id step.maxRetries
  | item {base : String} {step : Step} (hstep : wf.step base = some step) (hf : step.fansOut) (idx : ℕ) :
    Dispatched wf (childIDFor base idx) step.maxRetries

/-! ## What is published -/

theorem Sending.jobID_eq {sr sr' : StepRun} (h : Sending v t sr status undo sr') :
    ∃ n, sr'.jobID = jobIDFor t.run v.stepID n := by
  cases h with
  | approval => exact ⟨1, rfl⟩
  | job => exact ⟨_, rfl⟩

section

variable {run₀ : WorkflowRun} {id j : String}

theorem published_silent (h : Silent l) : published l = [] := by
  unfold published
  rw [filterMap_eq_nil_iff]
  intro e he
  cases e with
  | submit j => exact absurd he (h j)
  | _ => rfl

theorem adds_silent {l' new : List Effect} (hlog : l' = l ++ new) (h : Silent new) :
    Adds run₀ id none (published l) (published l') := by
  refine ⟨[], ?_, fun _ => not_mem_nil⟩
  rw [hlog, Cell.published_append, published_silent h]

theorem published_request {l' saves : List Effect} (hlog : l' = l ++ (saves ++ [.submit j]))
    (h : Silent saves) :
    published l' = published l ++ [j] := by
  rw [hlog, Cell.published_append, Cell.published_append, published_silent h]
  rfl

theorem adds_own (hrun : run.id = run₀.id) (hnew : new = old ++ [jobIDFor run id n]) :
    Adds run₀ id (some n) old new := by
  refine ⟨_, hnew, ?_⟩
  change [jobIDFor run id n] = [jobIDFor run₀ id n]
  rw [jobIDFor, jobIDFor, hrun]

theorem Adds.not_own (h : Adds run₀ id none old new) (hrun : run.id = run₀.id) :
    new ≠ old ++ [jobIDFor run id n] := by
  intro hnew
  obtain ⟨extra, hex, hno⟩ := h
  rw [hnew, append_cancel_left_eq, jobIDFor, hrun] at hex
  exact hno n (hex ▸ mem_singleton_self _)

/-- What a move requests under a name: nothing, the step's job, or a child's. -/
theorem Move.requests (hmove : Move wf T phase t t') (hrun : t.run.id = run₀.id) (id : String) :
    Adds run₀ id none (published t.log) (published t'.log) ∨
      (∃ v status undo sr', v.stepID = id ∧ Visiting wf v ∧ T.visit v ∧ Due v (t.run.entry id) ∧
        Sending v t (t.run.entry id) status undo sr' ∧ t'.run.entry id = sr' ∧
        published t'.log = published t.log ++ [sr'.jobID]) ∨ ∃ v child input,
        Visiting wf v ∧ Source v t id child ∧
        t'.run = (t.putBoth v.stepID id (sentChild v.now t.run id input child)).run ∧
        Adds run₀ id (some (child.attempts + 1)) (published t.log) (published t'.log) := by
  obtain ⟨new, hnew⟩ := hmove.logged
  rcases hnew.jobs with hsil | ⟨j, saves, -, hpub, hjob, hsv⟩
  · exact .inl (adds_silent hnew.log hsil)
  have hadd := published_request (hjob ▸ hnew.log) hsv
  by_cases hj : ∃ n, jobIDFor run₀ id n = j
  · obtain ⟨n, hn⟩ := hj
    refine .inr ?_
    cases hpub with
    | @own v status undo sr' hv hT hdue hs =>
      obtain ⟨k, hk⟩ := hs.jobID_eq
      obtain ⟨rfl, -⟩ := jobIDFor_injective hrun (hk.symm.trans hn.symm)
      exact .inl ⟨v, status, undo, sr', rfl, hv, hT, hdue, hs, Tick.entry_put _ _ _, hadd⟩
    | @child v childID child input dispatched hv hT hdue hs hnx =>
      obtain ⟨rfl, -⟩ := jobIDFor_injective hrun hn.symm
      exact .inr ⟨v, child, input, hv, hs, rfl, adds_own hrun hadd⟩
  · exact .inl ⟨[j], hadd, fun n hn => hj ⟨n, mem_singleton.1 hn⟩⟩

end

/-! ## Steps -/

theorem cellMove_takeResult {env : OpEnv wf} {step : Step}
    (h : takeResult env (some step) res child = some (child', retry)) :
    CellMove step.maxRetries child none child' := by
  have htk := taken_takeResult h
  have hatt : child'.attempts = max child.attempts (parseAttempt res.jobID) := htk.applied.attempts
  refine .taken htk.open_ (by rw [hatt]; exact le_max_left _ _) fun hfr => ?_
  rcases htk.applied.status with ⟨htm, -⟩ | ⟨-, -, hret, -⟩
  · rw [open_of_fresh hfr] at htm
    cases htm
  · rw [hatt]
    exact attempts_of_shouldRetry hret

theorem ended_takeResult {env : OpEnv wf} {step : Option Step}
    (h : takeResult env step res child = some (child', retry))
    (hst : res.status = .denied ∨ res.status = .failedFatal) :
    isTerminalStepStatus child'.status := by
  rcases (taken_takeResult h).applied.status with ⟨htm, -⟩ | ⟨-, -, -, hret⟩
  · exact htm
  · rcases hst with hs | hs <;> rw [hs] at hret <;> simp at hret

section

variable {m : ℤ} {c c' : ChildRun}

theorem CellMove.ends (hatt : c'.attempts = c.attempts) (hend : isTerminalStepStatus c'.status) :
    CellMove m c none c' := by
  refine .kept hatt (fun hfr => ?_) fun _ => hend
  rw [open_of_fresh hfr] at hend
  cases hend

/-- An entry that waits to be dispatched has not ended. -/
theorem CellMove.waits (hatt : c'.attempts = c.attempts) (hfr : fresh c.status) :
    CellMove m c none c' := by
  refine .kept hatt (fun _ => hfr) fun hend => ?_
  rw [open_of_fresh hfr] at hend
  cases hend

theorem CellMove.same (h : c' = c) : CellMove m c none c' := by
  subst h
  exact .kept rfl (fun h => h) fun h => h

/-- A handler keeps the attempts of its step. -/
theorem OwnTurn.cellMove {sr sr' : StepRun} (h : OwnTurn v sr sr') (hdue : Due v sr) :
    CellMove m sr.toChildRun none sr'.toChildRun := by
  have hbs : ∀ {c' : ChildRun}, isTerminalStepStatus sr.status = false → c'.attempts = sr.attempts →
      fresh c'.status = false → CellMove m sr.toChildRun none c' := by
    intro c' hsr hatt hfr
    refine .kept hatt (fun hs => ?_) fun hs => ?_
    · rw [hfr] at hs
      cases hs
    · rw [hsr] at hs
      cases hs
  cases h with
  | kept | dropped => exact .same rfl
  | ended h => exact .ends h.attempts h.terminal
  | delayed ht hs => exact hbs (open_of_fresh hs) rfl rfl
  | childRun ht => exact hbs (hdue.open_ (by rw [ht]; exact nofun)) rfl rfl
  | begun ht =>
    refine hbs (hdue.open_ ?_) rfl rfl
    rcases ht with ht | ht <;> rw [ht] <;> exact nofun
  | noItems | loopDone => exact .ends rfl rfl

theorem Sending.counted {sr sr' : StepRun} (h : Sending v t sr status undo sr')
    (hno : v.step.type = .approval → sr.attempts = 0) :
    undo = sr.attempts ∧ sr'.attempts = sr.attempts + 1 ∧ sr'.jobID =
      jobIDFor t.run v.stepID sr'.attempts ∧ fresh sr'.status = false := by
  cases h with
  | approval ht =>
    have hatt := hno ht
    exact ⟨hatt.symm, by rw [hatt]; rfl, rfl, rfl⟩
  | job => exact ⟨rfl, rfl, rfl, rfl⟩

theorem Sending.fresh {sr sr' : StepRun} (h : Sending v t sr status undo sr') (hdue : Due v sr)
    (hwt : sr.status = .waiting → v.step.type = .approval) : fresh sr.status := by
  cases h with
  | approval _ hs => exact hs
  | job ht =>
    have hst := hdue.status
    unfold revisited at hst
    unfold isJob at ht
    cases hs : sr.status <;> cases hty : v.step.type <;> simp_all [fresh]

end

/-- A child with a plain name is a branch of a parallel step. -/
theorem Source.plain (h : Source v t id child) (hid : '[' ∉ id.toList) :
    v.step.type = .parallel ∧ child = ((t.run.step id).getD { status := .pending }).toChildRun ∧
      fresh child.status ∧ ∃ cfg, v.env.parallel = .ok cfg ∧ id ∈ cfg.childStepIDs := by
  cases h with
  | iteration _ _ hch | item _ hch => exact absurd (hch ▸ bracket_childIDFor) hid
  | branch ht hcfg hmem _ _ hfr => exact ⟨ht, rfl, hfr, _, hcfg, hmem⟩

/-- What holds of a step along a run. -/
structure StepKept (wf : Workflow) (run₀ : WorkflowRun) (id : String) (step : Step)
    (run : WorkflowRun) : Prop where
  runID : run.id = run₀.id
  waiting : (run.entry id).status = .waiting → step.type = .approval
  /-- It is a child of parallel steps only. -/
  keys : ∀ base, ((run.entry base).children.lookup id).isSome →
    ∃ s, wf.step base = some s ∧ s.type = .parallel

section

variable {run₀ : WorkflowRun} {id : String} {step : Step} (hplain : wf.Plain)
  (hdef : wf.step id = some step) (hkind : wf.Separate id)

include hplain hdef

theorem keys_parallel (hmove : Move wf T phase t t')
    (h : ∀ base, ((t.run.entry base).children.lookup id).isSome → ∃ s,
      wf.step base = some s ∧ s.type = .parallel)
    {base : String} (hso : ((t'.run.entry base).children.lookup id).isSome) :
    ∃ s, wf.step base = some s ∧ s.type = .parallel := by
  have hid : '[' ∉ id.toList := hplain.step (by rw [hdef]; rfl)
  rcases (hmove.touch base).made hso with hold | ⟨v, hv, ⟨-, idx, rfl⟩ | ⟨ht, -⟩⟩ | ⟨res, hsp, hkey, -⟩
  · exact h base hold
  · exact absurd bracket_childIDFor hid
  · exact ⟨v.step, hv.stepID ▸ hv.visiting.step, ht⟩
  · exact absurd (bracket_of_split hsp hkey) hid

omit hplain hdef in
theorem cellMove_adoptee {m : ℤ} {o : Option StepRun} :
    CellMove m (o.getD {}).toChildRun none (adoptee o).toChildRun := by
  cases o with
  | none => exact .kept rfl (fun _ => rfl) nofun
  | some sr =>
    unfold adoptee
    dsimp only [Option.getD_some]
    split
    · rename_i hs
      exact .waits rfl (by rw [hs]; rfl)
    · exact .same rfl

variable (hlists : ∀ base s, wf.step base = some s → s.type = .parallel → s.forEach = "")
  (hmove : Move wf (retryTerms wf) phase t t') (h : StepKept wf run₀ id step t.run)
  (hlimit : fresh (t.run.entry id).status → (t.run.entry id).attempts ≤ step.maxRetries)
  (hnonneg : 0 ≤ (t.run.entry id).attempts)

include hkind hlists hmove h hlimit hnonneg

theorem step_cellMove (hno : Adds run₀ id none (published t.log) (published t'.log)) :
    CellMove step.maxRetries (t.run.entry id).toChildRun none (t'.run.entry id).toChildRun := by
  have hid : '[' ∉ id.toList := hplain.step (by rw [hdef]; rfl)
  have htch := hmove.touch id
  generalize t'.run.entry id = sr' at htch
  have hste : ∀ {v}, VisitOf wf (retryTerms wf) phase t id v → v.step = step := fun hv => hv.step_eq hdef
  -- the main loop visits no parent that is kept apart
  have hpar : ∀ {v}, VisitOf wf (retryTerms wf) phase t id v → ¬ step.isParent := by
    rintro v hv hp
    exact hv.visiting.unmanaged (hv.stepID ▸ hkind step hdef hp)
  cases htch with
  | kept | adopts | withChild | withSent | withSibling => exact .same rfl
  | turn hv htn => exact htn.cellMove hv.due
  | switched hv ht hend => exact .ends hend.attempts hend.terminal
  | fanned hv hf => exact absurd (.inr (hste hv ▸ hf)) (hpar hv)
  | @sent v status undo sr' hv hs hlog =>
    obtain ⟨n, hn⟩ := hs.jobID_eq
    have hsv : Silent [Effect.save t'.run] := silent_saves [t'.run]
    have hadd := published_request hlog hsv
    rw [hn, hv.stepID] at hadd
    exact absurd hadd (hno.not_own h.runID)
  | @unsent v status undo sr' hv hs =>
    have hfr := hs.fresh hv.due (hste hv ▸ h.waiting)
    have hun := (hs.counted fun ht => by
      have hbud := hv.terms.1 ht
      rw [hste hv] at hbud
      have hmax := hlimit hfr
      omega).1
    exact .waits hun hfr
  | gated | notTaken => exact .ends rfl rfl
  | adopted => exact cellMove_adoptee
  | created _ _ _ _ hch => exact absurd (hch ▸ bracket_childIDFor) hid
  | @child v own child hv htn =>
    cases htn with
    | awaited ht hsrc =>
      rw [(hsrc.plain hid).1] at ht
      cases ht
    | failed hsrc hst _ _ hatt =>
      obtain ⟨-, rfl, -⟩ := hsrc.plain hid
      refine .ends ?_ ?_
      · refine hatt.trans ?_
        rw [WorkflowRun.entry]
        cases t.run.step id <;> rfl
      · change isTerminalStepStatus child.status
        rw [hst]
        rfl
    | unsent hf hsrc =>
      rw [fansOut, (hsrc.plain hid).1] at hf
      cases hf
    | cancelled _ _ _ _ hold _ hst _ _ hatt =>
      obtain ⟨sr, hsr, rfl⟩ := Option.map_eq_some_iff.1 hold
      rw [entry_of_some hsr]
      refine .ends hatt ?_
      change isTerminalStepStatus child.status
      rw [hst]
      rfl
  | childSent _ _ _ _ _ hlog =>
    exact absurd (published_request hlog (silent_saves [])) (hno.not_own h.runID)
  | taken hs | skipped _ _ hs => exact .waits rfl (by rw [hs]; rfl)
  | activated _ hfr => exact .waits rfl hfr
  | @ended change hchg =>
    refine .ends ?_ (endStepRun_status hchg (t.run.entry id))
    unfold endStepRun
    dsimp only
    split
    · rfl
    · exact (hchg _).2.2.1
  | result env _ _ _ htk =>
    rw [hdef] at htk
    exact cellMove_takeResult htk
  | childResult env _ hsp hkey => exact absurd (bracket_of_split hsp hkey) hid
  | withResult env _ hsp _ hT =>
    -- results are for the children of parents the main loop visits
    obtain ⟨hunmanaged, ⟨s, hs, hp⟩, -⟩ := hT.2 id hsp
    exact absurd (hkind s hs hp) hunmanaged
  | sibling now _ hbs hf hlk =>
    obtain ⟨s, hs, ht⟩ := h.keys _ (by rw [hlk]; rfl)
    rw [hbs, Option.some.injEq] at hs
    subst hs
    exact absurd (hlists _ _ hbs ht) hf
  | decided approved => cases approved <;> exact .ends rfl rfl
  | recovered _ _ hT => exact hT.elim

/-- **What a move makes of the entry of a step**, with the request for it. -/
theorem step_move : StepKept wf run₀ id step t'.run ∧ ∃ attempt,
      CellMove step.maxRetries (t.run.entry id).toChildRun attempt (t'.run.entry id).toChildRun ∧
        Adds run₀ id attempt (published t.log) (published t'.log) := by
  have hwt : (t'.run.entry id).status = .waiting → step.type = .approval := by
    intro hs
    rcases (hmove.touch id).waiting hs with hbef | ⟨step', hsp', ht⟩
    · exact h.waiting hbef
    · rw [hdef, Option.some.injEq] at hsp'
      exact hsp' ▸ ht
  refine ⟨⟨hmove.runID.trans h.runID, hwt, fun base => keys_parallel hplain hdef hmove h.keys⟩, ?_⟩
  rcases hmove.requests h.runID id with hno | ⟨v, status, undo, sr', rfl, hv, hT, hdue, hs, hent, hadd⟩ |
    ⟨v, child, input, hv, hs, hrun, hadds⟩
  · exact ⟨none, step_cellMove hplain hdef hkind hlists hmove h hlimit hnonneg hno, hno⟩
  · have hsp : v.step = step := Option.some.inj (hv.step.symm.trans hdef)
    have hfr := hs.fresh hdue (hsp ▸ h.waiting)
    obtain ⟨-, hatt, hjid, hrng⟩ := hs.counted fun ht => by
      have hbud := hT.1 ht
      rw [hsp] at hbud
      have hmax := hlimit hfr
      omega
    rw [hent]
    exact ⟨_, .sent hfr hatt hrng, adds_own h.runID (hadd.trans (by rw [← hjid]))⟩
  · -- the step is a child of a parallel step
    obtain ⟨-, rfl, hfr, cfg, hcfg, hmem⟩ := hs.plain (hplain.step (by rw [hdef]; rfl))
    have hne : id ≠ v.stepID := by
      rintro rfl
      exact (hv.proper cfg hcfg).1 hmem
    have hsm : (t.run.entry id).attempts = ((t.run.step id).getD { status := .pending }).attempts ∧
        fresh (t.run.entry id).status := by
      rw [WorkflowRun.entry]
      cases hsr : t.run.step id with
      | none => exact ⟨rfl, rfl⟩
      | some sr =>
        rw [hsr] at hfr
        exact ⟨rfl, hfr⟩
    rw [hrun, entry_of_some (Tick.step_putBoth _ _ hne)]
    refine ⟨_, .sent hsm.2 ?_ rfl, hadds⟩
    rw [hsm.1]
    rfl

/-- The entry of a step. -/
def stepCell : Cell wf (retryTerms wf) run₀ id step.maxRetries where
  of run := (run.entry id).toChildRun
  kept := StepKept wf run₀ id step
  move hmove h hlimit hnonneg := step_move hplain hdef hkind hlists hmove h hlimit hnonneg
  result := by
    intro env res run t₀ htaken _ hstatus
    cases htaken with
    | own _ htake =>
      rw [Tick.entry_put]
      exact ended_takeResult htake hstatus
    | child hsplit hkey =>
      exact absurd (bracket_of_split hsplit hkey) (hplain.step (by rw [hdef]; rfl))

end

/-! ## Items -/

section

variable {run₀ : WorkflowRun} {base : String} {step : Step} (hplain : wf.Plain)
  (hdef : wf.step base = some step)
  (hf : step.fansOut) (hunmanaged : ¬ wf.Managed base) (idx : ℕ)

/-- The entry of an item, before it has one the one it will get. -/
def itemOf (base : String) (idx : ℕ) (sr : StepRun) : ChildRun :=
  (sr.children.lookup (childIDFor base idx)).getD { status := .pending }

variable {idx} {sr sr' : StepRun}

theorem itemOf_congr (h : sr'.children = sr.children) : itemOf base idx sr' = itemOf base idx sr := by
  rw [itemOf, itemOf, h]

theorem itemOf_insert (h : sr'.children = sr.children.insert (childIDFor base idx) child) :
    itemOf base idx sr' = child := by
  rw [itemOf, h, AList.lookup_insert]
  rfl

theorem itemOf_insert_ne (hne : id ≠ childIDFor base idx)
    (h : sr'.children = sr.children.insert id child) :
    itemOf base idx sr' = itemOf base idx sr := by
  rw [itemOf, itemOf, h, AList.lookup_insert_ne (Ne.symm hne)]

theorem cellMove_insert {m : ℤ}
    (hch : id = childIDFor base idx → CellMove m (itemOf base idx sr) none child)
    (h : sr'.children = sr.children.insert id child) :
    CellMove m (itemOf base idx sr) none (itemOf base idx sr') := by
  by_cases hid : id = childIDFor base idx
  · have hit : itemOf base idx sr' = child := itemOf_insert (hid ▸ h)
    rw [hit]
    exact hch hid
  · exact .same (itemOf_insert_ne hid h)

theorem itemOf_createChildren {n : ℕ} {s : StepRun × Tick} :
    itemOf base idx (createChildren base n s).1 = itemOf base idx s.1 := by
  refine createChildren_induction (P := fun s' => itemOf base idx s'.1 = itemOf base idx s.1) rfl
    fun s' k _ hs hno => ?_
  rw [← hs]
  by_cases hk : childIDFor base k = childIDFor base idx
  · have hnew : itemOf base idx (putChild (childIDFor base k) { status := .pending } s'.1 s'.2).1 =
        { status := .pending } :=
      itemOf_insert (by rw [← hk]; rfl)
    rw [hnew, itemOf, ← hk, hno]
    rfl
  · exact itemOf_insert_ne hk rfl

include hplain hdef hf hunmanaged in
theorem owned_base : Owned wf (retryTerms wf) base step where
  plain := hplain
  inDef := hdef
  parent := .inr hf
  unlisted v hT cfg hcfg hmem := hunmanaged (hT.2 cfg hcfg base hmem step hdef (.inr hf))
  results run id res hT := by
    refine ⟨?_, fun hsp => (hT.2 base hsp).2.2⟩
    rintro rfl
    exact hunmanaged (hT.1 step hdef (.inr hf))

include hplain in
theorem item_ne (hid : (wf.step id).isSome) : id ≠ childIDFor base idx := by
  rintro rfl
  exact hplain.step hid bracket_childIDFor

include hplain hdef hf in
theorem Source.ofItem (hv : Visiting wf v) (h : Source v t (childIDFor base idx) child) :
    v.stepID = base ∧ child = itemOf base idx (t.entry base) ∧ fresh child.status := by
  have hown : ∀ {k}, childIDFor base idx = childIDFor v.stepID k → v.stepID = base := by
    intro k hk
    have hbs := split_childIDFor (hplain.step (by rw [hdef]; rfl)) idx
    have hown := split_childIDFor (hplain.step (by rw [hv.step]; rfl)) k
    rw [← hk, hbs, Prod.mk.injEq] at hown
    exact hown.1.symm
  cases h with
  | iteration ht _ hid =>
    have hsp := hv.step
    rw [hown hid, hdef, Option.some.injEq] at hsp
    rw [← hsp] at ht
    rw [fansOut, ht] at hf
    cases hf
  | item _ hid _ _ hfr =>
    have hbs := hown hid
    rw [hbs] at hfr ⊢
    exact ⟨rfl, rfl, hfr⟩
  | branch _ _ _ hin =>
    rw [hv.wf_eq] at hin
    exact absurd rfl (item_ne hplain hin)

/-- What holds of the parent of an item along a run. -/
structure ItemKept (run₀ : WorkflowRun) (base : String) (run : WorkflowRun) : Prop where
  runID : run.id = run₀.id
  mirrored : Mirrored base run

include hplain hdef hf hunmanaged

theorem item_cellMove (hmove : Move wf (retryTerms wf) phase t t') (h : ItemKept run₀ base t.run)
    (hno : Adds run₀ (childIDFor base idx) none (published t.log) (published t'.log)) :
    CellMove step.maxRetries (itemOf base idx (t.run.entry base))
      none (itemOf base idx (t'.run.entry base)) := by
  have hne : step.type ≠ .loop ∧ step.type ≠ .parallel := by
    cases ht : step.type <;> simp_all [fansOut]
  have hfan := (owned_base hplain hdef hf hunmanaged).fan h.mirrored hmove
  generalize t'.run.entry base = sr' at hfan
  cases hfan with
  | kept | gated | activated | taken | notTaken | skipped => exact .same (itemOf_congr rfl)
  | turn hv htn => exact .same (itemOf_congr (htn.children_eq (.inr (hv.step ▸ hf))))
  | fanned hv _ hn =>
    refine .same (itemOf_createChildren.trans ?_)
    exact itemOf_congr rfl
  | @child v id child hv htn =>
    refine cellMove_insert (fun hid => ?_) rfl
    subst hid
    -- the items of a for-each
    have hit : ∀ {c}, Source v t (childIDFor base idx) c → c = itemOf base idx (t.run.entry base) ∧
        fresh c.status := by
      intro c hsrc
      cases hsrc with
      | iteration ht => exact absurd (hv.step ▸ ht) hne.1
      | item _ _ _ _ hfr =>
        rw [hv.stepID] at hfr ⊢
        exact ⟨rfl, hfr⟩
      | branch ht => exact absurd (hv.step ▸ ht) hne.2
    cases htn with
    | awaited ht => exact absurd (hv.step ▸ ht) hne.1
    | failed hsrc hst _ _ hatt =>
      rw [← (hit hsrc).1]
      exact .ends hatt (by rw [hst]; rfl)
    | unsent _ hsrc =>
      rw [← (hit hsrc).1]
      exact .waits rfl (hit hsrc).2
    | cancelled ht => exact absurd (hv.step ▸ ht) hne.2
  | childSent _ _ _ hlog =>
    refine cellMove_insert (fun hid => ?_) rfl
    subst hid
    exact absurd (published_request hlog (silent_saves [])) (hno.not_own h.runID)
  | @result res childID old child retry env _ hold _ htk =>
    refine cellMove_insert (fun hid => ?_) (withResult_children _ _ _)
    subst hid
    have hit : itemOf base idx (t.run.entry base) = old := by rw [itemOf, hold, Option.getD_some]
    rw [hit]
    exact cellMove_takeResult htk
  | @sibling childID child now _ _ _ hold hop =>
    refine cellMove_insert (fun hid => ?_) rfl
    subst hid
    have hit : itemOf base idx (t.run.entry base) = child := by rw [itemOf, hold, Option.getD_some]
    rw [hit]
    exact .ends rfl rfl
  | @ended change hchg =>
    unfold itemOf
    rw [lookup_endStepRun]
    cases (t.run.entry base).children.lookup (childIDFor base idx) with
    | none => exact .same rfl
    | some child =>
      simp only [Option.map_some, Option.getD_some]
      split
      · exact .same rfl
      · refine .ends (hchg child).2.2.1 ?_
        rcases (hchg child).1 with hs | hs <;> rw [hs] <;> rfl

/-- **What a move makes of the entry of an item**, with the request for it. -/
theorem item_move (hmove : Move wf (retryTerms wf) phase t t') (h : ItemKept run₀ base t.run) :
    ItemKept run₀ base t'.run ∧ ∃ attempt,
      CellMove step.maxRetries (itemOf base idx (t.run.entry base)) attempt
        (itemOf base idx (t'.run.entry base)) ∧
        Adds run₀ (childIDFor base idx) attempt (published t.log) (published t'.log) := by
  refine ⟨⟨hmove.runID.trans h.runID,
    (owned_base hplain hdef hf hunmanaged).mirrored h.mirrored hmove⟩, ?_⟩
  rcases hmove.requests h.runID (childIDFor base idx) with hno | ⟨v, status, undo, sr', hid, hv, -⟩ |
    ⟨v, child, input, hv, hs, hrun, hadd⟩
  · exact ⟨none, item_cellMove hplain hdef hf hunmanaged hmove h hno, hno⟩
  · exact absurd hid (item_ne hplain (by rw [hv.step]; rfl))
  · obtain ⟨rfl, hch, hfr⟩ := hs.ofItem hplain hdef hf hv
    have hse : itemOf v.stepID idx (t'.run.entry v.stepID) =
        sentChild v.now t.run (childIDFor v.stepID idx) input child := by
      rw [hrun, Tick.entry_putBoth]
      exact itemOf_insert rfl
    subst hch
    rw [hse]
    exact ⟨_, .sent hfr rfl rfl, hadd⟩

/-- The entry of an item. -/
def itemCell (idx : ℕ) : Cell wf (retryTerms wf) run₀ (childIDFor base idx) step.maxRetries where
  of run := itemOf base idx (run.entry base)
  kept := ItemKept run₀ base
  move hmove h _ _ := item_move hplain hdef hf hunmanaged hmove h
  result := by
    intro env res run t₀ htaken _ hstatus
    cases htaken with
    | own hid => exact absurd bracket_childIDFor hid
    | @child base' child retry hsplit hkey htake =>
      rw [split_childIDFor (hplain.step (by rw [hdef]; rfl)) idx, Prod.mk.injEq] at hsplit
      obtain ⟨rfl, -⟩ := hsplit
      unfold withChildResult
      rw [Tick.entry_put, itemOf_insert (withResult_children _ _ _)]
      exact ended_takeResult htake hstatus

omit hunmanaged in
/-- An item that is never dispatched. -/
def managedCell (hmanaged : wf.Managed base) (idx : ℕ) :
    Cell wf (retryTerms wf) run₀ (childIDFor base idx) step.maxRetries where
  of _ := {}
  kept run := run.id = run₀.id
  move hmove h _ _ := by
    refine ⟨hmove.runID.trans h, none, .same rfl, ?_⟩
    rcases hmove.requests h (childIDFor base idx) with hnone | ⟨v, status, undo, sr', hid, hv, -⟩ | ⟨v,
      child, input, hv, hs, -⟩
    · exact hnone
    · exact absurd hid (item_ne hplain (by rw [hv.step]; rfl))
    · exact absurd ((hs.ofItem hplain hdef hf hv).1 ▸ hmanaged) hv.unmanaged
  result := by
    intro env res run t₀ _ hT _
    have hsplit := split_childIDFor (hplain.step (by rw [hdef]; rfl)) idx
    exact absurd hmanaged (hT.2 base hsplit).1

end

/-! ## Runs -/

theorem Meets.split (h : Meets wf T run (ops₁ ++ ops₂)) :
    Meets wf T run ops₁ ∧ Meets wf T (persisted run (history run ops₁)) ops₂ := by
  induction ops₁ generalizing run with
  | nil => exact ⟨trivial, h⟩
  | cons op ops ih =>
    obtain ⟨hop, hrs⟩ := h
    obtain ⟨h1, h2⟩ := ih hrs
    refine ⟨⟨hop, h1⟩, ?_⟩
    rw [history, persisted_append]
    exact h2

/-- Nothing is requested for a step after a result that denies it or is fatal. -/
def StopsAfter (wf : Workflow) (run : WorkflowRun) (id : String) (ops : List RunOp) : Prop :=
  ∀ ops₁ env res ops₂, ops = ops₁ ++ .result env res :: ops₂ →
    TakenAt wf env res (persisted run (history run ops₁)) id →
    res.status = .denied ∨ res.status = .failedFatal →
    ∀ n, jobIDFor run id n ∉
    published (history (persisted run (history run ops₁)) (.result env res :: ops₂))

theorem Cell.retries {m : ℤ} (cell : Cell wf T run id m) (hT : T.stored) (hm : 0 ≤ m)
    (hkp : cell.kept run) (hatt : (cell.of run).attempts = 0) (hmts : Meets wf T run ops) :
    RetryBudget m run id (history run ops) ∧ StopsAfter wf run id ops := by
  refine ⟨(cell.budgeted hT (reached_history hmts) hkp hatt hm).2.budget hm, ?_⟩
  rintro ops₁ env res ops₂ rfl htk hst
  obtain ⟨h1, h2⟩ := hmts.split
  obtain ⟨hkp', hbud⟩ := cell.budgeted hT (reached_history h1) hkp hatt hm
  exact Cell.none_after hT hkp' hbud h2 htk hst

/-- **The retry budget holds**, in every run whose approvals have no retries. -/
theorem retry_budget (hplain : wf.Plain)
    (hlists : ∀ base step, wf.step base = some step → step.type = .parallel → step.forEach = "")
    {run : WorkflowRun}
    (hcreated : run.steps = ∅) {ops : List RunOp} (hmeets : Meets wf (retryTerms wf) run ops)
    {id : String} {m : ℤ}
    (hid : Dispatched wf id m) : RetryBudget m run id (history run ops) ∧ StopsAfter wf run id ops := by
  have hent := entry_of_created hcreated
  have hno : ∀ base id, (run.entry base).children.lookup id = none := by
    intro base id
    rw [hent]
    exact AList.lookup_empty id
  cases hid with
  | @step id step hdef hkind =>
    refine (stepCell hplain hdef hkind hlists).retries trivial step.maxRetries_nonneg
      ⟨rfl, ?_, ?_⟩ ?_ hmeets
    · rw [hent]
      exact nofun
    · intro base hso
      rw [hno] at hso
      cases hso
    · change (run.entry id).attempts = 0
      rw [hent]
  | @item base step hdef hf idx =>
    by_cases hman : wf.Managed base
    · exact (managedCell hplain hdef hf hman idx).retries trivial step.maxRetries_nonneg rfl rfl hmeets
    refine (itemCell hplain hdef hf hman idx).retries trivial step.maxRetries_nonneg
      ⟨rfl, Mirrored.created base hcreated⟩ ?_ hmeets
    change (itemOf base idx (run.entry base)).attempts = 0
    rw [itemOf, hno]
    rfl

/-- A step with one retry. -/
def triedTwice (type : StepType) : Workflow where
  steps := ([⟨"x", some { id := "x", type, retry := some { maxRetries := 1 } }⟩] : List
    (Sigma fun _ : String => _)).toAList

/-- The context of the job can be stored. -/
def contextStored : String → StepEnv := fun _ => { dispatch := { contextPtr := .ok "context" } }

/-- A start of its run. -/
def tried (type : StepType) (seconds : ℤ) : RunOp :=
  .started (triedTwice type) (seconds * 1000000000) contextStored

/-- A result for its job. -/
def triedResult (type : StepType) (jobID : String) (status : JobStatus) (seconds : ℤ) : RunOp :=
  .resulted (triedTwice type) (seconds * 1000000000) contextStored { jobID, status }

/-- A job that fails and is then denied is requested twice. -/
theorem retry_budget_denied :
    let run : WorkflowRun := { id := "run" }
    let ops := [tried .worker 0, triedResult .worker "run:x@1" .failed 60, tried .worker 120]
    let denied := triedResult .worker "run:x@2" .denied 180
    published (history run (ops ++ [denied])) = ["run:x@1", "run:x@2"] ∧
    RetryBudget 1 run "x" (history run (ops ++ [denied])) ∧
      ∀ n, jobIDFor run "x" n ∉ published (history (persisted run (history run ops)) [denied]) := by
  have hdef : (triedTwice .worker).step "x" =
      some { id := "x", type := .worker, retry := some { maxRetries := 1 } } := rfl
  have hst : ∀ id step, (triedTwice .worker).step id = some step →
      id = "x" ∧ step.type = .worker ∧ step.forEach = "" := by
    intro id step hst
    have hid : id ∈ ["x"] := Workflow.mem_ids_of_step hst
    rw [mem_singleton] at hid
    subst hid
    cases hst
    exact ⟨rfl, rfl, rfl⟩
  have hsts : ∀ now, StepsMeet (triedTwice .worker)
      (retryTerms (triedTwice .worker)) now contextStored := by
    intro now
    refine ⟨fun id step hid => ⟨?_, fun ht => ?_, ?_⟩, fun _ => nofun⟩
    · rintro cfg ⟨⟩
      exact ⟨not_mem_nil, nodup_nil⟩
    · exact absurd ((hst id step hid).2.1.symm.trans ht) nofun
    · rintro cfg ⟨⟩ id hmem
      exact absurd hmem not_mem_nil
  have hsep : (triedTwice .worker).Separate "x" := by
    rintro step ⟨⟩ (hp | hp) <;> cases hp
  have hres : ∀ run res, (retryTerms (triedTwice .worker)).result run "x" res := by
    refine fun run res => ⟨hsep, fun base hsp => ?_⟩
    rw [Prod.mk.injEq] at hsp
    exact absurd hsp.2 (by decide)
  have hid₁ : (splitJobID "run:x@1").2 = "x" := by decide +kernel
  have hid₂ : (splitJobID "run:x@2").2 = "x" := by decide +kernel
  intro run ops denied
  have hmts : Meets (triedTwice .worker) (retryTerms (triedTwice .worker)) run (ops ++ [denied]) :=
    ⟨meets_started (hsts _), meets_resulted (hsts _) (hid₁.symm ▸ hres _ _), meets_started (hsts _),
      meets_resulted (hsts _) (hid₂.symm ▸ hres _ _), trivial⟩
  obtain ⟨hbud, hstp⟩ :=
    retry_budget (by decide +kernel) (fun base step hbs _ => (hst base step hbs).2.2) rfl
    hmts (.step hdef hsep)
  refine ⟨by decide +kernel, hbud, hstp ops _ _ [] rfl ?_ (.inl rfl)⟩
  exact
    { runID := by decide +kernel
      stepID := hid₂
      named := by decide
      getRun := rfl
      identity := rfl
      workflow := rfl
      open_ := by decide +kernel
      deadline := by decide +kernel
      takes := by decide +kernel }

/-- An approval is requested a third time, and always under the same identifier. -/
theorem approval_requested_again :
    let failed := triedResult .approval "run:x@1" .failed
    published (history { id := "run" } [tried .approval 0, failed 60, failed 120]) =
    ["run:x@1", "run:x@1", "run:x@1"] := by
  decide +kernel

end Cordum.Flow
