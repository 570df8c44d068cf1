import Cordum.Workflow.Moves

/-!
# What a run comes to

An operation handles its cause, stores the run, and then schedules; the next one begins with the run
that is stored. A history is such a sequence of episodes, and what every move keeps holds of every
version of the run that is stored.
-/

namespace Cordum.Flow

open Relation WorkflowRun Tick List GoString Effect Option OpEnv

variable {res : JobResult} {log post : List Effect} {env : ReconcileEnv}
  {base id j stepID childID id' j' : String}
  {run loaded run' r : WorkflowRun} {wf : Workflow} {T : Terms} {phase : Phase} {t t' t0 : Tick}
  {child child' : ChildRun}
  {s : StepRun × Tick} {sr sr' : StepRun} {undo n n' now : ℤ} {retry : Option ℤ} {ids : List String}

/-! ## Handling a result -/

/-- What `applyResult` makes of an entry. -/
structure Applied (step : Option Step) (res : JobResult) (child child' : ChildRun)
    (retry : Option ℤ) : Prop where
  jobID : child'.jobID = child.jobID
  hash : child'.auditHash = child.auditHash
  attempts : child'.attempts = child.attempts
  input : child'.errorInput = child.errorInput
  denied : child'.status = .denied → res.status = .denied
  /-- The entry has ended, or is to be tried again. -/
  status : isTerminalStepStatus child'.status ∧ retry = none ∨
    child'.status = .pending ∧ child'.nextAttemptAt.isSome ∧ shouldRetry step child ∧
      (res.status = .timeout ∨ res.status = .failed ∨ res.status = .failedRetryable)

theorem applied_applyResult (now : ℤ) (step : Option Step) (res : JobResult) (child : ChildRun) :
    Applied step res child (applyResult now step res child).1 (applyResult now step res child).2 := by
  unfold applyResult
  dsimp only
  split
  · exact ⟨rfl, rfl, rfl, rfl, nofun, .inl ⟨rfl, rfl⟩⟩
  · rename_i hst
    exact ⟨rfl, rfl, rfl, rfl, fun _ => hst, .inl ⟨rfl, rfl⟩⟩
  all_goals first
    | exact ⟨rfl, rfl, rfl, rfl, nofun, .inl ⟨rfl, rfl⟩⟩
    | split
      · rename_i hst hret
        exact ⟨rfl, rfl, rfl, rfl, nofun, .inr ⟨rfl, rfl, hret, by simp [hst]⟩⟩
      · exact ⟨rfl, rfl, rfl, rfl, nofun, .inl ⟨rfl, rfl⟩⟩

/-- A result that is taken. -/
structure Taken (step : Option Step) (res : JobResult) (child child' : ChildRun)
    (retry : Option ℤ) : Prop where
  accepted : child.jobID = "" ∨ child.jobID = res.jobID
  open_ : isTerminalStepStatus child.status = false
  unretried : ¬ (child.status = .pending ∧ child.nextAttemptAt.isSome)
  applied : Applied step res
    { child with jobID := res.jobID, attempts := max child.attempts (parseAttempt res.jobID) } child' retry

theorem taken_takeResult {env : OpEnv wf} {step : Option Step}
    (h : takeResult env step res child = some (child', retry)) : Taken step res child child' retry := by
  unfold takeResult at h
  split at h
  · cases h
  rename_i hac
  dsimp only at h
  split at h
  · cases h
  rename_i hign
  rw [shouldIgnoreProcessedResult, Bool.or_eq_true, not_or, Bool.and_eq_true] at hign
  have hop : isTerminalStepStatus child.status = false := Bool.eq_false_iff.2 hign.1
  have hacc : child.jobID = "" ∨ child.jobID = res.jobID := by
    by_contra hne
    rw [not_or] at hne
    exact hac hne
  have hunr : ¬ (child.status = .pending ∧ child.nextAttemptAt.isSome) :=
    fun hp => hign.2 ⟨decide_eq_true hp.1, hp.2⟩
  set child1 : ChildRun :=
      { child with jobID := res.jobID, attempts := max child.attempts (parseAttempt res.jobID) }
  have happ := applied_applyResult env.now step res child1
  split at h
  · split at h
    · -- the output of a job that succeeded is rejected
      rename_i hrej
      obtain ⟨rfl, rfl⟩ := h
      have hret : (applyResult env.now step res child1).2 = none := by
        rw [Bool.and_eq_true, Bool.and_eq_true] at hrej
        exact isNone_iff_eq_none.1 hrej.1.1
      exact ⟨hacc, hop, hunr, happ.jobID, happ.hash, happ.attempts, happ.input, nofun,
        .inl ⟨rfl, hret⟩⟩
    · obtain ⟨rfl, rfl⟩ := h
      exact ⟨hacc, hop, hunr, happ⟩
  · obtain ⟨rfl, rfl⟩ := h
    exact ⟨hacc, hop, hunr, happ⟩

theorem moves_retryTimer (h : Moves wf T phase t t') : Moves wf T phase t (t'.retryTimer now retry) := by
  cases retry with
  | none => exact h
  | some delay =>
    rw [retryTimer, Tick.scheduleAfter]
    split
    · exact h
    · exact h.tail (.other rfl)

@[simp] theorem retryTimer_run : (t.retryTimer now retry).run = t.run := by
  cases retry with
  | none => rfl
  | some delay => exact scheduleAfter_run

theorem stepResult_cases (env : OpEnv wf) (h : stepResult env stepID res t = some t') :
    ∃ child retry, takeResult env (wf.step stepID) res (t.entry stepID).toChildRun = some (child, retry) ∧
      Moves wf T .handling (t.put stepID { t.entry stepID with toChildRun := child }) t' ∧
      t'.run.status = t.run.status := by
  unfold stepResult at h
  dsimp only at h
  split at h
  · cases h
  rename_i child retry htk
  rw [some.injEq] at h
  subst h
  refine ⟨child, retry, htk, ?_⟩
  rw [retryTimer_run]
  split
  · rename_i herr
    rw [Bool.and_eq_true] at herr
    refine ⟨moves_retryTimer (.single (.activated stepID ?_)), activateOnErrorHandler_status _ _ _⟩
    rw [Tick.entry, entry_put]
    exact herr.2
  · exact ⟨moves_retryTimer .refl, rfl⟩

theorem moves_cancelForEachSiblings (env : OpEnv wf) {step : Step} (hsp : wf.step base = some step)
    (hf : step.forEach ≠ "") (hs : erring s.1.status) :
    let s' := cancelForEachSiblings env s
    Moves wf T .handling (s.2.put base s.1) (s'.2.put base s'.1) ∧ s'.2.run.status = s.2.run.status := by
  have hl : ∀ e ∈ s.1.children.entries, s.1.children.lookup e.1 = some e.2 :=
    fun e he => AList.mem_lookup_iff.2 he
  have hnd := s.1.children.nodupKeys
  unfold cancelForEachSiblings
  -- along the entries that are left, which are the parent's still
  generalize s.1.children.entries = l at hl hnd
  induction l generalizing s with
  | nil => exact ⟨.refl, rfl⟩
  | cons e l ih =>
    obtain ⟨hnew, hnd'⟩ := nodupKeys_cons.1 hnd
    have hl' : ∀ e' ∈ l, s.1.children.lookup e'.1 = some e'.2 := fun e' h => hl e' (mem_cons_of_mem _ h)
    simp only [foldl_cons]
    split
    · exact ih hs hl' hnd'
    rename_i hch
    set t1 := if e.2.jobID ≠ "" ∧ env.cancelled e.2.jobID then s.2.emit (.cancelJob e.2.jobID)
      else s.2 with ht1
    have hcan : Moves wf T .handling (s.2.put base s.1) (t1.put base s.1) ∧ t1.run = s.2.run := by
      rw [ht1]
      split
      · exact ⟨.single (.other rfl), rfl⟩
      · exact ⟨.refl, rfl⟩
    set child' : ChildRun :=
      { e.2 with
        status := .cancelled
        completedAt := some env.now
        error := some (e.2.error.getD { message := "cancelled: forEach sibling failed" }) }
    have hmv : Move wf T .handling (t1.put base s.1)
        ((putChild e.1 child' s.1 t1).2.put base (putChild e.1 child' s.1 t1).1) := by
      have h : Move wf T .handling (t1.put base s.1) ((t1.put base s.1).putBoth base e.1 child') :=
        .sibling env hsp hf (by rwa [Tick.entry, entry_put])
          (by rw [Tick.entry, entry_put]; exact hl e mem_cons_self) (Bool.eq_false_iff.2 hch)
      rw [putBoth_put] at h
      exact h
    have hl'' : ∀ e' ∈ l, (putChild e.1 child' s.1 t1).1.children.lookup e'.1 = some e'.2 := by
      intro e' he'
      have hne : e'.1 ≠ e.1 := ne_of_mem_of_not_mem (mem_keys_of_mem he') hnew
      exact (AList.lookup_insert_ne hne).trans (hl' e' he')
    obtain ⟨hrs, hrun⟩ := ih (s := putChild e.1 child' s.1 t1) hs hl'' hnd'
    refine ⟨(hcan.1.tail hmv).trans hrs, hrun.trans ?_⟩
    change t1.run.status = s.2.run.status
    rw [hcan.2]

/-- The step has a child for each of its items. -/
def overItems : Option Step → Bool
  | some step => step.forEach ≠ ""
  | none => false

/-- A parent after the result of a child, with siblings cancelled. -/
def afterResult (env : OpEnv wf) (base childID : String) (child : ChildRun) (t : Tick) : StepRun × Tick :=
  let parent := withResult (wf.step base) env.now
    { t.entry base with children := (t.entry base).children.insert childID child }
  let s := (parent, t.put childID child.toStepRun)
  if erring parent.status && overItems (wf.step base) then cancelForEachSiblings env s else s

theorem childResult_eq {env : OpEnv wf} :
    childResult env base childID res t =
      match takeResult env (wf.step base) res (t.run.childEntry base childID) with
      | none => none
      | some (child, retry) => let s := afterResult env base childID child t
        some ((if erring s.1.status then
          { s.2.put base s.1 with run := activateOnErrorHandler wf (s.2.put base s.1).run base }
          else s.2.put base s.1).retryTimer env.now retry) := rfl

/-- The run with the result of a child, in both places. -/
def withChildResult (env : OpEnv wf) (base childID : String) (child : ChildRun) (t : Tick) : Tick :=
  (t.put childID child.toStepRun).put base
    (withResult (wf.step base) env.now
      { t.entry base with children := (t.entry base).children.insert childID child })

theorem moves_afterResult (env : OpEnv wf) (base childID : String) (child : ChildRun) :
    let s := afterResult env base childID child t
    Moves wf T .handling (withChildResult env base childID child t) (s.2.put base s.1) ∧
    s.2.run.status = t.run.status := by
  unfold afterResult withChildResult
  dsimp only
  split
  · rename_i hcd
    obtain ⟨herr, hfn⟩ := Bool.and_eq_true_iff.1 hcd
    cases hsp : wf.step base with
    | none => rw [hsp] at hfn; cases hfn
    | some step =>
      rw [hsp] at hfn herr
      exact moves_cancelForEachSiblings env hsp (of_decide_eq_true hfn)
        (s := (_, t.put childID child.toStepRun)) herr
  · exact ⟨.refl, rfl⟩

theorem childResult_cases (env : OpEnv wf) (h : childResult env base childID res t = some t') :
    ∃ child retry, takeResult env (wf.step base) res (t.run.childEntry base childID) =
      some (child, retry) ∧ Moves wf T .handling (withChildResult env base childID child t) t' ∧
      t'.run.status = t.run.status := by
  rw [childResult_eq] at h
  split at h
  · cases h
  rename_i child retry htk
  rw [some.injEq] at h
  subst h
  obtain ⟨hmvs, hrun⟩ := moves_afterResult (t := t) env base childID child
  rw [retryTimer_run]
  refine ⟨child, retry, htk, moves_retryTimer ?_, ?_⟩
  · split
    · rename_i herr
      refine hmvs.tail (.activated base ?_)
      rw [Tick.entry, entry_put]
      exact herr
    · exact hmvs
  · split
    · exact (activateOnErrorHandler_status _ _ _).trans hrun
    · exact hrun

/-- What an operation makes of a result, if it takes it. -/
def OpEnv.takes (env : OpEnv wf) (stepID : String) (res : JobResult) (run : WorkflowRun) : Option Tick :=
  if (splitForEachStep stepID).2 ≠ "" then childResult env (splitForEachStep stepID).1 stepID res { run }
  else stepResult env stepID res { run }

/-- The run counted and stored, with whether it is. -/
def OpEnv.stores (env : OpEnv wf) (t : Tick) : Tick × Bool :=
  let (t, saved) := { t with run := updateRunStatus env.status env.now t.run }.save env.save
  if saved || env.stopped then (t, saved) else t.save env.saveAgain

/-- A decision on a step that waits. -/
def OpEnv.decides (env : OpEnv wf) (stepID : String) (approved : Bool) (sr : StepRun)
    (run : WorkflowRun) : Tick :=
  let t := ({ run } : Tick).put stepID
    { sr with status := if approved then .succeeded else .failed, completedAt := some env.now }
  if approved then t else { t with run := activateOnErrorHandler wf t.run stepID }

/-- The run counted and stored once, with whether it is. -/
def OpEnv.storesOnce (env : OpEnv wf) (t : Tick) : Tick × Bool :=
  { t with run := updateRunStatus env.status env.now t.run }.save env.save

/-- A run with the result of a job. -/
inductive TakenFirst (env : OpEnv wf) (stepID : String) (res : JobResult) (run : WorkflowRun) : Tick → Prop
  | own {child : ChildRun} {retry : Option ℤ} (hid : '[' ∉ stepID.toList)
    (h : takeResult env (wf.step stepID) res (run.entry stepID).toChildRun = some (child, retry)) :
    TakenFirst env stepID res run
      (({ run } : Tick).put stepID { run.entry stepID with toChildRun := child })
  | child {base : String} {child : ChildRun} {retry : Option ℤ}
      (hid : splitForEachStep stepID = (base, stepID)) (hkey : stepID ≠ "")
      (h : takeResult env (wf.step base) res (run.childEntry base stepID) = some (child, retry)) :
    TakenFirst env stepID res run (withChildResult env base stepID child { run })

theorem splitForEachStep_of_key (h : (splitForEachStep stepID).2 ≠ "") :
    splitForEachStep stepID = ((splitForEachStep stepID).1, stepID) ∧ stepID ≠ "" := by
  unfold splitForEachStep at h ⊢
  split at h
  · exact absurd rfl h
  · exact ⟨rfl, h⟩

/-- The parent of a child, by its identifier. -/
theorem split_append {base rest : List Char} (h : '[' ∉ base) (id : String)
    (hid : id.toList = base ++ '[' :: rest) :
    splitForEachStep id = (String.ofList base, id) := by
  rw [splitForEachStep, indexByte_of_toList hid h]
  simp [hid]

theorem split_cases (id : String) : '[' ∉ id.toList ∧ splitForEachStep id = (id, "") ∨
    ∃ base, '[' ∉ base.toList ∧ '[' ∈ id.toList ∧ splitForEachStep id = (base, id) := by
  by_cases hmem : '[' ∈ id.toList
  · obtain ⟨base, rest, hid, hbs⟩ := eq_append_cons_of_mem hmem
    exact .inr ⟨.ofList base, by rwa [String.toList_ofList], hmem, split_append hbs id hid⟩
  · have hno : indexByte id '[' = none :=
      findIdx?_eq_none_iff.2 fun c hc => beq_false_of_ne (ne_of_mem_of_not_mem hc hmem)
    exact .inl ⟨hmem, by rw [splitForEachStep, hno]⟩

theorem notMem_of_key (h : ¬ (splitForEachStep stepID).2 ≠ "") (hid : stepID ≠ "") :
    '[' ∉ stepID.toList := by
  rcases split_cases stepID with ⟨hmem, -⟩ | ⟨base, -, -, hsp⟩
  · exact hmem
  · rw [hsp] at h
    exact absurd hid h

theorem TakenFirst.move {env : OpEnv wf} (h : TakenFirst env stepID res run t)
    (hT : T.result run stepID res) (hop : run.IsOpen) : Move wf T .handling { run } t := by
  cases h with
  | own hid htk => exact .result env hid hT hop htk
  | child hid hkey htk => exact .childResult env hid hkey hT hop htk

/-- **The result that is taken comes first.** -/
theorem takes_first (env : OpEnv wf) (hid : stepID ≠ "") (h : env.takes stepID res run = some t) :
    ∃ t0, TakenFirst env stepID res run t0 ∧ Moves wf T .handling t0 t ∧ t.run.status = run.status := by
  unfold takes at h
  split at h
  · rename_i hkey
    obtain ⟨hsp, hne⟩ := splitForEachStep_of_key hkey
    obtain ⟨child, retry, htk, hmvs, hst⟩ := childResult_cases env h
    exact ⟨_, .child hsp hne htk, hmvs, hst⟩
  · rename_i hkey
    obtain ⟨child, retry, htk, hmvs, hst⟩ := stepResult_cases env h
    exact ⟨_, .own (notMem_of_key hkey hid) htk, hmvs, hst⟩

/-- An operation changes the run, and goes on from the run stored then. -/
inductive Episode (wf : Workflow) (T : Terms) (run : WorkflowRun) : Tick → Prop
  | handled {t : Tick} (h : Moves wf T .handling { run } t) : Episode wf T run t
  | scheduled {t₁ t : Tick} (h : Moves wf T .handling { run } t₁) (hstored : Stored run t₁)
    (h' : Moves wf T .scheduling t₁ t) : Episode wf T run t

/-- The handling of a result finds what is asked for. -/
structure OpEnv.AdvanceMeets (T : Terms) (env : OpEnv wf) (stepID : String)
    (res : JobResult) (run : WorkflowRun) :
    Prop where
  result : ∀ t, env.takes stepID res run = some t → T.result run stepID res
  schedule : ∀ t, env.takes stepID res run = some t → env.schedule.Meets T (env.stores t).1
  stored : T.stored → env.save = .ok ∧ env.timeoutSave = .ok

theorem advance_eq {env : OpEnv wf} :
    advance env stepID res run =
      if pastDeadline wf run env.now then timeoutRun wf env.now env.timeoutSave env.cancelled { run } else
        match env.takes stepID res run with
        | none => { run }
        | some t =>
          if (env.stores t).2 && (env.stores t).1.run.status = .running
          then scheduleReady env.schedule (env.stores t).1
          else (env.stores t).1 := rfl

theorem episode_scheduleReady {env : ScheduleEnv wf} {s : Tick × Bool}
    (hmvs : Moves wf T .handling { run } s.1)
    (hs : s.2 → Stored run s.1) (hsvd : T.stored → s.2) (henv : env.Meets T s.1) :
    let t := if s.2 && s.1.run.status = .running then scheduleReady env s.1 else s.1
    Episode wf T run t ∧ (T.stored → Stored run t) := by
  split
  · rename_i hcd
    have hsto := hs (Bool.and_eq_true_iff.1 hcd).1
    obtain ⟨hsch, hls⟩ := moves_scheduleReady henv
    exact ⟨.scheduled hmvs hsto hsch, fun h => hls run h fun _ => hsto⟩
  · exact ⟨.handled hmvs, fun h => hs (hsvd h)⟩

/-- Counting and storing the run; it may be saved twice. -/
theorem moves_stores (env : OpEnv wf) (h : Moves wf T .handling t0 t) (hop : t.run.IsOpen) :
    Moves wf T .handling t0 (env.stores t).1 ∧ ∀ run, (env.stores t).2 → Stored run (env.stores t).1 := by
  have hcou : Moves wf T .handling t0 { t with run := updateRunStatus env.status env.now t.run } :=
    h.tail (.counted env.status env.now hop)
  unfold stores
  dsimp only
  split
  · exact ⟨moves_save hcou _, stored_save⟩
  · exact ⟨moves_save (moves_save hcou _) _, stored_save⟩

theorem episode_advance {env : OpEnv wf} (hid : stepID ≠ "") (hop : run.IsOpen)
    (h : env.AdvanceMeets T stepID res run) :
    Episode wf T run (advance env stepID res run) ∧
      (T.stored → Stored run (advance env stepID res run)) := by
  rw [advance_eq]
  split
  · have htim : Moves wf T .handling { run }
        (timeoutRun wf env.now env.timeoutSave env.cancelled { run }) ∧ _ :=
      moves_timeoutRun
    exact ⟨.handled htim.1, fun hst => htim.2 run (h.stored hst).2⟩
  split
  · exact ⟨.handled .refl, fun _ => rfl⟩
  rename_i t ht
  obtain ⟨t0, hfst, hmvs, hsta⟩ := takes_first env hid ht
  have hsv := moves_stores env (.head (hfst.move (h.result t ht) hop) hmvs)
    (by rw [WorkflowRun.IsOpen, hsta]; exact hop)
  refine episode_scheduleReady hsv.1 (hsv.2 run) (fun hst => ?_) (h.schedule t ht)
  unfold stores
  rw [(h.stored hst).1]
  rfl

/-- An operation that takes a result takes it first, and then goes on. -/
theorem advance_taken {env : OpEnv wf} (hid : stepID ≠ "") (hop : run.IsOpen)
    (h : env.AdvanceMeets T stepID res run) (hdl : pastDeadline wf run env.now = false)
    (ht : env.takes stepID res run = some t) :
    ∃ t0 t1, TakenFirst env stepID res run t0 ∧ Move wf T .handling { run } t0 ∧
      Moves wf T .handling t0 t1 ∧ Moves wf T .scheduling t1 (advance env stepID res run) := by
  obtain ⟨t0, htk, hmvs, hst⟩ := takes_first env hid ht
  obtain ⟨hsv, -⟩ := moves_stores env hmvs (by rw [WorkflowRun.IsOpen, hst]; exact hop)
  refine ⟨t0, (env.stores t).1, htk, htk.move (h.result t ht) hop, hsv, ?_⟩
  rw [advance_eq, hdl, if_neg Bool.false_ne_true, ht]
  dsimp only
  split
  · exact (moves_scheduleReady (h.schedule t ht)).1
  · exact .refl

/-- A decision finds what is asked for. -/
structure OpEnv.ApproveMeets (T : Terms) (env : OpEnv wf) (stepID : String)
    (approved : Bool) (run : WorkflowRun) :
    Prop where
  schedule : ∀ sr, run.step stepID = some sr → sr.status = .waiting →
    env.schedule.Meets T (env.storesOnce (env.decides stepID approved sr run)).1
  stored : T.stored → env.save = .ok ∧ env.timeoutSave = .ok

theorem episode_approveWith {env : OpEnv wf} {approved : Bool}
    (h : env.ApproveMeets T stepID approved run) :
    Episode wf T run (approveWith env stepID approved run) ∧
      (T.stored → Stored run (approveWith env stepID approved run)) := by
  have hnot : Episode wf T run { run } ∧ (T.stored → Stored run { run }) := ⟨.handled .refl, fun _ => rfl⟩
  unfold approveWith
  split
  · have htim : Moves wf T .handling { run }
        (timeoutRun wf env.now env.timeoutSave env.cancelled { run }) ∧ _ :=
      moves_timeoutRun
    exact ⟨.handled htim.1, fun hst => htim.2 run (h.stored hst).2⟩
  split
  · exact hnot
  rename_i htm
  have hop : run.IsOpen := Bool.eq_false_iff.2 htm
  split
  · exact hnot
  rename_i sr hsr
  split
  · exact hnot
  rename_i hwt
  have hwt := not_not.1 hwt
  have hmvs : Moves wf T .handling { run } (env.decides stepID approved sr run) ∧
      (env.decides stepID approved sr run).run.status = run.status := by
    have hput : ∀ approved : Bool, Moves wf T .handling { run } (({ run } : Tick).put stepID
        { sr with status := if approved then .succeeded else .failed, completedAt := some env.now }) :=
      fun approved => .single (.decided approved env.now hop hsr hwt)
    cases approved with
    | true => exact ⟨hput true, rfl⟩
    | false =>
      refine ⟨(hput false).tail (.activated stepID ?_), activateOnErrorHandler_status _ _ _⟩
      rw [Tick.entry, entry_put]
      rfl
  have hcou := hmvs.1.tail (.counted env.status env.now (by rw [hmvs.2]; exact hop))
  refine episode_scheduleReady (s := env.storesOnce (env.decides stepID approved sr run))
    (moves_save hcou _) (stored_save run) (fun hst => ?_) (h.schedule sr hsr hwt)
  unfold storesOnce
  rw [(h.stored hst).1]
  rfl

/-! ## Histories -/

/-- The definition is loaded, or cannot be read. -/
def Loads (wf : Workflow) (o : Except GetErr Workflow) : Prop := ∀ wf', o = .ok wf' → wf' = wf

/-- `HandleJobResult` finds what is asked for. -/
structure ResultEnv.Meets (wf : Workflow) (T : Terms) (env : ResultEnv) (res : JobResult)
    (run : WorkflowRun) : Prop where
  loads : Loads wf env.workflow
  advance : isTerminalRunStatus run.status = false →
    (env.op wf).AdvanceMeets T (splitJobID res.jobID).2 res run

/-- `StartRun` finds what is asked for. -/
structure StartEnv.Meets (wf : Workflow) (T : Terms) (env : StartEnv) (run : WorkflowRun) : Prop where
  loads : Loads wf env.workflow
  reloads : Loads wf env.reload
  schedule : isTerminalRunStatus run.status = false → (env.schedule wf).Meets T { run }
  stored : T.stored → env.orphanSave = .ok

/-- What the job of one step comes to. -/
def reconcileJob (env : ReconcileEnv) (loaded : WorkflowRun) (id : String)
    (run : WorkflowRun) : List Effect :=
  match loaded.step id with
  | none => []
  | some sr =>
    if sr.status = .running && sr.jobID ≠ "" then
      match env.job id with
      | none => []
      | some res => handleJobResult (env.result id) res run
    else []

/-- The results the reconciler makes of the jobs of a run are as asked for. -/
def ReconcileEnv.JobsMeet (wf : Workflow) (T : Terms) (env : ReconcileEnv) (loaded : WorkflowRun) :
    List String → WorkflowRun → Prop
  | [], _ => True
  | id :: ids, run =>
    (∀ res, env.job id = some res → (env.result id).Meets wf T res run) ∧
      env.JobsMeet wf T loaded ids (persisted run (reconcileJob env loaded id run))

/-- `reconcileRun` finds what is asked for. -/
structure ReconcileEnv.Meets (wf : Workflow) (T : Terms) (env : ReconcileEnv)
    (run : WorkflowRun) : Prop where
  jobs : env.JobsMeet wf T run (env.order run).1 run
  stuck : T.recovers ∨ stuckSteps env (persisted run (reconcileJobs env run (env.order run).1 run)) = []
  stuckSave : T.stored → env.stuckSave = .ok
  start : ∀ run', run' = persisted (persisted run (reconcileJobs env run (env.order run).1 run))
      (if env.refresh.isSome then []
        else reconcileStuckWaitingSteps env
          (persisted run (reconcileJobs env run (env.order run).1 run))) →
    env.start.Meets wf T run'

/-- An operation finds what is asked for. -/
def RunOp.Meets (wf : Workflow) (T : Terms) (run : WorkflowRun) : RunOp → Prop
  | .result env res => env.Meets wf T res run
  | .start env => env.Meets wf T run
  | .approve env stepID approved => Loads wf env.workflow ∧ (env.op wf).ApproveMeets T stepID approved run
  | .cancel env => Loads wf env.workflow ∧ (T.stored → (env.op wf).save = .ok)
  | .reconcile env => env.Meets wf T run

/-- Every operation finds what is asked for. -/
def Meets (wf : Workflow) (T : Terms) : WorkflowRun → List RunOp → Prop
  | _, [] => True
  | run, op :: ops => op.Meets wf T run ∧ Meets wf T (persisted run (op.log run)) ops

/-- Episodes, one after the other: each begins with the run that is stored. -/
inductive Reached (wf : Workflow) (T : Terms) : WorkflowRun → List Effect → Prop
  | nil {run : WorkflowRun} : Reached wf T run []
  | cons {run : WorkflowRun} {t : Tick} {log : List Effect} (h : Episode wf T run t)
    (hstored : T.stored → Stored run t) (hrest : Reached wf T (persisted run t.log) log) :
    Reached wf T run (t.log ++ log)

theorem Reached.append {l1 l2 : List Effect} (h1 : Reached wf T run l1)
    (h2 : Reached wf T (persisted run l1) l2) :
    Reached wf T run (l1 ++ l2) := by
  induction h1 with
  | nil => exact h2
  | @cons run t log h hsto _ ih =>
    rw [persisted_append] at h2
    rw [append_assoc]
    exact .cons h hsto (ih h2)

theorem reached_episode (h : Episode wf T run t ∧ (T.stored → Stored run t)) : Reached wf T run t.log := by
  have hcn := Reached.cons h.1 h.2 .nil
  rwa [append_nil] at hcn

theorem reached_handleJobResult {env : ResultEnv} (h : env.Meets wf T res run) :
    Reached wf T run (handleJobResult env res run) := by
  unfold handleJobResult
  dsimp only
  split
  · exact .nil
  rename_i hids
  split
  · exact .nil
  rename_i hrun
  split
  · exact .nil
  rename_i wf' hwf'
  obtain rfl := h.loads wf' hwf'
  have hop : run.IsOpen := by
    rw [not_or, not_or] at hrun
    exact Bool.eq_false_iff.2 hrun.2.2
  exact reached_episode (episode_advance (fun hemp => hids (.inr hemp)) hop (h.advance hop))

theorem reached_startWith {env : StartEnv} (h : env.Meets wf T run) :
    Reached wf T run (startWith env wf run) := by
  unfold startWith
  split
  · exact .nil
  rename_i htm
  have hop : run.IsOpen := Bool.eq_false_iff.2 htm
  split
  · exact .nil
  · obtain ⟨hmvs, hsto⟩ := moves_scheduleReady (h.schedule hop)
    exact reached_episode ⟨.scheduled .refl rfl hmvs, fun hst => hsto run hst fun _ => rfl⟩

theorem reached_startRun {env : StartEnv} (h : env.Meets wf T run) :
    Reached wf T run (startRun env run) := by
  unfold startRun
  split
  · exact .nil
  split
  · rename_i wf' hwf'
    obtain rfl := h.loads wf' hwf'
    exact reached_startWith h
  · exact .nil
  · split
    · rename_i wf' hwf'
      obtain rfl := h.reloads wf' hwf'
      exact reached_startWith h
    · exact .nil
    · have hmv : Move wf T .handling { run } { run := orphaned env.now run } := .orphaned env.now
      refine reached_episode ⟨.handled (moves_save (.single hmv) _), fun hst => stored_save run ?_⟩
      rw [h.stored hst]
      rfl

theorem reached_cancelRun {env : LoadEnv} (hloa : Loads wf env.workflow)
    (hsv : T.stored → (env.op wf).save = .ok) :
    Reached wf T run (cancelRun env run) := by
  unfold cancelRun
  split
  · exact .nil
  split
  · exact .nil
  rename_i wf' hwf'
  obtain rfl := hloa wf' hwf'
  dsimp only
  have hend : Move wf' T .handling { run }
      { run := (endRun wf' (env.op wf').now .cancelled (cancelStepRun (env.op wf').now) run).1 } :=
    .ended (env.op wf').now (.inr rfl) (by exact fun _ => ⟨.inr rfl, rfl, rfl, rfl⟩)
      (endRun wf' (env.op wf').now .cancelled (cancelStepRun (env.op wf').now) run).1.error
  have hmvs := moves_save (.single hend) (env.op wf').save
  split
  · rename_i hsvd
    exact reached_episode
      ⟨.handled (moves_cancelJobs hmvs), fun _ => stored_cancelJobs (stored_save run hsvd)⟩
  rename_i huns
  refine reached_episode ⟨.handled hmvs, fun hst => absurd ?_ huns⟩
  rw [hsv hst]
  rfl

theorem moves_recovered (hT : T.recovers) (now : ℤ) (hnd : ids.Nodup)
    (hids : ∀ id ∈ ids, ∃ sr, run.step id = some sr ∧ sr.status = .waiting) :
    Moves wf T .handling { run } { run := ids.foldl (fun run id =>
      match run.step id with
      | none => run
      | some sr => run.setStep id (recovered now sr)) run } := by
  induction ids generalizing run with
  | nil => exact .refl
  | cons id ids ih =>
    obtain ⟨hnew, hnd'⟩ := nodup_cons.1 hnd
    obtain ⟨sr, hsr, hwt⟩ := hids id mem_cons_self
    rw [foldl_cons, hsr]
    refine .head (.recovered now hT hsr hwt) (ih hnd' fun id' hid' => ?_)
    rw [step_setStep_ne _ _ (ne_of_mem_of_not_mem hid' hnew)]
    exact hids id' (mem_cons_of_mem _ hid')

theorem reached_stuck (hT : T.recovers ∨ stuckSteps env run = []) (hsv : T.stored → env.stuckSave = .ok) :
    Reached wf T run (reconcileStuckWaitingSteps env run) := by
  unfold reconcileStuckWaitingSteps
  dsimp only
  split
  · exact .nil
  rename_i hso
  have hrec : T.recovers := hT.resolve_right hso
  have hmvs : Moves wf T .handling { run } _ := moves_recovered hrec env.now
    (nodup_stuckSteps env run) fun id hid => waiting_of_stuck hid
  refine reached_episode ⟨.handled (moves_save hmvs env.stuckSave), fun hst => stored_save run ?_⟩
  rw [hsv hst]
  rfl

theorem reached_reconcileJobs (h : env.JobsMeet wf T loaded ids run) :
    Reached wf T run (reconcileJobs env loaded ids run) := by
  induction ids generalizing run with
  | nil => exact .nil
  | cons id ids ih =>
    have hjob : Reached wf T run (reconcileJob env loaded id run) := by
      unfold reconcileJob
      split
      · exact .nil
      split
      · split
        · exact .nil
        · rename_i res hres
          exact reached_handleJobResult (h.1 res hres)
      · exact .nil
    exact hjob.append (ih h.2)

theorem reached_reconcileRun (h : env.Meets wf T run) : Reached wf T run (reconcileRun env run) := by
  unfold reconcileRun
  split
  · exact .nil
  have hjs := reached_reconcileJobs h.jobs
  have hstu : Reached wf T (persisted run (reconcileJobs env run (env.order run).1 run))
      (if env.refresh.isSome then []
        else reconcileStuckWaitingSteps env
          (persisted run (reconcileJobs env run (env.order run).1 run))) := by
    split
    · exact .nil
    · exact reached_stuck h.stuck h.stuckSave
  refine (hjs.append hstu).append ?_
  rw [persisted_append]
  exact reached_startRun (h.start _ rfl)

theorem RunOp.reached {op : RunOp} (h : op.Meets wf T run) : Reached wf T run (op.log run) := by
  cases op with
  | result env res => exact reached_handleJobResult h
  | start env => exact reached_startRun h
  | approve env stepID approved =>
    obtain ⟨hloa, hmts⟩ := h
    change Reached wf T run (approveStep env stepID approved run)
    unfold approveStep
    split
    · rename_i wf' _ hwf'
      obtain rfl := hloa wf' hwf'
      exact reached_episode (episode_approveWith hmts)
    · exact .nil
  | cancel env => exact reached_cancelRun h.1 h.2
  | reconcile env => exact reached_reconcileRun h

/-- **A history that finds what is asked for is a sequence of episodes.** -/
theorem reached_history {ops : List RunOp} (h : Meets wf T run ops) :
    Reached wf T run (history run ops) := by
  induction ops generalizing run with
  | nil => exact .nil
  | cons op ops ih => exact (RunOp.reached h.1).append (ih h.2)

/-! ## What is published -/

/-- A move that publishes a job. -/
inductive Publishes (wf : Workflow) (T : Terms) (t : Tick) : Tick → String → Prop
  | own {v : Visit} {status : RunStatus} {undo : ℤ} {sr' : StepRun} (hv : Visiting wf v) (hT : T.visit v)
    (hdue : Due v (t.entry v.stepID)) (h : Sending v t (t.entry v.stepID) status undo sr') :
    Publishes wf T t ((((t.withStatus status).put v.stepID sr').emit
      (.save ((t.withStatus status).put v.stepID sr').run)).emit (.submit sr'.jobID)) sr'.jobID
  | child {v : Visit} {id : String} {child : ChildRun} (input : ErrorInput) {dispatched : List String}
    (hv : Visiting wf v) (hT : T.visit v) (hdue : Due v (t.entry v.stepID)) (h : Source v t id child)
    (hnext : inFuture v.now child.nextAttemptAt = false) :
    Publishes wf T t
      { (t.putBoth v.stepID id (sentChild v.now t.run id input child)).emit
        (.submit (jobIDFor t.run id (child.attempts + 1))) with dispatched }
          (jobIDFor t.run id (child.attempts + 1))

/-- The jobs that are published, in their order. -/
def published (log : List Effect) : List String :=
  log.filterMap fun e =>
    match e with
    | .submit jobID => some jobID
    | _ => none

/-- No job is published. -/
def Silent (l : List Effect) : Prop := ∀ j, .submit j ∉ l

theorem silent_saves (rs : List WorkflowRun) : Silent (rs.map .save) := by
  intro j hmem
  obtain ⟨r, -, hr⟩ := mem_map.1 hmem
  cases hr

/-- The step has no job of its own. -/
def Jobless (wf : Workflow) (id : String) : Prop :=
  ∀ step, wf.step id = some step → step.isJob = false ∧ step.type ≠ .approval

theorem Jobless.ne {v : Visit} (h : Jobless wf id) (hv : Visiting wf v) {status : RunStatus}
    (hs : Sending v t sr status undo sr') : id ≠ v.stepID := by
  rintro rfl
  obtain ⟨hjob, happ⟩ := h v.step hv.step
  cases hs with
  | approval ht => exact happ ht
  | job ht =>
    rw [hjob] at ht
    cases ht

/-- What a move adds to the log. -/
structure Logged (wf : Workflow) (T : Terms) (phase : Phase) (t t' : Tick) (new : List Effect) : Prop where
  log : t'.log = t.log ++ new
  /-- The runs that are saved are runs a move passes through. -/
  saves : ∀ r, .save r ∈ new → ∃ t₁, (t₁ = t ∨ Move wf T phase t t₁) ∧ t₁.run = r
  /-- They differ from the run it leaves in the entry of a step with a job. -/
  near : ∀ r, .save r ∈ new → ∀ id, Jobless wf id → r.step id = t'.run.step id
  /-- At most one job is published, at the end. -/
  jobs : Silent new ∨
    ∃ j saves, phase = .scheduling ∧ Publishes wf T t t' j ∧ new = saves ++ [.submit j] ∧ Silent saves

theorem Move.logged (h : Move wf T phase t t') : ∃ new, Logged wf T phase t t' new := by
  have hsm : t'.log = t.log → ∃ new, Logged wf T phase t t' new := by
    intro hlog
    refine ⟨[], ⟨by rw [hlog, append_nil], ?_, ?_, .inl fun _ => not_mem_nil⟩⟩
    · exact fun _ hmem => (not_mem_nil hmem).elim
    · exact fun _ hmem => (not_mem_nil hmem).elim
  have hq : ∀ e : Effect, t' = t.emit e → e.quiet → ∃ new, Logged wf T phase t t' new := by
    rintro e rfl he
    have hno : ∀ e' ∈ [e], e'.quiet := forall_mem_singleton.2 he
    refine ⟨[e], rfl, fun r hmem => ?_, fun r hmem => ?_, .inl fun j hmem => ?_⟩ <;> cases hno _ hmem
  have hmv := h
  cases h with
  | turn hv hT hop h =>
    cases h with
    | own | adopted | child => exact hsm rfl
    | switched _ _ _ _ _ _ _ hlog => exact hsm hlog
    | fanned =>
      refine hsm (createChildren_induction (P := fun s => (held _ s).log = t.log) rfl ?_)
      exact fun _ _ _ hs _ => hs
    | @sent status undo sr' hdue hs =>
      set run1 := ((t.withStatus status).put _ sr').run
      have hsvd : ∀ r, .save r ∈ [save run1, .submit sr'.jobID] → run1 = r := by
        intro r hmem
        rcases mem_cons.1 hmem with heq | hmem
        · rw [save.injEq] at heq
          exact heq.symm
        · rw [mem_singleton] at hmem
          cases hmem
      refine ⟨[.save run1, .submit sr'.jobID],
        ⟨?_, fun r hmem => ⟨_, .inr hmv, hsvd r hmem⟩, fun r hmem id _ => ?_,
        .inr ⟨_, [.save run1], rfl, .own hv hT hdue hs, rfl, silent_saves [run1]⟩⟩⟩
      · unfold emit
        rw [append_assoc]
        rfl
      · rw [← hsvd r hmem]
        rfl
    | unsent hdue hs hsv ht' =>
      refine ⟨_, ⟨by rw [ht'], fun r hmem => ?_, fun r hmem id hid => ?_, .inl (silent_saves _)⟩⟩
      all_goals
        obtain ⟨r', hr', heq⟩ := mem_map.1 hmem
        rw [save.injEq] at heq
        subst heq
        rcases hsv r' hr' with heq | heq
      · -- the run that was stored before the job was to go out
        exact ⟨_, .inr (.turn hv hT hop (.sent hdue hs)), heq.symm⟩
      · exact ⟨_, .inr hmv, by rw [ht', heq]⟩
      · have hne := hid.ne hv hs
        rw [heq, ht']
        exact (step_setStep_ne _ _ hne).trans (step_setStep_ne _ _ hne).symm
      · rw [heq, ht']
    | childSent input hdue hs hnx =>
      refine ⟨[_], ⟨rfl, fun r hmem => ?_, fun r hmem => ?_,
        .inr ⟨_, [], rfl, .child input hv hT hdue hs hnx, rfl, ?_⟩⟩⟩
      · rw [mem_singleton] at hmem
        cases hmem
      · rw [mem_singleton] at hmem
        cases hmem
      · exact fun _ => not_mem_nil
    | other he => exact hq _ rfl he
  | saved =>
    refine ⟨[_], ⟨rfl, fun r hmem => ?_, fun r hmem id _ => ?_, .inl (silent_saves [t.run])⟩⟩
    · rw [mem_singleton, save.injEq] at hmem
      exact ⟨t, .inl rfl, hmem.symm⟩
    · rw [mem_singleton, save.injEq] at hmem
      rw [hmem]
      rfl
  | other he => exact hq _ rfl he
  | _ =>
    exact hsm rfl

/-! ## Identifiers -/

theorem toList_jobIDFor (run : WorkflowRun) (stepID : String) (attempt : ℤ) :
    (jobIDFor run stepID attempt).toList =
      run.id.toList ++ ':' :: (stepID.toList ++ '@' :: (toString attempt).toList) := by
  simp [jobIDFor, toString]

/-- A job is of one step and one attempt. -/
theorem jobIDFor_injective (hrun : run.id = run'.id) (h : jobIDFor run id n = jobIDFor run' id' n') :
    id = id' ∧ n = n' := by
  have hli : (jobIDFor run id n).toList = (jobIDFor run' id' n').toList := by rw [h]
  rw [toList_jobIDFor, toList_jobIDFor, hrun, append_cancel_left_eq, cons.injEq] at hli
  -- the attempt comes after the last separator
  have hat : ∀ n : ℤ, '@' ∉ (toString n).toList.reverse := by
    intro n
    rw [mem_reverse]
    exact notMem_intToString (by decide) (by decide)
  have hrev := congrArg reverse hli.2
  rw [reverse_append, reverse_append, reverse_cons, reverse_cons, append_assoc, append_assoc] at hrev
  obtain ⟨hn, hid⟩ := split_at_first (hat n) (hat n') hrev
  exact ⟨String.toList_inj.1 (reverse_injective hid),
    intToString_injective (String.toList_inj.1 (reverse_injective hn))⟩

theorem updateRunStatus_id {o : StatusOrders wf} : (updateRunStatus o now run).id = run.id := by
  have hsk : ∀ order id r, (skipDependentSteps wf order now r id).id = r.id := by
    intro order id r
    refine Graph.sweep_keeps (P := fun s : WorkflowRun × List String => s.1.id = r.id)
      (fun d a s _ _ hs => ?_) _ _ _ rfl
    rw [← hs]
    change (s.1.skipStep id now a).id = s.1.id
    unfold skipStep
    split <;> rfl
  unfold updateRunStatus
  split
  · rfl
  · rfl
  · refine foldlRecOn (motive := fun s : Tally × WorkflowRun => s.2.id = run.id) o.main.1
      (countStep o now) rfl fun s hs id _ => ?_
    rw [← hs]
    unfold countStep
    dsimp only
    repeat' split
    all_goals first | rfl | exact hsk _ _ _

theorem Move.runID (h : Move wf T phase t t') : t'.run.id = t.run.id := by
  cases h with
  | turn hv hT hop h =>
    cases h with
    | own | sent | adopted | child | childSent | other => rfl
    | unsent hdue hs hsv ht' => rw [ht']; rfl
    | switched _ _ _ _ _ _ hrun => exact hrun.1
    | fanned =>
      refine createChildren_induction (P := fun s => (held _ s).run.id = t.run.id) rfl ?_
      exact fun _ _ _ hs _ => hs
  | activated id =>
    unfold activateOnErrorHandler
    dsimp only
    repeat' split
    all_goals rfl
  | counted o now => exact updateRunStatus_id
  | ended now =>
    refine foldlRecOn (motive := fun r : WorkflowRun => r.id = t.run.id) wf.ids _ rfl fun r hr id _ => ?_
    rw [← hr]
    split <;> rfl
  | _ => rfl

/-! ## Induction along a history -/

variable {I : WorkflowRun → Prop}

theorem Logged.keeps {new : List Effect} (h : Logged wf T phase t t' new)
    (hmv : ∀ t t', Move wf T phase t t' → I t.run → I t'.run) (hI : I t.run) :
    ∀ r, .save r ∈ new → I r := by
  intro r hr
  obtain ⟨t1, rfl | ht1, rfl⟩ := h.saves r hr
  · exact hI
  · exact hmv _ _ ht1 hI

theorem moves_saves (hmv : ∀ t t', Move wf T phase t t' → I t.run → I t'.run)
    (h : Moves wf T phase t t') (hI : I t.run) :
    I t'.run ∧ ∃ new, t'.log = t.log ++ new ∧ ∀ r, .save r ∈ new → I r := by
  induction h with
  | refl => exact ⟨hI, [], by rw [append_nil], fun _ hmem => (not_mem_nil hmem).elim⟩
  | @tail t1 t2 _ hls ih =>
    obtain ⟨hI1, new, hlog, hsv⟩ := ih
    obtain ⟨more, hmr⟩ := hls.logged
    refine ⟨hmv _ _ hls hI1, new ++ more, by rw [hmr.log, hlog, append_assoc], fun r hmem => ?_⟩
    rcases mem_append.1 hmem with hmem | hmem
    · exact hsv r hmem
    · exact hmr.keeps hmv hI1 r hmem

theorem persisted_of_saves (hrun : I run) (hlog : ∀ r, .save r ∈ log → I r) : I (persisted run log) := by
  induction log generalizing run with
  | nil => exact hrun
  | cons e log ih =>
    refine ih ?_ fun r hr => hlog r (mem_cons_of_mem _ hr)
    cases e with
    | save r => exact hlog r mem_cons_self
    | _ => exact hrun

theorem Episode.saves (hmv : ∀ phase t t', Move wf T phase t t' → I t.run → I t'.run)
    (h : Episode wf T run t) (hI : I run) : ∀ r, .save r ∈ t.log → I r := by
  cases h with
  | handled h =>
    obtain ⟨-, new, hlog, hsv⟩ := moves_saves (hmv _) h hI
    intro r hr
    rw [hlog] at hr
    exact hsv r hr
  | scheduled h _ h' =>
    obtain ⟨hI1, new, hlog, hsv⟩ := moves_saves (hmv _) h hI
    obtain ⟨-, new', hlog', hsv'⟩ := moves_saves (hmv _) h' hI1
    intro r hr
    rw [hlog', hlog] at hr
    rcases mem_append.1 hr with hr | hr
    · exact hsv r hr
    · exact hsv' r hr

/-- **What every move keeps holds of every version of the run that is stored.** -/
theorem Reached.stored (hmv : ∀ phase t t', Move wf T phase t t' → I t.run → I t'.run)
    (h : Reached wf T run log) (hI : I run) : I (persisted run log) ∧ ∀ r, .save r ∈ log → I r := by
  induction h with
  | nil => exact ⟨hI, by simp⟩
  | @cons run t log hepi _ _ ih =>
    have hsv := hepi.saves hmv hI
    obtain ⟨hls, hrs⟩ := ih (persisted_of_saves hI hsv)
    rw [persisted_append]
    exact ⟨hls, fun r hr => (mem_append.1 hr).elim (hsv r) (hrs r)⟩

/-- What every move keeps, of the run and of all that was done, holds at the end. -/
theorem Reached.logged {K : List Effect → WorkflowRun → Prop} (hT : T.stored)
    (hmv : ∀ phase pre t t', Move wf T phase t t' → K (pre ++ t.log) t.run → K (pre ++ t'.log) t'.run)
    (h : Reached wf T run log) (pre : List Effect) (hK : K pre run) :
    K (pre ++ log) (persisted run log) := by
  have hmvs : ∀ phase pre t t', Moves wf T phase t t' → K (pre ++ t.log) t.run →
      K (pre ++ t'.log) t'.run := by
    intro phase pre t t' h hK
    induction h with
    | refl => exact hK
    | tail _ hls ih => exact hmv _ _ _ _ hls ih
  induction h generalizing pre with
  | nil => rwa [append_nil]
  | @cons run t log hepi hsto _ ih =>
    have hls : K (pre ++ t.log) t.run := by
      have hK' : K (pre ++ ({ run } : Tick).log) run := by rwa [append_nil]
      cases hepi with
      | handled h => exact hmvs _ _ _ _ h hK'
      | scheduled h _ h' => exact hmvs _ _ _ _ h' (hmvs _ _ _ _ h hK')
    have hrun : persisted run t.log = t.run := hsto hT
    rw [persisted_append, ← append_assoc]
    exact ih (pre ++ t.log) (by rw [hrun]; exact hls)

theorem moves_published (hmv : ∀ t t', Move wf T phase t t' → I t.run → I t'.run)
    (h : Moves wf T phase t t') (hI : I t.run) {pre : List Effect}
    (hlog : t'.log = t.log ++ (pre ++ .submit j :: post)) :
    phase = .scheduling ∧ (∀ r, .save r ∈ pre → I r) ∧ ∃ t1 t2, I t1.run ∧ Publishes wf T t1 t2 j := by
  induction h generalizing post with
  | refl => simp at hlog
  | @tail t1 t2 hmvs hls ih =>
    obtain ⟨hI1, old, hold, hsv⟩ := moves_saves hmv hmvs hI
    obtain ⟨more, hmr⟩ := hls.logged
    have heq : old ++ more = pre ++ .submit j :: post := by
      rw [hmr.log, hold, append_assoc, append_cancel_left_eq] at hlog
      exact hlog
    rcases GoString.split_append heq with ⟨mid, rfl, hmid⟩ | ⟨mid, hmid, -⟩
    swap
    · exact ih (by rw [hold, hmid])
    -- the last move publishes the job, after what it saves
    rcases hmr.jobs with hsil | ⟨j', saves, hph, hpub, hjob, hsil⟩
    · exact absurd (hmid ▸ mem_append_right _ mem_cons_self) (hsil j)
    have hmem : .submit j ∈ saves ++ [.submit j'] := by
      rw [← hjob, hmid]
      exact mem_append_right _ mem_cons_self
    cases mem_singleton.1 ((mem_append.1 hmem).resolve_left (hsil j))
    refine ⟨hph, fun r hr => ?_, _, _, hI1, hpub⟩
    rcases mem_append.1 hr with hr | hr
    · exact hsv r hr
    · exact hmr.keeps hmv hI1 r (hmid ▸ mem_append_left _ hr)

/-- **A job that was published**: then, the stored run and the run at hand agree in what scheduling
does not change. -/
theorem Reached.published {α : Type} {S : WorkflowRun → α}
    (hmv : ∀ phase t t', Move wf T phase t t' → I t.run → I t'.run)
    (hS : ∀ t t', Move wf T .scheduling t t' → I t.run → S t'.run = S t.run)
    (h : Reached wf T run log) (hI : I run) {pre : List Effect} (hlog : log = pre ++ .submit j :: post) :
    ∃ t1 t2, I t1.run ∧ Publishes wf T t1 t2 j ∧ S t1.run = S (persisted run pre) := by
  induction h generalizing pre post with
  | nil => simp at hlog
  | @cons run t log hepi _ hrs ih =>
    rcases GoString.split_append hlog with ⟨mid, rfl, hmid⟩ | ⟨mid, hlog, -⟩
    · obtain ⟨t1, t2, hI1, hpub, hsm⟩ := ih (persisted_of_saves hI (hepi.saves hmv hI)) hmid
      rw [persisted_append]
      exact ⟨t1, t2, hI1, hpub, hsm⟩
    -- no job goes out while a result is handled
    have hhan : ∀ {t : Tick} {post : List Effect}, Moves wf T .handling { run } t →
        t.log ≠ pre ++ .submit j :: post :=
      fun h hlog => nomatch (moves_published (hmv _) h hI (hlog.trans (nil_append _).symm)).1
    cases hepi with
    | handled h => exact absurd hlog (hhan h)
    | @scheduled t1 _ h hsto h' =>
      have hI1 := (moves_saves (hmv _) h hI).1
      have hkp : ∀ t t', Move wf T .scheduling t t' → I t.run ∧ S t.run = S t1.run →
          I t'.run ∧ S t'.run = S t1.run :=
        fun t t' hm hIS => ⟨hmv _ _ _ hm hIS.1, (hS t t' hm hIS.1).trans hIS.2⟩
      obtain ⟨-, new, hnew, -⟩ := moves_saves (I := fun r => I r ∧ S r = S t1.run) hkp h' ⟨hI1, rfl⟩
      rw [hnew] at hlog
      rcases GoString.split_append hlog with ⟨mid, rfl, hmid⟩ | ⟨mid, hlog, -⟩
      swap
      · exact absurd hlog (hhan h)
      rw [hmid] at hnew
      obtain ⟨-, hsv, t2, t3, hIS, hpub⟩ :=
        moves_published (I := fun r => I r ∧ S r = S t1.run) hkp h' ⟨hI1, rfl⟩ hnew
      refine ⟨t2, t3, hIS.1, hpub, hIS.2.trans ?_⟩
      rw [persisted_append, hsto]
      exact (persisted_of_saves ⟨hI1, rfl⟩ hsv).2.symm

/-! ## Versions -/

/-- The run that an effect saves. -/
def Effect.version : Effect → Option WorkflowRun
  | .save run => some run
  | .submit _ | .cancelJob _ | .timer _ | .alert _ | .createChild _ _ | .startChild _ _ => none

/-- The versions of a run, in the order they are stored. -/
def versions (run : WorkflowRun) (log : List Effect) : List WorkflowRun :=
  run :: log.filterMap Effect.version

theorem mem_version : r ∈ log.filterMap version ↔ .save r ∈ log := by
  rw [mem_filterMap]
  constructor
  · rintro ⟨e, he, hr⟩
    cases e with
    | save run =>
      rw [version, some.injEq] at hr
      exact hr ▸ he
    | _ => cases hr
  · exact fun h => ⟨_, h, rfl⟩

theorem versions_eq (run : WorkflowRun) (log : List Effect) :
    ∃ older, versions run log = older ++ [persisted run log] := by
  induction log generalizing run with
  | nil => exact ⟨[], rfl⟩
  | cons e log ih =>
    cases e with
    | save r =>
      obtain ⟨older, h⟩ := ih r
      exact ⟨run :: older, congrArg (cons run) h⟩
    | _ => exact ih run

/-- What every move keeps holds of every version of the run. -/
theorem Reached.version (hmv : ∀ phase t t', Move wf T phase t t' → I t.run → I t'.run)
    (h : Reached wf T run log) (hI : I run) : ∀ r ∈ versions run log, I r := by
  intro r hr
  rcases mem_cons.1 hr with rfl | hr
  · exact hI
  · exact (h.stored hmv hI).2 r (mem_version.1 hr)

section

/-! What moves keep, and how what `F` reads of a run changes with them; `R` says what may become of it. -/

variable {α : Type} {F : WorkflowRun → α} {R : α → α → Prop} (hrf : ∀ a, R a a)
  (htr : ∀ {a b c}, R a b → R b c → R a c)

include hrf htr

theorem moves_ordered (hmv : ∀ t t', Move wf T phase t t' → I t.run → I t'.run ∧ R (F t.run) (F t'.run))
    (hsv : ∀ t t' new, Logged wf T phase t t' new → ∀ r, .save r ∈ new → F r = F t'.run)
    (h : Moves wf T phase t t') (hI : I t.run) :
    I t'.run ∧ R (F t.run) (F t'.run) ∧ ∃ new, t'.log = t.log ++ new ∧
      (new.filterMap version).Pairwise (fun r r' => R (F r) (F r')) ∧
        ∀ r, .save r ∈ new → R (F t.run) (F r) ∧ R (F r) (F t'.run) := by
  induction h with
  | refl =>
    refine ⟨hI, hrf _, [], by rw [append_nil], List.Pairwise.nil, fun r hr => (not_mem_nil hr).elim⟩
  | @tail t1 t2 _ hls ih =>
    obtain ⟨hI1, hR1, new, hlog, hpai, hnew⟩ := ih
    obtain ⟨more, hmr⟩ := hls.logged
    obtain ⟨hI2, hR2⟩ := hmv _ _ hls hI1
    have hmr' : ∀ r, .save r ∈ more → F r = F t2.run := hsv _ _ _ hmr
    refine ⟨hI2, htr hR1 hR2, new ++ more, by rw [hmr.log, hlog, append_assoc], ?_, fun r hr => ?_⟩
    · rw [filterMap_append, pairwise_append]
      refine ⟨hpai, pairwise_of_forall_mem_list fun r hr r' hr' => ?_, fun r hr r' hr' => ?_⟩
      · rw [hmr' r (mem_version.1 hr), hmr' r' (mem_version.1 hr')]
        exact hrf _
      · rw [hmr' r' (mem_version.1 hr')]
        exact htr (hnew r (mem_version.1 hr)).2 hR2
    · rcases mem_append.1 hr with hr | hr
      · exact ⟨(hnew r hr).1, htr (hnew r hr).2 hR2⟩
      · rw [hmr' r hr]
        exact ⟨htr hR1 hR2, hrf _⟩

/-- **What becomes of a run, from version to version.** -/
theorem Reached.ordered
    (hmv : ∀ phase t t', Move wf T phase t t' → I t.run → I t'.run ∧ R (F t.run) (F t'.run))
    (hsv : ∀ phase t t' new, Logged wf T phase t t' new → ∀ r, .save r ∈ new → F r = F t'.run)
    (h : Reached wf T run log) (hI : I run) : (versions run log).Pairwise fun r r' => R (F r) (F r') := by
  induction h with
  | nil => exact pairwise_singleton _ _
  | @cons run t log hepi _ _ ih =>
    have hkp : ∀ phase t t', Move wf T phase t t' → I t.run → I t'.run :=
      fun _ _ _ h hI => (hmv _ _ _ h hI).1
    have hI' : I (persisted run t.log) := persisted_of_saves hI (hepi.saves hkp hI)
    obtain ⟨hrs, hpai⟩ := pairwise_cons.1 (ih hI')
    have hhr : (versions run t.log).Pairwise fun r r' => R (F r) (F r') := by
      cases hepi with
      | handled h =>
        obtain ⟨-, -, new, hlog, hnew, hall⟩ := moves_ordered hrf htr (hmv _) (hsv _) h hI
        rw [hlog]
        exact pairwise_cons.2 ⟨fun r hr => (hall r (mem_version.1 hr)).1, hnew⟩
      | scheduled h _ h' =>
        obtain ⟨hI1, hR1, new, hlog, hnew, hall⟩ := moves_ordered hrf htr (hmv _) (hsv _) h hI
        obtain ⟨-, -, new', hlog', hnew', hall'⟩ := moves_ordered hrf htr (hmv _) (hsv _) h' hI1
        rw [hlog', hlog]
        have hall2 : ∀ r ∈ (([] : List Effect) ++ new ++ new').filterMap Effect.version,
            R (F run) (F r) := by
          intro r hr
          rcases mem_append.1 (mem_version.1 hr) with hr | hr
          · exact (hall r hr).1
          · exact htr hR1 (hall' r hr).1
        refine pairwise_cons.2 ⟨hall2, ?_⟩
        rw [filterMap_append, pairwise_append]
        exact ⟨hnew, hnew', fun r hr r' hr' => htr (hall r (mem_version.1 hr)).2
          (hall' r' (mem_version.1 hr')).1⟩
    -- the next operation begins with the version stored last
    have hsp : versions run (t.log ++ log) = versions run t.log ++ log.filterMap Effect.version := by
      rw [versions, filterMap_append]
      rfl
    have hls : ∀ r ∈ versions run t.log, R (F r) (F (persisted run t.log)) := by
      obtain ⟨older, holder⟩ := versions_eq run t.log
      rw [holder, pairwise_append] at hhr
      intro r hr
      rw [holder, mem_append, mem_singleton] at hr
      rcases hr with hr | rfl
      · exact hhr.2.2 r hr _ (mem_singleton.2 rfl)
      · exact hrf _
    rw [hsp, pairwise_append]
    exact ⟨hhr, hpai, fun r hr r' hr' => htr (hls r hr) (hrs r' hr')⟩

end

end Cordum.Flow
