import Cordum.Workflow.RunStore

/-!
# The sets that list a run

`UpdateRun` takes the run out of the set of the status it finds in the document. When an earlier
pipeline failed, the document may have moved on from the status the sets still know.

* `indexes_heal_iff`: over whole histories.
* `index_never_heals`: a run that stays listed as pending.
-/

namespace Cordum.Flow

open Conc Prog Option Finset

variable {faults : List Fault} {run payload : RunDoc} {k : RunKeys} {s t workflowID : String}

/-! ## Keys -/

theorem runStatusIndexKey_inj : runStatusIndexKey s = runStatusIndexKey t ↔ s = t := by
  simp [runStatusIndexKey]

theorem runStatusIndexKey_ne_all : runStatusIndexKey s ≠ runAllIndexKey := by
  intro h
  have h' := congrArg String.toList h
  simp [runStatusIndexKey, runAllIndexKey] at h'

/-- A workflow whose runs are listed where runs of a status are. -/
theorem runStatusIndexKey_eq_runIndexKey : runStatusIndexKey s = runIndexKey workflowID ↔
    workflowID = "status:" ++ s := by
  have hkey : runStatusIndexKey s = "wf:runs:" ++ ("status:" ++ s) := by
    rfl
  rw [hkey, runIndexKey]
  simp [eq_comm]

/-! ## Calls -/

/-- The calls that write a run. -/
inductive RunCall
  | create (pending : Pending) (run : RunDoc)
  | update (order : PairsOrder) (pending : Pending) (run : RunDoc)
  | delete

/-- Their programs. -/
def RunCall.prog : RunCall → RunM Unit
  | .create pending run => createRun pending run
  | .update order pending run => updateRun order pending run
  | .delete => deleteRun

/-- A call with its faults. -/
structure Called where
  call : RunCall
  faults : List Fault := []

/-- The call is `UpdateRun` or `DeleteRun`, and all its commands arrive. -/
def Called.Healthy (c : Called) : Prop := (∀ f ∈ c.faults, f = .none) ∧ ∀ pending run,
    c.call ≠ .create pending run

/-- The call, run to its end. -/
def Called.on (c : Called) (k : RunKeys) : Out RunStoreErr Unit RunKeys :=
  c.call.prog.run runStep c.faults k

/-- The keys after calls. -/
def stored (calls : List Called) : RunKeys := calls.foldl (fun k c => (c.on k).st) {}

/-- The run is in the set of its status, and among its organisation's active runs if that is active. -/
structure Healed (orgID : String) (k : RunKeys) : Prop where
  listed : ∀ s, runStatusIndexKey s ∈ k.zsets ↔ k.doc.map (·.status) = some s
  tracked : orgID ≠ "" →
    (runOrgActiveKey orgID ∈ k.active ↔ ∃ d, k.doc = some d ∧ isActiveRunStatus d.status)

/-- The organisation of the run: the one given, or the one found. -/
def Called.org (c : Called) (k : RunKeys) : String :=
  match c.call with
  | .create _ run | .update _ _ run => run.orgID
  | .delete => (k.doc.map (·.orgID)).getD ""

/-- **The property**: every `UpdateRun` and `DeleteRun` that succeeds leaves the run in the right
sets. -/
def IndexesHeal (calls : List Called) : Prop :=
  ∀ before c after, calls = before ++ c :: after → c.Healthy → (c.on (stored before)).ans = .ok () →
    Healed (c.org (stored before)) (c.on (stored before)).st

/-! ## What one call does -/

theorem headD_none (h : ∀ f ∈ faults, f = .none) : faults.headD .none = .none := by
  cases faults with
  | nil => rfl
  | cons f fs => exact h f (by simp)

theorem tail_none (h : ∀ f ∈ faults, f = .none) : ∀ f ∈ faults.tail, f = .none :=
  fun f hf => h f (List.mem_of_mem_tail hf)

variable (order : PairsOrder) {active zsets : Finset String}

/-- The keys after an `UpdateRun` of which nothing fails. -/
def updated (run : RunDoc) (k : RunKeys) : RunKeys :=
  (runStep (.indexTx (runStep (.script order run) k).2 run) (runStep (.script order run) k).1).1

theorem updateRun_run (pending : Pending) (h : ∀ f ∈ faults, f = .none)
    (hw : run.workflowID ≠ "") (k : RunKeys) :
    (updateRun order pending run).run runStep faults k =
      ⟨.ok (), faults.tail.tail, updated order (applyPendingAuditHashes pending run) k⟩ := by
  rw [updateRun, if_neg hw]
  simp only [bind_eq, exec, cmd, call_bind, run_call, headD_none h, headD_none (tail_none h),
    Sem.deliver_none, ret_bind]
  rfl

theorem deleteRun_run (h : ∀ f ∈ faults, f = .none) (hk : k.doc = some run) :
    deleteRun.run runStep faults k = ⟨.ok (), faults.tail.tail, (runStep (.deleteTx run) k).1⟩ := by
  simp only [deleteRun, bind_eq, exec, call_bind, run_call, headD_none h, Sem.deliver_none,
    ret_bind, runStep, hk, headD_none (tail_none h), run_ret]

theorem deleteRun_missing (h : ∀ f ∈ faults, f = .none) (hk : k.doc = none) :
    (deleteRun.run runStep faults k).ans = .error .notFound := by
  simp only [deleteRun, bind_eq, exec, call_bind, run_call, headD_none h, Sem.deliver_none,
    ret_bind, runStep, hk, run_fail]

theorem applyPendingAuditHashes_eq (pending : Pending) (run : RunDoc) :
    ∃ steps, applyPendingAuditHashes pending run = { run with steps } := by
  refine List.foldlRecOn (motive := fun r : RunDoc => ∃ steps, r = { run with steps }) _ _
    ⟨run.steps, rfl⟩ ?_
  rintro _ ⟨steps, rfl⟩ jobID -
  split
  · exact ⟨_, rfl⟩
  · split
    · exact ⟨_, rfl⟩
    · exact ⟨_, rfl⟩

/-- The status the script finds: that of a document it can decode. -/
def foundStatus (k : RunKeys) : String :=
  match k.doc with
  | some d => if d.decodes then d.status else ""
  | none => ""

theorem script_found : (updateRunScript order k.doc payload).2 = foundStatus k := by
  unfold updateRunScript foundStatus
  cases k.doc with
  | none => rfl
  | some d =>
    dsimp only
    split <;> rfl

theorem script_status {prev : Option RunDoc} :
    (updateRunScript order prev payload).1.status = payload.status := by
  unfold updateRunScript
  cases prev with
  | none => rfl
  | some d =>
    dsimp only
    split
    · split <;> rfl
    · rfl

theorem mem_trackOrg (horg : run.orgID ≠ "") :
    runOrgActiveKey run.orgID ∈ trackOrg run active ↔ isActiveRunStatus run.status := by
  unfold trackOrg
  rw [if_neg horg]
  split <;> simp_all

theorem mem_listRun : runStatusIndexKey s ∈ listRun run zsets ↔
      s = run.status ∨ run.workflowID = "status:" ++ s ∨ runStatusIndexKey s ∈ zsets := by
  unfold listRun
  simp only [mem_insert, runStatusIndexKey_inj, runStatusIndexKey_ne_all,
    runStatusIndexKey_eq_runIndexKey, false_or]

/-- The sets that know the run under a status. -/
def KnownUnder (k : RunKeys) (workflowID s : String) : Prop :=
  workflowID = "status:" ++ s ∨ runStatusIndexKey s ∈ k.zsets

/-- **One update heals exactly when it can tell what is stale**: another set that lists the run is
that of the status found in the document. -/
theorem update_healed_iff (run : RunDoc) (k : RunKeys) : Healed run.orgID (updated order run k) ↔
      ∀ s, KnownUnder k run.workflowID s → s ≠ run.status → s ≠ "" ∧ s = foundStatus k := by
  have hdoc : (updated order run k).doc = some (updateRunScript order k.doc run).1 := rfl
  have hzse : ∀ s, runStatusIndexKey s ∈ (updated order run k).zsets ↔
      (s = run.status ∨ KnownUnder k run.workflowID s) ∧
        ¬ ((foundStatus k ≠ "" ∧ foundStatus k ≠ run.status) ∧ s = foundStatus k) := by
    intro s
    simp only [updated, runStep, script_found]
    split
    · simp only [mem_erase, mem_listRun, ne_eq, runStatusIndexKey_inj]
      tauto
    rw [mem_listRun]
    tauto
  constructor
  · intro h s hs hne
    -- the set of `s` lets go of the run only by way of the status found
    have hout : runStatusIndexKey s ∉ (updated order run k).zsets := by
      intro hmem
      have heq := (h.listed s).1 hmem
      rw [hdoc, map_some, some.injEq, script_status] at heq
      exact hne heq.symm
    rw [hzse] at hout
    by_contra hnot
    refine hout ⟨.inr hs, fun hsta => hnot ⟨?_, hsta.2⟩⟩
    rw [hsta.2]
    exact hsta.1.1
  · intro h
    refine ⟨fun s => ?_, fun horg => ?_⟩
    · rw [hzse, hdoc, map_some, some.injEq, script_status]
      constructor
      · rintro ⟨rfl | hs, hsta⟩
        · rfl
        · by_contra hne
          obtain ⟨hs0, rfl⟩ := h s hs (Ne.symm hne)
          exact hsta ⟨⟨hs0, Ne.symm hne⟩, rfl⟩
      · rintro rfl
        exact ⟨.inl rfl, fun hsta => hsta.1.2 hsta.2.symm⟩
    · have hact : (updated order run k).active = trackOrg run k.active := rfl
      rw [hact, mem_trackOrg horg, hdoc]
      simp only [some.injEq, exists_eq_left', script_status]

/-- **One delete heals exactly when only the status of its document lists the run.** -/
theorem delete_healed_iff : Healed run.orgID (runStep (.deleteTx run) k).1 ↔
    ∀ s, runStatusIndexKey s ∈ k.zsets →
        (s ≠ "" ∧ s = run.status) ∨ (run.workflowID ≠ "" ∧ run.workflowID = "status:" ++ s) := by
  have hzse : ∀ s, runStatusIndexKey s ∈ (runStep (.deleteTx run) k).1.zsets ↔
      runStatusIndexKey s ∈ k.zsets ∧ ¬ (run.status ≠ "" ∧ s = run.status) ∧
        ¬ (run.workflowID ≠ "" ∧ run.workflowID = "status:" ++ s) := by
    simp only [runStep]
    split <;> split <;>
      simp only [mem_erase, ne_eq, runStatusIndexKey_inj, runStatusIndexKey_ne_all,
        runStatusIndexKey_eq_runIndexKey, not_false_eq_true] <;> tauto
  constructor
  · intro h s hs
    by_contra hnot
    have hmem : runStatusIndexKey s ∈ (runStep (.deleteTx run) k).1.zsets := by
      refine (hzse s).2 ⟨hs, fun hst => hnot (.inl ?_), fun hwf => hnot (.inr hwf)⟩
      rw [hst.2]
      exact ⟨hst.1, rfl⟩
    cases (h.listed s).1 hmem
  · intro h
    refine ⟨fun s => ?_, fun horg => ?_⟩
    · refine ⟨fun hmem => ?_, nofun⟩
      obtain ⟨hs, hst, hwf⟩ := (hzse s).1 hmem
      rcases h s hs with ⟨hne, rfl⟩ | hcl
      · exact absurd ⟨hne, rfl⟩ hst
      · exact absurd hcl hwf
    · simp [runStep, horg]

/-! ## Histories -/

/-- Every status set that lists the run is that of the status in the document or, for an update, of
the new one. -/
def Called.Traceable (c : Called) (k : RunKeys) : Prop :=
  match c.call with
  | .create _ _ => True
  | .update _ _ run => ∀ s, KnownUnder k run.workflowID s → s ≠ run.status → s ≠ "" ∧ s = foundStatus k
  | .delete => ∀ run, k.doc = some run → ∀ s, runStatusIndexKey s ∈ k.zsets →
      (s ≠ "" ∧ s = run.status) ∨ (run.workflowID ≠ "" ∧ run.workflowID = "status:" ++ s)

theorem healed_iff {c : Called} (hc : c.Healthy) (hok : (c.on k).ans = .ok ()) :
    Healed (c.org k) (c.on k).st ↔ c.Traceable k := by
  obtain ⟨call, faults⟩ := c
  obtain ⟨hno, hcre⟩ := hc
  cases call with
  | create pending run => exact absurd rfl (hcre pending run)
  | update order pending run =>
    have hw : run.workflowID ≠ "" := by
      intro hw
      rw [Called.on, RunCall.prog, updateRun, if_pos hw] at hok
      cases hok
    have hrun := updateRun_run order pending hno hw k
    obtain ⟨steps, hsts⟩ := applyPendingAuditHashes_eq pending run
    have hst : (Called.on ⟨.update order pending run, faults⟩ k).st =
        updated order { run with steps } k := by
      rw [← hsts]
      exact congrArg Out.st hrun
    rw [hst]
    exact update_healed_iff order { run with steps } k
  | delete =>
    cases hdoc : k.doc with
    | none =>
      have herr := deleteRun_missing hno hdoc
      exact absurd (herr.symm.trans hok) nofun
    | some run =>
      have hst : (Called.on ⟨.delete, faults⟩ k).st = (runStep (.deleteTx run) k).1 :=
        congrArg Out.st (deleteRun_run hno hdoc)
      have horg : Called.org ⟨.delete, faults⟩ k = run.orgID := by simp [Called.org, hdoc]
      rw [hst, horg, delete_healed_iff]
      simp [Called.Traceable, hdoc]

/-- **The indexes heal in exactly the histories in which every call can tell the stale sets.** -/
theorem indexes_heal_iff (calls : List Called) :
    IndexesHeal calls ↔
      ∀ before c after, calls = before ++ c :: after → c.Healthy → (c.on (stored before)).ans = .ok () →
        c.Traceable (stored before) := by
  constructor
  · intro h before c after hsp hc hok
    exact (healed_iff hc hok).1 (h before c after hsp hc hok)
  · intro h before c after hsp hc hok
    exact (healed_iff hc hok).2 (h before c after hsp hc hok)

/-! ## A history that does not heal -/

/-- A run in a status. -/
def runIn (status : String) : RunDoc where
  workflowID := "wf"
  orgID := "org"
  status := status

/-- Created pending; the pipeline of the first update is lost; the second one goes through. -/
def lostPipeline : List Called :=
  [{ call := .create (fun _ => none) (runIn "pending") },
   { call := .update .listed (fun _ => none) (runIn "running"), faults := [.none, .lost] },
   { call := .update .listed (fun _ => none) (runIn "succeeded") }]

/-- **The run stays listed as pending**: the document says "running" by then. -/
theorem index_never_heals : runStatusIndexKey "pending" ∈ (stored lostPipeline).zsets ∧
    ¬ IndexesHeal lostPipeline := by
  have hmem : runStatusIndexKey "pending" ∈ (stored lostPipeline).zsets := by decide +kernel
  refine ⟨hmem, fun h => ?_⟩
  have hls := h (lostPipeline.take 2) _ [] rfl ⟨by simp, by simp⟩ rfl
  have hst := (hls.listed "pending").1 hmem
  exact absurd hst (by decide +kernel)

end Cordum.Flow
