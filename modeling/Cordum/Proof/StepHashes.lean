import Cordum.Proof.Retries
import Cordum.Workflow.RunStore

/-!
# The audit hash of a step's job

The audit chain calls `UpdateAuditHash` with the hash of a job's event, in between the saves of an
operation: the engine saves the run it holds, and the store carries over the hashes it has for the
jobs of that run. A hash for a job that no stored entry has yet is held back until one has it.

The engine gives an entry a new job when it tries it again, and leaves the hash of the old one in
place; `UpdateAuditHash` writes no hash where one is (`hash_of_old_job`). Where no stored run has a
pending entry with a hash, every hash was supplied for the job its entry has (`hash_of_current_job`).
-/

namespace Cordum.Flow

open GoString

/-! ## Writing hashes -/

/-- Every entry of a step and its children with another hash. -/
def StepRun.mapHashes (hash : ChildRun → String) (sr : StepRun) : StepRun :=
  { sr with
    auditHash := hash sr.toChildRun
    children := (sr.children.entries.map fun e =>
      (⟨e.1, { e.2 with auditHash := hash e.2 }⟩ : Sigma fun _ : String => ChildRun)).toAList }

/-- Every entry of a run with another hash. -/
def WorkflowRun.mapHashes (hash : ChildRun → String) (run : WorkflowRun) : WorkflowRun :=
  { run with
    steps := (run.steps.entries.map fun e =>
      (⟨e.1, e.2.mapHashes hash⟩ : Sigma fun _ : String => StepRun)).toAList }

/-- The entries of a run: the steps', and their parents' copies. -/
def WorkflowRun.entries (run : WorkflowRun) : List ChildRun :=
  run.steps.entries.flatMap fun e => e.2.toChildRun :: e.2.children.entries.map (·.2)

/-- `setStepAuditHashForJob`: a hash that is there stays. -/
def WorkflowRun.setStepAuditHashForJob (jobID auditHash : String) (run : WorkflowRun) : WorkflowRun :=
  run.mapHashes fun c => if c.jobID = jobID ∧ c.auditHash = "" then auditHash else c.auditHash

/-- An entry has the job: `setStepAuditHashForJob` finds a match. -/
def WorkflowRun.hasJob (run : WorkflowRun) (jobID : String) : Bool :=
  run.entries.any fun c => c.jobID = jobID

/-- `applyPendingAuditHashes`, for all jobs of the run. -/
def WorkflowRun.applyPendingAuditHashes (pending : Pending) (run : WorkflowRun) : WorkflowRun :=
  run.mapHashes fun c =>
    if c.jobID ≠ "" ∧ c.auditHash = ""
      then ((pending c.jobID).filter fun hash => trimSpace hash ≠ "").getD ""
    else c.auditHash

/-- `collect` of `updateRunScript`. -/
def WorkflowRun.collectHashes (run : WorkflowRun) : List (String × String) :=
  (run.entries.filter fun c => c.jobID ≠ "" && c.auditHash ≠ "").map fun c => (c.jobID, c.auditHash)

/-- What `updateRunScript` stores; the payload, where a document cannot be decoded. -/
def mergeHashes (order : Option PairsOrder) (prev payload : WorkflowRun) : WorkflowRun :=
  match order with
  | none => payload
  | some order =>
    payload.mapHashes fun c => StepDoc.carried (order prev.collectHashes).1 c.jobID c.auditHash

/-! ## A stored run -/

/-- A stored run, the hashes held back, what the operation at hand has yet to do, and the calls. -/
structure HashState where
  run : WorkflowRun
  pending : Pending := fun _ => none
  todo : List Effect := []
  /-- The jobs and hashes of the calls of `UpdateAuditHash`, the newest first. -/
  supplied : List (String × String) := []

/-- What `UpdateRun` finds. -/
structure SaveEnv where
  /-- The hash held back for a job can be read. -/
  readable : String → Bool := fun _ => true
  order : Option PairsOrder := some .listed
  /-- The pipeline goes through. -/
  deletes : Bool := true
  /-- The hash held back for a job is past its time. -/
  expired : String → Bool := fun _ => false

/-- `UpdateRun`. -/
def HashState.save (env : SaveEnv) (payload : WorkflowRun) (s : HashState) : HashState :=
  let payload := payload.applyPendingAuditHashes fun jobID => if env.readable jobID
    then s.pending jobID else none
  { s with
    run := mergeHashes env.order s.run payload
    pending := fun jobID =>
      if env.expired jobID || (env.deletes && env.readable jobID && payload.hasJob jobID)
        then none else s.pending jobID }

/-- `UpdateAuditHash`, for a job of this run. -/
def HashState.updateAuditHash (jobID auditHash : String) (s : HashState) : HashState :=
  let jobID := trimSpace jobID
  let auditHash := trimSpace auditHash
  if jobID = "" ∨ auditHash = "" ∨ !isAuditHashHex auditHash then s
  else
    let s := { s with supplied := (jobID, auditHash) :: s.supplied }
    if s.run.hasJob jobID then
      { s with
        run := s.run.setStepAuditHashForJob jobID auditHash
        pending := Function.update s.pending jobID none }
    else { s with pending := Function.update s.pending jobID (some auditHash) }

/-- What happens to a stored run. The parts of the reconciler load the run one by one. -/
inductive HashEvent
  /-- An operation loads the run. -/
  | begin (op : RunOp)
  | recover (env : ReconcileEnv)
  /-- The operation at hand goes on. -/
  | effect (env : SaveEnv)
  | call (jobID auditHash : String)

/-- One event. An operation holds the run's lock. -/
def HashState.step (s : HashState) : HashEvent → HashState
  | .begin op => if s.todo.isEmpty then { s with todo := op.log s.run } else s
  | .recover env => if s.todo.isEmpty then { s with todo := reconcileStuckWaitingSteps env s.run } else s
  | .effect env =>
    match s.todo with
    | [] => s
    | .save run :: todo => { s with todo }.save env run
    | _ :: todo => { s with todo }
  | .call jobID auditHash => s.updateAuditHash jobID auditHash

/-- One event after the other. -/
def HashState.after (s : HashState) (events : List HashEvent) : HashState := events.foldl HashState.step s

open WorkflowRun List Function StepDoc Step

variable {c c' : ChildRun} {m : GoMap ChildRun} {log l1 l2 todo : List Effect}
  {sr' sr : StepRun} {id key : String}
  {v : Visit} {prev payload : WorkflowRun} {wf : Workflow} {T : Terms} {phase : Phase} {t t' : Tick}

/-! ## Entries -/

variable {run : WorkflowRun}

theorem mem_entries_iff : c ∈ run.entries ↔
      ∃ id sr, run.step id = some sr ∧ (c = sr.toChildRun ∨ ∃ key, sr.children.lookup key = some c) := by
  unfold entries
  rw [mem_flatMap]
  constructor
  · rintro ⟨⟨id, sr⟩, hmem, hc⟩
    refine ⟨id, sr, AList.mem_lookup_iff.2 hmem, ?_⟩
    rcases mem_cons.1 hc with rfl | hc
    · exact .inl rfl
    · obtain ⟨⟨key, child⟩, hch, rfl⟩ := mem_map.1 hc
      exact .inr ⟨key, AList.mem_lookup_iff.2 hch⟩
  · rintro ⟨id, sr, hsr, hc⟩
    refine ⟨⟨id, sr⟩, AList.mem_lookup_iff.1 hsr, mem_cons.2 ?_⟩
    rcases hc with rfl | ⟨key, hc⟩
    · exact .inl rfl
    · exact .inr (mem_map.2 ⟨⟨key, c⟩, AList.mem_lookup_iff.1 hc, rfl⟩)

theorem mem_entries_of_child (h : (run.entry id).children.lookup key = some c) : c ∈ run.entries := by
  cases hsr : run.step id with
  | none =>
    rw [entry, hsr] at h
    cases h
  | some sr =>
    rw [entry_of_some hsr] at h
    exact mem_entries_iff.2 ⟨id, sr, hsr, .inr ⟨key, h⟩⟩

theorem entry_unhashed_or_mem : (run.entry id).auditHash = "" ∨
    (run.entry id).toChildRun ∈ run.entries := by
  cases hsr : run.step id with
  | none =>
    rw [entry, hsr]
    exact .inl rfl
  | some sr =>
    rw [entry_of_some hsr]
    exact .inr (mem_entries_iff.2 ⟨id, sr, hsr, .inl rfl⟩)

theorem step_mapHashes (hash : ChildRun → String) :
    (run.mapHashes hash).step id = (run.step id).map (·.mapHashes hash) :=
  lookup_mapped run.steps (·.mapHashes hash) id

theorem lookup_mapHashes (hash : ChildRun → String) :
    (sr.mapHashes hash).children.lookup key = (sr.children.lookup key).map
      fun c => { c with auditHash := hash c } :=
  lookup_mapped sr.children (fun c => { c with auditHash := hash c }) key

theorem mem_entries_mapHashes {hash : ChildRun → String} (h : c' ∈ (run.mapHashes hash).entries) :
    ∃ c ∈ run.entries, c' = { c with auditHash := hash c } := by
  obtain ⟨id, sr', hsr', hc'⟩ := mem_entries_iff.1 h
  rw [step_mapHashes] at hsr'
  obtain ⟨sr, hsr, rfl⟩ := Option.map_eq_some_iff.1 hsr'
  rcases hc' with rfl | ⟨key, hkey⟩
  · exact ⟨sr.toChildRun, mem_entries_iff.2 ⟨id, sr, hsr, .inl rfl⟩, rfl⟩
  · rw [lookup_mapHashes] at hkey
    obtain ⟨c, hc, rfl⟩ := Option.map_eq_some_iff.1 hkey
    exact ⟨c, mem_entries_iff.2 ⟨id, sr, hsr, .inr ⟨key, hc⟩⟩, rfl⟩

theorem mem_mapHashes_entries (hash : ChildRun → String) (h : c ∈ run.entries) :
    { c with auditHash := hash c } ∈ (run.mapHashes hash).entries := by
  obtain ⟨id, sr, hsr, hc⟩ := mem_entries_iff.1 h
  refine mem_entries_iff.2 ⟨id, sr.mapHashes hash, by rw [step_mapHashes, hsr]; rfl, ?_⟩
  rcases hc with rfl | ⟨key, hkey⟩
  · exact .inl rfl
  · exact .inr ⟨key, by rw [lookup_mapHashes, hkey]; rfl⟩

/-! ## The invariant -/

/-- No entry that is to be dispatched has a hash. -/
def WorkflowRun.unhashed (run : WorkflowRun) : Bool :=
  run.entries.all fun c => !fresh c.status || c.auditHash = ""

theorem WorkflowRun.unhashed_iff (run : WorkflowRun) :
    run.unhashed ↔ ∀ c ∈ run.entries, fresh c.status → c.auditHash = "" := by
  rw [unhashed, all_eq_true]
  refine forall_congr' fun c => imp_congr_right fun _ => ?_
  cases fresh c.status <;> simp

/-- Results are for iterations that a loop has. -/
def hashTerms (wf : Workflow) : Terms where
  result run id _ := ∀ base step, splitForEachStep id = (base, id) →
    wf.step base = some step → step.type = .loop → ((run.entry base).children.lookup id).isSome
  recovers := False

/-- The iterations of a loop are numbered from the first on. -/
def Numbered (own : String) (children : GoMap ChildRun) : Prop :=
  ∀ i, (children.lookup (childIDFor own i)).isSome → i < children.entries.length

theorem Numbered.insert_old {own : String} (h : Numbered own m)
    (hso : (m.lookup key).isSome) (child : ChildRun) :
    Numbered own (m.insert key child) := by
  intro i hi
  rw [isSome_lookup_insert hso] at hi
  rw [length_insert_old hso]
  exact h i hi

theorem Numbered.lookup_next {own : String} (h : Numbered own m) :
    m.lookup (childIDFor own m.entries.length) = none := by
  by_contra hne
  exact Nat.lt_irrefl _ (h _ (Option.isSome_iff_ne_none.2 hne))

theorem Numbered.insert_next {own : String} (h : Numbered own m) (child : ChildRun) :
    Numbered own (m.insert (childIDFor own m.entries.length) child) := by
  intro i hi
  rw [length_insert_new h.lookup_next]
  by_cases hnx : i = m.entries.length
  · omega
  · rw [AList.lookup_insert_ne fun heq => hnx (childIDFor_injective heq)] at hi
    have hlt := h i hi
    omega

/-- The hashes of a run were supplied for the jobs of their entries. While scheduling, no entry to be
dispatched has a hash. -/
structure Hashed (wf : Workflow) (supplied : List (String × String)) (phase : Phase)
    (run : WorkflowRun) : Prop where
  supplied : ∀ c ∈ run.entries, c.auditHash ≠ "" → trimSpace c.jobID ≠ "" ∧
    (c.jobID, c.auditHash) ∈ supplied
  unhashed : phase = .scheduling → run.unhashed
  waiting : ∀ id, (run.entry id).status = .waiting → ∃ step, wf.step id = some step ∧ step.type = .approval
  loops : ∀ own step, wf.step own = some step → step.type = .loop → Numbered own (run.entry own).children

/-- An entry with the job and the hash of one before, or without a hash. -/
def Descends (phase : Phase) (run : WorkflowRun) (c' : ChildRun) : Prop :=
  c'.auditHash = "" ∨ ∃ c ∈ run.entries, c'.jobID = c.jobID ∧ c'.auditHash = c.auditHash ∧
    (phase = .scheduling → fresh c'.status → fresh c.status)

theorem Descends.child (h : (run.entry id).children.lookup key = some c) : Descends phase run c :=
  .inr ⟨c, mem_entries_of_child h, rfl, rfl, fun _ hfr => hfr⟩

theorem Descends.of_step (hsr : run.step id = some sr) (hjob : c'.jobID = sr.jobID)
    (hhs : c'.auditHash = sr.auditHash) (hfr : phase = .scheduling → fresh c'.status → fresh sr.status) :
    Descends phase run c' :=
  .inr ⟨sr.toChildRun, mem_entries_iff.2 ⟨id, sr, hsr, .inl rfl⟩, hjob, hhs, hfr⟩

theorem Descends.own (hjob : c'.jobID = (run.entry id).jobID)
    (hhs : c'.auditHash = (run.entry id).auditHash)
    (hfr : phase = .scheduling → fresh c'.status → fresh (run.entry id).status) :
    Descends phase run c' := by
  rcases entry_unhashed_or_mem with hno | hmem
  · exact .inl (hhs.trans hno)
  · exact .inr ⟨_, hmem, hjob, hhs, hfr⟩

theorem Descends.trans (h : Descends phase run c) (hjob : c'.jobID = c.jobID)
    (hhs : c'.auditHash = c.auditHash) (hfr : phase = .scheduling → fresh c'.status → fresh c.status) :
    Descends phase run c' := by
  rcases h with h | ⟨c0, hc0, hjob0, hhash0, hfresh0⟩
  · exact .inl (hhs.trans h)
  · exact .inr ⟨c0, hc0, hjob.trans hjob0, hhs.trans hhash0, fun hp hs => hfresh0 hp (hfr hp hs)⟩

variable {child : ChildRun}

theorem Descends.insert (hch : Descends phase run child) :
    ∀ key' c', ((run.entry id).children.insert key child).lookup key' = some c' →
      Descends phase run c' := by
  intro key' c' hlk
  rcases lookup_insert_some hlk with ⟨-, rfl⟩ | ⟨-, hlk⟩
  · exact hch
  · exact .child hlk

theorem withResult_kept (step : Option Step) (now : ℤ) (sr : StepRun) :
    (withResult step now sr).jobID = sr.jobID ∧ (withResult step now sr).auditHash = sr.auditHash := by
  unfold withResult
  split <;> exact ⟨rfl, rfl⟩

section

variable {supplied : List (String × String)} (h : Hashed wf supplied phase t.run)

include h

theorem Hashed.unhashed_of_fresh (hph : phase = .scheduling) (hc : c ∈ t.run.entries)
    (hfr : fresh c.status) : c.auditHash = "" :=
  (t.run.unhashed_iff.1 (h.unhashed hph)) c hc hfr

theorem Hashed.unhashed_step (hph : phase = .scheduling) (hfr : fresh (t.run.entry id).status) :
    (t.run.entry id).auditHash = "" := by
  rcases entry_unhashed_or_mem with hno | hmem
  · exact hno
  · exact h.unhashed_of_fresh hph hmem hfr

theorem Hashed.fresh_of_sending (hv : VisitOf wf T phase t id v) {status : RunStatus} {undo : ℤ}
    (hs : Sending v t (t.run.entry id) status undo sr') : fresh (t.run.entry id).status := by
  cases hs with
  | approval ht hs => exact hs
  | job ht =>
    have hdue := hv.due.status
    have hsp := hv.visiting.step
    rw [hv.stepID] at hsp
    cases hst : (t.run.entry id).status with
    | unset | pending => rfl
    | waiting =>
      obtain ⟨step, hdef, happ⟩ := h.waiting id hst
      rw [hdef, Option.some.injEq] at hsp
      rw [isJob, ← hsp, happ] at ht
      cases ht
    | _ =>
      unfold isJob at ht
      cases hty : v.step.type <;> simp_all [revisited]

theorem Hashed.unhashed_source {own : String} (hv : VisitOf wf T phase t own v)
    (hs : Source v t id child) :
    child.auditHash = "" := by
  have hsp := hv.visiting.step
  have hch : ∀ {key}, fresh (((t.entry v.stepID).children.lookup key).getD { status := .pending }).status →
      (((t.entry v.stepID).children.lookup key).getD { status := .pending }).auditHash = "" := by
    intro key hfr
    cases hkey : (t.entry v.stepID).children.lookup key with
    | none => rfl
    | some c =>
      rw [hkey] at hfr
      exact h.unhashed_of_fresh hv.scheduling (mem_entries_of_child hkey) hfr
  cases hs with
  | iteration ht hcfg hid =>
    -- the next iteration is not there yet
    have hno : (t.entry v.stepID).children.lookup id = none := by
      rw [hid]
      exact (h.loops v.stepID v.step hsp ht).lookup_next
    rw [hno]
    rfl
  | item hf hid hn hidx hfr => exact hch hfr
  | branch ht hcfg hid hdef howr hfr =>
    cases hsr : t.run.step id with
    | none => rfl
    | some sr =>
      rw [hsr] at hfr
      exact h.unhashed_of_fresh hv.scheduling (mem_entries_iff.2 ⟨id, sr, hsr, .inl rfl⟩) hfr

theorem Hashed.descends_ownTurn (hv : VisitOf wf T phase t id v) (htn : OwnTurn v (t.run.entry id) sr') :
    Descends phase t.run sr'.toChildRun := by
  cases htn with
  | kept | dropped => exact .own rfl rfl fun _ hfr => hfr
  | ended hend =>
    refine .own hend.jobID hend.hash fun _ hfr => ?_
    have htm := hend.terminal
    rw [open_of_fresh hfr] at htm
    cases htm
  | delayed ht hs => exact .inl (h.unhashed_step hv.scheduling hs)
  | childRun ht hjob =>
    rcases hjob with ⟨-, rfl⟩ | ⟨hbl, rfl⟩
    · exact .own rfl rfl fun _ => nofun
    -- an entry without a job has no hash
    refine .inl ?_
    by_contra hne
    exact (h.supplied _ (entry_unhashed_or_mem.resolve_left hne) hne).1 hbl
  | begun | noItems | loopDone => exact .own rfl rfl fun _ => nofun

theorem Hashed.descends_childTurn {own : String} (hv : VisitOf wf T phase t own v)
    (htn : ChildTurn v t id child) : Descends phase t.run child := by
  cases htn with
  | awaited ht hs => exact .inl (h.unhashed_source hv hs)
  | failed hs hst hjob hhs => exact .inl (hhs.trans (h.unhashed_source hv hs))
  | unsent hf hs =>
    have hno := h.unhashed_source hv hs
    exact .inl hno
  | cancelled _ _ _ _ hold _ hst hjob hhs =>
    obtain ⟨sr, hsr, rfl⟩ := Option.map_eq_some_iff.1 hold
    refine .of_step hsr hjob hhs fun _ hfr => ?_
    rw [hst] at hfr
    cases hfr

theorem Hashed.descends_taken {env : OpEnv wf} {step : Option Step} {res : JobResult} {child' : ChildRun}
    {retry : Option ℤ} (hph : phase = .handling) (hold : child.auditHash = "" ∨ child ∈ t.run.entries)
    (hta : takeResult env step res child = some (child', retry)) : Descends phase t.run child' := by
  have htk := taken_takeResult hta
  have hhs : child'.auditHash = child.auditHash := htk.applied.hash
  by_cases hno : child.auditHash = ""
  · exact .inl (hhs.trans hno)
  have hmem := hold.resolve_left hno
  have hjob : child.jobID = res.jobID := by
    refine htk.accepted.resolve_left fun hemp => ?_
    have htri := (h.supplied child hmem hno).1
    rw [hemp] at htri
    exact htri trimSpace_empty
  exact .inr ⟨child, hmem, htk.applied.jobID.trans hjob.symm, hhs,
    fun hs => absurd (hph.symm.trans hs) nofun⟩

/-- **Where a move's jobs and hashes come from.** -/
theorem Touch.descends (hT : ¬ T.recovers) (htch : Touch wf T phase t t' id sr') :
    Descends phase t.run sr'.toChildRun ∧ ∀ key c', sr'.children.lookup key = some c' →
      Descends phase t.run c' := by
  have hold : ∀ key c', (t.run.entry id).children.lookup key = some c' → Descends phase t.run c' :=
    fun _ _ => .child
  have hkp : Descends phase t.run (t.run.entry id).toChildRun := .own rfl rfl fun _ hfr => hfr
  -- a child is written to the run, without children of its own
  have halo : ∀ {child : ChildRun}, Descends phase t.run child →
      Descends phase t.run child.toStepRun.toChildRun ∧
      ∀ key c', child.toStepRun.children.lookup key = some c' → Descends phase t.run c' :=
    fun hch => ⟨hch, fun key c' => nofun⟩
  have hado : ∀ childID, Descends phase t.run (adoptee (t.run.step childID)).toChildRun := by
    intro childID
    cases hsr : t.run.step childID with
    | none => exact .inl rfl
    | some sr =>
      unfold adoptee
      dsimp only [Option.getD_some]
      split
      · rename_i hun
        exact .of_step hsr rfl rfl fun _ _ => by rw [hun]; rfl
      · exact .of_step hsr rfl rfl fun _ hfr => hfr
  have hent : ∀ base key, (t.run.childEntry base key).auditHash = "" ∨
      t.run.childEntry base key ∈ t.run.entries := by
    intro base key
    unfold childEntry
    cases hlk : (t.run.entry base).children.lookup key with
    | some c => exact .inr (mem_entries_of_child hlk)
    | none =>
      cases hsr : t.run.step key with
      | none => exact .inl rfl
      | some sr => exact .inr (mem_entries_iff.2 ⟨key, sr, hsr, .inl rfl⟩)
  -- a child whose job went out had no hash
  have hse : ∀ {v own key child}, VisitOf wf T phase t own v → Source v t key child → ∀ input,
      Descends phase t.run (sentChild v.now t.run key input child) := by
    intro v own key child hv hs input
    have hno := h.unhashed_source hv hs
    exact .inl hno
  have hsen : ∀ {v status undo sr'}, VisitOf wf T phase t id v →
      Sending v t (t.run.entry id) status undo sr' →
      sr'.auditHash = "" ∧ sr'.children = (t.run.entry id).children := by
    intro v status undo sr' hv hs
    have hno := h.unhashed_step hv.scheduling (h.fresh_of_sending hv hs)
    cases hs with
    | approval | job => exact ⟨hno, rfl⟩
  have hsib : ∀ {base key child} now, (t.run.entry base).children.lookup key = some child →
      Descends phase t.run (siblingCancelled now child) :=
    fun now hlk => (Descends.child hlk).trans rfl rfl fun _ => nofun
  cases htch with
  | kept => exact ⟨hkp, hold⟩
  | turn hv htn =>
    exact ⟨h.descends_ownTurn hv htn, fun key c' hlk => hold key c' (htn.lookup_children hlk)⟩
  | switched hv ht hend =>
    exact ⟨h.descends_ownTurn hv (.ended hend), fun key c' hlk => hold key c' (hend.children ▸ hlk)⟩
  | @fanned v startedAt n hv hf hn h0 =>
    -- a new child has no hash
    refine createChildren_induction (P := fun s => Descends phase t.run s.1.toChildRun ∧
      ∀ key c', s.1.children.lookup key = some c' →
      Descends phase t.run c') ⟨.own rfl rfl fun _ => nofun, hold⟩ ?_
    intro s idx _ hs _
    refine ⟨hs.1, fun key c' hlk => ?_⟩
    rcases lookup_insert_some hlk with ⟨-, rfl⟩ | ⟨-, hlk⟩
    · exact .inl rfl
    · exact hs.2 key c' hlk
  | sent hv hs | unsent hv hs =>
    exact ⟨.inl (hsen hv hs).1, fun key c' hlk => hold key c' ((hsen hv hs).2 ▸ hlk)⟩
  | adopts => exact ⟨hkp, (hado _).insert⟩
  | withChild hv htn => exact ⟨hkp, (h.descends_childTurn hv htn).insert⟩
  | withSent input hv hs => exact ⟨hkp, (hse hv hs input).insert⟩
  | adopted =>
    refine ⟨hado _, fun key c' hlk => ?_⟩
    rw [children_adoptee] at hlk
    exact hold key c' hlk
  | created => exact halo (.inl rfl)
  | child hv htn => exact halo (h.descends_childTurn hv htn)
  | childSent input hv hs => exact halo (hse hv hs input)
  | taken hun => exact ⟨.own rfl rfl fun _ _ => by rw [hun]; rfl, hold⟩
  | activated hin hfr => exact ⟨.own rfl rfl fun _ _ => hfr, hold⟩
  | gated | notTaken | skipped => exact ⟨.own rfl rfl fun _ => nofun, hold⟩
  | @ended change hchg =>
    have hend : ∀ {c : ChildRun}, Descends phase t.run c →
        Descends phase t.run (if isTerminalStepStatus c.status then c else change c) := by
      intro c hc
      split
      · exact hc
      · obtain ⟨hst, hjob, -, hhs⟩ := hchg c
        refine hc.trans hjob hhs fun _ hfr => ?_
        rcases hst with hs | hs <;> rw [hs] at hfr <;> cases hfr
    refine ⟨hend hkp, fun key c' hlk => ?_⟩
    rw [lookup_endStepRun] at hlk
    obtain ⟨c, hc, rfl⟩ := Option.map_eq_some_iff.1 hlk
    exact hend (hold key c hc)
  | result env hph hid hT' htk => exact ⟨h.descends_taken hph entry_unhashed_or_mem htk, hold⟩
  | childResult env hph hid hkey hT' htk => exact halo (h.descends_taken hph (hent _ _) htk)
  | withResult env hph hid hkey hT' htk =>
    obtain ⟨hjob, hhs⟩ := withResult_kept (wf.step id) env.now
      { t.run.entry id with children := (t.run.entry id).children.insert _ _ }
    refine ⟨.own hjob hhs fun hs => absurd (hph.symm.trans hs) nofun, fun key c' hlk => ?_⟩
    rw [withResult_children] at hlk
    exact (h.descends_taken hph (hent _ _) htk).insert key c' hlk
  | withSibling now hph hsp hf hpar hlk => exact ⟨hkp, (hsib now hlk).insert⟩
  | sibling now hph hsp hf hlk => exact halo (hsib now hlk)
  | decided approved now hph => exact ⟨.own rfl rfl fun hs => absurd (hph.symm.trans hs) nofun, hold⟩
  | recovered now hph hrec => exact absurd hrec hT

end

/-! ## The iterations of loops -/

/-- The iterations of a loop stay numbered. -/
theorem Touch.numbered {own : String} {step : Step} (hdef : wf.step own = some step)
    (hlp : step.type = .loop)
    (h : Numbered own (t.run.entry own).children) (htch : Touch wf (hashTerms wf) phase t t' own sr') :
    Numbered own sr'.children := by
  have hsp : ∀ {v}, VisitOf wf (hashTerms wf) phase t own v → v.step.type = .loop := by
    intro v hv
    rw [hv.step_eq hdef, hlp]
  have hnot : ∀ {v type}, VisitOf wf (hashTerms wf) phase t own v → v.step.type = type → type = .loop :=
    fun hv ht => ht.symm.trans (hsp hv)
  have hfn : ∀ {v}, VisitOf wf (hashTerms wf) phase t own v → v.step.fansOut ≠ true := by
    intro v hv hf
    rw [fansOut, hsp hv] at hf
    cases hf
  -- a loop dispatches its next iteration
  have hnx : ∀ {v id child}, VisitOf wf (hashTerms wf) phase t own v → Source v t id child →
      ∀ child', Numbered own ((t.run.entry own).children.insert id child') := by
    intro v id child hv hs child'
    cases hs with
    | iteration ht hcfg hid =>
      rw [hv.stepID] at hid
      rw [hid]
      exact h.insert_next child'
    | item hf => exact absurd hf (hfn hv)
    | branch ht => exact absurd (hnot hv ht) (by simp)
  have hno : ∀ child : ChildRun, Numbered own child.toStepRun.children := fun _ _ hso => by cases hso
  cases htch with
  | kept | gated | taken | notTaken | activated | skipped | result | decided => exact h
  | turn hv htn =>
    rw [htn.children_eq (.inl (hsp hv))]
    exact h
  | switched hv ht | adopts hv ht => exact absurd (hnot hv ht) (by simp)
  | fanned hv hf => exact absurd hf (hfn hv)
  | sent hv hs | unsent hv hs => exact absurd (.inl (hsp hv)) hs.notParent.1
  | withChild hv htn =>
    cases htn with
    | awaited ht hs | failed hs => exact hnx hv hs _
    | unsent hf => exact absurd hf (hfn hv)
    | cancelled ht => exact absurd (hnot hv ht) (by simp)
  | withSent input hv hs => exact hnx hv hs _
  | adopted =>
    rw [children_adoptee]
    exact h
  | created | child | childSent | childResult | sibling => exact hno _
  | @ended change hchg =>
    have hlk := lookup_endStepRun change (t.run.entry own)
    intro i hi
    rw [hlk, Option.isSome_map] at hi
    have hlen : (endStepRun change (t.run.entry own)).children.entries.length =
        (t.run.entry own).children.entries.length :=
      length_of_sameKeys fun id => by rw [hlk, Option.isSome_map]
    rw [hlen]
    exact h i hi
  | withResult env hph hid hkey hT =>
    rw [withResult_children]
    exact h.insert_old (hT own step hid hdef hlp) _
  | withSibling now hph hsp' hf hpar hlk => exact h.insert_old (by rw [hlk]; rfl) _
  | recovered now hph hT => exact hT.elim

/-- **A move keeps the hashes with their jobs.** -/
theorem Move.hashed {supplied : List (String × String)} (hmv : Move wf (hashTerms wf) phase t t')
    (h : Hashed wf supplied phase t.run) : Hashed wf supplied phase t'.run := by
  have hdes : ∀ c' ∈ t'.run.entries, Descends phase t.run c' := by
    intro c' hc'
    obtain ⟨id, sr', hsr', hmem⟩ := mem_entries_iff.1 hc'
    have htch := hmv.touch id
    rw [entry_of_some hsr'] at htch
    obtain ⟨hown, hchs⟩ := htch.descends h fun hrec => hrec
    rcases hmem with rfl | ⟨key, hkey⟩
    · exact hown
    · exact hchs key c' hkey
  refine ⟨fun c' hc' hhs => ?_, fun hph => (t'.run.unhashed_iff).2 fun c' hc' hfr => ?_, fun id hwt => ?_,
    fun own step hdef hlp => ?_⟩
  · rcases hdes c' hc' with hno | ⟨c, hc, hjob, hsm, -⟩
    · exact absurd hno hhs
    · rw [hjob, hsm]
      exact h.supplied c hc (hsm ▸ hhs)
  · rcases hdes c' hc' with hno | ⟨c, hc, -, hsm, hpn⟩
    · exact hno
    · exact hsm.trans (h.unhashed_of_fresh hph hc (hpn hph hfr))
  · rcases (hmv.touch id).waiting hwt with hbef | happ
    · exact h.waiting id hbef
    · exact happ
  · exact Touch.numbered hdef hlp (h.loops own step hdef hlp) (hmv.touch own)

/-! ## What an operation saves -/

/-- What is saved is as it should be, while all that is saved is cleared. -/
def Awaits (cleared good : WorkflowRun → Prop) : List Effect → Prop
  | [] => True
  | .save run :: log => cleared run → good run ∧ Awaits cleared good log
  | _ :: log => Awaits cleared good log

section

variable {cleared good good' : WorkflowRun → Prop}

theorem awaits_cons {e : Effect} : Awaits cleared good (e :: log) ↔
    (∀ run, e = .save run → cleared run → good run) ∧
    ((∀ run, e = .save run → cleared run) → Awaits cleared good log) := by
  cases e with
  | save run => simp [Awaits, imp_and]
  | _ => simp [Awaits]

theorem Awaits.mono (hgd : ∀ run, good run → good' run) (h : Awaits cleared good log) :
    Awaits cleared good' log := by
  induction log with
  | nil => trivial
  | cons e log ih =>
    rw [awaits_cons] at h ⊢
    exact ⟨fun run he hrun => hgd run (h.1 run he hrun), fun he => ih (h.2 he)⟩

theorem awaits_of_saves (h : ∀ run, .save run ∈ log → good run) : Awaits cleared good log := by
  induction log with
  | nil => trivial
  | cons e log ih =>
    refine awaits_cons.2 ⟨fun run he _ => h run (he ▸ mem_cons_self), fun _ => ih fun run hrun => ?_⟩
    exact h run (mem_cons_of_mem _ hrun)

theorem Awaits.saves (h : Awaits cleared good log) (hlog : ∀ run, .save run ∈ log → cleared run) :
    ∀ run, .save run ∈ log → good run := by
  induction log with
  | nil => exact fun run hrun => absurd hrun not_mem_nil
  | cons e log ih =>
    obtain ⟨hhr, haft⟩ := awaits_cons.1 h
    intro run hrun
    rcases mem_cons.1 hrun with heq | hrun'
    · exact hhr run heq.symm (hlog run hrun)
    · exact ih (haft fun r he => hlog r (he ▸ mem_cons_self))
        (fun r hr => hlog r (mem_cons_of_mem _ hr)) run hrun'

theorem awaits_append (h1 : Awaits cleared good l1)
    (h2 : (∀ run, .save run ∈ l1 → cleared run) → Awaits cleared good l2) :
    Awaits cleared good (l1 ++ l2) := by
  induction l1 with
  | nil => exact h2 fun run hrun => absurd hrun not_mem_nil
  | cons e l1 ih =>
    obtain ⟨hhr, haft⟩ := awaits_cons.1 h1
    refine awaits_cons.2 ⟨hhr, fun he => ih (haft he) fun hall => h2 fun run hrun => ?_⟩
    exact (mem_cons.1 hrun).elim (fun heq => he run heq.symm) (hall run)

end

section

variable {supplied : List (String × String)} {run : WorkflowRun}

theorem Hashed.handling (h : Hashed wf supplied phase run) : Hashed wf supplied .handling run :=
  ⟨h.supplied, nofun, h.waiting, h.loops⟩

theorem Episode.awaits (h : Episode wf (hashTerms wf) run t) (hrun : Hashed wf supplied .handling run)
    (hclr : run.unhashed) : Awaits (·.unhashed) (Hashed wf supplied .handling) t.log := by
  cases h with
  | handled h =>
    obtain ⟨-, new, hlog, hsv⟩ := moves_saves (fun _ _ hmv => hmv.hashed) h hrun
    exact awaits_of_saves (hlog ▸ hsv)
  | @scheduled t1 _ h hsto h' =>
    obtain ⟨hrun1, new, hlog, hsv⟩ := moves_saves (fun _ _ hmv => hmv.hashed) h hrun
    have hlog1 : t1.log = new := hlog
    obtain ⟨new', hlog'⟩ : ∃ new', t.log = t1.log ++ new' := by
      obtain ⟨-, new', hlog', -⟩ := moves_saves (I := fun _ => True) (fun _ _ _ _ => trivial) h' trivial
      exact ⟨new', hlog'⟩
    rw [hlog']
    refine awaits_append (awaits_of_saves (hlog1 ▸ hsv)) fun hcle => ?_
    have hclear1 : t1.run.unhashed := by
      rw [← show persisted run t1.log = t1.run from hsto]
      exact persisted_of_saves hclr hcle
    obtain ⟨-, new'', hlog'', hsv''⟩ :=
      moves_saves (fun _ _ hmv => hmv.hashed) h'
        ⟨hrun1.supplied, fun _ => hclear1, hrun1.waiting, hrun1.loops⟩
    rw [hlog', append_cancel_left_eq] at hlog''
    exact awaits_of_saves fun r hr => (hsv'' r (hlog'' ▸ hr)).handling

/-- **What operations save keeps the hashes with their jobs**, while no pending entry with a hash is
saved. -/
theorem Reached.awaits (h : Reached wf (hashTerms wf) run log) (hrun : Hashed wf supplied .handling run)
    (hclr : run.unhashed) : Awaits (·.unhashed) (Hashed wf supplied .handling) log := by
  induction h with
  | nil => trivial
  | @cons run t log hepi _ _ ih =>
    have hhr := hepi.awaits hrun hclr
    refine awaits_append hhr fun hcle => ih ?_ ?_
    · exact persisted_of_saves hrun (hhr.saves hcle)
    · exact persisted_of_saves hclr hcle

theorem awaits_recovered {env : ReconcileEnv} (hrun : Hashed wf supplied .handling run) :
    Awaits (·.unhashed) (Hashed wf supplied .handling) (reconcileStuckWaitingSteps env run) := by
  unfold reconcileStuckWaitingSteps
  dsimp only
  split
  · trivial
  set run' := (stuckSteps env run).foldl _ run
  have hsp : ∀ id, run'.step id = _ := step_recovered_stuck env run
  -- an entry as it was, or taken up again
  have hcas : ∀ id sr', run'.step id = some sr' → run.step id = some sr' ∨
      ∃ sr, run.step id = some sr ∧ sr' = recovered env.now sr := by
    intro id sr' hsr'
    rw [hsp] at hsr'
    split at hsr'
    · obtain ⟨sr, hsr, rfl⟩ := Option.map_eq_some_iff.1 hsr'
      exact .inr ⟨sr, hsr, rfl⟩
    · exact .inl hsr'
  have hent : ∀ id, run'.entry id = run.entry id ∨ run'.entry id = recovered env.now (run.entry id) := by
    intro id
    rw [entry, entry, hsp]
    split
    · cases run.step id with
      | none => exact .inl rfl
      | some sr => exact .inr rfl
    · exact .inl rfl
  have hsvd : run'.unhashed → Hashed wf supplied .handling run' := by
    intro hclr
    refine ⟨fun c hc hhs => ?_, by simp, fun id hwt => ?_, fun own step hdef hlp => ?_⟩
    · obtain ⟨id, sr', hsr', hmem⟩ := mem_entries_iff.1 hc
      rcases hcas id sr' hsr' with hsr | ⟨sr, hsr, rfl⟩
      · exact hrun.supplied c (mem_entries_iff.2 ⟨id, sr', hsr, hmem⟩) hhs
      obtain ⟨hchs, hst⟩ := recovered_cases
      rcases hmem with rfl | ⟨key, hkey⟩
      · rcases hst with hpn | ⟨-, hjob, hsm⟩
        · exact absurd ((run'.unhashed_iff.1 hclr) _ hc (by rw [hpn]; rfl)) hhs
        · rw [hjob, hsm]
          exact hrun.supplied sr.toChildRun (mem_entries_iff.2 ⟨id, sr, hsr, .inl rfl⟩) (hsm ▸ hhs)
      · exact hrun.supplied c (mem_entries_iff.2 ⟨id, sr, hsr, .inr ⟨key, hchs ▸ hkey⟩⟩) hhs
    · rcases hent id with hsm | hrec
      · exact hrun.waiting id (hsm ▸ hwt)
      · rw [hrec] at hwt
        rcases recovered_cases.2 with hs | ⟨hs, -⟩ <;> rw [hs] at hwt <;> cases hwt
    · have hbef := hrun.loops own step hdef hlp
      rcases hent own with hsm | hrec
      · rwa [hsm]
      · rwa [hrec, recovered_cases.1]
  cases env.stuckSave with
  | ok | late => exact fun hclr => ⟨hsvd hclr, trivial⟩
  | lost => trivial

end

/-! ## Saves and calls -/

section

variable {supplied supplied' : List (String × String)} {run : WorkflowRun}
  {hash : ChildRun → String} {pending : Pending} {wanted : ChildRun → Prop} [DecidablePred wanted]

theorem status_mapHashes (hash : ChildRun → String) :
    ((run.mapHashes hash).entry id).status = (run.entry id).status := by
  rw [entry, step_mapHashes, entry]
  cases run.step id <;> rfl

theorem isSome_mapHashes (hash : ChildRun → String) (run : WorkflowRun) (id key : String) :
    (((run.mapHashes hash).entry id).children.lookup key).isSome =
      ((run.entry id).children.lookup key).isSome := by
  rw [entry, step_mapHashes, entry]
  cases run.step id with
  | none => rfl
  | some sr =>
    rw [Option.map_some, Option.getD_some, Option.getD_some, lookup_mapHashes, Option.isSome_map]

theorem Hashed.mono (h : Hashed wf supplied phase run) (hsub : ∀ p ∈ supplied, p ∈ supplied') :
    Hashed wf supplied' phase run :=
  ⟨fun c hc hne => ⟨(h.supplied c hc hne).1, hsub _ (h.supplied c hc hne).2⟩,
    h.unhashed, h.waiting, h.loops⟩

/-- Hashes are written where they are wanted. -/
theorem Hashed.mapHashes (h : Hashed wf supplied phase run) (hsub : ∀ p ∈ supplied, p ∈ supplied')
    (hnew : ∀ c ∈ run.entries, wanted c → hash c ≠ "" → trimSpace c.jobID ≠ "" ∧
      (c.jobID, hash c) ∈ supplied') :
    Hashed wf supplied' .handling (run.mapHashes fun c => if wanted c then hash c else c.auditHash) := by
  refine ⟨fun c' hc' hne => ?_, nofun, fun id hwt => ?_, fun own step hdef hlp i hi => ?_⟩
  · obtain ⟨c, hc, rfl⟩ := mem_entries_mapHashes hc'
    split at hne
    · rename_i hwd
      rw [if_pos hwd]
      exact hnew c hc hwd hne
    · rename_i hthe
      rw [if_neg hthe]
      exact (h.mono hsub).supplied c hc hne
  · rw [status_mapHashes] at hwt
    exact h.waiting id hwt
  · rw [isSome_mapHashes] at hi
    rw [length_of_sameKeys (isSome_mapHashes _ run own)]
    exact h.loops own step hdef hlp i hi

theorem unhashed_of_mapHashes (hwd : ∀ c, wanted c → c.auditHash = "")
    (h : (run.mapHashes fun c => if wanted c then hash c else c.auditHash).unhashed) : run.unhashed := by
  rw [unhashed_iff] at h ⊢
  intro c hc hfr
  by_cases hw : wanted c
  · exact hwd c hw
  · exact (if_neg hw).symm.trans (h _ (mem_mapHashes_entries _ hc) hfr)

theorem supplied_of_hashOf (h : Hashed wf supplied phase prev) {order : PairsOrder} {jobID hash : String}
    (hfd : hashOf (order prev.collectHashes).1 jobID = some hash) :
    trimSpace jobID ≠ "" ∧ (jobID, hash) ∈ supplied := by
  obtain ⟨p, hp, rfl⟩ := Option.map_eq_some_iff.1 hfd
  have hjob : p.1 = jobID := by simpa using find?_some hp
  have hmem := (order prev.collectHashes).2.mem_iff.1 (mem_of_find?_eq_some hp)
  obtain ⟨c, hc, rfl⟩ := mem_map.1 hmem
  obtain ⟨hc, hfil⟩ := mem_filter.1 hc
  have hne : c.auditHash ≠ "" := by
    rw [Bool.and_eq_true, decide_eq_true_eq, decide_eq_true_eq] at hfil
    exact hfil.2
  rw [← hjob]
  exact h.supplied c hc hne

theorem Hashed.merge (h : Hashed wf supplied phase run) (hpv : Hashed wf supplied phase prev)
    (order : Option PairsOrder) :
    Hashed wf supplied .handling (mergeHashes order prev run) := by
  cases order with
  | none => exact h.handling
  | some order =>
    refine h.mapHashes (fun p hp => hp) fun c hc hwd hne => ?_
    cases hfd : hashOf (order prev.collectHashes).1 c.jobID with
    | none =>
      rw [hfd] at hne
      exact absurd hwd.2 hne
    | some hash => exact supplied_of_hashOf hpv hfd

theorem unhashed_of_merge {order : Option PairsOrder} (h : (mergeHashes order prev run).unhashed) :
    run.unhashed := by
  cases order with
  | none => exact h
  | some order => exact unhashed_of_mapHashes (fun _ hwd => hwd.2) h

end

/-! ## Every run -/

/-- Every hash was supplied for the job its entry has. -/
def HashState.Supplied (s : HashState) : Prop :=
  ∀ c ∈ s.run.entries, c.auditHash ≠ "" → (c.jobID, c.auditHash) ∈ s.supplied

/-- An operation finds what is asked for. -/
def HashEvent.Meets (wf : Workflow) (s : HashState) : HashEvent → Prop
  | .begin op => s.todo = [] → op.Meets wf (hashTerms wf) s.run
  | .recover _ | .effect _ | .call _ _ => True

/-- Events that find what is asked for, while nothing pending has a hash. -/
def HashState.Cleared (wf : Workflow) (s : HashState) : List HashEvent → Prop
  | [] => s.run.unhashed
  | e :: events => s.run.unhashed ∧ e.Meets wf s ∧ (s.step e).Cleared wf events

/-- What holds after every event. -/
structure HashInv (wf : Workflow) (s : HashState) : Prop where
  supplied : ∀ p ∈ s.supplied, trimSpace p.1 ≠ ""
  pending : ∀ jobID hash, s.pending jobID = some hash → (jobID, hash) ∈ s.supplied
  run : Hashed wf s.supplied .handling s.run
  todo : Awaits (·.unhashed) (Hashed wf s.supplied .handling) s.todo

section

variable {s : HashState}

/-- A run that is saved has the hashes held back, and those stored. -/
theorem HashInv.save (h : HashInv wf s) (env : SaveEnv)
    (hlog : s.todo = .save payload :: todo) (hclr : ({ s with todo }.save env payload).run.unhashed) :
    HashInv wf ({ s with todo }.save env payload) := by
  have hpay := h.todo
  rw [hlog] at hpay
  obtain ⟨hgd, htd⟩ := hpay (unhashed_of_mapHashes (fun _ hwd => hwd.2) (unhashed_of_merge hclr))
  refine ⟨h.supplied, fun jobID hash hhd => ?_,
    (hgd.mapHashes (fun p hp => hp) fun c hc _ hne => ?_).merge h.run _, htd⟩
  · change (if _ then none else s.pending jobID) = some hash at hhd
    split at hhd
    · cases hhd
    · exact h.pending jobID hash hhd
  · cases hfil : (if env.readable c.jobID then s.pending c.jobID else none).filter
      fun hash => trimSpace hash ≠ "" with
    | none => exact absurd (congrArg (Option.getD · "") hfil) hne
    | some hash =>
      obtain ⟨hhd, -⟩ := Option.filter_eq_some_iff.1 hfil
      split at hhd
      · exact ⟨h.supplied _ (h.pending _ _ hhd), h.pending _ _ hhd⟩
      · cases hhd

theorem HashInv.call (h : HashInv wf s) (jobID auditHash : String) :
    HashInv wf (s.updateAuditHash jobID auditHash) := by
  unfold HashState.updateAuditHash
  dsimp only
  split
  · exact h
  rename_i hval
  have hjob : trimSpace (trimSpace jobID) ≠ "" := by
    rw [trimSpace_trimSpace]
    exact fun hemp => hval (.inl hemp)
  have hsub : ∀ p ∈ s.supplied, p ∈ (trimSpace jobID, trimSpace auditHash) :: s.supplied :=
    fun p hp => mem_cons_of_mem _ hp
  have hsup : ∀ p ∈ (trimSpace jobID, trimSpace auditHash) :: s.supplied, trimSpace p.1 ≠ "" := by
    intro p hp
    rcases mem_cons.1 hp with rfl | hp
    · exact hjob
    · exact h.supplied p hp
  have htd := h.todo.mono fun run hrun => hrun.mono hsub
  split
  · refine ⟨hsup, fun jobID' hash hhd => hsub _ (h.pending jobID' hash ?_),
      h.run.mapHashes hsub fun c hc hwd _ => ?_, htd⟩
    · dsimp only at hhd
      by_cases hsm : jobID' = trimSpace jobID
      · subst hsm
        rw [update_self] at hhd
        cases hhd
      · rwa [update_of_ne hsm] at hhd
    · rw [hwd.1]
      exact ⟨hjob, mem_cons_self⟩
  · refine ⟨hsup, fun jobID' hash hhd => ?_, h.run.mono hsub, htd⟩
    dsimp only at hhd
    by_cases hsm : jobID' = trimSpace jobID
    · subst hsm
      rw [update_self, Option.some.injEq] at hhd
      exact hhd ▸ mem_cons_self
    · rw [update_of_ne hsm] at hhd
      exact hsub _ (h.pending jobID' hash hhd)

/-- **One event.** -/
theorem HashInv.step (h : HashInv wf s) (hclr : s.run.unhashed) {e : HashEvent} (he : e.Meets wf s)
    (hclr' : (s.step e).run.unhashed) : HashInv wf (s.step e) := by
  cases e with
  | begin op =>
    unfold HashState.step
    dsimp only
    split
    · rename_i hil
      have hmts := he (isEmpty_iff.1 hil)
      exact ⟨h.supplied, h.pending, h.run, (RunOp.reached hmts).awaits h.run hclr⟩
    · exact h
  | recover env =>
    unfold HashState.step
    dsimp only
    split
    · exact ⟨h.supplied, h.pending, h.run, awaits_recovered h.run⟩
    · exact h
  | effect env =>
    have htd := h.todo
    unfold HashState.step at hclr' ⊢
    cases hlog : s.todo with
    | nil => exact h
    | cons e todo =>
      rw [hlog] at htd hclr'
      cases e with
      | save payload => exact h.save env hlog hclr'
      | _ => exact ⟨h.supplied, h.pending, h.run, htd⟩
  | call jobID auditHash => exact h.call jobID auditHash

theorem HashState.Cleared.head {events : List HashEvent} (h : s.Cleared wf events) : s.run.unhashed := by
  cases events with
  | nil => exact h
  | cons e events => exact h.1

theorem HashInv.after {events : List HashEvent} (h : HashInv wf s)
    (hclr : s.Cleared wf events) {pre : List HashEvent}
    (hpre : pre <+: events) : HashInv wf (s.after pre) := by
  induction events generalizing s pre with
  | nil =>
    rw [prefix_nil.1 hpre]
    exact h
  | cons e events ih =>
    cases pre with
    | nil => exact h
    | cons e' pre =>
      obtain ⟨rfl, hpre'⟩ := cons_prefix_cons.1 hpre
      obtain ⟨hhr, hmts, hrs⟩ := hclr
      exact ih (h.step hhr hmts hrs.head) hrs hpre'

end

theorem HashInv.created (hsts : run.steps = ∅) : HashInv wf { run } := by
  have hent := entry_of_created hsts
  have hes : run.entries = [] := by
    rw [entries, hsts]
    rfl
  refine ⟨fun p hp => absurd hp not_mem_nil, fun _ _ => nofun, ⟨fun c hc => ?_, nofun, fun id hwt => ?_,
    fun own step _ _ i hi => ?_⟩, trivial⟩
  · rw [hes] at hc
    exact absurd hc not_mem_nil
  · rw [hent] at hwt
    cases hwt
  · rw [hent] at hi
    cases hi

/-- **The hash of an entry was supplied for the job it has**, while no stored run has a pending entry
with a hash. -/
theorem hash_of_current_job {run : WorkflowRun} (hsteps : run.steps = ∅) {events : List HashEvent}
    (h : HashState.Cleared wf { run } events) :
    ∀ pre, pre <+: events → (HashState.after { run } pre).Supplied := by
  intro pre hpre c hc hne
  exact (((HashInv.created hsteps).after h hpre).run.supplied c hc hne).2

/-! ## Runs -/

/-- A hash in hexadecimal. -/
def eventHash : String := String.ofList (List.replicate 64 'a')

/-- The operation, with its effects. -/
def RunOp.events (op : RunOp) : List HashEvent := .begin op :: List.replicate 5 (.effect {})

/-- A job that is hashed while it runs, and succeeds. -/
theorem hash_of_current_job_succeeded :
    let run : WorkflowRun := { id := "run" }
    let events := (tried .worker 0).events ++ [.call "run:x@1" eventHash] ++
      (triedResult .worker "run:x@1" .succeeded 60).events
    ((HashState.after { run } events).run.step "x").map (fun sr => (sr.jobID, sr.auditHash)) =
      some ("run:x@1", eventHash) ∧ (HashState.after { run } events).Supplied := by
  have hsts : ∀ now, StepsMeet (triedTwice .worker)
      (hashTerms (triedTwice .worker)) now contextStored := by
    intro now
    refine ⟨fun id step hid => ⟨?_, trivial⟩, fun _ => nofun⟩
    rintro cfg ⟨⟩
    exact ⟨not_mem_nil, nodup_nil⟩
  have hid : (splitJobID "run:x@1").2 = "x" := by decide +kernel
  have hres : ∀ run res, (hashTerms (triedTwice .worker)).result run "x" res := by
    intro run res base step hsp
    rw [Prod.mk.injEq] at hsp
    exact absurd hsp.2 (by decide)
  intro run events
  have hcle : HashState.Cleared (triedTwice .worker) { run } events :=
    ⟨by decide +kernel, fun _ => meets_started (hsts _), by decide +kernel,
      trivial, by decide +kernel, trivial,
      by decide +kernel, trivial, by decide +kernel, trivial, by decide +kernel, trivial, by
      decide +kernel, trivial,
      by decide +kernel, fun _ => meets_resulted (hsts _) (hid.symm ▸ hres _ _), by
      decide +kernel, trivial,
      by decide +kernel, trivial, by decide +kernel, trivial, by decide +kernel, trivial, by
      decide +kernel, trivial, show unhashed _ = true by decide +kernel⟩
  exact ⟨by decide +kernel, hash_of_current_job rfl hcle events (prefix_refl _)⟩

/-- **The hash of a job that failed stays when the step is tried again**, beside the new job. -/
theorem hash_of_old_job :
    let run : WorkflowRun := { id := "run" }
    let s := HashState.after { run } ((tried .worker 0).events ++ [.call "run:x@1" eventHash] ++
      (triedResult .worker "run:x@1" .failed 60).events ++ (tried .worker 120).events)
    (s.run.step "x").map (fun sr => (sr.jobID, sr.auditHash)) = some ("run:x@2", eventHash) ∧
      s.supplied = [("run:x@1", eventHash)] ∧ ¬ s.Supplied := by
  unfold HashState.Supplied
  decide +kernel

end Cordum.Flow
