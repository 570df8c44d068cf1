import Cordum.Conc.Stable
import Cordum.Proof.Saving
import Mathlib.Data.List.Chain

/-!
# Audit hashes under concurrent saves

`UpdateRun` saves the run the engine holds, which may know less than the document. The script carries
the document's hashes over; `UpdateAuditHash` writes what it read, if nothing was written in between.

* `hashes_kept_iff`: over every interleaving.
* `deep_hash_lost`: a hash that is lost beside a deeply nested value.
-/

namespace Cordum.Flow

open Conc Prog List Option

variable {jobID hash auditHash : String}

namespace StepDoc

/-! ## Hashes of a document -/

mutual

theorem jobs_apply (hashes : List (String × String)) : (s : StepDoc) →
    (s.apply hashes).jobs = s.jobs.map fun p => (p.1, carried hashes p.1 p.2)
  | .null => rfl
  | .step jobID auditHash fields children => by
    have hchs := jobs_applyAll hashes children
    simp [apply, jobs, hchs]

theorem jobs_applyAll (hashes : List (String × String)) : (steps : List (String × StepDoc)) →
    jobsAll (applyAll hashes steps) = (jobsAll steps).map fun p => (p.1, carried hashes p.1 p.2)
  | [] => rfl
  | (id, s) :: steps => by
    have hs := jobs_apply hashes s
    have hsts := jobs_applyAll hashes steps
    simp [applyAll, jobsAll, hs, hsts]

end

mutual

theorem jobs_recode : (s : StepDoc) → s.recode.jobs = s.jobs
  | .null => rfl
  | .step jobID auditHash fields children => by
    have hchs := jobs_recodeAll children
    simp [recode, jobs, hchs]

theorem jobs_recodeAll : (steps : List (String × StepDoc)) → jobsAll (recodeAll steps) = jobsAll steps
  | [] => rfl
  | (id, s) :: steps => by
    have hs := jobs_recode s
    have hsts := jobs_recodeAll steps
    simp [recodeAll, jobsAll, hs, hsts]

end

/-- The hash of a step once its job's hash is stored. -/
def noted (jobID hash : String) (p : String × String) : String × String :=
  (p.1, if p.1 = jobID ∧ p.2 = "" then hash else p.2)

mutual

theorem jobs_setAuditHashForJob (jobID hash : String) : (s : StepDoc) →
    (s.setAuditHashForJob jobID hash).jobs = s.jobs.map (noted jobID hash)
  | .null => rfl
  | .step stepJob auditHash fields children => by
    have hchs := jobs_setAuditHashForJobAll jobID hash children
    simp [setAuditHashForJob, jobs, hchs, noted]

theorem jobs_setAuditHashForJobAll (jobID hash : String) : (steps : List (String × StepDoc)) →
    jobsAll (setAuditHashForJobAll jobID hash steps) = (jobsAll steps).map (noted jobID hash)
  | [] => rfl
  | (id, s) :: steps => by
    have hs := jobs_setAuditHashForJob jobID hash s
    have hsts := jobs_setAuditHashForJobAll jobID hash steps
    simp [setAuditHashForJobAll, jobsAll, hs, hsts]

end

mutual

theorem mem_collect {p : String × String} :
    (s : StepDoc) → (p ∈ s.collect ↔ p ∈ s.jobs ∧ p.1 ≠ "" ∧ p.2 ≠ "")
  | .null => by simp [collect, jobs]
  | .step jobID auditHash fields children => by
    have hchs := mem_collectAll (p := p) children
    simp only [collect, jobs, mem_append, hchs, mem_cons]
    split
    · rename_i hset
      constructor
      · rintro (hp | ⟨hp, hne⟩)
        · rw [mem_singleton] at hp
          subst hp
          exact ⟨.inl rfl, hset⟩
        · exact ⟨.inr hp, hne⟩
      · rintro ⟨rfl | hp, hne⟩
        · exact .inl (by simp)
        · exact .inr ⟨hp, hne⟩
    · rename_i hset
      constructor
      · rintro (hp | ⟨hp, hne⟩)
        · cases hp
        · exact ⟨.inr hp, hne⟩
      · rintro ⟨rfl | hp, hne⟩
        · exact absurd hne hset
        · exact .inr ⟨hp, hne⟩

theorem mem_collectAll {p : String × String} : (steps : List (String × StepDoc)) →
    (p ∈ collectAll steps ↔ p ∈ jobsAll steps ∧ p.1 ≠ "" ∧ p.2 ≠ "")
  | [] => by simp [collectAll, jobsAll]
  | (id, s) :: steps => by
    have hs := mem_collect (p := p) s
    have hsts := mem_collectAll (p := p) steps
    simp only [collectAll, jobsAll, mem_append, hs, hsts]
    tauto

end

theorem carried_ne {hashes : List (String × String)} (hne : ∀ p ∈ hashes, p.2 ≠ "")
    (hjob : jobID ≠ "") (hmem : (jobID, hash) ∈ hashes) : carried hashes jobID auditHash ≠ "" := by
  unfold carried
  split
  · obtain ⟨found, hfd⟩ := isSome_iff_exists.1 (hashOf_isSome.2 ⟨hash, hmem⟩)
    rw [hfd]
    obtain ⟨p, hp, rfl⟩ := map_eq_some_iff.1 hfd
    exact hne p (mem_of_find?_eq_some hp)
  · rename_i hemp
    exact fun h => hemp ⟨hjob, h⟩

end StepDoc

open StepDoc

variable {d d' payload : RunDoc} {ws : List DocWrite} {s t u k : RunKeys} {order : PairsOrder} {seen n : ℕ}

namespace RunDoc

/-- The document has a step with the job. -/
def Present (d : RunDoc) (jobID : String) : Prop := ∃ hash, (jobID, hash) ∈ d.jobs

/-- It has one with a hash. -/
def Hashed (d : RunDoc) (jobID : String) : Prop := ∃ hash, (jobID, hash) ∈ d.jobs ∧ hash ≠ ""

/-- It has one without a hash. -/
def Bare (d : RunDoc) (jobID : String) : Prop := (jobID, "") ∈ d.jobs

theorem Present.hashed (h : d.Present jobID) (hba : ¬ d.Bare jobID) : d.Hashed jobID := by
  obtain ⟨hash, hmem⟩ := h
  refine ⟨hash, hmem, ?_⟩
  rintro rfl
  exact hba hmem

/-- The later document keeps the job's hash: a step still there has one, and none is without. -/
def KeepsHash (d d' : RunDoc) (jobID : String) : Prop :=
  d.Hashed jobID → d'.Present jobID → d'.Hashed jobID ∧ (¬ d.Bare jobID → ¬ d'.Bare jobID)

/-- No job's hash is lost. -/
def Kept (d d' : RunDoc) : Prop := ∀ jobID, jobID ≠ "" → KeepsHash d d' jobID

end RunDoc

open RunDoc

theorem keepsHash_of_not_bare (h : d.Hashed jobID → ¬ d'.Bare jobID) :
    KeepsHash d d' jobID := fun hd hp => ⟨hp.hashed (h hd), fun _ => h hd⟩

theorem kept_setAuditHash (jobID hash : String) :
    Kept d { d with steps := setAuditHashForJobAll jobID hash d.steps } := by
  intro job hjob hd hp
  have hjs : ({ d with steps := setAuditHashForJobAll jobID hash d.steps }).jobs =
      d.jobs.map (noted jobID hash) := jobs_setAuditHashForJobAll jobID hash d.steps
  constructor
  · obtain ⟨old, hmem, hne⟩ := hd
    refine ⟨old, ?_, hne⟩
    rw [hjs]
    exact mem_map.2 ⟨_, hmem, by simp [noted, hne]⟩
  · intro hba hba'
    unfold Bare at hba'
    rw [hjs] at hba'
    obtain ⟨⟨job', old⟩, hmem, heq⟩ := mem_map.1 hba'
    simp only [noted, Prod.mk.injEq] at heq
    obtain ⟨rfl, hhs⟩ := heq
    split at hhs
    · rename_i hold
      exact hba (by rw [Bare, ← hold.2]; exact hmem)
    · subst hhs
      exact hba hmem

/-- **A save keeps the hashes when both documents can be decoded.** -/
theorem script_kept (hd : d.decodes) (hp : payload.decodes) :
    Kept d (updateRunScript order (some d) payload).1 := by
  intro job hjob
  apply keepsHash_of_not_bare
  rintro ⟨hash, hmem, hne⟩
  have hcol : (job, hash) ∈ collectAll d.steps := (mem_collectAll d.steps).2 ⟨hmem, hjob, hne⟩
  rcases updateRunScript_stored order (some d) payload with ⟨d', hd', -, hsto⟩ | ⟨hnot, hsto⟩
  · cases hd'
    rw [hsto]
    intro hba
    have hjs : ({ payload with steps := applyAll (order (collectAll d.steps)).1 payload.steps } :
      RunDoc).recode.jobs =
        payload.jobs.map fun p => (p.1, carried (order (collectAll d.steps)).1 p.1 p.2) := by
      simp only [RunDoc.jobs, RunDoc.recode, jobs_recodeAll, jobs_applyAll]
    unfold Bare at hba
    rw [hjs] at hba
    obtain ⟨⟨job', old⟩, -, heq⟩ := mem_map.1 hba
    simp only [Prod.mk.injEq] at heq
    obtain ⟨rfl, hemp⟩ := heq
    have hpm := (order (collectAll d.steps)).2
    have hnem : ∀ p ∈ (order (collectAll d.steps)).1, p.2 ≠ "" :=
      fun p hp => ((mem_collectAll d.steps).1 (hpm.mem_iff.1 hp)).2.2
    exact carried_ne hnem hjob (hpm.mem_iff.2 hcol) hemp
  · rw [hsto]
    intro hba
    exact hnot ⟨d, rfl, hd, hp, job, hba, hjob, hash, hcol⟩

/-- Both documents are within `cjson`'s depth, or the payload has the hashes itself. -/
def Mergeable (d payload : RunDoc) : Prop := (d.decodes ∧ payload.decodes) ∨ Kept d payload

/-- **A save keeps the hashes exactly when it is mergeable.** -/
theorem script_kept_iff : Kept d (updateRunScript order (some d) payload).1 ↔ Mergeable d payload := by
  by_cases hdec : d.decodes ∧ payload.decodes
  · exact iff_of_true (script_kept hdec.1 hdec.2) (.inl hdec)
  have hsto : (updateRunScript order (some d) payload).1 = payload := by
    rcases updateRunScript_stored order (some d) payload with
      ⟨d', hd', ⟨d'', hd'', hdec', hpay, -⟩, -⟩ | ⟨-, h⟩
    · cases hd''
      exact absurd ⟨hdec', hpay⟩ hdec
    · exact h
  rw [hsto]
  exact ⟨.inr, fun h => h.resolve_left hdec⟩

/-! ## Documents over time -/

namespace DocWrite

/-- The document before the write. -/
def prev : DocWrite → Option RunDoc
  | .saved _ prev _ => prev
  | .hashed prev _ => prev

/-- The document after the write. -/
def stored : DocWrite → RunDoc
  | .saved order prev payload => (updateRunScript order prev payload).1
  | .hashed _ stored => stored

/-- The write loses no hash. -/
def Keeps (w : DocWrite) : Prop := ∀ d, w.prev = some d → Kept d w.stored

end DocWrite

/-- The documents the run's key has held, the newest first. -/
def RunKeys.documents (k : RunKeys) : List RunDoc := k.doc.toList ++ k.writes.filterMap DocWrite.prev

/-- Each write replaced what the one before it had stored. -/
def Linked : List DocWrite → Option RunDoc → Prop
  | [], _ => True
  | w :: ws, doc => doc = some w.stored ∧ Linked ws w.prev

/-- **The property**: a job's stored hash stays, as long as the job does. -/
def HashesKept (k : RunKeys) : Prop :=
  ∀ jobID, jobID ≠ "" → ∀ after d' between d before, k.documents =
    after ++ d' :: (between ++ d :: before) → (∀ e ∈ between, e.Present jobID) → KeepsHash d d' jobID

theorem keepsHash_of_isChain (hjob : jobID ≠ "") {before : List RunDoc} :
    ∀ {between : List RunDoc} {d' : RunDoc}, (d' :: (between ++ d :: before)).IsChain
      (fun new old => Kept old new) → (∀ e ∈ between, e.Present jobID) → KeepsHash d d' jobID := by
  intro between
  induction between with
  | nil =>
    intro d' hchn _
    exact (isChain_cons_cons.1 hchn).1 jobID hjob
  | cons e between ih =>
    intro d' hchn hbet hd hp
    obtain ⟨hkp, hchn'⟩ := isChain_cons_cons.1 hchn
    have hmid := ih hchn' fun e' he' => hbet e' (mem_cons_of_mem _ he')
    obtain ⟨hhas, hba⟩ := hmid hd (hbet e mem_cons_self)
    obtain ⟨hhas', hba'⟩ := hkp jobID hjob hhas hp
    exact ⟨hhas', fun h => hba' (hba h)⟩

/-- **Hashes stay exactly when every document keeps those of the one before it.** -/
theorem hashesKept_iff_isChain : HashesKept k ↔ k.documents.IsChain fun new old => Kept old new := by
  constructor
  · intro h
    refine isChain_iff_forall_rel_of_append_cons_cons.2 fun d' d after before hdc jobID hjob => ?_
    exact h jobID hjob after d' [] d before hdc (by simp)
  · intro h jobID hjob after d' between d before hdc hbet
    rw [hdc, isChain_split] at h
    exact keepsHash_of_isChain hjob h.2 hbet

theorem writes_nil_of_none (h : Linked ws none) : ws = [] := by
  cases ws with
  | nil => rfl
  | cons w ws => cases h.1

theorem isChain_documents_iff {doc : Option RunDoc} (h : Linked ws doc) :
    (doc.toList ++ ws.filterMap DocWrite.prev).IsChain (fun new old => Kept old new) ↔
      ∀ w ∈ ws, w.Keeps := by
  induction ws generalizing doc with
  | nil => cases doc <;> simp
  | cons w ws ih =>
    obtain ⟨rfl, hlin⟩ := h
    rw [forall_mem_cons, ← ih hlin]
    cases hpv : w.prev with
    | none =>
      rw [hpv] at hlin
      rw [writes_nil_of_none hlin]
      simp [hpv, DocWrite.Keeps]
    | some d =>
      simp [hpv, DocWrite.Keeps]

/-! ## Interleavings -/

/-- The calls that write the document. -/
inductive HashOp
  | update (order : PairsOrder) (pending : Pending) (run : RunDoc)
  | audit (jobID auditHash : String)

/-- Their programs. -/
def HashOp.prog : HashOp → RunM Unit
  | .update order pending run => updateRun order pending run
  | .audit jobID auditHash => updateAuditHash jobID auditHash

/-- The key is written, or it is as it was. -/
def RunKeys.Later (s t : RunKeys) : Prop := s.version ≤ t.version ∧ (s.version = t.version → s.doc = t.doc)

theorem RunKeys.Later.rfl (s : RunKeys) : s.Later s := ⟨Nat.le_refl _, fun _ => Eq.refl _⟩

theorem RunKeys.Later.trans (h : s.Later t) (h' : t.Later u) : s.Later u := by
  refine ⟨Nat.le_trans h.1 h'.1, fun heq => ?_⟩
  have hst : s.version = t.version := by have := h.1; have := h'.1; omega
  have htu : t.version = u.version := by omega
  exact (h.2 hst).trans (h'.2 htu)

theorem runStep_later (c : RunCmd) (k : RunKeys) : k.Later (runStep c k).1 := by
  -- what writes the document counts the write
  have hwri : ∀ k' : RunKeys, k'.version = k.version + 1 → k.Later k' :=
    fun k' h => ⟨by omega, fun heq => by omega⟩
  cases c with
  | createTx run | script order payload | deleteTx run => exact hwri _ rfl
  | indexTx prevStatus run => exact ⟨Nat.le_refl _, fun _ => rfl⟩
  | get | watch => exact RunKeys.Later.rfl k
  | execSet seen payload =>
    dsimp only [runStep]
    split
    · exact hwri _ rfl
    · exact RunKeys.Later.rfl k

/-- The writes are linked, and those of `UpdateAuditHash` keep the hashes. -/
structure WritesOk (k : RunKeys) : Prop where
  linked : Linked k.writes k.doc
  hashed : ∀ prev next, .hashed prev next ∈ k.writes → (DocWrite.hashed prev next).Keeps

theorem WritesOk.script (h : WritesOk k) (order : PairsOrder) (payload : RunDoc) :
    WritesOk (runStep (.script order payload) k).1 := by
  refine ⟨⟨rfl, h.linked⟩, fun prev next hmem => ?_⟩
  rcases mem_cons.1 hmem with heq | hmem
  · cases heq
  · exact h.hashed prev next hmem

theorem WritesOk.execSet (h : WritesOk k) (hrd : k.version = seen → k.doc = some d) :
    WritesOk (runStep
      (.execSet seen { d with steps := setAuditHashForJobAll jobID hash d.steps }) k).1 := by
  dsimp only [runStep]
  split
  · rename_i hsn
    refine ⟨⟨rfl, h.linked⟩, fun prev next hmem => ?_⟩
    rcases mem_cons.1 hmem with heq | hmem
    · cases heq
      intro d' hd'
      have hsm : k.doc = some d' := hd'
      rw [hrd hsn, some.injEq] at hsm
      subst hsm
      exact kept_setAuditHash jobID hash
    · exact h.hashed prev next hmem
  · exact h

theorem updateAuditHashInRun_keeps (tries : ℕ) (k : RunKeys) :
    (updateAuditHashInRun jobID auditHash tries).Keeps runStep WritesOk RunKeys.Later
      (fun _ _ => True) k := by
  induction tries generalizing k with
  | zero => trivial
  | succ tries ih =>
    refine keeps_bind.2 (keeps_exec fun watched _ hok => ⟨hok, ?_⟩)
    refine keeps_bind.2 (keeps_exec fun read hrd hok => ⟨hok, ?_⟩)
    dsimp only [runStep]
    split
    · trivial
    rename_i run hdoc
    split
    · refine keeps_bind.2 (keeps_exec fun now hnow hok => ⟨?_, ?_⟩)
      · -- an unchanged version since `WATCH` means the document that was read
        refine hok.execSet fun hsn => ?_
        have hle := hrd.1
        have hle' := hnow.1
        dsimp only [runStep] at hle
        have hsm := hnow.2 (by omega)
        rw [← hsm, hdoc]
      · split
        · trivial
        · exact ih _
    · trivial

theorem HashOp.prog_keeps (op : HashOp) (k : RunKeys) :
    op.prog.Keeps runStep WritesOk RunKeys.Later (fun _ _ => True) k := by
  cases op with
  | update order pending run =>
    rw [HashOp.prog, updateRun]
    split
    · trivial
    refine keeps_bind.2 (keeps_exec fun t _ ht => ⟨ht.script order _, ?_⟩)
    refine keeps_bind.2 (keeps_cmd fun u _ hu => ?_)
    have hind : WritesOk
        (runStep (.indexTx (runStep (.script order (applyPendingAuditHashes pending run)) t).2
        (applyPendingAuditHashes pending run)) u).1 := ⟨hu.linked, hu.hashed⟩
    exact ⟨hind, trivial, trivial, trivial⟩
  | audit jobID auditHash =>
    rw [HashOp.prog, updateAuditHash]
    split
    · trivial
    · split
      · trivial
      · refine keeps_bind.2 (keeps_weaken (updateAuditHashInRun_keeps 5 k) fun _ _ _ => trivial)

/-- The keys after an interleaving of calls, on a run with the document `doc`. -/
def interleaved (doc : Option RunDoc) (acts : List (Action HashOp)) : RunKeys :=
  (World.run HashOp.prog runStep (World.init { doc }) acts).st

theorem interleaved_ok (doc : Option RunDoc) (acts : List (Action HashOp)) :
    WritesOk (interleaved doc acts) := by
  have hin : WritesOk { doc } := ⟨trivial, fun _ _ h => by cases h⟩
  have hac : World.SpawnsOnly (fun _ => True) acts := fun _ _ => trivial
  exact (World.run_keeps HashOp.prog runStep RunKeys.Later.rfl
    (fun _ _ _ => RunKeys.Later.trans) runStep_later (fun op k _ => op.prog_keeps k) hin hac).inv

/-- **Audit hashes survive every interleaving exactly when every save is mergeable.** -/
theorem hashes_kept_iff (doc : Option RunDoc) (acts : List (Action HashOp)) :
    HashesKept (interleaved doc acts) ↔
      ∀ order d payload, .saved order (some d) payload ∈ (interleaved doc acts).writes →
      Mergeable d payload := by
  have hok := interleaved_ok doc acts
  rw [hashesKept_iff_isChain, RunKeys.documents, isChain_documents_iff hok.linked]
  constructor
  · intro h order d payload hmem
    exact script_kept_iff.1 (h _ hmem d rfl)
  · intro h w hmem
    cases w with
    | hashed prev next => exact hok.hashed prev next hmem
    | saved order prev payload =>
      rintro d hd
      have hpv : prev = some d := hd
      subst hpv
      exact script_kept_iff.2 (h order d payload hmem)

/-- A value nested `n` deep. -/
def nestedValue : ℕ → Json
  | 0 => .null
  | n + 1 => .arr [nestedValue n]

theorem depth_nestedValue : (nestedValue n).depth = n := by
  induction n with
  | zero => rfl
  | succ n ih => simp [nestedValue, Json.depth, Json.depthItems, ih]

/-- A run with a job and perhaps a hash, and a value nested as deep as `cjson` goes. -/
def deepRun (auditHash : String) : RunDoc where
  workflowID := "wf"
  status := "running"
  steps := [("a", .step "run:a@1" auditHash [] [])]
  fields := [("context", nestedValue 1000)]

theorem deepRun_decodes : (deepRun auditHash).decodes = false := by
  simp [RunDoc.decodes, RunDoc.depth, deepRun, Json.depthMembers, depth_nestedValue, Json.maxDepth]

/-- A save of the run without its hash. -/
def deepSave : List (Action HashOp) :=
  [.spawn (.update .listed (fun _ => none) (deepRun "")), .sched 0 .none]

/-- **The hash is lost**: the script cannot decode the document. -/
theorem deep_hash_lost :
    (deepRun "ab").Hashed "run:a@1" ∧ (interleaved (some (deepRun "ab")) deepSave).doc =
      some (deepRun "") ∧ ¬ HashesKept (interleaved (some (deepRun "ab")) deepSave) := by
  have hhas : (deepRun "ab").Hashed "run:a@1" :=
    ⟨"ab", by simp [deepRun, RunDoc.jobs, jobsAll, StepDoc.jobs], by simp⟩
  have hst : interleaved (some (deepRun "ab")) deepSave =
      (runStep (.script (fun l => ⟨l, .refl l⟩) (deepRun "")) { doc := some (deepRun "ab") }).1 := rfl
  have hsto : (updateRunScript (fun l => ⟨l, .refl l⟩) (some (deepRun "ab")) (deepRun "")).1 =
      deepRun "" := by
    simp [updateRunScript, deepRun_decodes]
  have hdoc : (interleaved (some (deepRun "ab")) deepSave).doc = some (deepRun "") := by
    exact congrArg some hsto
  refine ⟨hhas, hdoc, fun h => ?_⟩
  have hdc : (interleaved (some (deepRun "ab")) deepSave).documents =
      [] ++ deepRun "" :: ([] ++ deepRun "ab" :: []) := by
    rw [RunKeys.documents, hdoc]
    rfl
  have hpre : (deepRun "").Present "run:a@1" := ⟨"", by simp [deepRun, RunDoc.jobs, jobsAll, StepDoc.jobs]⟩
  obtain ⟨⟨hash, hmem, hne⟩, -⟩ := h "run:a@1" (by decide) _ _ _ _ _ hdc (by simp) hhas hpre
  simp only [deepRun, RunDoc.jobs, jobsAll, StepDoc.jobs, append_nil, mem_singleton, Prod.mk.injEq] at hmem
  exact hne hmem.2

end Cordum.Flow
