import Cordum.Proof.Evidence
import Cordum.Scheduler.Approvals

/-!
# Can request labels bypass a human approval?

The engine takes a job as approved when the request says so by its labels, the stored decision asks
for approval, and the request hashes to what was checked. The hash leaves the approval labels out,
so whoever writes the labels grants the approval: a request submitted with them passes on its first
redelivery. Where no such request is submitted before a human approved, the stored request, the
approval record and the repair plans speak of an approval only after one was committed (`Sound`).

* `approval_not_bypassed`: it holds in every run without forged grants.
* `approval_bypassed`: a submission and its redelivery.
-/

namespace Cordum

open Conc GoString Prog ApprovalWorld ApprovalStep List JobKeys Option

variable {h : Hasher} {k : JobKeys} {r safety : SafetyDecisionRecord} {cfg : StoreConfig}
  {a : Attempt} {req : JobRequest} {fs fs' : List Fault} {s s' : Sys} {during H hash : String} {now : ℤ}

/-! ## Reading -/

theorem key_reads {c : KeyCmd} (hc : Reads (.key c)) :
    (key c during).Guar (fun c r => r = (store cfg c s.keys).2) Reads fun r => r =
      (keyStep cfg c s.keys).2 :=
  ⟨hc, trivial, fun _ hr => hr⟩

theorem approvedRequest_reads : approvedRequest.Guar (fun c r => r = (store cfg c s.keys).2) Reads
    fun o => ∀ req, o = some req → s.keys.request = some req ∧ labelGranted req.labels := by
  refine guar_seq getState_reads fun state => ?_
  split
  · exact nofun
  refine guar_bind (key_reads trivial) fun r hr => ?_
  cases r with
  | none => exact nofun
  | some req =>
    dsimp only
    split
    · rename_i hl
      rintro _ ⟨⟩
      exact ⟨hr.symm, by rw [labelGranted, hl]; decide +kernel⟩
    · exact nofun

theorem inspectApprovalRepair_reads :
    (inspectApprovalRepair cfg).Guar (fun c r => r = (store cfg c s.keys).2) Reads
    fun o => ∃ state req, s.keys.request = some req ∧
      o = approvalRepairSnapshot cfg.hasher state req s.keys.jobMeta.safetyRecord
        s.keys.jobMeta.approval := by
  unfold inspectApprovalRepair
  split
  · exact trivial
  refine guar_seq getState_reads fun state => ?_
  refine guar_bind (key_reads trivial) fun r hr => ?_
  cases r with
  | none => exact trivial
  | some req =>
    refine guar_bind (key_reads trivial) fun m hm => ?_
    refine guar_bind (key_reads trivial) fun m' hm' => ?_
    subst hm hm'
    exact ⟨state, req, hr.symm, rfl⟩

/-! ## The fast path -/

theorem hash_attachEffectiveConfig (h : Hasher) : h.hash (attachEffectiveConfig a req) = h.hash req := by
  unfold attachEffectiveConfig
  split
  · unfold Hasher.hash
    congr 1
    simp only [canonical, CanonicalRequest.mk.injEq, and_true, true_and]
    funext key
    split
    · rfl
    · rename_i hk; exact Finmap.lookup_insert_of_ne _ hk
  · rfl

/-- No approval was taken as granted. -/
def SafetyOutcome.NotGranted (o : SafetyOutcome) : Prop := ∀ r, o ≠ .granted r

theorem anyKey {c : KeyCmd} : (tryKey c).Guar (fun _ _ => True) (fun _ => True) fun _ => True :=
  ⟨trivial, trivial, fun _ _ => trivial⟩

theorem saveDecision_not_granted :
    (saveDecision a r).Guar (fun _ _ => True) (fun _ => True) SafetyOutcome.NotGranted := by
  refine guar_seq anyKey fun o => ?_
  cases o <;> exact fun _ h => by cases h

theorem fullCheck_not_granted : ((fullCheck h a req).run (engine cfg) fs s).ans ≠ .ok (.granted r) := by
  have hgr : (fullCheck h a req).Guar (fun _ _ => True) (fun _ => True) SafetyOutcome.NotGranted := by
    unfold fullCheck
    split_ifs
    · exact fun _ h => by cases h
    · exact fun _ h => by cases h
    · refine guar_seq anyKey fun m => ?_
      cases m with
      | none => exact fun _ h => by cases h
      | some m => exact saveDecision_not_granted
    · exact saveDecision_not_granted
  have hwp : (fullCheck h a req).wp (engine cfg) (fun r _ => True ∧ ∀ o, r = .ok o → o.NotGranted) s :=
    wp_of_guar (fun _ _ _ _ => ⟨trivial, trivial⟩) hgr trivial
  exact fun hr => (wp_run hwp fs).2 _ hr r rfl

/-- The fast path needs the label, and a request that hashes to what is stored. -/
theorem checkSafetyDecision_granted
    (hr : ((checkSafetyDecision h a req).run (engine cfg) fs s).ans = .ok (.granted r)) :
    labelGranted req.labels ∧ h.hash req = some s.jobHash := by
  unfold checkSafetyDecision at hr
  split at hr
  · rename_i hl
    rw [run_tryKey] at hr
    cases hm : ((store cfg).deliver (fs.headD .none) (.key .hgetAllMeta) s.keys).2 with
    | none => rw [hm] at hr; exact absurd hr fullCheck_not_granted
    | some m =>
      rw [hm] at hr
      have hm' : m = s.keys.jobMeta := ((store cfg).deliver_some hm).2
      dsimp only at hr
      split at hr
      · rename_i hg
        simp only [grantMatches, Bool.and_eq_true, beq_iff_eq] at hg
        refine ⟨hl, ?_⟩
        rw [hg.1.2, hm']
        rfl
      · exact absurd hr fullCheck_not_granted
  · exact absurd hr fullCheck_not_granted

/-- On the fast path the request is labelled, and hashes to the stored hash if there was one. -/
theorem fastPath_spec (hf : FastPath cfg s a req fs) :
    labelGranted req.labels ∧ (s.jobHash ≠ "" → cfg.hasher.hash req = some s.jobHash) := by
  obtain ⟨fs', s', r, hu, hr⟩ := hf
  obtain ⟨hl, hh⟩ := checkSafetyDecision_granted hr
  rw [attachEffectiveConfig_labels] at hl
  refine ⟨hl, fun hne => ?_⟩
  have hs' : ((untilSafety a req).run (engine cfg) fs s).st.jobHash = s.jobHash :=
    careful_run_jobHash untilSafety_careful hne rfl fs
  rw [hu] at hs'
  rw [← hash_attachEffectiveConfig, hh, hs']

/-! ## Resolutions and repairs -/

theorem tryStore_tx {α : Type} {c : KeyCmd} {f : c.Reply → StoreM α}
    (hf : ∀ r, ∃ x, f r = Prog.ofResult x) (fs : List Fault) (s : Sys) :
    ((tryStore (key c during >>= f)).run (engine cfg) fs s).st =
      if fs.headD .none = .lost then s else { s with keys := (keyStep cfg c s.keys).1 } := by
  have hend : ∀ r fs s, ((tryStore (f r)).run (engine cfg) fs s).st = s := by
    intro r fs s
    obtain ⟨x, hx⟩ := hf r
    rw [hx]
    cases x <;> rfl
  cases fs with
  | nil => exact hend _ _ _
  | cons x fs =>
    cases x with
    | none => exact hend _ _ _
    | lost | late => rfl

theorem ofTx_result {α : Type} (r : Except StoreErr α) : ∃ x, ofTx r = Prog.ofResult x :=
  ⟨r, by cases r <;> rfl⟩

theorem resolveApproval_st (cfg : StoreConfig) (p : ApprovalResolutionParams) (now : ℤ)
    (fs : List Fault) (s : Sys) :
    ((tryStore (resolveApproval cfg.jobID p now)).run (engine cfg) fs s).st = s ∨
    (trimSpace cfg.jobID ≠ "" ∧ fs.headD .none ≠ .lost ∧
      ((tryStore (resolveApproval cfg.jobID p now)).run (engine cfg) fs s).st =
        { s with keys := (resolveApprovalTx cfg.hasher p now s.keys).1 }) := by
  unfold resolveApproval
  split
  · exact .inl rfl
  rename_i hj
  rw [tryStore_tx ofTx_result]
  split
  · exact .inl rfl
  · rename_i hf; exact .inr ⟨hj, hf, rfl⟩

theorem applyApprovalRepair_st (cfg : StoreConfig) (p : ApprovalRepairApplyParams) (now : ℤ)
    (fs : List Fault) (s : Sys) :
    ((tryStore (applyApprovalRepair cfg.jobID p now)).run (engine cfg) fs s).st = s ∨
    ((tryStore (applyApprovalRepair cfg.jobID p now)).run (engine cfg) fs s).st =
      { s with keys := (applyApprovalRepairTx cfg.jobID p now s.keys).1 } := by
  unfold applyApprovalRepair
  split_ifs
  · exact .inl rfl
  · exact .inl rfl
  · rw [tryStore_tx ofTx_result]
    split
    · exact .inl rfl
    · exact .inr rfl

/-- A resolution that does not approve, and stamps no grant, leaves no trace. -/
theorem resolveApprovalTx_unapproved {p : ApprovalResolutionParams} (hu : Unapproved k)
    (hp : p.decision ≠ .approve) (hl : ∀ kv ∈ p.labelUpdates, kv.1 ≠ labelApprovalGranted) :
    Unapproved (resolveApprovalTx h p now k).1 := by
  rcases resolveApprovalTx_cases h p now k with ⟨e, he⟩ | ⟨cur, rec, req, approval,
    safety, hc, hd, hst, -, he⟩
  · rw [he]; exact hu
  have hsta : p.decision.status ≠ .approved := by
    intro h'; apply hp; cases hp' : p.decision <;> rw [hp'] at h' <;> first | rfl | cases h'
  rw [he]
  refine unapproved_of_evidence (commitState_evidence _ _ _ _) ⟨?_, ?_, ?_, ?_⟩
  · rw [hd]; exact fun h' => hp (some.inj h')
  · rw [hst]; exact fun h' => hsta (some.inj h')
  · rw [hst]; exact fun h' => by cases h'
  · intro r hr
    cases hr
    have := hu.label req (resolveApprovalChecks_ok hc).request
    rw [labelGranted] at this ⊢
    rwa [applyLabelUpdates_get hl]

/-- A harmless repair leaves no trace of an approval. -/
theorem applyApprovalRepairTx_unapproved {p : ApprovalRepairApplyParams} (hu : Unapproved k)
    (hp : p.plan.Harmless) :
    Unapproved (applyApprovalRepairTx cfg.jobID p now k).1 := by
  rcases applyApprovalRepairTx_cases cfg.jobID p now k with
    ⟨e, he⟩ | ⟨-, _, -, he⟩ | ⟨cur, target, repaired, -, hk, -, ht, hrep, he⟩
  · rw [he]; exact hu
  · rw [he]; exact hu
  · obtain ⟨hkd, hk' | ht' | ⟨d, hd, hdec, hst⟩⟩ := hp
    · exact absurd hk' hk
    · rw [ht] at ht'; cases ht'
    · have hdc : repaired.decision = some d := by rw [hrep]; simp [repairedRecord, hdec]
      have hsta : repaired.status = some d.status := by rw [hrep]; simp [repairedRecord, hst]
      rw [he]
      refine unapproved_of_evidence (commitState_evidence _ _ _ _) ⟨?_, ?_, ?_, ?_⟩
      · rw [hdc]; exact fun h' => hd (some.inj h')
      · rw [hsta]; cases d <;> first | exact absurd rfl hd | exact fun h' => by cases h'
      · rw [hsta]; exact fun h' => by cases h'
      · intro r hr
        obtain ⟨req, hreq, rfl⟩ := map_eq_some_iff.1 hr
        rw [repairRequest, if_neg hkd]
        exact hu.label req hreq

/-- Without a trace of an approval, a waiting job does not read as approved. -/
theorem derived_unapproved (hu : Unapproved k) (safety : SafetyDecisionRecord) :
    derivedApprovalStatus (some .approval) safety k.jobMeta.approval ≠ some .approved := by
  unfold derivedApprovalStatus
  cases hs : k.jobMeta.approval.status with
  | some st => exact fun h => hu.status (hs.trans h)
  | none =>
    cases hd : k.jobMeta.approval.decision with
    | some d => cases d <;> first | exact absurd hd hu.decision | exact fun h => by cases h
    | none =>
      dsimp only
      rw [hu.blank hs]
      split <;> simp

theorem snapshot_unapproved (hu : Unapproved k) {state : JobState} (hreq : k.request = some req)
    (hsta : (approvalRepairSnapshot h state req safety k.jobMeta.approval).state = .approval) :
    (approvalRepairSnapshot h state req safety k.jobMeta.approval).approved = false := by
  obtain rfl : state = .approval := hsta
  have hst := derived_unapproved hu safety
  have hdec : derivedApprovalDecision { k.jobMeta.approval with
      status := derivedApprovalStatus (some .approval) safety k.jobMeta.approval } ≠ some .approve := by
    unfold derivedApprovalDecision
    cases hd : k.jobMeta.approval.decision with
    | some d => exact fun h => hu.decision (hd.trans h)
    | none =>
      dsimp only
      split <;> first | exact absurd ‹_› hst | exact fun h => by cases h
  simp only [ApprovalRepairSnapshot.approved, approvalRepairSnapshot, Bool.or_eq_false_iff,
    beq_eq_false_iff_ne, hu.label req hreq, and_true]
  exact ⟨hdec, hst⟩

/-! ## Runs -/

/-- Every use of the fast path follows a committed approval of the same hash. -/
def NotBypassed (cfg : StoreConfig) (w : ApprovalWorld) (cs : List (ApprovalStep × List Fault)) : Prop :=
  ∀ before c after hash, cs = before ++ c :: after → TakesFastPath cfg (worldAfter cfg w before) c hash →
    ∃ h, hash = some h ∧ ApprovedIn cfg w before h

/-- A request labelled as granted is submitted only after an approval was committed, and only
approvals stamp a grant. -/
structure Unforged (cfg : StoreConfig) (w : ApprovalWorld)
    (cs : List (ApprovalStep × List Fault)) : Prop where
  submit : ∀ before a req fs after, cs = before ++ (.submit a req, fs) :: after → labelGranted req.labels →
    ∃ h, ApprovedIn cfg w before h
  resolve : ∀ p now fs, (.resolveApproval p now, fs) ∈ cs → p.decision ≠ .approve →
    ∀ kv ∈ p.labelUpdates, kv.1 ≠ labelApprovalGranted

/-- Committed approvals are of the stored hash, and nothing speaks of an approval before one. -/
structure Sound (cfg : StoreConfig) (w : ApprovalWorld)
    (cs : List (ApprovalStep × List Fault)) : Prop where
  hash : ∀ h, ApprovedIn cfg w cs h → h ≠ "" ∧ (worldAfter cfg w cs).sys.jobHash = h
  trace : (∃ h, ApprovedIn cfg w cs h) ∨
    (Unapproved (worldAfter cfg w cs).sys.keys ∧ ∀ p ∈ (worldAfter cfg w cs).plans, p.Harmless)

variable {w : ApprovalWorld}

theorem replay_cases (cfg : StoreConfig) (a : Attempt) (fs : List Fault) (s : Sys) :
    ((replayApproved cfg.hasher a).run (engine cfg) fs s).st = s ∧
      (ApprovalStep.replayApproved a).handles cfg fs s = none ∨
    ∃ req fs', s.keys.request = some req ∧ labelGranted req.labels ∧
      (replayApproved cfg.hasher a).run (engine cfg) fs s = (handleJobRequest cfg.hasher a req).run
        (engine cfg) fs' s ∧
      (ApprovalStep.replayApproved a).handles cfg fs s = some (a, req, fs', s) := by
  obtain ⟨hst, hpo⟩ := tryStore_reads cfg s approvedRequest_reads fs
  unfold replayApproved handles
  rw [bind_eq, run_bind]
  cases ho : (tryStore approvedRequest).run (engine cfg) fs s with
  | mk ans fs' s' =>
    rw [ho] at hst hpo
    obtain rfl : s' = s := hst
    rcases ans with e | (e | (_ | req))
    · exact .inl ⟨rfl, rfl⟩
    · exact .inl ⟨rfl, rfl⟩
    · exact .inl ⟨rfl, rfl⟩
    · obtain ⟨hreq, hl⟩ := hpo (some req) rfl req rfl
      exact .inr ⟨req, fs', hreq, hl, rfl, rfl⟩

/-- The reconciler's look changes nothing, and plans no approval without a trace of one. -/
theorem classify_cases (cfg : StoreConfig) (opts : ApprovalRepairClassifyOptions)
    (fs : List Fault) (w : ApprovalWorld) :
    (w.step cfg fs (.classifyRepair opts)).sys = w.sys ∧
      (Unapproved w.sys.keys → (∀ p ∈ w.plans, p.Harmless) →
        ∀ p ∈ (w.step cfg fs (.classifyRepair opts)).plans, p.Harmless) := by
  obtain ⟨hst, hpo⟩ := tryStore_reads cfg w.sys inspectApprovalRepair_reads fs
  unfold step
  cases ho : (tryStore (inspectApprovalRepair cfg)).run (engine cfg) fs w.sys with
  | mk ans fs' s' =>
    rw [ho] at hst hpo
    obtain rfl : s' = w.sys := hst
    rcases ans with e | (e | snapshot)
    · exact ⟨rfl, fun _ hp => hp⟩
    · exact ⟨rfl, fun _ hp => hp⟩
    · refine ⟨rfl, fun hu hp p hmem => ?_⟩
      rcases mem_append.1 hmem with hmem | hmem
      · exact hp p hmem
      obtain rfl := mem_singleton.1 hmem
      obtain ⟨state, req, hreq, hsn⟩ := hpo snapshot rfl
      rcases classifyApprovalRepair_cases snapshot opts with ⟨hsta, happ⟩ | h
      · rw [hsn] at hsta happ
        rw [snapshot_unapproved hu hreq hsta] at happ
        cases happ
      · exact h

theorem step_jobHash (hne : H ≠ "") (hs : w.sys.jobHash = H) (fs : List Fault) (c : ApprovalStep) :
    (w.step cfg fs c).sys.jobHash = H := by
  cases c with
  | submit a req => exact careful_run_jobHash handleJobRequest_careful hne hs fs
  | replayApproved a =>
    rcases replay_cases cfg a fs w.sys with ⟨h, -⟩ | ⟨req, fs', -, -, h, -⟩
    · simp only [step, h, hs]
    · simp only [step, h]
      exact careful_run_jobHash handleJobRequest_careful hne hs fs'
  | resolveApproval p now =>
    rcases resolveApproval_st cfg p now fs w.sys with h | ⟨-, -, h⟩
    · simp only [step, h, hs]
    simp only [step, h, Sys.jobHash]
    rcases resolveApprovalTx_cases cfg.hasher p now w.sys.keys with
      ⟨e, he⟩ | ⟨_, _, _, _, _, -, -, -, hsf, he⟩
    · rw [he]; exact hs
    · rw [he, commitState_safety]; exact hsf.trans hs
  | classifyRepair opts => rw [(classify_cases cfg opts fs w).1]; exact hs
  | applyRepair i actor note now =>
    simp only [step]
    split
    · rename_i plan _
      rcases applyApprovalRepair_st cfg ⟨plan, actor, note⟩ now fs w.sys with h | h
      · simp only [h, hs]
      simp only [h, Sys.jobHash]
      rcases applyApprovalRepairTx_cases cfg.jobID ⟨plan, actor, note⟩ now w.sys.keys with
        ⟨e, he⟩ | ⟨-, _, -, he⟩ | ⟨_, _, _, -, -, -, -, -, he⟩
      · rw [he]; exact hs
      · rw [he]; exact hs
      · rw [he, commitState_safety]; exact hs
    · exact hs

theorem commitsApprove_hash {c : ApprovalStep × List Fault} (h : CommitsApprove cfg w c hash) :
    hash ≠ "" ∧ w.sys.jobHash = hash := by
  obtain ⟨p, now, r, req, -, hp, -, -, hc, hreq, hh⟩ := h
  obtain ⟨-, -, -, -, hreq', happ⟩ := resolveApprovalChecks_ok hc
  obtain ⟨hne, hh'⟩ := happ hp
  rw [hreq] at hreq'
  cases hreq'
  rw [hh] at hh'
  cases hh'
  exact ⟨hne, rfl⟩

/-- A step that commits no approval and forges no grant leaves no trace of one. -/
theorem step_unapproved {c : ApprovalStep} (hu : Unapproved w.sys.keys) (hpls : ∀ p ∈ w.plans, p.Harmless)
    (hsub : ∀ a req, c = .submit a req → labelGranted req.labels = false)
    (hres : ∀ p now, c = .resolveApproval p now → p.decision ≠ .approve →
      ∀ kv ∈ p.labelUpdates, kv.1 ≠ labelApprovalGranted) (hno : ¬ ∃ h, CommitsApprove cfg w (c, fs) h) :
    Unapproved (w.step cfg fs c).sys.keys ∧ ∀ p ∈ (w.step cfg fs c).plans, p.Harmless := by
  cases c with
  | submit a req =>
    exact ⟨careful_run_unapproved handleJobRequest_careful (hsub a req rfl) hu fs, hpls⟩
  | replayApproved a =>
    refine ⟨?_, hpls⟩
    rcases replay_cases cfg a fs w.sys with ⟨h, -⟩ | ⟨req, fs', hreq, hl, -, -⟩
    · simp only [step, h]; exact hu
    · rw [hu.label req hreq] at hl; cases hl
  | resolveApproval p now =>
    refine ⟨?_, hpls⟩
    rcases resolveApproval_st cfg p now fs w.sys with h | ⟨hj, hf, h⟩
    · simp only [step, h]; exact hu
    simp only [step, h]
    by_cases hp : p.decision = .approve
    · rcases resolveApprovalTx_cases cfg.hasher p now w.sys.keys with
        ⟨e, he⟩ | ⟨cur, rec, req, _, _, hc, -, -, -, -⟩
      · rw [he]; exact hu
      · obtain ⟨-, -, -, -, hreq, happ⟩ := resolveApprovalChecks_ok hc
        exact absurd ⟨_, p, now, _, req, rfl, hp, hj, hf, hc, hreq, (happ hp).2⟩ hno
    · exact resolveApprovalTx_unapproved hu hp (hres p now rfl hp)
  | classifyRepair opts =>
    obtain ⟨hsys, hp⟩ := classify_cases cfg opts fs w
    exact ⟨by rw [hsys]; exact hu, hp hu hpls⟩
  | applyRepair i actor note now =>
    simp only [step]
    split
    · rename_i plan hpl
      refine ⟨?_, hpls⟩
      rcases applyApprovalRepair_st cfg ⟨plan, actor, note⟩ now fs w.sys with h | h
      · simp only [h]; exact hu
      · simp only [h]; exact applyApprovalRepairTx_unapproved hu (hpls plan (mem_of_getElem? hpl))
    · exact ⟨hu, hpls⟩

/-! ## Whole runs -/

variable {cs cs' before after : List (ApprovalStep × List Fault)} {c : ApprovalStep × List Fault}

theorem approvedIn_snoc :
    ApprovedIn cfg w (cs ++ [c]) hash ↔ ApprovedIn cfg w cs hash ∨
      CommitsApprove cfg (worldAfter cfg w cs) c hash :=
  exists_split_snoc

theorem Unforged.of_append (h : Unforged cfg w (cs ++ cs')) : Unforged cfg w cs where
  submit before a req fs after hcs := h.submit before a req fs (after ++ cs') (by rw [hcs]; simp)
  resolve p now fs hmem := h.resolve p now fs (mem_append_left _ hmem)

theorem Sound.snoc (hs : Sound cfg w cs) (hu : Unforged cfg w (cs ++ [c])) : Sound cfg w (cs ++ [c]) where
  hash h happ := by
    -- the approval was of the hash stored then, and the step keeps it
    have hold : h ≠ "" ∧ (worldAfter cfg w cs).sys.jobHash = h := by
      rcases approvedIn_snoc.1 happ with happ | happ
      · exact hs.hash h happ
      · exact commitsApprove_hash happ
    rw [worldAfter_snoc]
    exact ⟨hold.1, step_jobHash hold.1 hold.2 c.2 c.1⟩
  trace := by
    rcases hs.trace with ⟨h, happ⟩ | ⟨hun, hpls⟩
    · exact .inl ⟨h, approvedIn_snoc.2 (.inl happ)⟩
    by_cases hno : ∃ h, ApprovedIn cfg w (cs ++ [c]) h
    · exact .inl hno
    have hbef : ¬ ∃ h, ApprovedIn cfg w cs h := fun ⟨h, happ⟩ => hno ⟨h, approvedIn_snoc.2 (.inl happ)⟩
    rw [worldAfter_snoc]
    refine .inr (step_unapproved hun hpls ?_ ?_ fun ⟨h, hc⟩ => hno ⟨h, approvedIn_snoc.2 (.inr hc)⟩)
    · intro a req hc
      have := hu.submit cs a req c.2 [] (by rw [← hc])
      rw [← Bool.not_eq_true]
      exact fun hl => hbef (this hl)
    · intro p now hc
      exact hu.resolve p now c.2 (mem_append_right _ (by rw [← hc]; simp))

theorem sound_of_unforged (hin : Unapproved w.sys.keys) (hpls : ∀ p ∈ w.plans, p.Harmless)
    (hu : Unforged cfg w cs) : Sound cfg w cs := by
  induction cs using reverseRecOn with
  | nil => exact ⟨by rintro h ⟨b1, c, b2, hcs, -⟩; simp at hcs, .inr ⟨hin, hpls⟩⟩
  | append_singleton cs c ih => exact (ih hu.of_append).snoc hu

/-- Without a forged grant, a step that handles a request labelled as granted comes after an approval. -/
theorem handles_approved (hs : Sound cfg w before) (hu : Unforged cfg w (before ++ c :: after))
    (hh : c.1.handles cfg c.2 (worldAfter cfg w before).sys = some (a, req, fs, s))
    (hl : labelGranted req.labels) :
    s = (worldAfter cfg w before).sys ∧ ∃ h, ApprovedIn cfg w before h := by
  obtain ⟨c, fs0⟩ := c
  cases c with
  | submit a' req' =>
    cases hh
    exact ⟨rfl, hu.submit before _ _ _ after rfl hl⟩
  | replayApproved a' =>
    rcases replay_cases cfg a' fs0 (worldAfter cfg w before).sys with
      ⟨-, hn⟩ | ⟨req', fs', hreq, hl', -, hso⟩
    · rw [hn] at hh; cases hh
    rw [hso] at hh
    cases hh
    refine ⟨rfl, hs.trace.resolve_right fun ⟨hun, _⟩ => ?_⟩
    rw [hun.label _ hreq] at hl
    cases hl
  | resolveApproval p now | classifyRepair opts | applyRepair i actor note now => cases hh

/-- **Approval cannot be bypassed without a forged grant.** From a job without a trace of an approval,
over any submissions, redeliveries, replays, resolutions and repairs, with any faults: whenever the
engine takes the job as approved, an approval of a request with the same hash was committed before. -/
theorem approval_not_bypassed (hinit : Unapproved w.sys.keys) (hplans : w.plans = [])
    (hu : Unforged cfg w cs) :
    NotBypassed cfg w cs := by
  rintro before c after hash rfl ⟨a, req, fs, s, hh, hfs, rfl⟩
  have hs : Sound cfg w before := sound_of_unforged hinit (by simp [hplans]) hu.of_append
  obtain ⟨hl, heq⟩ := fastPath_spec hfs
  obtain ⟨rfl, h, happ⟩ := handles_approved hs hu hh hl
  obtain ⟨hne, hhs⟩ := hs.hash h happ
  exact ⟨h, by rw [heq (by rwa [hhs]), hhs], happ⟩

/-- The policy asks for approval. -/
def askingAttempt : Attempt where
  verdict := { decision := some .requireApproval, approvalRequired := true, policySnapshot := "v1" }
  picks := fun _ => .subject "worker.w1.jobs" true
  dispatchID := "d1"

/-- A request labelled as granted. -/
def grantedRequest : JobRequest :=
  { exampleRequest with
    labels := ((∅ : StrMap).insert labelApprovalGranted "true").insert labelApprovalSnapshot "v1" }

/-- An approval of the request. -/
def exampleApproval : ApprovalResolutionParams where
  decision := .approve
  resultState := .pending
  labelUpdates := [(labelApprovalGranted, "true"), (labelApprovalSnapshot, "v1")]

/-- Submitted, approved and replayed. -/
def approvedRun : List (ApprovalStep × List Fault) :=
  [(.submit askingAttempt exampleRequest, []), (.resolveApproval exampleApproval 1, [])]

theorem approvedRun_approved : ApprovedIn exampleConfig {} approvedRun "hash" := by
  refine ⟨[(.submit askingAttempt exampleRequest, [])],
    (.resolveApproval exampleApproval 1, []), [], rfl, ?_⟩
  have hok : (resolveApprovalChecks exampleConfig.hasher exampleApproval
      (worldAfter exampleConfig {} [(.submit askingAttempt exampleRequest, [])]).sys.keys).isOk := by
      decide +kernel
  cases hc : resolveApprovalChecks exampleConfig.hasher exampleApproval
      (worldAfter exampleConfig {} [(.submit askingAttempt exampleRequest, [])]).sys.keys with
  | ok r => exact ⟨_, _, r, r.2.2, rfl,
      rfl, by decide +kernel, nofun, hc, (resolveApprovalChecks_ok hc).request, rfl⟩
  | error e => rw [hc] at hok; cases hok

theorem takesFastPath_submit (hu : ((untilSafety a req).run (engine cfg) fs w.sys).ans = .ok true)
    (hr : ((checkSafetyDecision cfg.hasher a (attachEffectiveConfig a req)).run (engine cfg)
      ((untilSafety a req).run (engine cfg) fs w.sys).rest
    ((untilSafety a req).run (engine cfg) fs w.sys).st).ans =
        .ok (.granted r)) : TakesFastPath cfg w (.submit a req, fs) (cfg.hasher.hash req) :=
  ⟨a, req, fs, w.sys, rfl, ⟨_, _, r, Out.eq_of_ans hu, hr⟩, rfl⟩

/-- An approved request, published again by the gateway, takes the fast path. -/
theorem approvedRun_not_bypassed :
    TakesFastPath exampleConfig (worldAfter exampleConfig {} approvedRun)
      (.submit askingAttempt grantedRequest, []) (some "hash") ∧
    NotBypassed exampleConfig {} (approvedRun ++ [(.submit askingAttempt grantedRequest, [])]) := by
  refine ⟨takesFastPath_submit (r := grantedRecord
    (worldAfter exampleConfig {} approvedRun).sys.keys.jobMeta.safetyRecord 0) (by decide +kernel)
      (by decide +kernel), ?_⟩
  refine approval_not_bypassed ⟨nofun, nofun, fun _ => rfl, nofun⟩ rfl ⟨?_, ?_⟩
  · intro before a req fs after hcs hl
    match before, hcs with
    | [], hcs => cases hcs; exact absurd hl (by decide +kernel)
    | [_], hcs => cases hcs
    | [_, _], hcs => cases hcs; exact ⟨_, approvedRun_approved⟩
    | _ :: _ :: _ :: _, hcs => simp [approvedRun] at hcs
  · intro p now fs hmem hp
    obtain rfl : p = exampleApproval := by
      simp only [approvedRun, cons_append, nil_append, mem_cons, Prod.mk.injEq,
        resolveApproval.injEq, not_mem_nil, or_false, reduceCtorEq, false_and, false_or] at hmem
      exact hmem.1.1
    exact absurd rfl hp

/-- **A redelivered request approves itself.** The first handling asks for approval, the second takes
it as given by the labels and dispatches the job. -/
theorem approval_bypassed :
    (worldAfter exampleConfig {} [(.submit askingAttempt grantedRequest, [])]).sys.keys.jobMeta.state =
      some .approval ∧
    (worldAfter exampleConfig {}
      [(.submit askingAttempt grantedRequest, []),
        (.submit askingAttempt grantedRequest, [])]).sys.keys.runtime.state = some .running ∧
    ¬ NotBypassed exampleConfig {}
      [(.submit askingAttempt grantedRequest, []), (.submit askingAttempt grantedRequest, [])] := by
  refine ⟨by decide +kernel, by decide +kernel, fun h => ?_⟩
  obtain ⟨_, -, b₁, c, b₂, hcs, p, now, r, req, hc, -⟩ :=
    h [(.submit askingAttempt grantedRequest, [])] _ [] _ rfl
    (takesFastPath_submit (r := grantedRecord
      (worldAfter exampleConfig {}
        [(.submit askingAttempt grantedRequest, [])]).sys.keys.jobMeta.safetyRecord 0)
      (by decide +kernel) (by decide +kernel))
  have hmem : c ∈ [(submit askingAttempt grantedRequest, [])] := by rw [hcs]; simp
  rw [mem_singleton.1 hmem] at hc
  cases hc

end Cordum
