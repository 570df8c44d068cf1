import Cordum.Scheduler.Frame

/-!
# A handling and the evidence of an approval

Whether a job counts as approved is read off its approval record, its stored request and the hash of
the request that was checked. A handling never writes an approval into the record, and never replaces
a stored hash (`handleJobRequest_careful`). So a hash stays (`careful_run_jobHash`), and a job without
a trace of an approval stays so when its request is not labelled as granted
(`careful_run_unapproved`).
-/

namespace Cordum

open Conc GoString Prog

variable {h : Hasher} {req' : JobRequest} {α : Type} {cfg : StoreConfig} {a : Attempt}
  {req : JobRequest} {s s' : Sys} {H : String}

/-! ## What a handling writes of the evidence -/

/-- A saved decision leaves the lifecycle and the hash `H` alone. -/
def SavesSafely (H : String) (c : EngineCmd) : Prop :=
  ∃ r now, c = .inl (.key (.setSafetyDecision r now)) ∧ r.approvalStatus = none ∧
    r.approvalDecision = none ∧ (H ≠ "" → r.jobHash = "" ∨ r.jobHash = H)

/-- The command leaves the approval of hash `H` alone. -/
def Careful (H : String) (req : JobRequest) (c : EngineCmd) : Prop :=
  Stores req c ∨ c = .inl (.key .clearDelegationToken) ∨ SavesSafely H c

/-- The meta hash has the hash `H`, once there is one. -/
def HashRead (H : String) : (c : EngineCmd) → c.Reply → Prop
  | .inl (.key .hgetAllMeta), m => H ≠ "" → (m : Meta).safety.jobHash = H
  | _, _ => True

/-- A program that sends such commands as long as it reads such hashes. -/
abbrev CarefulProg {α : Type} (H : String) (req : JobRequest) (p : EngineM α) : Prop :=
  p.Guar (HashRead H) (Careful H req) fun _ => True

variable {p : EngineM α} {k k' : JobKeys} {c : EngineCmd}

theorem careful_of_stores (h : StoresProg req p) : CarefulProg H req p :=
  guar_weaken h (fun _ _ _ => trivial) fun _ => .inl

theorem careful_of_quiet (h : QuietProg p) : CarefulProg H req p :=
  careful_of_stores (stores_of_quiet h)

theorem careful_clear : CarefulProg H req (tryKey .clearDelegationToken) :=
  ⟨.inr (.inl rfl), trivial, fun _ _ => trivial⟩

theorem checkDelegation_careful : CarefulProg H req (checkDelegation a req') := by
  have hver : ∀ token, CarefulProg H req (verifyDelegationToken a req' token) := by
    intro token
    unfold verifyDelegationToken
    split_ifs
    · exact trivial
    · exact trivial
    · exact trivial
    · split
      · split
        · exact trivial
        · exact guar_seq careful_clear fun _ => trivial
      refine guar_seq (careful_of_quiet (quiet_tryKey rfl)) fun r => ?_
      split
      · exact trivial
      · exact guar_seq careful_clear fun _ => trivial
  refine guar_seq (guar_seq (careful_of_quiet ?_) hver) fun r => ?_
  · refine guar_seq (quiet_tryKey rfl) fun r => ?_
    cases r <;> exact trivial
  · split
    · exact trivial
    · split
      · exact trivial
      · exact careful_of_quiet (guar_seq (quiet_tryKey rfl) fun _ => quiet_stop failJob_quiet)

theorem untilSafety_careful : CarefulProg H req (untilSafety a req) := by
  refine guar_seq (careful_of_stores untilDelegation_sends) fun ok => ?_
  split
  · exact checkDelegation_careful
  · exact trivial

section

variable {r : SafetyDecisionRecord} (hs : r.approvalStatus = none) (hd : r.approvalDecision = none)
  (hh : H ≠ "" → r.jobHash = "" ∨ r.jobHash = H)
include hs hd hh

theorem trySave_careful {now : ℤ} : CarefulProg H req (tryKey (.setSafetyDecision r now)) :=
  ⟨.inr (.inr ⟨r, now, rfl, hs, hd, hh⟩), trivial, fun _ _ => trivial⟩

theorem saveDecision_careful : CarefulProg H req (saveDecision a r) := by
  refine guar_seq (trySave_careful hs hd hh) fun o => ?_
  cases o <;> exact trivial

end

theorem readMeta_careful : (tryKey .hgetAllMeta).Guar (HashRead H) (Careful H req)
    fun m => ∀ m', m = some m' → H ≠ "" → m'.safety.jobHash = H := by
  refine guar_cmd (.inl (.inl rfl)) ?_ ?_
  · rintro m' ⟨⟩
  · rintro m hm m' ⟨⟩
    exact hm

theorem fullCheck_careful : CarefulProg H req (fullCheck h a req') := by
  unfold fullCheck
  split_ifs
  · exact trivial
  · exact trivial
  · refine guar_bind readMeta_careful fun m hm => ?_
    cases m with
    | none => exact trivial
    | some m =>
      refine saveDecision_careful rfl rfl fun hne => .inr ?_
      have : m.safety.jobHash = H := hm m rfl hne
      simp [fencedRecord, this, hne]
  · exact saveDecision_careful rfl rfl fun _ => .inl rfl

theorem checkSafetyDecision_careful : CarefulProg H req (checkSafetyDecision h a req') := by
  unfold checkSafetyDecision
  split
  · refine guar_bind readMeta_careful fun m hm => ?_
    cases m with
    | none => exact fullCheck_careful
    | some m =>
      dsimp only
      split
      · refine guar_seq (trySave_careful rfl rfl fun hne => .inr (hm m rfl hne)) fun o => ?_
        cases o <;> exact trivial
      · exact fullCheck_careful
  · exact fullCheck_careful

theorem decideAndDispatch_careful : CarefulProg H req (decideAndDispatch h a req') := by
  refine guar_seq (guar_seq checkSafetyDecision_careful fun o => ?_) fun r => ?_
  · split
    · exact trivial
    · refine guar_seq (careful_of_quiet actOnRecord_quiet) fun r => ?_
      cases r <;> exact trivial
  · split
    · exact trivial
    refine guar_seq (careful_of_quiet checkLimits_quiet) fun ok => ?_
    split
    · exact careful_of_quiet schedule_quiet
    · exact trivial

/-- **A handling is careful**: it stores its own request, and leaves approvals and hashes alone. -/
theorem handleJobRequest_careful : CarefulProg H req (handleJobRequest h a req) := by
  unfold handleJobRequest
  split_ifs
  · exact trivial
  · exact careful_of_quiet (quiet_inStore setState_quiet)
  · refine guar_seq (careful_of_stores admitRequest_sends) fun ok => ?_
    split
    · have hpr : CarefulProg H req (processJob h a req) := by
        refine guar_seq (careful_of_quiet vet_quiet) fun ok => ?_
        split
        · refine guar_seq checkDelegation_careful fun ok => ?_
          split
          · exact decideAndDispatch_careful
          · exact trivial
        · exact trivial
      refine guar_seq (guar_mono (guar_attempt hpr) fun _ _ => trivial) fun r => ?_
      cases r with
      | ok _ => exact trivial
      | error e =>
        simp only [settle]
        split <;> exact trivial
    · exact trivial

/-! ## No trace of an approval -/

/-- The stored hash. -/
def Sys.jobHash (s : Sys) : String := s.keys.jobMeta.safety.jobHash

/-- Neither the approval record nor the stored request speaks of an approval. -/
structure Unapproved (k : JobKeys) : Prop where
  decision : k.jobMeta.approval.decision ≠ some .approve
  status : k.jobMeta.approval.status ≠ some .approved
  blank : k.jobMeta.approval.status = none → k.jobMeta.approval.approvedBy = ""
  label : ∀ req, k.request = some req → labelGranted req.labels = false

theorem unapproved_of_evidence (h : k'.evidence = k.evidence) (hu : Unapproved k) : Unapproved k' := by
  simp only [JobKeys.evidence, Evidence.mk.injEq] at h
  obtain ⟨hr, -, ha, -⟩ := h
  exact ⟨by rw [ha]; exact hu.decision, by rw [ha]; exact hu.status, by rw [ha]; exact hu.blank, by
    rw [hr]; exact hu.label⟩

theorem hashRead_engine (hs : H ≠ "" → s.jobHash = H) : HashRead H c (engine cfg c s).2 := by
  rcases c with (c | c) | c
  · exact trivial
  · cases c <;> first | exact trivial | exact hs
  · exact trivial

theorem careful_jobHash (hc : Careful H req c) (hne : H ≠ "") (hs : s.jobHash = H) :
    (engine cfg c s).1.jobHash = H := by
  rcases hc with (hq | rfl) | rfl | ⟨r, now, rfl, -, -, hh⟩
  · exact (congrArg (fun e => e.safety.jobHash) (engine_quiet hq)).trans hs
  · exact hs
  · exact hs
  · have : (engine cfg (.inl (.key (.setSafetyDecision r now))) s).1.jobHash =
        if r.jobHash ≠ "" then r.jobHash else s.jobHash := rfl
    rw [this]
    split
    · rename_i hr; exact (hh hne).resolve_left hr
    · exact hs

theorem careful_unapproved (hc : Careful H req c) (hl : labelGranted req.labels = false)
    (hu : Unapproved s.keys) : Unapproved (engine cfg c s).1.keys := by
  rcases hc with (hq | rfl) | rfl | ⟨r, now, rfl, hs, hd, -⟩
  · exact unapproved_of_evidence (engine_quiet hq) hu
  · exact ⟨hu.decision, hu.status, hu.blank, fun r hr => by cases hr; exact hl⟩
  · exact ⟨hu.decision, hu.status, hu.blank, hu.label⟩
  · have happ : (engine cfg (.inl (.key (.setSafetyDecision r now))) s).1.keys.jobMeta.approval =
        (setSafetyDecision r now s.keys.jobMeta).approval := rfl
    have hreq : (engine cfg (.inl (.key (.setSafetyDecision r now))) s).1.keys.request =
        s.keys.request := rfl
    simp only [setSafetyDecision, hs, hd] at happ
    split at happ
    · refine ⟨?_, ?_, ?_, by rw [hreq]; exact hu.label⟩
      · rw [happ]; exact hu.decision
      · rw [happ]; exact nofun
      · rw [happ]; exact nofun
    · exact ⟨by rw [happ]; exact hu.decision, by rw [happ]; exact hu.status, by rw [happ]; exact hu.blank,
        by rw [hreq]; exact hu.label⟩

theorem careful_run_jobHash (hp : CarefulProg H req p) (hne : H ≠ "")
    (hs : s.jobHash = H) (fs : List Fault) :
    (p.run (engine cfg) fs s).st.jobHash = H := by
  have hwp : p.wp (engine cfg) (fun r u => u.jobHash = H ∧ ∀ x, r = .ok x → True) s := by
    refine wp_of_guar (fun c u hu hc => ?_) hp hs
    exact ⟨careful_jobHash hc hne hu, hashRead_engine (fun _ => hu)⟩
  exact (wp_run hwp fs).1

theorem careful_run_unapproved (hp : CarefulProg "" req p) (hl : labelGranted req.labels = false)
    (hu : Unapproved s.keys) (fs : List Fault) : Unapproved (p.run (engine cfg) fs s).st.keys := by
  have hwp : p.wp (engine cfg) (fun r u => Unapproved u.keys ∧ ∀ x, r = .ok x → True) s := by
    refine wp_of_guar (fun c u hu hc => ?_) hp hu
    exact ⟨careful_unapproved hc hl hu, hashRead_engine (absurd rfl)⟩
  exact (wp_run hwp fs).1

end Cordum
