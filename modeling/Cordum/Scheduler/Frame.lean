import Cordum.Scheduler.Runs
import Cordum.Store.Sends

/-!
# What the stages of a handling write

Few commands of a handling touch the stored request, the safety decision, the approval record or the
delegation token: `Quiet` commands leave these four alone (`engine_quiet`), and each stage sends
quiet commands only, besides the ones its lemma names.
-/

namespace Cordum

open Conc Prog JobKeys

/-- What approvals and delegations rest on. -/
structure Evidence where
  request : Option JobRequest
  safety : SafetyFields
  approval : ApprovalRecord
  delegationToken : Option String

/-- The evidence in a job's keys. -/
def JobKeys.evidence (k : JobKeys) : Evidence :=
  ⟨k.request, k.jobMeta.safety, k.jobMeta.approval, k.jobMeta.delegationToken⟩

/-- Commands that leave the evidence alone. -/
def KeyCmd.quiet : KeyCmd → Bool
  | .resolveApproval .. | .applyApprovalRepair .. | .setSafetyDecision .. | .setJobRequest ..
  | .clearDelegationToken =>
    false
  | _ => true

/-- Commands of the engine that leave the evidence alone. -/
def Quiet : EngineCmd → Prop
  | .inl (.key c) => c.quiet
  | _ => True

variable {cfg : StoreConfig} {c : KeyCmd} {d w t subject reason code : String} {k : JobKeys}
  {fence : Option (String × ℤ)}

@[simp] theorem JobKeys.commitState_evidence (k : JobKeys) (prev : Option JobState)
    (target : JobState) (now : ℤ) :
    (k.commitState prev target now).evidence = k.evidence := by
  simp [evidence]

theorem keyStep_quiet (hc : c.quiet) : (keyStep cfg c k).1.evidence = k.evidence := by
  cases c with
  | setState target now =>
    rcases setStateTx_cases target now k with ⟨-, h⟩ | ⟨-, n, h⟩
    · simp [keyStep, h]
    · simp only [keyStep, h, commitState_evidence]; rfl
  | cancelJob now =>
    simp only [keyStep, cancelJobTx]
    split
    · rfl
    · split
      · rfl
      · simp
  | resolveApproval | applyApprovalRepair | setSafetyDecision | setJobRequest | clearDelegationToken =>
    cases hc
  | _ => rfl

/-- **A quiet command keeps the evidence.** -/
theorem engine_quiet {c : EngineCmd} (hc : Quiet c) {s : Sys} :
    (engine cfg c s).1.keys.evidence = s.keys.evidence := by
  rcases c with (c | c) | c
  · rfl
  · exact keyStep_quiet hc
  · cases c <;> simp [busStep]

/-- Commands of the store that write nothing. -/
def Reads : StoreCmd → Prop
  | .rt .hgetState | .rt .keyExists | .key .hgetAllMeta | .key .hgetMetaState | .key
      .getStateKey | .key .getJobRequest =>
    True
  | _ => False

theorem store_reads {c : StoreCmd} (hc : Reads c) : (store cfg c k).1 = k := by
  rcases c with c | c <;> cases c <;> first | rfl | exact hc.elim

theorem quiet_of_reads {c : StoreCmd} (hc : Reads c) : Quiet (.inl c) := by
  rcases c with c | c
  · exact trivial
  · cases c <;> first | rfl | exact hc.elim

/-! ## Quiet programs -/

variable {α : Type}

/-- A program that sends quiet commands only. -/
abbrev QuietProg (p : EngineM α) : Prop := p.Guar (fun _ _ => True) Quiet fun _ => True

/-- A store program whose commands are quiet. -/
abbrev QuietStore (p : StoreM α) : Prop :=
  p.Guar (fun _ _ => True) (fun c => Quiet (.inl c)) fun _ => True

variable {p : StoreM α}

section

variable {jobID : String} {now n : ℤ} {s : JobState} {during : String}

theorem quiet_key (hc : c.quiet) : QuietStore (key c during) := ⟨hc, trivial, fun _ _ => trivial⟩

theorem getState_reads {rely : (c : StoreCmd) → c.Reply → Prop} : getState.Guar rely Reads fun _ => True :=
  getState_guar (fun c hc => by cases c <;> exact hc) trivial

theorem tryStore_reads (cfg : StoreConfig) (s : Sys) {post : α → Prop}
    (hp : p.Guar (fun c r => r = (store cfg c s.keys).2) Reads post) (fs : List Fault) :
    ((tryStore p).run (engine cfg) fs s).st = s ∧ ∀ x, ((tryStore p).run (engine cfg) fs s).ans =
      .ok (.ok x) → post x := by
  have hwp : p.wp (store cfg) (fun r k => k = s.keys ∧ ∀ x, r = .ok x → post x) s.keys := by
    refine wp_of_guar ?_ hp rfl
    rintro c k rfl hc
    exact ⟨store_reads hc, rfl⟩
  obtain ⟨hst, hans⟩ := wp_run hwp fs
  rw [run_tryStore]
  exact ⟨by rw [hst], fun x hx => hans x (Except.ok.inj hx)⟩

theorem getState_quiet : QuietStore getState :=
  guar_weaken getState_reads (fun _ _ h => h) fun _ => quiet_of_reads

theorem setState_quiet : QuietStore (setState jobID s now) :=
  setState_guar trivial trivial trivial rfl rfl

theorem rollbackDispatch_quiet : QuietStore (rollbackDispatch jobID d n) := by
  unfold rollbackDispatch
  split
  · exact trivial
  · exact guar_seq (guar_rt trivial) fun _ => trivial

theorem beginDispatch_quiet : QuietStore (beginDispatch jobID w t d) := by
  unfold beginDispatch
  split
  · exact trivial
  · refine guar_seq getState_quiet fun _ => guar_seq ?_ fun _ => guar_seq
      (guar_rt trivial) fun _ => trivial
    exact guar_seq (quiet_key rfl) fun _ => ⟨trivial, trivial, fun _ _ => trivial⟩

theorem rollbackFailedDispatch_quiet : QuietStore (rollbackFailedDispatch jobID now fence) := by
  cases fence with
  | none => exact setState_quiet
  | some f => exact guar_seq rollbackDispatch_quiet fun _ => guar_when setState_quiet

end

section

variable {a : Attempt} {req : JobRequest}

theorem quiet_inStore (h : QuietStore p) : QuietProg (inStore p) :=
  guar_inl (guar_mapErr h) (fun _ _ _ => trivial) fun _ hc => hc

theorem quiet_tryStore (h : QuietStore p) : QuietProg (tryStore p) :=
  guar_mono (guar_inl (guar_attempt h) (fun _ _ _ => trivial) fun _ hc => hc) fun _ _ => trivial

theorem quiet_tryKey (hc : c.quiet) : QuietProg (tryKey c) := ⟨hc, trivial, fun _ _ => trivial⟩

theorem emitDLQWithRetry_quiet {d : DeadLetter} : QuietProg (emitDLQWithRetry d) := by
  refine guar_seq (guar_cmd trivial trivial fun _ _ => trivial) fun r => ?_
  cases r with
  | some _ => exact trivial
  | none => exact ⟨trivial, trivial, fun _ _ => trivial⟩

theorem closeJob_quiet {jobID : String} {s : JobState} {now : ℤ} {d : DeadLetter} :
    QuietProg (closeJob jobID s now d) :=
  guar_seq (quiet_inStore setState_quiet) fun _ => emitDLQWithRetry_quiet

theorem failJob_quiet : QuietProg (failJob a req reason code) := closeJob_quiet

theorem denyJob_quiet : QuietProg (denyJob a req reason code) := closeJob_quiet

theorem quiet_stop {β : Type} {p : EngineM β} {x : α} (h : QuietProg p) :
    QuietProg (p >>= fun _ => .ret x) :=
  guar_seq h fun _ => trivial

theorem getAttempts_quiet {limit : ℕ} : QuietProg (getAttempts limit) := by
  refine guar_seq (quiet_tryKey rfl) fun r => ?_
  cases r <;> exact trivial

theorem vet_quiet : QuietProg (vet a req) := by
  unfold vet
  split
  · exact trivial
  · exact quiet_stop failJob_quiet
  · exact trivial
  · exact quiet_stop failJob_quiet
  · refine guar_seq getAttempts_quiet fun attempts => ?_
    split
    · exact quiet_stop failJob_quiet
    · exact trivial

theorem actOnRecord_quiet {decision : Option SafetyDecision} {r : SafetyDecisionRecord} :
    QuietProg (actOnRecord a req decision r) := by
  unfold actOnRecord
  split
  -- allowed, with or without constraints: a gate completes here, another job goes on
  iterate 2
    split
    · exact guar_seq ⟨trivial, trivial, fun _ _ => trivial⟩ fun _ =>
    quiet_stop (quiet_inStore setState_quiet)
    · exact trivial
  · exact trivial
  · split <;> exact trivial
  · exact quiet_stop (quiet_inStore setState_quiet)
  · exact quiet_stop denyJob_quiet
  · exact quiet_stop denyJob_quiet

theorem checkRetries_quiet {n : ℕ} : QuietProg (checkRetries a req n) := by
  unfold checkRetries
  split
  · exact trivial
  refine guar_seq getAttempts_quiet fun attempts => ?_
  split
  · exact quiet_stop failJob_quiet
  · exact trivial

theorem checkConcurrency_quiet {n : ℕ} : QuietProg (checkConcurrency a req n) := by
  refine guar_seq (guar_when ?_) fun _ => guar_when ?_
  · cases a.activeForPolicy with
    | none => exact trivial
    | some active => exact guar_when trivial
  · cases a.activeForTier with
    | none => exact trivial
    | some active => exact guar_when trivial

theorem checkLimits_quiet {c : Option PolicyConstraints} : QuietProg (checkLimits a req c) := by
  refine guar_seq checkRetries_quiet fun ok => ?_
  cases ok with
  | false => exact trivial
  | true =>
    refine guar_seq checkConcurrency_quiet fun _ => ?_
    split
    · exact quiet_stop (quiet_inStore (quiet_key rfl))
    · exact trivial

theorem publishDispatch_quiet : QuietProg (publishDispatch a subject req fence) := by
  refine guar_seq (guar_cmd trivial trivial fun _ _ => trivial) fun r => ?_
  cases r with
  | none => exact guar_seq (quiet_tryStore rollbackFailedDispatch_quiet) fun _ => trivial
  | some _ => exact quiet_inStore setState_quiet

theorem dispatch_quiet : QuietProg (dispatch a subject req) := by
  refine guar_seq (quiet_inStore setState_quiet) fun _ => ?_
  split
  · exact trivial
  refine guar_seq (quiet_inStore setState_quiet) fun _ => ?_
  split
  · exact publishDispatch_quiet
  refine guar_seq (quiet_tryStore beginDispatch_quiet) fun r => ?_
  cases r with
  | error e => exact guar_seq (quiet_tryStore setState_quiet) fun _ => trivial
  | ok f => exact publishDispatch_quiet

theorem schedule_quiet : QuietProg (schedule a req) := by
  unfold schedule
  split
  · exact dispatch_quiet
  · split
    · exact guar_seq (quiet_tryKey rfl) fun _ => trivial
    · exact failJob_quiet

/-! ## Admission -/

/-- Quiet commands, and the one that stores the request. -/
def Stores (req : JobRequest) (c : EngineCmd) : Prop := Quiet c ∨ c = .inl (.key (.setJobRequest req))

/-- A program that sends such commands only. -/
abbrev StoresProg (req : JobRequest) (p : EngineM α) : Prop :=
  p.Guar (fun _ _ => True) (Stores req) fun _ => True

theorem stores_of_quiet {p : EngineM α} (h : QuietProg p) : StoresProg req p :=
  guar_weaken h (fun _ _ h => h) fun _ => .inl

theorem persistRequest_sends {current : Option JobState} :
    StoresProg req (persistRequest a req current) := by
  refine guar_seq (stores_of_quiet (quiet_inStore (quiet_key rfl))) fun _ => guar_seq ?_ fun _ => ?_
  · exact ⟨.inr rfl, trivial, fun _ _ => trivial⟩
  · refine stores_of_quiet ?_
    split
    · exact quiet_inStore setState_quiet
    · exact quiet_stop (quiet_tryKey rfl)
    · exact trivial

theorem admitRequest_sends : StoresProg req (admitRequest a req) := by
  unfold admitRequest
  split
  · exact trivial
  refine guar_seq (stores_of_quiet (quiet_tryStore getState_quiet)) fun r => ?_
  split
  · split_ifs
    · exact trivial
    · exact stores_of_quiet (quiet_stop (guar_mono (guar_attempt emitDLQWithRetry_quiet)
        fun _ _ => trivial))
    · exact trivial
    · exact guar_seq persistRequest_sends fun _ => trivial
  · exact guar_seq persistRequest_sends fun _ => trivial
  · exact trivial

/-- Up to the delegation check only the stored request is touched. -/
theorem untilDelegation_sends : StoresProg req (untilDelegation a req) := by
  unfold untilDelegation
  split_ifs
  · exact trivial
  · exact stores_of_quiet (quiet_stop (quiet_inStore setState_quiet))
  · refine guar_seq admitRequest_sends fun ok => ?_
    split
    · exact stores_of_quiet vet_quiet
    · exact trivial

end

end Cordum
