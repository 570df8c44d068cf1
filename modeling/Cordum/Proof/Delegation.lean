import Cordum.Scheduler.Frame

/-!
# Do delegated jobs survive redelivery?

The token that lets a delegated job run is wiped as soon as it verifies, in the middle of a handling
that can still end in a retry. A redelivered request then finds no token and fails the job. So does
a request whose token read failed: a transport error is taken for a missing token.

* `delegated_survives_iff`: the runs in which no handling moves the job to `FAILED` for that.
* `delegated_survives_fails`: no worker at first, and the redelivery fails the job.
-/

namespace Cordum

open Conc GoString Prog List

variable {cfg : StoreConfig} {a : Attempt} {req : JobRequest} {fs fs' : List Fault}
  {s s' : Sys} {t : String}

/-- The stored token. -/
def Sys.token (s : Sys) : Option String := s.keys.jobMeta.delegationToken

/-! ## The token -/

theorem token_of_evidence (h : s'.keys.evidence = s.keys.evidence) : s'.token = s.token :=
  congrArg Evidence.delegationToken h

/-- Only one command removes the token, and none stores another. -/
theorem engine_token (cfg : StoreConfig) (c : EngineCmd) (s : Sys) :
    (engine cfg c s).1.token = s.token ∨ (engine cfg c s).1.token = none := by
  by_cases hq : Quiet c
  · exact .inl (token_of_evidence (engine_quiet hq))
  rcases c with (c | c) | c
  · exact absurd trivial hq
  · simp only [Sys.token, engine_inl, store]
    cases c with
    | resolveApproval p now =>
      rcases resolveApprovalTx_cases cfg.hasher p now s.keys with
        ⟨e, h⟩ | ⟨_, _, _, _, _, -, -, -, -, h⟩ <;> simp [keyStep, h]
    | applyApprovalRepair p now =>
      rcases applyApprovalRepairTx_cases cfg.jobID p now s.keys with
        ⟨e, h⟩ | ⟨-, _, -, h⟩ | ⟨_, _, _, -, -, -, -, -, h⟩ <;> simp [keyStep, h]
    | setSafetyDecision r now | setJobRequest r => exact .inl rfl
    | clearDelegationToken => exact .inr rfl
    | _ => exact absurd rfl hq
  · exact absurd trivial hq

theorem opOut_token (cfg : StoreConfig) (c : SchedOp × List Fault) (s : Sys) :
    (opOut cfg c s).st.token = s.token ∨ (opOut cfg c s).st.token = none := by
  refine run_rel (ρ := fun s s' : Sys => s'.token = s.token ∨ s'.token = none) (fun _ => .inl rfl) ?_
    (engine_token cfg) _ _ _
  rintro s t u (h1 | h1) (h2 | h2)
  · exact .inl (h2.trans h1)
  · exact .inr h2
  · exact .inr (h2.trans h1)
  · exact .inr h2

/-- The handling gets to its token read, with `fs'` ahead and the system in `s'`. -/
def ReadsToken (cfg : StoreConfig) (s : Sys) (a : Attempt) (req : JobRequest)
    (fs fs' : List Fault) (s' : Sys) : Prop :=
  (untilDelegation a req).run (engine cfg) fs s = ⟨.ok true, fs', s'⟩

theorem readsToken_token (h : ReadsToken cfg s a req fs fs' s') : s'.token = s.token := by
  have hwp : (untilDelegation a req).wp (engine cfg)
      (fun r u => u.token = s.token ∧ ∀ b, r = .ok b → True) s := by
    refine wp_of_guar ?_ untilDelegation_sends rfl
    rintro c u hu (hc | rfl)
    · exact ⟨(token_of_evidence (engine_quiet hc)).trans hu, trivial⟩
    · exact ⟨hu, trivial⟩
  have := (wp_run hwp fs).1
  rwa [h] at this

theorem readsToken_nil (h : ReadsToken cfg s a req [] fs' s') : fs' = [] := by
  have hrs : ((untilDelegation a req).run (engine cfg) [] s).rest = [] := run_nil_rest _ _
  rwa [h] at hrs

/-! ## Verification -/

/-- The verification ends in an error that is not worth a retry. -/
def FinalError (o : Out EngineErr (Except DelegationErr Bool) Sys) : Prop :=
  ∃ e, o.ans = .ok (.error e) ∧ e.retry = false

/-- A good token is not rejected: it verifies, or the attempt is worth a retry. -/
theorem verifyDelegationToken_keeps (ht : trimSpace t ≠ "")
    (hv : ∀ e, a.verifyToken t = .error e → e.retry) :
    ¬ FinalError ((verifyDelegationToken a req t).run (engine cfg) fs s) := by
  rintro ⟨e, he, hr⟩
  unfold verifyDelegationToken at he
  rw [if_neg ht] at he
  split at he
  · cases he; cases hr
  split at he
  · rename_i e' hve
    rw [if_pos (hv e' hve)] at he
    cases he
    rw [hv e hve] at hr
    cases hr
  · rw [run_tryKey] at he
    split at he
    · cases he; cases hr
    · cases he

theorem getDelegationDispatchToken_run : getDelegationDispatchToken.run (engine cfg) fs s =
      ⟨.ok (if fs.headD .none = .none then s.token.getD "" else ""), fs.tail, s⟩ := by
  rw [getDelegationDispatchToken, run_tryKey]
  cases fs.headD .none <;> rfl

/-- A token read that met a fault counts as one that found no token. -/
theorem verify_missing (hd : requestCarriesDelegation req) (hm : fs.headD .none ≠ .none ∨ s.token = none) :
    (verifyDelegationBeforeDispatch a req).run (engine cfg) fs s =
      ⟨.ok (.error .missing), fs.tail, s⟩ := by
  have hno : (if fs.headD .none = .none then s.token.getD "" else "") = "" := by
    rcases hm with hf | hs
    · exact if_neg hf
    · rw [hs, Option.getD_none, ite_self]
  rw [verifyDelegationBeforeDispatch, run_bind_of_ok getDelegationDispatchToken_run,
    hno, verifyDelegationToken, trimSpace_empty, if_pos rfl, if_pos hd]
  rfl

/-- **When a delegated job is rejected**: a fault at the read, or no token. -/
theorem verify_rejects_iff (hd : requestCarriesDelegation req) (ht : trimSpace t ≠ "")
    (hv : ∀ e, a.verifyToken t = .error e → e.retry) (hs : s.token = some t ∨ s.token = none) :
    FinalError ((verifyDelegationBeforeDispatch a req).run (engine cfg) fs s) ↔
      fs.headD .none ≠ .none ∨ s.token = none := by
  refine ⟨fun hfin => ?_, fun hm => ⟨.missing, by rw [verify_missing hd hm], rfl⟩⟩
  by_contra hno
  obtain ⟨hf, htok⟩ := not_or.1 hno
  rw [verifyDelegationBeforeDispatch, run_bind_of_ok getDelegationDispatchToken_run, if_pos (not_not.1 hf),
    hs.resolve_right htok] at hfin
  exact verifyDelegationToken_keeps ht hv hfin

/-! ## Giving a job up -/

section

variable {jobID : String} {d : DeadLetter} {now : ℤ} {state : JobState}

theorem run_inStore {α : Type} {p : StoreM α} :
    (inStore p).run (engine cfg) fs s = ⟨(p.run (store cfg) fs s.keys).ans.mapError EngineErr.store,
      (p.run (store cfg) fs s.keys).rest, { s with keys := (p.run (store cfg) fs s.keys).st }⟩ := by
  induction p generalizing fs s with
  | ret x | fail e => rfl
  | call c k ih =>
    refine Eq.trans ?_ (@ih ((store cfg).deliver (fs.headD .none) c s.keys).2 fs.tail
      { s with keys := ((store cfg).deliver (fs.headD .none) c s.keys).1 })
    change (inStore (k _)).run (engine cfg) fs.tail _ = _
    cases fs.headD .none <;> rfl

theorem emitDLQWithRetry_keys : ((emitDLQWithRetry d).run (engine cfg) fs s).st.keys = s.keys := by
  have hwp : (emitDLQWithRetry d).wp (engine cfg) (fun _ s' => s'.keys = s.keys) s :=
    (wp_cmd_bind _ _ _ _).2 ⟨wp_exec.2 ⟨rfl, rfl, rfl⟩, wp_exec.2 ⟨rfl, rfl, rfl⟩, rfl⟩
  exact wp_run hwp fs

theorem closeJob_keys : ((closeJob jobID state now d).run (engine cfg) fs s).st.keys =
    ((setState jobID state now).run (store cfg) fs s.keys).st := by
  rw [closeJob, bind_eq, run_bind, run_inStore]
  cases ((setState jobID state now).run (store cfg) fs s.keys).ans with
  | error e => rfl
  | ok _ => exact emitDLQWithRetry_keys

theorem settle_st {r : Except EngineErr Unit} : ((settle r).run (engine cfg) fs s).st = s := by
  unfold settle
  split
  · rfl
  · split <;> rfl

/-- What is left of the job's keys when its token is missing: after the failure reason, `SetState` to
`FAILED`. -/
def givenUp (cfg : StoreConfig) (a : Attempt) (req : JobRequest) (fs : List Fault) (s : Sys) : JobKeys :=
  ((setState (trimSpace req.jobId) .failed a.now).run (store cfg) fs.tail.tail
    ((store cfg).deliver (fs.tail.headD .none)
    (.key (.setFailureReason "delegation.missing_dispatch_token")) s.keys).1).st

theorem keys_of_missing {h : Hasher}
    (hv : (verifyDelegationBeforeDispatch a req).run (engine cfg) fs s =
      ⟨.ok (.error .missing), fs.tail, s⟩) :
    ((settled (processVetted h a req)).run (engine cfg) fs s).st.keys = givenUp cfg a req fs s := by
  set fail := failJob a req "delegation token missing before dispatch" "delegation.missing_dispatch_token"
  set s1 : Sys := { s with keys := ((store cfg).deliver (fs.tail.headD .none)
    (.key (.setFailureReason "delegation.missing_dispatch_token")) s.keys).1 } with hs1
  have hchk : (checkDelegation a req).run (engine cfg) fs s =
      (fail >>= fun _ => .ret false).run (engine cfg) fs.tail.tail s1 := by
    rw [checkDelegation, run_bind_of_ok hv]
    exact run_tryKey
  have hst : ((processVetted h a req).run (engine cfg) fs s).st =
      (fail.run (engine cfg) fs.tail.tail s1).st := by
    rw [processVetted, bind_eq, run_bind, hchk, bind_eq, run_bind]
    rcases fail.run (engine cfg) fs.tail.tail s1 with ⟨_ | _, fs2, s2⟩ <;> rfl
  rw [run_settled, settle_st, hst]
  exact closeJob_keys

end

/-! ## Redelivery -/

/-- The verification ends in an error that is not worth a retry. -/
def Rejects (cfg : StoreConfig) (s : Sys) (a : Attempt) (req : JobRequest) (fs : List Fault) : Prop :=
  ∃ fs' s', ReadsToken cfg s a req fs fs' s' ∧
    FinalError ((verifyDelegationBeforeDispatch a (attachEffectiveConfig a req)).run (engine cfg) fs' s')

/-- The handling is rejected for a delegation reason, and the store has `FAILED` in the end. -/
def FailsDelegated (cfg : StoreConfig) (s : Sys) (a : Attempt) (req : JobRequest)
    (fs : List Fault) : Prop :=
  Rejects cfg s a req fs ∧ (opOut cfg (.handle a req, fs) s).st.keys.readState = some .failed

/-- The token is stored and nonblank, every request carries delegation labels, and no verification
finds the token bad. -/
structure DelegatedRun (t : String) (s : Sys) (cs : List (SchedOp × List Fault)) : Prop where
  stored : s.token = some t
  nonblank : trimSpace t ≠ ""
  labels : ∀ a req fs, (.handle a req, fs) ∈ cs → requestCarriesDelegation req
  valid : ∀ a req fs, (.handle a req, fs) ∈ cs → ∀ e, a.verifyToken t = .error e → e.retry

/-- No handling moves the job to `FAILED` for a delegation reason. -/
def Survives (cfg : StoreConfig) (s : Sys) (cs : List (SchedOp × List Fault)) : Prop :=
  ∀ before a req fs after, cs = before ++ (.handle a req, fs) :: after →
    ¬ FailsDelegated cfg (sysAfter cfg s before) a req fs

/-- The operation removes the token. -/
def Wipes (cfg : StoreConfig) (s : Sys) (c : SchedOp × List Fault) : Prop :=
  s.token ≠ none ∧ (opOut cfg c s).st.token = none

theorem token_sysAfter (cfg : StoreConfig) (hs : s.token = some t) (cs : List (SchedOp × List Fault)) :
    ((∃ b1 c b2, cs = b1 ++ c :: b2 ∧ Wipes cfg (sysAfter cfg s b1) c) ∧
      (sysAfter cfg s cs).token = none) ∨
    ((¬ ∃ b1 c b2, cs = b1 ++ c :: b2 ∧ Wipes cfg (sysAfter cfg s b1) c) ∧
      (sysAfter cfg s cs).token = some t) := by
  induction cs using reverseRecOn with
  | nil => exact .inr ⟨by simp, hs⟩
  | append_singleton cs c ih =>
    rw [sysAfter_snoc, exists_split_snoc]
    have hsp := opOut_token cfg c (sysAfter cfg s cs)
    rcases ih with ⟨hw, hn⟩ | ⟨hno, htok⟩
    · rw [hn, or_self] at hsp
      exact .inl ⟨.inl hw, hsp⟩
    rcases hsp with h | h
    · refine .inr ⟨not_or.2 ⟨hno, fun hw => ?_⟩, h.trans htok⟩
      exact absurd (hw.2.symm.trans (h.trans htok)) nofun
    · exact .inl ⟨.inr ⟨by rw [htok]; exact nofun, h⟩, h⟩

theorem attachEffectiveConfig_jobId : (attachEffectiveConfig a req).jobId = req.jobId := by
  unfold attachEffectiveConfig
  split <;> rfl

/-- A handling fails a delegated job when it reads the token under a fault or finds none. -/
theorem failsDelegated_iff (hd : requestCarriesDelegation req) (ht : trimSpace t ≠ "")
    (hv : ∀ e, a.verifyToken t = .error e → e.retry) (hs : s.token = some t ∨ s.token = none) :
    FailsDelegated cfg s a req fs ↔ ∃ fs' s', ReadsToken cfg s a req fs fs' s' ∧
      (fs'.headD .none ≠ .none ∨ s.token = none) ∧
      (givenUp cfg a req fs' s').readState = some .failed := by
  have hd' : requestCarriesDelegation (attachEffectiveConfig a req) := by
    unfold requestCarriesDelegation at hd ⊢
    rwa [attachEffectiveConfig_labels]
  have hend : ∀ fs' s', ReadsToken cfg s a req fs fs' s' → (fs'.headD .none ≠ .none ∨ s'.token = none) →
      (opOut cfg (.handle a req, fs) s).st.keys = givenUp cfg a req fs' s' := by
    intro fs' s' hrd hm
    have hrun : opOut cfg (.handle a req, fs) s =
      (settled (processVetted cfg.hasher a (attachEffectiveConfig a req))).run (engine cfg) fs' s' :=
      run_handle_of_untilDelegation hrd
    rw [hrun, keys_of_missing (verify_missing hd' hm), givenUp, attachEffectiveConfig_jobId]
    rfl
  constructor
  · rintro ⟨⟨fs', s', hrd, hfin⟩, haft⟩
    have htok := readsToken_token hrd
    have hm := (verify_rejects_iff hd' ht hv (by rwa [htok])).1 hfin
    rw [hend fs' s' hrd hm] at haft
    rw [htok] at hm
    exact ⟨fs', s', hrd, hm, haft⟩
  · rintro ⟨fs', s', hrd, hm, haft⟩
    have htok := readsToken_token hrd
    rw [← htok] at hm hs
    refine ⟨⟨fs', s', hrd, (verify_rejects_iff hd' ht hv hs).2 hm⟩, ?_⟩
    rw [hend fs' s' hrd hm]
    exact haft

/-- **When delegated jobs survive redelivery.** Over any handlings and store calls with any faults, no
handling moves the job to `FAILED` for a delegation reason if and only if none that gets to its token
read meets a fault there or comes after the token was removed, unless its `SetState` to `FAILED` does
not come through. -/
theorem delegated_survives_iff (cfg : StoreConfig) {t : String} {s : Sys}
    {cs : List (SchedOp × List Fault)} (hrun : DelegatedRun t s cs) :
    Survives cfg s cs ↔
      ∀ before a req fs after, cs = before ++ (.handle a req, fs) :: after →
        ∀ fs' s', ReadsToken cfg (sysAfter cfg s before) a req fs fs' s' →
          (fs'.headD .none = .none ∧ ¬ ∃ b₁ c b₂, before = b₁ ++ c :: b₂ ∧
            Wipes cfg (sysAfter cfg s b₁) c) ∨ (givenUp cfg a req fs' s').readState ≠ some .failed := by
  refine forall₅_congr fun before a req fs after => forall_congr' fun hcs => ?_
  have hmem : (SchedOp.handle a req, fs) ∈ cs := by rw [hcs]; simp
  have htok := token_sysAfter cfg hrun.stored before
  have hs : (sysAfter cfg s before).token = some t ∨ (sysAfter cfg s before).token = none := by
    rcases htok with ⟨-, h⟩ | ⟨-, h⟩
    · exact .inr h
    · exact .inl h
  have hwip : (sysAfter cfg s before).token = none ↔
      ∃ b₁ c b₂, before = b₁ ++ c :: b₂ ∧ Wipes cfg (sysAfter cfg s b₁) c := by
    rcases htok with ⟨hw, h⟩ | ⟨hw, h⟩
    · exact iff_of_true h hw
    · exact iff_of_false (by rw [h]; exact nofun) hw
  rw [failsDelegated_iff (hrun.labels a req fs hmem) hrun.nonblank (hrun.valid a req fs hmem) hs, hwip]
  generalize (∃ b₁ c b₂, before = b₁ ++ c :: b₂ ∧ Wipes cfg (sysAfter cfg s b₁) c) = wiped
  rw [not_exists]
  refine forall_congr' fun fs' => not_exists.trans (forall_congr' fun s' => ?_)
  tauto

/-- A job with its token. -/
def delegatedSys : Sys := { keys := { jobMeta := { delegationToken := some "token" } } }

/-- A handling that finds the token good and no worker; `service`: the verifier is there. -/
def noWorker (service : Bool) : SchedOp :=
  .handle { verdict := { decision := some .allow }, tokenService := service, verifyToken :=
    fun _ => .ok "lineage" }
    { exampleRequest with labels := (∅ : StrMap).insert "_delegation.jti" "jti-1" }

theorem noWorker_delegated
    {cs : List (SchedOp × List Fault)} (h : ∀ c ∈ cs, ∃ service, c.1 = noWorker service) :
    DelegatedRun "token" delegatedSys cs where
  stored := rfl
  nonblank := by decide +kernel
  labels a req fs hm := by
    obtain ⟨service, hop⟩ := h _ hm
    cases hop
    decide +kernel
  valid a req fs hm e he := by
    obtain ⟨service, hop⟩ := h _ hm
    cases hop
    cases he

/-- The verifier is not there at first: the redelivery finds the token where it was. -/
theorem noWorker_survives :
    Survives exampleConfig delegatedSys [(noWorker false, []), (noWorker true, [])] := by
  refine (delegated_survives_iff exampleConfig (noWorker_delegated (by simp))).2 ?_
  intro before a req fs after hcs fs' s' hrd
  rcases before with _ | ⟨c, _ | ⟨c', cs⟩⟩
  · cases hcs
    rw [readsToken_nil hrd]
    exact .inl ⟨rfl, by simp⟩
  · cases hcs
    rw [readsToken_nil hrd]
    refine .inl ⟨rfl, ?_⟩
    rintro ⟨_ | ⟨b, b₁⟩, c, b₂, heq, -, hwip⟩
    · cases heq
      exact absurd hwip (by decide +kernel)
    · exact absurd (congrArg length (cons.inj heq).2) (by simp)
  · exact absurd (congrArg length hcs) (by simp)

/-- **The redelivery of a job that found no worker fails it**: the first attempt wiped the token. -/
theorem delegated_survives_fails :
    DelegatedRun "token" delegatedSys [(noWorker true, []), (noWorker true, [])] ∧
    (sysAfter exampleConfig delegatedSys [(noWorker true, [])]).keys.jobMeta.state = some .pending ∧
    (sysAfter exampleConfig delegatedSys
      [(noWorker true, []), (noWorker true, [])]).keys.jobMeta.failureReason =
      "delegation.missing_dispatch_token" ∧
    ¬ Survives exampleConfig delegatedSys [(noWorker true, []), (noWorker true, [])] := by
  refine ⟨noWorker_delegated (by simp), by decide +kernel, by decide +kernel, fun h => ?_⟩
  refine h [(noWorker true, [])] _ _ [] [] rfl ⟨⟨_, _, Out.eq_of_ans ?_, .missing, ?_, rfl⟩, ?_⟩
  · decide +kernel
  · decide +kernel
  · decide +kernel

end Cordum
