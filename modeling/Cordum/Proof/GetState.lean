import Cordum.Store.Sends

/-!
# What `GetState` reads after a change of state

A job's state is stored in the runtime hash, in the meta hash and in the state key. `GetState` takes
the first of them that is there. `SetState`, `CancelJob` and `ApplyJobResult` move the runtime hash
when there is one; the approval calls and `SetStateWithContext` write only the other two.

* `getState_reflects_iff`: when each state is returned right after a call has reported it.
-/

namespace Cordum

open Conc Prog JobKeys

variable {cfg : StoreConfig} {s : JobState} {now : ℤ}

/-! ## Calls -/

/-- A call, or a result as the engine handles it: applied, then projected. -/
inductive StateCall
  | call (op : StoreOp)
  | result (a : JobResultApply) (workerID : String) (now : ℤ)

/-- Their programs. -/
def StateCall.prog (jobID : String) : StateCall → StoreM StoreAns
  | .call op => op.prog jobID
  | .result a workerID now => do
    let d ← applyJobResult jobID a
    Prog.when (d = .applied) (projectJobResult jobID a.state a.resultPtr workerID now)
    return .disposed d

/-- The state a call reports to have moved the job to. -/
def StateCall.reported : StateCall → StoreAns → Option JobState
  | .call (.setState s _), .done => some s
  | .call (.setStateWithContext s _), .done => some s
  | .call (.cancelJob _), .state s => some s
  | .call .cancelAllJobAttempts, .state s => some s
  | .call (.resolveApproval _ _), .state s => some s
  | .call (.applyApprovalRepair p _), .state s =>
    if p.plan.kind = .replayPendingPublish then none else some s
  | .call (.applyJobResult a), .disposed .applied => some a.state
  | .result a _ _, .disposed .applied => some a.state
  | _, _ => none

/-- The calls that write the meta hash and the state key but never the runtime hash. -/
def StateCall.skipsRuntime : StateCall → Bool
  | .call (.setStateWithContext ..) | .call (.resolveApproval ..) | .call (.applyApprovalRepair ..) => true
  | _ => false

/-! ## One program -/

section

variable {jobID w : String} {k : JobKeys}

theorem wp_keeps_runtime {α : Type} {p : StoreM α}
    (h : p.Guar (LegacyRead k.jobMeta.dispatch) (fun c => ∃ kc, c = StoreCmd.key kc) fun _ => True) :
    p.wp (store cfg) (fun _ k' => k'.runtime = k.runtime) k := by
  refine wp_mono (fun _ _ h => h.1.1) (wp_of_guar
    (I := fun k' => k'.runtime = k.runtime ∧ k'.jobMeta.dispatch = k.jobMeta.dispatch) ?_ h ⟨rfl, rfl⟩)
  rintro _ k' ⟨hk, hd⟩ ⟨c, rfl⟩
  exact ⟨⟨store_key_runtime.trans hk, (store_legacyRead hd).1⟩, (store_legacyRead hd).2⟩

theorem projectJobResult_wp {p : String} :
    (projectJobResult jobID s p w now).wp (store cfg) (fun _ k' => k'.runtime = k.runtime) k :=
  wp_keeps_runtime (projectJobResult_guar (fun c => ⟨c, rfl⟩))

theorem setStateWithContext_wp : (setStateWithContext jobID s now).wp (store cfg)
      (fun r k' => k'.runtime = k.runtime ∧ (r = .ok () → k'.storedState = some s)) k := by
  unfold setStateWithContext
  split
  · exact ⟨rfl, nofun⟩
  refine (wp_bind _ _ _ _).2 (wp_exec.2 ⟨⟨rfl, nofun⟩, ⟨store_key_runtime, nofun⟩, ?_⟩)
  show (ofTx (setStateTx s now k).2).wp (store cfg) _ (setStateTx s now k).1
  rcases setStateTx_cases s now k with ⟨-, h⟩ | ⟨-, n, h⟩
  · rw [h]; exact ⟨rfl, nofun⟩
  · rw [h]; exact ⟨by simp, fun _ => by simp [storedState]⟩

theorem transitionRuntimeState_wp :
    (transitionRuntimeState s).wp (store cfg) (fun r k' => r = .ok () → k'.runtime.state = some s) k := by
  refine (wp_bind _ _ _ _).2 (wp_exec.2 ⟨nofun, nofun, ?_⟩)
  change (if (runtimeStep cfg (.transitionRuntimeState s) k.runtime).2 = 1 then _
    else _ : StoreM Unit).wp _ _ _
  split
  · rename_i h
    exact fun _ => transition_state_of_one h
  · exact nofun

/-- A successful `SetState` is read back, from the runtime hash if there is one. -/
theorem setState_wp :
    (setState jobID s now).wp (store cfg) (fun r k' => r = .ok () → k'.readState = some s) k := by
  unfold setState
  split
  · exact nofun
  refine (wp_bind _ _ _ _).2 (wp_exec.2 ⟨nofun, nofun, ?_⟩)
  change (if k.runtime.present = false then _ else _ : StoreM Unit).wp _ _ k
  split
  · rename_i habs
    have hno := Runtime.state_of_absent habs
    refine wp_mono ?_ setStateWithContext_wp
    rintro r k' ⟨hrt, hst⟩ hr
    rw [readState, hrt, hno, hst hr]; rfl
  · refine (wp_bind _ _ _ _).2 (wp_mono ?_ transitionRuntimeState_wp)
    rintro (_ | _) k1 hk1
    · exact nofun
    · have hrt := hk1 rfl
      have hrd : ∀ k' : JobKeys, k'.runtime = k1.runtime → k'.readState = some s := by
        intro k' h; rw [readState, h, hrt]; rfl
      refine (wp_bind _ _ _ _).2 (wp_exec.2 ⟨nofun, nofun, ?_⟩)
      change (if k1.jobMeta.state = some s then _ else _ : StoreM Unit).wp _ _ k1
      split
      · exact fun _ => hrd _ rfl
      · exact wp_mono (fun _ _ h _ => hrd _ h.1) setStateWithContext_wp

theorem cancelAllJobAttempts_wp :
    (cancelAllJobAttempts jobID).wp (store cfg)
      (fun r k' => ∀ s, r = .ok s → k'.runtime.state = some s) k := by
  unfold cancelAllJobAttempts
  split
  · exact nofun
  refine (wp_bind _ _ _ _).2 (wp_mono ?_ (wp_true _ _))
  rintro (_ | _) k1 -
  · exact nofun
  · refine wp_exec.2 ⟨nofun, nofun, ?_⟩
    rintro s hs
    cases hs
    show (cancelAllJobAttemptsScript cfg.ttl k1.runtime).1.state =
      some (cancelAllJobAttemptsScript cfg.ttl k1.runtime).2
    unfold cancelAllJobAttemptsScript
    split
    · rename_i hst
      cases hs : k1.runtime.state with
      | none => rw [hs] at hst; cases hst
      | some x => simp [hs]
    · simp

theorem cancelJob_wp :
    (cancelJob jobID now).wp (store cfg) (fun r k' => ∀ s, r = .ok s → k'.readState = some s) k := by
  unfold cancelJob
  split
  · exact nofun
  refine (wp_bind _ _ _ _).2 (wp_exec.2 ⟨nofun, nofun, ?_⟩)
  change (if k.runtime.present then _ else _ : StoreM JobState).wp _ _ k
  split
  · refine (wp_bind _ _ _ _).2 (wp_mono ?_ cancelAllJobAttempts_wp)
    rintro (_ | x) k1 hk1
    · exact nofun
    · refine (wp_bind _ _ _ _).2 (wp_mono ?_ projectJobResult_wp)
      rintro (_ | _) k2 hk2
      · exact nofun
      · rintro s hs
        cases hs
        rw [readState, hk2, hk1 x rfl]; rfl
  · rename_i habs
    have hno := Runtime.state_of_absent (Bool.eq_false_iff.2 habs)
    refine (wp_bind _ _ _ _).2 (wp_exec.2 ⟨nofun, nofun, ?_⟩)
    change (ofTx (cancelJobTx now k).2).wp (store cfg) _ (cancelJobTx now k).1
    unfold cancelJobTx
    cases hst : k.storedState with
    | none => exact nofun
    | some x =>
      dsimp only
      split
      · rintro s hs
        cases hs
        rw [readState, hno, hst]; rfl
      · rintro s hs
        cases hs
        simp [readState, storedState, hno]

theorem applyJobResult_wp {a : JobResultApply} :
    (applyJobResult jobID a).wp (store cfg)
      (fun r k' => r = .ok .applied → k'.runtime.state = some a.state) k := by
  unfold applyJobResult
  split
  · exact nofun
  refine (wp_bind _ _ _ _).2 (wp_mono ?_ (wp_true _ _))
  rintro (_ | _) k1 -
  · exact nofun
  · refine (wp_bind _ _ _ _).2 (wp_exec.2 ⟨nofun, nofun, ?_⟩)
    change (disposition (applyJobResultScript a.args cfg.ttl k1.runtime).2).wp (store cfg) _
      { k1 with runtime := (applyJobResultScript a.args cfg.ttl k1.runtime).1 }
    rcases applyJobResultScript_cases k1.runtime cfg.ttl a.args with
      ⟨-, h⟩ | ⟨-, -, h⟩ | ⟨-, -, h⟩ | ⟨-, -, -, h⟩ | ⟨-, -, -, h⟩ <;> rw [h]
    · exact nofun
    · exact nofun
    · exact nofun
    · exact nofun
    · exact fun _ => by simp [Runtime.commitResult, JobResultApply.args]

theorem resolveApproval_wp {p : ApprovalResolutionParams} : (resolveApproval jobID p now).wp (store cfg)
      (fun r k' => k'.runtime = k.runtime ∧ ∀ s, r = .ok s → k'.storedState = some s) k := by
  unfold resolveApproval
  split
  · exact ⟨rfl, nofun⟩
  refine (wp_bind _ _ _ _).2 (wp_exec.2 ⟨⟨rfl, nofun⟩, ⟨store_key_runtime, nofun⟩, ?_⟩)
  change (ofTx (resolveApprovalTx cfg.hasher p now k).2).wp (store cfg) _
    (resolveApprovalTx cfg.hasher p now k).1
  rcases resolveApprovalTx_cases cfg.hasher p now k with ⟨e, h⟩ | ⟨_, _, _, _, _, -, -, -, -, h⟩
  · rw [h]; exact ⟨rfl, nofun⟩
  rw [h]
  refine ⟨by simp, fun s hs => ?_⟩
  cases hs
  simp [storedState]

theorem applyApprovalRepair_wp {p : ApprovalRepairApplyParams} :
    (applyApprovalRepair jobID p now).wp (store cfg) (fun r k' => k'.runtime = k.runtime ∧
        ∀ s, r = .ok s → p.plan.kind ≠ .replayPendingPublish → k'.storedState = some s) k := by
  unfold applyApprovalRepair
  split_ifs
  · exact ⟨rfl, nofun⟩
  · exact ⟨rfl, nofun⟩
  · refine (wp_bind _ _ _ _).2 (wp_exec.2 ⟨⟨rfl, nofun⟩, ⟨store_key_runtime, nofun⟩, ?_⟩)
    change (ofTx (applyApprovalRepairTx cfg.jobID p now k).2).wp (store cfg) _
      (applyApprovalRepairTx cfg.jobID p now k).1
    rcases applyApprovalRepairTx_cases cfg.jobID p now k with
      ⟨_, h⟩ | ⟨hkd, _, -, h⟩ | ⟨_, _, _, -, -, -, -, -, h⟩ <;> rw [h]
    · exact ⟨rfl, nofun⟩
    · exact ⟨rfl, fun _ _ hne => absurd hkd hne⟩
    · refine ⟨by simp, fun s hs _ => ?_⟩
      cases hs
      simp [storedState]

end

/-! ## One call -/

theorem readState_skip {k k' : JobKeys} (hrt : k'.runtime = k.runtime) (hst : k'.storedState = some s) :
    k'.readState = some s ↔ (k.runtime.state = none ∨ k.runtime.state = some s) := by
  rw [readState, hrt, hst]
  cases k.runtime.state <;> simp

theorem readState_of_runtime {k : JobKeys} (h : k.runtime.state = some s) : k.readState = some s := by
  rw [readState, h]; rfl

/-- What a call must leave for the state it reports to be read back. -/
def Reflected (c : StateCall) (k : JobKeys) (s : JobState) (k' : JobKeys) : Prop :=
  k'.readState = some s ↔ (c.skipsRuntime → k.runtime.state = none ∨ k.runtime.state = some s)

theorem wp_answer {α : Type} {p : StoreM α} {f : α → StoreAns} {k : JobKeys}
    {Q : StoreAns → JobKeys → Prop} (h : p.wp (store cfg) (fun r k' => ∀ a, r = .ok a → Q (f a) k') k) :
    (p.bind fun a => .ret (f a)).wp (store cfg) (fun r k' => ∀ ans, r = .ok ans → Q ans k') k := by
  refine (wp_bind _ _ _ _).2 (wp_mono ?_ h)
  rintro (_ | a) k' hq
  · exact nofun
  · intro ans hans; cases hans; exact hq a rfl

/-- **When a reported state is read back**: always, except that calls that skip the runtime hash need
it without a state, or with that one. -/
theorem reflected_wp {c : StateCall} {k : JobKeys} : (c.prog cfg.jobID).wp (store cfg)
      (fun r k' => ∀ ans, r = .ok ans → ∀ s, c.reported ans = some s → Reflected c k s k') k := by
  have hfu : ∀ {c : StateCall} {s : JobState} {k' : JobKeys},
      c.skipsRuntime = false → k'.readState = some s →
      Reflected c k s k' := fun hc hr => iff_of_true hr (by simp [hc])
  have hno : ∀ {p : StoreM StoreAns} {c : StateCall}, (∀ ans, c.reported ans = none) →
      p.wp (store cfg)
        (fun r k' => ∀ ans, r = .ok ans → ∀ s, c.reported ans = some s → Reflected c k s k') k :=
    fun hc => wp_mono (fun _ _ _ ans _ s hs => by rw [hc ans] at hs; cases hs) (wp_true _ _)
  cases c with
  | result a w now =>
    refine (wp_bind _ _ _ _).2 (wp_mono ?_ applyJobResult_wp)
    rintro (_ | d) k1 hk1
    · exact nofun
    · -- the projection runs after an application only, and leaves the runtime hash alone
      cases d with
      | applied =>
        refine (wp_bind _ _ _ _).2 (wp_mono ?_ projectJobResult_wp)
        rintro (_ | _) k2 hk2
        · exact nofun
        · intro ans hans s hs
          cases hans
          cases hs
          exact hfu rfl (readState_of_runtime (by rw [hk2]; exact hk1 rfl))
      | rejected | duplicate => intro ans hans s hs; cases hans; cases hs
  | call op =>
    cases op with
    | setState s now =>
      refine wp_answer (wp_mono ?_ setState_wp)
      rintro _ k' h a rfl s' hs'
      cases hs'
      exact hfu rfl (h rfl)
    | setStateWithContext s now =>
      refine wp_answer (wp_mono ?_ setStateWithContext_wp)
      rintro _ k' ⟨hrt, h⟩ a rfl s' hs'
      cases hs'
      exact (readState_skip hrt (h rfl)).trans (by simp [StateCall.skipsRuntime])
    | cancelJob now =>
      refine wp_answer (wp_mono ?_ cancelJob_wp)
      rintro _ k' h a rfl s' hs'
      cases hs'
      exact hfu rfl (h _ rfl)
    | cancelAllJobAttempts =>
      refine wp_answer (wp_mono ?_ cancelAllJobAttempts_wp)
      rintro _ k' h a rfl s' hs'
      cases hs'
      exact hfu rfl (readState_of_runtime (h _ rfl))
    | resolveApproval p now =>
      refine wp_answer (wp_mono ?_ resolveApproval_wp)
      rintro _ k' ⟨hrt, h⟩ a rfl s' hs'
      cases hs'
      exact (readState_skip hrt (h _ rfl)).trans (by simp [StateCall.skipsRuntime])
    | applyApprovalRepair p now =>
      refine wp_answer (wp_mono ?_ applyApprovalRepair_wp)
      rintro _ k' ⟨hrt, h⟩ a rfl s' hs'
      simp only [StateCall.reported] at hs'
      split_ifs at hs' with hkd
      cases hs'
      exact (readState_skip hrt (h _ rfl hkd)).trans (by simp [StateCall.skipsRuntime])
    | applyJobResult a =>
      refine wp_answer (wp_mono ?_ applyJobResult_wp)
      rintro _ k' h d rfl s' hs'
      cases d <;> cases hs'
      exact hfu rfl (readState_of_runtime (h rfl))
    | _ => exact hno fun ans => by cases ans <;> rfl

/-! ## Sequences of calls -/

/-- A call, run to its end. -/
def callOut (cfg : StoreConfig) (c : StateCall × List Fault) (k : JobKeys) :
    Out StoreErr StoreAns JobKeys :=
  (c.1.prog cfg.jobID).run (store cfg) c.2 k

/-- The keys after calls. -/
def keysAfter (cfg : StoreConfig) (k : JobKeys) (cs : List (StateCall × List Fault)) : JobKeys :=
  cs.foldl (fun k c => (callOut cfg c k).st) k

/-- A call made after `before`, that reports to have moved the job to `s`. -/
def ReportedAt (cfg : StoreConfig) (k : JobKeys) (cs before : List (StateCall × List Fault))
    (c : StateCall × List Fault) (s : JobState) : Prop :=
  (∃ rest, cs = before ++ c :: rest) ∧
    ∃ ans, (callOut cfg c (keysAfter cfg k before)).ans = .ok ans ∧ c.1.reported ans = some s

/-- Right after each call that reports a state, `GetState` returns it. -/
def GetStateReflects (cfg : StoreConfig) (k : JobKeys) (cs : List (StateCall × List Fault)) : Prop :=
  ∀ before c s, ReportedAt cfg k cs before c s →
    (getState.run (store cfg) [] (callOut cfg c (keysAfter cfg k before)).st).ans = .ok s

/-- **When `GetState` reflects the last change.** Over any calls from any keys, with any transport
faults, `GetState` returns every state right after it was reported if and only if each time an
approval call or `SetStateWithContext` reports a state, the runtime hash has none or that one. -/
theorem getState_reflects_iff (cfg : StoreConfig) (k : JobKeys) (cs : List (StateCall × List Fault)) :
    GetStateReflects cfg k cs ↔
      ∀ before c s, ReportedAt cfg k cs before c s → c.1.skipsRuntime = true →
        (keysAfter cfg k before).runtime.state = none ∨
        (keysAfter cfg k before).runtime.state = some s := by
  refine forall₃_congr fun before c s => forall_congr' ?_
  rintro ⟨-, ans, hans, hs⟩
  rw [getState_ok_iff]
  exact wp_run reflected_wp c.2 ans hans s hs

/-- A job waiting for approval, with its request and the hash it was checked under. -/
def awaitingKeys : JobKeys :=
  { jobMeta := {
      state := some .approval
      safety := { decision := some .requireApproval, approvalRequired := true, jobHash := "hash" } }
    request := some {
      jobId := "job-1", topic := "job.demo", tenantId := "acme", identityTenant := "", metaTenant := ""
      labels := ∅, env := ∅, deadlineMs := 0, dispatch := none, body := "" } }

/-- An event of an old dispatch arrives, and then the job is approved. -/
def approveAfterEvent : List (StateCall × List Fault) :=
  [(.call (.acceptJobEvent ⟨"d0", 1, "worker-1", "acme"⟩ "e1"), []),
    (.call (.resolveApproval { decision := .approve, resultState := .pending } 5), [])]

/-- **An approval is not read back**: it reports `PENDING`, and `GetState` still says `APPROVAL`. -/
theorem getState_reflects_fails :
    ReportedAt exampleConfig awaitingKeys approveAfterEvent [approveAfterEvent.head (by decide)]
      (approveAfterEvent.getLast (by decide)) .pending ∧
    (getState.run (store exampleConfig) [] (keysAfter exampleConfig awaitingKeys approveAfterEvent)).ans =
      .ok .approval ∧
    ¬ GetStateReflects exampleConfig awaitingKeys approveAfterEvent := by
  have hrep : ReportedAt exampleConfig awaitingKeys approveAfterEvent [approveAfterEvent.head (by decide)]
      (approveAfterEvent.getLast (by decide)) .pending :=
      ⟨⟨[], rfl⟩, .state .pending, by decide +kernel, rfl⟩
  have hget : (getState.run (store exampleConfig) []
      (keysAfter exampleConfig awaitingKeys approveAfterEvent)).ans = .ok .approval := by decide +kernel
  refine ⟨hrep, hget, fun h => ?_⟩
  have := (h _ _ _ hrep).symm.trans hget
  cases this

end Cordum
