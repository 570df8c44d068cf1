import Cordum.Conc.Prog
import Cordum.Store.Approval

/-!
# The commands the job store sends

One job's Redis, as a service: each command is a single Redis call, a Lua script
or a `WATCH` transaction, and runs atomically. A command reaches either the runtime
hash (`RtCmd`) or the other keys (`KeyCmd`), never both, since the two live in
different hash slots.
-/

namespace Cordum

/-- The job, the configured time to live of the runtime hash, and the request hash. -/
structure StoreConfig where
  jobID : String
  ttl : ℤ
  hasher : Hasher

/-- Commands on `job:{..}:runtime`. -/
inductive RtCmd
  | migrateRuntimeFence (state : Option JobState) (legacy : Fence)
  | beginDispatch (dispatchId workerId tenant : String)
  | rollbackDispatch (dispatchId : String) (attempt : ℤ)
  | transitionRuntimeState (target : JobState)
  | acceptJobEvent (c : Claim) (eventId : String)
  | acceptSignedJobEvent (c : Claim) (eventId digest : String)
  | applyJobResult (a : ApplyArgs)
  | ackJobEffect (eventId digest : String)
  | cancelAllJobAttempts
  | keyExists
  | hgetState
  | hsetResultPtr (ptr : String)

/-- What a command on the runtime hash replies. -/
abbrev RtCmd.Reply : RtCmd → Type
  | migrateRuntimeFence .. | hsetResultPtr .. => Unit
  | cancelAllJobAttempts => JobState
  | hgetState => Option JobState
  | keyExists => Bool
  | beginDispatch .. | rollbackDispatch .. | transitionRuntimeState .. | acceptJobEvent ..
  | acceptSignedJobEvent .. | applyJobResult .. | ackJobEffect .. => ℤ

/-- Commands on the job's other keys. -/
inductive KeyCmd
  | hgetAllMeta
  | hgetMetaState
  | getStateKey
  | getJobRequest
  | setState (target : JobState) (now : ℤ)
  | cancelJob (now : ℤ)
  | resolveApproval (p : ApprovalResolutionParams) (now : ℤ)
  | applyApprovalRepair (p : ApprovalRepairApplyParams) (now : ℤ)
  | setSafetyDecision (record : SafetyDecisionRecord) (now : ℤ)
  | setJobMeta (topic tenant : String) (deadline : Option ℤ)
  | setJobRequest (req : JobRequest)
  | setResultPtr (ptr : String)
  | setWorkerID (workerId : String)
  | setFailureReason (reason : String)
  | setDeadline (deadline : ℤ)
  | setDelegationLineage (lineage : String)
  | clearDelegationToken
  | incrAttempts
  | projectMeta (state : JobState) (ptr workerId : String) (now : ℤ)
  | setStateKey (state : JobState)
  | setResultPtrKey (ptr : String)
  | zremIndex (state : JobState)
  | zaddIndex (state : JobState) (now : ℤ)
  | trackActive (tenant : String) (state : JobState)
  | zremDeadline
  | hdelDeadline

/-- What a command on the other keys replies. -/
abbrev KeyCmd.Reply : KeyCmd → Type
  | hgetAllMeta => Meta
  | hgetMetaState | getStateKey => Option JobState
  | getJobRequest => Option JobRequest
  | setState .. => Except StoreErr Unit
  | cancelJob .. | resolveApproval .. | applyApprovalRepair .. => Except StoreErr JobState
  | setSafetyDecision .. | setJobMeta .. | setJobRequest .. | setResultPtr .. | setWorkerID ..
  | setFailureReason .. | setDeadline .. | setDelegationLineage .. | clearDelegationToken
  | incrAttempts | projectMeta .. | setStateKey .. | setResultPtrKey .. | zremIndex .. | zaddIndex ..
  | trackActive .. | zremDeadline | hdelDeadline => Unit

/-- All commands. -/
inductive StoreCmd
  | rt (c : RtCmd)
  | key (c : KeyCmd)

/-- The replies. -/
abbrev StoreCmd.Reply : StoreCmd → Type
  | rt c => c.Reply
  | key c => c.Reply

variable (cfg : StoreConfig)

/-- A command on the runtime hash. -/
def runtimeStep : (c : RtCmd) → Runtime → Runtime × c.Reply
  | .migrateRuntimeFence state legacy, rt => (migrateRuntimeFenceScript state legacy cfg.ttl rt, ())
  | .beginDispatch d w t, rt => beginDispatchScript d w t cfg.ttl rt
  | .rollbackDispatch d n, rt => rollbackDispatchScript d n rt
  | .transitionRuntimeState target, rt => transitionRuntimeStateScript target (priorStates target) rt
  | .acceptJobEvent c e, rt => acceptJobEventScript c e cfg.ttl rt
  | .acceptSignedJobEvent c e d, rt => acceptSignedJobEventScript c e d cfg.ttl rt
  | .applyJobResult a, rt => applyJobResultScript a cfg.ttl rt
  | .ackJobEffect e d, rt => ackJobEffectScript e d rt
  | .cancelAllJobAttempts, rt => cancelAllJobAttemptsScript cfg.ttl rt
  | .keyExists, rt => (rt, rt.present)
  | .hgetState, rt => (rt, rt.state)
  | .hsetResultPtr ptr, rt => ({ rt with resultPtr := some ptr }, ())

/-- A command on the other keys. -/
def keyStep : (c : KeyCmd) → JobKeys → JobKeys × c.Reply
  | .hgetAllMeta, k => (k, k.jobMeta)
  | .hgetMetaState, k => (k, k.jobMeta.state)
  | .getStateKey, k => (k, k.stateKey)
  | .getJobRequest, k => (k, k.request)
  | .setState target now, k => setStateTx target now k
  | .cancelJob now, k => cancelJobTx now k
  | .resolveApproval p now, k => resolveApprovalTx cfg.hasher p now k
  | .applyApprovalRepair p now, k => applyApprovalRepairTx cfg.jobID p now k
  | .setSafetyDecision record now, k => ({ k with jobMeta := setSafetyDecision record now k.jobMeta }, ())
  | .setJobMeta topic tenant deadline, k =>
    ({ k with
      jobMeta := { k.jobMeta with
        topic := some topic, tenant := some tenant, deadline := deadline <|> k.jobMeta.deadline }
      deadlineIndex := deadline <|> k.deadlineIndex }, ())
  | .setJobRequest req, k => ({ k with request := some req }, ())
  | .setResultPtr ptr, k =>
    ({ k with resultPtrKey := some ptr, jobMeta := { k.jobMeta with resultPtr := some ptr } }, ())
  | .setWorkerID w, k => ({ k with jobMeta := { k.jobMeta with workerId := w } }, ())
  | .setFailureReason r, k => ({ k with jobMeta := { k.jobMeta with failureReason := r } }, ())
  | .setDeadline d, k =>
    ({ k with jobMeta := { k.jobMeta with deadline := some d }, deadlineIndex := some d }, ())
  | .setDelegationLineage l, k =>
    ({ k with jobMeta := { k.jobMeta with delegationLineage := some l } }, ())
  | .clearDelegationToken, k => ({ k with jobMeta := { k.jobMeta with delegationToken := none } }, ())
  | .incrAttempts, k => ({ k with jobMeta := { k.jobMeta with attempts := k.jobMeta.attempts + 1 } }, ())
  | .projectMeta state ptr w now, k =>
    ({ k with jobMeta := { k.jobMeta with
        state := some state
        updatedAt := now
        resultPtr := if ptr ≠ "" then some ptr else k.jobMeta.resultPtr
        workerId := if w ≠ "" then w else k.jobMeta.workerId } }, ())
  | .setStateKey s, k => ({ k with stateKey := some s }, ())
  | .setResultPtrKey ptr, k => ({ k with resultPtrKey := some ptr }, ())
  | .zremIndex s, k => (k.zremIndex (some s), ())
  | .zaddIndex s now, k => (k.zaddIndex s now, ())
  | .trackActive tenant s, k =>
    ({ k with active := if isActiveState s then insert tenant k.active else k.active.erase tenant }, ())
  | .zremDeadline, k => ({ k with deadlineIndex := none }, ())
  | .hdelDeadline, k => ({ k with jobMeta := { k.jobMeta with deadline := none } }, ())

/-- Redis, as far as one job sees it. -/
def store : Conc.Sem StoreCmd StoreCmd.Reply JobKeys
  | .rt c, k => ({ k with runtime := (runtimeStep cfg c k.runtime).1 }, (runtimeStep cfg c k.runtime).2)
  | .key c, k => keyStep cfg c k

variable {cfg} {k : JobKeys} {id id' v w : String} {rt : Runtime} {c : RtCmd}

@[simp] theorem store_rt : store cfg (.rt c) k =
    ({ k with runtime := (runtimeStep cfg c k.runtime).1 }, (runtimeStep cfg c k.runtime).2) := rfl

theorem keyStep_runtime {c : KeyCmd} : (keyStep cfg c k).1.runtime = k.runtime := by
  cases c with
  | setState target now =>
    rcases setStateTx_cases target now k with ⟨-, h⟩ | ⟨-, n, h⟩ <;> simp [keyStep, h]
  | cancelJob now =>
    simp only [keyStep, cancelJobTx]
    split
    · rfl
    · split <;> simp
  | resolveApproval p now => exact resolveApprovalTx_runtime _
  | applyApprovalRepair p now => exact applyApprovalRepairTx_runtime
  | _ => rfl

/-- A command on the other keys leaves the runtime hash as it is. -/
theorem store_key_runtime {c : KeyCmd} : (store cfg (.key c) k).1.runtime = k.runtime :=
  keyStep_runtime

/-- Events keep their values. -/
def EventsKept (rt rt' : Runtime) : Prop := ∀ id v, rt.events.lookup id = some v →
    rt'.events.lookup id = some v

theorem lookup_insert_kept {m : StrMap} (hn : m.lookup id = none)
    (h : m.lookup id' = some v) : (m.insert id w).lookup id' = some v := by
  have hne : id' ≠ id := by rintro rfl; rw [hn] at h; cases h
  rw [Finmap.lookup_insert_of_ne _ hne]; exact h

/-- What a script makes of the hash, the time to live apart. -/
inductive RtChange (rt : Runtime) : RtCmd → Runtime → Prop
  | same {c : RtCmd} : RtChange rt c rt
  | migrated {s : Option JobState} {f : Fence} :
    RtChange rt (.migrateRuntimeFence s f)
      { rt with
        state := rt.state <|> s
        fence := {
          dispatchId := rt.fence.dispatchId <|> nonEmpty f.dispatchId
          attempt := rt.fence.attempt <|> f.attempt
          workerId := rt.fence.workerId <|> nonEmpty f.workerId
          tenant := rt.fence.tenant <|> nonEmpty f.tenant } }
  | begun {d w t : String} {attempt : ℤ} :
    RtChange rt (.beginDispatch d w t) { rt with fence := ⟨some d, some attempt, some w, some t⟩ }
  | rolledBack {d : String} {n : ℤ} :
    RtChange rt (.rollbackDispatch d n)
      { rt with state := some .scheduled, fence := { attempt := rt.fence.attempt } }
  | moved {s target : JobState} (hs : rt.state = some s) (hprior : isAllowedTransition (some s) target) :
    RtChange rt (.transitionRuntimeState target) { rt with state := some target }
  | recorded {c : RtCmd} {id digest : String} (hc : (∃ cl e, c = .acceptJobEvent cl e) ∨ rt.inFlight)
    (hnew : rt.events.lookup id = none) : RtChange rt c { rt with events := rt.events.insert id digest }
  | committed {a : ApplyArgs} (hflight : rt.inFlight) (hnew : rt.events.lookup a.eventId = none) :
    RtChange rt (.applyJobResult a) (rt.commitResult a)
  | acked {id digest : String} : RtChange rt (.ackJobEffect id digest)
      { rt with effects := rt.effects.erase id }
  | cancelled : RtChange rt .cancelAllJobAttempts
      { rt with state := some .cancelled, fence := { attempt := rt.fence.attempt } }
  | pointed {ptr : String} : RtChange rt (.hsetResultPtr ptr) { rt with resultPtr := some ptr }

theorem runtimeStep_change (cfg : StoreConfig) (c : RtCmd) (rt : Runtime) :
    ∃ rt', RtChange rt c rt' ∧ rt'.EqUpToTTL (runtimeStep cfg c rt).1 := by
  cases c with
  | migrateRuntimeFence s f => exact ⟨_, .migrated, Runtime.expire_eqUpToTTL _⟩
  | beginDispatch d w t => exact ⟨_, .begun, Runtime.expire_eqUpToTTL _⟩
  | rollbackDispatch d n =>
    simp only [runtimeStep, rollbackDispatchScript]
    split_ifs
    · exact ⟨rt, .same, .rfl⟩
    · exact ⟨rt, .same, .rfl⟩
    · exact ⟨_, .rolledBack, .rfl⟩
  | transitionRuntimeState t =>
    simp only [runtimeStep, transitionRuntimeStateScript]
    cases hs : rt.state with
    | none => exact ⟨rt, .same, .rfl⟩
    | some s =>
      dsimp only
      split_ifs with hsm hpri
      · exact ⟨rt, .same, .rfl⟩
      · exact ⟨_, .moved hs (mem_priorStates.1 (by simpa using hpri)), .rfl⟩
      · exact ⟨rt, .same, .rfl⟩
  | acceptJobEvent c e =>
    simp only [runtimeStep]
    rcases acceptJobEventScript_cases rt cfg.ttl c e with ⟨-, h⟩ | ⟨-, -, h⟩ | ⟨-, hnew, h⟩ <;> rw [h]
    · exact ⟨rt, .same, .rfl⟩
    · exact ⟨rt, .same, Runtime.expire_eqUpToTTL _⟩
    · exact ⟨_, .recorded (.inl ⟨c, e, rfl⟩) hnew, Runtime.expire_eqUpToTTL _⟩
  | acceptSignedJobEvent c e d =>
    simp only [runtimeStep]
    rcases acceptSignedJobEventScript_cases rt cfg.ttl c e d with
      ⟨-, h⟩ | ⟨-, h⟩ | ⟨-, -, -, h⟩ | ⟨-, -, -, h⟩ | ⟨-, hfli, hnew, h⟩ <;> rw [h]
    case inr.inr.inr.inr => exact ⟨_, .recorded (.inr hfli) hnew, Runtime.expire_eqUpToTTL _⟩
    all_goals exact ⟨rt, .same, .rfl⟩
  | applyJobResult a =>
    simp only [runtimeStep]
    rcases applyJobResultScript_cases rt cfg.ttl a with
      ⟨-, h⟩ | ⟨-, -, h⟩ | ⟨-, -, h⟩ | ⟨-, -, -, h⟩ | ⟨-, hnew, hfli, h⟩ <;> rw [h]
    case inr.inr.inr.inr => exact ⟨_, .committed hfli hnew, Runtime.expire_eqUpToTTL _⟩
    all_goals exact ⟨rt, .same, .rfl⟩
  | ackJobEffect e d =>
    simp only [runtimeStep, ackJobEffectScript]
    split_ifs
    · exact ⟨rt, .same, .rfl⟩
    · exact ⟨rt, .same, .rfl⟩
    · exact ⟨_, .acked, .rfl⟩
  | cancelAllJobAttempts =>
    simp only [runtimeStep, cancelAllJobAttemptsScript]
    split_ifs
    · exact ⟨rt, .same, Runtime.expire_eqUpToTTL _⟩
    · exact ⟨_, .cancelled, Runtime.expire_eqUpToTTL _⟩
  | keyExists | hgetState => exact ⟨rt, .same, .rfl⟩
  | hsetResultPtr p => exact ⟨_, .pointed, .rfl⟩

/-- **No script forgets or rewrites an event.** -/
theorem events_mono : EventsKept rt (runtimeStep cfg c rt).1 := by
  intro id v h
  obtain ⟨rt', hchg, -, -, -, heve, -⟩ := runtimeStep_change cfg c rt
  rw [heve]
  cases hchg with
  | recorded _ hnew | committed _ hnew => exact lookup_insert_kept hnew h
  | _ => exact h

theorem transition_state_of_one {target : JobState}
    (h : (runtimeStep cfg (.transitionRuntimeState target) rt).2 = 1) :
    (runtimeStep cfg (.transitionRuntimeState target) rt).1.state = some target := by
  simp only [runtimeStep, transitionRuntimeStateScript] at h ⊢
  cases hs : rt.state with
  | none =>
    rw [hs] at h
    cases h
  | some current =>
    rw [hs] at h
    dsimp only at h ⊢
    split_ifs at h ⊢ with hsm hpri
    · rw [hs, hsm]
    · rfl
    · cases h

end Cordum
