import Cordum.Store.Commands

/-!
# The operations of the job store

The methods of `RedisJobStore`, as programs of Redis commands. A method stops at
the first command that fails, save where the source goes on: `getState` falls back
to the legacy key on any error from the meta hash. Times (`now`) and the fresh
dispatch id (`uuid.NewString`) are arguments.
-/

namespace Cordum

open Conc

/-- The programs of the store. -/
abbrev StoreM := Prog StoreCmd StoreCmd.Reply StoreErr

/-- One command on the runtime hash. -/
def rt (c : RtCmd) (during : String) : StoreM c.Reply := Prog.exec (StoreCmd.rt c) (StoreErr.redis during)

/-- One command on the other keys. -/
def key (c : KeyCmd) (during : String) : StoreM c.Reply :=
  Prog.exec (StoreCmd.key c) (StoreErr.redis during)

/-- The outcome of a transaction. -/
def ofTx {α : Type} : Except StoreErr α → StoreM α
  | .ok a => .ret a
  | .error e => .fail e

/-- `migrateRuntimeFence`: copy from the meta hash what the runtime hash lacks. -/
def migrateRuntimeFence (during : String) : StoreM Unit := do
  let legacy ← key .hgetAllMeta (during ++ ": migrate fence")
  rt (.migrateRuntimeFence legacy.state legacy.dispatch) (during ++ ": migrate fence")

/-- The runtime hash, else the meta hash, else the state key. -/
def getState : StoreM JobState := do
  match ← rt .hgetState "job store get runtime state" with
  | some s => .ret s
  | none =>
    match ← Prog.cmd (StoreCmd.key .hgetMetaState) with
    | some (some s) => .ret s
    | _ =>
      match ← key .getStateKey "job store get state" with
      | some s => .ret s
      | none => .fail (.notFound "job store get state")

variable (jobID : String)

/-- Sets the state outside the runtime hash. -/
def setStateWithContext (state : JobState) (now : ℤ) : StoreM Unit :=
  if jobID = "" then .fail (.invalid "invalid jobID or state")
  else do ofTx (← key (.setState state now) "job store set state")

/-- Moves the runtime hash, or fails. -/
def transitionRuntimeState (target : JobState) : StoreM Unit := do
  let changed ← rt (.transitionRuntimeState target) "job store transition runtime state"
  if changed = 1 then .ret ()
  else do
    let _ ← Prog.cmd (StoreCmd.rt .hgetState)
    .fail (.invalidRuntimeTransition target)

/-- Moves the runtime hash first, if there is one. -/
def setState (state : JobState) (now : ℤ) : StoreM Unit :=
  if jobID = "" then .fail (.invalid "invalid jobID or state")
  else do
    let present ← rt .keyExists "exists"
    if present = false then setStateWithContext jobID state now
    else do
      transitionRuntimeState state
      let legacy ← key .hgetMetaState "hget"
      if legacy = some state then .ret () else setStateWithContext jobID state now

/-- Takes a dispatch back. -/
def rollbackDispatch (jobID dispatchID : String) (attempt : ℤ) : StoreM Bool :=
  if jobID = "" ∨ dispatchID = "" ∨ attempt ≤ 0
    then .fail (.invalid "jobID, dispatchID, and attempt required")
  else do
    let result ← rt (.rollbackDispatch dispatchID attempt) "job store rollback dispatch"
    .ret (result == 1)

/-- `BeginDispatch`; `dispatchID` is the id `uuid.NewString` gives it. -/
def beginDispatch (jobID workerID tenant dispatchID : String) : StoreM (String × ℤ) :=
  if jobID = "" ∨ workerID = "" ∨ tenant = "" then .fail (.invalid "jobID, workerID, and tenant required")
  else do
    let _ ← getState
    migrateRuntimeFence "job store begin dispatch"
    let attempt ← rt (.beginDispatch dispatchID workerID tenant) "job store begin dispatch"
    .ret (dispatchID, attempt)

/-- Accepts an event of the current dispatch. -/
def acceptJobEvent (c : Claim) (eventMessageID : String) : StoreM Bool :=
  if jobID = "" ∨ c.dispatchId = "" ∨ c.workerId = "" ∨ c.tenant = "" ∨ eventMessageID = "" then
    .fail (.invalid "jobID, dispatchID, workerID, tenant, and eventMessageID required")
  else do
    migrateRuntimeFence "job store accept job event"
    let res ← rt (.acceptJobEvent c eventMessageID) "job store accept job event"
    .ret (res == 1)

/-- `model.JobEventApplyDisposition`. -/
inductive Disposition
  | rejected
  | applied
  | duplicate
deriving DecidableEq, Repr

/-- A script's return code as a disposition; a negative one is a digest conflict. -/
def disposition (code : ℤ) : StoreM Disposition :=
  if code < 0 then .fail .digestConflict
  else .ret (if code = 1 then .applied else if code = 2 then .duplicate else .rejected)

/-- Accepts a signed event once. -/
def acceptSignedJobEvent (c : Claim) (messageID digest : List UInt8) : StoreM Disposition :=
  if jobID = "" ∨ c.dispatchId = "" ∨ c.attempt ≤ 0 ∨ c.workerId = "" ∨ c.tenant = "" ∨
    messageID = [] ∨ digest = []
  then .fail (.invalid "signed job event requires complete fence, identity, message id, and digest")
  else do
    migrateRuntimeFence "job store accept signed event"
    let result ← rt (.acceptSignedJobEvent c (Base64.encode Base64.rawURL messageID)
        (Base64.encode Base64.rawStd digest))
      "job store accept signed event"
    disposition result

/-- `model.JobResultApply`, without the job id. -/
structure JobResultApply where
  claim : Claim
  messageID : List UInt8
  digest : List UInt8
  effect : List UInt8
  state : JobState
  resultPtr : String
deriving DecidableEq

/-- What `validateJobResultApply` refuses. -/
def JobResultApply.incomplete (a : JobResultApply) (jobID : String) : Prop :=
  jobID = "" ∨ a.claim.dispatchId = "" ∨ a.claim.workerId = "" ∨
    a.claim.tenant = "" ∨ a.claim.attempt ≤ 0 ∨ a.messageID = [] ∨ a.digest = [] ∨ a.effect = []

instance (a : JobResultApply) (jobID : String) : Decidable (a.incomplete jobID) := by
  unfold JobResultApply.incomplete; infer_instance

/-- What the script is given. -/
def JobResultApply.args (a : JobResultApply) : ApplyArgs where
  claim := a.claim
  eventId := Base64.encode Base64.rawURL a.messageID
  digest := Base64.encode Base64.rawStd a.digest
  state := a.state
  resultPtr := a.resultPtr
  effect := Base64.encode Base64.rawStd a.effect

/-- Applies a result once. -/
def applyJobResult (a : JobResultApply) : StoreM Disposition :=
  if a.incomplete jobID then
    .fail (.invalid "job result apply requires complete fence, signed identity, state, and effect")
  else do
    migrateRuntimeFence "job store apply result"
    let result ← rt (.applyJobResult a.args) "job store apply result"
    disposition result

/-- Removes an effect that was carried out. -/
def ackJobEffect (jobID eventID : String) (digest : List UInt8) : StoreM Bool :=
  if jobID = "" ∨ eventID = "" ∨ digest = [] then .fail
    (.invalid "job effect requires job id, event id, and digest")
  else do
    let result ← rt (.ackJobEffect eventID (Base64.encode Base64.rawStd digest)) "job store ack effect"
    .ret (result == 1)

/-- Cancels the job and its dispatch. -/
def cancelAllJobAttempts : StoreM JobState :=
  if jobID = "" then .fail (.invalid "jobID required")
  else do
    migrateRuntimeFence "job store cancel all attempts"
    rt .cancelAllJobAttempts "job store cancel all attempts"

/-- The index removals of `projectLegacyResultIndexes`. -/
def projectRemoveIndexes (state : JobState) : List JobState → StoreM Unit
  | [] => .ret ()
  | s :: rest => do
    Prog.when (s ≠ state) (key (.zremIndex s) "job store project remove state index")
    projectRemoveIndexes state rest

/-- The active set and the deadline of a result. -/
def projectLegacyTerminalState (state : JobState) : StoreM Unit := do
  let m ← key .hgetAllMeta "job store project tenant"
  Prog.when (m.tenant.getD "" ≠ "")
    (key (.trackActive (m.tenant.getD "") state) "job store project tenant active")
  Prog.when (terminalStates state) do
    key .zremDeadline "job store project deadline index"
    key .hdelDeadline "hdel"

/-- Writes a result outside the runtime hash. -/
def projectJobResult (state : JobState) (resultPtr workerID : String) (now : ℤ) : StoreM Unit :=
  if jobID = "" then .fail (.invalid "job result projection requires job id and state")
  else do
    key (.projectMeta state resultPtr workerID now) "job store project result meta"
    key (.setStateKey state) "job store project state"
    Prog.when (resultPtr ≠ "") (key (.setResultPtrKey resultPtr) "job store project result pointer")
    projectRemoveIndexes state JobState.all
    key (.zaddIndex state now) "job store project state index"
    projectLegacyTerminalState state

/-- `CancelJob`. -/
def cancelJob (now : ℤ) : StoreM JobState :=
  if jobID = "" then .fail (.invalid "jobID required")
  else do
    let present ← rt .keyExists "job store cancel runtime lookup"
    if present then do
      let state ← cancelAllJobAttempts jobID
      projectJobResult jobID state "" "" now
      .ret state
    else do ofTx (← key (.cancelJob now) "job store cancel job")

/-- Stores the pointer in both places. -/
def setResultPtr (ptr : String) : StoreM Unit := do
  key (.setResultPtr ptr) "job store set result ptr"
  let present ← rt .keyExists "exists"
  Prog.when (present = true) (rt (.hsetResultPtr ptr) "hset")

/-- `ResolveApproval`. -/
def resolveApproval (p : ApprovalResolutionParams) (now : ℤ) : StoreM JobState :=
  if GoString.trimSpace jobID = "" then .fail (.invalid "jobID required")
  else do ofTx (← key (.resolveApproval p now) "job store resolve approval")

/-- `ApplyApprovalRepair`. -/
def applyApprovalRepair (p : ApprovalRepairApplyParams) (now : ℤ) : StoreM JobState :=
  if GoString.trimSpace jobID = "" then .fail (.invalid "jobID required")
  else if p.plan.kind = .none then .fail (.invalid "approval repair plan required")
  else do ofTx (← key (.applyApprovalRepair p now) "job store apply approval repair")

/-! ## Reading the state -/

/-- The state `GetState` finds. -/
def JobKeys.readState (k : JobKeys) : Option JobState := k.runtime.state <|> k.storedState

variable {cfg : StoreConfig}

/-- **`GetState` on a healthy store**: runtime hash, else meta hash, else state key. -/
theorem getState_ans {k : JobKeys} : (getState.run (store cfg) [] k).ans =
    match k.readState with
    | some s => .ok s
    | none => .error (.notFound "job store get state") := by
  obtain ⟨rt, m, stateKey, _, _, _, _, _⟩ := k
  obtain ⟨_ | s, _, _, _, _, _⟩ := rt
  · obtain ⟨_ | s, _, _, _, _, _, _, _, _, _, _, _, _, _⟩ := m
    · cases stateKey <;> rfl
    · rfl
  · rfl

theorem getState_ok_iff {k : JobKeys} {s : JobState} :
    (getState.run (store cfg) [] k).ans = .ok s ↔ k.readState = some s := by
  rw [getState_ans]
  cases k.readState <;> simp

/-! ## Calls -/

/-- A call of the store. -/
inductive StoreOp
  | beginDispatch (workerID tenant dispatchID : String)
  | setState (state : JobState) (now : ℤ)
  | setStateWithContext (state : JobState) (now : ℤ)
  | applyJobResult (a : JobResultApply)
  | acceptSignedJobEvent (c : Claim) (messageID digest : List UInt8)
  | acceptJobEvent (c : Claim) (eventMessageID : String)
  | rollbackDispatch (dispatchID : String) (attempt : ℤ)
  | cancelAllJobAttempts
  | ackJobEffect (eventID : String) (digest : List UInt8)
  | projectJobResult (state : JobState) (resultPtr workerID : String) (now : ℤ)
  | cancelJob (now : ℤ)
  | setResultPtr (ptr : String)
  | resolveApproval (p : ApprovalResolutionParams) (now : ℤ)
  | applyApprovalRepair (p : ApprovalRepairApplyParams) (now : ℤ)

/-- What a call answers. -/
inductive StoreAns
  | done
  | began (dispatchID : String) (attempt : ℤ)
  | rolledBack (b : Bool)
  | accepted (b : Bool)
  | disposed (d : Disposition)
  | acked (b : Bool)
  | state (s : JobState)
deriving DecidableEq, Repr

/-- The program of a call. -/
def StoreOp.prog : StoreOp → StoreM StoreAns
  | .beginDispatch w t d => do let r ← Cordum.beginDispatch jobID w t d; return .began r.1 r.2
  | .setState s now => do Cordum.setState jobID s now; return .done
  | .setStateWithContext s now => do Cordum.setStateWithContext jobID s now; return .done
  | .applyJobResult a => do return .disposed (← Cordum.applyJobResult jobID a)
  | .acceptSignedJobEvent c m d => do return .disposed (← Cordum.acceptSignedJobEvent jobID c m d)
  | .acceptJobEvent c e => do return .accepted (← Cordum.acceptJobEvent jobID c e)
  | .rollbackDispatch d n => do return .rolledBack (← Cordum.rollbackDispatch jobID d n)
  | .cancelAllJobAttempts => do return .state (← Cordum.cancelAllJobAttempts jobID)
  | .ackJobEffect e d => do return .acked (← Cordum.ackJobEffect jobID e d)
  | .projectJobResult s p w now => do Cordum.projectJobResult jobID s p w now; return .done
  | .cancelJob now => do return .state (← Cordum.cancelJob jobID now)
  | .setResultPtr p => do Cordum.setResultPtr p; return .done
  | .resolveApproval p now => do return .state (← Cordum.resolveApproval jobID p now)
  | .applyApprovalRepair p now => do return .state (← Cordum.applyApprovalRepair jobID p now)

end Cordum
