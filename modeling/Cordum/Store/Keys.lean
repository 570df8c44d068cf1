import Cordum.Store.Runtime

/-!
# The keys of one job

Everything Redis holds about one job, `JobKeys`: the runtime hash, the older `job:meta:<id>` hash,
the `job:state:<id>` and `job:result_ptr:<id>` keys, the stored request, and the job's membership in
the shared sets. A block under `WATCH` with a `MULTI` pipeline commits all at once or not at all, so
each is one function of the keys; those that move a job to another state write the same group of keys
(`commitState`).
-/

namespace Cordum

/-- The errors of the job store; `during` is the text of a transport error. -/
inductive StoreErr
  | invalid (what : String)
  | redis (during : String)
  | notFound (during : String)
  | invalidTransition (source : Option JobState) (target : JobState)
  | invalidRuntimeTransition (target : JobState)
  | digestConflict
  | approvalConflict (code : ApprovalConflictCode) (message : String)
deriving DecidableEq, Repr

/-- The safety fields of the meta hash. -/
structure SafetyFields where
  decision : Option SafetyDecision := none
  reason : String := ""
  ruleId : String := ""
  snapshot : String := ""
  checkedAt : ℤ := 0
  constraints : Option PolicyConstraints := none
  approvalRequired : Bool := false
  approvalRef : String := ""
  jobHash : String := ""
deriving DecidableEq

/-- `job:meta:<id>`. A field read through `HGETALL` is the zero value when it is missing; those whose
absence is noticed are optional. `dispatch` is from older versions. -/
structure Meta where
  state : Option JobState := none
  updatedAt : ℤ := 0
  attempts : ℕ := 0
  topic : Option String := none
  tenant : Option String := none
  workerId : String := ""
  resultPtr : Option String := none
  deadline : Option ℤ := none
  dispatch : Fence := {}
  safety : SafetyFields := {}
  approval : ApprovalRecord := {}
  delegationToken : Option String := none
  delegationLineage : Option String := none
  failureReason : String := ""
deriving DecidableEq

/-- The keys of one job. -/
structure JobKeys where
  runtime : Runtime := {}
  jobMeta : Meta := {}
  stateKey : Option JobState := none
  resultPtrKey : Option String := none
  request : Option JobRequest := none
  /-- Score of the job in `job:index:<state>`. -/
  index : JobState → Option ℤ := fun _ => none
  /-- The tenants whose active set has the job. -/
  active : Finset String := ∅
  /-- Score of the job in `job:deadline`. -/
  deadlineIndex : Option ℤ := none

namespace JobKeys

/-- `ZADD` to the index of a state. -/
def zaddIndex (k : JobKeys) (s : JobState) (now : ℤ) : JobKeys :=
  { k with index := Function.update k.index s (some now) }

/-- `ZREM` from the index of a state; there is no index for the empty state. -/
def zremIndex (k : JobKeys) (s : Option JobState) : JobKeys :=
  match s with
  | none => k
  | some s => { k with index := Function.update k.index s none }

/-- The tenant's active set has the job while its state is active. -/
def trackActive (k : JobKeys) (s : JobState) : JobKeys :=
  match k.jobMeta.tenant with
  | none => k
  | some tenant =>
    if tenant = "" then k
    else if isActiveState s then { k with active := insert tenant k.active }
    else { k with active := k.active.erase tenant }

/-- A terminal job has no deadline. -/
def closeDeadline (k : JobKeys) (s : JobState) : JobKeys :=
  if terminalStates s
    then { k with deadlineIndex := none, jobMeta := { k.jobMeta with deadline := none } } else k

/-- What every state change writes: the meta hash, the state key, the sets and the deadline. -/
def commitState (k : JobKeys) (prev : Option JobState) (target : JobState) (now : ℤ) : JobKeys :=
  (((({ k with
      jobMeta := { k.jobMeta with state := some target, updatedAt := now }
      stateKey := some target }.zremIndex prev).zaddIndex target now).trackActive
        target).closeDeadline target)

/-- The state a transaction starts from: the meta hash's, else the state key's. -/
def storedState (k : JobKeys) : Option JobState := k.jobMeta.state <|> k.stateKey

end JobKeys

/-- The transaction of `SetStateWithContext`. -/
def setStateTx (target : JobState) (now : ℤ) (k : JobKeys) : JobKeys × Except StoreErr Unit :=
  if !isAllowedTransition k.jobMeta.state target
    then (k, .error (.invalidTransition k.jobMeta.state target))
  else
    let attempts :=
      if target = .scheduled ∧ k.jobMeta.state ≠ some .scheduled
        then k.jobMeta.attempts + 1 else k.jobMeta.attempts
    ({ k with jobMeta := { k.jobMeta with attempts := attempts } }.commitState
      k.jobMeta.state target now, .ok ())

/-- The transaction of `CancelJob`, for a job without a runtime hash. -/
def cancelJobTx (now : ℤ) (k : JobKeys) : JobKeys × Except StoreErr JobState :=
  match k.storedState with
  | none => (k, .error (.notFound "job store cancel job"))
  | some current =>
    if terminalStates current then (k, .ok current)
    else (k.commitState (some current) .cancelled now, .ok .cancelled)

namespace JobKeys

variable (k : JobKeys)

@[simp] theorem zaddIndex_runtime (s now) : (k.zaddIndex s now).runtime = k.runtime := rfl
@[simp] theorem zaddIndex_meta (s now) : (k.zaddIndex s now).jobMeta = k.jobMeta := rfl
@[simp] theorem zaddIndex_stateKey (s now) : (k.zaddIndex s now).stateKey = k.stateKey := rfl
@[simp] theorem zaddIndex_request (s now) : (k.zaddIndex s now).request = k.request := rfl

@[simp] theorem zremIndex_runtime (s) : (k.zremIndex s).runtime = k.runtime := by cases s <;> rfl
@[simp] theorem zremIndex_meta (s) : (k.zremIndex s).jobMeta = k.jobMeta := by cases s <;> rfl
@[simp] theorem zremIndex_stateKey (s) : (k.zremIndex s).stateKey = k.stateKey := by cases s <;> rfl
@[simp] theorem zremIndex_request (s) : (k.zremIndex s).request = k.request := by cases s <;> rfl

theorem trackActive_eq (s) : ∃ a, k.trackActive s = { k with active := a } := by
  unfold trackActive
  split
  · exact ⟨k.active, rfl⟩
  split_ifs
  · exact ⟨k.active, rfl⟩
  · exact ⟨_, rfl⟩
  · exact ⟨_, rfl⟩

@[simp] theorem trackActive_runtime (s) : (k.trackActive s).runtime = k.runtime := by
  obtain ⟨a, h⟩ := k.trackActive_eq s; rw [h]
@[simp] theorem trackActive_meta (s) : (k.trackActive s).jobMeta = k.jobMeta := by
  obtain ⟨a, h⟩ := k.trackActive_eq s; rw [h]
@[simp] theorem trackActive_stateKey (s) : (k.trackActive s).stateKey = k.stateKey := by
  obtain ⟨a, h⟩ := k.trackActive_eq s; rw [h]
@[simp] theorem trackActive_request (s) : (k.trackActive s).request = k.request := by
  obtain ⟨a, h⟩ := k.trackActive_eq s; rw [h]

@[simp] theorem closeDeadline_runtime (s) : (k.closeDeadline s).runtime = k.runtime := by
  unfold closeDeadline; split <;> rfl
@[simp] theorem closeDeadline_stateKey (s) : (k.closeDeadline s).stateKey = k.stateKey := by
  unfold closeDeadline; split <;> rfl
@[simp] theorem closeDeadline_request (s) : (k.closeDeadline s).request = k.request := by
  unfold closeDeadline; split <;> rfl

theorem closeDeadline_meta (s) : ∃ d, (k.closeDeadline s).jobMeta = { k.jobMeta with deadline := d } := by
  unfold closeDeadline
  split
  · exact ⟨none, rfl⟩
  · exact ⟨k.jobMeta.deadline, rfl⟩

variable (prev : Option JobState) (target : JobState) (now : ℤ)

@[simp] theorem commitState_runtime : (k.commitState prev target now).runtime = k.runtime := by
  simp [commitState]
@[simp] theorem commitState_stateKey : (k.commitState prev target now).stateKey = some target := by
  simp [commitState]
@[simp] theorem commitState_request : (k.commitState prev target now).request = k.request := by
  simp [commitState]

/-- A state change writes the state, its time and perhaps the deadline of the meta hash. -/
theorem commitState_meta : ∃ d, (k.commitState prev target now).jobMeta =
    { k.jobMeta with state := some target, updatedAt := now, deadline := d } := by
  obtain ⟨d, h⟩ := closeDeadline_meta ((({ k with
    jobMeta := { k.jobMeta with state := some target, updatedAt := now }
    stateKey := some target }.zremIndex prev).zaddIndex target now).trackActive target) target
  exact ⟨d, by rw [commitState, h]; simp⟩

@[simp] theorem commitState_state : (k.commitState prev target now).jobMeta.state = some target := by
  obtain ⟨d, h⟩ := k.commitState_meta prev target now; rw [h]
@[simp] theorem commitState_dispatch :
    (k.commitState prev target now).jobMeta.dispatch = k.jobMeta.dispatch := by
  obtain ⟨d, h⟩ := k.commitState_meta prev target now; rw [h]
@[simp] theorem commitState_safety :
    (k.commitState prev target now).jobMeta.safety = k.jobMeta.safety := by
  obtain ⟨d, h⟩ := k.commitState_meta prev target now; rw [h]
@[simp] theorem commitState_approval :
    (k.commitState prev target now).jobMeta.approval = k.jobMeta.approval := by
  obtain ⟨d, h⟩ := k.commitState_meta prev target now; rw [h]
@[simp] theorem commitState_delegationToken :
    (k.commitState prev target now).jobMeta.delegationToken = k.jobMeta.delegationToken := by
  obtain ⟨d, h⟩ := k.commitState_meta prev target now; rw [h]

end JobKeys

/-- The state transaction writes nothing, or commits the target. -/
theorem setStateTx_cases (target : JobState) (now : ℤ) (k : JobKeys) :
    (isAllowedTransition k.jobMeta.state target = false ∧
      setStateTx target now k = (k, .error (.invalidTransition k.jobMeta.state target))) ∨
    (isAllowedTransition k.jobMeta.state target ∧ ∃ n, setStateTx target now k =
      ({ k with jobMeta := { k.jobMeta with attempts := n } }.commitState k.jobMeta.state target now,
        .ok ())) := by
  unfold setStateTx
  cases h : isAllowedTransition k.jobMeta.state target with
  | false => left; simp
  | true => right; exact ⟨rfl, _, by simp only [Bool.not_true, Bool.false_eq_true]; rfl⟩

end Cordum
