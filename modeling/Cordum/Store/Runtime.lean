import Cordum.Codec.Base64
import Cordum.Model.Records

/-!
# The runtime hash and its Lua scripts

`job:{..}:runtime` has a job's state, the fence of the current dispatch, the result pointer, one field
for each message already seen (`event:<id>`) and one for each effect that still has to be carried out
(`effect:<id>`). Each script is a function of the hash, as `job_event_store.go`,
`job_event_fence.go`, `job_runtime_state.go` and `job_store.go` of `core/infra/store` have them. A
missing field is `none`; Lua's `HGET` gives `false` there, which equals no argument.
-/

namespace Cordum

/-- The dispatch fields: `dispatch_id`, `dispatch_attempt`, `dispatch_worker_id` and
`dispatch_tenant`. -/
structure Fence where
  dispatchId : Option String := none
  attempt : Option ℤ := none
  workerId : Option String := none
  tenant : Option String := none
deriving DecidableEq, Repr

/-- The fields of `job:{..}:runtime`. -/
structure Runtime where
  state : Option JobState := none
  fence : Fence := {}
  resultPtr : Option String := none
  events : StrMap := ∅
  effects : StrMap := ∅
  ttl : Option ℤ := none
deriving DecidableEq

/-- The dispatch a worker's event names. -/
structure Claim where
  dispatchId : String
  attempt : ℤ
  workerId : String
  tenant : String
deriving DecidableEq, Repr

namespace Runtime

/-- The hash has a field, so Redis has the key. -/
def present (rt : Runtime) : Bool :=
  rt.state.isSome || rt.fence.dispatchId.isSome || rt.fence.attempt.isSome || rt.fence.workerId.isSome ||
    rt.fence.tenant.isSome || rt.resultPtr.isSome || rt.events != ∅ || rt.effects != ∅

/-- `EXPIRE`: does nothing to a key that is not there. -/
def expire (secs : ℤ) (rt : Runtime) : Runtime := if rt.present then { rt with ttl := some secs } else rt

/-- The four `HGET` comparisons that open the event scripts. -/
def fenced (rt : Runtime) (c : Claim) : Bool :=
  rt.fence.dispatchId == some c.dispatchId && rt.fence.attempt == some c.attempt &&
    rt.fence.workerId == some c.workerId && rt.fence.tenant == some c.tenant

/-- `state == 'DISPATCHED' or state == 'RUNNING'`. -/
def inFlight (rt : Runtime) : Bool := rt.state == some .dispatched || rt.state == some .running

end Runtime

/-- What `ApplyJobResult` passes to its script, texts encoded. -/
structure ApplyArgs where
  claim : Claim
  eventId : String
  digest : String
  state : JobState
  resultPtr : String
  effect : String
deriving DecidableEq

/-- A field of the legacy hash as the script takes it: an empty text is not copied. -/
def nonEmpty (field : Option String) : Option String := field.filter (· ≠ "")

/-- `migrateRuntimeFenceScript`: copy what the runtime hash lacks. -/
def migrateRuntimeFenceScript (state : Option JobState) (legacy : Fence) (ttl : ℤ)
    (rt : Runtime) : Runtime :=
  { rt with
    state := rt.state <|> state
    fence := {
      dispatchId := rt.fence.dispatchId <|> nonEmpty legacy.dispatchId
      attempt := rt.fence.attempt <|> legacy.attempt
      workerId := rt.fence.workerId <|> nonEmpty legacy.workerId
      tenant := rt.fence.tenant <|> nonEmpty legacy.tenant } }.expire ttl

/-- `beginDispatchScript`: a new fence over whatever was there. Returns the attempt. -/
def beginDispatchScript (dispatchId workerId tenant : String) (ttl : ℤ) (rt : Runtime) : Runtime × ℤ :=
  let attempt := rt.fence.attempt.getD 0 + 1
  ({ rt with fence := ⟨some dispatchId, some attempt, some workerId, some tenant⟩ }.expire ttl, attempt)

/-- Back to `SCHEDULED`, for the named dispatch. -/
def rollbackDispatchScript (dispatchId : String) (attempt : ℤ) (rt : Runtime) : Runtime × ℤ :=
  if rt.fence.dispatchId ≠ some dispatchId then (rt, 0)
  else if rt.fence.attempt ≠ some attempt then (rt, 0)
  else ({ rt with state := some .scheduled, fence := { attempt := rt.fence.attempt } }, 1)

/-- The prior states `transitionRuntimeState` passes for a target; the empty string among them matches
no hash. -/
def priorStates (target : JobState) : List JobState :=
  JobState.all.filter fun s => isAllowedTransition (some s) target

/-- To the target, from one of the states. -/
def transitionRuntimeStateScript (target : JobState) (priors : List JobState)
    (rt : Runtime) : Runtime × ℤ :=
  match rt.state with
  | none => (rt, 0)
  | some current =>
    if current = target then (rt, 1)
    else if priors.contains current then ({ rt with state := some target }, 1)
    else (rt, 0)

/-- `acceptJobEventScript`: no look at the state, and the marker is the id itself. -/
def acceptJobEventScript (c : Claim) (eventId : String) (ttl : ℤ) (rt : Runtime) : Runtime × ℤ :=
  if !rt.fenced c then (rt, 0)
  else match rt.events.lookup eventId with
    | some _ => (rt.expire ttl, 0)
    | none => ({ rt with events := rt.events.insert eventId eventId }.expire ttl, 1)

/-- `acceptSignedJobEventScript`: fence, then state, then the message id. -/
def acceptSignedJobEventScript (c : Claim) (eventId digest : String) (ttl : ℤ)
    (rt : Runtime) : Runtime × ℤ :=
  if !rt.fenced c then (rt, 0)
  else if !rt.inFlight then (rt, 0)
  else match rt.events.lookup eventId with
    | some prior => if prior = digest then (rt, 2) else (rt, -1)
    | none => ({ rt with events := rt.events.insert eventId digest }.expire ttl, 1)

/-- What a result writes into the hash. -/
def Runtime.commitResult (rt : Runtime) (a : ApplyArgs) : Runtime :=
  { rt with
    state := some a.state
    resultPtr := if a.resultPtr ≠ "" then some a.resultPtr else rt.resultPtr
    events := rt.events.insert a.eventId a.digest
    effects := rt.effects.insert a.eventId a.effect }

/-- `applyJobResultScript`: fence, then the message id, then state. -/
def applyJobResultScript (a : ApplyArgs) (ttl : ℤ) (rt : Runtime) : Runtime × ℤ :=
  if !rt.fenced a.claim then (rt, 0)
  else match rt.events.lookup a.eventId with
    | some prior => if prior = a.digest then (rt, 2) else (rt, -1)
    | none =>
      if !rt.inFlight then (rt, 0)
      else ((rt.commitResult a).expire ttl, 1)

/-- Removes an effect whose digest is named. -/
def ackJobEffectScript (eventId digest : String) (rt : Runtime) : Runtime × ℤ :=
  if rt.events.lookup eventId ≠ some digest then (rt, 0)
  else if rt.effects.lookup eventId = none then (rt, 0)
  else ({ rt with effects := rt.effects.erase eventId }, 1)

/-- The literals `cancelAllJobAttemptsScript` compares the state with. -/
def cancelFinalStates : List String :=
  ["SUCCEEDED", "FAILED", "CANCELLED", "TIMEOUT", "DENIED", "QUARANTINED"]

/-- The script leaves a job in this state alone. -/
def cancelStops (s : Option JobState) : Bool :=
  match s with
  | none => false
  | some s => cancelFinalStates.contains s.value

/-- `cancelAllJobAttemptsScript`. Returns the state it leaves. -/
def cancelAllJobAttemptsScript (ttl : ℤ) (rt : Runtime) : Runtime × JobState :=
  if cancelStops rt.state then (rt.expire ttl, rt.state.getD .cancelled)
  else
    ({ rt with state := some .cancelled, fence := { attempt := rt.fence.attempt } }.expire ttl, .cancelled)

namespace Runtime

variable (rt : Runtime) (secs : ℤ)

@[simp] theorem expire_state : (rt.expire secs).state = rt.state := by unfold expire; split <;> rfl

@[simp] theorem expire_fence : (rt.expire secs).fence = rt.fence := by unfold expire; split <;> rfl

@[simp] theorem expire_resultPtr : (rt.expire secs).resultPtr = rt.resultPtr := by
  unfold expire; split <;> rfl

@[simp] theorem expire_events : (rt.expire secs).events = rt.events := by unfold expire; split <;> rfl

@[simp] theorem expire_effects : (rt.expire secs).effects = rt.effects := by unfold expire; split <;> rfl

variable {rt}

theorem fenced_iff {c : Claim} : rt.fenced c ↔
    rt.fence = ⟨some c.dispatchId, some c.attempt, some c.workerId, some c.tenant⟩ := by
  obtain ⟨_, ⟨_, _, _, _⟩, _, _, _, _⟩ := rt
  simp [fenced, and_assoc]

theorem inFlight_iff : rt.inFlight ↔ rt.state = some .dispatched ∨ rt.state = some .running := by
  simp [inFlight]

theorem state_of_absent (h : rt.present = false) : rt.state = none := by
  cases hs : rt.state with
  | none => rfl
  | some x => simp [present, hs] at h

/-- Everything but the time to live. -/
def EqUpToTTL (rt rt' : Runtime) : Prop :=
  rt'.state = rt.state ∧ rt'.fence = rt.fence ∧ rt'.resultPtr = rt.resultPtr ∧ rt'.events = rt.events ∧
    rt'.effects = rt.effects

theorem EqUpToTTL.rfl : EqUpToTTL rt rt := ⟨Eq.refl _, Eq.refl _, Eq.refl _, Eq.refl _, Eq.refl _⟩

theorem expire_eqUpToTTL : EqUpToTTL rt (rt.expire secs) := by simp [EqUpToTTL]

end Runtime

section

variable (rt : Runtime) (ttl : ℤ)

theorem acceptJobEventScript_cases (c : Claim) (id : String) :
    (rt.fenced c = false ∧ acceptJobEventScript c id ttl rt = (rt, 0)) ∨
    (rt.fenced c ∧ (∃ p, rt.events.lookup id = some p) ∧
      acceptJobEventScript c id ttl rt = (rt.expire ttl, 0)) ∨
    (rt.fenced c ∧ rt.events.lookup id = none ∧
      acceptJobEventScript c id ttl rt =
      ({ rt with events := rt.events.insert id id }.expire ttl, 1)) := by
  unfold acceptJobEventScript
  cases hf : rt.fenced c with
  | false => exact .inl ⟨rfl, rfl⟩
  | true =>
    right
    cases he : rt.events.lookup id with
    | some p => exact .inl ⟨rfl, ⟨p, rfl⟩, by simp⟩
    | none => exact .inr ⟨rfl, rfl, by simp⟩

theorem acceptSignedJobEventScript_cases (c : Claim) (id digest : String) :
    (rt.fenced c = false ∧ acceptSignedJobEventScript c id digest ttl rt = (rt, 0)) ∨
    (rt.inFlight = false ∧ acceptSignedJobEventScript c id digest ttl rt = (rt, 0)) ∨
    (rt.fenced c ∧ rt.inFlight ∧ rt.events.lookup id = some digest ∧
      acceptSignedJobEventScript c id digest ttl rt = (rt, 2)) ∨
    (rt.fenced c ∧ rt.inFlight ∧ (∃ p, rt.events.lookup id = some p ∧ p ≠ digest) ∧
      acceptSignedJobEventScript c id digest ttl rt = (rt, -1)) ∨
    (rt.fenced c ∧ rt.inFlight ∧ rt.events.lookup id = none ∧
      acceptSignedJobEventScript c id digest ttl rt =
        ({ rt with events := rt.events.insert id digest }.expire ttl, 1)) := by
  unfold acceptSignedJobEventScript
  cases hf : rt.fenced c with
  | false => exact .inl ⟨rfl, rfl⟩
  | true =>
    right
    cases hi : rt.inFlight with
    | false => exact .inl ⟨rfl, by simp⟩
    | true =>
      right
      cases he : rt.events.lookup id with
      | none => exact .inr (.inr ⟨rfl, rfl, rfl, by simp⟩)
      | some p =>
        by_cases hp : p = digest
        · exact .inl ⟨rfl, rfl, by rw [hp], by simp [hp]⟩
        · exact .inr (.inl ⟨rfl, rfl, ⟨p, rfl, hp⟩, by simp [hp]⟩)

theorem applyJobResultScript_cases (a : ApplyArgs) :
    (rt.fenced a.claim = false ∧ applyJobResultScript a ttl rt = (rt, 0)) ∨
    (rt.fenced a.claim ∧ rt.events.lookup a.eventId = some a.digest ∧
      applyJobResultScript a ttl rt = (rt, 2)) ∨
    (rt.fenced a.claim ∧ (∃ p, rt.events.lookup a.eventId = some p ∧ p ≠ a.digest) ∧
      applyJobResultScript a ttl rt = (rt, -1)) ∨
    (rt.fenced a.claim ∧ rt.events.lookup a.eventId = none ∧ rt.inFlight = false ∧
      applyJobResultScript a ttl rt = (rt, 0)) ∨
    (rt.fenced a.claim ∧ rt.events.lookup a.eventId = none ∧ rt.inFlight ∧
      applyJobResultScript a ttl rt = ((rt.commitResult a).expire ttl, 1)) := by
  unfold applyJobResultScript
  cases hf : rt.fenced a.claim with
  | false => exact .inl ⟨rfl, rfl⟩
  | true =>
    right
    cases he : rt.events.lookup a.eventId with
    | some p =>
      by_cases hp : p = a.digest
      · exact .inl ⟨rfl, by rw [hp], by simp [hp]⟩
      · exact .inr (.inl ⟨rfl, ⟨p, rfl, hp⟩, by simp [hp]⟩)
    | none =>
      right; right
      cases hi : rt.inFlight with
      | false => exact .inl ⟨rfl, rfl, rfl, by simp⟩
      | true => exact .inr ⟨rfl, rfl, rfl, by simp⟩

end

/-- A cancellation finds the terminal states final but one: it says `QUARANTINED` for
`OUTPUT_QUARANTINED`. -/
theorem cancelStops_iff {s : JobState} : cancelStops (some s) ↔ terminalStates s ∧ s ≠ .quarantined := by
  cases s <;> decide

theorem mem_priorStates {s t : JobState} : s ∈ priorStates t ↔ isAllowedTransition (some s) t := by
  have hall : s ∈ JobState.all := by cases s <;> decide
  simp [priorStates, hall]

end Cordum
