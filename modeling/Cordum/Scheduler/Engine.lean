import Cordum.Store.Ops

/-!
# The scheduler engine's services

`engine` is the job store and the bus as one service; its programs (`EngineM`) send one command at a
time, each under its own fault. What else a handling depends on (the topic registry, the policy
kernel, the delegation verifier, the worker pools, the clock) is given with it as an `Attempt`.

The jobs stream holds the published requests, each under the message id the bus computed for it. A
message whose id is already there is acknowledged and not stored; one duplicate window is considered.
-/

namespace Cordum

open Conc GoString

/-- `computeMsgID` for a job request. An empty id is never a duplicate. -/
def computeMsgID (subject : String) (req : JobRequest) : String :=
  let override := trimSpace (req.labels.get labelBusMsgID)
  if override ≠ "" then "jobreq:" ++ subject ++ ":" ++ override
  else if trimSpace req.jobId = "" then ""
  else "jobreq:" ++ trimSpace req.jobId

/-- A stored job request. -/
structure StreamMsg where
  msgID : String
  subject : String
  request : JobRequest
deriving DecidableEq

/-- The messages of the jobs stream, oldest first. -/
abbrev JobsStream := List StreamMsg

/-- The stream has a message under this id. -/
def JobsStream.hasID (s : JobsStream) (id : String) : Prop := id ≠ "" ∧ ∃ m ∈ s, m.msgID = id

instance (s : JobsStream) (id : String) : Decidable (s.hasID id) := by
  unfold JobsStream.hasID; infer_instance

/-- One publish: stored, unless its id is a duplicate. -/
def JobsStream.publish (s : JobsStream) (subject : String) (req : JobRequest) : JobsStream :=
  if s.hasID (computeMsgID subject req) then s else s ++ [⟨computeMsgID subject req, subject, req⟩]

/-- The stream holds a message that carries dispatch `d`. -/
def JobsStream.carries (s : JobsStream) (d : String) : Prop :=
  ∃ m ∈ s, ∃ i, m.request.dispatch = some i ∧ i.dispatchId = d

/-- A dead letter of the scheduler. -/
structure DeadLetter where
  topic : String
  status : JobStatus
  reason : String
  reasonCode : String
deriving DecidableEq, Repr

/-- Commands to the bus. -/
inductive BusCmd
  | publishJob (subject : String) (req : JobRequest)
  | publishResult
  | deadLetter (d : DeadLetter)

/-- One job's keys, the jobs stream, and what the scheduler published besides. -/
structure Sys where
  keys : JobKeys := {}
  stream : JobsStream := []
  results : ℕ := 0
  deadLetters : List DeadLetter := []

/-- A command to the bus. -/
def busStep : BusCmd → Sys → Sys
  | .publishJob subject req, s => { s with stream := s.stream.publish subject req }
  | .publishResult, s => { s with results := s.results + 1 }
  | .deadLetter d, s => { s with deadLetters := s.deadLetters ++ [d] }

/-- Commands to the store and to the bus. -/
abbrev EngineCmd := StoreCmd ⊕ BusCmd

/-- The replies. -/
abbrev EngineCmd.Reply : EngineCmd → Type := Sum.elim StoreCmd.Reply fun _ => Unit

/-- The job store and the bus. -/
def engine (cfg : StoreConfig) : Sem EngineCmd EngineCmd.Reply Sys
  | .inl c, s => ({ s with keys := (store cfg c s.keys).1 }, (store cfg c s.keys).2)
  | .inr c, s => (busStep c s, ())

@[simp] theorem engine_inl {cfg : StoreConfig} {c : StoreCmd} {s : Sys} :
    engine cfg (.inl c) s = ({ s with keys := (store cfg c s.keys).1 }, (store cfg c s.keys).2) := rfl

@[simp] theorem engine_inr {cfg : StoreConfig} {c : BusCmd} {s : Sys} :
    engine cfg (.inr c) s = (busStep c s, ()) := rfl

/-- Why no worker got a job. -/
inductive SchedulingErr
  | noWorkers
  | poolOverloaded
  | tenantLimit
  | noPoolMapping
  | tierLimit
  | other (text : String)
deriving DecidableEq, Repr

/-- The error's text. -/
def SchedulingErr.text : SchedulingErr → String
  | .noWorkers => "no_workers"
  | .poolOverloaded => "pool_overloaded"
  | .tenantLimit => "tenant_limit"
  | .noPoolMapping => "no_pool_mapping"
  | .tierLimit => "tier_limit_exceeded"
  | .other text => text

/-- The reason codes. -/
def reasonCodeForSchedulingError : SchedulingErr → String
  | .noWorkers => "no_workers"
  | .poolOverloaded => "pool_overloaded"
  | .tenantLimit => "tenant_limit"
  | .noPoolMapping => "no_pool_mapping"
  | .tierLimit => "tier_limit_exceeded"
  | .other _ => "dispatch_failed"

/-- The errors a handling returns. Each asks for redelivery (`RetryAfter`). -/
inductive EngineErr
  | store (e : StoreErr)
  | publish
  | external (text : String)
  | hashFenceRead
  | throttled (text : String)
  | safetyUnavailable (text : String)
  | scheduling (e : SchedulingErr)
deriving DecidableEq, Repr

/-- The texts `isRetryableSchedulingError` looks for. -/
def retryableText (text : String) : Bool :=
  let msg := toLower (trimSpace text)
  contains msg "no workers available" || contains msg "overloaded"

/-- `isRetryableSchedulingError` of a failed worker choice. -/
def SchedulingErr.retryable : SchedulingErr → Bool
  | .other text => retryableText text
  | _ => true

/-- `isRetryableSchedulingError`. It goes by the text of any error. -/
def isRetryableSchedulingError : EngineErr → Bool
  | .scheduling e => e.retryable
  | .external text | .throttled text | .safetyUnavailable text => retryableText text
  | .store _ | .publish | .hashFenceRead => false

/-- The programs of the engine. -/
abbrev EngineM := Prog EngineCmd EngineCmd.Reply EngineErr

/-- A call of the store whose failure ends the handling with a retry. -/
def inStore {α : Type} (p : StoreM α) : EngineM α := (p.mapErr EngineErr.store).inl

/-- A call of the store whose failure the engine looks at. -/
def tryStore {α : Type} (p : StoreM α) : EngineM (Except StoreErr α) := p.attempt.inl

/-- A command on the job's keys whose failure the engine looks at. -/
def tryKey (c : KeyCmd) : EngineM (Option c.Reply) := Prog.cmd (Sum.inl (StoreCmd.key c))

/-- `emitDLQWithRetry`: once more after a failure, unless the engine stops. -/
def emitDLQWithRetry (d : DeadLetter) : EngineM Unit := do
  match ← Prog.cmd (Sum.inr (BusCmd.deadLetter d)) with
  | some _ => .ret ()
  | none => Prog.exec (Sum.inr (BusCmd.deadLetter d)) EngineErr.publish

/-- End the job in `s`, with a dead letter. -/
def closeJob (jobID : String) (s : JobState) (now : ℤ) (d : DeadLetter) : EngineM Unit := do
  inStore (setState jobID s now)
  emitDLQWithRetry d

/-! ## What a handling depends on -/

/-- `topicRegistration`: failed, without the topic, or a topic to go on with. -/
inductive TopicLookup
  | failed
  | unknown
  | known
deriving DecidableEq, Repr

/-- `applySubmitSchemaValidation`. -/
inductive SchemaCheck
  | passed
  | failed
  | rejected (reason reasonCode : String)
deriving DecidableEq, Repr

/-- Why a delegation token is not good for a dispatch. -/
inductive DelegationErr
  | revoked
  | expired
  | audienceMismatch
  | scopeExceeded
  | chainTooDeep
  | invalid
  | missing
  | unavailable (text : String)
deriving DecidableEq, Repr

/-- What the policy kernel's client returns. -/
structure PolicyVerdict where
  decision : Option SafetyDecision := none
  reason : String := ""
  ruleId : String := ""
  policySnapshot : String := ""
  constraints : Option PolicyConstraints := none
  approvalRequired : Bool := false
  approvalRef : String := ""

/-- One turn of the worker choice: no trusted worker, an error, or a subject with whether its worker
is alive. -/
inductive Pick
  | noTrusted
  | failed (e : SchedulingErr)
  | subject (s : String) (alive : Bool)

/-- What a handling of a request finds outside the job's keys and the bus. -/
structure Attempt where
  now : ℤ := 0
  topic : TopicLookup := .known
  schemaCheck : SchemaCheck := .passed
  effectiveConfig : Option String := none
  /-- Whether the verifier could be set up, and what it says of a token. -/
  tokenService : Bool := true
  verifyToken : String → Except DelegationErr String := fun _ => .error .invalid
  verdict : PolicyVerdict := {}
  /-- The client returned an error; the check ran into its timeout. -/
  checkFailed : Bool := false
  checkTimedOut : Bool := false
  /-- The engine stopped before the handling, before the safety check, or during it. -/
  stopped : Bool := false
  stoppedBefore : Bool := false
  stoppedDuring : Bool := false
  /-- `isInputFailOpenForTenant`. -/
  failOpen : Bool := false
  /-- `CountActiveByTenant`, read for the policy's limit and for the licence's. -/
  activeForPolicy : Option ℕ := some 0
  activeForTier : Option ℕ := some 0
  /-- `licensing.CheckJobConcurrency`. -/
  tierAllows : ℕ → Bool := fun _ => true
  picks : ℕ → Pick := fun _ => .noTrusted
  busUp : Bool := true
  /-- `uuid.NewString` of the dispatch. -/
  dispatchID : String := ""
  /-- Production identity: the published request names the subject as its topic. -/
  production : Bool := false

end Cordum
