import Mathlib.Logic.Function.Basic
import Cordum.Auth.Token

/-!
# Delegation requests at the gateway

`handleDelegateAgent`, the one caller of `IssueDelegationToken`, lets a request through only if both
agents are on record under the tenant of the request. A record gets a fresh id, and nothing changes
its tenant (`Served`).
-/

namespace Cordum.Auth

open GoString Except

/-- `AgentIdentityStore`: the tenant in the record of each agent. -/
abbrev AgentRecords := String → Option String

/-- The errors of the gateway's handler. -/
inductive DelegateError where
  | forbidden | internal | agentNotFound | rateLimited | unavailable | governance (e : TokenError)
  | invalid (message : String)
deriving DecidableEq

/-- `AgentIdentityStore.Get`: the tenant on record. A blank tenant matches every record. -/
def AgentRecords.get (A : AgentRecords) (tenantID id : String) : Except DelegateError (Option String) :=
  if trimSpace id = "" then error .internal
  else ok ((A (trimSpace id)).filter fun t => trimSpace tenantID = "" || trimSpace t = trimSpace tenantID)

/-- Whether the agent can be loaded under the tenant. -/
def loadDelegationAgent (A : AgentRecords) (agentID tenant : String) : Except DelegateError Unit :=
  match A.get tenant agentID with
  | error e => error e
  | ok none => error .agentNotFound
  | ok (some _) => ok ()

/-- `delegateTokenRequest`, the body of a request. -/
structure DelegateTokenRequest where
  targetAgentID : String
  allowedActions : List String
  allowedTopics : List String
  ttlSeconds : ℤ
  parentToken : TokenText

/-- The handler's other checks: the caller's role and agent, then quota, token service and governance. -/
structure GatewayChecks where
  caller : Except DelegateError Unit
  quota : Except DelegateError Unit

/-- The longest lifetime a request may name. -/
def maxDelegationTTLSeconds : ℤ := 365 * 24 * 60 * 60

/-- `handleDelegateAgent`, up to the call of the token service. -/
def handleDelegateAgent (A : AgentRecords) (checks : GatewayChecks) (tenant delegatingAgentID : String)
    (req : DelegateTokenRequest) : Except DelegateError IssueRequest := do
  if delegatingAgentID = "" then throw (.invalid "missing id")
  checks.caller
  let target := trimSpace req.targetAgentID
  if target = "" then throw (.invalid "target_agent_id required")
  if req.ttlSeconds < 0 then throw (.invalid "ttl_seconds must be non-negative")
  if maxDelegationTTLSeconds < req.ttlSeconds then throw (.invalid "ttl_seconds exceeds maximum (1 year)")
  if tenant = "" then throw (.invalid "tenant required")
  loadDelegationAgent A delegatingAgentID tenant
  loadDelegationAgent A target tenant
  checks.quota
  return {
    tenant
    delegatingAgentID
    targetAgentID := target
    allowedActions := req.allowedActions
    allowedTopics := req.allowedTopics
    ttl := req.ttlSeconds * second
    parentToken := req.parentToken }

/-- The agents on record and the tokens issued. `Create` draws a fresh id; `Update` and `Delete` keep
the tenant, so an agent that was looked up is still on record when its token is signed. -/
inductive Served (S : TokenService) : AgentRecords → List Issuance → Prop
  | start (A : AgentRecords) : Served S A []
  | create {A : AgentRecords} {h : List Issuance} (before : Served S A h) (id tenant : String)
      (fresh : A id = none) : Served S (Function.update A id (some tenant)) h
  | delegate {A : AgentRecords} {h : List Issuance} (i : Issuance) (before : Served S A h)
      (checks : GatewayChecks) (tenant agent : String) (req : DelegateTokenRequest)
      (admitted : handleDelegateAgent A checks tenant agent req = ok i.req)
      (unforged : i.req.parentToken.Unforged h) (fresh : ∀ p ∈ h, p.claims.id ≠ i.claims.id)
      (issued : issueDelegationToken S i.env i.req = ok i.claims) : Served S A (h ++ [i])

theorem Served.issued {S : TokenService} {A : AgentRecords} {h : List Issuance}
    (hs : Served S A h) : Issued S h := by
  induction hs with
  | start => exact .nil
  | create _ _ _ _ ih => exact ih
  | delegate i _ _ _ _ _ _ unforged fresh issued ih => exact .issue i ih unforged fresh issued

/-- The agent is on record under the tenant. -/
def AgentRecords.Under (A : AgentRecords) (tenant agent : String) : Prop :=
  (A agent).map trimSpace = some tenant

theorem load_ok {A : AgentRecords} {agent tenant : String} {u : Unit} (hten : trimSpace tenant ≠ "")
    (h : loadDelegationAgent A agent tenant = ok u) : A.Under (trimSpace tenant) (trimSpace agent) := by
  unfold loadDelegationAgent AgentRecords.get at h
  split at h
  · cases h
  · cases h
  · rename_i t hget
    split_ifs at hget
    obtain ⟨hrec, heq⟩ := Option.filter_eq_some_iff.1 (Except.ok.inj hget)
    simpa [AgentRecords.Under, hrec, hten] using heq

/-- Both agents of an admitted request are on record under its tenant. -/
theorem handle_ok {A : AgentRecords} {checks : GatewayChecks} {tenant agent : String}
    {req : DelegateTokenRequest} {r : IssueRequest}
    (h : handleDelegateAgent A checks tenant agent req = ok r) (hten : trimSpace r.tenant ≠ "") :
    A.Under (trimSpace r.tenant) (trimSpace r.delegatingAgentID) ∧
      A.Under (trimSpace r.tenant) (trimSpace r.targetAgentID) := by
  simp only [handleDelegateAgent, bind, Except.bind, throw, throwThe,
    MonadExceptOf.throw, pure, Except.pure] at h
  -- the checks before the agents are looked up
  iterate 6
    split at h
    · cases h
  split at h
  · cases h
  rename_i hfrom
  split at h
  · cases h
  rename_i hto
  split at h <;> cases h
  exact ⟨load_ok hten hfrom, load_ok hten hto⟩

end Cordum.Auth
