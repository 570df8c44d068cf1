import Mathlib.Data.List.Dedup
import Mathlib.Data.List.Sort
import Mathlib.Data.String.Basic
import Cordum.Text.GoString

/-!
# Delegation tokens

An agent hands part of its authority to another one with a signed token, and the receiver may
hand it on with the token as parent. A signature is valid exactly for claims that were issued
(`Issued`). Times are nanoseconds; a numeric date of a token is cut to the second.

The permission resolver and the revocation store answer anew at every call (`VerifyEnv`,
`IssueEnv`), and either of them may be missing or fail.
-/

namespace Cordum.Auth

open GoString

/-- Nanoseconds. -/
def second : ℤ := 1000000000

/-- The lifetime of a token whose request names none. -/
def defaultTokenTTL : ℤ := 15 * 60 * second

/-- The longest lifetime of a token. -/
def maxTokenTTL : ℤ := 24 * 60 * 60 * second

/-- How far clocks may differ. -/
def defaultClockLeeway : ℤ := 30 * second

/-- `jwt.NewNumericDate`. -/
def numericDate (t : ℤ) : ℤ := t / second * second

/-- Why a token is not issued or not accepted. -/
inductive TokenError where
  | malformed | expired | notYetValid | badSignature | unknownKeyId | audienceMismatch
  | chainTooDeep | scopeExceeded | revoked | unavailable
deriving DecidableEq

/-- The scope of an agent. -/
structure AgentPermissions where
  allowedActions : List String
  allowedTopics : List String

/-- What each agent is permitted, as far as the resolver knows. -/
abbrev Resolver := String → Option AgentPermissions

/-- One hop of a delegation. -/
structure ChainLink where
  agentID : String
  issuedAt : ℤ
  expiresAt : ℤ
  jti : String
  parentJTI : String
  issuedBy : String
deriving DecidableEq

/-- The claims of a token, registered ones included. -/
structure DelegationClaims where
  tenant : String
  allowedActions : List String
  allowedTopics : List String
  delegationChain : List ChainLink
  chainDepth : ℤ
  parentTokenJTI : String
  subject : String
  audience : List String
  expiresAt : ℤ
  notBefore : ℤ
  issuedAt : ℤ
  id : String
deriving DecidableEq, Inhabited

/-- An accepted token, with its scope normalised. -/
structure VerifiedToken where
  allowedActions : List String
  allowedTopics : List String
  claims : DelegationClaims
deriving DecidableEq

/-- The text of a token, by what the parser makes of it. -/
inductive TokenText where
  | blank
  | rejected (e : TokenError)
  | signed (claims : DelegationClaims)
deriving DecidableEq

/-- The hexadecimal text of sixteen random bytes: never blank, and without spaces. -/
structure JTI where
  text : String
  trimmed : trimSpace text = text
  ne_blank : text ≠ ""

/-- A request for a token. -/
structure IssueRequest where
  tenant : String
  delegatingAgentID : String
  targetAgentID : String
  allowedActions : List String
  allowedTopics : List String
  ttl : ℤ
  parentToken : TokenText
deriving DecidableEq

/-- The lifetime a request asks for. -/
def IssueRequest.lifetime (req : IssueRequest) : ℤ := if req.ttl ≤ 0 then defaultTokenTTL else req.ttl

/-- The configuration of the service. -/
structure TokenService where
  maxDepth : ℤ

/-- What a verification meets: the time, the resolver and the revocation store. -/
structure VerifyEnv where
  now : ℤ
  permissions : Option Resolver
  revocations : Option (String → Option Bool)

/-- What an issue meets: its time, the parent's verification, the resolver's answers and the
identifier drawn. -/
structure IssueEnv where
  now : ℤ
  verify : VerifyEnv
  permissions : Option Resolver
  jti : Option JTI

variable {values needles haystack l : List String} {a aud : String}

section

/-- The trimmed texts that are not blank, sorted and each once. -/
def normalizeStringSet (values : List String) : List String :=
  ((values.map trimSpace).filter (· ≠ "")).dedup.insertionSort (· ≤ ·)

/-- What both scopes hold. -/
def intersectScopes (left right : List String) : List String :=
  normalizeStringSet (left.filter (· ∈ right))

/-- Whether every needle is in the haystack. -/
def isSubset (needles haystack : List String) : Bool :=
  needles.isEmpty || (!haystack.isEmpty && needles.all (· ∈ haystack))

/-- Whether the audience names the expected one, blanks apart. -/
def audienceContains (values : List String) (expected : String) : Bool :=
  let expected := trimSpace expected
  expected = "" || values.any (trimSpace · = expected)

theorem mem_normalizeStringSet : a ∈ normalizeStringSet values ↔
    (∃ b ∈ values, trimSpace b = a) ∧ a ≠ "" := by
  simp [normalizeStringSet]

theorem trimSpace_of_mem (h : a ∈ normalizeStringSet values) : trimSpace a = a := by
  obtain ⟨⟨b, -, rfl⟩, -⟩ := mem_normalizeStringSet.1 h
  exact trimSpace_trimSpace

theorem isSubset_iff : isSubset needles haystack ↔ needles ⊆ haystack := by
  rcases haystack with _ | ⟨b, haystack⟩
  · simp [isSubset]
  · simp only [isSubset, List.isEmpty_cons, Bool.not_false, Bool.true_and,
      Bool.or_eq_true, List.isEmpty_iff, List.all_eq_true, decide_eq_true_eq]
    exact ⟨fun h => h.elim (fun h => h ▸ List.nil_subset _) id, .inr⟩

end

section

/-- `TokenService.resolveAgentPermissions`; no permission without a resolver. -/
def resolveAgentPermissions (resolver : Option Resolver) (agentID : String) :
    Option AgentPermissions :=
  match resolver with
  | none => some ⟨[], []⟩
  | some resolve => (resolve agentID).map fun p =>
    ⟨normalizeStringSet p.allowedActions, normalizeStringSet p.allowedTopics⟩

/-- The claims with their scope normalised. -/
def verifiedTokenFromClaims (c : DelegationClaims) : VerifiedToken :=
  ⟨normalizeStringSet c.allowedActions, normalizeStringSet c.allowedTopics, c⟩

/-- The scope of a token against what its delegator is permitted now. -/
def validateCurrentScope (env : VerifyEnv) (v : VerifiedToken) : Option TokenError :=
  if env.permissions.isNone then none
  else match resolveAgentPermissions env.permissions v.claims.subject with
    | none => some .unavailable
    | some p =>
      if !isSubset v.allowedActions p.allowedActions || !isSubset v.allowedTopics p.allowedTopics
      then some .scopeExceeded else none

/-- The first of the tokens that is revoked, or that the store cannot tell of. -/
def checkRevoked (isRevoked : String → Option Bool) : List String → Option TokenError
  | [] => none
  | jti :: rest => match isRevoked jti with
    | none => some .unavailable
    | some true => some .revoked
    | some false => checkRevoked isRevoked rest

/-- A token is revoked with any token of its chain. -/
def validateRevocation (env : VerifyEnv) (v : VerifiedToken) : Option TokenError :=
  match env.revocations with
  | none => none
  | some isRevoked => checkRevoked isRevoked
    (normalizeStringSet ((v.claims.id :: v.claims.delegationChain.map (·.jti)).filter (· ≠ "")))

/-- `VerifyDelegationToken`, its checks in order. -/
def verifyDelegationToken (S : TokenService) (env : VerifyEnv) (token : TokenText)
    (expectedAudience : String) : Except TokenError VerifiedToken :=
  match token with
  | .blank => .error .malformed
  | .rejected e => .error e
  | .signed c =>
    if ¬ env.now < c.expiresAt + defaultClockLeeway then .error .expired
    else if env.now < c.notBefore - defaultClockLeeway then .error .notYetValid
    else if expectedAudience ≠ "" ∧ ¬ audienceContains c.audience expectedAudience then
      .error .audienceMismatch
    else if c.chainDepth = 0 ∨ c.chainDepth ≠ c.delegationChain.length then .error .malformed
    else if S.maxDepth < c.chainDepth then .error .chainTooDeep
    else match validateCurrentScope env (verifiedTokenFromClaims c) with
      | some e => .error e
      | none => match validateRevocation env (verifiedTokenFromClaims c) with
        | some e => .error e
        | none => .ok (verifiedTokenFromClaims c)

/-- What an accepted token passed. -/
structure Accepted (S : TokenService) (env : VerifyEnv) (c : DelegationClaims)
    (expectedAudience : String) : Prop where
  unexpired : env.now < c.expiresAt + defaultClockLeeway
  started : c.notBefore - defaultClockLeeway ≤ env.now
  audience : expectedAudience = "" ∨ audienceContains c.audience expectedAudience
  depth : c.chainDepth ≠ 0 ∧ c.chainDepth = c.delegationChain.length ∧ c.chainDepth ≤ S.maxDepth
  scope : validateCurrentScope env (verifiedTokenFromClaims c) = none
  live : validateRevocation env (verifiedTokenFromClaims c) = none

theorem verify_ok_iff {S : TokenService} {env : VerifyEnv} {token : TokenText} {v : VerifiedToken} :
    verifyDelegationToken S env token aud = .ok v ↔
      ∃ c, token = .signed c ∧ v = verifiedTokenFromClaims c ∧ Accepted S env c aud := by
  constructor
  · intro h
    rcases token with _ | e | c
    · cases h
    · cases h
    · unfold verifyDelegationToken at h
      dsimp only at h
      split_ifs at h with hexp hnbf haud hdep hmax
      split at h
      · cases h
      · rename_i hsc
        split at h
        · cases h
        · rename_i hlv
          cases h
          refine ⟨c, rfl, rfl, ⟨hexp, not_lt.1 hnbf, ?_, ?_, hsc, hlv⟩⟩
          · by_contra hne
            exact haud ⟨fun h => hne (.inl h), fun h => hne (.inr h)⟩
          · push Not at hdep
            exact ⟨hdep.1, hdep.2, not_lt.1 hmax⟩
  · rintro ⟨c, rfl, rfl, hexp, hnbf, haud, ⟨hz, hlen, hmax⟩, hsc, hlv⟩
    unfold verifyDelegationToken
    dsimp only
    rw [if_neg (not_not.2 hexp), if_neg (not_lt.2 hnbf), if_neg, if_neg, if_neg (not_lt.2 hmax), hsc]
    · rw [hlv]
    · push Not
      exact ⟨hz, hlen⟩
    · rintro ⟨hne, hms⟩
      exact haud.elim hne hms

theorem checkRevoked_eq_none_iff {isRevoked : String → Option Bool} :
    checkRevoked isRevoked l = none ↔ ∀ jti ∈ l, isRevoked jti = some false := by
  induction l with
  | nil => simp [checkRevoked]
  | cons jti rest ih =>
    rw [checkRevoked, List.forall_mem_cons]
    split <;> simp_all

end

section

/-- `normalizeIssueRequest`: the trimmed request and its lifetime. -/
def normalizeIssueRequest (req : IssueRequest) : Except TokenError (IssueRequest × ℤ) :=
  let req := { req with
    tenant := trimSpace req.tenant
    delegatingAgentID := trimSpace req.delegatingAgentID
    targetAgentID := trimSpace req.targetAgentID }
  if req.tenant = "" ∨ req.delegatingAgentID = "" ∨ req.targetAgentID = "" then .error .malformed
  else if maxTokenTTL < req.lifetime then .error .malformed else .ok (req, req.lifetime)

/-- The parent of a request, verified for the delegator. -/
def loadParentClaims (S : TokenService) (env : VerifyEnv) (req : IssueRequest) :
    Except TokenError (Option VerifiedToken) :=
  match req.parentToken with
  | .blank => .ok none
  | token => (verifyDelegationToken S env token req.delegatingAgentID).map some

/-- The scope asked for, or by default all the delegator has, cut to the parent's. -/
def requestedScope (requested permitted : List String) (parent : Option (List String)) : List String :=
  let scope := normalizeStringSet requested
  let scope := if scope = [] then normalizeStringSet permitted else scope
  match parent with
  | some p => if requested = [] then intersectScopes scope p else scope
  | none => scope

/-- `IssueDelegationToken`, up to the signature. -/
def issueDelegationToken (S : TokenService) (env : IssueEnv) (request : IssueRequest) :
    Except TokenError DelegationClaims :=
  match normalizeIssueRequest request with
  | .error e => .error e
  | .ok (req, ttl) => match loadParentClaims S env.verify req with
    | .error e => .error e
    | .ok parent => match resolveAgentPermissions env.permissions req.delegatingAgentID with
      | none => .error .unavailable
      | some perms =>
        let actions :=
          requestedScope req.allowedActions perms.allowedActions (parent.map (·.allowedActions))
        let topics := requestedScope req.allowedTopics perms.allowedTopics (parent.map (·.allowedTopics))
        if ∃ p ∈ parent, !isSubset actions p.allowedActions || !isSubset topics p.allowedTopics
        then .error .scopeExceeded
        else if !isSubset actions perms.allowedActions || !isSubset topics perms.allowedTopics
        then .error .scopeExceeded
        else match env.jti with
          | none => .error .unavailable
          | some jti =>
            let parentJTI := trimSpace (parent.elim "" (·.claims.id))
            let chain := parent.elim [] (·.claims.delegationChain) ++ [{
              agentID := req.delegatingAgentID
              issuedAt := env.now
              expiresAt := env.now + ttl
              jti := jti.text
              parentJTI
              issuedBy := parent.elim "cordum" fun _ => req.delegatingAgentID }]
            if S.maxDepth < chain.length then .error .chainTooDeep
            else .ok {
              tenant := req.tenant
              allowedActions := actions
              allowedTopics := topics
              delegationChain := chain
              chainDepth := chain.length
              parentTokenJTI := parentJTI
              subject := req.delegatingAgentID
              audience := [req.targetAgentID]
              expiresAt := numericDate (env.now + ttl)
              notBefore := numericDate env.now
              issuedAt := numericDate env.now
              id := jti.text }

/-- A token with the call that issued it. -/
structure Issuance where
  env : IssueEnv
  req : IssueRequest
  claims : DelegationClaims

/-- A signature cannot be forged: signed claims were issued. -/
def TokenText.Unforged (h : List Issuance) (token : TokenText) : Prop :=
  ∀ c, token = .signed c → ∃ i ∈ h, i.claims = c

/-- The tokens that calls can issue: a parent token is unforged, an identifier is fresh. -/
inductive Issued (S : TokenService) : List Issuance → Prop
  | nil : Issued S []
  | issue {h : List Issuance} (i : Issuance) (before : Issued S h)
      (unforged : i.req.parentToken.Unforged h) (fresh : ∀ p ∈ h, p.claims.id ≠ i.claims.id)
      (ok : issueDelegationToken S i.env i.req = .ok i.claims) : Issued S (h ++ [i])

/-- The chain of a token from its first ancestor on, at most `n` parents up. -/
def lineage (h : List Issuance) : ℕ → Issuance → List Issuance
  | 0, i => [i]
  | n + 1, i => match h.find? (·.claims.id = i.claims.parentTokenJTI) with
    | none => [i]
    | some p => lineage h n p ++ [i]

end

end Cordum.Auth
