import Cordum.Auth.Token
import Cordum.Graph.Queue

/-!
# The revocation of delegation tokens

`CascadeRevoke` marks a token and, with cascade, its recorded descendants as revoked; Redis drops a
marker after a day, and a verification looks for the markers of all tokens of the chain. The runs of
a service with its store interleave the halves of issues, revocations and changes of the records.
-/

namespace Cordum.Auth

open GoString Relation

/-- The depth at which a cascade gives up. -/
def delegationCascadeDepthLimit : ℕ := 256

/-- How long a marker stands. -/
def delegationRevocationTTL : ℤ := 24 * 60 * 60 * second

/-- The keys of the revocation store: the tokens with their tenant and `revoked` field, the active
ones of a tenant, the children in the order of `table.sort`, and when a marker expires. -/
structure RevocationStore where
  tokens : List String
  tenant : String → String
  revoked : String → Bool
  active : String → List String
  children : String → List String
  expiry : String → Option ℤ

/-- `IsRevoked`, with a Redis that answers. -/
def RevocationStore.isRevoked (R : RevocationStore) (now : ℤ) (jti : String) : Bool :=
  let jti := trimSpace jti
  jti ≠ "" && (R.expiry jti).any (now < ·)

/-- The errors of `CascadeRevoke`. -/
inductive CascadeError
  | required
  | tooDeep
  | notFound
deriving DecidableEq

/-- The first phase of the script: the queue with its depths, and the tokens seen, which are those to
revoke. -/
def preWalk (rounds : ℕ) (R : RevocationStore) (root : String) (cascade : Bool) :
    Option (Option (List String)) :=
  if cascade then Graph.breadthFirst R.children delegationCascadeDepthLimit rounds [(root, 0)] [root]
  else some (some [root])

/-- The second phase. -/
def RevocationStore.revoke (R : RevocationStore) (now : ℤ) (toRevoke : List String) : RevocationStore where
  tokens := R.tokens ++ toRevoke.filter (· ∉ R.tokens)
  tenant := R.tenant
  revoked jti := jti ∈ toRevoke || R.revoked jti
  active tenant :=
    (R.active tenant).filter fun jti => !(jti ∈ toRevoke && tenant ≠ "" && R.tenant jti = tenant)
  children := R.children
  expiry jti := if jti ∈ toRevoke then some (now + delegationRevocationTTL) else R.expiry jti

/-- The tokens that the script names as revoked. -/
def cascadeRevocationJTIs (revoked : List String) : List String := (revoked.map trimSpace).filter (· ≠ "")

/-- What the walk leads to: an error, or the writes. -/
def RevocationStore.outcome (R : RevocationStore) (now : ℤ) :
    Option (List String) → Except CascadeError (List String × RevocationStore)
  | none => .error .tooDeep
  | some toRevoke => .ok (cascadeRevocationJTIs toRevoke, R.revoke now toRevoke)

/-- `CascadeRevoke`, with the store after it; `none` if the rounds do not suffice. -/
def cascadeRevoke (rounds : ℕ) (R : RevocationStore) (now : ℤ) (rootJTI : String) (cascade : Bool) :
    Option (Except CascadeError (List String × RevocationStore)) :=
  let root := trimSpace rootJTI
  if root = "" then some (.error .required)
  else if root ∉ R.tokens then some (.error .notFound)
  else (preWalk rounds R root cascade).map (R.outcome now)

/-- A token service with its store. An issue whose parent is verified waits for its signature. -/
structure AuthState where
  now : ℤ
  pending : List Issuance
  issued : List Issuance
  store : RevocationStore

/-- The issues that have verified their parent. -/
def AuthState.verified (s : AuthState) : List Issuance := s.issued ++ s.pending

/-- What a verification meets in a state. -/
def AuthState.env (s : AuthState) (permissions : Option Resolver) : VerifyEnv :=
  ⟨s.now, permissions, some fun jti => some (s.store.isRevoked s.now jti)⟩

/-- The steps of the system. An issue takes its own time, verifies the parent and then signs. -/
inductive Step (S : TokenService) : AuthState → AuthState → Prop
  | tick (s : AuthState) (now : ℤ) (later : s.now ≤ now) : Step S s { s with now }
  | record (s : AuthState) (store : RevocationStore) (markers : store.expiry = s.store.expiry) :
      Step S s { s with store }
  | verify (s : AuthState) (i : Issuance) (permissions : Option Resolver)
      (env : i.env.verify = s.env permissions) (started : i.env.now ≤ s.now)
      (unforged : i.req.parentToken.Unforged s.issued)
      (fresh : ∀ p ∈ s.verified, p.claims.id ≠ i.claims.id)
      (ok : issueDelegationToken S i.env i.req = .ok i.claims) : Step S s
        { s with pending := s.pending ++ [i] }
  | sign (s : AuthState) (i : Issuance) (before after : List Issuance)
      (waits : s.pending = before ++ i :: after) :
      Step S s { s with pending := before ++ after, issued := s.issued ++ [i] }
  | revoke (s : AuthState) (rounds : ℕ) (jti : String) (cascade : Bool) (revoked : List String)
    (store : RevocationStore)
    (ok : cascadeRevoke rounds s.store s.now jti cascade = some (.ok (revoked, store))) :
      Step S s { s with store }

/-- A store without keys. -/
def RevocationStore.empty : RevocationStore :=
  ⟨[], fun _ => "", fun _ => false, fun _ => [], fun _ => [], fun _ => none⟩

/-- The states of a service that starts with nothing issued and nothing revoked. -/
def Run (S : TokenService) (s : AuthState) : Prop :=
  ∃ now, ReflTransGen (Step S) ⟨now, [], [], .empty⟩ s

end Cordum.Auth
