import Cordum.Policy.Rules
import Mathlib.Data.List.Sort
import Mathlib.Data.String.Basic

/-!
# Loading the policy bundles

`loadFragments` in `core/controlplane/safetykernel/kernel.go`: the bundles of the configuration
document are visited in the order of their keys, those of the `secops/` prefix are counted against
the licence, and what is accepted is merged in the order of installation. Parsing, signatures,
merging and the hash are a parameter. `watchPolicy` installs what `Load` builds when its snapshot is
another one.
-/

namespace Cordum.Policy

open GoString

/-- The field `enabled`: absent, a Boolean, or anything else by its text. -/
inductive EnabledField
  | absent
  | bool (b : Bool)
  | printed (text : String)

/-- The content of a bundle: absent, a string, or anything else by its text. -/
inductive ContentField
  | absent
  | text (content : String)
  | printed (text : String)

/-- A bundle of the configuration document. -/
inductive Bundle
  | text (content : String)
  | fields (enabled : EnabledField) (content policy data : ContentField)
      (signature : Option String) (installedAt : ℤ)
  | other

/-- The words for true. -/
def parseBool (raw : String) : Bool := ["1", "true", "yes", "y", "on"].contains (toLower (trimSpace raw))

/-- A bundle is on unless it says otherwise. -/
def bundleEnabled : EnabledField → Bool
  | .absent => true
  | .bool b => b
  | .printed text => parseBool text

/-- The field, if it is a string. -/
def ContentField.string : ContentField → Option String
  | .text content => some content
  | _ => none

/-- `extractPolicyFragment`: the first field that is a string. -/
def extractPolicyFragment : Bundle → Option String
  | .text content => some content
  | .fields enabled content policy data _ _ =>
    if bundleEnabled enabled then content.string <|> policy.string <|> data.string else none
  | .other => none

/-- The signature of a bundle. -/
def fragmentSignature : Bundle → Option String
  | .fields _ _ _ _ signature _ => signature
  | _ => none

/-- `fragmentInstalledAt`; a bundle without it is the oldest. -/
def fragmentInstalledAt : Bundle → ℤ
  | .fields _ _ _ _ _ installedAt => installedAt
  | _ => 0

/-- The bundles of a document: a map, so every key once. -/
structure Bundles where
  entries : List (String × Bundle)
  nodup : (entries.map Prod.fst).Nodup

/-- The entitlements of a licence, as far as the number of bundles goes. -/
structure Entitlements where
  maxPolicyBundles : ℤ := 0
  limits : List (String × ℤ) := []
  community : Bool := false

/-- How many custom bundles the licence allows. -/
def policyBundleLimit (e : Entitlements) : ℤ :=
  if e.maxPolicyBundles ≠ 0 then e.maxPolicyBundles
  else
    match e.limits.lookup "max_policy_bundles" with
    | some limit => limit
    | none => if e.community then 0 else unlimited

/-- `policyLoader`, with the parser, the verifier of signatures, `mergePolicies` and the hash. -/
structure Loader (P : Type) where
  entitlements : Entitlements
  parse : String → Option P
  verify : String → String → Option String → Option String
  merge : Option P → P → P
  hash : List (String × String) → String

/-- The bundle of the floor. -/
def kernelInvariantsBundleKey : String := "secops/invariants"

/-- `customPolicyBundlePrefix`. -/
def customBundles : String := "secops/"

/-- What the first pass has gathered. -/
structure LoadState (P : Type) where
  invariants : Option P := none
  pending : List (String × P × ℤ) := []
  customBundleCount : ℕ := 0
  skippedCount : ℕ := 0
  hashed : List (String × String) := []

/-- What `loadFragments` returns. -/
structure Loaded (P : Type) where
  merged : Option P := none
  invariants : Option P := none
  snapshot : String := ""
  customBundleCount : ℕ := 0
deriving DecidableEq

section

variable {P : Type} (L : Loader P)

/-- The bundle is over the limit of the licence. -/
def overLimit (custom : Bool) (count : ℕ) : Bool :=
  let limit := policyBundleLimit L.entitlements
  custom && limit ≠ unlimited && (limit = 0 || (count : ℤ) + 1 > limit)

/-- One bundle of the first pass; the error is that of its signature. -/
def visitBundle (s : LoadState P) (entry : String × Bundle) : Except String (LoadState P) :=
  match extractPolicyFragment entry.2 with
  | none => .ok s
  | some content =>
    if trimSpace content = "" then .ok s
    else
      let custom := hasPrefix entry.1 customBundles
      if overLimit L custom s.customBundleCount then .ok { s with skippedCount := s.skippedCount + 1 }
      else
        match L.verify entry.1 content (fragmentSignature entry.2) with
        | some err => .error err
        | none =>
          match L.parse content with
          | none => .ok { s with skippedCount := s.skippedCount + 1 }
          | some policy =>
            let s := { s with
              hashed := s.hashed ++ [(entry.1, content)]
              customBundleCount := if custom then s.customBundleCount + 1 else s.customBundleCount }
            if entry.1 = kernelInvariantsBundleKey then .ok { s with invariants := some policy }
            else .ok { s with pending := s.pending ++ [(entry.1, policy, fragmentInstalledAt entry.2)] }

/-- The order of the second pass: older bundles first, then by key. -/
def mergesBefore (a b : String × P × ℤ) : Prop := a.2.2 < b.2.2 ∨ a.2.2 = b.2.2 ∧ a.1 ≤ b.1

instance : DecidableRel (mergesBefore (P := P)) := fun a b =>
  inferInstanceAs (Decidable (a.2.2 < b.2.2 ∨ a.2.2 = b.2.2 ∧ a.1 ≤ b.1))

/-- The bundles in the order of their keys. -/
def Bundles.sorted (doc : Bundles) : List (String × Bundle) :=
  doc.entries.insertionSort fun a b => a.1 ≤ b.1

/-- `loadFragments`, of a document that was read. -/
def loadFragments (doc : Bundles) : Except String (Loaded P) := do
  let s ← doc.sorted.foldlM (visitBundle L) {}
  let merged := (s.pending.insertionSort mergesBefore).foldl
    (fun merged fragment => some (L.merge merged fragment.2.1)) none
  if merged.isNone ∧ s.invariants.isNone then
    return { customBundleCount := s.customBundleCount }
  else
    return ⟨merged, s.invariants, "cfg:" ++ L.hash s.hashed, s.customBundleCount⟩

end

/-- What is written into the hash. -/
def hashedText (hashed : List (String × String)) : List Char :=
  hashed.flatMap fun e => e.1.toList ++ '\x00' :: e.2.toList

/-- A loader, policies apart. -/
structure LoaderEnv where
  entitlements : Entitlements
  /-- The text is one that `ParseSafetyPolicy` takes. -/
  accepts : String → Bool
  verify : String → String → Option String → Option String
  /-- SHA-256 in hexadecimal. -/
  sha256 : List Char → String
  sha256_injective : Function.Injective sha256

/-- What texts mean. -/
structure Meaning (P : Type) where
  read : String → P
  merge : Option P → P → P

/-- The loader, for a meaning of texts. -/
def LoaderEnv.loader {P : Type} (S : LoaderEnv) (M : Meaning P) : Loader P where
  entitlements := S.entitlements
  parse content := if S.accepts content then some (M.read content) else none
  verify := S.verify
  merge := M.merge
  hash hashed := S.sha256 (hashedText hashed)

section

variable {P : Type} (L : Loader P) (base : Option P × String)

/-- The snapshot of a file and the bundles. -/
def combineSnapshots (base extra : String) : String :=
  if base = "" then extra else if extra = "" then base else base ++ "|" ++ extra

/-- `Load`, with the policy file and its snapshot. -/
def load (doc : Bundles) : Except String (Loaded P) := do
  let r ← loadFragments L doc
  return { r with
    merged := match r.merged with
      | none => base.1
      | some policy => some (L.merge base.1 policy)
    snapshot := combineSnapshots base.2 r.snapshot }

/-- The reload of `watchPolicy`, of what the kernel enforces. -/
def reload (k : Loaded P) (doc : Bundles) : Loaded P :=
  match load L base doc with
  | .error _ => k
  | .ok r => if r.snapshot ≠ "" ∧ r.snapshot ≠ k.snapshot then r else k

/-- What the kernel evaluates with. -/
def Loaded.enforced {P : Type} (r : Loaded P) : Option P × Option P := (r.merged, r.invariants)

end

end Cordum.Policy
