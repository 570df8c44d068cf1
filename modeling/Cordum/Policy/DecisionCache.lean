import Mathlib.Data.Nat.Notation
import Mathlib.Logic.Function.Basic

/-!
# The decision cache

`evaluate` and `setPolicyWithInvariants` of `core/controlplane/safetykernel/kernel.go` as sequences of
critical sections, in any interleaving. An entry of the cache has the policy version of its insertion,
not that of its evaluation.
-/

namespace Cordum.Policy

variable {P Req D : Type}

/-- What evaluations depend on: `P` is what a swap installs beside the snapshot. -/
structure Evaluation (P Req D : Type) where
  /-- The answer, without the reference and the snapshot. -/
  respond : P → Req → D
  approvalRequired : D → Bool
  jobID : Req → String
  /-- The request does not bypass the cache. -/
  looksUp : P → Req → Bool
  /-- The evaluation comes to its end, and not to one of the early denials. -/
  completes : P → Req → Bool
  /-- The hexadecimal SHA-256 of the request. -/
  digest : Req → String
  digest_injective : Function.Injective digest
  digest_hex : ∀ r, ':' ∉ (digest r).toList

/-- An answer with its approval reference and snapshot. -/
structure CheckResponse (D : Type) where
  body : D
  approvalRef : String
  policySnapshot : String

variable (E : Evaluation P Req D)

/-- The answer of a policy, under its snapshot. -/
def Evaluation.stamp (snapshot : String) (r : Req) (body : D) : CheckResponse D :=
  ⟨body, if E.approvalRequired body then E.jobID r else "", snapshot⟩

/-- The key of a request under a snapshot. -/
def Evaluation.cacheKeyForRequest (r : Req) (snapshot : String) : String := snapshot ++ ":" ++ E.digest r

/-- The parts of `server` under its locks; a cached answer has its policy version. -/
structure Kernel (P D : Type) where
  policyVersion : ℕ := 0
  policy : P
  snapshot : String
  cache : String → Option (D × ℕ) := fun _ => none

/-- The critical sections of calls. -/
inductive Section (P Req : Type)
  | bump (p : P) (snapshot : String)
  | install (p : P) (snapshot : String)
  | clear
  | read (r : Req)
  | lookup (r : Req) (p : P) (snapshot : String)
  | insert (r : Req) (p : P) (snapshot : String)

/-- A cached answer, with the policy and the snapshot that its request had read. -/
structure Served (P Req D : Type) where
  request : Req
  policy : P
  snapshot : String
  response : CheckResponse D

/-- A critical section: the kernel after it, how the call goes on, and the cached answer it returns. -/
def Evaluation.step (k : Kernel P D) (evicted : String → Bool) :
    Section P Req → Kernel P D × Option (Section P Req) × Option (Served P Req D)
  | .bump p snapshot => ({ k with policyVersion := k.policyVersion + 1 }, some (.install p snapshot), none)
  | .install p snapshot => ({ k with policy := p, snapshot }, some .clear, none)
  | .clear => ({ k with cache := fun _ => none }, none, none)
  | .read r => (k, if E.looksUp k.policy r then some (.lookup r k.policy k.snapshot) else none, none)
  | .lookup r p snapshot =>
    match k.cache (E.cacheKeyForRequest r snapshot) with
    | none => (k, some (.insert r p snapshot), none)
    | some (body, version) =>
      if version = k.policyVersion then (k, none, some ⟨r, p, snapshot, E.stamp snapshot r body⟩)
      else
        ({ k with cache := Function.update k.cache (E.cacheKeyForRequest r snapshot) none },
          some (.insert r p snapshot), none)
  | .insert r p snapshot =>
    if E.completes p r then
      let kept := fun key => if evicted key then none else k.cache key
      ({ k with cache :=
        Function.update kept (E.cacheKeyForRequest r snapshot) (some (E.respond p r, k.policyVersion)) },
        none, none)
    else (k, none, none)

/-- The kernel, the calls and what they served. -/
structure Calls (P Req D : Type) where
  kernel : Kernel P D
  calls : List (Option (Section P Req)) := []
  served : List (Served P Req D) := []

/-- A reload, a new call, or a section of a call. -/
inductive CacheAct (P Req : Type)
  | setPolicy (p : P) (snapshot : String)
  | evaluate (r : Req)
  /-- A call enters its next section. -/
  | enter (call : ℕ) (evicted : String → Bool)

/-- One action. -/
def Evaluation.act (w : Calls P Req D) : CacheAct P Req → Calls P Req D
  | .setPolicy p snapshot => { w with calls := w.calls ++ [some (.bump p snapshot)] }
  | .evaluate r => { w with calls := w.calls ++ [some (.read r)] }
  | .enter i evicted =>
    match w.calls[i]?.join with
    | none => w
    | some s =>
      let (k, next, served) := E.step w.kernel evicted s
      { kernel := k, calls := w.calls.set i next, served := w.served ++ served.toList }

/-- The kernel and its calls after actions. -/
def Evaluation.after (p : P) (snapshot : String) (acts : List (CacheAct P Req)) : Calls P Req D :=
  acts.foldl E.act { kernel := { policy := p, snapshot } }

end Cordum.Policy
