import Cordum.Policy.Rules

/-!
# Velocity windows

The sliding windows of velocity rules, after `core/controlplane/safetykernel/velocity.go`: a sorted
set for a rule and a bucket, whose members are requests with the second of their last call. A key
lives a minute longer than its window, so what expires would be pruned.
-/

namespace Cordum.Policy

open GoString

/-- The characters that `sanitizeKeyValue` replaces. -/
def keySeparators : List Char := [':', ' ', '\n', '\r', '\t']

/-- A value without separators. -/
def sanitizeKeyValue (raw : String) : String := replaceAll keySeparators '_' raw

/-- The key of a bucket. -/
def velocityKey (ruleID keyValue : String) : String :=
  "cordum:velocity:" ++ sanitizeKeyValue ruleID ++ ":" ++ sanitizeKeyValue keyValue

/-- A sorted set: its members and their scores. -/
abbrev Window := List (String × ℤ)

/-- The windows of all keys. -/
abbrev Windows := String → Window

/-- `ZREMRANGEBYSCORE` from `-inf` to the start of the window. -/
def pruned (windowStart : ℤ) (w : Window) : Window := w.filter fun e => e.2 > windowStart

/-- A member with a new score. -/
def zadd (member : String) (now : ℤ) (w : Window) : Window :=
  w.filter (fun e => e.1 ≠ member) ++ [(member, now)]

/-- The answer of a check: has the window more than the limit? -/
def VelocityConfig.exceeded (cfg : VelocityConfig) (w : Window) : Bool := (w.length : ℤ) > cfg.maxRequests

/-- The limit and the window are positive. -/
def VelocityConfig.Valid (cfg : VelocityConfig) : Prop := 0 < cfg.maxRequests ∧ 0 < cfg.windowSeconds

instance (cfg : VelocityConfig) : Decidable cfg.Valid :=
  inferInstanceAs (Decidable (0 < cfg.maxRequests ∧ 0 < cfg.windowSeconds))

/-- `CheckAndRecord`, on a Redis that answers; none is an error. -/
def checkAndRecord (now : ℤ) (requestID : String) (W : Windows) (ruleID keyValue : String)
    (cfg : VelocityConfig) :
    Option Bool × Windows :=
  if cfg.Valid then
    let key := velocityKey ruleID keyValue
    let w := zadd requestID now (pruned (now - cfg.windowSeconds) (W key))
    (some (cfg.exceeded w), Function.update W key w)
  else (none, W)

/-- `CheckOnly`: looks without recording. -/
def checkOnly (now : ℤ) (W : Windows) (ruleID keyValue : String) (cfg : VelocityConfig) :
    Option Bool × Windows :=
  if cfg.Valid then
    let key := velocityKey ruleID keyValue
    let w := pruned (now - cfg.windowSeconds) (W key)
    (some (cfg.exceeded w), Function.update W key w)
  else (none, W)

/-- What an evaluation is given beside the policy. -/
structure VelocityCall where
  matchers : Matchers
  limit : ℤ
  failOpen : Bool
  now : ℤ
  input : PolicyInput
  jobID : String
  /-- The name that is made up for a request without a job. -/
  anon : String

/-- `resolveVelocityMember`. -/
def VelocityCall.member (E : VelocityCall) : String := if E.jobID ≠ "" then E.jobID else E.anon

/-- The check of a method. -/
def VelocityCall.check (E : VelocityCall) (method : String) :
    Windows → String → String → VelocityConfig → Option Bool × Windows :=
  if method = "simulate" ∨ method = "explain" then checkOnly E.now else checkAndRecord E.now E.member

/-- The loop passes a rule, the rule fires, or its window is asked. -/
inductive RuleTurn
  | passed
  | fires
  | asks (cfg : VelocityConfig) (keyValue : String)
deriving DecidableEq

/-- The turn of a rule, after `count` rules with a velocity clause. -/
def VelocityCall.turn (E : VelocityCall) (count : ℤ) (rule : PolicyRule) : RuleTurn :=
  match rule.velocity with
  | none => if matchRule E.matchers rule.terms E.input then .fires else .passed
  | some v =>
    if E.limit ≠ unlimited ∧ count + 1 > E.limit then .passed
    else if matchRule E.matchers rule.terms E.input = false then .passed
    else if v.resolveKey E.input = "" then .passed
    else .asks v (v.resolveKey E.input)

/-- `evaluateRulesWithVelocity` on the windows, after `count` rules with a velocity clause. -/
def evaluateRulesWithVelocity (E : VelocityCall) (method : String) :
    ℤ → List PolicyRule → Windows → Verdict × Windows :=
  velocityLoop E.matchers (some (E.check method)) E.limit E.failOpen E.input

end Cordum.Policy
