import Cordum.Conc.Pool
import Cordum.Store.Ops

/-!
# Many jobs in one Redis

A job's own keys are `JobKeys`; the sets that jobs share (`job:index:<state>`,
`job:tenant:active:<tenant>`) are kept there as memberships. A `Fleet` puts the jobs side
by side, so the shared sets are read off it. A call on one job touches its keys and its
memberships only.
-/

namespace Cordum

open Conc Prod List

/-- What every job's commands read besides the keys. -/
structure FleetConfig where
  ttl : ℤ
  hasher : Hasher

/-- One job's store. -/
def FleetConfig.job (cfg : FleetConfig) (j : String) : StoreConfig := ⟨j, cfg.ttl, cfg.hasher⟩

/-- The jobs Redis knows, each with its keys. -/
structure Fleet where
  jobs : List String
  nodup : jobs.Nodup
  keys : String → JobKeys

namespace Fleet

/-- Job `j` with other keys. -/
def set (f : Fleet) (j : String) (k : JobKeys) : Fleet where
  jobs := f.jobs.insert j
  nodup := f.nodup.insert
  keys := Function.update f.keys j k

/-- The members of `job:index:<state>`. -/
def stateIndex (f : Fleet) (s : JobState) : List String :=
  f.jobs.filter fun j => ((f.keys j).index s).isSome

/-- The members of `job:tenant:active:<tenant>`. -/
def tenantActive (f : Fleet) (tenant : String) : List String :=
  f.jobs.filter fun j => tenant ∈ (f.keys j).active

/-- `CountActiveByTenant`. -/
def countActiveByTenant (f : Fleet) (tenant : String) : ℕ := (f.tenantActive tenant).length

variable {f : Fleet} {j i : String} {k : JobKeys}

@[simp] theorem set_keys_self : (f.set j k).keys j = k := Function.update_self ..

theorem set_keys_ne (h : i ≠ j) : (f.set j k).keys i = f.keys i := Function.update_of_ne h ..

theorem mem_stateIndex {s : JobState} : j ∈ f.stateIndex s ↔ j ∈ f.jobs ∧ ((f.keys j).index s).isSome := by
  simp [stateIndex]

theorem mem_tenantActive {t : String} : j ∈ f.tenantActive t ↔ j ∈ f.jobs ∧ t ∈ (f.keys j).active := by
  simp [tenantActive]

end Fleet

/-! ## Calls one after the other -/

/-- A repair applies a plan that `ClassifyApprovalRepair` made. -/
def StoreOp.Planned : StoreOp → Prop
  | .applyApprovalRepair p _ => ∃ snapshot opts, p.plan = classifyApprovalRepair snapshot opts
  | _ => True

/-- A call of the store on one job, with the faults its commands meet. -/
structure FleetCall where
  job : String
  op : StoreOp
  planned : op.Planned
  faults : List Fault := []

namespace Fleet

variable (cfg : FleetConfig)

/-- What the call leaves of its job. -/
def callOut (f : Fleet) (c : FleetCall) : Out StoreErr StoreAns JobKeys :=
  (c.op.prog c.job).run (store (cfg.job c.job)) c.faults (f.keys c.job)

/-- The jobs after a call. -/
def call (f : Fleet) (c : FleetCall) : Fleet := f.set c.job (f.callOut cfg c).st

/-- The jobs after a sequence of calls. -/
def calls (f : Fleet) (cs : List FleetCall) : Fleet := cs.foldl (call cfg) f

/-- Every call of the sequence succeeds. -/
def Succeed (f : Fleet) : List FleetCall → Prop
  | [] => True
  | c :: cs => (∃ a, (f.callOut cfg c).ans = .ok a) ∧ (f.call cfg c).Succeed cs

end Fleet

/-- A configuration for examples. -/
def exampleFleet : FleetConfig := ⟨60, ⟨fun _ => none⟩⟩

end Cordum
