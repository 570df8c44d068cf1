import Cordum.Scheduler.Request
import Cordum.Store.Runs

/-!
# Runs of the scheduler

One job under any interleaving of request handlings and of store calls by others (the
gateway, the reconcilers, a second scheduler): `Conc.World` at the engine's programs.
-/

namespace Cordum

open Conc GoString

/-- A handling of a request, or a call of the store by someone else. -/
inductive SchedOp
  | handle (a : Attempt) (req : JobRequest)
  | call (op : StoreOp)

/-- What it runs. -/
def SchedOp.prog (cfg : StoreConfig) : SchedOp → EngineM Unit
  | .handle a req => handleJobRequest cfg.hasher a req
  | .call op => do
    let _ ← tryStore (op.prog cfg.jobID)
    .ret ()

/-- One command of a scheduler run. -/
abbrev EngineEntry := Entry EngineCmd Sys

/-- The commands a run sent. -/
def schedLog (cfg : StoreConfig) (s : Sys) (acts : List (Action SchedOp)) : List EngineEntry :=
  (World.run (SchedOp.prog cfg) (engine cfg) (World.init s) acts).log

/-! ## One handling after the other -/

/-- An operation on its own, with its faults. -/
def opOut (cfg : StoreConfig) (c : SchedOp × List Fault) (s : Sys) : Out EngineErr Unit Sys :=
  (c.1.prog cfg).run (engine cfg) c.2 s

/-- The system after operations that follow one another. -/
def sysAfter (cfg : StoreConfig) (s : Sys) (cs : List (SchedOp × List Fault)) : Sys :=
  cs.foldl (fun s c => (opOut cfg c s).st) s

@[simp] theorem sysAfter_snoc {cfg : StoreConfig} {s : Sys} {cs : List (SchedOp × List Fault)}
    {c : SchedOp × List Fault} : sysAfter cfg s (cs ++ [c]) = (opOut cfg c (sysAfter cfg s cs)).st := by
  simp [sysAfter]

theorem run_tryKey {cfg : StoreConfig} {β : Type} {c : KeyCmd} {f : Option c.Reply → EngineM β}
    {fs : List Fault} {s : Sys} :
    (tryKey c >>= f).run (engine cfg) fs s =
      (f ((store cfg).deliver (fs.headD .none) (.key c) s.keys).2).run (engine cfg) fs.tail
        { s with keys := ((store cfg).deliver (fs.headD .none) (.key c) s.keys).1 } := by
  change (f _).run (engine cfg) fs.tail _ = _
  cases fs.headD .none <;> rfl

theorem run_tryStore (cfg : StoreConfig) {α : Type} {p : StoreM α} (fs : List Fault) (s : Sys) :
    (tryStore p).run (engine cfg) fs s =
      ⟨.ok (p.run (store cfg) fs s.keys).ans, (p.run (store cfg) fs s.keys).rest,
        { s with keys := (p.run (store cfg) fs s.keys).st }⟩ := by
  induction p generalizing fs s with
  | ret x | fail e => rfl
  | call c k ih =>
    refine Eq.trans ?_ (ih ((store cfg).deliver (fs.headD .none) c s.keys).2 fs.tail
      { s with keys := ((store cfg).deliver (fs.headD .none) c s.keys).1 })
    change (tryStore (k _)).run (engine cfg) fs.tail _ = _
    cases fs.headD .none <;> rfl

/-! ## How far a handling gets -/

/-- A handling up to the delegation check: whether it gets there. -/
def untilDelegation (a : Attempt) (req : JobRequest) : EngineM Bool :=
  if trimSpace req.jobId = "" then .ret false
  else if trimSpace req.topic = "" then do
    inStore (setState (trimSpace req.jobId) .failed a.now)
    .ret false
  else do
    if ← admitRequest a req then vet a req else .ret false

/-- A handling up to the safety check: whether it gets there. -/
def untilSafety (a : Attempt) (req : JobRequest) : EngineM Bool := do
  if ← untilDelegation a req then checkDelegation a (attachEffectiveConfig a req) else .ret false

section

variable {cfg : StoreConfig} {h : Hasher} {a : Attempt} {req : JobRequest}
  {fs fs' : List Fault} {s s' : Sys}

theorem run_settled {p : EngineM Unit} : (settled p).run (engine cfg) fs s =
    (settle (p.run (engine cfg) fs s).ans).run (engine cfg) (p.run (engine cfg) fs s).rest
      (p.run (engine cfg) fs s).st :=
  Prog.run_bind_of_ok (Prog.run_attempt p fs s) settle

/-- A handling that gets to the delegation check goes on from there. -/
theorem run_handle_of_untilDelegation
    (hu : (untilDelegation a req).run (engine cfg) fs s = ⟨.ok true, fs', s'⟩) :
    (handleJobRequest h a req).run (engine cfg) fs s =
      (settled (processVetted h a (attachEffectiveConfig a req))).run (engine cfg) fs' s' := by
  unfold untilDelegation at hu
  unfold handleJobRequest
  split at hu
  · cases hu
  next hid =>
  split at hu
  · rw [Prog.bind_eq, Prog.run_bind] at hu
    split at hu <;> cases hu
  next htop =>
  rw [if_neg hid, if_neg htop]
  rcases hadm : (admitRequest a req).run (engine cfg) fs s with ⟨_ | _ | _, fs1, s1⟩
  · rw [Prog.bind_eq, Prog.run_bind, hadm] at hu
    cases hu
  · rw [Prog.run_bind_of_ok hadm] at hu
    cases hu
  · rw [Prog.run_bind_of_ok hadm] at hu ⊢
    have hjob : (processJob h a req).run (engine cfg) fs1 s1 =
        (processVetted h a (attachEffectiveConfig a req)).run (engine cfg) fs' s' :=
        Prog.run_bind_of_ok hu _
    change (settled (processJob h a req)).run (engine cfg) fs1 s1 = _
    rw [run_settled, run_settled, hjob]

/-- A handling that gets to the safety check goes on from there. -/
theorem run_handle_of_untilSafety (hu : (untilSafety a req).run (engine cfg) fs s = ⟨.ok true, fs', s'⟩) :
    (handleJobRequest h a req).run (engine cfg) fs s =
      (settled (decideAndDispatch h a (attachEffectiveConfig a req))).run (engine cfg) fs' s' := by
  unfold untilSafety at hu
  rcases hdel : (untilDelegation a req).run (engine cfg) fs s with ⟨_ | _ | _, fs1, s1⟩
  · rw [Prog.bind_eq, Prog.run_bind, hdel] at hu
    cases hu
  · rw [Prog.run_bind_of_ok hdel] at hu
    cases hu
  · rw [Prog.run_bind_of_ok hdel] at hu
    have hvet : (processVetted h a (attachEffectiveConfig a req)).run (engine cfg) fs1 s1 =
        (decideAndDispatch h a (attachEffectiveConfig a req)).run (engine cfg) fs' s' :=
        Prog.run_bind_of_ok hu _
    rw [run_handle_of_untilDelegation hdel, run_settled, run_settled, hvet]

end

/-- A request for the test job. -/
def exampleRequest : JobRequest where
  jobId := "job-1"
  topic := "job.demo"
  tenantId := "acme"
  identityTenant := ""
  metaTenant := ""
  labels := ∅
  env := ∅
  deadlineMs := 0
  dispatch := none
  body := ""

end Cordum
