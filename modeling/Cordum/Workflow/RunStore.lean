import Cordum.Codec.Cjson
import Cordum.Conc.Prog
import Cordum.Text.GoString
import Mathlib.Data.Finset.Basic

/-!
# The run store

A run is one document, with the sets it is listed in beside it. `UpdateRun` writes the document by a
script that carries audit hashes forward, and then the sets by a pipeline; `UpdateAuditHash` edits the
document under `WATCH`.
-/

namespace Cordum.Flow

open Conc GoString

/-! ## Documents -/

/-- A step of a run's document: its job, audit hash, other fields and children. A nil `*StepRun` is
`null`. -/
inductive StepDoc
  | null
  | step (jobID auditHash : String) (fields : List (String × Json)) (children : List (String × StepDoc))

/-- The document of a run. -/
structure RunDoc where
  workflowID : String := ""
  orgID : String := ""
  status : String := ""
  steps : List (String × StepDoc) := []
  /-- The other fields. -/
  fields : List (String × Json) := []

namespace StepDoc

mutual

/-- How deep a step is nested. An empty `children` is left out. -/
def depth : StepDoc → ℕ
  | .null => 0
  | .step _ _ fields children => max (Json.depthMembers fields) (depthAll children) + 1

def depthAll : List (String × StepDoc) → ℕ
  | [] => 0
  | (_, s) :: steps => max (s.depth + 1) (depthAll steps)

end

mutual

/-- `collect` of the script: the hashes with their jobs. -/
def collect : StepDoc → List (String × String)
  | .null => []
  | .step jobID auditHash _ children =>
    (if jobID ≠ "" ∧ auditHash ≠ "" then [(jobID, auditHash)] else []) ++ collectAll children

def collectAll : List (String × StepDoc) → List (String × String)
  | [] => []
  | (_, s) :: steps => s.collect ++ collectAll steps

end

/-- `hashes[job_id]`. -/
def hashOf (hashes : List (String × String)) (jobID : String) : Option String :=
  (hashes.find? fun p => p.1 = jobID).map (·.2)

/-- The hash a step gets: its own, or the one carried forward. -/
def carried (hashes : List (String × String)) (jobID auditHash : String) : String :=
  if jobID ≠ "" ∧ auditHash = "" then (hashOf hashes jobID).getD auditHash else auditHash

mutual

/-- `apply` of the script. -/
def apply (hashes : List (String × String)) : StepDoc → StepDoc
  | .null => .null
  | .step jobID auditHash fields children =>
    .step jobID (carried hashes jobID auditHash) fields (applyAll hashes children)

def applyAll (hashes : List (String × String)) : List (String × StepDoc) → List (String × StepDoc)
  | [] => []
  | (id, s) :: steps => (id, s.apply hashes) :: applyAll hashes steps

end

mutual

/-- Whether `apply` sets `merged`. -/
def merges (hashes : List (String × String)) : StepDoc → Bool
  | .null => false
  | .step jobID auditHash _ children =>
    (jobID ≠ "" && auditHash = "" && (hashOf hashes jobID).isSome) || mergesAny hashes children

def mergesAny (hashes : List (String × String)) : List (String × StepDoc) → Bool
  | [] => false
  | (_, s) :: steps => s.merges hashes || mergesAny hashes steps

end

mutual

/-- Through `cjson`. -/
def recode : StepDoc → StepDoc
  | .null => .null
  | .step jobID auditHash fields children =>
    .step jobID auditHash (Json.recodeMembers fields) (recodeAll children)

def recodeAll : List (String × StepDoc) → List (String × StepDoc)
  | [] => []
  | (id, s) :: steps => (id, s.recode) :: recodeAll steps

end

mutual

/-- `setStepRunAuditHashForJob`. -/
def setAuditHashForJob (jobID hash : String) : StepDoc → StepDoc
  | .null => .null
  | .step stepJob auditHash fields children =>
    .step stepJob (if stepJob = jobID ∧ auditHash = "" then hash else auditHash) fields
      (setAuditHashForJobAll jobID hash children)

/-- `setStepAuditHashForJob`. -/
def setAuditHashForJobAll (jobID hash : String) : List (String × StepDoc) → List (String × StepDoc)
  | [] => []
  | (id, s) :: steps => (id, s.setAuditHashForJob jobID hash) :: setAuditHashForJobAll jobID hash steps

end

mutual

/-- Every step's job and audit hash, at any depth. -/
def jobs : StepDoc → List (String × String)
  | .null => []
  | .step jobID auditHash _ children => (jobID, auditHash) :: jobsAll children

def jobsAll : List (String × StepDoc) → List (String × String)
  | [] => []
  | (_, s) :: steps => s.jobs ++ jobsAll steps

end

end StepDoc

namespace RunDoc

/-- The nesting of the document. -/
def depth (d : RunDoc) : ℕ := max (Json.depthMembers d.fields) (StepDoc.depthAll d.steps) + 1

/-- `cjson.decode` succeeds. -/
def decodes (d : RunDoc) : Bool := d.depth ≤ Json.maxDepth

/-- Through `cjson`. -/
def recode (d : RunDoc) : RunDoc :=
  { d with steps := StepDoc.recodeAll d.steps, fields := Json.recodeMembers d.fields }

/-- Every step's job and audit hash. -/
def jobs (d : RunDoc) : List (String × String) := StepDoc.jobsAll d.steps

end RunDoc

/-! ## The script -/

/-- The order in which Lua enumerates the steps. -/
abbrev PairsOrder := (l : List (String × String)) → { l' : List (String × String) // l'.Perm l }

/-- The pairs as they are listed. -/
def PairsOrder.listed : PairsOrder := fun l => ⟨l, .refl l⟩

/-- What `updateRunScript` stores, and the previous status it returns. -/
def updateRunScript (order : PairsOrder) (prev : Option RunDoc) (payload : RunDoc) : RunDoc × String :=
  match prev with
  | none => (payload, "")
  | some prev =>
    if prev.decodes then
      let hashes := (order (StepDoc.collectAll prev.steps)).1
      let merged := payload.decodes && StepDoc.mergesAny hashes payload.steps
      (if merged then { payload with steps := StepDoc.applyAll hashes payload.steps }.recode
        else payload, prev.status)
    else (payload, "")

/-! ## Keys and commands -/

/-- The set of a workflow's runs. -/
def runIndexKey (workflowID : String) : String := "wf:runs:" ++ workflowID

/-- The set of all runs. -/
def runAllIndexKey : String := "wf:runs:all"

/-- The set of runs in a status. -/
def runStatusIndexKey (status : String) : String := "wf:runs:status:" ++ status

/-- The set of an organisation's active runs. -/
def runOrgActiveKey (orgID : String) : String := "wf:runs:active:" ++ orgID

/-- The status counts as active. -/
def isActiveRunStatus (status : String) : Bool :=
  status ∉ ["succeeded", "failed", "denied", "cancelled", "timed_out"] && status ≠ ""

/-- How the document of a run came to be what it was. -/
inductive DocWrite
  /-- By the script, from the document it met. -/
  | saved (order : PairsOrder) (prev : Option RunDoc) (payload : RunDoc)
  /-- By the pipeline of `UpdateAuditHash`. -/
  | hashed (prev : Option RunDoc) (stored : RunDoc)

/-- The keys of one run: its document with the number of writes to it, and the sets that list it. -/
structure RunKeys where
  doc : Option RunDoc := none
  version : ℕ := 0
  zsets : Finset String := ∅
  active : Finset String := ∅
  /-- The writes by `UpdateRun` and `UpdateAuditHash`, the newest first. -/
  writes : List DocWrite := []

/-- The commands on a run's keys. A transaction is one command. -/
inductive RunCmd
  | createTx (run : RunDoc)
  | script (order : PairsOrder) (payload : RunDoc)
  | indexTx (prevStatus : String) (run : RunDoc)
  | get
  | deleteTx (run : RunDoc)
  | watch
  | execSet (seen : ℕ) (payload : RunDoc)

/-- The replies. -/
abbrev RunCmd.Reply : RunCmd → Type
  | .createTx _ => Unit
  | .script _ _ => String
  | .indexTx _ _ => Unit
  | .get => Option RunDoc
  | .deleteTx _ => Unit
  | .watch => ℕ
  | .execSet _ _ => Bool

/-- List the run as active in its organisation, or not. -/
def trackOrg (run : RunDoc) (active : Finset String) : Finset String :=
  if run.orgID = "" then active
  else if isActiveRunStatus run.status then insert (runOrgActiveKey run.orgID) active
  else active.erase (runOrgActiveKey run.orgID)

/-- List the run under its workflow, among all runs and under its status. -/
def listRun (run : RunDoc) (zsets : Finset String) : Finset String :=
  insert (runStatusIndexKey run.status) (insert runAllIndexKey (insert (runIndexKey run.workflowID) zsets))

/-- The commands, one at a time. -/
def runStep : Sem RunCmd RunCmd.Reply RunKeys
  | .createTx run, k =>
    ({ k with
        doc := some run
        version := k.version + 1
        zsets := listRun run k.zsets
        active := trackOrg run k.active }, ())
  | .script order payload, k =>
    ({ k with
        doc := some (updateRunScript order k.doc payload).1
        version := k.version + 1
        writes := .saved order k.doc payload :: k.writes }, (updateRunScript order k.doc payload).2)
  | .indexTx prevStatus run, k =>
    let zsets := listRun run k.zsets
    ({ k with
        zsets :=
          if prevStatus ≠ "" ∧ prevStatus ≠ run.status then zsets.erase (runStatusIndexKey prevStatus)
          else zsets
        active := trackOrg run k.active }, ())
  | .get, k => (k, k.doc)
  | .deleteTx run, k =>
    let zsets := k.zsets.erase runAllIndexKey
    let zsets := if run.workflowID ≠ "" then zsets.erase (runIndexKey run.workflowID) else zsets
    ({ k with
        doc := none
        version := k.version + 1
        zsets := if run.status ≠ "" then zsets.erase (runStatusIndexKey run.status) else zsets
        active := if run.orgID ≠ "" then k.active.erase (runOrgActiveKey run.orgID) else k.active }, ())
  | .watch, k => (k, k.version)
  | .execSet seen payload, k =>
    if k.version = seen then
      ({ k with doc := some payload, version :=
        k.version + 1, writes := .hashed k.doc payload :: k.writes }, true)
    else (k, false)

/-! ## Calls -/

/-- The errors of the store. -/
inductive RunStoreErr
  | transport
  | invalid
  | notFound
  | retriesExhausted
deriving DecidableEq, Repr

/-- The programs of the store. -/
abbrev RunM := Prog RunCmd RunCmd.Reply RunStoreErr

/-- The hashes that were held back for jobs whose steps were not stored yet. -/
abbrev Pending := String → Option String

/-- `collectRunJobRefs`: the jobs of the run. -/
def collectRunJobRefs (run : RunDoc) : List String := (run.jobs.map (·.1)).filter (· ≠ "")

/-- The run with the hashes held back for it. -/
def applyPendingAuditHashes (pending : Pending) (run : RunDoc) : RunDoc :=
  (collectRunJobRefs run).foldl (fun run jobID =>
    match pending jobID with
    | none => run
    | some hash =>
      if trimSpace hash = "" then run
      else { run with steps := StepDoc.setAuditHashForJobAll jobID hash run.steps }) run

/-- `CreateRun`. A run without a status is pending. -/
def createRun (pending : Pending) (run : RunDoc) : RunM Unit :=
  if run.workflowID = "" then .fail .invalid
  else
    let run := if run.status = "" then { run with status := "pending" } else run
    Prog.exec (RunCmd.createTx (applyPendingAuditHashes pending run)) RunStoreErr.transport

/-- `UpdateRun`. That the pipeline failed is only logged. -/
def updateRun (order : PairsOrder) (pending : Pending) (run : RunDoc) : RunM Unit :=
  if run.workflowID = "" then .fail .invalid
  else do
    let run := applyPendingAuditHashes pending run
    let prevStatus ← Prog.exec (RunCmd.script order run) RunStoreErr.transport
    let _ ← Prog.cmd (RunCmd.indexTx prevStatus run)
    .ret ()

/-- `DeleteRun`. -/
def deleteRun : RunM Unit := do
  match ← Prog.exec RunCmd.get RunStoreErr.transport with
  | none => .fail .notFound
  | some run => Prog.exec (RunCmd.deleteTx run) .transport

/-- A hash in hexadecimal. -/
def isAuditHashHex (value : String) : Bool :=
  value.toList.length = 64 && value.toList.all fun c =>
    ('0' ≤ c && c ≤ '9') || ('a' ≤ c && c ≤ 'f') || ('A' ≤ c && c ≤ 'F')

/-- `updateAuditHashInRun`, with the tries left: whether a step has the job. -/
def updateAuditHashInRun (jobID auditHash : String) : ℕ → RunM Bool
  | 0 => .fail .retriesExhausted
  | tries + 1 => do
    let seen ← Prog.exec RunCmd.watch RunStoreErr.transport
    match ← Prog.exec RunCmd.get RunStoreErr.transport with
    | none => .ret false
    | some run =>
      let matched := run.jobs.any fun p => p.1 = jobID
      if run.jobs.any fun p => p.1 = jobID && p.2 = "" then do
        let next := { run with steps := StepDoc.setAuditHashForJobAll jobID auditHash run.steps }
        if ← Prog.exec (RunCmd.execSet seen next) RunStoreErr.transport then .ret matched
        else updateAuditHashInRun jobID auditHash tries
      else .ret matched

/-- `UpdateAuditHash` for a job of this run. -/
def updateAuditHash (jobID auditHash : String) : RunM Unit :=
  let jobID := trimSpace jobID
  let auditHash := trimSpace auditHash
  if jobID = "" ∨ auditHash = "" then .ret ()
  else if !isAuditHashHex auditHash then .fail .invalid
  else do
    let _ ← updateAuditHashInRun jobID auditHash 5
    .ret ()

end Cordum.Flow
