import Cordum.Conc.Watch
import Cordum.Store.Ops

/-!
# `ResolveApproval` under `WATCH`

Elsewhere a block under `WATCH` is one command. Here the one of `ResolveApproval` is taken apart:
it watches the meta hash, the state key and the request, reads them one after the other, and
sends its pipeline, which Redis runs only if none of the three was written since.
-/

namespace Cordum

open Conc GoString KeyCmd Prod

/-! ## Keys, versions and the event log -/

/-- The keys `ResolveApproval` watches. -/
inductive WatchKey
  | jobMeta
  | stateKey
  | request
deriving DecidableEq, Repr

/-- How often each was written. -/
abbrev Versions := WatchKey → ℕ

/-- The keys of a job for a watching client; `job:events:<id>` is the log. -/
structure WatchedKeys where
  keys : JobKeys := {}
  events : List (ℤ × JobState) := []
  versions : Versions := fun _ => 0

/-- Count up the keys that were written. -/
def Versions.bump (v : Versions) (written : WatchKey → Bool) : Versions :=
  fun key => if written key then v key + 1 else v key

/-- The state a transaction of another call commits, and when. -/
def KeyCmd.commits (cfg : StoreConfig) (k : JobKeys) : KeyCmd → Option (ℤ × JobState)
  | .setState target now => if isAllowedTransition k.jobMeta.state target then some (now, target) else none
  | .cancelJob now =>
    match k.storedState with
    | none => none
    | some current => if terminalStates current then none else some (now, .cancelled)
  | .resolveApproval p now =>
    match (resolveApprovalTx cfg.hasher p now k).2 with
    | .ok s => some (now, s)
    | .error _ => none
  | .applyApprovalRepair p now =>
    match (applyApprovalRepairTx cfg.jobID p now k).2 with
    | .ok s => if p.plan.kind = .replayPendingPublish then none else some (now, s)
    | .error _ => none
  | _ => none

/-- The watched keys a command writes. -/
def KeyCmd.writes (cfg : StoreConfig) (k : JobKeys) (c : KeyCmd) : WatchKey → Bool :=
  match c with
  | .setState .. | .cancelJob .. => fun key => (c.commits cfg k).isSome && key ≠ .request
  | .resolveApproval .. => fun _ => (c.commits cfg k).isSome
  | .applyApprovalRepair .. => fun key => (c.commits cfg k).isSome && (key ≠ .request || k.request.isSome)
  | .setSafetyDecision .. | .setJobMeta .. | .setResultPtr .. | .setWorkerID .. | .setFailureReason ..
  | .setDeadline .. | .setDelegationLineage .. | .clearDelegationToken | .incrAttempts
  | .projectMeta .. | .hdelDeadline =>
    fun key => key = .jobMeta
  | .setJobRequest .. => fun key => key = .request
  | .setStateKey .. => fun key => key = .stateKey
  | .hgetAllMeta | .hgetMetaState | .getStateKey | .getJobRequest | .setResultPtrKey ..
  | .zremIndex .. | .zaddIndex .. | .trackActive .. | .zremDeadline => fun _ => false

/-! ## The call -/

/-- What a resolution decided on: its parameters and what it read. -/
structure Resolution where
  params : ApprovalResolutionParams
  now : ℤ
  jobMeta : Meta
  current : JobState
  record : ApprovalRecord
  request : JobRequest

/-- Keep the active set of the tenant that was read. -/
def JobKeys.trackTenant (k : JobKeys) (tenant : Option String) (s : JobState) : JobKeys :=
  match tenant with
  | none => k
  | some tenant =>
    if tenant = "" then k
    else if isActiveState s then { k with active := insert tenant k.active }
    else { k with active := k.active.erase tenant }

/-- The pipeline of `ResolveApproval`. -/
def Resolution.write (r : Resolution) (k : JobKeys) : JobKeys :=
  let target := r.params.resultState
  let resolved := resolvedRecord r.params r.record r.jobMeta.safetyRecord r.now
  let approval := { resolved with
    publishStatus := resolved.publishStatus <|> k.jobMeta.approval.publishStatus
    publishTarget := resolved.publishTarget <|> k.jobMeta.approval.publishTarget
    publishedAt := k.jobMeta.approval.publishedAt }
  let safety :=
    if r.params.decision = .approve ∧ trimSpace resolved.policySnapshot ≠ "" then
      { k.jobMeta.safety with snapshot := resolved.policySnapshot }
    else k.jobMeta.safety
  (((({ k with
      jobMeta := { k.jobMeta with
        approval := approval, safety := safety, attempts := r.jobMeta.attempts, state :=
          some target, updatedAt := r.now }
      request := some { r.request with labels := applyLabelUpdates r.params.labelUpdates r.request.labels }
      stateKey := some target }.zremIndex (some r.current)).zaddIndex target r.now).trackTenant
        r.jobMeta.tenant target)
    |>.closeDeadline target)

/-- The commands of a watching client, and those of others. -/
inductive WatchCmd
  | watch
  | hgetAllMeta
  | getStateKey
  | getRequest
  | exec (seen : Versions) (r : Resolution)
  | key (c : KeyCmd)

/-- The commands that write nothing. -/
def WatchCmd.isRead : WatchCmd → Bool
  | watch | hgetAllMeta | getStateKey | getRequest => true
  | exec .. | key _ => false

/-- The replies. -/
abbrev WatchCmd.Reply : WatchCmd → Type
  | watch => Versions
  | hgetAllMeta => Meta
  | getStateKey => Option JobState
  | getRequest => Option JobRequest
  | exec .. => Bool
  | key c => c.Reply

/-- Redis, with its watches. -/
def watched (cfg : StoreConfig) : Sem WatchCmd WatchCmd.Reply WatchedKeys
  | .watch, s => (s, s.versions)
  | .hgetAllMeta, s => (s, s.keys.jobMeta)
  | .getStateKey, s => (s, s.keys.stateKey)
  | .getRequest, s => (s, s.keys.request)
  | .exec seen r, s =>
    if seen .jobMeta = s.versions .jobMeta ∧ seen .stateKey = s.versions .stateKey ∧
      seen .request = s.versions .request then
      ({ keys := r.write s.keys
         events := s.events ++ [(r.now, r.params.resultState)]
         versions := s.versions.bump fun _ => true }, true)
    else (s, false)
  | .key c, s =>
    ({ keys := (keyStep cfg c s.keys).1
       events := s.events ++ (c.commits cfg s.keys).toList
       versions := s.versions.bump (c.writes cfg s.keys) }, (keyStep cfg c s.keys).2)

variable {cfg : StoreConfig} {c : KeyCmd} {h : Hasher} {k : JobKeys}

theorem watched_read {c : WatchCmd} (h : c.isRead) {s : WatchedKeys} : (watched cfg c s).1 = s := by
  cases c with
  | watch | hgetAllMeta | getStateKey | getRequest => rfl
  | exec | key => cases h

/-- The programs over them. -/
abbrev WatchM := Prog WatchCmd WatchCmd.Reply StoreErr

/-- A command whose failure ends the call. -/
def watchCmd (c : WatchCmd) (during : String) : WatchM c.Reply := Prog.exec c (.redis during)

/-- The result of a check. -/
def checked {α : Type} : Except StoreErr α → WatchM α
  | .ok a => .ret a
  | .error e => .fail e

/-- The state of the job: the meta hash's, else the state key's. -/
def readCurrent (m : Meta) : WatchM JobState :=
  match m.state with
  | some s => .ret s
  | none => do
    match ← watchCmd .getStateKey "job store resolve approval state" with
    | some s => .ret s
    | none => .fail (.notFound "job store resolve approval")

/-- The checks before the request is read. -/
def resolvable (m : Meta) (current : JobState) : Except StoreErr ApprovalRecord :=
  let record := normalizeApprovalRecord (some current) m.safetyRecord m.approval
  if current ≠ .approval then .error (notAwaitingConflict record.status)
  else if record.actionability ≠ none ∧ record.actionability ≠ some .actionable then
    .error (notActionableConflict record.status)
  else .ok record

/-- The check on the request: to approve, it must hash to what was checked. -/
def requestMatches (h : Hasher) (p : ApprovalResolutionParams) (m : Meta)
    (req : JobRequest) : Except StoreErr Unit :=
  if p.decision = .approve then
    match h.hash req with
    | none => .error (.invalid "hash approval request")
    | some hash =>
      if m.safetyRecord.jobHash = "" ∨ hash ≠ m.safetyRecord.jobHash then
        .error (.approvalConflict .staleRequest "job request changed; approval no longer valid")
      else .ok ()
  else .ok ()

/-- `ResolveApproval`. -/
def resolveApprovalWatch (h : Hasher) (jobID : String) (p : ApprovalResolutionParams)
    (now : ℤ) : WatchM JobState :=
  if trimSpace jobID = "" then .fail (.invalid "jobID required")
  else do
    let seen ← watchCmd .watch "job store resolve approval"
    let m ← watchCmd .hgetAllMeta "job store resolve approval"
    let current ← readCurrent m
    let record ← checked (resolvable m current)
    match ← watchCmd .getRequest "job store resolve approval request" with
    | none => .fail (.invalid "job request not found")
    | some req => do
      checked (requestMatches h p m req)
      if ← watchCmd (.exec seen ⟨p, now, m, current, record, req⟩) "job store resolve approval exec" then
        .ret p.resultState
      else .fail (.approvalConflict .retryableLock "concurrent approval conflict; retry")

/-! ## What the parts make together -/

theorem resolveApprovalChecks_of_parts {p : ApprovalResolutionParams} {current : JobState}
    {record : ApprovalRecord} {req : JobRequest} (hs : k.storedState = some current)
    (hr : resolvable k.jobMeta current = .ok record) (hq : k.request = some req)
    (hm : requestMatches h p k.jobMeta req = .ok ()) :
    resolveApprovalChecks h p k = .ok (current, record, req) := by
  unfold resolvable at hr
  dsimp only at hr
  split_ifs at hr with hwt hact
  cases hr
  simp only [resolveApprovalChecks, hs, hq]
  unfold requestMatches at hm
  split_ifs at hm ⊢ with happ
  · cases hhs : h.hash req with
    | none => rw [hhs] at hm; cases hm
    | some hash =>
      rw [hhs] at hm
      dsimp only at hm ⊢
      split_ifs at hm ⊢ with hsta
      rfl
  · rfl

theorem Resolution.write_eq {r : Resolution} (hm : r.jobMeta = k.jobMeta)
    (hc : resolveApprovalChecks h r.params k = .ok (r.current, r.record, r.request)) :
    resolveApprovalTx h r.params r.now k = (r.write k, .ok r.params.resultState) := by
  obtain ⟨p, now, m, current, record, req⟩ := r
  subst hm
  rw [resolveApprovalTx, hc]
  rfl

/-- The value of a watched key. -/
def WatchKey.Value : WatchKey → Type
  | jobMeta => Meta
  | stateKey => Option JobState
  | request => Option JobRequest

/-- The value of a watched key. -/
def JobKeys.value (k : JobKeys) : (key : WatchKey) → key.Value
  | .jobMeta => k.jobMeta
  | .stateKey => k.stateKey
  | .request => k.request

theorem keyStep_of_commits_none (h : c.commits cfg k = none) :
    (∃ target now, c = .setState target now) ∨ (∃ now, c = .cancelJob now) ∨
      (∃ p now, c = .resolveApproval p now) ∨
      (∃ p now, c = .applyApprovalRepair p now) → (keyStep cfg c k).1 = k := by
  rintro (⟨target, now, rfl⟩ | ⟨now, rfl⟩ | ⟨p, now, rfl⟩ | ⟨p, now, rfl⟩)
  · rcases setStateTx_cases target now k with ⟨-, h'⟩ | ⟨hall, -⟩
    · exact congrArg fst h'
    · rw [commits, if_pos hall] at h
      cases h
  · simp only [commits] at h
    simp only [keyStep, cancelJobTx]
    cases hs : k.storedState with
    | none => rfl
    | some current =>
      rw [hs] at h
      dsimp only at h ⊢
      split_ifs at h ⊢
      rfl
  · rcases resolveApprovalTx_cases cfg.hasher p now k with ⟨e, h'⟩ | ⟨_, _, _, _, _, -, -, -, -, h'⟩
    · exact congrArg fst h'
    · rw [commits, h'] at h
      cases h
  · rcases applyApprovalRepairTx_cases cfg.jobID p now k with
      ⟨e, h'⟩ | ⟨-, _, -, h'⟩ | ⟨_, _, _, -, hk, -, -, -, h'⟩
    · exact congrArg fst h'
    · exact congrArg fst h'
    · rw [commits, h'] at h
      dsimp only at h
      rw [if_neg hk] at h
      cases h

theorem keyStep_value {key : WatchKey} (h : c.writes cfg k key = false) :
    (keyStep cfg c k).1.value key = k.value key := by
  cases c with
  | setState target now =>
    cases hc : (KeyCmd.setState target now).commits cfg k with
    | none => rw [keyStep_of_commits_none hc (.inl ⟨target, now, rfl⟩)]
    | some x =>
      obtain rfl : key = .request := by simpa [writes, hc] using h
      change (setStateTx target now k).1.request = k.request
      rcases setStateTx_cases target now k with ⟨-, h'⟩ | ⟨-, n, h'⟩ <;> simp [h']
  | cancelJob now =>
    cases hc : (KeyCmd.cancelJob now).commits cfg k with
    | none => rw [keyStep_of_commits_none hc (.inr (.inl ⟨now, rfl⟩))]
    | some x =>
      obtain rfl : key = .request := by simpa [writes, hc] using h
      simp only [keyStep, cancelJobTx]
      split
      · rfl
      · split
        · rfl
        · exact JobKeys.commitState_request ..
  | resolveApproval p now =>
    have hc : (KeyCmd.resolveApproval p now).commits cfg k = none := by simpa [KeyCmd.writes] using h
    rw [keyStep_of_commits_none hc (.inr (.inr (.inl ⟨p, now, rfl⟩)))]
  | applyApprovalRepair p now =>
    cases hc : (KeyCmd.applyApprovalRepair p now).commits cfg k with
    | none => rw [keyStep_of_commits_none hc (.inr (.inr (.inr ⟨p, now, rfl⟩)))]
    | some x =>
      -- a repair stores a request back only where there is one
      obtain ⟨rfl, hreq⟩ : key = .request ∧ k.request = none := by simpa [writes, hc] using h
      change (applyApprovalRepairTx cfg.jobID p now k).1.request = k.request
      rcases applyApprovalRepairTx_cases cfg.jobID p now k with
        ⟨_, h'⟩ | ⟨-, _, -, h'⟩ | ⟨_, _, _, -, -, -, -, -, h'⟩ <;> simp [h', hreq]
  | setSafetyDecision | setJobMeta | setResultPtr | setWorkerID | setFailureReason | setDeadline
  | setDelegationLineage | clearDelegationToken | incrAttempts | projectMeta | hdelDeadline =>
    cases key with
    | jobMeta => cases h
    | stateKey | request => rfl
  | setJobRequest req =>
    cases key with
    | request => cases h
    | jobMeta | stateKey => rfl
  | setStateKey st =>
    cases key with
    | stateKey => cases h
    | jobMeta | request => rfl
  | hgetAllMeta | hgetMetaState | getStateKey | getJobRequest | setResultPtrKey | zremIndex | zaddIndex
  | trackActive | zremDeadline => cases key <;> rfl

/-- **No command writes a watched key unseen.** -/
theorem watched_versioned :
    Versioned (watched cfg) (fun key s => s.versions key) (fun key s => s.keys.value key) where
  mono c s key := by
    cases c with
    | watch | hgetAllMeta | getStateKey | getRequest => exact Nat.le_refl _
    | exec seen r =>
      dsimp only [watched]
      split_ifs
      · exact Nat.le_succ _
      · exact Nat.le_refl _
    | key c =>
      dsimp only [watched, Versions.bump]
      split_ifs <;> omega
  unchanged c s key hv := by
    cases c with
    | watch | hgetAllMeta | getStateKey | getRequest => rfl
    | exec seen r =>
      dsimp only [watched] at hv ⊢
      split_ifs at hv ⊢ with hsn
      · -- a commit counts every watched key up
        simp [Versions.bump] at hv
      · rfl
    | key c =>
      refine keyStep_value ?_
      dsimp only [watched, Versions.bump] at hv
      by_contra hw
      rw [if_pos (by simpa using hw)] at hv
      omega

end Cordum
