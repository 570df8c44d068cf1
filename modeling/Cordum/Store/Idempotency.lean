import Cordum.Conc.Prog
import Cordum.Model.Records
import Cordum.Text.GoString

/-!
# Idempotency keys

A client that may send a submission twice names it by an idempotency key, and the store keeps the
first job under that key. Keys are scoped by tenant in the text of the Redis key; older keys stay
where they were. Such a legacy key is taken for a tenant's own when the metadata of its job, which
expire long before the key, do not name another tenant.
-/

namespace Cordum

open Conc GoString Prog

/-! ## Keys and commands -/

/-- The key without a tenant. -/
def jobIdempotencyKey (key : String) : String := "job:idempotency:" ++ key

variable (tenant key : String) (s : IdemKeys) {jobID idKey idempotencyKey : String}

/-- The key of a tenant. -/
def jobIdempotencyKeyScoped : String :=
  let tenant := trimSpace tenant
  let key := trimSpace key
  if key = "" then ""
  else if tenant = "" then jobIdempotencyKey key
  else jobIdempotencyKey (tenant ++ ":" ++ key)

/-- The idempotency keys, and the field `tenant` of the jobs' metadata. -/
structure IdemKeys where
  keys : String → Option String := fun _ => none
  tenants : String → Option String := fun _ => none

/-- The commands on these keys. -/
inductive IdemCmd
  | get (key : String)
  | setNX (key jobID : String)
  | hgetTenant (jobID : String)
  | hsetTenant (jobID tenant : String)

/-- The replies. -/
abbrev IdemCmd.Reply : IdemCmd → Type
  | .get _ | .hgetTenant _ => Option String
  | .setNX .. => Bool
  | .hsetTenant .. => Unit

/-- What the commands do. -/
def idem : Sem IdemCmd IdemCmd.Reply IdemKeys
  | .get key, s => (s, s.keys key)
  | .setNX key jobID, s =>
    match s.keys key with
    | none => ({ s with keys := Function.update s.keys key (some jobID) }, true)
    | some _ => (s, false)
  | .hgetTenant jobID, s => (s, s.tenants jobID)
  | .hsetTenant jobID tenant, s =>
    ({ s with tenants := Function.update s.tenants jobID (some tenant) }, ())

/-- The errors of the calls; `redis.Nil` is returned bare or wrapped in a text. -/
inductive IdemErr
  | required (text : String)
  | redisNil (context : String)
  | transport (context : String)
deriving DecidableEq, Repr

/-- The programs over them. -/
abbrev IdemM := Prog IdemCmd IdemCmd.Reply IdemErr

/-! ## The calls -/

/-- The first phase of `TrySetIdempotencyKeyScoped`: the job under the legacy key. -/
def legacyMatch : IdemM (Option String) := do
  match ← Prog.exec (IdemCmd.get (jobIdempotencyKey key))
    (IdemErr.transport "job store idempotency legacy check") with
  | none => .ret none
  | some legacyID =>
    if legacyID = "" then .ret none
    else do
      let metaTenant ← Prog.exec (IdemCmd.hgetTenant legacyID)
          (IdemErr.transport "job store idempotency tenant check")
      -- no tenant in the metadata, or no metadata any more, counts as a match
      if metaTenant.getD "" = "" ∨ metaTenant.getD "" = tenant then .ret (some legacyID) else .ret none

/-- Its second phase: claim the scoped key, or return who holds it. -/
def claimScoped (idKey jobID : String) : IdemM (Bool × String) := do
  let ok ← Prog.exec (IdemCmd.setNX idKey jobID)
      (IdemErr.transport "job store try set idempotency key scoped")
  if ok then .ret (true, jobID)
  else do
    let existing ← Prog.exec (IdemCmd.get idKey)
        (IdemErr.transport "job store try set idempotency key scoped")
    .ret (false, existing.getD "")

/-- Claims the key, or returns its holder. -/
def trySetIdempotencyKeyScoped (tenant key jobID : String) : IdemM (Bool × String) :=
  if key = "" ∨ jobID = "" then .fail (.required "idempotency key and jobID required")
  else
    let tenant := trimSpace tenant
    let idKey := jobIdempotencyKeyScoped tenant key
    if idKey = "" then .fail (.required "idempotency key required")
    else if tenant = "" then claimScoped idKey jobID
    else do
      match ← legacyMatch tenant key with
      | some legacyID => .ret (false, legacyID)
      | none => claimScoped idKey jobID

/-- Sets the key. -/
def setIdempotencyKeyScoped (tenant key jobID : String) : IdemM Unit :=
  if key = "" ∨ jobID = "" then .fail (.required "idempotency key and jobID required")
  else
    let idKey := jobIdempotencyKeyScoped tenant key
    if idKey = "" then .fail (.required "idempotency key required")
    else do
      let _ ← Prog.exec (IdemCmd.setNX idKey jobID)
          (IdemErr.transport "job store set idempotency key scoped")
      .ret ()

/-- The end of `GetJobByIdempotencyKeyScoped`: a legacy key is copied to the scoped one. -/
def legacyLookup : IdemM String := do
  match ← Prog.exec (IdemCmd.get (jobIdempotencyKey key))
    (IdemErr.transport "job store get job by idempotency key scoped") with
  | none => .fail (.redisNil "job store get job by idempotency key scoped")
  | some legacyID =>
    if legacyID = "" then .fail (.redisNil "")
    else do
      let legacyTenant ← Prog.exec (IdemCmd.hgetTenant legacyID)
          (IdemErr.transport "job store get job by idempotency key scoped")
      if legacyTenant.getD "" ≠ "" ∧ legacyTenant.getD "" ≠ tenant then .fail (.redisNil "")
      else do
        let _ ← (setIdempotencyKeyScoped tenant key legacyID).attempt
        .ret legacyID

/-- The job under the key. -/
def getJobByIdempotencyKeyScoped : IdemM String :=
  if key = "" then .fail (.required "idempotency key required")
  else
    let tenant := trimSpace tenant
    if tenant = "" then do
      match ← Prog.exec (IdemCmd.get (jobIdempotencyKey key)) (IdemErr.transport "") with
      | some val => .ret val
      | none => .fail (.redisNil "")
    else
      let idKey := jobIdempotencyKeyScoped tenant key
      if idKey = "" then .fail (.required "idempotency key required")
      else do
        match ← Prog.exec (IdemCmd.get idKey)
          (IdemErr.transport "job store get job by idempotency key scoped") with
        | some val => .ret val
        | none => legacyLookup tenant key

/-- `SetJobMeta`, as far as it touches the tenant and the key, which it claims for the request's
tenant. -/
def setJobMeta (req : JobRequest) (idempotencyKey : String) : IdemM Unit :=
  if req.jobId = "" then .fail (.required "invalid job request")
  else do
    Prog.exec (IdemCmd.hsetTenant req.jobId (metaTenantOf req))
      (IdemErr.transport "job store set job meta")
    if idempotencyKey ≠ "" then do
      let _ ← (setIdempotencyKeyScoped (extractTenant req) idempotencyKey req.jobId).attempt
      .ret ()
    else .ret ()

/-! ## What the calls read and write -/

/-- The keys a call for `tenant` and `key` can look at: its own, and the legacy one. -/
def LooksAt (tenant key redisKey : String) : Prop :=
  (redisKey = jobIdempotencyKeyScoped tenant key ∧ redisKey ≠ "") ∨
    (redisKey = jobIdempotencyKey key ∧ key ≠ "" ∧
      (trimSpace tenant = "" ∨ jobIdempotencyKeyScoped tenant key ≠ ""))

instance (tenant key redisKey : String) : Decidable (LooksAt tenant key redisKey) :=
  inferInstanceAs (Decidable ((_ ∧ _) ∨ _))

/-- The keys stayed, or `jobID` took the free key `redisKey`. -/
def IdemKeys.Took (s s' : IdemKeys) (redisKey jobID : String) : Prop :=
  s'.keys = s.keys ∨
    (redisKey ≠ "" ∧ s.keys redisKey = none ∧ s'.keys = Function.update s.keys redisKey (some jobID))

theorem scoped_trimSpace :
    jobIdempotencyKeyScoped (trimSpace tenant) key = jobIdempotencyKeyScoped tenant key := by
  simp only [jobIdempotencyKeyScoped, trimSpace_trimSpace]

theorem key_ne_empty_of_scoped {tenant key : String} (h : jobIdempotencyKeyScoped tenant key ≠ "") :
    key ≠ "" := by
  rintro rfl
  exact h (by simp [jobIdempotencyKeyScoped])

theorem wp_read_key {α : Type} {key : String} {e : IdemErr} {f : Option String → IdemM α}
    {Q : Except IdemErr α → IdemKeys → Prop} {s : IdemKeys} :
    (Prog.exec (IdemCmd.get key) e >>= f : IdemM α).wp idem Q s ↔
      Q (.error e) s ∧ (f (s.keys key)).wp idem Q s := by
  rw [wp_exec_bind]
  exact ⟨fun h => h.2, fun h => ⟨h.1, h⟩⟩

theorem wp_read_tenant {α : Type} {e : IdemErr} {f : Option String → IdemM α}
    {Q : Except IdemErr α → IdemKeys → Prop} {s : IdemKeys} :
    (Prog.exec (IdemCmd.hgetTenant jobID) e >>= f : IdemM α).wp idem Q s ↔
      Q (.error e) s ∧ (f (s.tenants jobID)).wp idem Q s := by
  rw [wp_exec_bind]
  exact ⟨fun h => h.2, fun h => ⟨h.1, h⟩⟩

theorem setNX_cases {key : String} {s : IdemKeys} :
    (s.keys key = none ∧
        idem (.setNX key jobID) s = ({ s with keys := Function.update s.keys key (some jobID) }, true)) ∨
      (∃ holder, s.keys key = some holder ∧ idem (.setNX key jobID) s = (s, false)) := by
  cases h : s.keys key with
  | none => exact .inl ⟨rfl, by simp only [idem, h]⟩
  | some holder => exact .inr ⟨holder, rfl, by simp only [idem, h]⟩

theorem wp_claimScoped (hkey : idKey ≠ "") {s : IdemKeys} : (claimScoped idKey jobID).wp idem
      (fun r s' => s.Took s' idKey jobID ∧ ∀ j, r = .ok (false, j) → s.keys idKey = some j) s := by
  rw [claimScoped, wp_exec_bind]
  obtain ⟨hfr, hto⟩ | ⟨holder, hhd, hsm⟩ := setNX_cases
  · rw [hto]
    have took : s.Took { s with keys := Function.update s.keys idKey (some jobID) } idKey jobID :=
      .inr ⟨hkey, hfr, rfl⟩
    exact ⟨⟨.inl rfl, nofun⟩, ⟨took, nofun⟩, took, nofun⟩
  rw [hsm]
  refine ⟨⟨.inl rfl, nofun⟩, ⟨.inl rfl, nofun⟩, ?_⟩
  rw [if_neg Bool.false_ne_true, wp_read_key]
  refine ⟨⟨.inl rfl, nofun⟩, .inl rfl, ?_⟩
  intro j hj
  -- the holder cannot have gone between the two commands of one call
  have : (s.keys idKey).getD "" = j := by injection hj with hj; injection hj
  rw [hhd] at this ⊢
  exact congrArg some this

theorem wp_legacyMatch : (legacyMatch tenant key).wp idem
      (fun r s' => s' = s ∧ ∀ j, r = .ok (some j) → s.keys (jobIdempotencyKey key) = some j) s := by
  rw [legacyMatch, wp_read_key]
  refine ⟨⟨rfl, nofun⟩, ?_⟩
  split
  · exact ⟨rfl, nofun⟩
  rename_i legacyID hleg
  split
  · exact ⟨rfl, nofun⟩
  rw [wp_read_tenant]
  refine ⟨⟨rfl, nofun⟩, ?_⟩
  split
  · refine ⟨rfl, ?_⟩
    rintro j ⟨⟩
    exact hleg
  · exact ⟨rfl, nofun⟩

/-- `TrySetIdempotencyKeyScoped` takes its own key or none, and reports a holder it looked at. -/
theorem wp_trySet {tenant key : String} {s : IdemKeys} :
    (trySetIdempotencyKeyScoped tenant key jobID).wp idem
      (fun r s' => s.Took s' (jobIdempotencyKeyScoped tenant key) jobID ∧
        ∀ j, r = .ok (false, j) → ∃ redisKey, LooksAt tenant key redisKey ∧
        s.keys redisKey = some j) s := by
  rw [trySetIdempotencyKeyScoped]
  simp only [scoped_trimSpace]
  split
  · exact ⟨.inl rfl, nofun⟩
  split
  · exact ⟨.inl rfl, nofun⟩
  rename_i hkey
  have own : (claimScoped (jobIdempotencyKeyScoped tenant key) jobID).wp idem
      (fun r s' => s.Took s' (jobIdempotencyKeyScoped tenant key) jobID ∧
        ∀ j, r = .ok (false, j) → ∃ redisKey, LooksAt tenant key redisKey ∧
        s.keys redisKey = some j) s := by
    refine wp_mono ?_ (wp_claimScoped hkey)
    rintro r s' ⟨hto, hhd⟩
    exact ⟨hto, fun j hj => ⟨_, .inl ⟨rfl, hkey⟩, hhd j hj⟩⟩
  split
  · exact own
  rw [bind_eq, wp_bind]
  refine wp_mono ?_ (wp_legacyMatch (trimSpace tenant) key s)
  rintro r s' ⟨rfl, hleg⟩
  cases r with
  | error e => exact ⟨.inl rfl, nofun⟩
  | ok found =>
    cases found with
    | none => exact own
    | some legacyID =>
      refine ⟨.inl rfl, ?_⟩
      intro j hj
      have hjob : legacyID = j := by injection hj with hj; injection hj
      exact ⟨_, .inr ⟨rfl, key_ne_empty_of_scoped hkey, .inr hkey⟩, hjob ▸ hleg legacyID rfl⟩

theorem wp_set {tenant key : String} {s : IdemKeys} : (setIdempotencyKeyScoped tenant key jobID).wp idem
      (fun _ s' => s.Took s' (jobIdempotencyKeyScoped tenant key) jobID) s := by
  rw [setIdempotencyKeyScoped]
  split
  · exact .inl rfl
  dsimp only
  split
  · exact .inl rfl
  rename_i hkey
  rw [wp_exec_bind]
  obtain ⟨hfr, hto⟩ | ⟨holder, hhd, hsm⟩ := setNX_cases
  · rw [hto]
    exact ⟨.inl rfl, .inr ⟨hkey, hfr, rfl⟩, .inr ⟨hkey, hfr, rfl⟩⟩
  · rw [hsm]
    exact ⟨.inl rfl, .inl rfl, .inl rfl⟩

/-- The legacy lookup copies the job it returns, unless the key is taken. -/
theorem wp_legacyLookup : (legacyLookup tenant key).wp idem (fun r s' =>
        (s'.keys = s.keys ∨ ∃ legacyID, s.keys (jobIdempotencyKey key) = some legacyID ∧
          s.Took s' (jobIdempotencyKeyScoped tenant key) legacyID) ∧
        ∀ j, r = .ok j → s.keys (jobIdempotencyKey key) = some j) s := by
  rw [legacyLookup, wp_read_key]
  refine ⟨⟨.inl rfl, nofun⟩, ?_⟩
  split
  · exact ⟨.inl rfl, nofun⟩
  rename_i legacyID hleg
  split
  · exact ⟨.inl rfl, nofun⟩
  rw [wp_read_tenant]
  refine ⟨⟨.inl rfl, nofun⟩, ?_⟩
  split
  · exact ⟨.inl rfl, nofun⟩
  rw [bind_eq, wp_bind, wp_attempt]
  refine wp_mono ?_ wp_set
  intro r s' hto
  refine ⟨.inr ⟨legacyID, hleg, hto⟩, ?_⟩
  rintro j ⟨⟩
  exact hleg

theorem wp_get : (getJobByIdempotencyKeyScoped tenant key).wp idem (fun r s' =>
        (s'.keys = s.keys ∨ tenant ≠ "" ∧ ∃ legacyID, s.keys (jobIdempotencyKey key) = some legacyID ∧
          s.Took s' (jobIdempotencyKeyScoped tenant key) legacyID) ∧
        ∀ j, r = .ok j → ∃ redisKey, LooksAt tenant key redisKey ∧ s.keys redisKey = some j) s := by
  rw [getJobByIdempotencyKeyScoped]
  simp only [scoped_trimSpace]
  split
  · exact ⟨.inl rfl, nofun⟩
  rename_i hne
  split
  · rename_i hbl
    rw [wp_read_key]
    refine ⟨⟨.inl rfl, nofun⟩, ?_⟩
    split
    · rename_i val hval
      refine ⟨.inl rfl, ?_⟩
      rintro j ⟨⟩
      exact ⟨_, .inr ⟨rfl, hne, .inl hbl⟩, hval⟩
    · exact ⟨.inl rfl, nofun⟩
  rename_i hsco
  have hten : tenant ≠ "" := by
    rintro rfl
    exact hsco trimSpace_empty
  split
  · exact ⟨.inl rfl, nofun⟩
  rename_i hkey
  rw [wp_read_key]
  refine ⟨⟨.inl rfl, nofun⟩, ?_⟩
  split
  · rename_i val hval
    refine ⟨.inl rfl, ?_⟩
    rintro j ⟨⟩
    rw [scoped_trimSpace] at hval
    exact ⟨_, .inl ⟨rfl, hkey⟩, hval⟩
  · refine wp_mono ?_ (wp_legacyLookup (trimSpace tenant) key s)
    rintro r s' ⟨hwro, hrd⟩
    rw [scoped_trimSpace] at hwro
    exact ⟨hwro.imp id fun hcop => ⟨hten, hcop⟩, fun j hj => ⟨_, .inr ⟨rfl, hne, .inr hkey⟩, hrd j hj⟩⟩

theorem wp_setJobMeta {req : JobRequest} {s : IdemKeys} :
    (setJobMeta req idempotencyKey).wp idem (fun _ s' =>
      s.Took s' (jobIdempotencyKeyScoped (extractTenant req) idempotencyKey) req.jobId) s := by
  rw [setJobMeta]
  split
  · exact .inl rfl
  rw [wp_exec_bind]
  refine ⟨.inl rfl, .inl rfl, ?_⟩
  split
  · rw [bind_eq, wp_bind, wp_attempt]
    refine wp_mono ?_ wp_set
    exact fun _ _ hto => hto
  · exact .inl rfl

/-! ## Sequences of calls -/

/-- The calls on idempotency keys, and what happens besides: metadata and keys expire or are written
by others. -/
inductive IdemCall
  | trySet (tenant key jobID : String)
  | set (tenant key jobID : String)
  | get (tenant key : String)
  | setJobMeta (req : JobRequest) (idempotencyKey : String)
  | metaChanged (jobID : String) (tenant : Option String)
  | keyExpired (redisKey : String)

namespace IdemCall

/-- The tenant and the key a call is made for. -/
def use : IdemCall → Option (String × String)
  | trySet tenant key _ | set tenant key _ | get tenant key => some (tenant, key)
  | setJobMeta req idempotencyKey => some (extractTenant req, idempotencyKey)
  | metaChanged .. | keyExpired _ => none

/-- The job a call claims its key for. -/
def claims : IdemCall → Option String
  | trySet _ _ jobID | set _ _ jobID => some jobID
  | setJobMeta req _ => some req.jobId
  | get .. | metaChanged .. | keyExpired _ => none

/-- The keys after a call whose commands met the faults `fs`. -/
def after (fs : List Fault) (s : IdemKeys) : IdemCall → IdemKeys
  | trySet tenant key jobID => ((trySetIdempotencyKeyScoped tenant key jobID).run idem fs s).st
  | set tenant key jobID => ((setIdempotencyKeyScoped tenant key jobID).run idem fs s).st
  | get tenant key => ((getJobByIdempotencyKeyScoped tenant key).run idem fs s).st
  | setJobMeta req idempotencyKey => ((Cordum.setJobMeta req idempotencyKey).run idem fs s).st
  | metaChanged jobID tenant => { s with tenants := Function.update s.tenants jobID tenant }
  | keyExpired redisKey => { s with keys := Function.update s.keys redisKey none }

/-- The job a call returns: one it found, not one it claims itself. -/
def returned (fs : List Fault) (s : IdemKeys) : IdemCall → Option String
  | trySet tenant key jobID =>
    match ((trySetIdempotencyKeyScoped tenant key jobID).run idem fs s).ans with
    | .ok (false, existing) => some existing
    | _ => none
  | get tenant key =>
    match ((getJobByIdempotencyKeyScoped tenant key).run idem fs s).ans with
    | .ok jobID => some jobID
    | .error _ => none
  | set .. | setJobMeta .. | metaChanged .. | keyExpired _ => none

/-- The job that holds the key a call wants to claim. -/
def blockedBy (c : IdemCall) : Option String :=
  match c.use, c.claims with
  | some (tenant, key), some jobID =>
    if jobIdempotencyKeyScoped tenant key = "" ∨ jobID = "" then none
      else s.keys (jobIdempotencyKeyScoped tenant key)
  | _, _ => none

/-- The tenant and the job of a claim that was stored. -/
def stored (fs : List Fault) (s : IdemKeys) (c : IdemCall) : Option (String × String) :=
  match c.use, c.claims with
  | some (tenant, key), some jobID =>
    let idKey := jobIdempotencyKeyScoped tenant key
    if s.keys idKey = none ∧ (c.after fs s).keys idKey = some jobID then some (tenant, jobID) else none
  | _, _ => none

end IdemCall

/-- The keys, and which job was claimed under which tenant so far. -/
structure IdemHistory where
  now : IdemKeys := {}
  claimed : List (String × String) := []

/-- One more call. -/
def IdemHistory.step (h : IdemHistory) (c : IdemCall × List Fault) : IdemHistory :=
  ⟨c.1.after c.2 h.now, h.claimed ++ (c.1.stored c.2 h.now).toList⟩

/-- A sequence of calls, from a store without idempotency keys. -/
def idemHistory (tenants : String → Option String) (calls : List (IdemCall × List Fault)) : IdemHistory :=
  calls.foldl IdemHistory.step { now := { tenants := tenants } }

end Cordum
