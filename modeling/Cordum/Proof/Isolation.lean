import Cordum.Store.Idempotency

/-!
# Tenants and idempotency keys

Two tenants are kept apart by the text of the Redis key alone, and that text is not injective: the
tenant and the key are joined by a colon both may contain, and the legacy keys live under the same
name. When the key one tenant writes is among those the other looks at, a call can be made to meet
the other's job; otherwise no sequence of calls, failures and expiries gets there.

* `tenants_isolated_iff`: tenants are isolated exactly when nothing in use collides.
-/

namespace Cordum

open Conc GoString Prog Function IdemCall

variable {c : IdemCall} {s s' : IdemKeys} {used : Set (String × String)}
  {A j jobID key tenant redisKey : String} {fs : List Fault} {h : IdemHistory}

/-- `jobID` was claimed under `tenant` and under no other. -/
def OnlyUnder (claimed : List (String × String)) (tenant jobID : String) : Prop :=
  (tenant, jobID) ∈ claimed ∧ ∀ t, (t, jobID) ∈ claimed → t = tenant

/-- A call returns `jobID`, or finds its key held by it. -/
def IdemCall.Meets (fs : List Fault) (s : IdemKeys) (c : IdemCall) (jobID : String) : Prop :=
  c.returned fs s = some jobID ∨ c.blockedBy s = some jobID

/-- Calls are made only for the tenants and keys in `used`. -/
def IdemCall.Within (used : Set (String × String)) (c : IdemCall) : Prop := ∀ u, c.use = some u → u ∈ used

/-- Whatever calls are made for `used`, none meets a job only claimed under another tenant. -/
def Isolated (used : Set (String × String)) : Prop :=
  ∀ tenants (calls : List (IdemCall × List Fault)), (∀ c ∈ calls, c.1.Within used) →
    ∀ (c : IdemCall) (fs : List Fault), c.Within used → ∀ t₁ t₂ key jobID, t₁ ≠ "" → t₂ ≠ "" → t₁ ≠ t₂ →
    c.use = some (t₂, key) →
      c.Meets fs (idemHistory tenants calls).now jobID →
      ¬ OnlyUnder (idemHistory tenants calls).claimed t₁ jobID

/-- No tenant writes a key that a call for another looks at. -/
def NoCollision (used : Set (String × String)) : Prop :=
  ∀ t₁ k₁ t₂ k₂, (t₁, k₁) ∈ used → (t₂, k₂) ∈ used → t₁ ≠ "" → t₂ ≠ "" → t₁ ≠ t₂ →
    jobIdempotencyKeyScoped t₁ k₁ ≠ "" → ¬ LooksAt t₂ k₂ (jobIdempotencyKeyScoped t₁ k₁)

/-! ## What one call does -/

theorem IdemKeys.Took.cases (h : s.Took s' redisKey jobID) (hA : s'.keys A = some j) :
    s.keys A = some j ∨ (A = redisKey ∧ j = jobID ∧ redisKey ≠ "" ∧ s.keys redisKey = none) := by
  obtain hsm | ⟨hne, hfr, hput⟩ := h
  · exact .inl (hsm ▸ hA)
  rw [hput] at hA
  by_cases hkey : A = redisKey
  · subst hkey
    rw [update_self] at hA
    exact .inr ⟨rfl, (Option.some.inj hA).symm, hne, hfr⟩
  · rw [update_of_ne hkey] at hA
    exact .inl hA

theorem IdemCall.took_of_claims (fs : List Fault) (s : IdemKeys) (hjob : c.claims = some jobID)
    (huse : c.use = some (tenant, key)) :
    s.Took (c.after fs s) (jobIdempotencyKeyScoped tenant key) jobID := by
  cases c with
  | trySet t k j =>
    cases hjob; cases huse
    exact (wp_run wp_trySet fs).1
  | set t k j =>
    cases hjob; cases huse
    exact wp_run wp_set fs
  | setJobMeta req k =>
    cases hjob; cases huse
    exact wp_run wp_setJobMeta fs
  | get t k | metaChanged j t | keyExpired k => cases hjob

/-- A job under a key was there before, was claimed by the call, or was copied from the legacy key. -/
theorem IdemCall.after_cases (hA : (c.after fs s).keys A = some j) : s.keys A = some j ∨
      ∃ tenant key, c.use = some (tenant, key) ∧ A = jobIdempotencyKeyScoped tenant key ∧ A ≠ "" ∧
        (c.stored fs s = some (tenant, j) ∨ tenant ≠ "" ∧ s.keys (jobIdempotencyKey key) = some j) := by
  have claiming : ∀ tenant key jobID, c.use = some (tenant, key) →
      c.claims = some jobID → s.keys A = some j ∨
      ∃ tenant key, c.use = some (tenant, key) ∧ A = jobIdempotencyKeyScoped tenant key ∧ A ≠ "" ∧
        (c.stored fs s = some (tenant, j) ∨ tenant ≠ "" ∧ s.keys (jobIdempotencyKey key) = some j) := by
    intro tenant key jobID huse hjob
    obtain hold | ⟨hkey, hj, hne, hfr⟩ := (c.took_of_claims fs s hjob huse).cases hA
    · exact .inl hold
    · subst hkey hj
      refine .inr ⟨tenant, key, huse, rfl, hne, .inl ?_⟩
      simp [stored, huse, hjob, hfr, hA]
  cases c with
  | trySet tenant key jobID | set tenant key jobID => exact claiming tenant key jobID rfl rfl
  | setJobMeta req key => exact claiming (extractTenant req) key req.jobId rfl rfl
  | get tenant key =>
    obtain ⟨hwro, -⟩ := wp_run (wp_get tenant key s) fs
    obtain hsm | ⟨hten, legacyID, hleg, hto⟩ := hwro
    · exact .inl (hsm ▸ hA)
    obtain hold | ⟨hkey, hj, hne, -⟩ := hto.cases hA
    · exact .inl hold
    · subst hkey hj
      exact .inr ⟨tenant, key, rfl, rfl, hne, .inr ⟨hten, hleg⟩⟩
  | metaChanged jobID tenant => exact .inl hA
  | keyExpired redisKey =>
    by_cases hkey : A = redisKey
    · subst hkey
      exact absurd hA (by simp [after])
    · exact .inl (by simpa [after, update_of_ne hkey] using hA)

theorem IdemCall.looked_of_blocked (huse : c.use = some (tenant, key)) (hblo : c.blockedBy s = some j) :
    ∃ redisKey, LooksAt tenant key redisKey ∧ s.keys redisKey = some j := by
  rw [blockedBy, huse] at hblo
  split at hblo
  · rename_i heq _
    cases heq
    split at hblo
    · cases hblo
    · rename_i hval
      exact ⟨_, .inl ⟨rfl, fun h => hval (.inl h)⟩, hblo⟩
  · cases hblo

theorem IdemCall.looked_of_meets (huse : c.use = some (tenant, key)) (hmts : c.Meets fs s j) :
    ∃ redisKey, LooksAt tenant key redisKey ∧ s.keys redisKey = some j := by
  obtain hret | hblo := hmts
  · cases c with
    | trySet t k jobID =>
      cases huse
      obtain ⟨-, hhd⟩ := wp_run wp_trySet fs
      rw [returned] at hret
      split at hret
      · rename_i existing heq
        cases hret
        exact hhd j heq
      · cases hret
    | get t k =>
      cases huse
      obtain ⟨-, hrd⟩ := wp_run (wp_get tenant key s) fs
      rw [returned] at hret
      split at hret
      · rename_i jobID heq
        cases hret
        exact hrd j heq
      · cases hret
    | set t k jobID | setJobMeta req k | metaChanged jobID t | keyExpired k => cases hret
  · exact looked_of_blocked huse hblo

/-! ## Every run -/

/-- Every job under a key was claimed for a tenant the key belongs to, or for none. -/
def Sourced (used : Set (String × String)) (h : IdemHistory) : Prop :=
  ∀ A j, h.now.keys A = some j → ∃ tenant key, (tenant, key) ∈ used ∧
    A = jobIdempotencyKeyScoped tenant key ∧ A ≠ "" ∧ ((tenant, j) ∈ h.claimed ∨ ("", j) ∈ h.claimed)

theorem Sourced.of_looked (hfr : NoCollision used) (hs : Sourced used h) (hus : (tenant, key) ∈ used)
    (hten : tenant ≠ "") (hlks : LooksAt tenant key A) (hA : h.now.keys A = some j) :
    (tenant, j) ∈ h.claimed ∨ ("", j) ∈ h.claimed := by
  obtain ⟨t, k, hin, rfl, hne, hcla⟩ := hs A j hA
  by_cases hsm : t = tenant
  · subst hsm
    exact hcla
  by_cases hleg : t = ""
  · subst hleg
    exact .inr (hcla.elim id id)
  · exact absurd hlks (hfr t k tenant key hin hus hleg hten hsm hne)

theorem Sourced.step (hfr : NoCollision used) (hs : Sourced used h) {c : IdemCall × List Fault}
    (hc : c.1.Within used) : Sourced used (h.step c) := by
  intro A j hA
  have kept : ∀ t, (t, j) ∈ h.claimed → (t, j) ∈ (h.step c).claimed :=
    fun t ht => List.mem_append_left _ ht
  obtain hold | ⟨tenant, key, huse, hkey, hne, hnew⟩ := after_cases hA
  · obtain ⟨t, k, hin, hAt, hne, hcla⟩ := hs A j hold
    exact ⟨t, k, hin, hAt, hne, hcla.imp (kept t) (kept "")⟩
  refine ⟨tenant, key, hc _ huse, hkey, hne, ?_⟩
  obtain hsto | ⟨hten, hleg⟩ := hnew
  · refine .inl (List.mem_append_right _ ?_)
    rw [hsto]
    exact List.mem_singleton.2 rfl
  -- a copied job was one the lookup could see
  have hsco : jobIdempotencyKeyScoped tenant key ≠ "" := hkey ▸ hne
  have hlks : LooksAt tenant key (jobIdempotencyKey key) :=
    .inr ⟨rfl, key_ne_empty_of_scoped hsco, .inr hsco⟩
  exact (hs.of_looked hfr (hc _ huse) hten hlks hleg).imp (kept tenant) (kept "")

theorem isolated_of_noCollision (hfr : NoCollision used) : Isolated used := by
  intro tenants calls hin c fs hc t1 t2 key jobID ht1 ht2 hne huse hmts hon
  have hs : Sourced used (idemHistory tenants calls) :=
    List.foldlRecOn calls _ (fun _ _ h => nomatch h) fun _ hs c hc => hs.step hfr (hin c hc)
  obtain ⟨A, hlks, hA⟩ := looked_of_meets huse hmts
  obtain hown | hno := hs.of_looked hfr (hc _ huse) ht2 hlks hA
  · exact hne (hon.2 t2 hown).symm
  · exact ht1 (hon.2 "" hno).symm

/-! ## Every collision is met -/

/-- A job under a legacy key without a tenant is returned to everyone without a key of their own. -/
theorem run_get_legacy (hkey : key ≠ "")
    (hsc : trimSpace tenant = "" ∨ jobIdempotencyKeyScoped tenant key ≠ "")
    (hown : s.keys (jobIdempotencyKeyScoped tenant key) = none)
    (hleg : s.keys (jobIdempotencyKey key) = some jobID)
    (hjob : jobID ≠ "") (hmt : s.tenants jobID = none) :
    ((getJobByIdempotencyKeyScoped tenant key).run idem [] s).ans = .ok jobID := by
  rw [getJobByIdempotencyKeyScoped, if_neg hkey]
  dsimp only
  split
  · have hrd : idem (.get (jobIdempotencyKey key)) s = (s, some jobID) := by simp only [idem, hleg]
    rw [run_exec_bind_nil, hrd]
    rfl
  rename_i hten
  have hsco := hsc.resolve_left hten
  have hrd : idem (.get (jobIdempotencyKeyScoped tenant key)) s = (s, none) := by simp only [idem, hown]
  rw [scoped_trimSpace, if_neg hsco, run_exec_bind_nil, hrd]
  have hrd : idem (.get (jobIdempotencyKey key)) s = (s, some jobID) := by simp only [idem, hleg]
  have hten : idem (.hgetTenant jobID) s = (s, none) := by simp only [idem, hmt]
  rw [legacyLookup, run_exec_bind_nil, hrd]
  dsimp only
  rw [if_neg hjob, run_exec_bind_nil, hten]
  rw [if_neg (by simp), bind_eq, run_bind, run_attempt]
  rfl

theorem noCollision_of_isolated (hiso : Isolated used) : NoCollision used := by
  intro t1 k1 t2 k2 h1 h2 ht1 ht2 hne hkey hlks
  -- claim a job for the first tenant
  let claim : List (IdemCall × List Fault) := [(.set t1 k1 "job-1", [])]
  have hcla : idemHistory (fun _ => none) claim =
      ⟨{ keys := update (fun _ => none) (jobIdempotencyKeyScoped t1 k1) (some "job-1") },
        [(t1, "job-1")]⟩ := by
    have hk1 : k1 ≠ "" := key_ne_empty_of_scoped hkey
    simp [claim, idemHistory, IdemHistory.step, after, stored, use, claims,
      setIdempotencyKeyScoped, hk1, hkey, exec, idem]
  have hin : ∀ c ∈ claim, c.1.Within used := by
    intro c hc u hu
    cases List.mem_singleton.1 hc
    cases hu
    exact h1
  have hon : OnlyUnder (idemHistory (fun _ => none) claim).claimed t1 "job-1" := by
    rw [hcla]
    simp [OnlyUnder]
  have refute : ∀ c : IdemCall, c.use = some (t2, k2) →
      c.Meets [] (idemHistory (fun _ => none) claim).now "job-1" → False := by
    intro c huse hmts
    refine hiso _ claim hin c [] ?_ t1 t2 k2 "job-1" ht1 ht2 hne huse hmts hon
    intro u hu
    cases huse.symm.trans hu
    exact h2
  by_cases hsm : jobIdempotencyKeyScoped t1 k1 = jobIdempotencyKeyScoped t2 k2
  · -- the second tenant's claim is blocked
    refine refute (.set t2 k2 "job-2") rfl (.inr ?_)
    rw [hcla]
    simp [blockedBy, use, claims, ← hsm, hkey]
  · -- the second tenant's lookup finds the job under the legacy key
    obtain ⟨hown, -⟩ | ⟨hleg, hk2, hsc⟩ := hlks
    · exact hsm hown
    rw [hleg] at hsm
    have hown : (idemHistory (fun _ => none) claim).now.keys (jobIdempotencyKeyScoped t2 k2) = none := by
      simp [hcla, hleg, Ne.symm hsm]
    have hhd : (idemHistory (fun _ => none) claim).now.keys (jobIdempotencyKey k2) = some "job-1" := by
      simp [hcla, hleg]
    have hrd := run_get_legacy hk2 hsc hown hhd (by decide) (by rw [hcla])
    refine refute (.get t2 k2) rfl (.inl ?_)
    simp only [returned, hrd]

/-- Tenants are isolated exactly when none writes a key that a call for another looks at. -/
theorem tenants_isolated_iff (used : Set (String × String)) : Isolated used ↔ NoCollision used :=
  ⟨noCollision_of_isolated, isolated_of_noCollision⟩

theorem onlyUnder_singleton : OnlyUnder [(tenant, jobID)] tenant jobID := by
  simp [OnlyUnder]

/-- Tenant `a` claims its key `b:c`. -/
def colonHistory : IdemHistory := idemHistory (fun _ => none) [(.trySet "a" "b:c" "job-1", [])]

/-- A request of tenant `a`. -/
def requestOfA : JobRequest where
  jobId := "job-1"
  topic := "job.default"
  tenantId := "a"
  identityTenant := ""
  metaTenant := ""
  labels := ∅
  env := ∅
  deadlineMs := 0
  dispatch := none
  body := ""

/-- Tenant `a` claims its key `k`; the job's metadata expires. -/
def expiredHistory : IdemHistory :=
  idemHistory (fun _ => none) [(.trySet "a" "k" "job-1", []), (.setJobMeta requestOfA "k", []),
    (.metaChanged "job-1" none, [])]

/-- Tenant `a:b` asks for its key `c` and gets the job of tenant `a`; tenant `b` asks for its key
`a:k` and gets the job of tenant `a`, whose metadata has expired. -/
theorem tenants_not_isolated :
    ((IdemCall.get "a:b" "c").Meets [] colonHistory.now "job-1" ∧
      (IdemCall.trySet "a:b" "c" "job-2").Meets [] colonHistory.now "job-1" ∧
      OnlyUnder colonHistory.claimed "a" "job-1") ∧
    ((IdemCall.get "b" "a:k").Meets [] expiredHistory.now "job-1" ∧
      OnlyUnder expiredHistory.claimed "a" "job-1") := by
  have hcol : colonHistory.claimed = [("a", "job-1")] := by decide +kernel
  have hexp : expiredHistory.claimed = [("a", "job-1")] := by decide +kernel
  refine ⟨⟨.inl (by decide +kernel), .inr (by decide +kernel), ?_⟩, .inl (by decide +kernel), ?_⟩
  · rw [hcol]
    exact onlyUnder_singleton
  · rw [hexp]
    exact onlyUnder_singleton

end Cordum
