import Cordum.Proof.Indexes
import Cordum.Scheduler.Runs

/-!
# Does a tenant's concurrency limit count the other jobs?

`processJob` refuses a job when its tenant has as many active jobs as the policy allows, and the job
itself is counted since it was accepted. So the limit is reached one job early.

* `tenant_limit_iff`: the others are counted except where exactly one more job would reach the bound.
-/

namespace Cordum

open Conc GoString Prog Fleet List

/-! ## The count -/

/-- The fleet that successful calls lead to, from jobs with a recorded tenant. -/
def Reachable (cfg : FleetConfig) (f : Fleet) : Prop :=
  ∃ f₀ tenantOf cs, Fleet.Fresh f₀ tenantOf ∧ (∀ c ∈ cs, c.job ∈ f₀.jobs) ∧
    f₀.Succeed cfg cs ∧ f = f₀.calls cfg cs

/-- The jobs of the tenant, other than `j`, that are not terminal. -/
def Fleet.otherActive (f : Fleet) (tenant j : String) : List String :=
  f.jobs.filter fun i =>
    i ≠ j ∧ (f.keys i).jobMeta.tenant = some tenant ∧ (f.keys i).jobMeta.state.any isActiveState

/-- Job `j` was accepted: it is `PENDING`, with its tenant recorded. -/
structure Accepted (f : Fleet) (j tenant : String) : Prop where
  known : j ∈ f.jobs
  state : (f.keys j).jobMeta.state = some .pending
  recorded : (f.keys j).jobMeta.tenant = some tenant

variable {cfg : FleetConfig} {f : Fleet} {j tenant i reason code subject : String}
  {tenantOf : String → String} {n active : ℕ}

theorem Reachable.exact (h : Reachable cfg f) : ∃ tenantOf, f.Exact tenantOf := by
  obtain ⟨f0, tenantOf, cs, hfr, hjs, hok, rfl⟩ := h
  exact ⟨tenantOf, (calls_exact (fun j hj => (hfr j hj).exact) hjs hok).1⟩

theorem mem_tenantActive_iff (hf : f.Exact tenantOf) : i ∈ f.tenantActive tenant ↔
      i ∈ f.jobs ∧ (f.keys i).jobMeta.tenant = some tenant ∧
      (f.keys i).jobMeta.state.any isActiveState := by
  rw [mem_tenantActive]
  refine and_congr_right fun hi => ?_
  have h := hf i hi
  constructor
  · intro hact
    obtain rfl := h.others tenant hact
    obtain ⟨s, hs, hac⟩ := h.active.1 hact
    exact ⟨h.recorded, by rw [hs]; exact hac⟩
  · rintro ⟨ht, hs⟩
    have heq : tenantOf i = tenant := Option.some.inj (h.recorded.symm.trans ht)
    rw [← heq]
    refine h.active.2 ?_
    cases hsta : (f.keys i).jobMeta.state with
    | none => rw [hsta] at hs; cases hs
    | some s => rw [hsta] at hs; exact ⟨s, rfl, hs⟩

theorem otherActive_eq_erase (hf : f.Exact tenantOf) :
    f.otherActive tenant j = (f.tenantActive tenant).erase j := by
  have hnd : (f.tenantActive tenant).Nodup := f.nodup.filter _
  rw [hnd.erase_eq_filter, tenantActive, filter_filter]
  refine filter_congr fun i hi => ?_
  have hset : i ∈ f.tenantActive tenant ↔ _ := mem_tenantActive_iff hf
  rw [mem_tenantActive] at hset
  rw [Bool.eq_iff_iff]
  simp only [hi, true_and] at hset
  simp [hset]

/-- **The count of the job's own tenant**: the others, and one for the job itself. -/
theorem count_own (hf : Reachable cfg f) (hj : Accepted f j tenant) :
    f.countActiveByTenant tenant = (f.otherActive tenant j).length + 1 := by
  obtain ⟨tenantOf, hex⟩ := hf.exact
  have hmem : j ∈ f.tenantActive tenant :=
    (mem_tenantActive_iff hex).2 ⟨hj.known, hj.recorded, by rw [hj.state]; rfl⟩
  have hlen := length_erase_of_mem hmem
  have hpos := length_pos_of_mem hmem
  rw [countActiveByTenant, otherActive_eq_erase hex]
  omega

/-! ## The refusal -/

/-- A handling that reaches the limits with the policy's bound `N`, under an unlimited licence, and
finds the count of tenant `counted` in `f`; `s` is what the decision before it found. No strategy
answers with the tenant-limit error. -/
structure Limited (cfg : StoreConfig) (f : Fleet) (counted : String) (N : ℕ)
    (a : Attempt) (req : JobRequest) (fs : List Fault) (s : Sys) : Prop where
  decided : ∃ req' c, ((actOnDecision cfg.hasher a req).run (engine cfg) fs s).ans = .ok (some (req', c)) ∧
    extractTenant req' = counted ∧ maxConcurrentFromConstraints c = N
  count : a.activeForPolicy = some (f.countActiveByTenant counted)
  licence : ∀ n, a.tierAllows n
  strategy : ∀ i, a.picks i ≠ .failed .tenantLimit

/-- The handling ends with the tenant-limit error. -/
def Refused (cfg : StoreConfig) (a : Attempt) (req : JobRequest) (fs : List Fault) (s : Sys) : Prop :=
  ((decideAndDispatch cfg.hasher a req).run (engine cfg) fs s).ans = .error (.scheduling .tenantLimit)

theorem errs_inStore {α : Type} {P : EngineErr → Prop} (hP : ∀ e, P (.store e))
    {p : StoreM α} : (inStore p).Errs P :=
  errs_inl (errs_mapErr hP)

/-- Another error. -/
def NotLimit (e : EngineErr) : Prop := e ≠ .scheduling .tenantLimit

theorem errs_failJob {a : Attempt} {req : JobRequest} : (failJob a req reason code).Errs NotLimit := by
  refine errs_bind (errs_inStore (fun e => nofun)) fun _ => ?_
  refine errs_bind errs_cmd fun o => ?_
  cases o with
  | some r => exact trivial
  | none => exact errs_exec nofun

theorem pickSubject_error {picks : ℕ → Pick} (h : ∀ i, picks i ≠ .failed .tenantLimit) (n i : ℕ) :
    pickSubject picks n i ≠ .error .tenantLimit := by
  induction n generalizing i with
  | zero => nofun
  | succ n ih =>
    unfold pickSubject
    split
    · nofun
    · rename_i e he
      intro h'
      cases h'
      exact h i he
    · split
      · nofun
      · exact ih (i + 1)

theorem errs_publishDispatch (a : Attempt) (subject : String) (req : JobRequest)
    (fence : Option (String × ℤ)) :
    (publishDispatch a subject req fence).Errs NotLimit := by
  refine errs_bind errs_cmd fun o => ?_
  cases o with
  | none =>
    refine errs_bind (errs_inl errs_attempt) fun _ => ?_
    exact EngineErr.noConfusion
  | some r => exact errs_inStore (fun e => nofun)

theorem errs_dispatch {a : Attempt} {req : JobRequest} : (dispatch a subject req).Errs NotLimit := by
  refine errs_bind (errs_inStore (fun e => nofun)) fun _ => ?_
  split
  · exact EngineErr.noConfusion
  refine errs_bind (errs_inStore (fun e => nofun)) fun _ => ?_
  split
  · exact errs_publishDispatch _ _ _ _
  refine errs_bind (errs_inl errs_attempt) fun r => ?_
  cases r with
  | error e =>
    refine errs_bind (errs_inl errs_attempt) fun _ => ?_
    exact EngineErr.noConfusion
  | ok d => exact errs_publishDispatch _ _ _ _

theorem errs_schedule {a : Attempt} (h : ∀ i, a.picks i ≠ .failed .tenantLimit) {req : JobRequest} :
    (schedule a req).Errs NotLimit := by
  unfold schedule
  split
  · exact errs_dispatch
  rename_i e he
  have hne : e ≠ .tenantLimit := fun h' => pickSubject_error h _ _ (h' ▸ he)
  split
  · refine errs_bind errs_cmd fun _ h' => ?_
    exact hne (EngineErr.scheduling.inj h')
  · exact errs_failJob

theorem errs_checkRetries {a : Attempt} {req : JobRequest} : (checkRetries a req n).Errs NotLimit := by
  unfold checkRetries
  split
  · exact trivial
  refine errs_bind ?_ fun attempts => ?_
  · refine errs_bind errs_cmd fun o => ?_
    cases o <;> exact trivial
  split
  · exact errs_bind errs_failJob fun _ => trivial
  · exact trivial

/-- What a handling that counted `n` jobs against the bound `N` can end with. -/
def AtLimit (N n : ℕ) (e : EngineErr) : Prop := e = .scheduling .tenantLimit → N ≤ n

theorem NotLimit.atLimit {N : ℕ} {e : EngineErr} (h : NotLimit e) : AtLimit N n e := fun he => absurd he h

theorem errs_checkConcurrency {a : Attempt} {N : ℕ} (hcnt : a.activeForPolicy = some n)
    {req : JobRequest} :
    (checkConcurrency a req N).Errs (AtLimit N n) := by
  unfold checkConcurrency
  rw [hcnt]
  refine errs_bind ?_ fun _ => ?_
  · unfold when
    split
    · dsimp only
      split
      · rename_i hle
        exact fun _ => hle
      · exact trivial
    · exact trivial
  · refine errs_when ?_
    split
    · nofun
    · exact errs_when nofun

theorem errs_checkLimits {a : Attempt} (hcnt : a.activeForPolicy = some n) {req : JobRequest}
    {c : Option PolicyConstraints} :
    (checkLimits a req c).Errs (AtLimit (maxConcurrentFromConstraints c) n) := by
  refine errs_bind (errs_checkRetries.imp fun e => NotLimit.atLimit) fun b => ?_
  cases b with
  | false => exact trivial
  | true =>
    refine errs_bind (errs_checkConcurrency hcnt) fun _ => ?_
    split
    · exact errs_bind (errs_inStore (fun e => nofun)) fun _ => trivial
    · exact trivial

variable {N : ℕ} {counted : String} {a : Attempt} {req : JobRequest} {fs : List Fault} {s : Sys}

/-- **Who is refused was counted to the limit.** -/
theorem refused_count {cfg : StoreConfig} (h : Limited cfg f counted N a req fs s)
    (hr : Refused cfg a req fs s) :
    N ≤ f.countActiveByTenant counted := by
  obtain ⟨req', c, hans, -, rfl⟩ := h.decided
  rw [Refused, decideAndDispatch, run_bind_of_ans hans] at hr
  refine run_errs (P := AtLimit _ _) ?_ hr rfl
  refine errs_bind (errs_checkLimits h.count) fun b => ?_
  cases b with
  | false => exact trivial
  | true => exact (errs_schedule h.strategy).imp fun e => NotLimit.atLimit

/-- A policy's bound. -/
def concurrencyBound (N : ℕ) : PolicyConstraints := ⟨0, N, 0, 0, "", ""⟩

/-- A handling that the policy allows under the bound `N`, and what it counted. -/
def boundedAttempt (N active : ℕ) : Attempt where
  verdict := { decision := some .allow, constraints := some (concurrencyBound N) }
  activeForPolicy := some active

/-- A request of a tenant. -/
def tenantRequest (tenant : String) : JobRequest := { exampleRequest with tenantId := tenant }

theorem tenantRequest_plain :
    labelGranted (tenantRequest tenant).labels = false ∧
      isApprovalGateTopic (trimSpace (tenantRequest tenant).topic) = false := by
  change labelGranted exampleRequest.labels = false ∧
    isApprovalGateTopic (trimSpace exampleRequest.topic) = false
  decide +kernel

theorem actOnDecision_bounded {cfg : StoreConfig} :
    ((actOnDecision cfg.hasher (boundedAttempt N active) (tenantRequest tenant)).run
      (engine cfg) [] s).ans = .ok (some (applyConstraints (tenantRequest tenant) (concurrencyBound N),
        some (concurrencyBound N))) := by
  obtain ⟨hpl, htop⟩ := tenantRequest_plain
  have hche : (checkSafetyDecision cfg.hasher (boundedAttempt N active) (tenantRequest tenant)) =
      saveDecision (boundedAttempt N active) (boundedAttempt N active).record := by
    rw [checkSafetyDecision, if_neg (by rw [hpl]; decide)]
    rfl
  have hsvd : ((checkSafetyDecision cfg.hasher (boundedAttempt N active) (tenantRequest tenant)).run
      (engine cfg) [] s).ans = .ok (.checked (boundedAttempt N active).record false) := by
    rw [hche]
    rfl
  rw [actOnDecision, run_bind_of_ans hsvd]
  change ((actOnRecord _ _ (some .allow) _ >>= _).run _ _ _).ans = _
  rw [actOnRecord]
  simp only [htop]
  rfl

theorem refused_of_count {cfg : StoreConfig} (hN : 1 ≤ N) (h : N ≤ active) :
    Refused cfg (boundedAttempt N active) (tenantRequest tenant) [] s := by
  have hlim : ∀ req fs s, ((checkConcurrency (boundedAttempt N active) req N).run (engine cfg) fs s) =
      ⟨.error (.scheduling .tenantLimit), fs, s⟩ := by
    intro req fs s
    rw [checkConcurrency, when, if_pos (show N > 0 from hN)]
    change ((when (active ≥ N) _ >>= _).run _ _ _) = _
    rw [when, if_pos h]
    rfl
  rw [Refused, decideAndDispatch, run_bind_of_ans actOnDecision_bounded]
  -- the bound on retries is not set, so that the limits begin with the count
  change (((checkConcurrency _ _ N >>= _) >>= _).run _ _ _).ans = _
  simp only [bind_eq, run_bind, hlim]

theorem limited_bounded {cfg : StoreConfig} (hcou : counted ≠ "") :
    Limited cfg f counted N (boundedAttempt N (f.countActiveByTenant counted))
      (tenantRequest counted) [] s where
  decided := by
    refine ⟨_, _, actOnDecision_bounded, ?_, rfl⟩
    change (if counted ≠ "" then counted else _) = counted
    rw [if_pos hcou]
  count := rfl
  licence _ := rfl
  strategy _ := nofun

/-- In the handlings of an accepted job that count its tenant as `counted`: who is refused has `N`
others of its tenant. -/
def CountsOthers (cfg : StoreConfig) (f : Fleet) (j tenant counted : String) (N : ℕ) : Prop :=
  ∀ a req fs s, Limited cfg f counted N a req fs s → Refused cfg a req fs s →
    N ≤ (f.otherActive tenant j).length

/-- **When the limit counts the other jobs**: exactly where a count that has reached the bound has `N`
other jobs in it. In a fleet that successful calls lead to, with the job counted under its recorded
tenant, that is where one more job would not reach the bound. -/
theorem tenant_limit_iff (cfg : FleetConfig) {f : Fleet} {j tenant counted : String} {N : ℕ}
    (hj : Accepted f j tenant) (hcounted : counted ≠ "") (hN : 1 ≤ N) :
    (CountsOthers (cfg.job j) f j tenant counted N ↔
      (N ≤ f.countActiveByTenant counted → N ≤ (f.otherActive tenant j).length)) ∧
    (Reachable cfg f → counted = tenant →
      (CountsOthers (cfg.job j) f j tenant counted N ↔ (f.otherActive tenant j).length + 1 ≠ N)) := by
  have hiff : CountsOthers (cfg.job j) f j tenant counted N ↔
      (N ≤ f.countActiveByTenant counted → N ≤ (f.otherActive tenant j).length) := by
    constructor
    · intro h hle
      exact h _ _ [] { keys := f.keys j } (limited_bounded hcounted) (refused_of_count hN hle)
    · intro h a req fs s hlim href
      exact h (refused_count hlim href)
  refine ⟨hiff, fun hf hown => ?_⟩
  rw [hiff, hown, count_own hf hj]
  omega

/-- A fleet of one job. -/
def loneJob : Fleet where
  jobs := ["job-1"]
  nodup := List.nodup_singleton "job-1"
  keys _ := { jobMeta := { tenant := some "acme" } }

/-- The job is stored. -/
def loneJobCalls : List FleetCall := [⟨"job-1", .setState .pending 1, trivial, []⟩]

/-- With a bound of one, the lone job is refused: no other job is active. -/
theorem loneJob_refused :
    Reachable exampleFleet (loneJob.calls exampleFleet loneJobCalls) ∧
      Accepted (loneJob.calls exampleFleet loneJobCalls) "job-1" "acme" ∧
      (loneJob.calls exampleFleet loneJobCalls).otherActive "acme" "job-1" = [] ∧
      ∃ a req fs s, Limited (exampleFleet.job "job-1")
        (loneJob.calls exampleFleet loneJobCalls) "acme" 1 a req fs s ∧
        s.keys = (loneJob.calls exampleFleet loneJobCalls).keys "job-1" ∧
        Refused (exampleFleet.job "job-1") a req fs s := by
  refine ⟨⟨loneJob, fun _ => "acme", loneJobCalls, ?_, by decide, ⟨⟨_, rfl⟩, trivial⟩, rfl⟩,
    ⟨by decide, rfl, rfl⟩, rfl, ?_⟩
  · exact fun j _ => ⟨rfl, (by decide : "acme" ≠ ""), rfl, rfl, fun _ => rfl, rfl⟩
  · exact ⟨_, _, [], { keys := _ }, limited_bounded (by decide), rfl,
      refused_of_count (by decide) (by decide)⟩

/-- Two other jobs of the tenant are active. -/
def busyFleet : Fleet := { loneJob with jobs := ["job-1", "job-2", "job-3"], nodup := by decide }

/-- Another job is stored after it. -/
def busyCalls : List FleetCall := loneJobCalls ++
  [⟨"job-2", .setState .pending 1, trivial, []⟩, ⟨"job-3", .setState .pending 1, trivial, []⟩]

/-- Where they reach the bound, the job is refused for them. -/
theorem busyFleet_limit : CountsOthers (exampleFleet.job "job-1") (busyFleet.calls exampleFleet busyCalls)
    "job-1" "acme" "acme" 2 := by
  refine ((tenant_limit_iff exampleFleet ⟨by decide, rfl, rfl⟩ (by decide) (by decide)).1).2 ?_
  decide

end Cordum
