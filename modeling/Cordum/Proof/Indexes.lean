import Cordum.Store.Fleet
import Cordum.Store.Sends

/-!
# The state indexes and the active sets are exact

Most calls that keep the sets that jobs share commit a new state in one transaction, which takes the
job out of the index of the state it found and puts it into the one it writes (`commitState_exact`).
`ProjectJobResult`, and `CancelJob` through it, sends a command at a time, and sweeps all the other
indexes (`projectJobResult_exact`). The remaining calls touch none of it.

* `calls_exact`, `indexes_exact`: successful calls, in any order and on any jobs.
-/

namespace Cordum

open Conc Prog JobKeys Function Option

variable {active : Finset String} {prev : Option JobState} {c : KeyCmd} {P : JobKeys → Prop}
  {op : StoreOp} {f : Fleet} {now : ℤ}

namespace JobKeys

/-- The tenant is recorded, and no transition was made. -/
structure Fresh (k : JobKeys) (tenant : String) : Prop where
  recorded : k.jobMeta.tenant = some tenant
  nonempty : tenant ≠ ""
  state : k.jobMeta.state = none
  stateKey : k.stateKey = none
  index : ∀ s, k.index s = none
  active : k.active = ∅

/-- The job's memberships are those of its state. -/
structure Exact (k : JobKeys) (tenant : String) : Prop where
  recorded : k.jobMeta.tenant = some tenant
  nonempty : tenant ≠ ""
  stateKey : k.stateKey = k.jobMeta.state
  index : ∀ s, (k.index s).isSome ↔ k.jobMeta.state = some s
  active : tenant ∈ k.active ↔ ∃ s, k.jobMeta.state = some s ∧ isActiveState s
  others : ∀ t ∈ k.active, t = tenant

variable {k k' : JobKeys} {tenant : String}

theorem Fresh.exact (h : k.Fresh tenant) : k.Exact tenant where
  recorded := h.recorded
  nonempty := h.nonempty
  stateKey := by rw [h.stateKey, h.state]
  index s := by simp [h.index s, h.state]
  active := by simp [h.active, h.state]
  others t ht := by simp [h.active] at ht

/-- What `Exact` reads. -/
structure SameSets (k k' : JobKeys) : Prop where
  tenant : k'.jobMeta.tenant = k.jobMeta.tenant
  state : k'.jobMeta.state = k.jobMeta.state
  stateKey : k'.stateKey = k.stateKey
  index : k'.index = k.index
  active : k'.active = k.active

theorem Exact.of_same (h : k.Exact tenant) (hs : SameSets k k') : k'.Exact tenant where
  recorded := hs.tenant.trans h.recorded
  nonempty := h.nonempty
  stateKey := by rw [hs.stateKey, hs.state, h.stateKey]
  index s := by rw [hs.index, hs.state]; exact h.index s
  active := by rw [hs.active, hs.state]; exact h.active
  others t ht := h.others t (by rw [← hs.active]; exact ht)

theorem Exact.storedState (h : k.Exact tenant) : k.storedState = k.jobMeta.state := by
  unfold JobKeys.storedState
  rw [h.stateKey]
  cases k.jobMeta.state <;> rfl

/-! ## A committed state -/

variable (s : JobState)

@[simp] theorem trackActive_index : (k.trackActive s).index = k.index := by
  obtain ⟨a, h⟩ := k.trackActive_eq s
  rw [h]

@[simp] theorem closeDeadline_index : (k.closeDeadline s).index = k.index := by
  unfold closeDeadline; split <;> rfl

@[simp] theorem closeDeadline_active : (k.closeDeadline s).active = k.active := by
  unfold closeDeadline; split <;> rfl

@[simp] theorem zaddIndex_active : (k.zaddIndex s now).active = k.active := rfl

@[simp] theorem zremIndex_active {s : Option JobState} : (k.zremIndex s).active = k.active := by
  cases s <;> rfl

/-- The active sets once a tenant's job is in state `s`. -/
def activeIn (tenant : String) (active : Finset String) : Finset String :=
  if isActiveState s then insert tenant active else active.erase tenant

theorem trackActive_active (ht : k.jobMeta.tenant = some tenant) (hne : tenant ≠ "") :
    (k.trackActive s).active = activeIn s tenant k.active := by
  unfold trackActive activeIn
  rw [ht]
  simp only [hne, if_false]
  split <;> rfl

theorem mem_activeIn {s : JobState} : tenant ∈ activeIn s tenant active ↔ isActiveState s := by
  unfold activeIn
  split <;> simp_all

theorem mem_activeIn_others {s : JobState} (h : ∀ t ∈ active, t = tenant) :
    ∀ t ∈ activeIn s tenant active, t = tenant := by
  unfold activeIn
  intro t ht
  split at ht
  · rcases Finset.mem_insert.1 ht with rfl | ht
    · rfl
    · exact h t ht
  · exact h t (Finset.mem_of_mem_erase ht)

/-- **A committed state has exact memberships**, when the job was at most in the index of the state
before. -/
theorem commitState_exact {target : JobState}
    (ht : k.jobMeta.tenant = some tenant) (hne : tenant ≠ "")
    (hidx : ∀ s, (k.index s).isSome → prev = some s)
    (hact : ∀ t ∈ k.active, t = tenant) : (k.commitState prev target now).Exact tenant := by
  have hac : (k.commitState prev target now).active = activeIn target tenant k.active := by
    simp only [commitState, closeDeadline_active]
    rw [trackActive_active target (by simpa using ht) hne]
    simp
  obtain ⟨d, hmt⟩ := k.commitState_meta prev target now
  refine ⟨by rw [hmt]; exact ht, hne, by simp, fun s => ?_, ?_, ?_⟩
  · have hind : (k.commitState prev target now).index =
        update (({ k with
          jobMeta := { k.jobMeta with state := some target, updatedAt := now }
          stateKey := some target } : JobKeys).zremIndex prev).index target (some now) := by
      simp [commitState, zaddIndex]
    rw [hind, commitState_state, some.injEq]
    by_cases hs : s = target
    · simp [hs]
    rw [update_of_ne hs]
    refine ⟨fun h => absurd ?_ (Bool.false_ne_true), fun h => absurd h.symm hs⟩
    -- an entry elsewhere was that of the previous state, which is gone
    cases prev with
    | none => exact absurd (hidx s h) (by simp)
    | some p =>
      by_cases hsp : s = p
      · subst hsp
        simp [zremIndex] at h
      · simp only [zremIndex, update_of_ne hsp] at h
        exact absurd (some.inj (hidx s h)).symm hsp
  · rw [hac, mem_activeIn]
    simp
  · rw [hac]
    exact mem_activeIn_others hact

theorem Exact.commit (h : k.Exact tenant) (target : JobState) (now : ℤ)
    (hp : prev = k.jobMeta.state) (hs : SameSets k k') :
    (k'.commitState prev target now).Exact tenant := by
  have h' := h.of_same hs
  refine commitState_exact h'.recorded h.nonempty (fun s hso => ?_) h'.others
  rw [hp, ← hs.state]
  exact (h'.index s).1 hso

end JobKeys

/-! ## Commands -/

/-- The commands that keep the shared sets. -/
def KeyCmd.Neutral : KeyCmd → Prop
  | .setJobMeta .. | .projectMeta .. | .setStateKey .. | .zremIndex .. | .zaddIndex .. | .trackActive .. =>
    False
  | _ => True

/-- The command keeps the shared sets. -/
def StoreCmd.Neutral : StoreCmd → Prop
  | .rt _ => True
  | .key c => c.Neutral

theorem KeyCmd.IsRead.neutral (h : c.IsRead) : c.Neutral := by
  cases c <;> first | exact trivial | exact h.elim

variable {cfg : StoreConfig} {tenant during jobID ptr w : String} {k : JobKeys}

/-- **A neutral command keeps the memberships exact.** -/
theorem neutral_exact {c : StoreCmd} (hc : c.Neutral) (h : k.Exact tenant) :
    (store cfg c k).1.Exact tenant := by
  cases c with
  | rt c => exact h.of_same ⟨rfl, rfl, rfl, rfl, rfl⟩
  | key c =>
    cases c with
    | setState target now =>
      rcases setStateTx_cases target now k with ⟨-, he⟩ | ⟨-, n, he⟩
      · simpa [store, keyStep, he] using h
      · simp only [store, keyStep, he]
        exact h.commit target now rfl ⟨rfl, rfl, rfl, rfl, rfl⟩
    | cancelJob now =>
      simp only [store, keyStep, cancelJobTx]
      split
      · exact h
      rename_i current hcur
      split
      · exact h
      · exact h.commit .cancelled now (hcur.symm.trans h.storedState) ⟨rfl, rfl, rfl, rfl, rfl⟩
    | resolveApproval p now =>
      rcases resolveApprovalTx_cases cfg.hasher p now k with ⟨e, he⟩ | ⟨cur, r, q, ap, sf, hc, -, -, -, he⟩
      · simpa [store, keyStep, he] using h
      simp only [store, keyStep, he]
      refine h.commit p.resultState now ?_ ⟨rfl, rfl, rfl, rfl, rfl⟩
      rw [← h.storedState]
      exact (resolveApprovalChecks_ok hc).stored.symm
    | applyApprovalRepair p now =>
      rcases applyApprovalRepairTx_cases cfg.jobID p now k with
        ⟨e, he⟩ | ⟨-, cur, -, he⟩ | ⟨cur, target, r, hcur, -, -, -, -, he⟩
      · simpa [store, keyStep, he] using h
      · simpa [store, keyStep, he] using h
      · simp only [store, keyStep, he]
        exact h.commit target now (hcur.symm.trans h.storedState) ⟨rfl, rfl, rfl, rfl, rfl⟩
    | setJobMeta | projectMeta | setStateKey | zremIndex | zaddIndex | trackActive => exact hc.elim
    | _ => exact h.of_same ⟨rfl, rfl, rfl, rfl, rfl⟩

/-! ## The projection of a result -/

theorem wp_key {β : Type} {f : c.Reply → StoreM β}
    (h : (f (keyStep cfg c k).2).wp (store cfg) (fun r k' => ∀ a, r = .ok a → P k') (keyStep cfg c k).1) :
    (key c during >>= f).wp (store cfg) (fun r k' => ∀ a, r = .ok a → P k') k :=
  wp_exec_bind.2 ⟨nofun, nofun, h⟩

/-- A job swept from all the other indexes of `l`. -/
def JobKeys.swept (k : JobKeys) (state : JobState) (l : List JobState) : JobKeys :=
  { k with index := fun s => if s ∈ l ∧ s ≠ state then none else k.index s }

theorem projectRemoveIndexes_swept (state : JobState) {l : List JobState} (k : JobKeys) :
    (projectRemoveIndexes state l).wp (store cfg)
      (fun r k' => ∀ a, r = .ok a → k' = k.swept state l) k := by
  induction l generalizing k with
  | nil =>
    intro a _
    simp [swept]
  | cons x xs ih =>
    have hsp : ∀ k1 : JobKeys, k1.swept state xs = k.swept state (x :: xs) →
        (projectRemoveIndexes state xs).wp (store cfg)
          (fun r k' => ∀ a, r = .ok a → k' = k.swept state (x :: xs)) k1 :=
      fun k1 h => wp_mono (fun r k' h' a ha => (h' a ha).trans h) (ih k1)
    unfold projectRemoveIndexes when
    by_cases hx : x = state
    · rw [if_neg (not_not.2 hx)]
      refine hsp k ?_
      simp only [swept, mk.injEq, true_and, and_true]
      funext s
      by_cases hs : s = state <;> simp [hs, hx]
    · rw [if_pos hx]
      refine wp_key (hsp _ ?_)
      simp only [swept, keyStep, zremIndex, mk.injEq, true_and, and_true]
      funext s
      by_cases hs : s = x
      · simp [hs, hx]
      · simp [hs]

theorem mem_all : s ∈ JobState.all := by cases s <;> decide

/-- The keys say `state`, and only the tenant's active set may have the job. -/
structure JobKeys.Says (k : JobKeys) (tenant : String) (state : JobState) : Prop where
  recorded : k.jobMeta.tenant = some tenant
  stored : k.jobMeta.state = some state
  stateKey : k.stateKey = some state
  others : ∀ t ∈ k.active, t = tenant

variable {state : JobState}

theorem projectTerminal_exact (hne : tenant ≠ "") (hk : k.Says tenant state)
    (hidx : ∀ s, (k.index s).isSome ↔ s = state) :
    (projectLegacyTerminalState state).wp (store cfg)
      (fun r k' => ∀ a, r = .ok a → k'.Exact tenant) k := by
  have htra : (keyStep cfg (.trackActive tenant state) k).1.Exact tenant := by
    refine ⟨hk.recorded, hne, hk.stateKey.trans hk.stored.symm, fun s => ?_, ?_, ?_⟩
    · simp only [keyStep, hk.stored, some.injEq]
      exact (hidx s).trans eq_comm
    · simp only [keyStep, hk.stored]
      exact mem_activeIn.trans (by simp)
    · exact mem_activeIn_others hk.others
  have hgot : (keyStep cfg .hgetAllMeta k).2.tenant.getD "" = tenant := by simp [keyStep, hk.recorded]
  unfold projectLegacyTerminalState when
  refine wp_key ?_
  rw [hgot, if_pos hne]
  refine wp_key ?_
  split
  · exact wp_key (wp_exec.2 ⟨by simp, by simp, fun _ _ => htra.of_same ⟨rfl, rfl, rfl, rfl, rfl⟩⟩)
  · exact fun _ _ => htra

theorem projectIndexes_exact (hne : tenant ≠ "") (hk : k.Says tenant state) :
    (do
      projectRemoveIndexes state JobState.all
      key (.zaddIndex state now) "job store project state index"
      projectLegacyTerminalState state : StoreM Unit).wp (store cfg)
      (fun r k' => ∀ a, r = .ok a → k'.Exact tenant) k := by
  refine (wp_bind _ _ _ _).2 (wp_mono (fun r k2 hr => ?_) (projectRemoveIndexes_swept state k))
  cases r with
  | error e => exact nofun
  | ok a =>
    obtain rfl := hr a rfl
    refine wp_key (projectTerminal_exact hne ⟨hk.recorded, hk.stored, hk.stateKey, hk.others⟩ fun s => ?_)
    by_cases hs : s = state
    · simp [keyStep, zaddIndex, hs]
    · simp [keyStep, zaddIndex, swept, hs, mem_all]

/-- **A result that is projected has exact memberships**, whatever was there. -/
theorem projectJobResult_exact (ht : k.jobMeta.tenant = some tenant) (hne : tenant ≠ "")
    (hact : ∀ t ∈ k.active, t = tenant) :
    (projectJobResult jobID state ptr w now).wp (store cfg)
      (fun r k' => ∀ a, r = .ok a → k'.Exact tenant) k := by
  unfold projectJobResult when
  split
  · exact nofun
  refine wp_key (wp_key ?_)
  split
  · exact wp_key (projectIndexes_exact hne ⟨ht, rfl, rfl, hact⟩)
  · exact projectIndexes_exact hne ⟨ht, rfl, rfl, hact⟩

/-! ## Calls -/

/-- The call keeps them. -/
def StoreOp.Neutral : StoreOp → Prop
  | .projectJobResult .. | .cancelJob _ => False
  | _ => True

theorem prog_neutral (h : op.Neutral) {ℓ : Fence} :
    (op.prog jobID).Guar (LegacyRead ℓ) StoreCmd.Neutral fun _ => True := by
  have hsen : op.RuntimeOnly → (op.prog jobID).Guar (LegacyRead ℓ) StoreCmd.Neutral fun _ => True := by
    intro hop
    refine guar_weaken (prog_sends jobID ℓ op) (fun _ _ h => h) fun c hc => ?_
    cases c with
    | rt c => exact trivial
    | key c => exact (hc hop).neutral
  cases op with
  | setState s now => exact guar_answer (setState_guar trivial trivial trivial trivial trivial)
  | setStateWithContext s now => exact guar_answer (setStateWithContext_guar trivial)
  | setResultPtr p =>
    exact guar_answer (guar_seq (guar_key trivial) fun _ => guar_seq (guar_rt trivial) fun _ =>
      guar_when (guar_rt trivial))
  | resolveApproval p now =>
    refine guar_answer ?_
    unfold resolveApproval
    split
    · exact trivial
    · exact guar_seq (guar_key trivial) fun r => guar_ofTx
  | applyApprovalRepair p now =>
    refine guar_answer ?_
    unfold applyApprovalRepair
    split_ifs
    · exact trivial
    · exact trivial
    · exact guar_seq (guar_key trivial) fun r => guar_ofTx
  | projectJobResult | cancelJob => exact h.elim
  | _ => exact hsen trivial

/-- Neutral commands keep the memberships exact even in a call that fails. -/
theorem neutral_wp {α : Type} {p : StoreM α} (h : k.Exact tenant)
    (hp : p.Guar (LegacyRead k.jobMeta.dispatch) StoreCmd.Neutral fun _ => True) :
    p.wp (store cfg) (fun _ k' => k'.Exact tenant) k := by
  refine wp_mono (fun _ _ h' => h'.1.1) (wp_of_guar
    (I := fun k' => k'.Exact tenant ∧ k'.jobMeta.dispatch = k.jobMeta.dispatch) ?_ hp ⟨h, rfl⟩)
  rintro c k' ⟨hk, hd⟩ hc
  exact ⟨⟨neutral_exact hc hk, (store_legacyRead hd).1⟩, (store_legacyRead hd).2⟩

/-- `CancelJob`: through the runtime hash and its projection, or in one transaction. -/
theorem cancelJob_exact (h : k.Exact tenant) :
    (cancelJob jobID now).wp (store cfg) (fun r k' => ∀ a, r = .ok a → k'.Exact tenant) k := by
  unfold cancelJob
  split
  · exact nofun
  refine wp_exec_bind.2 ⟨nofun, nofun, ?_⟩
  split
  · -- the attempts are cancelled on the runtime hash, then the state is projected
    refine (wp_bind _ _ _ _).2 (wp_mono (fun r k1 h1 => ?_) (neutral_wp h
      (cancelAll_guar (fun c hc => hc.neutral) (fun _ => trivial) trivial)))
    cases r with
    | error e => exact nofun
    | ok state =>
      refine (wp_bind _ _ _ _).2
        (wp_mono (fun r k2 h2 => ?_) (projectJobResult_exact h1.recorded h1.nonempty h1.others))
      cases r with
      | error e => exact nofun
      | ok u => exact fun _ _ => h2 u rfl
  · exact wp_mono (fun _ _ h' _ _ => h') (neutral_wp h
      (guar_seq (guar_key trivial) fun r => guar_ofTx))

/-- **A successful call keeps the memberships exact.** -/
theorem prog_exact (h : k.Exact tenant) :
    (op.prog jobID).wp (store cfg) (fun r k' => ∀ a, r = .ok a → k'.Exact tenant) k := by
  -- the answer is wrapped, the keys are those of the call
  have hans : ∀ {α : Type} {p : StoreM α} {g : α → StoreAns},
      p.wp (store cfg) (fun r k' => ∀ a, r = .ok a → k'.Exact tenant) k →
      (p >>= fun a => ret (g a)).wp (store cfg) (fun r k' => ∀ a, r = .ok a → k'.Exact tenant) k := by
    intro α p g hp
    refine (wp_bind _ _ _ _).2 (wp_mono (fun r k' hr => ?_) hp)
    cases r with
    | error e => exact nofun
    | ok a => exact fun _ _ => hr a rfl
  by_cases hop : op.Neutral
  · exact wp_mono (fun _ _ h' _ _ => h') (neutral_wp h (prog_neutral hop))
  cases op with
  | projectJobResult s p w now =>
    exact hans (projectJobResult_exact h.recorded h.nonempty h.others)
  | cancelJob now => exact hans (cancelJob_exact h)
  | _ => exact absurd trivial hop

/-! ## Sequences of calls on any jobs -/

/-- Every job of the fleet has exact memberships, for its tenant. -/
def Fleet.Exact (f : Fleet) (tenantOf : String → String) : Prop :=
  ∀ j ∈ f.jobs, (f.keys j).Exact (tenantOf j)

variable {fcfg : FleetConfig} {tenantOf : String → String}

theorem call_exact (hf : f.Exact tenantOf) {c : FleetCall} (hc : c.job ∈ f.jobs)
    (hok : ∃ a, (f.callOut fcfg c).ans = .ok a) : (f.call fcfg c).Exact tenantOf := by
  intro j hj
  by_cases hjc : j = c.job
  · subst hjc
    obtain ⟨a, ha⟩ := hok
    simp only [Fleet.call, Fleet.set_keys_self]
    exact wp_run (prog_exact (hf c.job hc)) c.faults a ha
  · simp only [Fleet.call, Fleet.set_keys_ne hjc]
    exact hf j ((List.mem_insert_iff.1 hj).resolve_left hjc)

/-- **Successful calls keep a fleet exact.** -/
theorem calls_exact (hf : f.Exact tenantOf) {cs : List FleetCall} (hjs : ∀ c ∈ cs, c.job ∈ f.jobs)
    (hok : f.Succeed fcfg cs) : (f.calls fcfg cs).Exact tenantOf ∧ (f.calls fcfg cs).jobs = f.jobs := by
  induction cs generalizing f with
  | nil => exact ⟨hf, rfl⟩
  | cons c cs ih =>
    have hc : c.job ∈ f.jobs := hjs c (by simp)
    have hsm : (f.call fcfg c).jobs = f.jobs := List.insert_of_mem hc
    obtain ⟨h1, h2⟩ :=
      ih (call_exact hf hc hok.1) (fun d hd => by rw [hsm]; exact hjs d (by simp [hd])) hok.2
    exact ⟨h1, h2.trans hsm⟩

/-- Every job is new, with its tenant recorded. -/
def Fleet.Fresh (f : Fleet) (tenantOf : String → String) : Prop :=
  ∀ j ∈ f.jobs, (f.keys j).Fresh (tenantOf j)

/-- **The indexes and the active sets are exact.** From jobs whose tenant was recorded first, after
any successful calls: a job is in the index of its meta state and in no other, and in its tenant's
active set exactly as long as that state is not terminal. -/
theorem indexes_exact (fcfg : FleetConfig) {f : Fleet} (hf : f.Fresh tenantOf) {cs : List FleetCall}
    (hjobs : ∀ c ∈ cs, c.job ∈ f.jobs) (hok : f.Succeed fcfg cs) :
    ∀ j ∈ f.jobs, ((f.calls fcfg cs).keys j).jobMeta.tenant = some (tenantOf j) ∧
      (∀ s, j ∈ (f.calls fcfg cs).stateIndex s ↔ ((f.calls fcfg cs).keys j).jobMeta.state = some s) ∧
      (j ∈ (f.calls fcfg cs).tenantActive (tenantOf j) ↔
        ∃ s, ((f.calls fcfg cs).keys j).jobMeta.state = some s ∧ terminalStates s = false) := by
  intro j hj
  obtain ⟨hex, hsm⟩ := calls_exact (fun j hj => (hf j hj).exact) hjobs hok
  have hj' : j ∈ (f.calls fcfg cs).jobs := hsm ▸ hj
  have h := hex j hj'
  refine ⟨h.recorded, fun s => ?_, ?_⟩
  · rw [Fleet.mem_stateIndex, h.index s]
    exact and_iff_right hj'
  · rw [Fleet.mem_tenantActive, h.active]
    simp [hj', isActiveState]

/-- Two new jobs of two tenants. -/
def twoJobs : Fleet where
  jobs := ["job-1", "job-2"]
  nodup := by decide
  keys j := { jobMeta := { tenant := some (if j = "job-1" then "acme" else "globex") } }

/-- One job is cancelled, the other runs to its end. -/
def twoJobsCalls : List FleetCall :=
  [⟨"job-1", .setStateWithContext .pending 1, trivial, []⟩,
    ⟨"job-2", .setStateWithContext .running 2, trivial, []⟩, ⟨"job-1", .cancelJob 3, trivial, []⟩,
    ⟨"job-2", .projectJobResult .succeeded "res" "worker-1" 4, trivial, []⟩]

theorem twoJobs_exact :
    "job-2" ∈ (twoJobs.calls ⟨60, ⟨fun _ => none⟩⟩ twoJobsCalls).stateIndex .succeeded ∧
      "job-2" ∉ (twoJobs.calls ⟨60, ⟨fun _ => none⟩⟩ twoJobsCalls).tenantActive "globex" := by
  have hf : twoJobs.Fresh fun j => if j = "job-1" then "acme" else "globex" := by
    intro j _
    refine ⟨rfl, ?_, rfl, rfl, fun _ => rfl, rfl⟩
    dsimp only
    split <;> decide
  have hok : twoJobs.Succeed ⟨60, ⟨fun _ => none⟩⟩ twoJobsCalls :=
    ⟨⟨_, rfl⟩, ⟨_, rfl⟩, ⟨_, rfl⟩, ⟨_, rfl⟩, trivial⟩
  have hsta : ((twoJobs.calls ⟨60, ⟨fun _ => none⟩⟩ twoJobsCalls).keys "job-2").jobMeta.state =
      some .succeeded := rfl
  obtain ⟨-, hind, hact⟩ := indexes_exact ⟨60, ⟨fun _ => none⟩⟩ hf (by decide) hok "job-2" (by decide)
  refine ⟨(hind .succeeded).2 hsta, fun h => ?_⟩
  obtain ⟨s, hs, htm⟩ := hact.1 h
  cases hsta.symm.trans hs
  cases htm

end Cordum
