import Cordum.Store.Sends

/-!
# A revoked dispatch

A rollback or a cancellation deletes the dispatch fields from the runtime hash. Every event call
starts by copying them from the legacy meta hash where they are lacking, and no call deletes them
there, so a legacy job's dispatch comes back with the next event.

* `stays_revoked_iff`: dispatch `d` stays revoked in every run over legacy fields `ℓ` exactly
  when `ℓ` is not a complete record of `d`.
-/

namespace Cordum

open Conc World StoreOp Base64

/-- The fence `f`, filled up from the legacy fields `ℓ`, names `d` with a worker and a tenant. -/
def Restores (ℓ : Fence) (d : String) (f : Fence) : Prop :=
  (f.dispatchId <|> nonEmpty ℓ.dispatchId) = some d ∧ (f.workerId <|> nonEmpty ℓ.workerId).isSome ∧
    (f.tenant <|> nonEmpty ℓ.tenant).isSome

variable {cfg : StoreConfig} {rt : Runtime} {c : RtCmd} {ℓ : Fence} {code n : ℤ}
  {l₁ l₂ l3 : List StoreEntry} {e e' : StoreEntry}

/-- The script accepts an event that names dispatch `d`. -/
def AcceptsScript (cfg : StoreConfig) (d : String) (rt : Runtime) : RtCmd → Prop
  | .acceptJobEvent c id => c.dispatchId = d ∧ (acceptJobEventScript c id cfg.ttl rt).2 = 1
  | .acceptSignedJobEvent c id g => c.dispatchId = d ∧ (acceptSignedJobEventScript c id g cfg.ttl rt).2 = 1
  | .applyJobResult a => a.claim.dispatchId = d ∧ (applyJobResultScript a cfg.ttl rt).2 = 1
  | _ => False

/-- The command ran a script that accepted an event of dispatch `d`. -/
def Accepts (cfg : StoreConfig) (d : String) (e : StoreEntry) : Prop :=
  ∃ c, RanScript e c ∧ AcceptsScript cfg d e.pre.runtime c

/-- A rollback of `d` that returns 1, or a cancellation of an open job whose dispatch is `d`. -/
def RevokesScript (d : String) (rt : Runtime) : RtCmd → Prop
  | .rollbackDispatch d' n => d' = d ∧ (rollbackDispatchScript d' n rt).2 = 1
  | .cancelAllJobAttempts => rt.fence.dispatchId = some d ∧ cancelStops rt.state = false
  | _ => False

/-- The command ran a script that revoked dispatch `d`. -/
def Revokes (d : String) (e : StoreEntry) : Prop :=
  ∃ c, RanScript e c ∧ RevokesScript d e.pre.runtime c

/-- `uuid.NewString` does not give a revoked id again. -/
def FreshAfter (cfg : StoreConfig) (k : JobKeys) (acts : List (Action StoreOp)) (d : String) : Prop :=
  ∀ l₁ e l₂, storeLog cfg k acts = l₁ ++ e :: l₂ → Revokes d e →
    ∀ e' ∈ l₂, ∀ w t, ¬ RanScript e' (.beginDispatch d w t)

/-! ## One script -/

variable {d : String}

theorem fenced_of_accepts (h : AcceptsScript cfg d rt c) :
    ∃ cl : Claim, cl.dispatchId = d ∧ rt.fenced cl := by
  cases c with
  | acceptJobEvent cl id =>
    obtain ⟨hd, h1⟩ := h
    rcases acceptJobEventScript_cases rt cfg.ttl cl id with ⟨-, h'⟩ | ⟨-, -, h'⟩ | ⟨hf, -, -⟩
    · rw [h'] at h1; cases h1
    · rw [h'] at h1; cases h1
    · exact ⟨cl, hd, hf⟩
  | acceptSignedJobEvent cl id g =>
    obtain ⟨hd, h1⟩ := h
    rcases acceptSignedJobEventScript_cases rt cfg.ttl cl id g with
      ⟨-, h'⟩ | ⟨-, h'⟩ | ⟨hf, -⟩ | ⟨hf, -⟩ | ⟨hf, -⟩
    · rw [h'] at h1; cases h1
    · rw [h'] at h1; cases h1
    all_goals exact ⟨cl, hd, hf⟩
  | applyJobResult a =>
    obtain ⟨hd, h1⟩ := h
    rcases applyJobResultScript_cases rt cfg.ttl a with ⟨-, h'⟩ | ⟨hf, -⟩ | ⟨hf, -⟩ | ⟨hf, -⟩ | ⟨hf, -⟩
    · rw [h'] at h1; cases h1
    all_goals exact ⟨a.claim, hd, hf⟩
  | _ => exact h.elim

theorem restores_of_accepts (h : AcceptsScript cfg d rt c) : Restores ℓ d rt.fence := by
  obtain ⟨cl, rfl, hf⟩ := fenced_of_accepts h
  rw [Runtime.fenced_iff.1 hf]
  exact ⟨rfl, rfl, rfl⟩

theorem fence_of_revokes (h : RevokesScript d rt c) :
    (runtimeStep cfg c rt).1.fence = { attempt := rt.fence.attempt } := by
  cases c with
  | rollbackDispatch d' n =>
    obtain ⟨-, h1⟩ := h
    simp only [runtimeStep, rollbackDispatchScript] at h1 ⊢
    split_ifs at h1 ⊢
    · cases h1
    · cases h1
    · rfl
  | cancelAllJobAttempts =>
    simp [runtimeStep, cancelAllJobAttemptsScript, h.2]
  | _ => exact h.elim

/-- **No script but `BeginDispatch` makes a dispatch restorable.** -/
theorem not_restores_step (hℓ : ¬ Restores ℓ d {})
    (hmig : ∀ s f, c = .migrateRuntimeFence s f → f = ℓ) (hbeg : ∀ w t, c ≠ .beginDispatch d w t)
    (h : ¬ Restores ℓ d rt.fence) : ¬ Restores ℓ d (runtimeStep cfg c rt).1.fence := by
  obtain ⟨rt', hchg, -, hfen, -⟩ := runtimeStep_change cfg c rt
  rw [hfen]
  cases hchg with
  | @migrated s f =>
    cases hmig s f rfl
    simpa [Restores, Option.orElse_eq_or, Option.or_assoc] using h
  | @begun d' w t attempt =>
    have hne : d' ≠ d := by rintro rfl; exact hbeg w t rfl
    simpa [Restores] using hne
  | rolledBack | cancelled => exact hℓ
  | _ => exact h

/-! ## Runs -/

/-- The calls that carry an event of dispatch `d`. -/
def Carries (d : String) : StoreOp → Prop
  | .acceptJobEvent c _ => c.dispatchId = d
  | .acceptSignedJobEvent c _ _ => c.dispatchId = d
  | .applyJobResult a => a.claim.dispatchId = d
  | _ => False

/-- The answers that mean the event was accepted. -/
def AcceptedAnswer (r : Except StoreErr StoreAns) : Prop :=
  r = .ok (.accepted true) ∨ r = .ok (.disposed .applied)

/-- **Dispatch `d` stays revoked.** -/
structure StaysRevoked (cfg : StoreConfig) (k : JobKeys) (acts : List (Action StoreOp))
    (d : String) : Prop where
  /-- After a revocation no script accepts an event of `d`. -/
  scripts : ∀ l₁ e l₂, storeLog cfg k acts = l₁ ++ e :: l₂ → Revokes d e → ∀ e' ∈ l₂, ¬ Accepts cfg d e'
  /-- An event of `d` that was accepted was accepted before the revocation. -/
  calls : ∀ l₁ e l₂, storeLog cfg k acts = l₁ ++ e :: l₂ → Revokes d e →
    ∀ i op r, Carries d op → Ended cfg k acts i op r → AcceptedAnswer r →
      ∃ e' ∈ l₁, e'.tid = i ∧ Accepts cfg d e'
  /-- A rollback of `d` that answered `true` is a revocation. -/
  rollback : ∀ i n, Ended cfg k acts i (.rollbackDispatch d n) (.ok (.rolledBack true)) →
    ∃ e ∈ storeLog cfg k acts, e.tid = i ∧ Revokes d e

section

variable {k : JobKeys} {acts : List (Action StoreOp)} {i : ℕ} {d : String}

theorem dispositionOf_applied (h : (dispositionOf code).map StoreAns.disposed = .ok (.disposed .applied)) :
    code = 1 := by
  cases hd : dispositionOf code with
  | error e => rw [hd] at h; cases h
  | ok d =>
    rw [hd] at h
    cases h
    exact dispositionOf_eq_applied hd

theorem accepts_of_answer {op : StoreOp} {r : Except StoreErr StoreAns} (hop : Carries d op)
    (h : Ended cfg k acts i op r) (hr : AcceptedAnswer r) :
    ∃ e ∈ storeLog cfg k acts, e.tid = i ∧ Accepts cfg d e := by
  have hfl : ∀ err, op.prog cfg.jobID ≠ .fail err := by
    intro err hp
    have := path_of_finished _ _ k acts h
    rw [hp] at this
    rcases hr with rfl | rfl <;> cases this.2
  cases op with
  | acceptJobEvent c id =>
    have hcm : ¬ (cfg.jobID = "" ∨ c.dispatchId = "" ∨ c.workerId = "" ∨ c.tenant = "" ∨ id = "") :=
      fun hc => hfl _ (by simp only [prog, acceptJobEvent, if_pos hc]; rfl)
    obtain ⟨a, rfl⟩ : ∃ a, r = .ok a := by rcases hr with rfl | rfl <;> exact ⟨_, rfl⟩
    obtain ⟨e, he, hi, hran, hans⟩ :=
      ended_event_ok rfl (acceptJobEvent_prog hcm) h
    refine ⟨e, he, hi, _, hran, hop, ?_⟩
    rcases hr with hr | hr <;> rw [hr] at hans
    · simpa [Except.map, runtimeStep] using hans
    · simp [Except.map] at hans
  | acceptSignedJobEvent c m g =>
    have hcm : ¬ (cfg.jobID = "" ∨ c.dispatchId = "" ∨ c.attempt ≤ 0 ∨ c.workerId = "" ∨ c.tenant = "" ∨
        m = [] ∨ g = []) :=
      fun hc => hfl _ (by simp only [prog, acceptSignedJobEvent, if_pos hc]; rfl)
    obtain ⟨a, rfl⟩ : ∃ a, r = .ok a := by rcases hr with rfl | rfl <;> exact ⟨_, rfl⟩
    obtain ⟨e, he, hi, hran, hans⟩ :=
      ended_event_ok rfl (acceptSignedJobEvent_prog hcm) h
    refine ⟨e, he, hi, _, hran, hop, ?_⟩
    rcases hr with hr | hr <;> rw [hr] at hans
    · cases hx : dispositionOf (runtimeStep cfg (.acceptSignedJobEvent c (encode rawURL m)
        (encode rawStd g)) e.pre.runtime).2 <;> rw [hx] at hans <;> cases hans
    · exact dispositionOf_applied hans
  | applyJobResult a =>
    have hcm : ¬ a.incomplete cfg.jobID :=
      fun hc => hfl _ (by simp only [prog, applyJobResult, if_pos hc]; rfl)
    obtain ⟨x, rfl⟩ : ∃ x, r = .ok x := by rcases hr with rfl | rfl <;> exact ⟨_, rfl⟩
    obtain ⟨e, he, hi, hran, hans⟩ :=
      ended_event_ok rfl (applyJobResult_prog hcm) h
    refine ⟨e, he, hi, _, hran, hop, ?_⟩
    rcases hr with hr | hr <;> rw [hr] at hans
    · cases hx : dispositionOf (runtimeStep cfg (.applyJobResult a.args) e.pre.runtime).2
        <;> rw [hx] at hans <;>
        cases hans
    · exact dispositionOf_applied hans
  | _ => exact hop.elim

theorem revokes_of_rollback (h : Ended cfg k acts i (.rollbackDispatch d n) (.ok (.rolledBack true))) :
    ∃ e ∈ storeLog cfg k acts, e.tid = i ∧ Revokes d e := by
  have hp := path_of_finished _ _ k acts h
  simp only [prog, rollbackDispatch] at hp
  split_ifs at hp
  · cases hp.2
  rcases Prog.path_bind.1 hp with ⟨h₁, h2, b, hl, h1, -, hb⟩ | ⟨e, he, -⟩
  · rcases Prog.path_bind.1 h1 with ⟨l₁, l₂, x, rfl, hx, -, hr⟩ | ⟨e, he, -⟩
    · rcases Prog.path_exec.1 hx with ⟨y, rfl, hy⟩ | ⟨-, hy⟩
      · cases hy
        have hmem : (⟨.rt (.rollbackDispatch d n), some x⟩) ∈
            seen (store cfg) i (storeLog cfg k acts) := by
          unfold storeLog storeRun; rw [hl]; simp
        obtain ⟨e, he, hi, hobs⟩ := (mem_seen (store cfg)).1 hmem
        refine ⟨e, he, hi, ?_⟩
        obtain ⟨tid, pre, cmd, fault⟩ := e
        cases fault with
        | none =>
          cases hobs
          refine ⟨_, ⟨by rintro ⟨⟩, rfl⟩, rfl, ?_⟩
          cases hb
          have hcd := hr.symm
          simp only [Except.ok.injEq, beq_iff_eq] at hcd
          exact hcd
        | lost | late => cases hobs
      · cases hy
    · cases he
  · cases he

/-- From a revocation on, the fence cannot be restored to `d`. -/
theorem not_restores_after (hℓ : ¬ Restores k.jobMeta.dispatch d {}) (hfr : FreshAfter cfg k acts d)
    (hl : storeLog cfg k acts = l₁ ++ e :: (l₂ ++ e' :: l3))
    (he : Revokes d e) : ¬ Restores k.jobMeta.dispatch d e'.pre.runtime.fence := by
  obtain ⟨c, hc, hrev⟩ := he
  have hsrt : ¬ Restores k.jobMeta.dispatch d (e.post (store cfg)).runtime.fence := by
    rw [post_runtime_of_ran hc, fence_of_revokes hrev]; exact hℓ
  have hch := run_init_chain (prog cfg.jobID) (store cfg) k acts
  have hlog : (run (prog cfg.jobID) (store cfg) (init k) acts).log = l₁ ++ e :: (l₂ ++ e' :: l3) :=
    hl
  rw [hlog] at hch
  refine chain_inv (P := fun s : JobKeys => ¬ Restores k.jobMeta.dispatch d s.runtime.fence)
    (chain_split (chain_split hch).2).1 hsrt fun x hx hpre => ?_
  rcases post_runtime with ⟨heq, -⟩ | ⟨c', hc', heq⟩
  · rw [heq]; exact hpre
  rw [heq]
  have hmem : x ∈ storeLog cfg k acts := by rw [hl]; simp [hx]
  have hany : World.SpawnsOnly (fun _ => True) acts := fun _ _ => trivial
  obtain ⟨op, -, -, hs⟩ := storeRun_sends hany hmem
  refine not_restores_step hℓ (fun s f hsf => ?_) (fun w t hwt => ?_) hpre
  · rw [hc'.2, hsf] at hs; exact hs
  · exact hfr l₁ e _ hl ⟨c, hc, hrev⟩ x (by simp [hx]) w t ⟨hc'.1, by rw [hc'.2, hwt]⟩

/-- **A dispatch stays revoked unless the legacy hash still records it.** -/
theorem staysRevoked_of_not_restores (hℓ : ¬ Restores k.jobMeta.dispatch d {})
    (hfr : FreshAfter cfg k acts d) :
    StaysRevoked cfg k acts d := by
  have hscr : ∀ l₁ e l₂, storeLog cfg k acts = l₁ ++ e :: l₂ → Revokes d e →
      ∀ e' ∈ l₂, ¬ Accepts cfg d e' := by
    rintro l₁ e l₂ hl he e' he' ⟨c, -, hacc⟩
    obtain ⟨l3, l4, rfl⟩ := List.append_of_mem he'
    exact not_restores_after hℓ hfr hl he (restores_of_accepts hacc)
  refine ⟨hscr, fun l₁ e l₂ hl he i op r hop hend hr => ?_, fun i n h => revokes_of_rollback h⟩
  obtain ⟨e', he', hi, hacc⟩ := accepts_of_answer hop hend hr
  rw [hl] at he'
  rcases List.mem_append.1 he' with h | h
  · exact ⟨e', h, hi, hacc⟩
  rcases List.mem_cons.1 h with rfl | h
  · -- one script cannot both revoke and accept
    obtain ⟨c, hc, hrev⟩ := he
    obtain ⟨c', hc', hacc'⟩ := hacc
    cases hc.2.symm.trans hc'.2
    cases c <;> first | exact hrev.elim | exact hacc'.elim
  · exact absurd hacc (hscr l₁ e l₂ hl he e' h)

end

/-! ## A legacy job -/

/-- A job dispatched as `d` to `w` for `t`, over the legacy fields `ℓ`. -/
def legacyKeys (ℓ : Fence) (d w t : String) : JobKeys :=
  { runtime := { state := some .dispatched, fence := ⟨some d, some 1, some w, some t⟩ }
    jobMeta := { state := some .dispatched, dispatch := ℓ } }

/-- The dispatch is rolled back, and then its worker reports. -/
def reportAfterRollback (d w t : String) : List (Action StoreOp) :=
  alone 0 (.rollbackDispatch d 1) 1 ++ alone 1 (.acceptJobEvent ⟨d, 1, w, t⟩ "e1") 3

theorem nonEmpty_eq_some {x : Option String} {v : String} : nonEmpty x = some v ↔ x = some v ∧ v ≠ "" := by
  simp [nonEmpty]

/-- The migration restores the fence and the event is accepted. -/
theorem reportAfterRollback_log {w t : String} (hd : nonEmpty ℓ.dispatchId = some d)
    (hw : nonEmpty ℓ.workerId = some w) (ht : nonEmpty ℓ.tenant = some t) :
    ∃ e e₁ e2 e3, storeLog exampleConfig (legacyKeys ℓ d w t) (reportAfterRollback d w t) =
      [e, e₁, e2, e3] ∧ Revokes d e ∧ Accepts exampleConfig d e3 := by
  have hd0 := (nonEmpty_eq_some.1 hd).2
  have hw0 := (nonEmpty_eq_some.1 hw).2
  have ht0 := (nonEmpty_eq_some.1 ht).2
  have hrl : (StoreOp.rollbackDispatch d 1).prog exampleConfig.jobID =
      ((rt (.rollbackDispatch d 1) "job store rollback dispatch").bind fun r => .ret (r == 1)).bind
        fun b => .ret (.rolledBack b) := by
    simp [prog, rollbackDispatch, hd0, exampleConfig]
  have hacc :=
    @acceptJobEvent_prog exampleConfig.jobID ⟨d, 1, w, t⟩ "e1" (by simp [exampleConfig, hd0, hw0, ht0])
  let k0 := legacyKeys ℓ d w t
  let k1 := (store exampleConfig (.rt (.rollbackDispatch d 1)) k0).1
  let k2 := (store exampleConfig (.rt (.migrateRuntimeFence k1.jobMeta.state k1.jobMeta.dispatch)) k1).1
  refine ⟨⟨0, k0, .rt (.rollbackDispatch d 1), .none⟩, ⟨1, k1, .key .hgetAllMeta, .none⟩,
    ⟨1, k1, .rt (.migrateRuntimeFence k1.jobMeta.state k1.jobMeta.dispatch), .none⟩,
    ⟨1, k2, .rt (.acceptJobEvent ⟨d, 1, w, t⟩ "e1"), .none⟩, ?_, ?_, ?_⟩
  · have h0 : run (prog exampleConfig.jobID) (store exampleConfig) (init k0)
        (alone 0 (.rollbackDispatch d 1) 1) =
        ⟨k1, [(.rollbackDispatch d 1,
          Prog.ofResult (((StoreOp.rollbackDispatch d 1).prog exampleConfig.jobID).run
          (store exampleConfig) [] k0).ans)], [⟨0, k0, .rt (.rollbackDispatch d 1), .none⟩]⟩ :=
      (run_alone _ _ k0 [] [] (StoreOp.rollbackDispatch d 1) (by rw [hrl]; exact Nat.le_refl 1)).trans
        (by rw [hrl]; rfl)
    show (run _ _ _ (alone 0 _ 1 ++ alone 1 _ 3)).log = _
    rw [run_append, h0]
    refine (congrArg log (run_alone _ _ k1 [_] [_] (StoreOp.acceptJobEvent ⟨d, 1, w, t⟩ "e1")
      (by rw [hacc]; exact Nat.le_refl 3))).trans ?_
    rw [hacc]
    rfl
  · exact ⟨_, ⟨by rintro ⟨⟩, rfl⟩, rfl, by simp [k0, legacyKeys, rollbackDispatchScript]⟩
  · refine ⟨_, ⟨by rintro ⟨⟩, rfl⟩, rfl, ?_⟩
    have hf : k2.runtime.fence = ⟨some d, some 1, some w, some t⟩ := by
      simp [k2, k1, k0, legacyKeys, runtimeStep, rollbackDispatchScript,
        migrateRuntimeFenceScript, hd, hw, ht]
    have he : k2.runtime.events = ∅ := by
      simp [k2, k1, k0, legacyKeys, runtimeStep, rollbackDispatchScript, migrateRuntimeFenceScript]
    rcases acceptJobEventScript_cases k2.runtime exampleConfig.ttl ⟨d, 1, w, t⟩ "e1" with
      ⟨h, -⟩ | ⟨-, ⟨p, hp⟩, -⟩ | ⟨-, -, h⟩
    · exact absurd (Runtime.fenced_iff.2 hf) (by rw [h]; decide)
    · rw [he] at hp; cases hp
    · rw [h]

/-- **When a revoked dispatch stays revoked**, in every interleaving of store calls: if and only if
the legacy dispatch fields `ℓ` do not hold it with a worker and a tenant. -/
theorem stays_revoked_iff (ℓ : Fence) (d : String) :
    (∀ (cfg : StoreConfig) (k : JobKeys) (acts : List (Action StoreOp)), k.jobMeta.dispatch = ℓ →
      FreshAfter cfg k acts d → StaysRevoked cfg k acts d) ↔ ¬ Restores ℓ d {} := by
  constructor
  · rintro h ⟨hd, hw, ht⟩
    obtain ⟨w, hw⟩ := Option.isSome_iff_exists.1 hw
    obtain ⟨t, ht⟩ := Option.isSome_iff_exists.1 ht
    obtain ⟨e, e₁, e₂, e₃, hlog, hrev, hacc⟩ := reportAfterRollback_log hd hw ht
    refine (h exampleConfig (legacyKeys ℓ d w t) (reportAfterRollback d w t) rfl ?_).scripts
      [] e [e₁, e₂, e₃] hlog hrev
      e₃ (by simp) hacc
    intro l₁ e' l₂ hl _ e'' he'' w' t' hran
    have hmem : e'' ∈ storeLog exampleConfig (legacyKeys ℓ d w t) (reportAfterRollback d w t) := by
      rw [hl]; simp [he'']
    have hno : World.SpawnsOnly (fun op => ∀ w t, op ≠ .beginDispatch w t d)
        (reportAfterRollback d w t) := by
      intro op hop
      simp [reportAfterRollback, alone] at hop
      rcases hop with rfl | rfl <;> exact nofun
    obtain ⟨op, -, hop, hs⟩ := storeRun_sends hno hmem
    rw [hran.2] at hs
    exact hop _ _ hs
  · rintro hℓ cfg k acts rfl hfr
    exact staysRevoked_of_not_restores hℓ hfr

/-- Fields that an older version left. -/
def legacyDispatch : Fence := ⟨some "d1", some 1, some "worker-1", some "acme"⟩

/-- **A revoked dispatch comes back**: the rollback of `d1` answers `true`, and then an event of it is
accepted. -/
theorem stays_revoked_fails :
    Ended exampleConfig (legacyKeys legacyDispatch "d1" "worker-1" "acme")
      (reportAfterRollback "d1" "worker-1" "acme") 0 (.rollbackDispatch "d1" 1) (.ok (.rolledBack true)) ∧
    Ended exampleConfig (legacyKeys legacyDispatch "d1" "worker-1" "acme")
      (reportAfterRollback "d1" "worker-1" "acme") 1 (.acceptJobEvent ⟨"d1", 1, "worker-1", "acme"⟩ "e1")
      (.ok (.accepted true)) ∧
    ¬ StaysRevoked exampleConfig (legacyKeys legacyDispatch "d1" "worker-1" "acme")
      (reportAfterRollback "d1" "worker-1" "acme") "d1" := by
  refine ⟨rfl, rfl, fun h => ?_⟩
  obtain ⟨e, e₁, e₂, e₃, hlog, hrev, hacc⟩ :=
    @reportAfterRollback_log legacyDispatch "d1" "worker-1" "acme" rfl rfl rfl
  exact h.scripts [] e [e₁, e₂, e₃] hlog hrev e₃ (by simp) hacc

end Cordum
