import Cordum.Workflow.Status

/-!
# The status of a run and the order of its steps

`updateRunStatus` enumerates the steps of the definition, a Go map, and changes them while it goes: a
step that failed for good has its dependents skipped, and an error handler among them may have been
what another step's error was waiting for.

* `status_order_free_iff`: the status and the skipped steps do not depend on the order exactly when
  the run is settled.
* `status_depends_on_order`: a denied step, and a failed one whose handler depends on it.
-/

namespace Cordum.Flow

open Graph WorkflowRun List Tally

variable {done : List String} {id a b e p x : String} {s : Tally × WorkflowRun} {now : ℤ} {wf : Workflow}
  {run₀ run run' run1 run2 : WorkflowRun} {K K' : String → Prop}

/-! ## Skipping and the verdicts -/

theorem Skips.refl (run : WorkflowRun) : Skips run run fun _ => False :=
  ⟨by simp, by simp, fun _ _ => rfl⟩

theorem Skips.trans (h : Skips run₀ run K) (h' : Skips run run' K') :
    Skips run₀ run' fun id => K id ∨ K' id := by
  have hds : ∀ id, K' id → ¬ K id := by
    intro id hK' hK
    have := (h.skipped id hK).symm.trans (h'.pending id hK')
    cases this
  refine ⟨?_, ?_, ?_⟩
  · rintro id (hK | hK')
    · exact h.pending id hK
    · rw [stepStatus, ← h.others id (hds id hK')]
      exact h'.pending id hK'
  · rintro id (hK | hK')
    · rw [stepStatus, h'.others id fun hK' => hds id hK' hK]
      exact h.skipped id hK
    · exact h'.skipped id hK'
  · intro id hid
    rw [not_or] at hid
    rw [h'.others id hid.2, h.others id hid.1]

theorem Skips.pending_of (h : Skips run₀ run K) (hp : run.stepStatus id = some .pending) :
    run₀.stepStatus id = some .pending ∧ ¬ K id := by
  have hK : ¬ K id := by
    intro hK
    have := (h.skipped id hK).symm.trans hp
    cases this
  rw [stepStatus, h.others id hK] at hp
  exact ⟨hp, hK⟩

/-- Every step keeps its status, or was pending and is skipped. -/
def Later (run run' : WorkflowRun) : Prop :=
  ∀ id, run'.stepStatus id = run.stepStatus id ∨
    run.stepStatus id = some .pending ∧ run'.stepStatus id = some .skipped

theorem Skips.later (h : Skips run₀ run K) : Later run₀ run := by
  intro id
  by_cases hK : K id
  · exact .inr ⟨h.pending id hK, h.skipped id hK⟩
  · rw [stepStatus, h.others id hK]
    exact .inl rfl

/-- Of two ways to skip pending steps, one that skips more. -/
theorem Skips.later_of_le (h : Skips run₀ run K) (h' : Skips run₀ run' K')
    (hle : ∀ id, K id → K' id) : Later run run' := by
  intro id
  by_cases hK : K id
  · exact .inl ((h'.skipped id (hle id hK)).trans (h.skipped id hK).symm)
  · have hsm : run.stepStatus id = run₀.stepStatus id := by rw [stepStatus, h.others id hK]; rfl
    rw [hsm]
    exact h'.later id

theorem Later.chainStep_or (h : Later run₀ run) (wf : Workflow) (id : String) :
    chainStep wf run₀ id = chainStep wf run id ∨ ∃ p, p = .pending ∧ chainStep wf run₀ id = .inl p := by
  unfold chainStep
  cases wf.step id with
  | none => exact .inl rfl
  | some stepDef =>
    by_cases hon : stepDef.onError = ""
    · simp [hon]
    simp only [hon]
    rcases h stepDef.onError with hsm | ⟨hp, -⟩
    · rw [hsm]
      exact .inl rfl
    · rw [hp]
      exact .inr ⟨_, rfl, rfl⟩

/-- Skipping pending steps leaves every outcome of a walk that was not open. -/
theorem Later.walk_eq (h : Later run₀ run) (hw : walkOnErrorChain wf run₀ id ≠ .pending) :
    walkOnErrorChain wf run id = walkOnErrorChain wf run₀ id := by
  have hsp := h.chainStep_or wf
  cases hwl : walkOnErrorChain wf run₀ id with
  | pending => exact absurd hwl hw
  | recovered =>
    obtain ⟨n, hn⟩ := (walkOnErrorChain_eq_iff (by decide)).1 hwl
    exact (walkOnErrorChain_eq_iff (by decide)).2 ⟨n, hn.refine hsp (by decide)⟩
  | exhausted =>
    by_contra hne
    obtain ⟨n, hn⟩ := (walkOnErrorChain_eq_iff hne).1 rfl
    rcases hn.unrefine hsp with hm | ⟨m, _, rfl, hm⟩
    · exact hne ((walkOnErrorChain_eq_iff hne).2 hm ▸ hwl)
    · exact hw ((walkOnErrorChain_eq_iff (by decide)).2 ⟨m, hm⟩)

/-- Skipping pending steps leaves every verdict on an error that was not open. -/
theorem Later.afterError_eq (h : Later run₀ run) {v : Verdict}
    (hv : afterError wf run₀ id v ≠ .unfinished) :
    afterError wf run id v = afterError wf run₀ id v := by
  cases hsp : wf.step id with
  | none => simp only [afterError, hsp]
  | some stepDef =>
    by_cases hon : stepDef.onError = ""
    · simp only [afterError, hsp, hon, if_true]
    have hw : walkOnErrorChain wf run₀ id ≠ .pending := by
      intro hp
      simp only [afterError, hsp, hon, hp] at hv
      exact hv rfl
    simp only [afterError, hsp, hon, h.walk_eq hw]

/-- **Skipping pending steps leaves every verdict that was not open.** -/
theorem Skips.verdict_eq (h : Skips run₀ run K) (hv : verdict wf run₀ id ≠ .unfinished) :
    verdict wf run id = verdict wf run₀ id := by
  have hK : ¬ K id := by
    intro hK
    have hp := h.pending id hK
    rw [stepStatus] at hp
    cases hsr : run₀.step id with
    | none => rw [hsr] at hp; cases hp
    | some sr =>
      rw [hsr] at hp
      have hs : sr.status = .pending := by simpa using hp
      rw [verdict_some hsr, verdictOf, hs] at hv
      exact hv rfl
  have hsm := h.others id hK
  cases hsr : run₀.step id with
  | none => simp only [verdict, hsm, hsr]
  | some sr =>
    rw [hsr] at hsm
    rw [verdict_some hsr] at hv ⊢
    rw [verdict_some hsm]
    unfold verdictOf at hv ⊢
    cases hs : sr.status with
    | failed | denied | timedOut => rw [hs] at hv; exact h.later.afterError_eq hv
    | _ => rfl

/-- The verdicts that have a step's dependents skipped. -/
def dooms : Verdict → Bool
  | .failed | .denied => true
  | .notNeeded | .unfinished | .waiting | .completed | .timedOut | .cancelled => false

theorem status_of_dooms (h : dooms (verdict wf run id)) : ∃ sr, run.step id = some sr ∧
      (sr.status = .failed ∧ verdict wf run id = afterError wf run id .failed ∨
        sr.status = .denied ∧ verdict wf run id = afterError wf run id .denied) := by
  cases hsr : run.step id with
  | none =>
    simp only [verdict, hsr] at h
    split at h <;> cases h
  | some sr =>
    refine ⟨sr, rfl, ?_⟩
    rw [verdict_some hsr] at h ⊢
    unfold verdictOf at h ⊢
    have htim : dooms (afterError wf run id .timedOut) = false := by
      unfold afterError
      repeat' split
      all_goals rfl
    cases hs : sr.status with
    | failed => exact .inl ⟨rfl, rfl⟩
    | denied => exact .inr ⟨rfl, rfl⟩
    | timedOut => rw [hs] at h; exact absurd (htim.symm.trans h) (by decide)
    | cancelled => simp only [hs] at h; split at h <;> cases h
    | _ => rw [hs] at h; cases h

theorem pending_not_dooms (h : dooms (verdict wf run id)) : run.stepStatus id ≠ some .pending := by
  obtain ⟨sr, hsr, hs⟩ := status_of_dooms h
  intro hp
  rw [stepStatus, hsr] at hp
  have hp : sr.status = .pending := by simpa using hp
  rcases hs with ⟨hs, -⟩ | ⟨hs, -⟩ <;> rw [hs] at hp <;> cases hp

theorem Later.verdict_of_dooms (h : Later run₀ run) (hd : dooms (verdict wf run₀ id)) :
    verdict wf run id = verdict wf run₀ id := by
  obtain ⟨sr, hsr, hs⟩ := status_of_dooms hd
  have hst := (h id).resolve_right fun hp => pending_not_dooms hd hp.1
  rw [stepStatus, stepStatus, hsr] at hst
  obtain ⟨sr', hsr', hsm⟩ := Option.map_eq_some_iff.1 hst
  have hsm : sr'.status = sr.status := hsm
  have hop : ∀ v, dooms v → v ≠ .unfinished := by intro v hv he; rw [he] at hv; cases hv
  rcases hs with ⟨hs, hv⟩ | ⟨hs, hv⟩ <;> rw [hv] at hd ⊢ <;> rw [verdict_some hsr', verdictOf, hsm, hs] <;>
    exact h.afterError_eq (hop _ hd)

theorem Skips.verdict_of_cancelled (h : Skips run₀ run K) (hv : verdict wf run id = .cancelled) :
    verdict wf run₀ id = .cancelled := by
  have haft : ∀ {v : Verdict}, v ≠ .cancelled → afterError wf run id v ≠ .cancelled := by
    intro v hv
    unfold afterError
    repeat' split
    all_goals first | exact hv | decide
  cases hsr : run.step id with
  | none =>
    simp only [verdict, hsr] at hv
    split at hv <;> cases hv
  | some sr =>
    rw [verdict_some hsr, verdictOf] at hv
    cases hs : sr.status <;> simp only [hs] at hv
    case failed | denied | timedOut => exact absurd hv (haft (by decide))
    case cancelled =>
      have hK : ¬ K id := fun hK => by simpa [stepStatus, hsr, hs] using h.skipped id hK
      rw [verdict_some ((h.others id hK).symm.trans hsr), verdictOf, hs]
      exact hv
    all_goals cases hv

/-! ## What one turn of the loop does -/

/-- The steps their owner dispatches, whatever the order. -/
def managedStep (wf : Workflow) (stepID : String) : Bool :=
  managedBy (collectParallelChildOwners wf wf.ids) stepID ||
    managedBy (collectLoopBodyOwners wf wf.ids) stepID

variable (t : Tally) (o : StatusOrders wf)

theorem managed_eq {stepID : String} : o.managed stepID = managedStep wf stepID := by
  have hows : ∀ f (l : Order wf),
      managedBy (collectOwners wf f l.1) stepID = managedBy (collectOwners wf f wf.ids) stepID := by
    intro f l
    rw [Bool.eq_iff_iff, managedBy_collectOwners, managedBy_collectOwners]
    simp only [Listed, l.2.mem_iff]
  unfold StatusOrders.managed managedStep collectParallelChildOwners collectLoopBodyOwners
  rw [hows, hows]

/-- A step that has failed for good as the run stands. -/
def doomed (wf : Workflow) (run : WorkflowRun) (stepID : String) : Bool :=
  !managedStep wf stepID && dooms (verdict wf run stepID)

theorem doomed_iff : doomed wf run id ↔ managedStep wf id = false ∧ dooms (verdict wf run id) := by
  simp [doomed]

/-- A step that makes the run fail as it stands. -/
def failsRun (wf : Workflow) (run : WorkflowRun) (stepID : String) : Bool :=
  !managedStep wf stepID && (verdict wf run stepID = .failed || verdict wf run stepID = .cancelled)

/-- The run with the dependents of every step skipped that has failed for good. -/
def skipFailures (wf : Workflow) (now : ℤ) (run : WorkflowRun) : WorkflowRun :=
  (wf.ids.filter (doomed wf run)).foldl (skipDependentSteps wf (fun _ => wf.ids) now) run

/-- The step is behind one that failed for good. -/
def Lost (wf : Workflow) (run : WorkflowRun) (id : String) : Prop :=
  ∃ e ∈ wf.ids, doomed wf run e ∧ Downstream wf run e id

theorem Lost.through (ha : Lost wf run a) (h : dependsOn wf a b) (hp : run.stepStatus b = some .pending) :
    Lost wf run b := by
  obtain ⟨e, he, hdm, hdw⟩ := ha
  exact ⟨e, he, hdm, .through hdw h hp⟩

/-- With a step, its pending dependents. -/
def Closed (wf : Workflow) (run : WorkflowRun) (K : String → Prop) : Prop :=
  ∀ a b, K a → dependsOn wf a b → run.stepStatus b = some .pending → K b

theorem Downstream.mono
    (hrun : ∀ id, run.stepStatus id = some .pending → run₀.stepStatus id = some .pending)
    (h : Downstream wf run e id) : Downstream wf run₀ e id := by
  induction h with
  | direct h hp => exact .direct h (hrun _ hp)
  | through _ h hp ih => exact .through ih h (hrun _ hp)

/-- Skipping dependents after closed steps were skipped misses nothing. -/
theorem skip_closed (hski : Skips run₀ run K) (hcl : Closed wf run₀ K) (e : String) :
    Closed wf run₀ (fun id => K id ∨ Downstream wf run e id) ∧ ∀ id, Downstream wf run₀ e id →
      K id ∨ Downstream wf run e id := by
  have hpn : ∀ b, run₀.stepStatus b = some .pending → ¬ K b → run.stepStatus b = some .pending := by
    intro b hb hK
    rw [stepStatus, hski.others b hK]
    exact hb
  have hcl' : Closed wf run₀ fun id => K id ∨ Downstream wf run e id := by
    rintro a b (ha | ha) hdep hp
    · exact .inl (hcl a b ha hdep hp)
    · by_cases hK : K b
      · exact .inl hK
      · exact .inr (.through ha hdep (hpn b hp hK))
  refine ⟨hcl', fun id h => ?_⟩
  induction h with
  | @direct id h hp =>
    by_cases hK : K id
    · exact .inl hK
    · exact .inr (.direct h (hpn id hp hK))
  | through _ h hp ih => exact hcl' _ _ ih h hp

theorem Tally.count_hasFailed (v : Verdict) :
    (t.count v).hasFailed = (t.hasFailed || (v = .failed || v = .cancelled)) := by
  cases v <;> simp [count]

theorem Tally.count_hasDenied (v : Verdict) : (t.count v).hasDenied = (t.hasDenied || v = .denied) := by
  cases v <;> simp [count]

/-- Where the loop stands after the steps `done`: the steps `K` are skipped. -/
structure Visited (wf : Workflow) (run₀ : WorkflowRun) (done : List String)
    (s : Tally × WorkflowRun) (K : String → Prop) :
    Prop where
  skips : Skips run₀ s.2 K
  closed : Closed wf run₀ K
  within : ∀ id, K id → Lost wf run₀ id
  covers : ∀ e ∈ done, doomed wf run₀ e → ∀ id, Downstream wf run₀ e id → K id
  failedOf : s.1.hasFailed → ∃ y ∈ wf.ids, failsRun wf run₀ y
  failed : ∀ e ∈ done, failsRun wf run₀ e → s.1.hasFailed
  denied : ∀ e ∈ done, managedStep wf e = false → verdict wf run₀ e = .denied → s.1.hasDenied

/-- A step whose verdict was open fails for good with nothing more to skip, in a run that fails
anyway. -/
def Harmless (wf : Workflow) (run₀ run : WorkflowRun) (stepID : String) : Prop :=
  managedStep wf stepID = false → verdict wf run₀ stepID = .unfinished → dooms (verdict wf run stepID) →
    (∀ p, dependsOn wf stepID p → run₀.stepStatus p = some .pending → Lost wf run₀ p) ∧
      (verdict wf run stepID = .failed → ∃ y ∈ wf.ids, failsRun wf run₀ y)

theorem countStep_eq (now : ℤ) (s : Tally × WorkflowRun) (hm : managedStep wf id = false) :
    countStep o now s id =
      (s.1.count (verdict wf s.2 id),
        if dooms (verdict wf s.2 id) then
          skipDependentSteps wf (fun dep => (o.cascade id dep).1) now s.2 id
        else s.2) := by
  unfold countStep
  rw [managed_eq, hm]
  cases verdict wf s.2 id <;> rfl

/-- **One turn of the loop.** -/
theorem Visited.step (h : Visited wf run₀ done s K) (o : StatusOrders wf) (now : ℤ) (hid : id ∈ wf.ids)
    (hx : Harmless wf run₀ s.2 id) : ∃ K', Visited wf run₀ (done ++ [id]) (countStep o now s id) K' := by
  by_cases hm : managedStep wf id
  · -- a managed step is passed over
    have hst : countStep o now s id = s := by rw [countStep, managed_eq, hm]; rfl
    rw [hst]
    refine ⟨K, { h with
      covers := forall_mem_append.2 ⟨h.covers, forall_mem_singleton.2 fun hdm => ?_⟩
      failed := forall_mem_append.2 ⟨h.failed, forall_mem_singleton.2 fun hfls => ?_⟩
      denied := forall_mem_append.2 ⟨h.denied, forall_mem_singleton.2 fun hunm => ?_⟩ }⟩
    · simp [doomed, hm] at hdm
    · simp [failsRun, hm] at hfls
    · rw [hm] at hunm
      cases hunm
  have hm : managedStep wf id = false := Bool.eq_false_iff.2 hm
  rw [countStep_eq o now s hm]
  set v := verdict wf s.2 id
  -- what the step was before the loop began: the same, or open
  have hbef : verdict wf run₀ id = v ∨ verdict wf run₀ id = .unfinished := by
    by_cases hop : verdict wf run₀ id = .unfinished
    · exact .inr hop
    · exact .inl (h.skips.verdict_eq hop).symm
  have hfai : (s.1.count v).hasFailed → ∃ y ∈ wf.ids, failsRun wf run₀ y := by
    rw [count_hasFailed, Bool.or_eq_true]
    rintro (hf | hf)
    · exact h.failedOf hf
    · have hfa : v = .failed ∨ v = .cancelled := by simpa using hf
      rcases hfa with hfa | hcan
      · rcases hbef with hsm | hop
        · exact ⟨id, hid, by simp [failsRun, hm, hsm, hfa]⟩
        · have hdo : dooms v := by rw [hfa]; rfl
          exact (hx hm hop hdo).2 hfa
      · have := h.skips.verdict_of_cancelled hcan
        exact ⟨id, hid, by simp [failsRun, hm, this]⟩
  have hfl : ∀ e ∈ done ++ [id], failsRun wf run₀ e → (s.1.count v).hasFailed := by
    simp only [count_hasFailed, Bool.or_eq_true]
    refine forall_mem_append.2
      ⟨fun e he hfls => .inl (h.failed e he hfls), forall_mem_singleton.2 fun hfls => ?_⟩
    have hv : verdict wf run₀ id = .failed ∨ verdict wf run₀ id = .cancelled := by
      simpa [failsRun, hm] using hfls
    rcases hbef with hsm | hop
    · exact .inr (by simpa [hsm] using hv)
    · rw [hop] at hv
      rcases hv with hv | hv <;> cases hv
  have hden : ∀ e ∈ done ++ [id], managedStep wf e = false → verdict wf run₀ e = .denied →
      (s.1.count v).hasDenied := by
    simp only [count_hasDenied, Bool.or_eq_true]
    refine forall_mem_append.2
      ⟨fun e he hme hv => .inl (h.denied e he hme hv), forall_mem_singleton.2 fun _ hv => ?_⟩
    rcases hbef with hsm | hop
    · exact .inr (by simp [← hsm, hv])
    · rw [hop] at hv
      cases hv
  by_cases hd : dooms v
  · -- its dependents are skipped now
    rw [if_pos hd]
    have hsk := skipDependentSteps_skips (o.cascade id) now (pending_not_dooms hd)
    obtain ⟨hcl, hcov⟩ := skip_closed h.skips h.closed id
    have hdw : ∀ x, Downstream wf s.2 id x → Downstream wf run₀ id x :=
      fun x hx => hx.mono fun b hb => (h.skips.pending_of hb).1
    refine ⟨fun x => K x ∨ Downstream wf s.2 id x, h.skips.trans hsk, hcl, ?_, ?_, hfai, hfl, hden⟩
    · rintro x (hK | hx')
      · exact h.within x hK
      · rcases hbef with hsm | hop
        · exact ⟨id, hid, by simp [doomed, hm, hsm, hd], hdw x hx'⟩
        -- the dependents of a step that was open are lost already
        have hlo := (hx hm hop hd).1
        have := hdw x hx'
        clear hx'
        induction this with
        | direct h hp => exact hlo _ h hp
        | through _ h hp ih => exact ih.through h hp
    · refine forall_mem_append.2 ⟨fun e he hdm x hx' => .inl (h.covers e he hdm x hx'), ?_⟩
      exact forall_mem_singleton.2 fun _ => hcov
  · rw [if_neg hd]
    refine ⟨K, h.skips, h.closed, h.within, ?_, hfai, hfl, hden⟩
    refine forall_mem_append.2 ⟨h.covers, forall_mem_singleton.2 fun hdm => ?_⟩
    have hdo := (doomed_iff.1 hdm).2
    rcases hbef with hsm | hop
    · exact absurd (hsm ▸ hdo) hd
    · rw [hop] at hdo
      cases hdo

theorem Visited.fold (now : ℤ) (Q : Tally × WorkflowRun → Prop) (l : List String)
    (hl : ∀ id ∈ l, id ∈ wf.ids) (hQ : ∀ s, ∀ id ∈ l, Q s → Q (countStep o now s id))
    (hx : ∀ done s K, ∀ id ∈ l, Visited wf run₀ done s K → Q s → Harmless wf run₀ s.2 id) :
    ∀ {done s K}, Visited wf run₀ done s K → Q s →
      ∃ K', Visited wf run₀ (done ++ l) (l.foldl (countStep o now) s) K' := by
  induction l with
  | nil =>
    intro done s K h _
    exact ⟨K, by simpa using h⟩
  | cons id l ih =>
    intro done s K h hs
    have hmem : id ∈ id :: l := mem_cons_self
    obtain ⟨K1, h1⟩ := h.step o now (hl id hmem) (hx _ s K id hmem h hs)
    obtain ⟨K2, h2⟩ := ih (fun x hx' => hl x (mem_cons_of_mem _ hx'))
      (fun s x hx' => hQ s x (mem_cons_of_mem _ hx'))
        (fun d s K x hx' => hx d s K x (mem_cons_of_mem _ hx'))
      h1 (hQ s id hmem hs)
    refine ⟨K2, ?_⟩
    rwa [append_assoc] at h2

theorem Visited.init (run₀ : WorkflowRun) (n : ℤ) :
    Visited wf run₀ [] ({ expectedSteps := n }, run₀) fun _ => False :=
  ⟨.refl run₀, fun _ _ h => h.elim, fun _ h => h.elim, by simp, by simp, by simp, by simp⟩

theorem Visited.lost (h : Visited wf run₀ done s K) (hall : ∀ e ∈ wf.ids, doomed wf run₀ e → e ∈ done) :
    Skips run₀ s.2 (Lost wf run₀) := by
  have hK : K = Lost wf run₀ := by
    funext id
    refine propext ⟨h.within id, ?_⟩
    rintro ⟨e, he, hdm, hdw⟩
    exact h.covers e (hall e he hdm) hdm id hdw
  exact hK ▸ h.skips

/-- The loop over the steps that have failed for good. -/
theorem Visited.fold_doomed (h : Visited wf run₀ done s K) (o : StatusOrders wf) (now : ℤ) :
    ∃ K', Visited wf run₀ (done ++ wf.ids.filter (doomed wf run₀))
      ((wf.ids.filter (doomed wf run₀)).foldl (countStep o now) s) K' ∧
      Skips run₀ ((wf.ids.filter (doomed wf run₀)).foldl (countStep o now) s).2 (Lost wf run₀) := by
  have hmem : ∀ id ∈ wf.ids.filter (doomed wf run₀), id ∈ wf.ids ∧ doomed wf run₀ id :=
    fun id => mem_filter.1
  obtain ⟨K', h'⟩ :=
    Visited.fold o now (fun _ => True) _ (fun id hid => (hmem id hid).1) (fun _ _ _ _ => trivial)
    (fun _ s _ id hid _ _ _ hop => by simpa [doomed, hop, dooms] using (hmem id hid).2) h trivial
  exact ⟨K', h', h'.lost fun e he hd => mem_append_right _ (mem_filter.2 ⟨he, hd⟩)⟩

theorem skipFailures_skips (wf : Workflow) (now : ℤ) (run : WorkflowRun) :
    Skips run (skipFailures wf now run) (Lost wf run) := by
  -- the loop over the doomed steps with the counters left out
  let ids : Order wf := ⟨wf.ids, .refl _⟩
  let o : StatusOrders wf := ⟨ids, ids, ids, ids, fun _ _ => ids⟩
  have hsm : ∀ (l : List String) s, (∃ K, Skips run s.2 K) → (∀ id ∈ l, doomed wf run id) →
      (l.foldl (countStep o now) s).2 = l.foldl (skipDependentSteps wf (fun _ => wf.ids) now) s.2 := by
    intro l
    induction l with
    | nil => intro s _ _; rfl
    | cons id l ih =>
      intro s ⟨K, hK⟩ hl
      obtain ⟨hm, hd⟩ := doomed_iff.1 (hl id mem_cons_self)
      have hd' : dooms (verdict wf s.2 id) := by rw [hK.later.verdict_of_dooms hd]; exact hd
      have hsp : (countStep o now s id).2 = skipDependentSteps wf (fun _ => wf.ids) now s.2 id := by
        rw [countStep_eq o now s hm, if_pos hd']
      rw [foldl_cons, foldl_cons, ← hsp]
      have hsk := skipDependentSteps_skips (fun _ => ids) now (pending_not_dooms hd')
      exact ih _ ⟨_, hsp ▸ hK.trans hsk⟩ fun x hx => hl x (mem_cons_of_mem _ hx)
  obtain ⟨K, -, hlo⟩ := (Visited.init run 0).fold_doomed o now
  rw [hsm _ _ ⟨_, Skips.refl run⟩ fun id hid => (mem_filter.1 hid).2] at hlo
  exact hlo

/-! ## The order of the steps -/

/-- The status and the skipped steps are the same for every order. -/
def OrderFree (wf : Workflow) (now : ℤ) (run : WorkflowRun) : Prop :=
  ∀ o₁ o₂ : StatusOrders wf,
    (updateRunStatus o₁ now run).status = (updateRunStatus o₂ now run).status ∧
      ∀ id, (updateRunStatus o₁ now run).stepStatus id = some .skipped ↔
        (updateRunStatus o₂ now run).stepStatus id = some .skipped

/-- A step whose verdict is open does not fail for good once the dependents of those that did are
skipped; or it does, with no other pending dependents, in a run that fails anyway. -/
def Settled (wf : Workflow) (now : ℤ) (run : WorkflowRun) : Prop :=
  ∀ x ∈ wf.ids, managedStep wf x = false → verdict wf run x = .unfinished →
    dooms (verdict wf (skipFailures wf now run) x) →
    (∀ p ∈ wf.ids, dependsOn wf x p → run.stepStatus p = some .pending →
      (skipFailures wf now run).stepStatus p = some .skipped) ∧
      (verdict wf (skipFailures wf now run) x = .failed → ∃ y ∈ wf.ids, failsRun wf run y)

theorem dependsOn_mem (h : dependsOn wf a p) : p ∈ wf.ids := by
  cases hsp : wf.step p with
  | none => rw [dependsOn, hsp] at h; cases h
  | some step => exact Workflow.mem_ids_of_step hsp

theorem Settled.harmless (h : Settled wf now run₀) (hv : Visited wf run₀ done s K) (hid : id ∈ wf.ids) :
    Harmless wf run₀ s.2 id := by
  intro hm hop hdm
  -- the run with all lost steps skipped comes after the one at hand
  have hlat : Later s.2 (skipFailures wf now run₀) :=
    hv.skips.later_of_le (skipFailures_skips wf now run₀) hv.within
  have hsm := hlat.verdict_of_dooms hdm
  obtain ⟨hdp, hfl⟩ := h id hid hm hop (by rw [hsm]; exact hdm)
  refine ⟨fun p hdep hp => ?_, fun hf => hfl (hsm.trans hf)⟩
  by_contra hlo
  have hs := hdp p (dependsOn_mem hdep) hdep hp
  rw [stepStatus, (skipFailures_skips wf now run₀).others p hlo] at hs
  cases hp.symm.trans hs

/-- The counters and the steps at the end of the loop. -/
def finalCount (now : ℤ) (run : WorkflowRun) : Tally × WorkflowRun :=
  o.main.1.foldl (countStep o now) ({ expectedSteps := expectedSteps o }, run)

theorem updateRunStatus_eq (now : ℤ) (hc : run.status ≠ .cancelled) (ht : run.status ≠ .timedOut) :
    (updateRunStatus o now run).status = (finalCount o now run).1.status ∧
      ∀ id, (updateRunStatus o now run).stepStatus id = (finalCount o now run).2.stepStatus id := by
  unfold updateRunStatus
  split
  · contradiction
  · contradiction
  · exact ⟨rfl, fun _ => rfl⟩

theorem Tally.status_failed_iff : t.status = .failed ↔ t.hasFailed := by
  unfold status
  by_cases h : t.hasFailed
  · simp [h]
  rw [if_neg h]
  constructor
  · intro hs
    repeat' split at hs
    all_goals cases hs
  · intro hf
    exact absurd hf h

theorem fold_quiet (now : ℤ) (run : WorkflowRun) (l : List String)
    (hl : ∀ id ∈ l, doomed wf run id = false) (t : Tally) :
    l.foldl (countStep o now) (t, run) =
      (l.foldl (fun t id => if managedStep wf id then t else t.count (verdict wf run id)) t, run) := by
  induction l generalizing t with
  | nil => rfl
  | cons id l ih =>
    have hsp : countStep o now (t, run) id =
        (if managedStep wf id then t else t.count (verdict wf run id), run) := by
      by_cases hm : managedStep wf id
      · rw [countStep, managed_eq, hm]
        rfl
      have hm : managedStep wf id = false := Bool.eq_false_iff.2 hm
      have hd : dooms (verdict wf run id) = false := by simpa [doomed, hm] using hl id mem_cons_self
      rw [countStep_eq o now _ hm]
      simp [hm, hd]
    rw [foldl_cons, hsp]
    exact ih (fun x hx => hl x (mem_cons_of_mem _ hx)) _

theorem Tally.count_comm (v w : Verdict) : (t.count v).count w = (t.count w).count v := by
  cases v <;> cases w <;> rfl

theorem expectedSteps_eq {o1 o2 : StatusOrders wf} : expectedSteps o1 = expectedSteps o2 := by
  have hpm : o1.expected.1.Perm o2.expected.1 := o1.expected.2.trans o2.expected.2.symm
  have hcm : RightCommutative fun (n : ℤ) id => if managedStep wf id then n - 1 else n := by
    constructor
    intro n a b
    split <;> split <;> omega
  unfold expectedSteps
  simp only [managed_eq]
  rw [hpm.foldl_eq]

/-- Where nothing has failed for good, no step is skipped, and the counters are the same in every
order. -/
theorem orderFree_of_quiet (hq : ∀ id ∈ wf.ids, doomed wf run id = false) (o1 o2 : StatusOrders wf) :
    finalCount o1 now run = finalCount o2 now run := by
  have hfl : ∀ o : StatusOrders wf, ∀ id ∈ o.main.1, doomed wf run id = false :=
    fun o id hid => hq id (o.main.2.mem_iff.1 hid)
  have hpm : o1.main.1.Perm o2.main.1 := o1.main.2.trans o2.main.2.symm
  have hcm : RightCommutative fun (t : Tally) id => if managedStep wf id then t
      else t.count (verdict wf run id) := by
    constructor
    intro t a b
    split <;> split
    · rfl
    · rfl
    · rfl
    · exact t.count_comm _ _
  unfold finalCount
  rw [fold_quiet o1 now run _ (hfl o1), fold_quiet o2 now run _ (hfl o2), expectedSteps_eq, hpm.foldl_eq]

/-- The end of the loop where something has failed for good and no step does harm. -/
theorem final_of_doomed (h : Visited wf run₀ done s K) (hall : ∀ e ∈ wf.ids, e ∈ done) (he : e ∈ wf.ids)
    (hdm : doomed wf run₀ e) :
    (s.1.status = if ∃ y ∈ wf.ids, failsRun wf run₀ y then .failed else .denied) ∧
      Skips run₀ s.2 (Lost wf run₀) := by
  refine ⟨?_, h.lost fun x hx _ => hall x hx⟩
  by_cases hf : ∃ y ∈ wf.ids, failsRun wf run₀ y
  · rw [if_pos hf, status_failed_iff]
    obtain ⟨y, hy, hfai⟩ := hf
    exact h.failed y (hall y hy) hfai
  rw [if_neg hf]
  have hnot : s.1.hasFailed = false := Bool.eq_false_iff.2 fun hs => hf (h.failedOf hs)
  -- what failed for good was denied
  obtain ⟨hm, hd⟩ := doomed_iff.1 hdm
  have hden : verdict wf run₀ e = .denied := by
    cases hv : verdict wf run₀ e with
    | denied => rfl
    | failed => exact absurd ⟨e, he, by simp [failsRun, hm, hv]⟩ hf
    | _ => rw [hv] at hd; cases hd
  simp [Tally.status, hnot, h.denied e (hall e he) hm hden]

theorem Skips.skipped_iff (h1 : Skips run₀ run1 K) (h2 : Skips run₀ run2 K) (id : String) :
    run1.stepStatus id = some .skipped ↔ run2.stepStatus id = some .skipped := by
  by_cases hK : K id
  · simp only [h1.skipped id hK, h2.skipped id hK]
  · rw [stepStatus, stepStatus, h1.others id hK, h2.others id hK]

theorem orderFree_of_settled (hc : run.status ≠ .cancelled) (ht : run.status ≠ .timedOut)
    (h : Settled wf now run) :
    OrderFree wf now run := by
  intro o1 o2
  simp only [updateRunStatus_eq _ now hc ht]
  by_cases hdm : ∃ e ∈ wf.ids, doomed wf run e
  · obtain ⟨e, he, hdm⟩ := hdm
    have hend : ∀ o : StatusOrders wf,
        ((finalCount o now run).1.status = if ∃ y ∈ wf.ids, failsRun wf run y then .failed else .denied) ∧
          Skips run (finalCount o now run).2 (Lost wf run) := by
      intro o
      have hmem : ∀ id, id ∈ o.main.1 ↔ id ∈ wf.ids := fun id => o.main.2.mem_iff
      obtain ⟨K, hv⟩ :=
        Visited.fold o now (fun _ => True) o.main.1 (fun id => (hmem id).1) (fun _ _ _ _ => trivial)
        (fun _ _ _ id hid hv _ => h.harmless hv ((hmem id).1 hid))
          (Visited.init run (expectedSteps o)) trivial
      exact final_of_doomed hv (fun x hx => mem_append_right _ ((hmem x).2 hx)) he hdm
    obtain ⟨hs1, hk1⟩ := hend o1
    obtain ⟨hs2, hk2⟩ := hend o2
    exact ⟨hs1.trans hs2.symm, hk1.skipped_iff hk2⟩
  · have hq : ∀ id ∈ wf.ids, doomed wf run id = false :=
      fun id hid => Bool.eq_false_iff.2 fun hd => hdm ⟨id, hid, hd⟩
    rw [orderFree_of_quiet hq o1 o2]
    exact ⟨rfl, fun _ => Iff.rfl⟩

/-! ## Two orders that differ -/

theorem fold_keeps (now : ℤ) (l : List String) (s : Tally × WorkflowRun) :
    (∀ p, s.2.stepStatus p = some .skipped → (l.foldl (countStep o now) s).2.stepStatus p =
      some .skipped) ∧ (s.1.hasFailed → (l.foldl (countStep o now) s).1.hasFailed) := by
  induction l generalizing s with
  | nil => exact ⟨fun _ h => h, fun h => h⟩
  | cons id l ih =>
    obtain ⟨hsk, hfl⟩ := ih (countStep o now s id)
    rw [foldl_cons]
    by_cases hm : managedStep wf id
    · have hst : countStep o now s id = s := by rw [countStep, managed_eq, hm]; rfl
      rw [hst] at hsk hfl ⊢
      exact ⟨hsk, hfl⟩
    rw [countStep_eq o now s (Bool.eq_false_iff.2 hm)] at hsk hfl ⊢
    refine ⟨fun p hp => hsk p ?_, fun hf => hfl ?_⟩
    · split
      · next hd =>
        have hs := skipDependentSteps_skips (o.cascade id) now (pending_not_dooms hd)
        rcases hs.later p with hsm | ⟨hpn, -⟩
        · exact hsm.trans hp
        · have := hpn.symm.trans hp
          cases this
      · exact hp
    · rw [count_hasFailed, hf, Bool.true_or]

/-- The steps that have failed for good last: none of the others does. -/
theorem doomed_last : ∃ o : StatusOrders wf, Skips run (finalCount o now run).2 (Lost wf run) ∧
      ((finalCount o now run).1.hasFailed → ∃ y ∈ wf.ids, failsRun wf run y) := by
  have hpm : (wf.ids.filter (fun id => !doomed wf run id) ++ wf.ids.filter (doomed wf run)).Perm wf.ids :=
    perm_append_comm.trans (filter_append_perm _ _)
  let o := inOrder wf ⟨_, hpm⟩
  have hfst : ∀ id ∈ wf.ids.filter (fun id => !doomed wf run id),
      id ∈ wf.ids ∧ doomed wf run id = false := by
    intro id hid
    simpa using mem_filter.1 hid
  -- the first part leaves the run alone, so what is open stays open
  have hq : ∀ s, ∀ id ∈ wf.ids.filter (fun id => !doomed wf run id), s.2 = run →
      (countStep o now s id).2 = run := by
    rintro ⟨t, r⟩ id hid rfl
    have := fold_quiet o now r [id] (by simpa using (hfst id hid).2) t
    rw [foldl_cons, foldl_nil] at this
    rw [this]
  obtain ⟨K1, h1⟩ := Visited.fold o now (fun s => s.2 = run) _ (fun id hid => (hfst id hid).1) hq
    (fun _ s _ id _ _ hs hm hop hd => by rw [hs, hop] at hd; cases hd)
    (Visited.init run (expectedSteps o)) rfl
  obtain ⟨K2, h2, hlo⟩ := h1.fold_doomed o now
  have hend : finalCount o now run = (wf.ids.filter (doomed wf run)).foldl (countStep o now)
      ((wf.ids.filter (fun id => !doomed wf run id)).foldl (countStep o now)
        ({ expectedSteps := expectedSteps o }, run)) :=
    foldl_append
  refine ⟨o, ?_⟩
  rw [hend]
  exact ⟨hlo, h2.failedOf⟩

/-- The steps that have failed for good first, and then a step that was open. -/
theorem doomed_first (now : ℤ) (hx : x ∈ wf.ids) (hm : managedStep wf x = false)
    (hop : verdict wf run x = .unfinished) (hd : dooms (verdict wf (skipFailures wf now run) x)) :
    ∃ o : StatusOrders wf, (∀ p, dependsOn wf x p → run.stepStatus p = some .pending →
        (finalCount o now run).2.stepStatus p = some .skipped) ∧
      (verdict wf (skipFailures wf now run) x = .failed → (finalCount o now run).1.hasFailed) := by
  set rest := wf.ids.filter fun id => !doomed wf run id
  have hxre : x ∈ rest := mem_filter.2 ⟨hx, by simp [doomed, hop, dooms]⟩
  have hpm : (wf.ids.filter (doomed wf run) ++ x :: rest.erase x).Perm wf.ids :=
    ((perm_cons_erase hxre).symm.append_left _).trans (filter_append_perm _ _)
  let o := inOrder wf ⟨_, hpm⟩
  obtain ⟨K, -, hlo⟩ := (Visited.init run (expectedSteps o)).fold_doomed o now
  set s := (wf.ids.filter (doomed wf run)).foldl (countStep o now)
      ({ expectedSteps := expectedSteps o }, run)
  -- all lost steps are skipped by now, so the step fails for good
  have hsm := ((skipFailures_skips wf now run).later_of_le hlo fun _ h => h).verdict_of_dooms hd
  have hend : finalCount o now run = (rest.erase x).foldl (countStep o now) (countStep o now s x) := by
    change foldl _ _ (_ ++ x :: _) = _
    rw [foldl_append, foldl_cons]
  obtain ⟨hsk, hfl⟩ := fold_keeps o now (rest.erase x) (countStep o now s x)
  rw [countStep_eq o now s hm, hsm, if_pos hd] at hsk hfl hend
  refine ⟨o, fun p hdep hp => ?_, fun hf => ?_⟩
  · rw [hend]
    refine hsk p ?_
    have hdm : dooms (verdict wf s.2 x) := hsm ▸ hd
    have hs := skipDependentSteps_skips (o.cascade x) now (pending_not_dooms hdm)
    by_cases hp' : s.2.stepStatus p = some .pending
    · exact hs.skipped p (.direct hdep hp')
    rcases hlo.later p with hsm | ⟨-, hskp⟩
    · exact absurd (hsm.trans hp) hp'
    · rcases hs.later p with hsm | ⟨hpn, -⟩
      · exact hsm.trans hskp
      · exact absurd hpn hp'
  · rw [hend]
    refine hfl ?_
    rw [count_hasFailed, hf]
    simp

theorem settled_of_orderFree (hc : run.status ≠ .cancelled) (ht : run.status ≠ .timedOut)
    (h : OrderFree wf now run) :
    Settled wf now run := by
  intro x hx hm hop hd
  obtain ⟨o1, hlo, hfai⟩ := doomed_last
  obtain ⟨o2, hsk, hfa⟩ := doomed_first now hx hm hop hd
  obtain ⟨hst, hskp⟩ := h o1 o2
  simp only [updateRunStatus_eq _ now hc ht] at hst hskp
  refine ⟨fun p _ hdep hp => ?_, fun hf => ?_⟩
  · have hs := (hskp p).2 (hsk p hdep hp)
    exact ((skipFailures_skips wf now run).skipped_iff hlo p).2 hs
  · have hfl := (status_failed_iff _).2 (hfa hf)
    exact hfai ((status_failed_iff _).1 (hst.trans hfl))

/-- **The status of a run and its skipped steps do not depend on the order exactly when the run is
settled**, or cancelled or timed out before. -/
theorem status_order_free_iff (wf : Workflow) (now : ℤ) (run : WorkflowRun) :
    OrderFree wf now run ↔ run.status = .cancelled ∨ run.status = .timedOut ∨ Settled wf now run := by
  rw [← or_assoc]
  by_cases hsto : run.status = .cancelled ∨ run.status = .timedOut
  · have hst : ∀ o : StatusOrders wf, updateRunStatus o now run = run := by
      intro o
      rcases hsto with h | h <;> rw [updateRunStatus, h]
    simp [OrderFree, hst, hsto]
  · obtain ⟨hc, ht⟩ := not_or.1 hsto
    simp only [hsto, false_or]
    exact ⟨settled_of_orderFree hc ht, orderFree_of_settled hc ht⟩

/-! ## A denied step and a failed one -/

/-- `b`'s error handler `h` depends on `a`. -/
def entangled : Workflow where
  steps := ([⟨"a", some { id := "a" }⟩, ⟨"b", some { id := "b", onError := "h" }⟩,
    ⟨"h", some { id := "h", dependsOn := ["a"] }⟩] : List (Sigma fun _ : String => _)).toAList

/-- `a` was denied, `b` failed, and its handler is pending. -/
def entangledRun : WorkflowRun where
  status := .running
  steps := ([⟨"a", { status := .denied }⟩, ⟨"b", { status := .failed }⟩,
    ⟨"h", { status := .pending, errorInput := .value }⟩] : List (Sigma fun _ : String => _)).toAList

/-- With `a` first the run is failed, with `b` first it is denied. -/
theorem status_depends_on_order :
    (updateRunStatus (inOrder entangled ⟨["a", "b", "h"], by decide⟩) 0 entangledRun).status = .failed ∧
      (updateRunStatus (inOrder entangled ⟨["b", "a", "h"], by decide⟩) 0 entangledRun).status =
        .denied := by
  decide

end Cordum.Flow
