import Cordum.Workflow.Healthy
import Cordum.Workflow.Parents

/-!
# Limits on what runs at once

A for-each or a parallel step with `max_parallel` dispatches no more children than that at a time. The
children of a parallel step are steps of their own: when their list is given by an expression, the
main loop does not know it and dispatches them as well (`listed_steps_dispatched_twice`). Where the
lists are given literally, and no step is on two of them, the limit holds (`caps_hold`).
-/

namespace Cordum.Flow

open List Workflow Option

variable {wf : Workflow} {phase : Phase} {t t' : Tick}

/-- The children of a step that run; those of a parallel step are steps of the run. -/
def runningChildren (step : Step) (run : WorkflowRun) (id : String) : ℕ :=
  if step.type = .parallel then (run.entry id).children.keys.countP
    fun childID => (run.entry childID).status = .running
  else (childrenIn (run.entry id) (· = .running)).length

/-- No step runs more children than it may. -/
def Capped (wf : Workflow) (run : WorkflowRun) : Prop :=
  ∀ id step, wf.step id = some step → step.type = .parallel ∨ step.fansOut → 0 < step.maxParallel →
    (runningChildren step run id : ℤ) ≤ step.maxParallel

/-- The steps on the list of a parallel step. -/
def Workflow.listOf (wf : Workflow) (id : String) : List String :=
  match wf.step id with
  | none => []
  | some step => parallelChildren step

/-- The lists of parallel steps do not overlap. -/
structure Workflow.Lists (wf : Workflow) : Prop where
  plain : wf.Plain
  named : "" ∉ wf.ids
  /-- No step is on two lists. -/
  once : ∀ p ∈ wf.ids, ∀ q ∈ wf.ids, ∀ id ∈ wf.listOf p, id ∈ wf.listOf q → p = q
  /-- No step is on its own. -/
  proper : ∀ p ∈ wf.ids, p ∉ wf.listOf p

/-- The lists are the literal ones, and no result is for a child of a parallel step or a step on a
list. -/
def capTerms (wf : Workflow) : Terms where
  visit v := v.step.type = .parallel → ∀ cfg, v.env.parallel = .ok cfg →
    v.step.parallelSteps = some cfg.childStepIDs
  result _ id _ := ∀ base step, splitForEachStep id = (base, id) → wf.step base = some step →
    step.type ≠ .parallel ∧ ∀ p ∈ wf.ids, base ∉ wf.listOf p

/-! ## For-each steps -/

section

variable {T : Terms} {id childID : String} {step : Step} {sr sr' : StepRun}
  {child child' : ChildRun} {k : ℤ}

theorem length_childrenIn_insert_le (sr : StepRun) (p : StepStatus → Bool)
    (id : String) (child : ChildRun) :
    (childrenIn { sr with children := sr.children.insert id child } p).length ≤
      (childrenIn sr p).length + if p child.status then 1 else 0 := by
  rw [length_childrenIn, length_childrenIn]
  simp only [AList.entries_insert, countP_cons]
  have hle := (kerase_sublist id sr.children.entries).countP_le (p := fun e => p e.2.status)
  omega

theorem childrenIn_insert_le (hch : child.status ≠ .running)
    (h : ((childrenIn sr (· = .running)).length : ℤ) ≤ k)
    (hchs : sr'.children = sr.children.insert childID child) :
    ((childrenIn sr' (· = .running)).length : ℤ) ≤ k := by
  have hle := length_childrenIn_insert_le sr (· = .running) childID child
  rw [if_neg (by simpa using hch)] at hle
  have hsm : childrenIn sr' (· = .running) =
      childrenIn { sr with children := sr.children.insert childID child } (· = .running) := by
    rw [childrenIn, hchs]
    rfl
  rw [hsm]
  omega

theorem childrenIn_insert_lt (childID : String) (child : ChildRun)
    (h : ((childrenIn sr (· = .running)).length : ℤ) < k) :
    ((childrenIn { sr with children := sr.children.insert childID child }
      (· = .running)).length : ℤ) ≤ k := by
  have hle := length_childrenIn_insert_le sr (· = .running) childID child
  have hone : (if (child.status = .running : Bool) then 1 else 0) ≤ 1 := by split <;> omega
  omega

theorem takeResult_not_running {env : OpEnv wf} {step : Option Step} {res : JobResult}
    {retry : Option ℤ} (h : takeResult env step res child = some (child', retry)) :
    child'.status ≠ .running := by
  intro hs
  rcases (taken_takeResult h).applied.status with ⟨htm, -⟩ | ⟨hpn, -⟩
  · rw [hs] at htm
    cases htm
  · rw [hs] at hpn
    cases hpn

/-- **No more items run than the limit allows.** -/
theorem items_capped (hdef : wf.step id = some step) (hfn : step.fansOut) (hk : 0 < step.maxParallel)
    (hmv : Move wf T phase t t')
    (h : ((childrenIn (t.run.entry id) (· = .running)).length : ℤ) ≤ step.maxParallel) :
    ((childrenIn (t'.run.entry id) (· = .running)).length : ℤ) ≤ step.maxParallel := by
  have htch := hmv.touch id
  generalize t'.run.entry id = sr' at htch
  have hty : step.type ≠ .loop ∧ step.type ≠ .parallel := by
    cases ht : step.type <;> simp_all [Step.fansOut]
  have hsp : ∀ {v}, VisitOf wf T phase t id v → v.step = step := fun hv => hv.step_eq hdef
  have hsm : sr'.children = (t.run.entry id).children →
      ((childrenIn sr' (· = .running)).length) ≤ step.maxParallel := by
    intro hchs
    rwa [childrenIn, hchs]
  -- an entry that is written as a child has no children
  have hemp : ∀ child : ChildRun, ((childrenIn child.toStepRun (· = .running)).length) ≤
      step.maxParallel := by
    intro child
    exact hk.le
  cases htch with
  | kept => exact h
  | turn hv htn =>
    exact hsm (htn.children_eq (.inr (by rw [hsp hv]; exact hfn)))
  | switched hv ht hend => exact hsm hend.children
  | @fanned v startedAt n hv =>
    refine createChildren_induction
      (P := fun s => ((childrenIn s.1 (· = .running)).length : ℤ) ≤ step.maxParallel) h
        fun s idx _ hs hno => ?_
    have hpn : ({ status := .pending } : ChildRun).status ≠ .running := by simp
    exact childrenIn_insert_le hpn hs rfl
  | sent hv hs | unsent hv hs => exact hsm hs.notParent.2
  | adopts hv ht => exact absurd (hsp hv ▸ ht) hty.2
  | withChild hv htn =>
    refine childrenIn_insert_le ?_ h rfl
    cases htn with
    | awaited ht => exact absurd (hsp hv ▸ ht) hty.1
    | failed _ hst => rw [hst]; simp
    | unsent => simp
    | cancelled ht => exact absurd (hsp hv ▸ ht) hty.2
  | withSent input hv hsrc =>
    cases hsrc with
    | iteration ht => exact absurd (hsp hv ▸ ht) hty.1
    | item hf hid hn hidx hfr hlim =>
      rw [hsp hv, hv.stepID] at hlim
      exact childrenIn_insert_lt _ _ (hlim hk)
    | branch ht => exact absurd (hsp hv ▸ ht) hty.2
  | gated | taken | notTaken | activated | skipped | result | decided => exact hsm rfl
  | adopted => exact hsm children_adoptee
  | created | child | childSent | childResult | sibling => exact hemp _
  | @ended change hchg =>
    -- nothing runs after the end
    have hno : childrenIn (endStepRun change (t.run.entry id)) (· = .running) = [] := by
      rw [childrenIn_nil_iff]
      intro childID child hlk
      rw [lookup_endStepRun] at hlk
      obtain ⟨old, hold, rfl⟩ := map_eq_some_iff.1 hlk
      split
      · cases hs : old.status <;> simp_all [isTerminalStepStatus]
      · rcases (hchg old).1 with hs | hs <;> rw [hs] <;> rfl
    rw [hno]
    exact hk.le
  | withResult env hph hid hkey hT htk =>
    exact childrenIn_insert_le (takeResult_not_running htk) h (withResult_children _ _ _)
  | withSibling now =>
    refine childrenIn_insert_le ?_ h rfl
    rintro ⟨⟩
  | recovered => exact hsm recovered_cases.1

end

/-! ## Parallel steps -/

/-- The step is running. -/
def runs (wf : Workflow) (run : WorkflowRun) (id : String) : Bool :=
  (wf.step id).isSome && (run.entry id).status = .running

/-- What holds of a parallel step along a run. -/
structure ListCapped (wf : Workflow) (p : String) (step : Step) (run : WorkflowRun) : Prop where
  /-- Its children are on its list. -/
  keys : ∀ id, ((run.entry p).children.lookup id).isSome → id ∈ parallelChildren step ∧ (wf.step id).isSome
  count : ((parallelChildren step).countP (runs wf run) : ℤ) ≤ step.maxParallel

theorem Workflow.listOf_eq {p : String} {step : Step} (h : wf.step p = some step) :
    wf.listOf p = parallelChildren step := by
  rw [listOf, h]

section

variable {p : String} {step : Step} (hlists : wf.Lists) (hdef : wf.step p = some step)
  (hpar : step.type = .parallel)

include hlists hdef hpar

omit hpar in
theorem managed_of_listed {id : String} (hid : id ∈ parallelChildren step)
    (hin : (wf.step id).isSome) : wf.Managed id := by
  refine .inl ⟨p, mem_ids_of_step hdef, step, hdef, hid, ?_, ?_⟩
  · rintro rfl
    obtain ⟨step', hsp'⟩ := isSome_iff_exists.1 hin
    exact hlists.named (mem_ids_of_step hsp')
  · rintro rfl
    rw [← listOf_eq hdef] at hid
    exact hlists.proper id (mem_ids_of_step hdef) hid

omit hlists hdef hpar in
theorem mem_parallelChildren {v : Visit} (hT : (capTerms wf).visit v)
    (ht : v.step.type = .parallel) {cfg : ParallelConfig}
    (hcfg : v.env.parallel = .ok cfg) : parallelChildren v.step = cfg.childStepIDs := by
  rw [parallelChildren, if_pos ht, hT ht cfg hcfg, getD_some]

omit hpar in
/-- A listed step that begins to run is dispatched by the parallel step. -/
theorem listed_runs {id : String} (hid : id ∈ parallelChildren step) (hk : 0 < step.maxParallel)
    (hmv : Move wf (capTerms wf) phase t t') (hrn : runs wf t'.run id) : runs wf t.run id ∨
      ((parallelChildren step).countP (runs wf t.run) : ℤ) < step.maxParallel ∧
      (parallelChildren step).Nodup ∧
        ∀ id', id' ≠ id → id' ∈ parallelChildren step → runs wf t'.run id' → runs wf t.run id' := by
  unfold runs at hrn
  rw [Bool.and_eq_true, decide_eq_true_eq] at hrn
  obtain ⟨hin, hrng⟩ := hrn
  have hman := managed_of_listed hlists hdef hid hin
  have hpl := hlists.plain.step hin
  have hkp : (t.run.entry id).status = .running → runs wf t.run id := by
    intro hs
    rw [runs, hin, hs]
    rfl
  have htch := hmv.touch id
  generalize t'.run.entry id = sr' at htch hrng
  -- the step is not visited by the main loop
  have hunv : ∀ {v}, ¬ VisitOf wf (capTerms wf) phase t id v := by
    rintro v ⟨hv, -, rfl, -⟩
    exact hv.unmanaged hman
  cases htch with
  | kept | withSibling => exact .inl (hkp hrng)
  | turn hv | switched hv | fanned hv | sent hv | unsent hv | adopts hv | withChild hv | withSent _ hv =>
    exact absurd hv hunv
  | gated => cases hrng
  | adopted => exact .inl (hkp (status_of_adoptee hrng nofun))
  | child hv htn =>
    cases htn with
    | awaited ht hsrc =>
      rcases hsrc.makes with ⟨-, idx, rfl⟩ | ⟨hpar', -⟩
      · exact absurd bracket_childIDFor hpl
      · rw [ht] at hpar'
        cases hpar'
    | failed _ hst | cancelled _ _ _ _ _ _ hst => exact absurd (hrng.symm.trans hst) nofun
    | unsent => cases hrng
  | @childSent v own child input hv hsrc hnx hrun =>
    cases hsrc with
    | iteration _ _ hch | item _ hch => exact absurd (hch ▸ bracket_childIDFor) hpl
    | @branch cfg ht hcfg hmem hin' howr hfr hlim =>
      have hli := mem_parallelChildren hv.terms ht hcfg
      have howr : v.stepID = p := by
        refine hlists.once _ (mem_ids_of_step hv.visiting.step) _ (mem_ids_of_step hdef) id ?_ ?_
        · rw [listOf_eq hv.visiting.step, hli]
          exact hmem
        · rw [listOf_eq hdef]
          exact hid
      have hste : v.step = step := by
        have hv' := hv.visiting.step
        rw [howr, hdef, some.injEq] at hv'
        exact hv'.symm
      rw [hste] at hli hlim
      rw [hli]
      refine .inr ⟨lt_of_le_of_lt (Int.ofNat_le.2 ?_) (hlim hk), (hv.visiting.proper cfg hcfg).2,
        fun id' hne hid' hrn => ?_⟩
      · refine countP_mono_left fun id' _ hrn => ?_
        rw [runs, Bool.and_eq_true] at hrn
        rw [hrn.2]
        rfl
      · have hne' : id' ≠ own := by
          rintro rfl
          rw [← hv.stepID, howr, ← hli, ← listOf_eq hdef] at hid'
          exact hlists.proper p (mem_ids_of_step hdef) hid'
        have hsm : t'.run.entry id' = t.run.entry id' := by
          rw [hrun]
          exact entry_of_step (Tick.step_putBoth_ne _ _ hne' hne)
        rwa [runs, hsm] at hrn
  | created | taken | notTaken | activated | skipped | sibling => cases hrng
  | ended hchg =>
    have htm := endStepRun_status hchg (t.run.entry id)
    rw [hrng] at htm
    cases htm
  | result env hph _ hT htk | childResult env hph _ hkey hT htk =>
    exact absurd hrng (takeResult_not_running htk)
  | withResult env hph hsp hkey hT =>
    obtain ⟨step', hste'⟩ := isSome_iff_exists.1 hin
    rw [← listOf_eq hdef] at hid
    exact absurd hid ((hT id step' hsp hste').2 p (mem_ids_of_step hdef))
  | decided approved => cases approved <;> cases hrng
  | recovered now => rcases recovered_cases.2 with h | ⟨h, -⟩ <;> cases h.symm.trans hrng

omit hlists in
theorem keys_listed (hmv : Move wf (capTerms wf) phase t t')
    (h : ∀ id, ((t.run.entry p).children.lookup id).isSome →
      id ∈ parallelChildren step ∧ (wf.step id).isSome)
    {id : String} (hso : ((t'.run.entry p).children.lookup id).isSome) :
    id ∈ parallelChildren step ∧ (wf.step id).isSome := by
  rcases (hmv.touch p).made hso with hold | ⟨v, hv, hmak⟩ | ⟨res, hsp, -, hT⟩
  · exact h id hold
  · obtain rfl := hv.step_eq hdef
    rcases hmak with ⟨hne, -⟩ | ⟨-, hin, cfg, hcfg, hmem⟩
    · exact absurd hpar hne
    · rw [hv.visiting.wf_eq] at hin
      rw [mem_parallelChildren hv.terms hpar hcfg]
      exact ⟨hmem, hin⟩
  · exact absurd hpar (hT p step hsp hdef).1

/-- **No more listed steps run than the limit allows.** -/
theorem ListCapped.move (hk : 0 < step.maxParallel) (h : ListCapped wf p step t.run)
    (hmv : Move wf (capTerms wf) phase t t') : ListCapped wf p step t'.run := by
  refine ⟨fun id hso => keys_listed hdef hpar hmv h.keys hso, ?_⟩
  by_cases hnew : ∃ id ∈ parallelChildren step, runs wf t'.run id ∧ runs wf t.run id ≠ true
  · obtain ⟨id, hid, hrn, hbef⟩ := hnew
    obtain ⟨hlim, hnd, hoth⟩ := (listed_runs hlists hdef hid hk hmv hrn).resolve_left hbef
    have hle := countP_le_add (q := runs wf t'.run) hnd fun id' hid' hne => hoth id' hne hid'
    rw [if_pos hrn] at hle
    omega
  · have hle : (parallelChildren step).countP (runs wf t'.run) ≤
        (parallelChildren step).countP (runs wf t.run) := by
      refine countP_mono_left fun id hid hrn => ?_
      by_contra hbef
      exact hnew ⟨id, hid, hrn, hbef⟩
    have hcnt := h.count
    omega

omit hlists hdef in
theorem ListCapped.capped {run : WorkflowRun} (h : ListCapped wf p step run) :
    (runningChildren step run p : ℤ) ≤ step.maxParallel := by
  rw [runningChildren, if_pos hpar]
  have hsub : (run.entry p).children.keys.Subperm (parallelChildren step) := by
    refine subperm_of_subset (run.entry p).children.keys_nodup fun id hid => ?_
    exact (h.keys id (mem_keys_iff.1 hid)).1
  have hle : (run.entry p).children.keys.countP (fun id => (run.entry id).status = .running) ≤
      (parallelChildren step).countP (runs wf run) := by
    have hsm : (run.entry p).children.keys.countP (fun id => (run.entry id).status = .running) =
        (run.entry p).children.keys.countP (runs wf run) := by
      refine countP_congr fun id hid => ?_
      rw [runs, (h.keys id (mem_keys_iff.1 hid)).2, Bool.true_and]
    rw [hsm]
    exact hsub.countP_le _
  have hcnt := h.count
  omega

end

/-- **The limits hold**, in every run whose lists are literal and name each step once. -/
theorem caps_hold (hlists : wf.Lists) {run : WorkflowRun} (hcreated : run.steps = ∅) {ops : List RunOp}
    (hmeets : Meets wf (capTerms wf) run ops) : ∀ r ∈ versions run (history run ops), Capped wf r := by
  have hent := entry_of_created hcreated
  have hrch := reached_history hmeets
  intro r hr id step hdef hkd hk
  rcases hkd with hpar | hfn
  · have hin : ListCapped wf id step run := by
      refine ⟨fun id' hso => ?_, ?_⟩
      · rw [hent] at hso
        cases hso
      · have hno : (parallelChildren step).countP (runs wf run) = 0 := by
          rw [countP_eq_zero]
          intro id' _ hrn
          rw [runs, hent, Bool.and_eq_true] at hrn
          cases hrn.2
        omega
    exact (hrch.version (fun _ _ _ hmv h => h.move hlists hdef hpar hk hmv) hin r hr).capped hpar
  · have hne : step.type ≠ .parallel := by
      intro hpar
      rw [Step.fansOut, hpar] at hfn
      cases hfn
    have hin : ((childrenIn (run.entry id) (· = .running)).length) ≤ step.maxParallel := by
      rw [hent]
      exact hk.le
    rw [runningChildren, if_neg hne]
    exact hrch.version (I := fun r => ((childrenIn (r.entry id) (· = .running)).length) ≤ step.maxParallel)
      (fun _ _ _ hmv h => items_capped hdef hfn hk hmv h) hin r hr

/-- A parallel step of two, one at a time. -/
def oneAtATime (parallelSteps : Option (List String)) : Workflow where
  steps := ([⟨"both", some { id := "both", type := .parallel, maxParallel := 1, parallelSteps }⟩,
    ⟨"a", some { id := "a" }⟩, ⟨"b", some { id := "b" }⟩] : List (Sigma fun _ : String => _)).toAList

/-- A start of its run. -/
def bothStarted (parallelSteps : Option (List String)) : RunOp :=
  .started (oneAtATime parallelSteps) 0 fun id =>
    if id = "both" then { parallel := .ok { childStepIDs := ["a", "b"], required := 2 } } else {}

/-- The limit holds for a literal list. -/
theorem caps_hold_literal :
    let run : WorkflowRun := { id := "run" }
    ∀ r ∈ versions run (history run [bothStarted (some ["a", "b"])]),
    Capped (oneAtATime (some ["a", "b"])) r := by
  have hlists : (oneAtATime (some ["a", "b"])).Lists :=
    { plain := by decide +kernel
      named := by decide +kernel
      once := by decide +kernel
      proper := by decide +kernel }
  refine caps_hold hlists rfl ⟨meets_started ⟨fun id step hsp => ?_, fun id => ?_⟩, trivial⟩
  · have hid : id ∈ ["both", "a", "b"] := mem_ids_of_step hsp
    rw [mem_cons, mem_cons, mem_singleton] at hid
    rcases hid with rfl | rfl | rfl
    · cases hsp
      exact ⟨by rintro cfg ⟨⟩; decide, by rintro _ cfg ⟨⟩; rfl⟩
    · cases hsp
      exact ⟨by rintro cfg ⟨⟩; decide, nofun⟩
    · cases hsp
      exact ⟨by rintro cfg ⟨⟩; decide, nofun⟩
  · split <;> exact nofun

/-- The same list by an expression: the main loop dispatches the second job as well. -/
theorem listed_steps_dispatched_twice :
    let run : WorkflowRun := { id := "run" }
    let run' := persisted run (history run [bothStarted none, bothStarted none])
    (run'.entry "both").children.entries.map (fun e => (e.1, e.2.status)) =
    [("b", .running), ("a", .running)] ∧
      runningChildren { id := "both", type := .parallel, maxParallel := 1 } run' "both" = 2 := by
  decide +kernel

end Cordum.Flow
