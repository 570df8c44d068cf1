import Cordum.Workflow.Entries
import Cordum.Workflow.Reach

/-!
# What a move makes of an entry

A move writes one entry, or a parent's and a child's. Told from the side of a single entry, it is one
of the cases of `Touch`; what holds of an entry along a run is shown case by case.
-/

namespace Cordum.Flow

open WorkflowRun ChildRun

variable {id id' own childID : String} {run run' : WorkflowRun} {wf : Workflow} {T : Terms}
  {phase : Phase} {t t' : Tick} {sr sr' : StepRun} {v : Visit}

/-! ## Entries after a move -/

theorem Tick.entry_put_ne (t : Tick) (sr : StepRun) (h : id' ≠ id) :
    (t.put id sr).run.entry id' = t.run.entry id' := entry_setStep_ne _ _ h

theorem Tick.step_put_ne (t : Tick) (sr : StepRun) (h : id' ≠ id) :
    (t.put id sr).run.step id' = t.run.step id' := step_setStep_ne _ _ h

@[simp] theorem Tick.entry_putBoth (t : Tick) (own id : String) (child : ChildRun) :
    (t.putBoth own id child).run.entry own =
      { t.run.entry own with children := (t.run.entry own).children.insert id child } :=
  Tick.entry_put _ _ _

theorem Tick.step_putBoth (t : Tick) (child : ChildRun) (h : id ≠ own) :
    (t.putBoth own id child).run.step id = some child.toStepRun := by
  rw [Tick.putBoth, Tick.step_put_ne _ _ h]
  exact step_setStep _ _ _

theorem Tick.step_putBoth_ne (t : Tick) (child : ChildRun) (hown : id' ≠ own) (hid : id' ≠ id) :
    (t.putBoth own id child).run.step id' = t.run.step id' := by
  rw [Tick.putBoth, Tick.step_put_ne _ _ hown, Tick.step_put_ne _ _ hid]

theorem entry_of_step (h : run'.step id = run.step id) : run'.entry id = run.entry id := by
  rw [entry, h]
  rfl

theorem entry_of_some (h : run.step id = some sr) : run.entry id = sr := by
  rw [entry, h]
  rfl

theorem entry_of_created (h : run.steps = ∅) (id : String) : run.entry id = {} := by
  rw [entry, step, h]
  rfl

theorem entry_endRun (now : ℤ) (status : RunStatus) (change : ChildRun → ChildRun) (error : Option String)
    (hid : (run.step id).isSome ∨ id ∈ wf.ids) :
    let run' := { (endRun wf now status (endStepRun change) run).1 with error }
    run'.step id = some (endStepRun change (run.entry id)) := by
  have hsp := step_endRun wf now status (endStepRun change) run id
  cases hsr : run.step id with
  | none =>
    rw [hsr] at hsp hid
    rw [if_pos (hid.resolve_left nofun)] at hsp
    rw [entry, hsr]
    exact hsp
  | some sr =>
    rw [hsr] at hsp
    rw [entry_of_some hsr]
    exact hsp

/-! ## The cases -/

/-- A visit of a step. -/
structure VisitOf (wf : Workflow) (T : Terms) (phase : Phase) (t : Tick) (id : String)
    (v : Visit) : Prop where
  visiting : Visiting wf v
  terms : T.visit v
  stepID : v.stepID = id
  due : Due v (t.run.entry id)
  scheduling : phase = .scheduling

/-- A child that is cancelled because another one failed. -/
def siblingCancelled (now : ℤ) (child : ChildRun) : ChildRun :=
  { child with
    status := .cancelled
    completedAt := some now
    error := some (child.error.getD { message := "cancelled: forEach sibling failed" }) }

/-- What a move makes of the entry of a step, or of a child. -/
inductive Touch (wf : Workflow) (T : Terms) (phase : Phase) (t t' : Tick) (id : String) : StepRun → Prop
  | kept : Touch wf T phase t t' id (t.run.entry id)
  -- a visit of the step
  | turn {v : Visit} {sr' : StepRun} (hv : VisitOf wf T phase t id v)
      (h : OwnTurn v (t.run.entry id) sr') :
    Touch wf T phase t t' id sr'
  | switched {v : Visit} {sr' : StepRun} (hv : VisitOf wf T phase t id v) (ht : v.step.type = .switch)
    (h : Ended v (t.run.entry id) sr') : Touch wf T phase t t' id sr'
  | fanned {v : Visit} {startedAt : Option ℤ} {n : ℕ} (hv : VisitOf wf T phase t id v)
      (hf : v.step.fansOut) (hn : resolveItems v (t.run.entry id) = .ok n) (h0 : n ≠ 0) :
    Touch wf T phase t t' id
      (createChildren id n
        ({ t.run.entry id with status := .running, startedAt, resolvedItems := some n }, t)).1
  | sent {v : Visit} {status : RunStatus} {undo : ℤ} {sr' : StepRun} (hv : VisitOf wf T phase t id v)
    (h : Sending v t (t.run.entry id) status undo sr')
    (hlog : t'.log = t.log ++ [.save t'.run, .submit sr'.jobID]) :
    Touch wf T phase t t' id sr'
  | unsent {v : Visit} {status : RunStatus} {undo : ℤ} {sr' : StepRun} (hv : VisitOf wf T phase t id v)
    (h : Sending v t (t.run.entry id) status undo sr') : Touch wf T phase t t' id (undispatched undo sr')
  | adopts {v : Visit} {childID : String} {cfg : ParallelConfig} (hv : VisitOf wf T phase t id v)
      (ht : v.step.type = .parallel) (hcfg : v.env.parallel = .ok cfg) (hmem : childID ∈ cfg.childStepIDs)
      (hdef : (wf.step childID).isSome) :
    Touch wf T phase t t' id
      { t.run.entry id with
        children := (t.run.entry id).children.insert childID (adoptee (t.run.step childID)).toChildRun }
  | withChild {v : Visit} {childID : String} {child : ChildRun} (hv : VisitOf wf T phase t id v)
      (h : ChildTurn v t childID child) :
    Touch wf T phase t t' id
      { t.run.entry id with children := (t.run.entry id).children.insert childID child }
  | withSent {v : Visit} {childID : String} {child : ChildRun} (input : ErrorInput)
    (hv : VisitOf wf T phase t id v) (h : Source v t childID child)
    (hnext : inFuture v.now child.nextAttemptAt = false)
    (hlog : t'.log = t.log ++ [.submit (jobIDFor t.run childID (child.attempts + 1))]) :
    Touch wf T phase t t' id
      { t.run.entry id with
        children := (t.run.entry id).children.insert childID (sentChild v.now t.run childID input child) }
  | gated {v : Visit} (hv : Visiting wf v) (hid : v.stepID = id) (hclosed : v.Closed)
    (hdue : Due v (t.run.entry id)) (hT : T.gate t.run id) :
    Touch wf T phase t t' id (gated v.now (t.run.entry id))
  -- a visit of another step, of which this one is a child or a branch
  | adopted {v : Visit} {own : String} {cfg : ParallelConfig} (hv : VisitOf wf T phase t own v)
    (ht : v.step.type = .parallel) (hcfg : v.env.parallel = .ok cfg) (hmem : id ∈ cfg.childStepIDs)
    (hdef : (wf.step id).isSome) :
    Touch wf T phase t t' id (adoptee (t.run.step id))
  | created {v : Visit} {own : String} {idx n : ℕ} (hv : VisitOf wf T phase t own v) (hf : v.step.fansOut)
    (hn : resolveItems v (t.run.entry own) = .ok n) (hidx : idx < n) (hid : id = childIDFor own idx)
    (hnone : (t.run.entry own).children.lookup id = none) :
    Touch wf T phase t t' id (ChildRun.toStepRun { status := .pending })
  | child {v : Visit} {own : String} {child : ChildRun} (hv : VisitOf wf T phase t own v)
      (h : ChildTurn v t id child) :
    Touch wf T phase t t' id child.toStepRun
  | childSent {v : Visit} {own : String} {child : ChildRun} (input : ErrorInput)
    (hv : VisitOf wf T phase t own v) (h : Source v t id child)
    (hnext : inFuture v.now child.nextAttemptAt = false)
    (hrun : t'.run = (t.putBoth own id (sentChild v.now t.run id input child)).run)
    (hlog : t'.log = t.log ++ [.submit (jobIDFor t.run id (child.attempts + 1))]) :
    Touch wf T phase t t' id (sentChild v.now t.run id input child).toStepRun
  | taken (hunset : (t.run.entry id).status = .unset) : Touch wf T phase t t' id
      { t.run.entry id with status := .pending }
  | notTaken (now : ℤ) (hopen : isTerminalStepStatus (t.run.entry id).status = false) :
    Touch wf T phase t t' id (notTaken now (t.run.entry id))
  -- the run as a whole
  | activated (hin : id ∈ wf.ids) (hfresh : fresh (t.run.entry id).status) :
    Touch wf T phase t t' id { t.run.entry id with status := .pending, errorInput := .value }
  | skipped (reason : String) (now : ℤ) (hpending : (t.run.entry id).status = .pending)
    (hover : isTerminalRunStatus t'.run.status) :
    Touch wf T phase t t' id (skipped reason now (t.run.entry id))
  | ended {change : ChildRun → ChildRun} (hchange : Ending change) :
    Touch wf T phase t t' id (endStepRun change (t.run.entry id))
  -- a result, a decision or a recovery
  | result {res : JobResult} {child : ChildRun} {retry : Option ℤ} (env : OpEnv wf)
    (hphase : phase = .handling) (hid : '[' ∉ id.toList) (hT : T.result t.run id res)
    (h : takeResult env (wf.step id) res (t.run.entry id).toChildRun = some (child, retry)) :
    Touch wf T phase t t' id { t.run.entry id with toChildRun := child }
  | childResult {base : String} {res : JobResult} {child : ChildRun} {retry : Option ℤ} (env : OpEnv wf)
    (hphase : phase = .handling) (hid : splitForEachStep id = (base, id)) (hkey : id ≠ "")
    (hT : T.result t.run id res)
    (h : takeResult env (wf.step base) res (t.run.childEntry base id) = some (child, retry)) :
    Touch wf T phase t t' id child.toStepRun
  | withResult {childID : String} {res : JobResult} {child : ChildRun} {retry : Option ℤ} (env : OpEnv wf)
    (hphase : phase = .handling) (hid : splitForEachStep childID = (id, childID)) (hkey : childID ≠ "")
    (hT : T.result t.run childID res)
    (h : takeResult env (wf.step id) res (t.run.childEntry id childID) = some (child, retry)) :
    Touch wf T phase t t' id (withResult (wf.step id) env.now
      { t.run.entry id with children := (t.run.entry id).children.insert childID child })
  | withSibling {childID : String} {step : Step} {child : ChildRun} (now : ℤ)
    (hphase : phase = .handling) (hstep : wf.step id = some step) (hf : step.forEach ≠ "")
    (hparent : erring (t.run.entry id).status)
    (h : (t.run.entry id).children.lookup childID = some child)
    (hchild : isTerminalStepStatus child.status = false) :
    Touch wf T phase t t' id
      { t.run.entry id with children :=
        (t.run.entry id).children.insert childID (siblingCancelled now child) }
  | sibling {base : String} {step : Step} {child : ChildRun} (now : ℤ) (hphase : phase = .handling)
    (hstep : wf.step base = some step) (hf : step.forEach ≠ "") (h : (t.run.entry base).children.lookup
      id = some child) (hchild : isTerminalStepStatus child.status = false) :
    Touch wf T phase t t' id (siblingCancelled now child).toStepRun
  | decided (approved : Bool) (now : ℤ) (hphase : phase = .handling)
      (hs : (t.run.entry id).status = .waiting) :
    Touch wf T phase t t' id
      { t.run.entry id with status := if approved then .succeeded else .failed, completedAt := some now }
  | recovered (now : ℤ) (hphase : phase = .handling) (hT : T.recovers)
      (hs : (t.run.entry id).status = .waiting) :
    Touch wf T phase t t' id (recovered now (t.run.entry id))

/-- An entry is written, and others stay as they are. -/
theorem Touch.put {s : Tick} (hown : id = own → Touch wf T phase t t' id sr')
    (hoth : id ≠ own → Touch wf T phase t t' id (s.run.entry id)) :
    Touch wf T phase t t' id ((s.put own sr').run.entry id) := by
  by_cases hid : id = own
  · subst hid
    rw [Tick.entry_put]
    exact hown rfl
  · rw [Tick.entry_put_ne _ _ hid]
    exact hoth hid

theorem Touch.both {child : ChildRun} (hown : id = own → Touch wf T phase t t' id
      { t.run.entry id with children := (t.run.entry id).children.insert childID child })
    (hch : id = childID → Touch wf T phase t t' id child.toStepRun) :
    Touch wf T phase t t' id ((t.putBoth own childID child).run.entry id) :=
  .put (fun hid => hid ▸ hown hid) fun _ => .put hch fun _ => .kept

/-- An entry, while the children of another step are created. -/
theorem entry_createChildren (hid : id ≠ v.stepID) {n : ℕ} {s : StepRun × Tick} :
    (held v (createChildren v.stepID n s)).run.entry id = s.2.run.entry id ∨
      ∃ idx < n, id = childIDFor v.stepID idx ∧ s.1.children.lookup id = none ∧
        (held v (createChildren v.stepID n s)).run.entry id = toStepRun { status := .pending } := by
  have hind : (∀ id', (createChildren v.stepID n s).1.children.lookup id' = none →
      s.1.children.lookup id' = none) ∧
      ((held v (createChildren v.stepID n s)).run.entry id = s.2.run.entry id ∨
        ∃ idx < n, id = childIDFor v.stepID idx ∧ s.1.children.lookup id = none ∧
          (held v (createChildren v.stepID n s)).run.entry id = toStepRun { status := .pending }) := by
    refine createChildren_induction
      (P := fun s' => (∀ id', s'.1.children.lookup id' = none → s.1.children.lookup id' = none) ∧
        ((held v s').run.entry id = s.2.run.entry id ∨ ∃ idx < n, id = childIDFor v.stepID idx ∧
          s.1.children.lookup id = none ∧ (held v s').run.entry id = toStepRun { status := .pending }))
      ⟨fun _ h => h, .inl (Tick.entry_put_ne _ _ hid)⟩ ?_
    rintro s' idx hidx ⟨hky, hent⟩ hno
    refine ⟨fun id' hno' => ?_, ?_⟩
    · rw [putChild, AList.lookup_insert_eq_none] at hno'
      exact hky id' hno'.2
    · rw [held_putChild]
      by_cases hid' : id = childIDFor v.stepID idx
      · refine .inr ⟨idx, hidx, hid', hid' ▸ hky _ hno, ?_⟩
        rw [hid']
        exact entry_of_some (Tick.step_putBoth _ _ (hid' ▸ hid))
      · rw [entry_of_step (Tick.step_putBoth_ne _ _ hid hid')]
        exact hent
  exact hind.2

theorem Turn.touch (hv : Visiting wf v) (hT : T.visit v) (h : Turn v t t') (id : String) :
    Touch wf T .scheduling t t' id (t'.run.entry id) := by
  have hvis : ∀ {own}, own = v.stepID → Due v (t.run.entry v.stepID) →
      VisitOf wf T .scheduling t own v := by
    rintro own rfl hdue
    exact ⟨hv, hT, rfl, hdue, rfl⟩
  cases h with
  | own hdue h =>
    refine .put (fun hid => ?_) fun _ => .kept
    subst hid
    exact .turn (hvis rfl hdue) h
  | @fanned startedAt n hdue hf hn h0 =>
    by_cases hid : id = v.stepID
    · subst hid
      have hent := held_entry (v := v)
        (createChildren v.stepID n
          ({ t.entry v.stepID with status := .running, startedAt, resolvedItems := some n }, t))
      rw [Tick.entry] at hent
      rw [hent]
      exact .fanned (hvis rfl hdue) hf hn h0
    · set s : StepRun × Tick :=
          ({ t.entry v.stepID with status := .running, startedAt, resolvedItems := some n }, t)
      have hnew : (held v (createChildren v.stepID n s)).run.entry id = s.2.run.entry id ∨ _ :=
        entry_createChildren hid
      rcases hnew with hsm | ⟨idx, hidx, hch, hno, hnew⟩
      · rw [hsm]
        exact .kept
      · rw [hnew]
        exact .created (hvis rfl hdue) hf hn hidx hch hno
  | @sent status undo sr' hdue hs =>
    have hlog : ∀ r : WorkflowRun, t.log ++ [Effect.save r] ++ [.submit sr'.jobID] =
        t.log ++ [.save r, .submit sr'.jobID] := by
      simp
    refine Touch.put (fun hid => ?_) fun _ => .kept
    subst hid
    exact .sent (hvis rfl hdue) hs (hlog _)
  | @unsent _ status undo sr' saves hdue hs hsv ht' =>
    rw [ht']
    refine Touch.put (fun hid => ?_) fun _ => .kept
    subst hid
    exact .unsent (hvis rfl hdue) hs
  | switched hdue ht hend hsf hoth =>
    by_cases hid : id = v.stepID
    · subst hid
      rw [entry_of_some hsf]
      exact .switched (hvis rfl hdue) ht hend
    have hswi := hoth id hid
    rw [entry]
    generalize t'.run.step id = o at hswi
    cases hswi with
    | same => exact .kept
    | notTaken hop => exact .notTaken v.now hop
    | taken =>
      split
      · rename_i hun
        exact .taken hun
      · exact .kept
  | @adopted childID cfg hdue ht hcfg hmem hdef howr =>
    rw [hv.wf_eq] at hdef
    refine .put (fun hid => ?_) fun _ => .put (fun hid => ?_) fun _ => .kept
    · subst hid
      exact .adopts (hvis rfl hdue) ht hcfg hmem hdef
    · subst hid
      exact .adopted (hvis rfl hdue) ht hcfg hmem hdef
  | child hdue h =>
    refine Touch.both (fun hid => ?_) fun hid => ?_
    · subst hid
      exact .withChild (hvis rfl hdue) h
    · subst hid
      exact .child (hvis rfl hdue) h
  | @childSent childID child input dispatched hdue h hnx =>
    refine Touch.both (fun hid => ?_) fun hid => ?_
    · subst hid
      exact .withSent input (hvis rfl hdue) h hnx rfl
    · subst hid
      exact .childSent input (hvis rfl hdue) h hnx rfl rfl
  | other => exact .kept

/-- **What a move makes of an entry.** -/
theorem Move.touch (h : Move wf T phase t t') (id : String) :
    Touch wf T phase t t' id (t'.run.entry id) := by
  cases h with
  | turn hv hT _ htn => exact htn.touch hv hT id
  | @gated v _ hv hT hop hcl hdue =>
    refine .put (fun hid => ?_) fun _ => .kept
    subst hid
    exact .gated hv rfl hcl hdue hT
  | begun | ticked | saved | other | orphaned => exact .kept
  | activated id' herr =>
    rcases step_activateOnErrorHandler wf t.run id' id with hsm | ⟨-, hin, hfr, hnew⟩
    · rw [entry_of_step hsm]
      exact .kept
    · rw [entry_of_some hnew]
      exact .activated hin hfr
  | counted o now =>
    rcases (step_updateRunStatus o now t.run).1 id with hsm | ⟨sr, reason, now', hsr, hpn, -, hnew⟩
    · rw [entry_of_step hsm]
      exact .kept
    have hov : isTerminalRunStatus (updateRunStatus o now t.run).status := by
      by_contra hop
      have hsm : (updateRunStatus o now t.run).step id = t.run.step id :=
        congrArg (AList.lookup id) ((step_updateRunStatus o now t.run).2 (Bool.eq_false_iff.2 hop))
      rw [hnew, hsr, Option.some.injEq] at hsm
      rw [← hsm] at hpn
      cases hpn
    rw [entry_of_some hnew, ← entry_of_some hsr]
    exact .skipped reason now' (by rw [entry_of_some hsr]; exact hpn) hov
  | @result _ stepID res child retry env hpl hT hop htk =>
    refine .put (fun hid => ?_) fun _ => .kept
    subst hid
    exact .result env rfl hpl hT htk
  | @childResult _ base childID res child retry env hsp hkey hT hop htk =>
    refine .put (fun hid => ?_) fun _ => .put (fun hid => ?_) fun _ => .kept
    · subst hid
      exact .withResult env rfl hsp hkey hT htk
    · subst hid
      exact .childResult env rfl hsp hkey hT htk
  | @sibling _ base childID step child env hste hf hpar hlk hch =>
    refine Touch.both (fun hid => ?_) fun hid => ?_
    · subst hid
      exact .withSibling env.now rfl hste hf hpar hlk hch
    · subst hid
      exact .sibling env.now rfl hste hf hlk hch
  | @decided _ stepID sr approved now hop hsr hwt =>
    refine .put (fun hid => ?_) fun _ => .kept
    subst hid
    rw [← entry_of_some hsr] at hwt ⊢
    exact .decided approved now rfl hwt
  | @ended _ _ status change now hst hchg error =>
    by_cases hid : (t.run.step id).isSome ∨ id ∈ wf.ids
    · rw [entry_of_some (entry_endRun now _ _ error hid)]
      exact .ended hchg
    rw [not_or] at hid
    have hno : t.run.step id = none := Option.not_isSome_iff_eq_none.1 hid.1
    have hste := step_endRun wf now status (endStepRun change) t.run id
    rw [hno, if_neg hid.2] at hste
    have hsm : ({ (endRun wf now status (endStepRun change) t.run).1 with error } : WorkflowRun).step id =
        t.run.step id := hste.trans hno.symm
    rw [entry_of_step hsm]
    exact .kept
  | @recovered _ stepID sr now hT hsr hwt =>
    refine .put (fun hid => ?_) fun _ => .kept
    subst hid
    rw [← entry_of_some hsr] at hwt ⊢
    exact .recovered now rfl hT hwt

end Cordum.Flow
