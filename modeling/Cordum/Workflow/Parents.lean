import Cordum.Workflow.Touch

/-!
# Parents and their children

A loop, or a step that fans out, keeps its children's entries next to the run's own. What a move can
do to the entry of such a parent is said once, in `Fan`.
-/

namespace Cordum.Flow

open GoString AList Tick Option Step Workflow

variable {child child' : ChildRun} {sr sr' : StepRun} {id base stepID id' : String} {v : Visit}
  {wf : Workflow} {T : Terms}
  {phase : Phase} {t t' : Tick} {i j idx : ℕ} {status : StepStatus} {undo now : ℤ}
  {change : ChildRun → ChildRun} {res : JobResult} {retry : Option ℤ} {o o' : Option StepRun}

/-! ## Identifiers of children -/

theorem toList_childIDFor :
    (childIDFor stepID idx).toList = stepID.toList ++ '[' :: ((toString idx).toList ++ [']']) := by
  simp [childIDFor, toString]

theorem bracket_childIDFor : '[' ∈ (childIDFor stepID idx).toList := by
  rw [toList_childIDFor]
  simp

theorem childIDFor_injective (h : childIDFor stepID i = childIDFor stepID j) : i = j := by
  have hli : (childIDFor stepID i).toList = (childIDFor stepID j).toList := by rw [h]
  rw [toList_childIDFor, toList_childIDFor, List.append_cancel_left_eq, List.cons.injEq,
    List.append_cancel_right_eq] at hli
  exact natToString_injective (String.toList_inj.1 hli.2)

theorem split_childIDFor (h : '[' ∉ stepID.toList) (idx : ℕ) :
    splitForEachStep (childIDFor stepID idx) = (stepID, childIDFor stepID idx) := by
  rw [split_append h _ toList_childIDFor, String.ofList_toList]

theorem bracket_of_split (h : splitForEachStep id = (base, id)) (hid : id ≠ "") : '[' ∈ id.toList := by
  rcases split_cases id with ⟨-, hsp⟩ | ⟨base', -, hmem, -⟩
  · rw [hsp, Prod.mk.injEq] at h
    exact absurd h.2.symm hid
  · exact hmem

theorem bracket_notMem_base (h : splitForEachStep id = (base, id)) : '[' ∉ base.toList := by
  rcases split_cases id with ⟨hmem, hsp⟩ | ⟨base', hmem, -, hsp⟩ <;> rw [hsp, Prod.mk.injEq] at h <;>
    exact h.1 ▸ hmem

/-- The identifiers of steps have no brackets. -/
def Workflow.Plain (wf : Workflow) : Prop := ∀ id ∈ wf.ids, '[' ∉ id.toList

instance (wf : Workflow) : Decidable wf.Plain :=
  inferInstanceAs (Decidable (∀ id ∈ wf.ids, '[' ∉ id.toList))

theorem Workflow.Plain.step (h : wf.Plain) (hid : (wf.step id).isSome) : '[' ∉ id.toList := by
  obtain ⟨step, hsp⟩ := isSome_iff_exists.1 hid
  exact h id (mem_ids_of_step hsp)

/-! ## Children -/

section

variable {V : Type} {m m' : GoMap V}

theorem mem_keys_iff : id ∈ m.keys ↔ (m.lookup id).isSome := by
  rw [lookup_isSome, mem_keys]

theorem length_keys : m.keys.length = m.entries.length := List.length_map _

theorem length_of_sameKeys (h : ∀ id, (m.lookup id).isSome = (m'.lookup id).isSome) :
    m.entries.length = m'.entries.length := by
  have hpm : m.keys.Perm m'.keys := by
    rw [List.perm_ext_iff_of_nodup m.keys_nodup m'.keys_nodup]
    intro id
    rw [mem_keys_iff, mem_keys_iff, h]
  rw [← length_keys, ← length_keys]
  exact hpm.length_eq

theorem length_insert_new (h : m.lookup id = none) {x : V} :
    (m.insert id x).entries.length = m.entries.length + 1 := by
  have hnot : id ∉ m := lookup_eq_none.1 h
  rw [entries_insert_of_notMem hnot]
  rfl

theorem lookup_insert_some {x y : V} (h : (m.insert id x).lookup id' = some y) :
    id' = id ∧ y = x ∨ id' ≠ id ∧ m.lookup id' = some y := by
  by_cases hid : id' = id
  · rw [hid, lookup_insert, some.injEq] at h
    exact .inl ⟨hid, h.symm⟩
  · rw [lookup_insert_ne hid] at h
    exact .inr ⟨hid, h⟩

theorem isSome_lookup_insert {x : V} (h : (m.lookup id).isSome) :
    ((m.insert id x).lookup id').isSome = (m.lookup id').isSome := by
  by_cases hid : id' = id
  · subst hid
    rw [lookup_insert, h]
    rfl
  · rw [lookup_insert_ne hid]

theorem length_insert_old (h : (m.lookup id).isSome) {x : V} :
    (m.insert id x).entries.length = m.entries.length :=
  length_of_sameKeys fun _ => isSome_lookup_insert h

theorem lookup_of_entries_nil (h : m.entries = []) (id : String) : m.lookup id = none := by
  rw [lookup, h]
  rfl

theorem childrenIn_nil_iff {p : StepStatus → Bool} :
    childrenIn sr p = [] ↔ ∀ id child, sr.children.lookup id = some child → p child.status = false := by
  rw [childrenIn, List.filter_eq_nil_iff]
  constructor
  · intro h id child hlk
    have hmem : (⟨id, child⟩) ∈ sr.children.entries := mem_lookup_iff.1 hlk
    exact Bool.eq_false_iff.2 (h child (List.mem_map.2 ⟨_, hmem, rfl⟩))
  · intro h child hmem
    obtain ⟨e, he, rfl⟩ := List.mem_map.1 hmem
    rw [h e.1 e.2 (mem_lookup_iff.2 he)]
    exact Bool.false_ne_true

end

/-! ## A parent and the copies of its children -/

/-- The statuses of a child. -/
def ofChild : StepStatus → Bool
  | .pending | .running | .succeeded | .failed | .denied | .cancelled | .timedOut => true
  | .unset | .waiting | .skipped => false

theorem ofChild_of_terminal (h : isTerminalStepStatus status) : ofChild status := by
  cases status <;> first | rfl | cases h

theorem open_of_fresh (h : fresh status) : isTerminalStepStatus status = false := by
  cases status <;> first | rfl | cases h

/-- The statuses of a child that ended without success. -/
def badlyEnded (status : StepStatus) : Bool :=
  status = .failed || status = .denied || status = .cancelled || status = .timedOut

/-- Nobody else dispatches the parent, and results are for the children it has. -/
structure Owned (wf : Workflow) (T : Terms) (own : String) (step : Step) : Prop where
  plain : wf.Plain
  inDef : wf.step own = some step
  parent : step.type = .loop ∨ step.fansOut
  unlisted : ∀ v, T.visit v → ∀ cfg, v.env.parallel = .ok cfg → own ∉ cfg.childStepIDs
  results : ∀ run id res, T.result run id res → id ≠ own ∧
    (splitForEachStep id = (own, id) → ((run.entry own).children.lookup id).isSome)

variable {own : String} {step : Step}

theorem Owned.plain_own (h : Owned wf T own step) : '[' ∉ own.toList :=
  h.plain own (mem_ids_of_step h.inDef)

/-- The keys of children: their own identifiers, or those of other steps. -/
def KeyOf (own base id : String) : Prop := id ≠ own ∧ ('[' ∈ id.toList → splitForEachStep id = (base, id))

/-- A parent's children have the same entries in the run. -/
def Twinned (own : String) (run : WorkflowRun) : Prop :=
  ∀ id child, (run.entry own).children.lookup id = some child →
    run.step id = some child.toStepRun ∧ (∃ idx, id = childIDFor own idx) ∧ ofChild child.status

/-- What holds of a parent along a run. -/
structure Mirrored (own : String) (run : WorkflowRun) : Prop where
  status : (run.entry own).status ≠ .waiting
  child : Twinned own run
  keys : ∀ base id, ((run.entry base).children.lookup id).isSome → KeyOf own base id

variable {run : WorkflowRun}

theorem Mirrored.created (own : String) (hsts : run.steps = ∅) : Mirrored own run := by
  have hent := entry_of_created hsts
  refine ⟨?_, fun id child hlk => ?_, fun base id hso => ?_⟩
  · rw [hent]
    exact nofun
  · rw [hent] at hlk
    cases hlk
  · rw [hent] at hso
    cases hso

namespace Twinned

variable {own : String} {run run' : WorkflowRun}

theorem frame (h : Twinned own run) (hown : (run'.entry own).children = (run.entry own).children)
    (hch : ∀ id child, (run.entry own).children.lookup id = some child → run'.step id = run.step id) :
    Twinned own run' := by
  intro id child hlk
  rw [hown] at hlk
  rw [hch id child hlk]
  exact h id child hlk

theorem ne_of_child (h : Twinned own run)
    (hlk : (run.entry own).children.lookup id = some child) (hid' : '[' ∉ id'.toList) : id ≠ id' := by
  obtain ⟨-, ⟨idx, rfl⟩, -⟩ := h id child hlk
  rintro rfl
  exact hid' bracket_childIDFor

theorem put (h : Twinned own t.run) (hne : id ≠ own)
    (hid : ∀ child, (t.run.entry own).children.lookup id ≠ some child) :
    Twinned own (t.put id sr).run := by
  refine h.frame (congrArg StepRun.children (entry_put_ne _ _ hne.symm)) fun id' child hlk => ?_
  refine step_put_ne _ _ ?_
  rintro rfl
  exact hid child hlk

theorem putStep (h : Twinned own t.run) (hne : id ≠ own) (hid : '[' ∉ id.toList) :
    Twinned own (t.put id sr).run :=
  h.put hne fun _ hlk => h.ne_of_child hlk hid rfl

theorem putWaiting (h : Mirrored own t.run) (hsr : t.run.step id = some sr) (hwt : sr.status = .waiting) :
    Twinned own (t.put id sr').run := by
  refine put h.child (fun heq => ?_) fun child hlk => ?_
  · have hst := h.status
    rw [← heq, entry_of_some hsr] at hst
    exact hst hwt
  · obtain ⟨hsp, -, hst⟩ := h.child id child hlk
    rw [hsr, some.injEq] at hsp
    rw [hsp] at hwt
    have hwt' : child.status = .waiting := hwt
    rw [hwt'] at hst
    cases hst

theorem putOwn (h : Twinned own t.run) (hpl : '[' ∉ own.toList)
    (hchs : sr.children = (t.run.entry own).children) :
    Twinned own (t.put own sr).run := by
  refine h.frame ?_ fun id child hlk => step_put_ne _ _ (h.ne_of_child hlk hpl)
  exact (congrArg StepRun.children (entry_put _ _ _)).trans hchs

theorem putBoth (h : Twinned own t.run) (hpl : '[' ∉ own.toList)
    (hst : ofChild child.status) : Twinned own (t.putBoth own (childIDFor own idx) child).run := by
  have hne : childIDFor own idx ≠ own := fun heq => hpl (heq ▸ bracket_childIDFor)
  intro id' child' hlk
  rw [entry_putBoth] at hlk
  rcases lookup_insert_some hlk with ⟨rfl, rfl⟩ | ⟨hid', hlk⟩
  · exact ⟨step_putBoth _ _ hne, ⟨idx, rfl⟩, hst⟩
  · rw [step_putBoth_ne _ _ (h.ne_of_child hlk hpl) hid']
    exact h id' child' hlk

theorem putBoth_other (h : Twinned own t.run) (hpl : '[' ∉ own.toList)
    (hne : base ≠ own) (hbs : '[' ∉ base.toList) (hkey : KeyOf own base id) :
    Twinned own (t.putBoth base id child).run := by
  refine putStep (h.put hkey.1 fun child' hlk => ?_) hne hbs
  obtain ⟨-, ⟨idx, rfl⟩, -⟩ := h id child' hlk
  have hsp := hkey.2 bracket_childIDFor
  rw [split_childIDFor hpl, Prod.mk.injEq] at hsp
  exact hne hsp.1.symm

end Twinned

/-! ## Moves -/

theorem Due.open_ (h : Due v sr) (ht : v.step.type ≠ .delay) : isTerminalStepStatus sr.status = false := by
  have hst := h.status
  unfold revisited at hst
  cases hs : sr.status <;> simp_all [isTerminalStepStatus]

theorem OwnTurn.lookup_children (h : OwnTurn v sr sr') (hlk : sr'.children.lookup id = some child) :
    sr.children.lookup id = some child := by
  cases h with
  | kept | delayed | childRun | begun | noItems | loopDone => exact hlk
  | ended h => rwa [h.children] at hlk
  | dropped ht active =>
    rw [lookup_keepChildren] at hlk
    split at hlk
    · exact hlk
    · cases hlk

theorem OwnTurn.children (h : OwnTurn v sr sr') (hso : (sr'.children.lookup id).isSome) :
    (sr.children.lookup id).isSome := by
  obtain ⟨child, hch⟩ := isSome_iff_exists.1 hso
  rw [h.lookup_children hch]
  rfl

theorem OwnTurn.children_eq (h : OwnTurn v sr sr') (hpar : v.step.type = .loop ∨ v.step.fansOut) :
    sr'.children = sr.children := by
  cases h with
  | kept | delayed | childRun | begun | noItems | loopDone => rfl
  | ended h => exact h.children
  | dropped ht =>
    rcases hpar with h | h
    · rw [ht] at h
      cases h
    · simp [fansOut, ht] at h

theorem OwnTurn.not_waiting (h : OwnTurn v sr sr') (hst : sr.status ≠ .waiting) :
    sr'.status ≠ .waiting := by
  cases h with
  | kept | dropped => exact hst
  | ended h =>
    intro hwt
    have htm := h.terminal
    rw [hwt] at htm
    cases htm
  | _ => exact nofun

theorem children_adoptee : (adoptee o).children = (o.getD {}).children := by
  cases o with
  | none => rfl
  | some sr =>
    unfold adoptee
    dsimp only
    split <;> rfl

theorem status_of_adoptee (h : (adoptee (run.step id)).status = status)
    (hst : status ≠ .pending) : (run.entry id).status = status := by
  unfold WorkflowRun.entry
  unfold adoptee at h
  cases hsr : run.step id with
  | none =>
    rw [hsr] at h
    exact absurd h.symm hst
  | some sr =>
    rw [hsr] at h
    dsimp only [getD_some] at h
    split at h
    · exact absurd h.symm hst
    · exact h

theorem recovered_cases : (recovered now sr).children = sr.children ∧
    ((recovered now sr).status = .pending ∨
      (recovered now sr).status = .failed ∧ (recovered now sr).jobID = sr.jobID ∧
        (recovered now sr).auditHash = sr.auditHash) := by
  unfold recovered
  dsimp only
  split
  · exact ⟨rfl, .inr ⟨rfl, rfl, rfl⟩⟩
  · exact ⟨rfl, .inl rfl⟩

/-- The visited step makes a child of this name. -/
def Visit.Makes (v : Visit) (id : String) : Prop :=
  (v.step.type ≠ .parallel ∧ ∃ idx, id = childIDFor v.stepID idx) ∨
    v.step.type = .parallel ∧ (v.wf.step id).isSome ∧ ∃ cfg,
    v.env.parallel = .ok cfg ∧ id ∈ cfg.childStepIDs

theorem Step.ne_parallel (h : step.type = .loop ∨ step.fansOut) : step.type ≠ .parallel := by
  intro ht
  simp [ht, fansOut] at h

theorem Source.makes (h : Source v t id child) : v.Makes id := by
  cases h with
  | iteration ht hcfg hid => exact .inl ⟨ne_parallel (.inl ht), _, hid⟩
  | item hf hid => exact .inl ⟨ne_parallel (.inr hf), _, hid⟩
  | branch ht hcfg hid hdef => exact .inr ⟨ht, hdef, _, hcfg, hid⟩

theorem ChildTurn.makes (h : ChildTurn v t id child) : v.Makes id := by
  cases h with
  | awaited ht h | failed h | unsent hf h => exact h.makes
  | cancelled ht hcfg hid hdef => exact .inr ⟨ht, hdef, _, hcfg, hid⟩

theorem Sending.notParent {status : RunStatus} (h : Sending v t sr status undo sr') :
    ¬ (v.step.type = .loop ∨ v.step.fansOut) ∧ sr'.children = sr.children := by
  cases h with
  | approval ht =>
    simp [ht, fansOut]
  | job ht =>
    refine ⟨?_, rfl⟩
    rintro (hlp | hfn)
    · simp [isJob, hlp] at ht
    · cases hs : v.step.type <;> simp_all [isJob, fansOut]

theorem endStepRun_status (hchg : Ending change) (sr : StepRun) :
    isTerminalStepStatus (endStepRun change sr).status := by
  unfold endStepRun
  dsimp only
  split
  · assumption
  · rcases (hchg sr.toChildRun).1 with h | h <;> rw [h] <;> rfl

theorem withResult_children (step : Option Step) (now : ℤ) (sr : StepRun) :
    (withResult step now sr).children = sr.children := by
  unfold withResult
  split <;> rfl

theorem withResult_status {step : Option Step} (h : sr.children.entries ≠ []) :
    (withResult step now sr).status ≠ .waiting := by
  unfold withResult
  split
  · exact nofun
  unfold aggregateChildren
  rw [if_neg h]
  repeat' split
  all_goals exact nofun

theorem VisitOf.step_eq (hv : VisitOf wf T phase t id v) (hdef : wf.step id = some step) :
    v.step = step := by
  have hvis := hv.visiting.step
  rw [hv.stepID, hdef, some.injEq] at hvis
  exact hvis.symm

/-- **Where a child comes from**: it was there, the visited step makes it, or it has a result. -/
theorem Touch.made (h : Touch wf T phase t t' own sr') (hso : (sr'.children.lookup id).isSome) :
    ((t.run.entry own).children.lookup id).isSome ∨ (∃ v, VisitOf wf T phase t own v ∧ v.Makes id) ∨
      ∃ res, splitForEachStep id = (own, id) ∧ id ≠ "" ∧ T.result t.run id res := by
  -- one child is written
  have hins : ∀ {childID child} {P : Prop}, sr'.children =
      (t.run.entry own).children.insert childID child →
      (childID = id → P) → ((t.run.entry own).children.lookup id).isSome ∨ P := by
    intro childID child P hchs hch
    by_cases heq : childID = id
    · exact .inr (hch heq)
    · rw [hchs, lookup_insert_ne (Ne.symm heq)] at hso
      exact .inl hso
  cases h with
  | kept | gated | taken | notTaken | activated | skipped | result | decided => exact .inl hso
  | turn hv htn => exact .inl (htn.children hso)
  | switched hv ht hend => exact .inl (hend.children ▸ hso)
  | @fanned v startedAt n hv hf =>
    revert hso
    refine createChildren_induction (P := fun s => (s.1.children.lookup id).isSome →
      ((t.run.entry own).children.lookup id).isSome ∨ (∃ v, VisitOf wf T phase t own v ∧ v.Makes id) ∨ _)
      .inl fun s idx _ ih _ hs => ?_
    by_cases heq : id = childIDFor own idx
    · exact .inr (.inl ⟨v, hv, .inl ⟨ne_parallel (.inr hf), idx, hv.stepID ▸ heq⟩⟩)
    · rw [putChild, lookup_insert_ne heq] at hs
      exact ih hs
  | sent hv hs | unsent hv hs => exact .inl (hs.notParent.2 ▸ hso)
  | adopts hv ht hcfg hmem hdef =>
    refine hins rfl fun heq => .inl ⟨_, hv, .inr ⟨ht, ?_, _, hcfg, heq ▸ hmem⟩⟩
    rw [← heq, hv.visiting.wf_eq]
    exact hdef
  | withChild hv htn => exact hins rfl fun heq => .inl ⟨_, hv, heq ▸ htn.makes⟩
  | withSent input hv hs => exact hins rfl fun heq => .inl ⟨_, hv, heq ▸ hs.makes⟩
  | adopted => exact .inl (children_adoptee ▸ hso)
  | created | child | childSent | childResult | sibling =>
    cases hso
  | ended hchg =>
    rw [lookup_endStepRun, isSome_map] at hso
    exact .inl hso
  | withResult env hph hid hkey hT =>
    refine hins (withResult_children _ _ _) fun heq => .inr ?_
    subst heq
    exact ⟨_, hid, hkey, hT⟩
  | withSibling now hph hsp hf hpar hlk =>
    rw [isSome_lookup_insert (by rw [hlk]; rfl)] at hso
    exact .inl hso
  | recovered => exact .inl (recovered_cases.1 ▸ hso)

theorem Source.not_waiting (h : Source v t id child) : child.status ≠ .waiting := by
  cases h with
  | iteration ht hcfg hid hmax hfl hact =>
    cases hkey : (t.entry v.stepID).children.lookup id with
    | none => exact nofun
    | some c =>
      have hil := childrenIn_nil_iff.1 hact id c hkey
      intro hwt
      have hwt' : c.status = .waiting := hwt
      simp [hwt'] at hil
  | item hf hid hn hidx hfr | branch ht hcfg hid hdef howr hfr =>
    intro hwt
    rw [hwt] at hfr
    cases hfr

theorem Taken.not_waiting {step : Option Step} (h : Taken step res child child' retry) :
    child'.status ≠ .waiting := by
  intro hwt
  rcases h.applied.status with ⟨hs, -⟩ | ⟨hs, -⟩ <;> rw [hwt] at hs <;> cases hs

theorem Touch.waiting (h : Touch wf T phase t t' id sr') (hs : sr'.status = .waiting) :
    (t.run.entry id).status = .waiting ∨ ∃ step, wf.step id = some step ∧ step.type = .approval := by
  cases h with
  | kept | adopts | withChild | withSent | withSibling => exact .inl hs
  | turn hv htn => exact .inl (by_contra fun hne => htn.not_waiting hne hs)
  | switched hv ht hend =>
    have htm := hend.terminal
    rw [hs] at htm
    cases htm
  | @fanned v startedAt n hv hf hn h0 =>
    have hrng : (createChildren id n
        ({ t.run.entry id with status := .running, startedAt, resolvedItems := some n },
          t)).1.status = .running :=
      createChildren_induction (P := fun s => s.1.status = .running) rfl fun _ _ _ hs _ => hs
    exact absurd (hs.symm.trans hrng) nofun
  | sent hv hsen =>
    cases hsen with
    | approval ht =>
      have hsp := hv.visiting.step
      rw [hv.stepID] at hsp
      exact .inr ⟨_, hsp, ht⟩
    | job => cases hs
  | adopted => exact .inl (status_of_adoptee hs nofun)
  | child hv htn =>
    refine absurd hs ?_
    cases htn with
    | awaited ht hsrc => exact hsrc.not_waiting
    | failed _ hst | cancelled _ _ _ _ _ _ hst =>
      intro hwt
      exact absurd (hst.symm.trans hwt) nofun
    | unsent => exact nofun
  | ended hchg =>
    have htm := endStepRun_status hchg (t.run.entry id)
    rw [hs] at htm
    cases htm
  | result env hph hid hT htk | childResult env hph hid hkey hT htk =>
    exact absurd hs (taken_takeResult htk).not_waiting
  | withResult => exact absurd hs (withResult_status (by simp [entries_insert]))
  | decided approved => cases approved <;> cases hs
  | recovered now => rcases recovered_cases.2 with h | ⟨h, -⟩ <;> cases h.symm.trans hs
  | _ => cases hs

/-- A visit of the parent. -/
structure OwnVisit (T : Terms) (own : String) (step : Step) (t : Tick) (v : Visit) : Prop where
  stepID : v.stepID = own
  step : v.step = step
  terms : T.visit v
  due : Due v (t.run.entry own)

/-- What a move makes of the entry of a parent. -/
inductive Fan (wf : Workflow) (T : Terms) (own : String) (step : Step) (phase : Phase)
    (t t' : Tick) : StepRun → Prop
  | kept : Fan wf T own step phase t t' (t.run.entry own)
  | turn {v : Visit} {sr' : StepRun} (hv : OwnVisit T own step t v) (h : OwnTurn v (t.run.entry own) sr') :
    Fan wf T own step phase t t' sr'
  | fanned {v : Visit} {startedAt : Option ℤ} {n : ℕ} (hv : OwnVisit T own step t v) (hf : step.fansOut)
    (hn : resolveItems v (t.run.entry own) = .ok n) (h0 : n ≠ 0) :
    Fan wf T own step phase t t'
      (createChildren own n
        ({ t.run.entry own with status := .running, startedAt, resolvedItems := some n }, t)).1
  | gated (now : ℤ) (hT : T.gate t.run own) : Fan wf T own step phase t t' (gated now (t.run.entry own))
  | child {v : Visit} {id : String} {child : ChildRun} (hv : OwnVisit T own step t v)
      (h : ChildTurn v t id child) :
    Fan wf T own step phase t t'
      { t.run.entry own with children := (t.run.entry own).children.insert id child }
  | childSent {v : Visit} {id : String} {child : ChildRun} (input : ErrorInput)
      (hv : OwnVisit T own step t v) (h : Source v t id child)
      (hlog : t'.log = t.log ++ [.submit (jobIDFor t.run id (child.attempts + 1))]) :
    Fan wf T own step phase t t'
      { t.run.entry own with
        children := (t.run.entry own).children.insert id (sentChild v.now t.run id input child) }
  | activated (hfresh : fresh (t.run.entry own).status) :
    Fan wf T own step phase t t' { t.run.entry own with status := .pending, errorInput := .value }
  | taken (hunset : (t.run.entry own).status = .unset) : Fan wf T own step phase t t'
      { t.run.entry own with status := .pending }
  | notTaken (now : ℤ) (hopen : isTerminalStepStatus (t.run.entry own).status = false) :
    Fan wf T own step phase t t' (notTaken now (t.run.entry own))
  | skipped (reason : String) (now : ℤ) (hpending : (t.run.entry own).status = .pending) :
    Fan wf T own step phase t t' (skipped reason now (t.run.entry own))
  | result {res : JobResult} {childID : String} {old child : ChildRun} {retry : Option ℤ}
    (env : OpEnv wf) (hphase : phase = .handling)
    (hold : (t.run.entry own).children.lookup childID = some old) (hT : T.result t.run childID res)
    (htake : takeResult env (some step) res old = some (child, retry)) :
    Fan wf T own step phase t t' (withResult (some step) env.now
      { t.run.entry own with children := (t.run.entry own).children.insert childID child })
  | sibling {childID : String} {child : ChildRun} (now : ℤ) (hphase : phase = .handling)
    (hf : step.forEach ≠ "") (hparent : erring (t.run.entry own).status)
    (h : (t.run.entry own).children.lookup childID = some child)
    (hchild : isTerminalStepStatus child.status = false) :
    Fan wf T own step phase t t'
      { t.run.entry own with
        children := (t.run.entry own).children.insert childID (siblingCancelled now child) }
  | ended {change : ChildRun → ChildRun} (hchange : Ending change) :
    Fan wf T own step phase t t' (endStepRun change (t.run.entry own))

section

variable {own : String} {step : Step} (hown : Owned wf T own step)

include hown

theorem Owned.plain_step (hv : Visiting wf v) : '[' ∉ v.stepID.toList :=
  hown.plain _ (mem_ids_of_step hv.step)

theorem Owned.keyOf (hv : Visiting wf v) (hT : T.visit v) (h : v.Makes id) : KeyOf own v.stepID id := by
  have hpl := hown.plain_step hv
  rcases h with ⟨-, idx, rfl⟩ | ⟨-, hdef, cfg, hcfg, hid⟩
  · refine ⟨fun heq => ?_, fun _ => split_childIDFor hpl idx⟩
    exact hown.plain_own (heq ▸ bracket_childIDFor)
  · rw [hv.wf_eq] at hdef
    refine ⟨fun heq => hown.unlisted v hT cfg hcfg (heq ▸ hid), fun hmem => ?_⟩
    exact absurd hmem (hown.plain.step hdef)

theorem Owned.step_eq (hv : Visiting wf v) (hid : v.stepID = own) : v.step = step := by
  have hdef := hv.step
  rw [hid, hown.inDef, some.injEq] at hdef
  exact hdef.symm

theorem Owned.twinned_child (hv : Visiting wf v) (hT : T.visit v)
    (h : Twinned own t.run) (hmak : v.Makes id)
    (hst : v.stepID = own → ofChild child.status) : Twinned own (t.putBoth v.stepID id child).run := by
  by_cases hid : v.stepID = own
  · rcases hmak with ⟨-, idx, hidx⟩ | ⟨ht, -⟩
    · rw [hidx, hid]
      exact h.putBoth hown.plain_own (hst hid)
    · exact absurd (hown.step_eq hv hid ▸ ht) (ne_parallel hown.parent)
  · exact h.putBoth_other hown.plain_own hid (hown.plain_step hv) (hown.keyOf hv hT hmak)

omit hown in
theorem ofChild_childTurn (h : Twinned v.stepID t.run) (hne : v.step.type ≠ .parallel)
    (hch : ChildTurn v t id child) :
    ofChild child.status := by
  -- a child as it was, or a new one
  have hold : ofChild (((t.entry v.stepID).children.lookup id).getD { status := .pending }).status := by
    cases hlk : (t.entry v.stepID).children.lookup id with
    | none => rfl
    | some child => exact (h id child hlk).2.2
  cases hch with
  | awaited ht hs =>
    cases hs with
    | iteration | item => exact hold
    | branch ht => exact absurd ht hne
  | failed _ hst => rw [hst]; rfl
  | unsent => rfl
  | cancelled ht => exact absurd ht hne

omit hown in
theorem Switched.children (h : Switched now o o') : (o'.getD {}).children = (o.getD {}).children := by
  cases h with
  | same | notTaken => rfl
  | taken =>
    rw [getD_some]
    split <;> rfl

theorem Owned.twinned_turn (hv : Visiting wf v) (hT : T.visit v)
    (h : Twinned own t.run) (htn : Turn v t t') :
    Twinned own t'.run := by
  have hpl := hown.plain_step hv
  have hpar : v.stepID = own → v.step.type = .loop ∨ v.step.fansOut := by
    intro hid
    rw [hown.step_eq hv hid]
    exact hown.parent
  cases htn with
  | @own sr' hdue htn =>
    by_cases hid : v.stepID = own
    · have hchs := htn.children_eq (hpar hid)
      rw [hid] at hchs ⊢
      exact h.putOwn hown.plain_own hchs
    · exact h.putStep hid hpl
  | fanned hdue hf =>
    refine createChildren_induction (P := fun s => Twinned own (held v s).run) ?_ fun s idx _ hs hnew => ?_
    · by_cases hid : v.stepID = own
      · unfold held
        rw [hid]
        exact h.putOwn hown.plain_own rfl
      · exact h.putStep hid hpl
    · rw [held_putChild]
      exact hown.twinned_child hv hT hs (.inl ⟨ne_parallel (.inr hf), idx, rfl⟩) fun _ => rfl
  | @sent status undo sr' hdue hs =>
    have hst : Twinned own (t.withStatus status).run := h
    exact hst.putStep (fun hid => hs.notParent.1 (hpar hid)) hpl
  | @unsent _ status undo sr' saves hdue hs hsv ht' =>
    have hst : Twinned own (t.withStatus status).run := h
    rw [ht']
    exact hst.putStep (fun hid => hs.notParent.1 (hpar hid)) hpl
  | switched hdue ht hend hsf hoth hdef hrun =>
    have hne : own ≠ v.stepID := by
      rintro rfl
      have hp := hpar rfl
      simp [ht, fansOut] at hp
    refine h.frame (hoth own hne).children fun id child hlk => ?_
    -- a switch changes steps of the definition
    by_contra hchd
    have hsp := hdef id (h.ne_of_child hlk hpl) hchd
    rw [hv.wf_eq] at hsp
    exact h.ne_of_child hlk (hown.plain.step hsp) rfl
  | @adopted id cfg hdue ht hcfg hid hdef howr =>
    have hne : v.stepID ≠ own := fun heq => ne_parallel (hpar heq) ht
    have hkey := hown.keyOf hv hT (.inr ⟨ht, hdef, cfg, hcfg, hid⟩)
    have hput : Twinned own (t.put id (adoptee (t.run.step id))).run :=
      h.putStep hkey.1 (hown.plain.step (hv.wf_eq ▸ hdef))
    exact hput.putStep hne hpl
  | child hdue hch =>
    refine hown.twinned_child hv hT h hch.makes fun hid => ?_
    subst hid
    exact ofChild_childTurn h (ne_parallel (hpar rfl)) hch
  | childSent input hdue hs => exact hown.twinned_child hv hT h hs.makes fun _ => rfl
  | other => exact h

theorem Owned.twinned_ended (hchg : Ending change) (now : ℤ) (status : RunStatus)
    (error : Option String) (h : Twinned own run) :
    Twinned own { (endRun wf now status (endStepRun change) run).1 with error } := by
  intro id child hlk
  rw [entry_of_some (entry_endRun now status change error (.inr (mem_ids_of_step hown.inDef))),
    lookup_endStepRun] at hlk
  obtain ⟨old, hold, rfl⟩ := map_eq_some_iff.1 hlk
  obtain ⟨hsp, hidx, hst⟩ := h id old hold
  refine ⟨?_, hidx, ?_⟩
  · rw [entry_endRun now status change error (.inl (by rw [hsp]; rfl)), entry_of_some hsp]
    rfl
  · split
    · exact hst
    · rcases (hchg old).1 with h | h <;> rw [h] <;> rfl

omit hown in
theorem ofChild_takeResult {env : OpEnv wf} {step : Option Step}
    (h : takeResult env step res child = some (child', retry)) : ofChild child'.status := by
  rcases (taken_takeResult h).applied.status with ⟨htm, -⟩ | ⟨hpn, -⟩
  · exact ofChild_of_terminal htm
  · rw [hpn]
    rfl

theorem Owned.twinned (h : Mirrored own t.run) (hmv : Move wf T phase t t') : Twinned own t'.run := by
  have hpl := hown.plain_own
  have htw := h.child
  cases hmv with
  | turn hv hT _ htn => exact hown.twinned_turn hv hT htw htn
  | @gated v _ hv hT hop hcl hdue =>
    by_cases hid : v.stepID = own
    · rw [hid]
      exact htw.putOwn hpl rfl
    · exact htw.putStep hid (hown.plain_step hv)
  | begun | ticked | saved | other | orphaned => exact htw
  | activated id herr =>
    have hsp := step_activateOnErrorHandler wf t.run id
    refine htw.frame ?_ fun id' child hlk => ?_
    · rcases hsp own with hsm | ⟨-, -, -, hnew⟩
      · rw [entry_of_step hsm]
      · rw [entry_of_some hnew]
    · rcases hsp id' with hsm | ⟨-, hmem, -⟩
      · exact hsm
      · exact absurd rfl (htw.ne_of_child hlk (hown.plain id' hmem))
  | counted o now =>
    have hsp := (step_updateRunStatus o now t.run).1
    refine htw.frame ?_ fun id' child hlk => ?_
    · rcases hsp own with hsm | ⟨sr, reason, now', hsr, -, -, hnew⟩
      · rw [entry_of_step hsm]
      · rw [entry_of_some hnew, entry_of_some hsr]
        rfl
    · rcases hsp id' with hsm | ⟨sr, reason, now', -, -, hdef, -⟩
      · exact hsm
      · exact absurd rfl (htw.ne_of_child hlk (hown.plain.step hdef))
  | result env hid hT => exact htw.putStep (hown.results _ _ _ hT).1 hid
  | @childResult _ base childID res child retry env hid hkey hT hop htk =>
    -- the child is written, and then its parent once more
    have hbt : Twinned own ((t.putBoth base childID child).put base (withResult (wf.step base) env.now
        { t.run.entry base with children := (t.run.entry base).children.insert childID child })).run := by
      by_cases heq : base = own
      · subst heq
        obtain ⟨old, hold⟩ := isSome_iff_exists.1 ((hown.results _ _ _ hT).2 hid)
        obtain ⟨-, ⟨idx, rfl⟩, -⟩ := htw childID old hold
        refine (htw.putBoth hpl (ofChild_takeResult htk)).putOwn hpl ?_
        rw [withResult_children, entry_putBoth]
      · have hbs := bracket_notMem_base hid
        have hne : childID ≠ own := fun he => hpl (he ▸ bracket_of_split hid hkey)
        exact (htw.putBoth_other hpl heq hbs ⟨hne, fun _ => hid⟩).putStep heq hbs
    unfold putBoth at hbt
    rwa [put_put] at hbt
  | @sibling _ base childID step' child env hsp hf hpar hlk hch =>
    by_cases heq : base = own
    · subst heq
      obtain ⟨-, ⟨idx, rfl⟩, -⟩ := htw childID child hlk
      exact htw.putBoth hpl rfl
    · exact htw.putBoth_other hpl heq (hown.plain base (mem_ids_of_step hsp))
        (h.keys base childID (by rw [hlk]; rfl))
  | decided approved now hop hsr hwt | recovered now hT hsr hwt => exact Twinned.putWaiting h hsr hwt
  | ended now hst hchg error => exact hown.twinned_ended hchg now _ error htw

/-- **The copies of a parent's children stay the same.** -/
theorem Owned.mirrored (h : Mirrored own t.run) (hmv : Move wf T phase t t') : Mirrored own t'.run := by
  refine ⟨fun hwt => ?_, hown.twinned h hmv, fun base id hso => ?_⟩
  · rcases (hmv.touch own).waiting hwt with hbef | ⟨step', hsp', ht⟩
    · exact h.status hbef
    · rw [hown.inDef, some.injEq] at hsp'
      have hpar := hown.parent
      simp [hsp', ht, fansOut] at hpar
  · rcases (hmv.touch base).made hso with hold | ⟨v, hv, hmak⟩ | ⟨res, hsp, -, hT⟩
    · exact h.keys base id hold
    · exact hv.stepID ▸ hown.keyOf hv.visiting hv.terms hmak
    · exact ⟨(hown.results _ _ _ hT).1, fun _ => hsp⟩

/-- **What a move makes of a parent.** -/
theorem Owned.fan (h : Mirrored own t.run) (hmv : Move wf T phase t t') :
    Fan wf T own step phase t t' (t'.run.entry own) := by
  have hpl := hown.plain_own
  have htch := hmv.touch own
  generalize t'.run.entry own = sr' at htch
  have hpar : ∀ {v}, VisitOf wf T phase t own v → v.step.type = .loop ∨ v.step.fansOut := by
    intro v hv
    rw [hown.step_eq hv.visiting hv.stepID]
    exact hown.parent
  have hvis : ∀ {v}, VisitOf wf T phase t own v → OwnVisit T own step t v :=
    fun hv => ⟨hv.stepID, hown.step_eq hv.visiting hv.stepID, hv.terms, hv.due⟩
  -- nobody writes the parent as a child
  have hch : ∀ {v own'}, VisitOf wf T phase t own' v → ¬ v.Makes own :=
    fun hv hmak => (hown.keyOf hv.visiting hv.terms hmak).1 rfl
  cases htch with
  | kept => exact .kept
  | turn hv htn => exact .turn (hvis hv) htn
  | switched hv ht | adopts hv ht =>
    have hp := hpar hv
    simp [ht, fansOut] at hp
  | fanned hv hf hn h0 => exact .fanned (hvis hv) ((hvis hv).step ▸ hf) hn h0
  | sent hv hs | unsent hv hs => exact absurd (hpar hv) hs.notParent.1
  | withChild hv htn => exact .child (hvis hv) htn
  | withSent input hv hsrc hnx hlog => exact .childSent input (hvis hv) hsrc hlog
  | gated hv hid hcl hdue hT => exact .gated _ hT
  | adopted hv ht hcfg hmem hdef =>
    exact absurd (.inr ⟨ht, by rw [hv.visiting.wf_eq]; exact hdef, _, hcfg, hmem⟩) (hch hv)
  | created hv hf hn hidx hid =>
    obtain rfl := hv.stepID
    exact absurd (.inl ⟨ne_parallel (.inr hf), _, hid⟩) (hch hv)
  | child hv htn => exact absurd htn.makes (hch hv)
  | childSent input hv hsrc => exact absurd hsrc.makes (hch hv)
  | taken hun => exact .taken hun
  | notTaken now hop => exact .notTaken now hop
  | activated hin hfr => exact .activated hfr
  | skipped reason now hpn => exact .skipped reason now hpn
  | ended hchg => exact .ended hchg
  | result env hph hid hT => exact absurd rfl (hown.results _ _ _ hT).1
  | childResult env hph hid hkey => exact absurd (bracket_of_split hid hkey) hpl
  | @withResult childID res child retry env hph hid hkey hT htk =>
    obtain ⟨old, hold⟩ := isSome_iff_exists.1 ((hown.results _ _ _ hT).2 hid)
    have hent : t.run.childEntry own childID = old := by
      rw [WorkflowRun.childEntry, hold]
      rfl
    rw [hent, hown.inDef] at htk
    rw [hown.inDef]
    exact .result env hph hold hT htk
  | withSibling now hph hsp hf hpar hlk hop =>
    rw [hown.inDef, some.injEq] at hsp
    exact .sibling now hph (hsp ▸ hf) hpar hlk hop
  | @sibling base _ child now hph _ _ hlk => exact absurd rfl (h.keys base own (by rw [hlk]; rfl)).1
  | decided approved now hph hs | recovered now hph hT hs => exact absurd hs h.status

end

end Cordum.Flow
