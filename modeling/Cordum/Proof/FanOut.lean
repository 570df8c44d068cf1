import Cordum.Workflow.Healthy
import Cordum.Workflow.Parents

/-!
# Steps that fan out

A for-each step has a child for each of its items, and takes its status from them when one of them has
a result. A child whose request cannot be made fails while it is dispatched, and its parent does not
look: it goes on running over children that have all ended (`items_failed_unnoticed`). Where the
requests can be made, the parent's status follows its children (`fanOut_follows`).
-/

namespace Cordum.Flow

open List Option Bool AList

variable {wf : Workflow} {own id : String} {step : Step} {phase : Phase} {t t' : Tick}
  {sr sr' : StepRun} {i n : ℕ} {child : ChildRun} {v : Visit}

/-- No parallel step dispatches the step, its gate does not close once it has begun, the requests of
its children can be made, and results are for children it has. -/
def fanOutTerms (own : String) : Terms where
  visit v := (∀ cfg, v.env.parallel = .ok cfg → own ∉ cfg.childStepIDs) ∧
    (v.stepID = own → ∀ id, (v.env.child id).Built)
  gate run id := id = own → (run.entry own).children.entries = []
  result run id _ := id ≠ own ∧ (splitForEachStep id = (own, id) →
    ((run.entry own).children.lookup id).isSome)

/-- The status of a parent is that of its children, unless it failed with an error of its own. -/
structure FollowsChildren (own : String) (run : WorkflowRun) : Prop where
  running : (run.entry own).status = .running →
    ∃ id child, (run.entry own).children.lookup id = some child ∧ isTerminalStepStatus child.status = false
  succeeded : (run.entry own).status = .succeeded →
    (∀ id child, (run.entry own).children.lookup id = some child → child.status = .succeeded) ∧
      ∀ n, (run.entry own).resolvedItems = some n → ∀ i < n,
        ∃ child, (run.entry own).children.lookup (childIDFor own i) = some child ∧
        child.status = .succeeded
  failed : (run.entry own).status = .failed ∨ (run.entry own).status = .denied →
    (run.entry own).error = none →
    ∃ id child, (run.entry own).children.lookup id = some child ∧ badlyEnded child.status
  copies : ∀ id child, (run.entry own).children.lookup id = some child → run.step id = some child.toStepRun

/-! ## Children -/

/-- What `aggregateChildren` says of the children. -/
inductive Aggregated (sr : StepRun) : StepStatus → Prop
  | failed {id : String} {child : ChildRun} (h : sr.children.lookup id = some child)
      (hs : badlyEnded child.status) :
    Aggregated sr .failed
  | denied {id : String} {child : ChildRun} (h : sr.children.lookup id = some child)
      (hs : badlyEnded child.status) :
    Aggregated sr .denied
  | succeeded (h : ∀ id child, sr.children.lookup id = some child → child.status = .succeeded) :
      Aggregated sr .succeeded
  | running {id : String} {child : ChildRun} (h : sr.children.lookup id = some child)
    (hs : isTerminalStepStatus child.status = false) : Aggregated sr .running

theorem exists_childrenIn {p : StepStatus → Bool} (h : childrenIn sr p ≠ []) :
    ∃ id child, sr.children.lookup id = some child ∧ p child.status := by
  by_contra hno
  refine h (childrenIn_nil_iff.2 fun id child hlk => ?_)
  rw [← not_eq_true]
  exact fun hp => hno ⟨id, child, hlk, hp⟩

theorem aggregated (h : sr.children.entries ≠ []) : Aggregated sr (aggregateChildren sr) := by
  unfold aggregateChildren
  rw [if_neg h]
  split
  · rename_i hfl
    rw [not_eq_true', isEmpty_eq_false_iff] at hfl
    obtain ⟨id, child, hlk, hs⟩ := exists_childrenIn hfl
    refine .failed hlk ?_
    cases hst : child.status <;> simp_all [badlyEnded]
  · rename_i hfl
    split
    · rename_i hden
      rw [not_eq_true', isEmpty_eq_false_iff] at hden
      obtain ⟨id, child, hlk, hs⟩ := exists_childrenIn hden
      refine .denied hlk ?_
      cases hst : child.status <;> simp_all [badlyEnded]
    · rename_i hden
      split
      · rename_i hall
        rw [List.isEmpty_iff, childrenIn_nil_iff] at hall
        exact .succeeded fun id child hlk => by simpa using hall id child hlk
      rename_i hall
      rw [List.isEmpty_iff] at hall
      obtain ⟨id, child, hlk, hs⟩ := exists_childrenIn hall
      refine .running hlk ?_
      rw [not_eq_true', not_eq_false, List.isEmpty_iff, childrenIn_nil_iff] at hfl hden
      have hf := hfl id child hlk
      have hd := hden id child hlk
      cases hst : child.status <;> simp_all [isTerminalStepStatus]

theorem createChildren_all (stepID : String) (n : ℕ) (s : StepRun × Tick) (hi : i < n) :
    ((createChildren stepID n s).1.children.lookup (childIDFor stepID i)).isSome := by
  refine (Loop.foldl_iff
    (P := fun s : StepRun × Tick => (s.1.children.lookup (childIDFor stepID i)).isSome)
    (Q := fun idx => idx = i) (fun s idx => ?_) (range n) s).2 (.inr ⟨i, mem_range.2 hi, rfl⟩)
  dsimp only
  by_cases hidx : idx = i
  · subst hidx
    split
    · rename_i hso
      simp [hso]
    · simp [putChild]
  · have hne : childIDFor stepID i ≠ childIDFor stepID idx :=
      fun heq => hidx (childIDFor_injective heq).symm
    split
    · simp [hidx]
    · simp [putChild, lookup_insert_ne hne, hidx]

/-- New children are pending, and the others stay as they are. -/
structure Created (sr sr' : StepRun) : Prop where
  status : sr'.status = sr.status
  items : sr'.resolvedItems = sr.resolvedItems
  old : ∀ id child, sr.children.lookup id = some child → sr'.children.lookup id = some child
  new : ∀ id child, sr'.children.lookup id = some child → sr.children.lookup id = some child ∨
    child.status = .pending

theorem created_createChildren (stepID : String) (n : ℕ) (s : StepRun × Tick) :
    Created s.1 (createChildren stepID n s).1 := by
  refine createChildren_induction (P := fun s' => Created s.1 s'.1)
    ⟨rfl, rfl, fun _ _ h => h, fun _ _ h => .inl h⟩ ?_
  intro s' idx _ h hno
  refine ⟨h.status, h.items, fun id child hlk => ?_, fun id child hlk => ?_⟩
  · have hne : id ≠ childIDFor stepID idx := by
      rintro rfl
      rw [h.old _ _ hlk] at hno
      cases hno
    rw [putChild, lookup_insert_ne hne]
    exact h.old id child hlk
  · rcases lookup_insert_some hlk with ⟨-, rfl⟩ | ⟨-, hlk⟩
    · exact .inr rfl
    · exact h.new id child hlk

/-! ## The invariant -/

/-- The status of a step that fans out follows its children. -/
structure Following (own : String) (sr : StepRun) : Prop where
  /-- A step that has not begun has no children. -/
  fresh : fresh sr.status → ∀ id, sr.children.lookup id = none
  begun : ∀ id, (sr.children.lookup id).isSome → ∃ n, sr.resolvedItems = some n ∧ n ≠ 0
  items : ∀ n, sr.resolvedItems = some n → ∀ i < n, (sr.children.lookup (childIDFor own i)).isSome
  running : sr.status = .running → ∃ id child, sr.children.lookup id = some child ∧
    isTerminalStepStatus child.status = false
  succeeded : sr.status = .succeeded → ∀ id child, sr.children.lookup id = some child →
    child.status = .succeeded
  failed : sr.status = .failed ∨ sr.status = .denied → sr.error = none →
    ∃ id child, sr.children.lookup id = some child ∧ badlyEnded child.status

theorem following_created : Following own {} := by
  have hno : ∀ id, ({} : StepRun).children.lookup id = none := lookup_empty
  refine ⟨fun _ => hno, fun id hso => ?_, nofun, nofun, nofun, ?_⟩
  · cases hso
  · rintro (hs | hs) <;> cases hs

/-- The step has the same children, by their keys. -/
structure SameItems (sr sr' : StepRun) : Prop where
  keys : ∀ id, (sr'.children.lookup id).isSome = (sr.children.lookup id).isSome
  items : sr'.resolvedItems = sr.resolvedItems

theorem SameItems.insert (hso : (sr.children.lookup id).isSome)
    (hchs : sr'.children = sr.children.insert id child) (hits : sr'.resolvedItems = sr.resolvedItems) :
    SameItems sr sr' := by
  refine ⟨fun id' => ?_, hits⟩
  rw [hchs]
  exact isSome_lookup_insert hso

namespace Following

variable (h : Following own sr)

include h

theorem of_same (hsm : SameItems sr sr') (hfr : Flow.fresh sr'.status → ∀ id, sr.children.lookup id = none)
    (hrng : sr'.status = .running → ∃ id child, sr'.children.lookup id = some child ∧
      isTerminalStepStatus child.status = false)
    (hsuc : sr'.status = .succeeded → ∀ id child, sr'.children.lookup id = some child →
      child.status = .succeeded)
    (hfl : sr'.status = .failed ∨ sr'.status = .denied → sr'.error = none →
      ∃ id child, sr'.children.lookup id = some child ∧ badlyEnded child.status) : Following own sr' := by
  refine ⟨fun hs id => ?_, fun id hso => ?_, fun n hn i hi => ?_, hrng, hsuc, hfl⟩
  · rw [← not_isSome_iff_eq_none, hsm.keys, hfr hs id]
    exact false_ne_true
  · rw [hsm.keys] at hso
    rw [hsm.items]
    exact h.begun id hso
  · rw [hsm.items] at hn
    rw [hsm.keys]
    exact h.items n hn i hi

theorem of_status (hchs : sr'.children = sr.children) (hits : sr'.resolvedItems = sr.resolvedItems)
    (hfr : Flow.fresh sr'.status → Flow.fresh sr.status) (hrng : sr'.status ≠ .running)
    (hsuc : sr'.status ≠ .succeeded)
    (hfl : sr'.status = .failed ∨ sr'.status = .denied → sr'.error ≠ none) :
    Following own sr' := by
  have hsm : SameItems sr sr' := ⟨fun id => by rw [hchs], hits⟩
  exact h.of_same hsm (fun hs => h.fresh (hfr hs)) (fun hs => absurd hs hrng) (fun hs => absurd hs hsuc)
    (fun hs he => absurd he (hfl hs))

theorem running_of_due (hfn : v.step.fansOut) (hdue : Due v sr) (hwt : sr.status ≠ .waiting)
    (hso : (sr.children.lookup id).isSome) : sr.status = .running := by
  have hfr : Flow.fresh sr.status → False := by
    intro hs
    rw [h.fresh hs id] at hso
    cases hso
  have hst := hdue.status
  have hfor : v.step.forEach ≠ "" := by
    cases ht : v.step.type <;> simp_all [Step.fansOut]
  cases hs : sr.status <;> simp_all [revisited, Flow.fresh]

theorem fanned {startedAt : Option ℤ} (hfn : v.step.fansOut) (hdue : Due v sr)
    (hwt : sr.status ≠ .waiting) (h0 : n ≠ 0) (t : Tick) :
    Following own (createChildren own n
      ({ sr with status := .running, startedAt, resolvedItems := some n }, t)).1 := by
  set s : StepRun × Tick := ({ sr with status := .running, startedAt, resolvedItems := some n }, t) with hs
  have hcr := created_createChildren own n s
  have hall : ∀ i < n, _ := fun i hi => createChildren_all own n s hi
  have hst : (createChildren own n s).1.status = .running := hcr.status
  have hits : (createChildren own n s).1.resolvedItems = some n := hcr.items
  refine ⟨fun hf => ?_, fun id _ => ⟨n, hits, h0⟩, fun m hm i hi => ?_, fun _ => ?_,
    fun hs => ?_, fun hs => ?_⟩
  · rw [hst] at hf
    cases hf
  · rw [hits, some.injEq] at hm
    exact hall i (hm ▸ hi)
  · -- the first item has a child: an old one of a step that was running, or a new one
    obtain ⟨child, hch⟩ := isSome_iff_exists.1 (hall 0 (Nat.pos_of_ne_zero h0))
    rcases hcr.new _ _ hch with hold | hpn
    · have hrng := h.running_of_due hfn hdue hwt (by rw [hold]; rfl)
      obtain ⟨id, child', hch', hop⟩ := h.running hrng
      exact ⟨id, child', hcr.old id child' hch', hop⟩
    · exact ⟨_, child, hch, by rw [hpn]; rfl⟩
  · rw [hst] at hs
    cases hs
  · rw [hst] at hs
    rcases hs with hs | hs <;> cases hs

theorem withChild (hfn : v.step.fansOut) (hdue : Due v sr) (hwt : sr.status ≠ .waiting)
    (hso : (sr.children.lookup id).isSome) (hop : isTerminalStepStatus child.status = false) :
    Following own { sr with children := sr.children.insert id child } := by
  have hrng := h.running_of_due hfn hdue hwt hso
  refine h.of_same (.insert hso rfl rfl) (fun hs => ?_) (fun _ => ⟨id, child, lookup_insert _, hop⟩)
    (fun hs => ?_) (fun hs => ?_)
  · rw [hrng] at hs
    cases hs
  · rw [hrng] at hs
    cases hs
  · rw [hrng] at hs
    rcases hs with hs | hs <;> cases hs

theorem withResult {now : ℤ} (hlp : ofLoop (some step) = false) (hso : (sr.children.lookup id).isSome) :
    Following own (withResult (some step) now { sr with children := sr.children.insert id child }) := by
  set sr1 : StepRun := { sr with children := sr.children.insert id child } with hsr1
  have hagg : Aggregated sr1 (aggregateChildren sr1) := aggregated (by simp [hsr1])
  have hst : (Flow.withResult (some step) now sr1).status = aggregateChildren sr1 := by
    rw [Flow.withResult, if_neg (by rw [hlp]; exact false_ne_true)]
  have hchs : (Flow.withResult (some step) now sr1).children = sr1.children := withResult_children _ _ _
  have hits : (Flow.withResult (some step) now sr1).resolvedItems = sr.resolvedItems := by
    rw [Flow.withResult, if_neg (by rw [hlp]; exact false_ne_true)]
  refine h.of_same (.insert hso hchs hits) ?_ ?_ ?_ ?_
  all_goals rw [hst]
  all_goals try rw [hchs]
  all_goals generalize aggregateChildren sr1 = status at hagg
  · cases hagg <;> nofun
  · intro hs
    cases hagg with
    | running hlk hop => exact ⟨_, _, hlk, hop⟩
    | failed | denied | succeeded => cases hs
  · intro hs
    cases hagg with
    | succeeded hall => exact hall
    | failed | denied | running => cases hs
  · intro hs _
    cases hagg with
    | failed hlk hbad | denied hlk hbad => exact ⟨_, _, hlk, hbad⟩
    | succeeded | running => rcases hs with hs | hs <;> cases hs

theorem ended {change : ChildRun → ChildRun} (hchg : Ending change) :
    Following own (endStepRun change sr) := by
  have hlk := lookup_endStepRun change sr
  have htm := endStepRun_status hchg sr
  -- a step, or a child, that had ended is as it was
  have hsm : ∀ {status}, (endStepRun change sr).status = status → status = .succeeded ∨
      status = .failed ∨ status = .denied →
      sr.status = status ∧ (endStepRun change sr).error = sr.error := by
    intro status hs hcas
    unfold endStepRun at hs ⊢
    dsimp only at hs ⊢
    split
    · rename_i hend
      rw [if_pos hend] at hs
      exact ⟨hs, rfl⟩
    · rename_i hop
      rw [if_neg hop] at hs
      rcases (hchg sr.toChildRun).1 with h' | h' <;> rw [h'] at hs <;> subst hs <;> simp at hcas
  have hkp : ∀ {id child}, sr.children.lookup id = some child → isTerminalStepStatus child.status →
      (endStepRun change sr).children.lookup id = some child := by
    intro id child hch hend
    rw [hlk, hch, map_some, if_pos hend]
  refine h.of_same ⟨fun id => by rw [hlk, isSome_map], rfl⟩ (fun hs => ?_) (fun hs => ?_) (fun hs => ?_)
    (fun hs he => ?_)
  · rw [open_of_fresh hs] at htm
    cases htm
  · rw [hs] at htm
    cases htm
  · intro id child hch
    rw [hlk] at hch
    obtain ⟨old, hold, rfl⟩ := map_eq_some_iff.1 hch
    have hsuc := h.succeeded (hsm hs (.inl rfl)).1 id old hold
    rw [if_pos (by rw [hsuc]; rfl)]
    exact hsuc
  · have hbef : (sr.status = .failed ∨ sr.status = .denied) ∧ (endStepRun change sr).error = sr.error := by
      rcases hs with hs | hs
      · exact ⟨.inl (hsm hs (.inr (.inl rfl))).1, (hsm hs (.inr (.inl rfl))).2⟩
      · exact ⟨.inr (hsm hs (.inr (.inr rfl))).1, (hsm hs (.inr (.inr rfl))).2⟩
    obtain ⟨id, child, hch, hbad⟩ := h.failed hbef.1 (hbef.2 ▸ he)
    refine ⟨id, child, hkp hch ?_, hbad⟩
    cases hst : child.status <;> simp_all [badlyEnded, isTerminalStepStatus]

end Following

section

variable (hpl : wf.Plain) (hdef : wf.step own = some step) (hfn : step.fansOut)

include hpl hdef hfn

theorem owned_fanOut : Owned wf (fanOutTerms own) own step :=
  { plain := hpl
    inDef := hdef
    parent := .inr hfn
    unlisted := fun _ h => h.1
    results := fun _ _ _ h => h }

/-- **The status goes on following the children.** -/
theorem Following.move (h : Following own (t.run.entry own)) (hm : Mirrored own t.run)
    (hmv : Move wf (fanOutTerms own) phase t t') : Following own (t'.run.entry own) := by
  have hfan := (owned_fanOut hpl hdef hfn).fan hm hmv
  have hty : step.type ≠ .loop ∧ step.type ≠ .parallel ∧ step.type ≠ .delay ∧
      step.type ≠ .subWorkflow := by
    cases ht : step.type <;> simp_all [Step.fansOut]
  generalize t'.run.entry own = sr' at hfan
  -- the child of an item is there
  have hit : ∀ {v id child}, OwnVisit (fanOutTerms own) own step t v → Source v t id child →
      ((t.run.entry own).children.lookup id).isSome := by
    rintro v id child ⟨rfl, rfl, -, -⟩ hsrc
    cases hsrc with
    | iteration ht => exact absurd ht hty.1
    | item hf hid hn hidx =>
      rw [hid]
      exact h.items _ hn _ hidx
    | branch ht => exact absurd ht hty.2.1
  cases hfan with
  | kept => exact h
  | @turn v _ hv htn =>
    have hsp := hv.step
    cases htn with
    | kept => exact h
    | ended hend =>
      have hsuc : sr'.status ≠ .succeeded := by
        intro hs
        have hno := (hend.succeeded hs).2
        rw [hsp, hfn] at hno
        cases hno
      refine h.of_status hend.children hend.items (fun hs => ?_) (fun hs => ?_) hsuc fun hs he => ?_
      · have hop := open_of_fresh hs
        rw [hend.terminal] at hop
        cases hop
      · have htm := hend.terminal
        rw [hs] at htm
        cases htm
      · have herr := hend.error hsuc
        rw [he] at herr
        cases herr
    | delayed ht => exact absurd (hsp ▸ ht) hty.2.2.1
    | childRun ht => exact absurd (hsp ▸ ht) hty.2.2.2
    | begun ht =>
      rw [hsp] at ht
      exact (ht.elim hty.1 hty.2.1).elim
    | loopDone ht => exact absurd (hsp ▸ ht) hty.1
    | dropped ht => exact absurd (hsp ▸ ht) hty.2.1
    | noItems hf hn =>
      -- a step that had begun has items
      have hnn : ∀ id, (t.run.entry own).children.lookup id = none := by
        intro id
        rw [← not_isSome_iff_eq_none]
        intro hso
        obtain ⟨n, hits, h0⟩ := h.begun id hso
        rw [resolveItems, hits, Except.ok.injEq] at hn
        exact h0 hn
      refine ⟨by rintro ⟨⟩, fun id hso => ?_, fun n hn i hi => ?_, by simp, fun _ id child hlk => ?_, ?_⟩
      · have hso' : ((t.run.entry own).children.lookup id).isSome := hso
        rw [hnn id] at hso'
        cases hso'
      · rw [some.injEq] at hn
        omega
      · have hlk' : (t.run.entry own).children.lookup id = some child := hlk
        rw [hnn id] at hlk'
        cases hlk'
      · rintro (hs | hs) <;> cases hs
  | @fanned v _ n hv hf hn h0 => exact h.fanned (hv.step ▸ hf) hv.due hm.status h0 t
  | gated now hT =>
    have hnn := lookup_of_entries_nil (hT rfl)
    refine h.of_same ⟨fun _ => rfl, rfl⟩ (fun _ => hnn) (by rintro ⟨⟩)
      (fun _ id child hlk => ?_) (fun hs => ?_)
    · have hlk' : (t.run.entry own).children.lookup id = some child := hlk
      rw [hnn id] at hlk'
      cases hlk'
    · rcases hs with hs | hs <;> cases hs
  | @child v id child hv htn =>
    have hfn' : v.step.fansOut := hv.step ▸ hfn
    cases htn with
    | awaited ht => exact absurd (hv.step ▸ ht) hty.1
    | failed hsrc hst hjob hhs hatt hbui =>
      -- the request can be made
      exact absurd (hv.terms.2 hv.stepID id) (hbui hfn')
    | unsent hf hsrc => exact h.withChild hfn' hv.due hm.status (hit hv hsrc) rfl
    | cancelled ht => exact absurd (hv.step ▸ ht) hty.2.1
  | childSent input hv hsrc => exact h.withChild (hv.step ▸ hfn) hv.due hm.status (hit hv hsrc) rfl
  | activated hfr =>
    exact h.of_status rfl rfl (fun _ => hfr) (by simp) (by simp) (by rintro (hs | hs) <;> cases hs)
  | taken hun =>
    exact h.of_status rfl rfl (fun _ => by rw [hun]; rfl) (by simp) (by simp)
      (by rintro (hs | hs) <;> cases hs)
  | notTaken | skipped =>
    exact h.of_status rfl rfl (by rintro ⟨⟩) (by rintro ⟨⟩) (by rintro ⟨⟩)
      (by rintro (hs | hs) <;> cases hs)
  | result env hph hold hT htk =>
    exact h.withResult (by simp [ofLoop, hty.1]) (by rw [hold]; rfl)
  | @sibling childID child env hph hf hpar hold hop =>
    refine h.of_same (.insert (by rw [hold]; rfl) rfl rfl) (fun hs => ?_) (fun hs => ?_)
      (fun hs => ?_) fun _ _ =>
      ⟨childID, _, lookup_insert _, rfl⟩
    all_goals
      have hst : erring (t.run.entry own).status := hpar
    · cases hs' : (t.run.entry own).status <;> simp_all [erring, Flow.fresh]
    · rw [hs] at hst
      cases hst
    · rw [hs] at hst
      cases hst
  | ended hchg => exact h.ended hchg

/-- **A parent's status follows its children**, in every run in which their requests can be made. -/
theorem fanOut_follows {run : WorkflowRun} (hcreated : run.steps = ∅) {ops : List RunOp}
    (hmeets : Meets wf (fanOutTerms own) run ops) :
    ∀ r ∈ versions run (history run ops), FollowsChildren own r := by
  have hmv : ∀ phase t t', Move wf (fanOutTerms own) phase t t' →
      Mirrored own t.run ∧ Following own (t.run.entry own) →
      Mirrored own t'.run ∧ Following own (t'.run.entry own) := by
    intro phase t t' hmv h
    exact ⟨(owned_fanOut hpl hdef hfn).mirrored h.1 hmv, h.2.move hpl hdef hfn h.1 hmv⟩
  have hin : Mirrored own run ∧ Following own (run.entry own) := by
    rw [entry_of_created hcreated]
    exact ⟨Mirrored.created own hcreated, following_created⟩
  have hkp := (reached_history hmeets).version
      (I := fun r => Mirrored own r ∧ Following own (r.entry own)) hmv hin
  intro r hr
  obtain ⟨hmir, hfol⟩ := hkp r hr
  refine ⟨hfol.running, fun hs => ⟨hfol.succeeded hs, fun n hn i hi => ?_⟩, hfol.failed,
    fun id child hlk => (hmir.child id child hlk).1⟩
  obtain ⟨child, hch⟩ := isSome_iff_exists.1 (hfol.items n hn i hi)
  exact ⟨child, hch, hfol.succeeded hs _ child hch⟩

end

/-- A workflow with one step, over a list of items. -/
def overItem : Workflow where
  steps := ([⟨"each", some { id := "each", forEach := "items" }⟩] : List
    (Sigma fun _ : String => _)).toAList

/-- A run of the step over so many items. -/
def startOver (items : ℕ) (child : DispatchEnv) : RunOp :=
  .started overItem 0 fun _ => { items := .ok items, child := fun _ => child }

/-- The parent of items that are dispatched follows them. -/
theorem fanOut_follows_items :
    let run : WorkflowRun := { id := "run" }
    ∀ r ∈ versions run (history run [startOver 3 {}]), FollowsChildren "each" r := by
  have hsts : StepsMeet overItem (fanOutTerms "each") 0 fun _ => { items := .ok 3 } := by
    refine ⟨fun id step _ => ⟨?_, ?_, fun _ id => ⟨rfl, rfl⟩⟩, fun _ => nofun⟩
    · rintro cfg ⟨⟩
      exact ⟨not_mem_nil, nodup_nil⟩
    · rintro cfg ⟨⟩
      exact not_mem_nil
  have hdef : overItem.step "each" = some { id := "each", forEach := "items" } := rfl
  exact fanOut_follows (by decide +kernel) hdef rfl rfl ⟨meets_started hsts, trivial⟩

/-- The only item's payload cannot be made: its child failed, and the parent goes on. -/
theorem items_failed_unnoticed :
    let run : WorkflowRun := { id := "run" }
    let run' := persisted run (history run [startOver 1 { payload := .error "expression" }])
    (run'.entry "each").status = .running ∧
      (run'.entry "each").children.entries.map (fun e => (e.1, e.2.status)) =
      [(childIDFor "each" 0, .failed)] ∧ isTerminalStepStatus .failed := by
  decide +kernel

end Cordum.Flow
