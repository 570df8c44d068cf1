import Cordum.Workflow.Healthy
import Cordum.Workflow.Parents

/-!
# Loops

A loop dispatches one iteration at a time, and reads off its children's statuses whether to go on. A
denied iteration is counted neither among those that ended badly nor among those that still run, so
the loop goes on and can succeed (`denied_iteration_passed`). Where none is denied, each iteration is
dispatched after the one before it succeeded (`loop_iterations_gated`).
-/

namespace Cordum.Flow

open Option AList Step

variable {child old : ChildRun} {id : String} {i : ℕ} {wf : Workflow} {own runID : String}
  {step : Step} {phase : Phase} {t t' : Tick} {run : WorkflowRun}

/-- No parallel step dispatches the loop, its gate does not close once it has begun, and results are
for iterations it has and deny none. -/
def loopTerms (own : String) : Terms where
  visit v := ∀ cfg, v.env.parallel = .ok cfg → own ∉ cfg.childStepIDs
  gate run id := id = own → (run.entry own).children.entries = []
  result run id res := id ≠ own ∧ (splitForEachStep id = (own, id) →
    ((run.entry own).children.lookup id).isSome ∧ res.status ≠ .denied)

/-- `max_iterations`; a loop that does not parse has none. -/
def Step.maxIterations (step : Step) : ℕ :=
  match step.loopConfig with
  | .ok cfg => cfg.maxIterations
  | .error _ => 0

/-- The status of an iteration. -/
def iteration (own : String) (run : WorkflowRun) (i : ℕ) : Option StepStatus :=
  ((run.entry own).children.lookup (childIDFor own i)).map (·.status)

/-- The iterations of a loop wait for one another. -/
structure IterationsGated (own : String) (maxIterations : ℕ) (run : WorkflowRun)
    (log : List Effect) : Prop where
  dispatched : ∀ pre post i n, log = pre ++ .submit (jobIDFor run (childIDFor own (i + 1)) n) :: post →
    iteration own (persisted run pre) i = some .succeeded
  bounded : ∀ r ∈ versions run log, (r.entry own).children.entries.length ≤ maxIterations
  /-- Once an iteration has ended badly, the loop does not succeed. -/
  failed : ∀ r ∈ versions run log, ∀ i status, iteration own r i = some status → badlyEnded status →
    (r.entry own).status ≠ .succeeded
  failedBefore : (versions run log).Pairwise fun r r' => ∀ i status, iteration own r i = some status →
    badlyEnded status → (r'.entry own).status ≠ .succeeded

/-! ## What a move makes of a loop -/

/-- No iteration failed, and none goes on. -/
def Rested (sr : StepRun) : Prop :=
  childrenIn sr (fun s => s = .failed || s = .cancelled || s = .timedOut) = [] ∧
    childrenIn sr (fun s => s = .running || s = .waiting || s = .pending) = []

/-- What becomes of the entry of a loop. -/
inductive Looped (own : String) (maxIterations : ℕ) (phase : Phase) (sr : StepRun) : StepRun → Prop
  | same {sr' : StepRun} (hchildren : sr'.children = sr.children)
    (hstatus : sr'.status = .succeeded → sr.status = .succeeded ∨ Rested sr) : Looped own
      maxIterations phase sr sr'
  | next {child : ChildRun} (hstatus : sr.status ≠ .succeeded) (hrested : Rested sr)
    (hmax : sr.children.entries.length < maxIterations)
    (hchild : sr.children.lookup (childIDFor own sr.children.entries.length) = none →
      child.status ≠ .succeeded ∧ child.status ≠ .denied) :
    Looped own maxIterations phase sr
      { sr with children := sr.children.insert (childIDFor own sr.children.entries.length) child }
  | replaced {sr' : StepRun} {id : String} {old child : ChildRun} (hphase : phase = .handling)
    (hold : sr.children.lookup id = some old) (hopen : isTerminalStepStatus old.status = false)
    (hchildren : sr'.children = sr.children.insert id child) (hchild : child.status ≠ .denied)
    (hstatus : sr'.status ≠ .succeeded) : Looped own maxIterations phase sr sr'
  | ended {change : ChildRun → ChildRun} (hchange : Ending change) :
    Looped own maxIterations phase sr (endStepRun change sr)

section

variable (hpl : wf.Plain) (hdef : wf.step own = some step) (hlp : step.type = .loop)

include hpl hdef hlp

theorem owned_loop : Owned wf (loopTerms own) own step :=
  { plain := hpl
    inDef := hdef
    parent := .inl hlp
    unlisted := fun _ h => h
    results := fun _ _ _ h => ⟨h.1, fun hid => (h.2 hid).1⟩ }

/-- **What a move makes of a loop.** -/
theorem looped (h : Mirrored own t.run) (hmv : Move wf (loopTerms own) phase t t') :
    Looped own step.maxIterations phase (t.run.entry own) (t'.run.entry own) := by
  have hown := owned_loop hpl hdef hlp
  have hfn : step.fansOut = false := by
    rw [fansOut, hlp]
  have hfan := hown.fan h hmv
  generalize t'.run.entry own = sr' at hfan
  -- the next iteration, dispatched or not
  have hnx : ∀ {v id child child'}, OwnVisit (loopTerms own) own step t v → Source v t id child →
      (child'.status = .failed ∨ child'.status = .running ∨ child' = child) →
      Looped own step.maxIterations phase (t.run.entry own)
        { t.run.entry own with children := (t.run.entry own).children.insert id child' } := by
    rintro v id child child' ⟨rfl, rfl, -, hdue⟩ hsrc hch'
    have hst : (t.run.entry v.stepID).status ≠ .succeeded := by
      intro hs
      have hrev := hdue.status
      rw [hs] at hrev
      simp [revisited, hlp] at hrev
    cases hsrc with
    | iteration ht hcfg hid hmax hfl hact =>
      subst hid
      refine .next hst ⟨hfl, hact⟩ ?_ fun hno => ?_
      · rw [maxIterations, hcfg]
        exact hmax
      · rcases hch' with hs | hs | rfl
        · rw [hs]
          exact ⟨by simp, by simp⟩
        · rw [hs]
          exact ⟨by simp, by simp⟩
        · rw [hno]
          exact ⟨by simp, by simp⟩
    | item hf =>
      rw [hfn] at hf
      cases hf
    | branch ht =>
      rw [hlp] at ht
      cases ht
  cases hfan with
  | kept => exact .same rfl .inl
  | @turn v _ hv htn =>
    have hty : v.step.type = .loop := by rw [hv.step, hlp]
    cases htn with
    | kept => exact .same rfl .inl
    | ended hend =>
      refine .same hend.children fun hs => ?_
      exact absurd hty (hend.succeeded hs).1
    | delayed ht | childRun ht | dropped ht =>
      rw [hty] at ht
      cases ht
    | begun => exact .same rfl (by simp)
    | noItems hf =>
      rw [hv.step, hfn] at hf
      cases hf
    | loopDone ht hfl hact => exact .same rfl fun _ => .inr ⟨hfl, hact⟩
  | fanned hv hf =>
    rw [hfn] at hf
    cases hf
  | gated now hT =>
    refine .same rfl fun _ => .inr ?_
    have hemp := hT rfl
    unfold Rested childrenIn
    rw [hemp]
    exact ⟨rfl, rfl⟩
  | child hv htn =>
    cases htn with
    | awaited ht hsrc => exact hnx hv hsrc (.inr (.inr rfl))
    | failed hsrc hst => exact hnx hv hsrc (.inl hst)
    | unsent hf =>
      rw [hv.step, hfn] at hf
      cases hf
    | cancelled ht =>
      rw [hv.step, hlp] at ht
      cases ht
  | childSent input hv hsrc => exact hnx hv hsrc (.inr (.inl rfl))
  | activated | taken | notTaken | skipped => exact .same rfl (by rintro ⟨⟩)
  | @result res childID old child retry env hph hold hT hta =>
    have htk := taken_takeResult hta
    refine .replaced hph hold htk.open_ (withResult_children _ _ _) (fun hden => ?_) ?_
    · -- the result of an iteration does not deny it
      obtain ⟨-, ⟨idx, rfl⟩, -⟩ := h.child childID old hold
      exact (hT.2 (split_childIDFor hown.plain_own idx)).2 (htk.applied.denied hden)
    · rw [withResult, if_pos (by simp [ofLoop, hlp])]
      simp
  | sibling env hph hf hpar hold hop =>
    refine .replaced hph hold hop rfl (by rintro ⟨⟩) fun hs => ?_
    rw [hs] at hpar
    cases hpar
  | ended hchg => exact .ended hchg

end

/-! ## The iterations so far -/

/-- The iterations of a loop in order; all but the last have succeeded. -/
structure Iterated (own : String) (maxIterations : ℕ) (sr : StepRun) : Prop where
  keys : ∀ i, (sr.children.lookup (childIDFor own i)).isSome ↔ i < sr.children.entries.length
  earlier : ∀ i child, i + 1 < sr.children.entries.length →
    sr.children.lookup (childIDFor own i) = some child → child.status = .succeeded
  bounded : sr.children.entries.length ≤ maxIterations
  denied : ∀ id child, sr.children.lookup id = some child → child.status ≠ .denied
  ended : sr.status = .succeeded → ∀ id child, sr.children.lookup id = some child →
    child.status = .succeeded

/-- The children of a loop have the statuses of children. -/
def ChildStatuses (own : String) (sr : StepRun) : Prop :=
  ∀ id child, sr.children.lookup id = some child → (∃ i, id = childIDFor own i) ∧ ofChild child.status

section

variable {maxIterations : ℕ} {sr sr' : StepRun}

section

variable (h : Iterated own maxIterations sr)

include h

theorem Iterated.rested (hchs : ChildStatuses own sr) (hres : Rested sr)
    (hlk : sr.children.lookup id = some child) : child.status = .succeeded := by
  have hfl := childrenIn_nil_iff.1 hres.1 id child hlk
  have hact := childrenIn_nil_iff.1 hres.2 id child hlk
  have hden := h.denied id child hlk
  have hst := (hchs id child hlk).2
  cases hs : child.status <;> simp_all [ofChild]

theorem Iterated.lookup_next : sr.children.lookup (childIDFor own sr.children.entries.length) = none := by
  rw [← not_isSome_iff_eq_none, h.keys]
  omega

theorem Iterated.last (hold : sr.children.lookup (childIDFor own i) = some old)
    (hop : isTerminalStepStatus old.status = false) :
    sr.children.entries.length = i + 1 := by
  have hlt : i < sr.children.entries.length := (h.keys i).1 (by rw [hold]; rfl)
  by_contra hne
  have hs := h.earlier i old (by omega) hold
  rw [hs] at hop
  cases hop

theorem Iterated.next (hchs : ChildStatuses own sr)
    (hst : sr.status ≠ .succeeded) (hres : Rested sr) (hmax : sr.children.entries.length < maxIterations)
    (hch : child.status ≠ .denied) :
    Iterated own maxIterations
      { sr with children := sr.children.insert (childIDFor own sr.children.entries.length) child } := by
  set n := sr.children.entries.length with hn
  have hlen : (sr.children.insert (childIDFor own n) child).entries.length = n + 1 :=
    length_insert_new h.lookup_next
  have hoth : ∀ {i}, i ≠ n → (sr.children.insert (childIDFor own n) child).lookup (childIDFor own i) =
      sr.children.lookup (childIDFor own i) := by
    intro i hi
    exact lookup_insert_ne fun heq => hi (childIDFor_injective heq)
  refine ⟨fun i => ?_, fun i child' hi hlk => ?_, by rw [hlen]; omega, fun id child' hlk => ?_,
    fun hs => absurd hs hst⟩
  · rw [hlen]
    by_cases hi : i = n
    · subst hi
      simp
    · rw [hoth hi, h.keys i]
      omega
  · rw [hlen] at hi
    rw [hoth (by omega)] at hlk
    exact h.rested hchs hres hlk
  · rcases lookup_insert_some hlk with ⟨-, rfl⟩ | ⟨-, hlk⟩
    · exact hch
    · exact h.denied id child' hlk

theorem Iterated.replaced
    (hold : sr.children.lookup (childIDFor own i) = some old)
    (hop : isTerminalStepStatus old.status = false)
    (hchs : sr'.children = sr.children.insert (childIDFor own i) child) (hch : child.status ≠ .denied)
    (hst : sr'.status ≠ .succeeded) : Iterated own maxIterations sr' := by
  have hso : (sr.children.lookup (childIDFor own i)).isSome := by rw [hold]; rfl
  have hlen : sr'.children.entries.length = sr.children.entries.length := by
    rw [hchs]
    exact length_insert_old hso
  have hls := h.last hold hop
  refine ⟨fun j => ?_, fun j child' hj hlk => ?_, hlen ▸ h.bounded, fun id child' hlk => ?_,
    fun hs => absurd hs hst⟩
  · rw [hlen, hchs, isSome_lookup_insert hso]
    exact h.keys j
  · rw [hlen] at hj
    have hne : childIDFor own j ≠ childIDFor own i := by
      intro heq
      have hji := childIDFor_injective heq
      omega
    rw [hchs, lookup_insert_ne hne] at hlk
    exact h.earlier j child' hj hlk
  · rw [hchs] at hlk
    rcases lookup_insert_some hlk with ⟨-, rfl⟩ | ⟨-, hlk⟩
    · exact hch
    · exact h.denied id child' hlk

theorem Iterated.end {change : ChildRun → ChildRun} (hchg : Ending change) :
    Iterated own maxIterations (endStepRun change sr) := by
  have hlk := lookup_endStepRun change sr
  have hlen : (endStepRun change sr).children.entries.length = sr.children.entries.length := by
    refine length_of_sameKeys fun id => ?_
    rw [hlk, isSome_map]
  refine ⟨fun i => ?_, fun i child hi hch => ?_, hlen ▸ h.bounded, fun id child hch => ?_,
    fun hs id child hch => ?_⟩
  · rw [hlen, hlk, isSome_map]
    exact h.keys i
  · rw [hlk] at hch
    obtain ⟨old, hold, rfl⟩ := map_eq_some_iff.1 hch
    have hsuc := h.earlier i old (hlen ▸ hi) hold
    rw [if_pos (by rw [hsuc]; rfl)]
    exact hsuc
  · rw [hlk] at hch
    obtain ⟨old, hold, rfl⟩ := map_eq_some_iff.1 hch
    split
    · exact h.denied id old hold
    · rcases (hchg old).1 with hs | hs <;> rw [hs] <;> exact nofun
  · have hbef : sr.status = .succeeded := by
      unfold endStepRun at hs
      dsimp only at hs
      split at hs
      · exact hs
      · rcases (hchg sr.toChildRun).1 with h' | h' <;> rw [h'] at hs <;> cases hs
    rw [hlk] at hch
    obtain ⟨old, hold, rfl⟩ := map_eq_some_iff.1 hch
    have hsuc := h.ended hbef id old hold
    rw [if_pos (by rw [hsuc]; rfl)]
    exact hsuc

end

/-- **The iterations stay in order.** -/
theorem Looped.iterated (hlp : Looped own maxIterations phase sr sr') (hchs : ChildStatuses own sr)
    (h : Iterated own maxIterations sr) : Iterated own maxIterations sr' := by
  cases hlp with
  | same hsm hst =>
    refine ⟨hsm ▸ h.keys, hsm ▸ h.earlier, hsm ▸ h.bounded, hsm ▸ h.denied, fun hs id child hlk => ?_⟩
    rw [hsm] at hlk
    rcases hst hs with hs | hres
    · exact h.ended hs id child hlk
    · exact h.rested hchs hres hlk
  | next hst hres hmax hch =>
    exact h.next hchs hst hres hmax (hch h.lookup_next).2
  | replaced hph hold hop hnew hch hst =>
    obtain ⟨i, rfl⟩ := (hchs _ _ hold).1
    exact h.replaced hold hop hnew hch hst
  | ended hchg => exact h.end hchg

theorem Looped.kept (hlp : Looped own maxIterations phase sr sr') (h : Iterated own maxIterations sr)
    (hlk : sr.children.lookup id = some child) (hend : isTerminalStepStatus child.status) :
    sr'.children.lookup id = some child := by
  cases hlp with
  | same hsm => rw [hsm, hlk]
  | next =>
    have hne : id ≠ childIDFor own sr.children.entries.length := by
      rintro rfl
      have hlt := (h.keys _).1 (by rw [hlk]; rfl)
      omega
    rw [lookup_insert_ne hne, hlk]
  | @replaced _ id' old child' hph hold hop hnew =>
    have hne : id ≠ id' := by
      rintro rfl
      rw [hlk, some.injEq] at hold
      rw [hold, hop] at hend
      cases hend
    rw [hnew, lookup_insert_ne hne, hlk]
  | ended hchg =>
    rw [lookup_endStepRun, hlk, map_some, if_pos hend]

/-- Scheduling ends no iteration well. -/
theorem Looped.unsucceeded (hlp : Looped own maxIterations .scheduling sr sr')
    (h : Iterated own maxIterations sr)
    (hlk : sr'.children.lookup id = some child) (hs : child.status = .succeeded) :
    sr.children.lookup id = some child := by
  cases hlp with
  | same hsm => rw [← hsm, hlk]
  | next hst hres hmax hch =>
    rcases lookup_insert_some hlk with ⟨-, rfl⟩ | ⟨-, hlk⟩
    · exact absurd hs (hch h.lookup_next).1
    · exact hlk
  | replaced hph => cases hph
  | ended hchg =>
    rw [lookup_endStepRun] at hlk
    obtain ⟨old, hold, rfl⟩ := map_eq_some_iff.1 hlk
    split
    · exact hold
    · rename_i hop
      rw [if_neg hop] at hs
      rcases (hchg old).1 with h' | h' <;> rw [h'] at hs <;> cases hs

end

/-! ## Runs -/

/-- What holds of a loop in every version of its run. -/
structure LoopKept (own : String) (maxIterations : ℕ) (runID : String) (run : WorkflowRun) : Prop where
  id : run.id = runID
  mirrored : Mirrored own run
  iterated : Iterated own maxIterations (run.entry own)

theorem Mirrored.childStatuses (h : Mirrored own run) : ChildStatuses own (run.entry own) :=
  fun id child hlk => (h.child id child hlk).2

theorem iterated_created {maxIterations : ℕ} : Iterated own maxIterations {} := by
  refine ⟨fun i => ?_, fun i child _ hlk => ?_, Nat.zero_le _, fun id child hlk => ?_, nofun⟩
  · exact ⟨nofun, nofun⟩
  · cases hlk
  · cases hlk

section

variable (hpl : wf.Plain) (hdef : wf.step own = some step) (hlp : step.type = .loop)

include hpl hdef hlp

theorem LoopKept.move (h : LoopKept own step.maxIterations runID t.run)
    (hmv : Move wf (loopTerms own) phase t t') : LoopKept own step.maxIterations runID t'.run :=
  { id := hmv.runID.trans h.id
    mirrored := (owned_loop hpl hdef hlp).mirrored h.mirrored hmv
    iterated := (looped hpl hdef hlp h.mirrored hmv).iterated h.mirrored.childStatuses h.iterated }

/-- The job of an iteration goes out when the iteration before it has succeeded. -/
theorem succeeded_of_publishes (h : LoopKept own step.maxIterations run.id t.run) {n : ℤ}
    (hpub : Publishes wf (loopTerms own) t t' (jobIDFor run (childIDFor own (i + 1)) n)) :
    iteration own t.run i = some .succeeded := by
  have hown : '[' ∉ own.toList := hpl own (Workflow.mem_ids_of_step hdef)
  -- an iteration is not a step
  have hst : ∀ id, (wf.step id).isSome → id ≠ childIDFor own (i + 1) := by
    rintro id hid rfl
    exact hpl.step hid bracket_childIDFor
  generalize hj : jobIDFor run (childIDFor own (i + 1)) n = j at hpub
  cases hpub with
  | @own v status undo sr' hv hT hdue hs =>
    have hjob : ∃ k, sr'.jobID = jobIDFor t.run v.stepID k := by
      cases hs with
      | approval | job => exact ⟨_, rfl⟩
    obtain ⟨k, hk⟩ := hjob
    rw [hk] at hj
    exact absurd (jobIDFor_injective h.id.symm hj).1.symm (hst _ (by rw [hv.step]; rfl))
  | @child v id child input dispatched hv hT hdue hsrc hnx =>
    have hid := (jobIDFor_injective h.id.symm hj).1
    have hpl' : '[' ∉ v.stepID.toList := hpl _ (Workflow.mem_ids_of_step hv.step)
    have hsm : ∀ idx, id = childIDFor v.stepID idx → v.stepID = own := by
      intro idx hidx
      have hsp := split_childIDFor hpl' idx
      rw [← hidx, ← hid, split_childIDFor hown, Prod.mk.injEq] at hsp
      exact hsp.1.symm
    cases hsrc with
    | iteration ht hcfg hidx hmax hfl hact =>
      have hv' := hsm _ hidx
      rw [hv'] at hidx hfl hact
      have hlen : i + 1 = (t.run.entry own).children.entries.length :=
        childIDFor_injective (hid.trans hidx)
      obtain ⟨child, hch⟩ := isSome_iff_exists.1 ((h.iterated.keys i).2 (by omega))
      have hs := h.iterated.rested h.mirrored.childStatuses ⟨hfl, hact⟩ hch
      rw [iteration, hch, map_some, hs]
    | item hf hidx =>
      have hv' := hsm _ hidx
      have hst' := (owned_loop hpl hdef hlp).step_eq hv hv'
      rw [hst'] at hf
      simp [fansOut, hlp] at hf
    | branch ht hcfg hmem hdef' =>
      rw [hv.wf_eq] at hdef'
      exact absurd hid.symm (hst id hdef')

/-- **Iterations are gated on success**, in every run in which no iteration is denied. -/
theorem loop_iterations_gated {run : WorkflowRun} (hcreated : run.steps = ∅) {ops : List RunOp}
    (hmeets : Meets wf (loopTerms own) run ops) :
    IterationsGated own step.maxIterations run (history run ops) := by
  have hrch := reached_history hmeets
  have hin : LoopKept own step.maxIterations run.id run := by
    refine ⟨rfl, Mirrored.created own hcreated, ?_⟩
    rw [entry_of_created hcreated]
    exact iterated_created
  have hmv : ∀ phase t t', Move wf (loopTerms own) phase t t' →
      LoopKept own step.maxIterations run.id t.run →
      LoopKept own step.maxIterations run.id t'.run := fun _ _ _ hmv h => h.move hpl hdef hlp hmv
  have hver := hrch.version hmv hin
  have hjob : Jobless wf own := by
    intro step' hsp'
    rw [hdef, some.injEq] at hsp'
    rw [← hsp', isJob, hlp]
    exact ⟨rfl, by simp⟩
  have htm : ∀ {status}, badlyEnded status → isTerminalStepStatus status ∧ status ≠ .succeeded := by
    intro status hbad
    cases status <;> simp_all [badlyEnded, isTerminalStepStatus]
  refine ⟨fun pre post i n hlog => ?_, fun r hr => (hver r hr).iterated.bounded,
    fun r hr i status hi hbad hs => ?_, ?_⟩
  · -- scheduling does not change which iterations have succeeded
    have hsm : ∀ t t', Move wf (loopTerms own) .scheduling t t' →
        LoopKept own step.maxIterations run.id t.run →
        (fun i => iteration own t'.run i = some .succeeded) =
        fun i => iteration own t.run i = some .succeeded := by
      intro t t' hmv h
      have hloo := looped hpl hdef hlp h.mirrored hmv
      funext i
      simp only [iteration, map_eq_some_iff]
      refine propext ⟨?_, ?_⟩
      · rintro ⟨child, hch, hs⟩
        exact ⟨child, hloo.unsucceeded h.iterated hch hs, hs⟩
      · rintro ⟨child, hch, hs⟩
        exact ⟨child, hloo.kept h.iterated hch (by rw [hs]; rfl), hs⟩
    obtain ⟨t₁, t₂, hkp, hpub, hset⟩ :=
      hrch.published (S := fun r i => iteration own r i = some .succeeded) hmv hsm hin hlog
    exact (congrFun hset i).mp (succeeded_of_publishes hpl hdef hlp hkp hpub)
  · obtain ⟨child, hch, rfl⟩ := map_eq_some_iff.1 hi
    exact (htm hbad).2 ((hver r hr).iterated.ended hs _ child hch)
  · -- an iteration that has ended keeps its status from version to version
    have hord := hrch.ordered (F := fun r => r.entry own)
      (R := fun sr sr' => ∀ id child, sr.children.lookup id = some child →
        isTerminalStepStatus child.status → sr'.children.lookup id = some child) (fun _ _ _ h _ => h)
      (fun h h' id child hlk hend => h' id child (h id child hlk hend) hend)
      (fun phase t t' hm h => ⟨hmv _ _ _ hm h, fun id child hlk hend =>
        (looped hpl hdef hlp h.mirrored hm).kept h.iterated hlk hend⟩)
      (fun phase t t' new hlg r hr => entry_of_step (hlg.near r hr own hjob)) hin
    refine hord.imp_of_mem fun {r r'} hr hr' hkp i status hi hbad hs => ?_
    obtain ⟨child, hch, rfl⟩ := map_eq_some_iff.1 hi
    have hlat := hkp _ child hch (htm hbad).1
    exact (htm hbad).2 ((hver r' hr').iterated.ended hs _ child hlat)

end

/-- A loop of two iterations. -/
def twice : Workflow where
  steps := ([⟨"loop", some { id := "loop", type := .loop, loopConfig := .ok { maxIterations := 2 } }⟩] :
    List (Sigma fun _ : String => _)).toAList

/-- A start of its run. -/
def twiceStarted : RunOp := .started twice 0 fun _ => {}

/-- A result for an iteration. -/
def twiceResulted (now : ℤ) (i : ℕ) (status : JobStatus) : RunOp :=
  .resulted twice now (fun _ => {}) { jobID := jobIDFor { id := "run" } (childIDFor "loop" i) 1, status }

/-- The gate holds in a run whose first iteration succeeds. -/
theorem loop_iterations_gated_twice :
    let run : WorkflowRun := { id := "run" }
    IterationsGated "loop" 2 run (history run [twiceStarted, twiceResulted 1 0 .succeeded]) := by
  have hsts : ∀ now, StepsMeet twice (loopTerms "loop") now fun _ => {} := by
    refine fun now => ⟨fun id step _ => ⟨?_, ?_⟩, fun _ => nofun⟩
    · rintro cfg ⟨⟩
      exact ⟨List.not_mem_nil, List.nodup_nil⟩
    · rintro cfg ⟨⟩
      exact List.not_mem_nil
  have hdef : twice.step "loop" =
      some { id := "loop", type := .loop, loopConfig := .ok { maxIterations := 2 } } := rfl
  refine loop_iterations_gated (by decide +kernel) hdef rfl rfl ?_
  refine ⟨meets_started (hsts 0), meets_resulted (hsts 1) ?_, trivial⟩
  exact ⟨by decide +kernel, fun _ => ⟨by decide +kernel, nofun⟩⟩

/-- The first iteration is denied; the second is dispatched all the same, and the loop succeeds. -/
theorem denied_iteration_passed :
    let run : WorkflowRun := { id := "run" }
    let denied := history run [twiceStarted, twiceResulted 1 0 .denied]
    let ended := history run [twiceStarted, twiceResulted 1 0 .denied, twiceResulted 2 1 .succeeded]
    iteration "loop" (persisted run denied) 0 = some .denied ∧
      published denied = [jobIDFor run (childIDFor "loop" 0) 1, jobIDFor run (childIDFor "loop" 1) 1] ∧
      iteration "loop" (persisted run ended) 0 = some .denied ∧
      ((persisted run ended).entry "loop").status = .succeeded := by
  decide +kernel

end Cordum.Flow
