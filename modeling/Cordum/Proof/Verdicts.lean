import Cordum.Workflow.Schedule

/-!
# Parallel verdicts are final

A parallel step is decided as soon as its strategy can be, and the children that have not ended are
then cancelled. No later end of a child would have decided it otherwise, and it is decided at the
latest when all have ended (`parallel_verdicts_final`).
-/

namespace Cordum.Flow

open List Relation

variable {strategy : Strategy} {required total succeeded failed succeeded' failed' : ℕ}
  {childStepIDs : List String} {sr sr' : StepRun} {v : Except String Unit} {p q : StepStatus → Bool}

/-- What a parallel step comes to, as its children are now. -/
def parallelVerdict (strategy : Strategy) (required : ℕ) (childStepIDs : List String) (sr : StepRun) :
    Option (Except String Unit) :=
  let (succeeded, failed, _) := summarizeParallelChildren sr childStepIDs
  evaluateParallelOutcome strategy required childStepIDs.length succeeded failed

/-- A child ends that had not ended before. -/
inductive ChildEnds (sr : StepRun) : StepRun → Prop
  | mk {id : String} {child : ChildRun}
    (hopen : ∀ c ∈ sr.children.lookup id, isTerminalStepStatus c.status = false)
    (hended : isTerminalStepStatus child.status) : ChildEnds sr
      { sr with children := sr.children.insert id child }

/-- What is decided stays so while more children succeed and fail. -/
theorem evaluateParallelOutcome_mono (hs : succeeded ≤ succeeded') (hf : failed ≤ failed')
    (ht : succeeded' + failed' ≤ total)
    (h : evaluateParallelOutcome strategy required total succeeded failed = some v) :
    evaluateParallelOutcome strategy required total succeeded' failed' = some v := by
  cases strategy
  all_goals
    simp only [evaluateParallelOutcome] at h ⊢
    split_ifs at h with h1 h2
    · rw [if_pos (by omega), h]
    · rw [if_neg (by omega), if_pos (by omega), h]

theorem evaluateParallelOutcome_isSome (h : succeeded + failed = total) :
    (evaluateParallelOutcome strategy required total succeeded failed).isSome := by
  unfold evaluateParallelOutcome
  split <;> split_ifs <;> first | rfl | omega

/-- The child is there, in such a status. -/
def ChildIs (p : StepStatus → Bool) (sr : StepRun) (id : String) : Bool :=
  match sr.children.lookup id with
  | none => false
  | some child => p child.status

/-- The step ended without success. -/
def unsuccessful (s : StepStatus) : Bool := s = .failed || s = .denied || s = .cancelled || s = .timedOut

theorem parallelVerdict_eq : parallelVerdict strategy required childStepIDs sr =
      evaluateParallelOutcome strategy required childStepIDs.length
        (childStepIDs.countP (ChildIs (· = .succeeded) sr))
        (childStepIDs.countP (ChildIs unsuccessful sr)) := rfl

theorem ChildEnds.countP_le (h : ChildEnds sr sr') (hp : ∀ s, p s → isTerminalStepStatus s) :
    childStepIDs.countP (ChildIs p sr) ≤ childStepIDs.countP (ChildIs p sr') := by
  refine countP_mono_left fun id _ hid => ?_
  obtain @⟨id', child, hop, -⟩ := h
  unfold ChildIs at hid ⊢
  by_cases heq : id = id'
  · subst heq
    split at hid
    · cases hid
    · have hend := hp _ hid
      rw [hop _ ‹_›] at hend
      cases hend
  · rwa [AList.lookup_insert_ne heq]

/-- A child that has ended has succeeded or failed. -/
theorem countP_ended :
    childStepIDs.countP (ChildIs (· = .succeeded) sr) + childStepIDs.countP (ChildIs unsuccessful sr) =
    childStepIDs.countP (ChildIs isTerminalStepStatus sr) := by
  induction childStepIDs with
  | nil => rfl
  | cons id ids ih =>
    have hone : (if ChildIs (· = .succeeded) sr id then 1 else 0) +
        (if ChildIs unsuccessful sr id then 1 else 0) =
        if ChildIs isTerminalStepStatus sr id then 1 else 0 := by
      unfold ChildIs
      split
      · rfl
      · rename_i child _
        obtain ⟨status⟩ := child
        cases status <;> rfl
    rw [countP_cons, countP_cons, countP_cons, ← ih, ← hone]
    omega

/-- The verdict is final, and there is one when every child has ended. -/
structure FinalVerdict (strategy : Strategy) (required : ℕ) (childStepIDs : List String) : Prop where
  final : ∀ sr sr' v, ReflTransGen ChildEnds sr sr' →
    parallelVerdict strategy required childStepIDs sr = some v →
    parallelVerdict strategy required childStepIDs sr' = some v
  decided : ∀ sr, (∀ id ∈ childStepIDs, ChildIs isTerminalStepStatus sr id) →
    (parallelVerdict strategy required childStepIDs sr).isSome

/-- **Parallel verdicts are final.** -/
theorem parallel_verdicts_final (strategy : Strategy) (required : ℕ) (childStepIDs : List String) :
    FinalVerdict strategy required childStepIDs := by
  refine ⟨fun sr sr' v hen h => ?_, fun sr h => ?_⟩
  · induction hen with
    | refl => exact h
    | tail _ hend ih =>
      rw [parallelVerdict_eq] at ih ⊢
      refine evaluateParallelOutcome_mono (hend.countP_le ?_) (hend.countP_le ?_) ?_ ih
      · rintro (_ | _) <;> decide
      · rintro (_ | _) <;> decide
      · rw [countP_ended]
        exact countP_le_length
  · rw [parallelVerdict_eq]
    exact evaluateParallelOutcome_isSome (countP_ended.trans (countP_eq_length.2 h))

end Cordum.Flow
