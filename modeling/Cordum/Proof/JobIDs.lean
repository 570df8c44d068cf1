import Cordum.Proof.Retries
import Cordum.Text.Fields

/-!
# Identifiers of jobs

`jobID_decodes`: the three parsers of `engine_helpers.go` take a job's identifier apart again, for the
step identifiers that `WorkflowStepID` of `core/controlplane/gateway/validation/workflow.go` accepts.
-/

namespace Cordum.Flow

open GoString List

/-- The longest identifier. -/
def maxWorkflowStepIDLen : ℕ := 64

/-- The errors of `WorkflowStepID`; the last two show the identifier. -/
inductive StepIDError
  | required
  | tooLong (stepID : String)
  | mismatch (stepID : String)
deriving DecidableEq

/-- The form of an identifier. -/
def workflowStepIDPattern (stepID : String) : Bool :=
  match stepID.toList with
  | [] => false
  | c :: rest => c.isAlphanum && rest.all fun c => c.isAlphanum || c = '.' || c = '_' || c = '-'

/-- The check of an identifier. -/
def workflowStepID (stepID : String) : Except StepIDError Unit :=
  if stepID = "" then .error .required
  else if stepID.utf8ByteSize > maxWorkflowStepIDLen then .error (.tooLong stepID)
  else if workflowStepIDPattern stepID = false then .error (.mismatch stepID)
  else .ok ()

variable {run : WorkflowRun} {step id : String} {n : ℤ}

theorem trimSpace_natToString {n : ℕ} : trimSpace (toString n) = toString n := by
  have hdg : ∀ c ∈ (toString n).toList, isSpace c = false := by
    intro c hc
    have h := isDigit_of_mem_natToString hc
    rw [Char.isDigit, Bool.and_eq_true, decide_eq_true_eq, decide_eq_true_eq] at h
    have hle : 48 ≤ c.toNat ∧ c.toNat ≤ 57 := h
    have hspa : ∀ k < 58, 48 ≤ k → isSpace (Char.ofNat k) = false := by decide
    rw [← Char.ofNat_toNat c]
    exact hspa c.toNat (by omega) hle.1
  rw [trimSpace_eq_self_iff]
  exact ⟨fun c hc => hdg c (mem_of_mem_head? hc), fun c hc => hdg c (mem_of_getLast? hc)⟩

/-- The attempt is behind the last separator. -/
theorem findIdx?_reverse_at (l : List Char) (n : ℤ) :
    (l ++ '@' :: (toString n).toList).reverse.findIdx? (· == '@') = some (toString n).toList.length := by
  have hdig : '@' ∉ (toString n).toList.reverse := by
    rw [mem_reverse]
    exact notMem_intToString (by decide) (by decide)
  rw [reverse_append, reverse_cons, append_assoc, findIdx?_append,
    findIdx?_eq_none_iff.2 fun c hc => beq_false_of_ne (ne_of_mem_of_not_mem hc hdig)]
  simp [findIdx?_cons]

theorem parseAttempt_jobIDFor {n : ℕ} (h : (n : ℤ) < 2 ^ 63) : parseAttempt (jobIDFor run id n) = n := by
  set before := run.id.toList ++ ':' :: id.toList
  have hli : (jobIDFor run id n).toList = before ++ '@' :: (toString n).toList := by
    rw [toList_jobIDFor, append_assoc]
    rfl
  have hfn : (jobIDFor run id n).toList.reverse.findIdx? (· == '@') = some (toString n).toList.length :=
    hli ▸ findIdx?_reverse_at before n
  have hdr : (jobIDFor run id n).toList.drop
      ((jobIDFor run id n).toList.length - (toString n).toList.length) = (toString n).toList := by
    have hlen : (jobIDFor run id n).toList.length - (toString n).toList.length =
        (before ++ ['@']).length := by
      rw [hli]
      simp only [length_append, length_cons, length_nil]
      omega
    have hsp : before ++ '@' :: (toString n).toList = before ++ ['@'] ++ (toString n).toList :=
      (append_assoc before ['@'] _).symm
    rw [hlen, hli, hsp, drop_left]
  unfold parseAttempt
  rw [hfn]
  dsimp only
  rw [hdr, String.ofList_toList, trimSpace_natToString, atoi_natToString h]
  exact max_eq_left (Int.natCast_nonneg n)

/-- A step identifier has none of the characters that identifiers of jobs are put together with. -/
theorem plain_of_valid (h : workflowStepID step = .ok ()) : step ≠ "" ∧ '[' ∉ step.toList := by
  unfold workflowStepID at h
  split_ifs at h with hemp hlen hpat
  refine ⟨hemp, fun hmem => hpat ?_⟩
  unfold workflowStepIDPattern
  cases hli : step.toList with
  | nil => rfl
  | cons c rest =>
    rw [hli, mem_cons] at hmem
    rcases hmem with rfl | hmem
    · rfl
    · rw [Bool.and_eq_false_iff]
      exact .inr (all_eq_false.2 ⟨'[', hmem, by decide⟩)

/-- The identifiers that jobs of a step are sent under. -/
def DispatchedAs (step id : String) : Prop := id = step ∨ ∃ i, id = childIDFor step i

theorem DispatchedAs.split (hsp : workflowStepID step = .ok ()) (h : DispatchedAs step id) :
    splitForEachStep id = (step, if id = step then "" else id) := by
  obtain ⟨-, hpl⟩ := plain_of_valid hsp
  rcases h with rfl | ⟨i, rfl⟩
  · rw [if_pos rfl]
    exact (split_cases id).resolve_right (fun ⟨_, _, hmem, _⟩ => hpl hmem) |>.2
  · have hne : childIDFor step i ≠ step := fun heq => hpl (heq ▸ bracket_childIDFor)
    rw [if_neg hne, split_childIDFor hpl]

theorem DispatchedAs.ne_empty (hsp : workflowStepID step = .ok ())
    (h : DispatchedAs step id) : id.toList ≠ [] := by
  rcases h with rfl | ⟨i, rfl⟩
  · exact fun hnil => (plain_of_valid hsp).1 (String.toList_eq_nil_iff.1 hnil)
  · exact ne_nil_of_mem bracket_childIDFor

theorem splitJobID_jobIDFor (hrun : ':' ∉ run.id.toList) (hid : id.toList ≠ []) :
    splitJobID (jobIDFor run id n) = (run.id, id) := by
  have hlen : 0 < id.toList.length := length_pos_iff.2 hid
  rw [splitJobID, indexByte_of_toList (toList_jobIDFor run id n) hrun, toList_jobIDFor]
  have hdr : (run.id.toList ++ ':' :: (id.toList ++ '@' :: (toString n).toList)).drop
      (run.id.toList.length + 1) = id.toList ++ '@' :: (toString n).toList := by
    simp
  dsimp only
  rw [hdr, take_left, findIdx?_reverse_at, String.ofList_toList]
  have hind : (id.toList ++ '@' :: (toString n).toList).length - 1 - (toString n).toList.length =
      id.toList.length := by
    rw [length_append, length_cons]
    omega
  dsimp only
  rw [hind, if_neg (by omega), take_left, String.ofList_toList]

/-- **The identifier of a job decodes to what was dispatched.** -/
theorem jobID_decodes (hrun : ':' ∉ run.id.toList) (hstep : workflowStepID step = .ok ())
    (hid : DispatchedAs step id) (hn : 1 ≤ n) (hint : n < 2 ^ 63) :
    splitJobID (jobIDFor run id n) = (run.id, id) ∧ splitForEachStep id =
      (step, if id = step then "" else id) ∧
    parseAttempt (jobIDFor run id n) = n ∧
    ∀ (run' : WorkflowRun) (step' id' : String) (n' : ℤ), ':' ∉ run'.id.toList →
    workflowStepID step' = .ok () →
      DispatchedAs step' id' → jobIDFor run' id' n' = jobIDFor run id n →
      run'.id = run.id ∧ id' = id ∧ n' = n := by
  have hjob := splitJobID_jobIDFor (n := n) hrun (hid.ne_empty hstep)
  refine ⟨hjob, hid.split hstep, ?_, fun run' step' id' n' hrun' hstep' hid' heq => ?_⟩
  · lift n to ℕ using by omega
    exact parseAttempt_jobIDFor hint
  · rw [← heq, splitJobID_jobIDFor hrun' (hid'.ne_empty hstep'), Prod.mk.injEq] at hjob
    exact ⟨hjob.1, jobIDFor_injective hjob.1 heq⟩

theorem jobID_decodes_child :
    splitJobID (jobIDFor { id := "r" } (childIDFor "fan-out" 2) 3) = ("r", childIDFor "fan-out" 2) :=
  (jobID_decodes (by decide) (show workflowStepID "fan-out" = .ok () by decide +kernel)
    (.inr ⟨2, rfl⟩) (by decide) (by decide)).1

end Cordum.Flow
