import Cordum.Workflow.DelayTimers

/-!
# Delay timers are kept

While a step of a run waits, the set should hold a member of the run that is due no later. This holds
as long as no event takes the member away, or puts it off, under a step that still waits
(`DelayOp.Safe`, `step_kept_iff`).

* `durable_timers_kept_iff`: whole runs.
-/

namespace Cordum.Flow

open GoString List DelayState

variable {workflowID runID member : String} {l r : List Char} {s s' : DelayState}

/-! ## Members -/

/-- The ids that a member can be split into again. -/
def PlainIds (workflowID runID : String) : Prop :=
  workflowID ≠ "" ∧ runID ≠ "" ∧ ':' ∉ workflowID.toList ∨ workflowID = "" ∧ runID = ""

theorem toList_delayMember (workflowID runID : String) :
    (delayMember workflowID runID).toList = workflowID.toList ++ ':' :: runID.toList := by
  rw [delayMember, String.toList_append, String.toList_append, append_assoc]
  rfl

theorem splitDelayMember_eq (h : member.toList = l ++ ':' :: r) (hl : ':' ∉ l) :
    splitDelayMember member = if l = [] ∨ r = [] then ("", "")
      else (String.ofList l, String.ofList r) := by
  rw [splitDelayMember, indexByte_of_toList h hl, h]
  have hemp : (l.length = 0 ∨ l.length ≥ (l ++ ':' :: r).length - 1) ↔ (l = [] ∨ r = []) := by
    rw [length_append, length_cons, length_eq_zero_iff]
    refine or_congr_right ?_
    rw [← length_eq_zero_iff]
    omega
  have hfrt : (l ++ ':' :: r).take l.length = l := take_left
  have hbk : (l ++ ':' :: r).drop (l.length + 1) = r := by
    rw [← singleton_append, ← append_assoc]
    exact drop_left' (by rw [length_append]; rfl)
  simp only [hemp, hfrt, hbk]

theorem splitDelayMember_iff :
    splitDelayMember (delayMember workflowID runID) = (workflowID, runID) ↔ PlainIds workflowID runID := by
  have hmbr := toList_delayMember workflowID runID
  by_cases hcol : ':' ∈ workflowID.toList
  · -- the workflow id is cut short
    obtain ⟨l, r, hid, hl⟩ := eq_append_cons_of_mem hcol
    have hsp : (delayMember workflowID runID).toList = l ++ ':' :: (r ++ ':' :: runID.toList) := by
      rw [hmbr, hid, append_assoc, cons_append]
    have hne : workflowID ≠ "" := by
      rintro rfl
      cases hcol
    have hnot : ¬ PlainIds workflowID runID := by
      rintro (⟨-, -, hpl⟩ | ⟨hemp, -⟩)
      · exact hpl hcol
      · exact hne hemp
    refine iff_of_false (fun heq => ?_) hnot
    rw [splitDelayMember_eq hsp hl] at heq
    split_ifs at heq
    · exact hne (congrArg Prod.fst heq).symm
    · have hlen := congrArg (fun p : String × String => p.1.toList.length) heq
      rw [hid, String.toList_ofList, length_append, length_cons] at hlen
      omega
  · rw [splitDelayMember_eq hmbr hcol]
    by_cases hemp : workflowID = "" ∨ runID = ""
    · have hls : workflowID.toList = [] ∨ runID.toList = [] :=
        hemp.imp (by rintro rfl; rfl) (by rintro rfl; rfl)
      rw [if_pos hls, Prod.mk.injEq]
      constructor
      · exact fun h => .inr ⟨h.1.symm, h.2.symm⟩
      · rintro (⟨hw, hr, -⟩ | ⟨rfl, rfl⟩)
        · exact absurd hemp (not_or.2 ⟨hw, hr⟩)
        · exact ⟨rfl, rfl⟩
    · obtain ⟨hw, hr⟩ := not_or.1 hemp
      rw [if_neg (not_or.2 ⟨toList_ne_nil hw, toList_ne_nil hr⟩),
        String.ofList_toList, String.ofList_toList]
      exact iff_of_true rfl (.inl ⟨hw, hr, hcol⟩)

/-! ## One event -/

/-- **The timers of what waits are kept**: the run's member is due no later than any `NextAttemptAt`
to come. -/
def DelayState.Kept (workflowID runID : String) (s : DelayState) : Prop :=
  ∀ next ∈ s.waiting, s.now < next →
    splitDelayMember (delayMember workflowID runID) = (workflowID, runID) ∧
      ∃ score, s.delays (delayMember workflowID runID) = some score ∧ score * second ≤ next

/-- A retry is still to come. -/
def DelayState.Waits (s : DelayState) : Prop := ∃ next ∈ s.waiting, s.now < next

/-- The events that keep the timers, by the state before them. -/
def DelayOp.Safe (workflowID runID : String) (s : DelayState) : DelayOp → Prop
  -- the member is put off to a second that is not later than what waits
  | .wait delay lag =>
    ∀ next ∈ (s.now - lag + delay) :: s.waiting, s.now < next →
      PlainIds workflowID runID ∧ unix (s.now + delay) * second ≤ next
  | .schedule delay =>
    ∀ next ∈ s.waiting, s.now < next → PlainIds workflowID runID ∧ unix (s.now + delay) * second ≤ next
  -- it is removed when nothing waits
  | .resumed ok => s.resuming ≠ 0 → ok → ¬ s.Waits
  -- and the poller does not come before what waits is due
  | .pop => s.Waits → ∀ score, s.delays (delayMember workflowID runID) = some score → unix s.now < score
  | .clean => s.Waits → ∀ score, s.delays (delayMember workflowID runID) = some score →
      unix (s.now - staleDelayAge) < score
  | _ => True

/-- No delay is below the threshold. -/
def DelayOp.Durable : DelayOp → Prop
  | .wait delay _ | .schedule delay => delay ≥ durableDelayThreshold
  | _ => True

theorem scheduleAfter_kept_iff {delay : ℤ} (hdel : delay ≥ durableDelayThreshold) :
    (scheduleAfter s delay workflowID runID).Kept workflowID runID ↔
      ∀ next ∈ s.waiting, s.now < next → PlainIds workflowID runID ∧
      unix (s.now + delay) * second ≤ next := by
  have hpos : durableDelayThreshold > 0 := by decide
  rw [scheduleAfter, if_neg (by omega), if_pos hdel]
  unfold DelayState.Kept
  rw [splitDelayMember_iff, addDelayTimer]
  simp

theorem kept_iff_of_removed (hno : s.delays (delayMember workflowID runID) = none) :
    s.Kept workflowID runID ↔ ¬ s.Waits := by
  unfold DelayState.Kept DelayState.Waits
  rw [hno]
  simp

theorem removeUpTo_kept_iff (h : s.Kept workflowID runID) (bound : ℤ) :
    ({ s with delays := removeUpTo s.delays bound } : DelayState).Kept workflowID runID ↔
      (s.Waits → ∀ score, s.delays (delayMember workflowID runID) = some score → bound < score) := by
  constructor
  · rintro hkp ⟨next, hnx, hlat⟩ score hsco
    obtain ⟨-, score', hlf, -⟩ := hkp next hnx hlat
    have hfil : (s.delays (delayMember workflowID runID)).filter (fun score => bound < score) =
        some score' := hlf
    rw [hsco, Option.filter_some] at hfil
    split_ifs at hfil with hbou
    simpa using hbou
  · intro hsf next hnx hlat
    obtain ⟨hsp, score, hsco, hle⟩ := h next hnx hlat
    have hbou := hsf ⟨next, hnx, hlat⟩ score hsco
    refine ⟨hsp, score, ?_, hle⟩
    change (s.delays (delayMember workflowID runID)).filter (fun score => bound < score) = some score
    rw [hsco, Option.filter_some, if_pos (by simpa using hbou)]

theorem DelayState.Kept.mono (h : s.Kept workflowID runID) (hdel : s'.delays = s.delays)
    (hnow : s.now ≤ s'.now) (hwt : ∀ next ∈ s'.waiting, next ∈ s.waiting) : s'.Kept workflowID runID := by
  intro next hnx hlat
  rw [hdel]
  exact h next (hwt next hnx) (lt_of_le_of_lt hnow hlat)

/-- **One event** keeps the timers exactly when it is safe. -/
theorem step_kept_iff {op : DelayOp} (h : s.Kept workflowID runID) (hdur : op.Durable) :
    (s.step workflowID runID op).Kept workflowID runID ↔ op.Safe workflowID runID s := by
  cases op with
  | pass d => exact iff_of_true (h.mono rfl (by change s.now ≤ s.now + d; omega) fun _ hn => hn) trivial
  | wait delay lag => exact scheduleAfter_kept_iff hdur
  | schedule delay => exact scheduleAfter_kept_iff hdur
  | leave next => exact iff_of_true (h.mono rfl (le_refl _) fun _ hn => mem_of_mem_erase hn) trivial
  | fire fireAt =>
    refine iff_of_true ?_ trivial
    unfold step
    dsimp only
    split_ifs
    · exact h.mono rfl (le_refl _) fun _ hn => hn
    · exact h
  | resumed ok =>
    unfold step DelayOp.Safe
    dsimp only
    by_cases hres : s.resuming = 0
    · rw [if_pos hres]
      exact iff_of_true h fun hne => absurd hres hne
    rw [if_neg hres]
    cases ok with
    | false => exact iff_of_true (h.mono rfl (le_refl _) fun _ hn => hn) fun _ hok => nomatch hok
    | true =>
      rw [kept_iff_of_removed (Function.update_self ..)]
      exact ⟨fun hno _ _ => hno, fun hno => hno hres rfl⟩
  | pop => exact removeUpTo_kept_iff h (unix s.now)
  | clean => exact removeUpTo_kept_iff h (unix (s.now - staleDelayAge))
  | crash => exact iff_of_true (h.mono rfl (le_refl _) fun _ hn => hn) trivial

/-! ## Whole runs -/

/-- **The timers are kept in every state of a run** exactly when every event of it is safe. -/
theorem durable_timers_kept_iff (workflowID runID : String) {s : DelayState}
    (hs : s.waiting = []) {ops : List DelayOp} (hdurable : ∀ op ∈ ops, op.Durable) :
    (∀ before after, ops = before ++ after → (s.run workflowID runID before).Kept workflowID runID) ↔
      ∀ before op after, ops = before ++ op :: after →
      op.Safe workflowID runID (s.run workflowID runID before) := by
  have hsn : ∀ before op, s.run workflowID runID (before ++ [op]) =
      (s.run workflowID runID before).step workflowID runID op := by
    intro before op
    rw [run, foldl_append]
    rfl
  have hdur : ∀ {before op after}, ops = before ++ op :: after → op.Durable := by
    rintro before op after rfl
    exact hdurable op (mem_append_right _ (mem_cons_self ..))
  constructor
  · intro hkp before op after hops
    refine (step_kept_iff (hkp before _ hops) (hdur hops)).1 ?_
    rw [← hsn]
    exact hkp _ after (by rw [hops, append_assoc]; rfl)
  · intro hsf before
    -- by induction on the events so far: the last one was safe
    induction before using reverseRecOn with
    | nil =>
      intro after _ next hnx
      change next ∈ s.waiting at hnx
      rw [hs] at hnx
      exact absurd hnx not_mem_nil
    | append_singleton before op ih =>
      intro after hops
      rw [append_assoc] at hops
      rw [hsn]
      exact (step_kept_iff (ih _ hops) (hdur hops)).2 (hsf before op after hops)

/-- Nothing scheduled. -/
def DelayState.start : DelayState := { now := 0, delays := fun _ => none }

theorem durable_timers_kept_iff_two :
    (∀ before after, [DelayOp.wait (20 * second) 0, .wait (10 * second) 0] = before ++ after →
        (DelayState.start.run "wf" "r" before).Kept "wf" "r") ↔
      ∀ before op after, [DelayOp.wait (20 * second) 0, .wait (10 * second) 0] = before ++ op :: after →
        op.Safe "wf" "r" (DelayState.start.run "wf" "r" before) := by
  refine durable_timers_kept_iff "wf" "r" rfl ?_
  intro op hop
  rcases mem_pair.1 hop with rfl | rfl
  · show 20 * second ≥ 3 * second
    decide
  · show 10 * second ≥ 3 * second
    decide

/-- Two steps wait for ten and for twenty seconds, and the member is due after twenty. -/
theorem second_timer_overwrites :
    let s := DelayState.start.run "wf" "r" [.wait (10 * second) 0, .wait (20 * second) 0]
    10 * second ∈ s.waiting ∧ s.now < 10 * second ∧ s.delays (delayMember "wf" "r") = some 20 ∧
      ¬ s.Kept "wf" "r" := by
  have hdue : (start.run "wf" "r" [.wait (10 * second) 0, .wait (20 * second) 0]).delays
      (delayMember "wf" "r") = some 20 := by decide +kernel
  refine ⟨by decide, by decide, hdue, fun hkp => ?_⟩
  obtain ⟨-, score, hsco, hle⟩ := hkp (10 * second) (by decide) (by decide)
  cases hsco
  exact absurd hle (by decide)

end Cordum.Flow
