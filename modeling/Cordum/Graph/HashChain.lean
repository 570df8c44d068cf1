import Mathlib.Data.Nat.Notation

/-!
# Hash chains

A list in which every item names its predecessor by the predecessor's hash, and the first names `start`.
-/

namespace HashChain

open List Nat

variable {α H : Type} (prev hash : α → H)

/-- Every item names its predecessor, the first one `start`. -/
def Linked : H → List α → Prop
  | _, [] => True
  | start, a :: l => prev a = start ∧ Linked (hash a) l

/-- The hash that the next item has to name. -/
def tip (start : H) (l : List α) : H := (l.getLast?.map hash).getD start

variable {prev hash} {start : H} {l : List α} {i j : ℕ}

theorem Linked.snoc {a : α} (h : Linked prev hash start l) (ha : prev a = tip hash start l) :
    Linked prev hash start (l ++ [a]) := by
  induction l generalizing start with
  | nil => exact ⟨ha, trivial⟩
  | cons b l ih =>
    refine ⟨h.1, ih h.2 ?_⟩
    rw [ha, tip, tip]
    cases l with
    | nil => rfl
    | cons c l => rw [getLast?_cons_cons]; rfl

theorem Linked.prev_zero (h : Linked prev hash start l) (h0 : 0 < l.length) : prev l[0] = start := by
  cases l with
  | nil => cases h0
  | cons a l => exact h.1

theorem Linked.prev_getElem (h : Linked prev hash start l) (hi : i + 1 < l.length) :
    prev l[i + 1] = hash l[i] := by
  induction l generalizing start i with
  | nil => cases hi
  | cons a l ih =>
    cases i with
    | zero => exact h.2.prev_zero (lt_of_succ_lt_succ hi)
    | succ i => exact ih h.2 (lt_of_succ_lt_succ hi)

/-- A hash tells what the item named, and `start` is no hash. -/
structure Commits (prev hash : α → H) (start : H) (l : List α) : Prop where
  prev_eq : ∀ a ∈ l, ∀ b ∈ l, hash a = hash b → prev a = prev b
  start_ne : ∀ a ∈ l, hash a ≠ start

/-- Two places with one hash are one: their histories agree down to the start. -/
theorem Linked.position_inj (h : Linked prev hash start l) (hc : Commits prev hash start l)
    (hi : i < l.length) (hj : j < l.length) (heq : hash l[i] = hash l[j]) : i = j := by
  have hpv : prev l[i] = prev l[j] := hc.prev_eq _ (getElem_mem hi) _ (getElem_mem hj) heq
  induction i generalizing j with
  | zero =>
    cases j with
    | zero => rfl
    | succ j =>
      rw [h.prev_zero hi, h.prev_getElem hj] at hpv
      exact absurd hpv.symm (hc.start_ne _ (getElem_mem _))
  | succ i ih =>
    cases j with
    | zero =>
      rw [h.prev_zero hj, h.prev_getElem hi] at hpv
      exact absurd hpv (hc.start_ne _ (getElem_mem _))
    | succ j =>
      rw [h.prev_getElem hi, h.prev_getElem hj] at hpv
      have hsm := hc.prev_eq _ (getElem_mem (lt_of_succ_lt hi)) _ (getElem_mem (lt_of_succ_lt hj)) hpv
      rw [ih (lt_of_succ_lt hi) (lt_of_succ_lt hj) hpv hsm]

/-- The item that names the hash of place `i` stands at place `i + 1`. -/
theorem Linked.next_position (h : Linked prev hash start l) (hc : Commits prev hash start l)
    (hi : i < l.length) (hj : j < l.length) (heq : prev l[j] = hash l[i]) : j = i + 1 := by
  cases j with
  | zero =>
    rw [h.prev_zero hj] at heq
    exact absurd heq.symm (hc.start_ne _ (getElem_mem _))
  | succ j =>
    rw [h.prev_getElem hj] at heq
    rw [h.position_inj hc (lt_of_succ_lt hj) hi heq]

end HashChain
