import Mathlib.Data.List.Induction

/-!
# Lists whose elements have keys

An element with a key takes the place of the last one that has it; an element with a new key, or
without one, is put at the end. Merging a second list into a first one does this with its elements in
turn.
-/

namespace Keyed

open List

variable {α κ : Type} [DecidableEq κ] (key : α → Option κ)

/-- The place of an element: that of the last one with its key. -/
def slot (r : α) : List α → Option ℕ
  | [] => none
  | x :: l =>
    match slot r l with
    | some i => some (i + 1)
    | none => if key r ≠ none ∧ key x = key r then some 0 else none

/-- The list with the element in its place, or at the end. -/
def upsert (l : List α) (r : α) : List α :=
  match slot key r l with
  | some i => l.set i r
  | none => l ++ [r]

/-- The elements of the second list, put into the first one by one. -/
def merge (base add : List α) : List α := add.foldl (upsert key) base

variable {key} {l : List α} {r r' x : α} {i : ℕ}

/-! ## Places -/

theorem slot_congr (hr : key r = key r') {l' : List α} (h : l.map key = l'.map key) :
    slot key r l = slot key r' l' := by
  induction l generalizing l' with
  | nil => rw [map_eq_nil_iff.1 h.symm]; rfl
  | cons x l ih =>
    cases l' with
    | nil => cases h
    | cons x' l' =>
      rw [map_cons, map_cons, cons.injEq] at h
      rw [slot, slot, ih h.2, hr, h.1]

theorem slot_append_singleton : slot key r (l ++ [x]) = if key r ≠ none ∧ key x = key r
    then some l.length else slot key r l := by
  induction l with
  | nil => rfl
  | cons y l ih =>
    rw [cons_append, slot, ih, slot]
    by_cases h : key r ≠ none ∧ key x = key r
    · rw [if_pos h, if_pos h]
      rfl
    · rw [if_neg h, if_neg h]

theorem slot_eq_none_iff : slot key r l = none ↔ key r = none ∨ key r ∉ l.map key := by
  induction l with
  | nil => simp [slot]
  | cons x l ih =>
    rw [slot, map_cons, mem_cons, not_or]
    cases hl : slot key r l with
    | some i =>
      rw [hl] at ih
      simp only [reduceCtorEq, false_iff, not_or, not_not] at ih ⊢
      exact ⟨ih.1, fun h => h.2 ih.2⟩
    | none =>
      have hno := ih.1 hl
      split_ifs with h
      · simp [h.1, h.2]
      simp only [true_iff]
      by_cases hr : key r = none
      · exact .inl hr
      · exact .inr ⟨fun hx => h ⟨hr, hx.symm⟩, hno.resolve_left hr⟩

theorem exists_last (h : slot key r l = some i) :
    ∃ l1 x l2, l = l1 ++ x :: l2 ∧ l1.length = i ∧ key r ≠ none ∧ key x = key r ∧
      ∀ y ∈ l2, key y ≠ key r := by
  induction l generalizing i with
  | nil => cases h
  | cons z l ih =>
    rw [slot] at h
    cases hl : slot key r l with
    | some j =>
      rw [hl] at h
      cases h
      obtain ⟨l1, x, l2, rfl, rfl, hx⟩ := ih hl
      exact ⟨z :: l1, x, l2, rfl, rfl, hx⟩
    | none =>
      rw [hl] at h
      split_ifs at h with hz
      cases h
      refine ⟨[], z, l, rfl, rfl, hz.1, hz.2, fun y hy hyr => ?_⟩
      exact (slot_eq_none_iff.1 hl).elim hz.1 fun hno => hno (hyr ▸ mem_map_of_mem hy)

theorem map_key_set (h : slot key r l = some i) : (l.set i r).map key = l.map key := by
  obtain ⟨l1, x, l2, rfl, rfl, -, hx, -⟩ := exists_last h
  simp [hx]

/-! ## What is left -/

/-- Some element has the property, with its own key and those behind it in the relation. -/
def Stays (key : α → Option κ) (P : α → Prop) (Q : Option κ → List (Option κ) → Prop) : List α → Prop
  | [] => False
  | y :: l => (P y ∧ Q (key y) (l.map key)) ∨ Stays key P Q l

variable {P : α → Prop} {Q Q' : Option κ → List (Option κ) → Prop} {l' base add : List α}

omit [DecidableEq κ] in
theorem stays_append : Stays key P Q (l ++ l') ↔ Stays key P (fun k ks => Q k (ks ++ l'.map key)) l ∨
    Stays key P Q l' := by
  induction l with
  | nil => simp [Stays]
  | cons y l ih => rw [cons_append, Stays, Stays, ih, map_append, or_assoc]

omit [DecidableEq κ] in
theorem stays_congr (h : ∀ y ∈ l, ∀ ks, Q (key y) ks ↔ Q' (key y) ks) :
    Stays key P Q l ↔ Stays key P Q' l := by
  induction l with
  | nil => exact Iff.rfl
  | cons y l ih =>
    rw [forall_mem_cons] at h
    rw [Stays, Stays, ih h.2, h.1]

omit [DecidableEq κ] in
theorem stays_map {β : Type} {f : β → α} {l : List β} :
    Stays key P Q (l.map f) ↔ Stays (fun y => key (f y)) (fun y => P (f y)) Q l := by
  induction l with
  | nil => exact Iff.rfl
  | cons y l ih => rw [map_cons, Stays, Stays, ih, map_map]; rfl

omit [DecidableEq κ] in
theorem stays_iff (h : ∀ y ∈ l, ∀ ks, Q (key y) ks) : Stays key P Q l ↔ ∃ y ∈ l, P y := by
  induction l with
  | nil => simp [Stays]
  | cons y l ih =>
    rw [forall_mem_cons] at h
    rw [Stays, ih h.2, and_iff_left (h.1 _)]
    simp only [mem_cons, exists_eq_or_imp]

/-- **What a merged list contains**: the elements of the second list that no later one replaces, and
those of the first whose key it lacks, or that stand before another with their key. -/
theorem exists_merge_iff : (∃ x ∈ merge key base add, P x) ↔
    Stays key P (fun k ks => k = none ∨ k ∉ ks) add ∨
      Stays key P (fun k ks => k = none ∨ k ∉ add.map key ∨ k ∈ ks) base := by
  induction add generalizing base with
  | nil =>
    have hall : Stays key P (fun k ks => k = none ∨ k ∉ [].map key ∨ k ∈ ks) base ↔ ∃ x ∈ base, P x :=
      stays_iff fun _ _ _ => .inr (.inl not_mem_nil)
    rw [hall]
    exact (or_iff_right not_false).symm
  | cons r add ih =>
    rw [show merge key base (r :: add) = merge key (upsert key base r) add from rfl, ih, Stays, map_cons]
    cases hsl : slot key r base with
    | none =>
      rw [upsert, hsl, stays_append, Stays, Stays]
      have hold : Stays key P (fun k ks => k = none ∨ k ∉ add.map key ∨ k ∈ ks ++ [r].map key) base ↔
          Stays key P (fun k ks => k = none ∨ k ∉ key r :: add.map key ∨ k ∈ ks) base := by
        refine stays_congr fun y hy ks => ?_
        have hne : key y = none ∨ key y ≠ key r := by
          rcases slot_eq_none_iff.1 hsl with hno | hnew
          · rw [hno]
            exact em _
          · exact .inr fun hyr => hnew (hyr ▸ mem_map_of_mem hy)
        rcases hne with hne | hne
        · simp [hne]
        · simp [hne]
      rw [hold, map_nil]
      simp only [not_mem_nil, or_false]
      rw [or_assoc, or_rotate, or_rotate]
    | some i =>
      obtain ⟨l1, z, l2, rfl, rfl, hr, hz, hls⟩ := exists_last hsl
      have h : upsert key (l1 ++ z :: l2) r = l1 ++ r :: l2 := by
        rw [upsert, hsl]
        simp
      rw [h, stays_append, stays_append, Stays, Stays, map_cons, map_cons, hz]
      have hgn : key r ∉ l2.map key := fun hmem => by
        obtain ⟨y, hy, hkey⟩ := mem_map.1 hmem
        exact hls y hy hkey
      -- before the place, at the place and behind it
      have hfrt : Stays key P (fun k ks => k = none ∨ k ∉ add.map key ∨ k ∈ ks ++ key r :: l2.map key) l1 ↔
          Stays key P (fun k ks => k = none ∨ k ∉ key r :: add.map key ∨
            k ∈ ks ++ key r :: l2.map key) l1 := by
        refine stays_congr fun y _ ks => ?_
        by_cases hk : key y = key r
        · simp [hk]
        · simp [hk]
      have hbk : Stays key P (fun k ks => k = none ∨ k ∉ add.map key ∨ k ∈ ks) l2 ↔
          Stays key P (fun k ks => k = none ∨ k ∉ key r :: add.map key ∨ k ∈ ks) l2 :=
        stays_congr fun y hy ks => by simp [hls y hy]
      tauto

end Keyed
