import Mathlib.Data.List.Nodup

/-!
# Loops over lists

What a loop that takes the elements of a list in turn makes of one part of its state.
-/

namespace Loop

open List

variable {α β σ : Type} {f : σ → α → σ}

/-- A property that the turns of some elements bring about, and none undoes. -/
theorem foldl_iff {P : σ → Prop} {Q : α → Prop} (h : ∀ s a, P (f s a) ↔ P s ∨ Q a) (l : List α) (s : σ) :
    P (l.foldl f s) ↔ P s ∨ ∃ a ∈ l, Q a := by
  induction l generalizing s with
  | nil => simp
  | cons a l ih => rw [foldl_cons, ih, h, or_assoc, exists_mem_cons_iff]

/-- A part of the state that the turn of `a` changes, and no other. -/
theorem foldl_at [DecidableEq α] {v : σ → β} {g : β → β} {a : α} (hsf : ∀ s, v (f s a) = g (v s))
    (hoth : ∀ s b, a ≠ b → v (f s b) = v s) {l : List α} (hl : l.Nodup ∨ ∀ b, g (g b) = g b) (s : σ) :
    v (l.foldl f s) = if a ∈ l then g (v s) else v s := by
  induction l generalizing s with
  | nil => rfl
  | cons b l ih =>
    rw [foldl_cons, ih (hl.imp_left fun h => h.of_cons)]
    by_cases hb : a = b
    · subst hb
      rw [hsf, if_pos mem_cons_self]
      rcases hl with hnd | haga
      · exact if_neg (nodup_cons.1 hnd).1
      · rw [haga, ite_self]
    · simp only [hoth s b hb, mem_cons, hb, false_or]

end Loop
