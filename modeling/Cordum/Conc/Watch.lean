import Cordum.Conc.Pool

/-!
# Optimistic transactions

A transaction watches some keys, reads them one after the other, and commits only if none of
them was written since it began to watch. Each key has a version that a write counts up, so
the commit compares versions.
-/

namespace Conc

variable {C S K : Type} {R : C → Type} {V : K → Type}

/-- A command counts up the version of every key whose value it changes. -/
structure Versioned (sem : Sem C R S) (ver : K → S → ℕ) (val : (k : K) → S → V k) : Prop where
  mono : ∀ c s k, ver k s ≤ ver k (sem c s).1
  unchanged : ∀ c s k, ver k (sem c s).1 = ver k s → val k (sem c s).1 = val k s

namespace Versioned

variable {sem : Sem C R S} {ver : K → S → ℕ} {val : (k : K) → S → V k}

theorem post_mono (h : Versioned sem ver val) (e : Entry C S) (k : K) :
    ver k e.pre ≤ ver k (e.post sem) := by
  by_cases hr : e.Ran
  · rw [Entry.post_of_ran hr]
    exact h.mono _ _ _
  · exact Nat.le_of_eq (by rw [Entry.post_of_not_ran hr])

variable {e : Entry C S} {k : K} {s t : S} {es fs : List (Entry C S)}

theorem post_unchanged (h : Versioned sem ver val) (hv : ver k (e.post sem) = ver k e.pre) :
    val k (e.post sem) = val k e.pre := by
  by_cases hr : e.Ran
  · rw [Entry.post_of_ran hr] at hv ⊢
    exact h.unchanged _ _ _ hv
  · rw [Entry.post_of_not_ran hr]

theorem chain_mono (h : Versioned sem ver val) (hc : World.Chain sem s es t) (k : K) : ver k s ≤ ver k t :=
  World.chain_rel (ρ := fun s t => ver k s ≤ ver k t) (fun _ => Nat.le_refl _)
    (fun _ _ _ => Nat.le_trans) hc
    fun e _ => h.post_mono e k

theorem chain_unchanged (h : Versioned sem ver val) (hc : World.Chain sem s es t)
    (hv : ver k t = ver k s) : val k t = val k s := by
  induction es generalizing s with
  | nil => cases hc; rfl
  | cons e es ih =>
    obtain ⟨rfl, hrs⟩ := hc
    -- the version can only have stayed the same throughout
    have hpre := h.post_mono e k
    have hpo := h.chain_mono hrs k
    exact (ih hrs (by omega)).trans (h.post_unchanged (by omega))

/-- **A value read under a watch is the value at the commit**, if the version is the same. -/
theorem read_at_commit (h : Versioned sem ver val)
    (hc : World.Chain sem s (es ++ e :: fs) t) (hv : ver k t = ver k s) : val k e.pre = val k t := by
  obtain ⟨hbef, haft⟩ := World.chain_split hc
  have hfr : World.Chain sem e.pre (e :: fs) t := ⟨rfl, haft⟩
  have h1 := h.chain_mono hbef k
  have h2 := h.chain_mono hfr k
  exact (h.chain_unchanged hfr (by omega)).symm

end Versioned

end Conc
