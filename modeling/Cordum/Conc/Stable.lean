import Cordum.Conc.Pool

/-!
# Invariants under interference

What a call may do next can depend on what it did before, as long as the others cannot undo it. Every
command moves the state along `ρ` (a history that only grows). A program keeps an invariant `I` if
each of its commands does, in every state reached along `ρ` from the one it left behind.
-/

namespace Conc

open List

variable {Op C : Type} {R : C → Type} {S E α β : Type} {s t : S}

namespace Prog

/-- Run among others that move the state along `ρ` and keep `I`, the program keeps `I`, and an answer
satisfies `post`. -/
def Keeps (sem : Sem C R S) (I : S → Prop) (ρ : S → S → Prop)
    (post : α → S → Prop) : Prog C R E α → S → Prop
  | ret a, s => post a s
  | fail _, _ => True
  | call c k, s => ∀ t, ρ s t → I t → I (sem c t).1 ∧ (k none).Keeps sem I ρ post t ∧
      (k none).Keeps sem I ρ post (sem c t).1 ∧ (k (some (sem c t).2)).Keeps sem I ρ post (sem c t).1

variable {sem : Sem C R S} {I : S → Prop} {ρ : S → S → Prop} {p : Prog C R E α}

theorem keeps_bind {f : α → Prog C R E β} {post : β → S → Prop} :
    (p >>= f).Keeps sem I ρ post s ↔ p.Keeps sem I ρ (fun a => (f a).Keeps sem I ρ post) s := by
  rw [bind_eq]
  induction p generalizing s with
  | ret a | fail e => exact Iff.rfl
  | call c k ih =>
    simp only [call_bind, Keeps, ih]

theorem keeps_cmd {c : C} {post : Option (R c) → S → Prop}
    (h : ∀ t, ρ s t → I t → I (sem c t).1 ∧ post none t ∧ post none (sem c t).1 ∧
      post (some (sem c t).2) (sem c t).1) :
    (cmd c : Prog C R E (Option (R c))).Keeps sem I ρ post s := h

theorem keeps_exec {c : C} {e : E} {post : R c → S → Prop}
    (h : ∀ t, ρ s t → I t → I (sem c t).1 ∧ post (sem c t).2 (sem c t).1) :
    (exec c e : Prog C R E (R c)).Keeps sem I ρ post s :=
  fun t hst ht => ⟨(h t hst ht).1, trivial, trivial, (h t hst ht).2⟩

theorem keeps_weaken {post post' : α → S → Prop} (h : p.Keeps sem I ρ post s)
    (hpo : ∀ a s, post a s → post' a s) : p.Keeps sem I ρ post' s := by
  induction p generalizing s with
  | ret a => exact hpo a s h
  | fail e => trivial
  | call c k ih =>
    intro t hst ht
    obtain ⟨hI, h1, h2, h3⟩ := h t hst ht
    exact ⟨hI, ih _ h1, ih _ h2, ih _ h3⟩

theorem keeps_mono (ht : ∀ s t u, ρ s t → ρ t u → ρ s u)
    (h : p.Keeps sem I ρ (fun _ _ => True) s) (hst : ρ s t) : p.Keeps sem I ρ (fun _ _ => True) t := by
  cases p with
  | ret a | fail e => trivial
  | call c k => exact fun u htu hu => h u (ht _ _ _ hst htu) hu

theorem path_guar {guar : C → Prop} {post : α → Prop} {h : List (Obs C R)} {r : Except E α}
    (hp : p.Guar (fun _ _ => True) guar post) (hpt : p.Path h r) : ∀ o ∈ h, guar o.cmd := by
  induction p generalizing h with
  | ret a | fail e => obtain ⟨rfl, -⟩ := hpt; simp
  | call c k ih =>
    obtain ⟨x, h', rfl, hpt⟩ := hpt
    obtain ⟨hc, hno, hso⟩ := hp
    intro o ho
    rcases mem_cons.1 ho with rfl | ho'
    · exact hc
    · cases x with
      | none => exact ih _ hno hpt o ho'
      | some x => exact ih _ (hso x trivial) hpt o ho'

end Prog

namespace World

variable (prog : Op → Prog C R E α) (sem : Sem C R S) {I : S → Prop} {ρ : S → S → Prop} {ok : Op → Prop}

/-- The invariant holds, and every call keeps it from here on. -/
structure Kept (I : S → Prop) (ρ : S → S → Prop) (ok : Op → Prop) (w : World Op C R E α S) : Prop where
  inv : I w.st
  threads : ∀ t ∈ w.threads, ok t.1 ∧ t.2.Keeps sem I ρ (fun _ _ => True) w.st

theorem step_kept (hr : ∀ s, ρ s s) (ht : ∀ s t u, ρ s t → ρ t u → ρ s u) (hc : ∀ c s, ρ s (sem c s).1)
    {w : World Op C R E α S} (hw : Kept sem I ρ ok w) {a : Action Op}
    (ha : ∀ op, a = .spawn op → ok op ∧ ∀ s, (prog op).Keeps sem I ρ (fun _ _ => True) s) :
    Kept sem I ρ ok (step prog sem w a) := by
  rcases step_cases prog sem w a with ⟨op, rfl, h⟩ | ⟨i, f, op, c, k, -, hi, h⟩ | ⟨i, f, -, h⟩
  · refine ⟨hw.inv, fun t hmem => ?_⟩
    rcases mem_append.1 hmem with hmem | hmem
    · exact hw.threads t hmem
    · rw [mem_singleton] at hmem
      subst hmem
      exact ⟨(ha op rfl).1, (ha op rfl).2 _⟩
  · rw [h]
    obtain ⟨hok, hke⟩ := hw.threads _ (mem_of_getElem? hi)
    obtain ⟨hI, hlo, hlt, hdn⟩ := hke w.st (hr _) hw.inv
    -- the three ways the command can go
    have hnx : I (sem.deliver f c w.st).1 ∧ ρ w.st (sem.deliver f c w.st).1 ∧
        (k (sem.deliver f c w.st).2).Keeps sem I ρ (fun _ _ => True) (sem.deliver f c w.st).1 := by
      cases f with
      | none => exact ⟨hI, hc _ _, hdn⟩
      | lost => exact ⟨hw.inv, hr _, hlo⟩
      | late => exact ⟨hI, hc _ _, hlt⟩
    refine ⟨hnx.1, fun t hmem => ?_⟩
    rcases mem_or_eq_of_mem_set hmem with hmem | rfl
    · exact ⟨(hw.threads t hmem).1, Prog.keeps_mono ht (hw.threads t hmem).2 hnx.2.1⟩
    · exact ⟨hok, hnx.2.2⟩
  · rw [h]; exact hw

/-- **The rule**: calls that keep the invariant among others keep it in every run. -/
theorem run_keeps (hr : ∀ s, ρ s s) (ht : ∀ s t u, ρ s t → ρ t u → ρ s u) (hc : ∀ c s, ρ s (sem c s).1)
    (hpr : ∀ op s, ok op → (prog op).Keeps sem I ρ (fun _ _ => True) s) (hs : I s)
    {acts : List (Action Op)} (hac : SpawnsOnly ok acts) :
    Kept sem I ρ ok (run prog sem (init s) acts) := by
  refine foldlRecOn acts _ ⟨hs, by simp [init]⟩ fun w hw a ha => ?_
  refine step_kept prog sem hr ht hc hw fun op h => ?_
  have hop : ok op := hac op (h ▸ ha)
  exact ⟨hop, fun s => hpr op s hop⟩

end World

end Conc
