import Mathlib.Data.List.Perm.Subperm
import Mathlib.Data.List.Nodup

/-!
# Following a chain

`f` tells of each node where the chain goes next, or what it ends with. `chase` follows it and ends
with `loop` at a node it has seen. With fuel for every node the chain can leave, it finds any other
end the chain has (`chase_eq_iff`).
-/

namespace Graph

open List

variable {α β : Type} [DecidableEq α]

/-- Follow the chain from a node. -/
def chase (f : α → β ⊕ α) (loop : β) : ℕ → List α → α → β
  | 0, _, _ => loop
  | n + 1, visited, a =>
    if a ∈ visited then loop
    else match f a with
      | .inl b => b
      | .inr a' => chase f loop n (a :: visited) a'

/-- The chain from a node ends with `b` after `n` steps. -/
inductive StopsIn (f : α → β ⊕ α) : ℕ → α → β → Prop
  | here {a : α} {b : β} (h : f a = .inl b) : StopsIn f 0 a b
  | next {a a' : α} {b : β} {n : ℕ} (h : f a = .inr a') (hs : StopsIn f n a' b) : StopsIn f (n + 1) a b

variable {f : α → β ⊕ α} {loop b b' : β} {n m fuel : ℕ} {a : α} {dom visited : List α}

omit [DecidableEq α] in
theorem StopsIn.unique (h : StopsIn f n a b) (h' : StopsIn f m a b') : n = m ∧ b = b' := by
  induction h generalizing m with
  | here h =>
    cases h' with
    | here h' =>
      cases h.symm.trans h'
      exact ⟨rfl, rfl⟩
    | next h' _ => cases h.symm.trans h'
  | next h _ ih =>
    cases h' with
    | here h' => cases h.symm.trans h'
    | next h' hs' =>
      cases h.symm.trans h'
      obtain ⟨rfl, rfl⟩ := ih hs'
      exact ⟨rfl, rfl⟩

omit [DecidableEq α] in
theorem stopsIn_map {γ : Type} {g : β → γ} {c : γ} :
    StopsIn (fun a => (f a).map g fun a => a) n a c ↔ ∃ b, StopsIn f n a b ∧ g b = c := by
  constructor
  · intro h
    induction h with
    | @here a c h =>
      cases hf : f a with
      | inl b =>
        rw [hf] at h
        exact ⟨b, .here hf, Sum.inl.inj h⟩
      | inr => rw [hf] at h; cases h
    | @next a a' c n h _ ih =>
      obtain ⟨b, hb, hc⟩ := ih
      cases hf : f a with
      | inl => rw [hf] at h; cases h
      | inr =>
        rw [hf] at h
        cases h
        exact ⟨b, .next hf hb, hc⟩
  · rintro ⟨b, h, rfl⟩
    induction h with
    | here h => exact .here (by rw [h]; rfl)
    | next h _ ih => exact .next (by rw [h]; rfl) ih

omit [DecidableEq α] in
/-- A chain that ends leaves no node twice. -/
theorem StopsIn.le_length (hdom : ∀ a a', f a = .inr a' → a ∈ dom)
    (h : StopsIn f n a b) : n ≤ dom.length := by
  -- the nodes the chain leaves, each with the steps it has still to go
  have hnod : ∃ l : List α, l.length = n ∧ l.Nodup ∧ ∀ x ∈ l, x ∈ dom ∧ ∃ m ≤ n, StopsIn f m x b := by
    induction h with
    | here _ => exact ⟨[], rfl, nodup_nil, by simp⟩
    | @next a a' b n h hs ih =>
      obtain ⟨l, hlen, hnd, hl⟩ := ih
      have hfr : a ∉ l := by
        intro ha
        obtain ⟨-, m, hm, hstp⟩ := hl a ha
        have := (hstp.unique (.next h hs)).1
        omega
      refine ⟨a :: l, by rw [length_cons, hlen], nodup_cons.2 ⟨hfr, hnd⟩, ?_⟩
      intro x hx
      rcases mem_cons.1 hx with rfl | hx
      · exact ⟨hdom _ _ h, n + 1, Nat.le_refl _, .next h hs⟩
      · obtain ⟨hx, m, hm, hstp⟩ := hl x hx
        exact ⟨hx, m, by omega, hstp⟩
  obtain ⟨l, hlen, hnd, hl⟩ := hnod
  rw [← hlen]
  exact (hnd.subperm fun x hx => (hl x hx).1).length_le

section

variable {f₀ : α → β ⊕ α} {P : β → Prop}

omit [DecidableEq α] in
/-- Where `f` differs from `f₀` only at nodes where `f₀` ends in `P`, other ends are kept. -/
theorem StopsIn.refine (hf : ∀ a, f₀ a = f a ∨ ∃ p, P p ∧ f₀ a = .inl p) (hb : ¬ P b)
    (h : StopsIn f₀ n a b) :
    StopsIn f n a b := by
  induction h with
  | @here a b h =>
    rcases hf a with ha | ⟨p, hp, ha⟩
    · exact .here (ha ▸ h)
    · cases h.symm.trans ha
      exact absurd hp hb
  | @next a a' b n h _ ih =>
    rcases hf a with ha | ⟨p, hp, ha⟩
    · exact .next (ha ▸ h) (ih hb)
    · cases h.symm.trans ha

omit [DecidableEq α] in
/-- The ends of `f` were ends of `f₀`, or `f₀` ended in `P` before. -/
theorem StopsIn.unrefine (hf : ∀ a, f₀ a = f a ∨ ∃ p, P p ∧ f₀ a = .inl p) (h : StopsIn f n a b) :
    (∃ m, StopsIn f₀ m a b) ∨ ∃ m p, P p ∧ StopsIn f₀ m a p := by
  induction h with
  | @here a b h =>
    rcases hf a with ha | ⟨p, hp, ha⟩
    · exact .inl ⟨0, .here (ha.trans h)⟩
    · exact .inr ⟨0, p, hp, .here ha⟩
  | @next a a' b n h _ ih =>
    rcases hf a with ha | ⟨p, hp, ha⟩
    · rcases ih with ⟨m, hm⟩ | ⟨m, p, hp, hm⟩
      · exact .inl ⟨m + 1, .next (ha.trans h) hm⟩
      · exact .inr ⟨m + 1, p, hp, .next (ha.trans h) hm⟩
    · exact .inr ⟨0, p, hp, .here ha⟩

end

theorem chase_of_stopsIn (h : StopsIn f n a b) (hfu : n < fuel)
    (hv : ∀ v ∈ visited, ∃ m, n < m ∧ StopsIn f m v b) : chase f loop fuel visited a = b := by
  have hfr : a ∉ visited := by
    intro ha
    obtain ⟨m, hm, hstp⟩ := hv a ha
    have := (h.unique hstp).1
    omega
  induction h generalizing fuel visited with
  | here h =>
    obtain ⟨fuel, rfl⟩ : ∃ k, fuel = k + 1 := ⟨fuel - 1, by omega⟩
    rw [chase, if_neg hfr, h]
  | @next a a' b n h hs ih =>
    obtain ⟨fuel, rfl⟩ : ∃ k, fuel = k + 1 := ⟨fuel - 1, by omega⟩
    rw [chase, if_neg hfr, h]
    have hv' : ∀ v ∈ a :: visited, ∃ m, n < m ∧ StopsIn f m v b := by
      intro v hmem
      rcases mem_cons.1 hmem with rfl | hmem
      · exact ⟨n + 1, by omega, .next h hs⟩
      · obtain ⟨m, hm, hstp⟩ := hv v hmem
        exact ⟨m, by omega, hstp⟩
    refine ih (by omega) hv' ?_
    intro ha
    obtain ⟨m, hm, hstp⟩ := hv' a' ha
    have := (hs.unique hstp).1
    omega

theorem stopsIn_of_chase (hb : b ≠ loop) (h : chase f loop fuel visited a = b) : ∃ n, StopsIn f n a b := by
  induction fuel generalizing visited a with
  | zero => exact absurd h.symm hb
  | succ fuel ih =>
    rw [chase] at h
    split at h
    · exact absurd h.symm hb
    split at h
    · next h' => exact ⟨0, .here (h ▸ h')⟩
    · next a' h' =>
      obtain ⟨n, hn⟩ := ih h
      exact ⟨n + 1, .next h' hn⟩

/-- **The chase finds the end of the chain.** -/
theorem chase_eq_iff (hdom : ∀ a a', f a = .inr a' → a ∈ dom) (hfu : dom.length < fuel) (hb : b ≠ loop) :
    chase f loop fuel [] a = b ↔ ∃ n, StopsIn f n a b := by
  constructor
  · exact stopsIn_of_chase hb
  · rintro ⟨n, hn⟩
    have := hn.le_length hdom
    exact chase_of_stopsIn hn (by omega) (by simp)

end Graph
