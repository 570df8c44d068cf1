import Mathlib.Data.List.Count

/-!
# Marking everything reachable

A depth-first sweep over a graph that marks the pending nodes it comes to, in a state of any type.
Whatever the order in which the successors of a node are listed, and with enough fuel, it marks
exactly the nodes that can be reached over pending nodes.
-/

namespace Graph

open List

variable {α σ : Type}

theorem countP_lt_countP {p q : α → Bool} {l : List α} {a : α} (hpq : ∀ x, p x → q x)
    (ha : a ∈ l) (hp : p a = false) (hq : q a) : l.countP p < l.countP q := by
  have hsm : l.countP p = (l.filter q).countP p := by
    rw [countP_filter]
    exact countP_congr fun x _ => by simpa using hpq x
  rw [hsm, countP_eq_length_filter (p := q)]
  exact countP_lt_length_iff.2 ⟨a, mem_filter.2 ⟨ha, hq⟩, hp⟩

variable [DecidableEq α]

/-- The pending nodes of a state; marking a node takes it from them and no other. -/
structure Marking (α σ : Type) [DecidableEq α] where
  pending : σ → α → Bool
  mark : α → σ → σ
  pending_mark : ∀ a s b, pending (mark a s) b = (pending s b && decide (b ≠ a))

variable (M : Marking α σ) (next : α → List α)

/-- Mark the pending successors of `d`, each followed by its own. -/
def sweep : ℕ → α → σ → σ
  | 0, _, s => s
  | n + 1, d, s => (next d).foldl (fun s a => if M.pending s a then sweep n a (M.mark a s) else s) s

/-- A way from `d` over pending nodes. -/
inductive Reach (s : σ) (d : α) : α → Prop
  | next {a : α} (h : a ∈ next d) (hp : M.pending s a) : Reach s d a
  | step {a b : α} (h : Reach s d a) (hb : b ∈ next a) (hp : M.pending s b) : Reach s d b

/-- The state with all of `l` marked. -/
def Marking.markAll (l : List α) (s : σ) : σ := l.foldl (fun s a => M.mark a s) s

variable {M next}

theorem Marking.pending_markAll (l : List α) (s : σ) (b : α) :
    M.pending (M.markAll l s) b = (M.pending s b && decide (b ∉ l)) := by
  induction l generalizing s with
  | nil => simp [markAll]
  | cons a l ih =>
    have h := ih (M.mark a s)
    rw [M.pending_mark] at h
    simp only [markAll, foldl_cons] at h ⊢
    rw [h, Bool.and_assoc]
    simp

variable {s s' : σ} {d b a : α} {l dom : List α}

theorem Reach.pending (h : Reach M next s d b) : M.pending s b := by
  cases h with
  | next _ hp | step _ _ hp => exact hp

theorem Reach.mono (hs : ∀ a, M.pending s' a → M.pending s a) (h : Reach M next s' d b) :
    Reach M next s d b := by
  induction h with
  | next h hp => exact .next h (hs _ hp)
  | step _ hb hp ih => exact .step ih hb (hs _ hp)

theorem Reach.trans (h1 : Reach M next s d a) (h2 : Reach M next s a b) : Reach M next s d b := by
  induction h2 with
  | next h hp => exact .step h1 h hp
  | step _ hb hp ih => exact .step ih hb hp

theorem pending_of_mark (h : M.pending (M.mark a s) b) : M.pending s b ∧ b ≠ a := by
  rw [M.pending_mark] at h
  simpa using h

/-- A stretch of the sweep marked `l`, reachable from `d`, and left no pending successor of a marked
node. -/
structure Swept (M : Marking α σ) (next : α → List α) (s : σ) (d : α) (s' : σ) (l : List α) : Prop where
  state : s' = M.markAll l s
  nodup : l.Nodup
  reach : ∀ a ∈ l, Reach M next s d a
  closed : ∀ x ∈ l, ∀ a ∈ next x, M.pending s' a = false

theorem Swept.pending_of (h : Swept M next s d s' l) (hp : M.pending s' a) : M.pending s a ∧ a ∉ l := by
  rw [h.state, M.pending_markAll] at hp
  simpa using hp

theorem Swept.gone (h : Swept M next s d s' l) (ha : M.pending s a = false) : M.pending s' a = false :=
  Bool.eq_false_iff.2 fun hp => Bool.eq_false_iff.1 ha (h.pending_of hp).1

theorem Swept.trans {s'' : σ} {m : List α} (h : Swept M next s d s' l) (hm : Swept M next s' d s'' m) :
    Swept M next s d s'' (l ++ m) where
  state := by
    rw [hm.state, h.state]
    exact foldl_append.symm
  nodup := by
    -- what the second stretch marked was still pending
    refine nodup_append.2 ⟨h.nodup, hm.nodup, ?_⟩
    rintro x hx y hy rfl
    exact (h.pending_of (hm.reach x hy).pending).2 hx
  reach a ha := by
    rcases mem_append.1 ha with ha | ha
    · exact h.reach a ha
    · exact (hm.reach a ha).mono fun x hx => (h.pending_of hx).1
  closed x hx a ha := by
    rcases mem_append.1 hx with hx | hx
    · exact hm.gone (h.closed x hx a ha)
    · exact hm.closed x hx a ha

/-- Marking a successor, and sweeping from it. -/
theorem Swept.visit (ha : a ∈ next d) (hp : M.pending s a) (h : Swept M next (M.mark a s) a s' l)
    (hdn : ∀ b ∈ next a, M.pending s' b = false) : Swept M next s d s' (a :: l) where
  state := h.state
  nodup := nodup_cons.2 ⟨fun hl => (pending_of_mark (h.reach a hl).pending).2 rfl, h.nodup⟩
  reach := by
    have hrea : Reach M next s d a := .next ha hp
    exact forall_mem_cons.2
      ⟨hrea, fun x hx => hrea.trans ((h.reach x hx).mono fun y hy => (pending_of_mark hy).1)⟩
  closed := forall_mem_cons.2 ⟨hdn, h.closed⟩

variable (M) in
/-- How many nodes of `dom` are pending. -/
def pendingCount (dom : List α) (s : σ) : ℕ := dom.countP (M.pending s)

/-- **The sweep marks what it can reach**, with fuel for every pending node. -/
theorem sweep_swept (hdom : ∀ d, ∀ a ∈ next d, a ∈ dom) {n : ℕ} (hfu : pendingCount M dom s < n) :
    ∃ l, Swept M next s d (sweep M next n d s) l ∧ ∀ a ∈ next d,
      M.pending (sweep M next n d s) a = false := by
  induction n generalizing d s with
  | zero => omega
  | succ n ih =>
    -- the successors of `d` from left to right
    have hlp : ∀ (todo : List α) s, (∀ a ∈ todo, a ∈ next d) → pendingCount M dom s < n + 1 →
        let s' := todo.foldl (fun s a => if M.pending s a then sweep M next n a (M.mark a s) else s) s
        ∃ l, Swept M next s d s' l ∧ ∀ a ∈ todo, M.pending s' a = false := by
      intro todo
      induction todo with
      | nil => exact fun s _ _ => ⟨[], ⟨rfl, nodup_nil, nofun, nofun⟩, nofun⟩
      | cons a todo ihtodo =>
        intro s hnx hfu
        obtain ⟨ha, hnx⟩ := forall_mem_cons.1 hnx
        have hone : ∃ l, Swept M next s d (if M.pending s a then sweep M next n a (M.mark a s) else s) l ∧
            M.pending (if M.pending s a then sweep M next n a (M.mark a s) else s) a = false := by
          split
          · rename_i hp
            have hls : pendingCount M dom (M.mark a s) < pendingCount M dom s :=
              countP_lt_countP (fun x hx => (pending_of_mark hx).1) (hdom d a ha)
                (by simp [M.pending_mark]) hp
            obtain ⟨l, hl, hdn⟩ := ih (d := a) (s := M.mark a s) (by omega)
            exact ⟨a :: l, .visit ha hp hl hdn, hl.gone (by simp [M.pending_mark])⟩
          · exact ⟨[], ⟨rfl, nodup_nil, nofun, nofun⟩, Bool.eq_false_iff.2 ‹_›⟩
        obtain ⟨l, hl, hgn⟩ := hone
        have hle : pendingCount M dom (if M.pending s a then sweep M next n a (M.mark a s) else s) ≤
            pendingCount M dom s :=
          countP_mono_left fun x _ hx => (hl.pending_of hx).1
        obtain ⟨m, hm, hrs⟩ := ihtodo _ hnx (Nat.lt_of_le_of_lt hle hfu)
        exact ⟨l ++ m, hl.trans hm, forall_mem_cons.2 ⟨hm.gone hgn, hrs⟩⟩
    exact hlp (next d) s (fun _ h => h) hfu

/-- **The state after a sweep**: the old one with exactly the reachable nodes marked. -/
theorem sweep_marks (hdom : ∀ d, ∀ a ∈ next d, a ∈ dom) {n : ℕ} (hfu : pendingCount M dom s < n) :
    ∃ l, sweep M next n d s = M.markAll l s ∧ l.Nodup ∧ ∀ a, a ∈ l ↔ Reach M next s d a := by
  obtain ⟨l, hl, hdn⟩ := sweep_swept (d := d) hdom hfu
  refine ⟨l, hl.state, hl.nodup, fun a => ⟨hl.reach a, fun h => ?_⟩⟩
  have hmk : ∀ b, M.pending s b → M.pending (sweep M next n d s) b = false → b ∈ l := by
    intro b hb hgn
    rw [hl.state, M.pending_markAll, hb] at hgn
    simpa using hgn
  induction h with
  | next h hp => exact hmk _ hp (hdn _ h)
  | step _ hb hp ih => exact hmk _ hp (hl.closed _ ih _ hb)

theorem sweep_keeps {P : σ → Prop} (h : ∀ d a s, a ∈ next d → M.pending s a → P s → P (M.mark a s)) (n : ℕ)
    (d : α) (s : σ) (hs : P s) : P (sweep M next n d s) := by
  induction n generalizing d s with
  | zero => exact hs
  | succ n ih =>
    refine foldlRecOn (next d) _ hs fun s hs a ha => ?_
    split
    · rename_i hp
      exact ih a _ (h d a s ha hp hs)
    · exact hs

end Graph
