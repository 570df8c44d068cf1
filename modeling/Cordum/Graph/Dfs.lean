import Cordum.Graph.Sweep
import Mathlib.Logic.Relation

/-!
# Depth-first search for cycles

A search with three colours: a node is gray while its successors are visited, and a gray node that is
met again closes a cycle. With fuel for every node, and whatever the order, the search of all nodes
succeeds exactly when there is no cycle.
-/

namespace Graph

open List Relation Function

/-- Not visited, on the path, done. -/
inductive Color
  | white
  | gray
  | black
deriving DecidableEq

variable {α : Type}

/-- `b` is a successor of `a`. -/
def Edge (next : α → List α) (a b : α) : Prop := b ∈ next a

variable {next : α → List α} {n fuel : ℕ} {path order dom l : List α} {e : Option (List α)}
  {color color' : α → Color} {a : α}

/-- What visits do to the colours. From a black node there are only finite ways. -/
structure Visited (next : α → List α) (color color' : α → Color) : Prop where
  gray : ∀ x, color' x = .gray ↔ color x = .gray
  white : ∀ x, color' x = .white → color x = .white
  black : (∀ x, color x = .black → Acc (flip (Edge next)) x) → ∀ x, color' x = .black →
    Acc (flip (Edge next)) x

theorem Visited.refl (color : α → Color) : Visited next color color :=
  ⟨fun _ => .rfl, fun _ h => h, fun h => h⟩

theorem Visited.trans {color'' : α → Color} (h : Visited next color color')
    (h' : Visited next color' color'') :
    Visited next color color'' :=
  ⟨fun x => (h'.gray x).trans (h.gray x), fun x hx => h.white x (h'.white x hx),
    fun hb => h'.black (h.black hb)⟩

theorem Visited.stays (h : Visited next color color') (ha : color a = .black) : color' a = .black := by
  cases hc : color' a with
  | white => exact absurd ((h.white a hc).symm.trans ha) nofun
  | gray => exact absurd (((h.gray a).1 hc).symm.trans ha) nofun
  | black => rfl

/-- Visits one after the other: all succeed, and blacken their nodes, or one does not. -/
theorem foldlM_visited {f : (α → Color) → α → Except (Option (List α)) (α → Color)} {c : α → Color}
    (hf : ∀ color, Visited next c color → ∀ a ∈ l, ∀ color', f color a = .ok color' →
      Visited next color color' ∧ color' a = .black) :
    (∃ color, l.foldlM f c = .ok color ∧ Visited next c color ∧ ∀ a ∈ l, color a = .black) ∨
      ∃ color, Visited next c color ∧ ∃ a ∈ l, ∃ e, f color a = .error e ∧ l.foldlM f c = .error e := by
  induction l generalizing c with
  | nil => exact .inl ⟨c, rfl, .refl c, nofun⟩
  | cons a l ih =>
    rw [foldlM_cons]
    cases hfa : f c a with
    | error e => exact .inr ⟨c, .refl c, a, mem_cons_self, e, hfa, rfl⟩
    | ok color =>
      obtain ⟨hv, hb⟩ := hf c (.refl c) a mem_cons_self color hfa
      obtain ⟨color', hok, hv', hb'⟩ | ⟨color', hv', b, hbl, he⟩ :=
        ih fun color hc b hmem => hf color (hv.trans hc) b (mem_cons_of_mem a hmem)
      · exact .inl ⟨color', hok, hv.trans hv', forall_mem_cons.2 ⟨hv'.stays hb, hb'⟩⟩
      · exact .inr ⟨color', hv.trans hv', b, mem_cons_of_mem a hbl, he⟩

variable [DecidableEq α]

/-- Visit a node on the path from a root: the colours after it, a cycle, or `none` without fuel. -/
def visit (next : α → List α) : ℕ → List α → (α → Color) → α → Except (Option (List α)) (α → Color)
  | 0, _, _, _ => .error none
  | n + 1, path, color, a =>
    match color a with
    | .black => .ok color
    | .gray => .error (some (path ++ [a]))
    | .white => return update (← (next a).foldlM (visit next n (path ++ [a]))
        (update color a .gray)) a .black

/-- Visit the nodes that are still white. -/
def search (next : α → List α) (fuel : ℕ) (order : List α) : Except (Option (List α)) (α → Color) :=
  order.foldlM (fun color a => if color a = .white then visit next fuel [] color a else .ok color)
    fun _ => .white

theorem Visited.blacken (hwhi : color a = .white) (h : Visited next (update color a .gray) color')
    (hb : ∀ b ∈ next a, color' b = .black) : Visited next color (update color' a .black) where
  gray x := by
    by_cases hxa : x = a
    · simp [hxa, hwhi]
    · rw [update_of_ne hxa, h.gray, update_of_ne hxa]
  white x hx := by
    by_cases hxa : x = a
    · rwa [hxa]
    · rw [update_of_ne hxa] at hx
      simpa only [update_of_ne hxa] using h.white x hx
  black hbla x hx := by
    have hall := h.black fun y hy => by
      by_cases hya : y = a
      · rw [hya, update_self] at hy
        cases hy
      · rw [update_of_ne hya] at hy
        exact hbla y hy
    by_cases hxa : x = a
    · rw [hxa]
      exact ⟨a, fun y hy => hall y (hb y hy)⟩
    · rw [update_of_ne hxa] at hx
      exact hall x hx

theorem visit_visited (h : visit next n path color a = .ok color') :
    Visited next color color' ∧ color' a = .black := by
  induction n generalizing path color a color' with
  | zero => cases h
  | succ n ih =>
    rw [visit] at h
    split at h
    · cases h
      exact ⟨.refl color, ‹_›⟩
    · cases h
    · obtain ⟨color1, hok, hv, hb⟩ | ⟨color1, -, -, -, e, -, he⟩ := foldlM_visited (l := next a)
        (c := update color a .gray) (f := visit next n (path ++ [a])) fun _ _ _ _ _ => ih
      · rw [hok] at h
        cases h
        exact ⟨hv.blacken ‹_› hb, update_self ..⟩
      · rw [he] at h
        cases h

variable (dom) in
/-- How many nodes of `dom` are white. -/
def whites (color : α → Color) : ℕ := dom.countP (color · = .white)

/-- A visit that fails has met a gray node, from which it came: there is a cycle. -/
theorem visit_cycle (hdom : ∀ a, ∀ b ∈ next a, b ∈ dom) (ha : a ∈ dom)
    (hgr : ∀ x, color x = .gray → TransGen (Edge next) x a)
    (hfu : whites dom color < n) (h : visit next n path color a = .error e) :
    (∃ cycle, e = some cycle) ∧ ∃ c, TransGen (Edge next) c c := by
  induction n generalizing path color a with
  | zero => omega
  | succ n ih =>
    rw [visit] at h
    split at h
    · cases h
    · cases h
      exact ⟨⟨_, rfl⟩, a, hgr a ‹_›⟩
    · rename_i hwhi
      obtain ⟨color1, hok, -⟩ | ⟨color1, hv, b, hb, e', he, herr⟩ := foldlM_visited (l := next a)
        (c := update color a .gray) (f := visit next n (path ++ [a])) fun _ _ _ _ _ => visit_visited
      · rw [hok] at h
        cases h
      · rw [herr] at h
        cases h
        refine ih (hdom a b hb) (fun x hx => ?_) ?_ he
        · by_cases hxa : x = a
          · rw [hxa]
            exact .single hb
          · rw [hv.gray, update_of_ne hxa] at hx
            exact (hgr x hx).tail hb
        · have hls : whites dom color1 < whites dom color := by
            refine countP_lt_countP (fun x hx => ?_) ha ?_ (decide_eq_true hwhi)
            · have hx := hv.white x (of_decide_eq_true hx)
              by_cases hxa : x = a
              · exact hxa ▸ decide_eq_true hwhi
              · exact decide_eq_true (by rwa [update_of_ne hxa] at hx)
            · exact decide_eq_false fun hx => by simpa using hv.white a hx
          omega

theorem search_visits (color : α → Color) (hv : Visited next (fun _ => .white) color) (a : α)
    (_ : a ∈ order) (color' : α → Color)
    (h : (if color a = .white then visit next fuel [] color a else .ok color) = .ok color') :
    Visited next color color' ∧ color' a = .black := by
  split at h
  · exact visit_visited h
  · cases h
    refine ⟨.refl _, ?_⟩
    cases hc : color a with
    | white => contradiction
    | gray => exact absurd ((hv.gray a).1 hc) nofun
    | black => rfl

/-- A search that succeeds leaves nothing from which one can go on for ever. -/
theorem search_acc (h : search next fuel order = .ok color) : ∀ a ∈ order, Acc (flip (Edge next)) a := by
  obtain ⟨_, -, hv, hb⟩ | ⟨_, -, a, -, e, -, herr⟩ := foldlM_visited (@search_visits α next fuel order _)
  · exact fun a ha => hv.black nofun a (hb a ha)
  · cases herr.symm.trans h

/-- **The search succeeds when there is no cycle, and ends with one otherwise.** -/
theorem search_cases (hdom : ∀ a, ∀ b ∈ next a, b ∈ order) (hfu : order.length < fuel) :
    (∃ color, search next fuel order = .ok color) ∧ (∀ a, ¬ TransGen (Edge next) a a) ∨
      (∃ cycle, search next fuel order = .error (some cycle)) ∧ ∃ a, TransGen (Edge next) a a := by
  obtain ⟨color, hok, hv, hb⟩ | ⟨color, hv, a, ha, e, he, herr⟩ :=
    foldlM_visited (@search_visits α next fuel order _)
  · refine .inl ⟨⟨color, hok⟩, fun a hcyc => ?_⟩
    have hmem : a ∈ order := by
      obtain ⟨b, -, hba⟩ := TransGen.tail'_iff.1 hcyc
      exact hdom b a hba
    have hacc := (hv.black nofun a (hb a hmem)).transGen
    induction hacc with
    | intro a _ ih => exact ih a (transGen_swap.2 hcyc) hcyc hmem
  · split at he
    · obtain ⟨⟨cycle, rfl⟩, hcyc⟩ :=
        visit_cycle hdom ha (fun x hx => absurd ((hv.gray x).1 hx) nofun)
          (Nat.lt_of_le_of_lt countP_le_length hfu) he
      exact .inr ⟨⟨cycle, herr⟩, hcyc⟩
    · cases he

end Graph
