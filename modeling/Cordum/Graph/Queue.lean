import Mathlib.Data.List.Nodup
import Mathlib.Logic.Relation
import Mathlib.Tactic.Common

/-!
# Breadth-first search with a depth limit

The search takes nodes from a queue that holds each with its depth, and puts their unseen children
behind. Over any graph, finite or not, it ends (`breadthFirst_ends`), and it finds every node that
can be reached, each once, unless a node at the last depth has children (`breadthFirst_searched`).
-/

namespace Graph

open List Relation

variable {α : Type} (children : α → List α) (root : α) (limit : ℕ)

/-- At most so many steps from the root. -/
def Within : ℕ → α → Prop
  | 0, a => a = root
  | n + 1, a => Within n a ∨ ∃ b, Within n b ∧ a ∈ children b

/-- The breadth-first distance. -/
def AtDistance : ℕ → α → Prop
  | 0, a => a = root
  | n + 1, a => Within children root (n + 1) a ∧ ¬ Within children root n a

/-- What the root leads to. -/
abbrev Reaches : α → Prop := ReflTransGen (fun a b => b ∈ children a) root

/-- Every node that can be reached is found, each once, unless one is too deep. -/
structure Searched (result : Option (List α)) : Prop where
  deep : result = none ↔ ∃ a, AtDistance children root limit a ∧ children a ≠ []
  found : ∀ l ∈ result, l.Nodup ∧ ∀ a, a ∈ l ↔ Reaches children root a

section

variable {children root} {n : ℕ} {a : α}

theorem within_succ_iff :
    Within children root (n + 1) a ↔ Within children root n a ∨ ∃ b,
      AtDistance children root n b ∧ a ∈ children b := by
  cases n with
  | zero => rfl
  | succ n =>
    refine ⟨?_, Or.imp_right fun ⟨b, hb, ha⟩ => ⟨b, hb.1, ha⟩⟩
    rintro (h | ⟨b, hb, ha⟩)
    · exact .inl h
    · by_cases hn : Within children root n b
      · exact .inl (.inr ⟨b, hn, ha⟩)
      · exact .inr ⟨b, ⟨hb, hn⟩, ha⟩

theorem reach_of_within (h : Within children root n a) : Reaches children root a := by
  induction n generalizing a with
  | zero => exact h ▸ .refl
  | succ n ih =>
    rcases h with h | ⟨b, hb, ha⟩
    · exact ih h
    · exact (ih hb).tail ha

theorem within_of_reach (hls : ∀ a, AtDistance children root n a → children a = [])
    (h : Reaches children root a) : Within children root n a := by
  induction h with
  | refl =>
    clear hls
    induction n with
    | zero => rfl
    | succ n ih => exact .inl ih
  | tail _ ha ih =>
    refine (within_succ_iff.1 (.inr ⟨_, ih, ha⟩)).resolve_right ?_
    rintro ⟨b, hb, ha⟩
    rw [hls b hb] at ha
    cases ha

end

variable [DecidableEq α]

/-- One child: an unseen one is marked and queued. -/
def meet (depth : ℕ) (s : List (α × ℕ) × List α) (child : α) : List (α × ℕ) × List α :=
  if child ∈ s.2 then s else (s.1 ++ [(child, depth)], s.2 ++ [child])

/-- The search from a queue; `none` if the rounds do not suffice. It gives up where a node of the last
depth has children. -/
def breadthFirst : ℕ → List (α × ℕ) → List α → Option (Option (List α))
  | 0, _, _ => none
  | _ + 1, [], seen => some (some seen)
  | n + 1, (node, depth) :: queue, seen =>
    if limit ≤ depth then
      if children node = [] then breadthFirst n queue seen else some none
    else
      let s := (children node).foldl (meet (depth + 1)) (queue, seen)
      breadthFirst n s.1 s.2

/-- The first occurrences of what was not seen before. -/
def fresh : List α → List α → List α
  | _, [] => []
  | seen, a :: l => if a ∈ seen then fresh seen l else a :: fresh (seen ++ [a]) l

/-- A queue that holds one depth, with all that was seen. -/
structure Layer (n : ℕ) (level seen : List α) : Prop where
  queued : ∀ a, a ∈ level ↔ AtDistance children root n a
  met : ∀ a, a ∈ seen ↔ Within children root n a
  once : seen.Nodup

variable {children root limit} {n d : ℕ} {a : α} {level later seen l l' : List α} {queue : List (α × ℕ)}
  {result result' : Option (List α)}

theorem foldl_meet :
    l.foldl (meet d) (queue, seen) = (queue ++ (fresh seen l).map (·, d), seen ++ fresh seen l) := by
  induction l generalizing queue seen with
  | nil => simp [fresh]
  | cons a l ih =>
    rw [foldl_cons, fresh, meet]
    split_ifs with hmem <;> simp [ih]

theorem fresh_append : fresh seen (l ++ l') = fresh seen l ++ fresh (seen ++ fresh seen l) l' := by
  induction l generalizing seen with
  | nil => simp [fresh]
  | cons a l ih =>
    rw [cons_append, fresh, fresh]
    split_ifs with hmem <;> simp [ih]

theorem mem_append_fresh : a ∈ seen ++ fresh seen l ↔ a ∈ seen ∨ a ∈ l := by
  induction l generalizing seen with
  | nil => simp [fresh]
  | cons b l ih =>
    rw [fresh]
    split_ifs with hmem
    · rw [ih]
      grind
    · rw [append_cons, ih]
      grind

theorem nodup_append_fresh (h : seen.Nodup) : (seen ++ fresh seen l).Nodup := by
  induction l generalizing seen with
  | nil => simpa [fresh]
  | cons b l ih =>
    rw [fresh]
    split_ifs with hmem
    · exact ih h
    · rw [append_cons]
      exact ih (by simpa [nodup_append] using ⟨h, fun a ha hab => hmem (hab ▸ ha)⟩)

/-- A whole depth of the queue, one round for each node. -/
theorem breadthFirst_level (hd : d < limit) (level later seen : List α) :
    breadthFirst children limit (level.length + n) (level.map (·, d) ++ later.map (·, d + 1)) seen =
      breadthFirst children limit n ((later ++ fresh seen (level.flatMap children)).map (·, d + 1))
        (seen ++ fresh seen (level.flatMap children)) := by
  induction level generalizing later seen with
  | nil => simp [fresh]
  | cons node level ih =>
    rw [length_cons, Nat.add_right_comm, map_cons, cons_append, breadthFirst,
      if_neg (Nat.not_le.2 hd), foldl_meet,
      append_assoc, ← map_append, ih, flatMap_cons, fresh_append, append_assoc, append_assoc]

/-- The last depth. -/
theorem breadthFirst_last :
    breadthFirst children limit (level.length + 1 + n) (level.map (·, limit)) seen =
    some (if ∀ a ∈ level, children a = [] then some seen else none) := by
  induction level with
  | nil => simp [Nat.add_comm 1, breadthFirst]
  | cons node level ih =>
    rw [length_cons, Nat.add_right_comm _ 1 1, Nat.add_right_comm _ 1 n, map_cons, breadthFirst,
      if_pos limit.le_refl, ih]
    split_ifs <;> simp_all

theorem Layer.next (h : Layer children root n level seen) :
    Layer children root (n + 1) (fresh seen (level.flatMap children))
      (seen ++ fresh seen (level.flatMap children)) := by
  have hnd := nodup_append_fresh (l := level.flatMap children) h.once
  have hmet : ∀ a, a ∈ seen ++ fresh seen (level.flatMap children) ↔ Within children root (n + 1) a := by
    intro a
    rw [within_succ_iff, mem_append_fresh, h.met]
    simp only [mem_flatMap, h.queued]
  refine ⟨fun a => ?_, hmet, hnd⟩
  rw [AtDistance, ← hmet, ← h.met, mem_append]
  exact ⟨fun ha => ⟨.inr ha, fun hs => (nodup_append.1 hnd).2.2 a hs a ha rfl⟩,
    fun ha => ha.1.resolve_left ha.2⟩

/-- From a queue that holds one depth the search ends as it should. Induction on the depths left. -/
theorem Layer.searched (h : Layer children root d level seen) (hd : d ≤ limit) :
    ∃ result, Searched children root limit result ∧
      ∃ rounds, ∀ n, breadthFirst children limit (rounds + n) (level.map (·, d)) seen = some result := by
  induction hr : limit - d generalizing d level seen with
  | zero =>
    obtain rfl : d = limit := by omega
    refine ⟨_, ⟨?_, ?_⟩, _, fun n => breadthFirst_last⟩
    · simp only [ite_eq_right_iff, reduceCtorEq, imp_false, h.queued]
      push Not
      rfl
    · intro l hl
      split_ifs at hl with hls <;> cases hl
      refine ⟨h.once, fun a => (h.met a).trans ⟨reach_of_within, within_of_reach fun b hb => ?_⟩⟩
      exact hls b ((h.queued b).2 hb)
  | succ r ih =>
    obtain ⟨result, hres, rounds, hrun⟩ := ih h.next (by omega) (by omega)
    refine ⟨result, hres, level.length + rounds, fun n => ?_⟩
    rw [Nat.add_assoc, ← hrun n]
    simpa using breadthFirst_level (show d < limit by omega) level [] seen

/-- More rounds change nothing. -/
theorem breadthFirst_mono (h : breadthFirst children limit n queue seen = some result) (m : ℕ) :
    breadthFirst children limit (n + m) queue seen = some result := by
  induction n generalizing queue seen with
  | zero => cases h
  | succ n ih =>
    rw [Nat.add_right_comm]
    rcases queue with _ | ⟨⟨node, depth⟩, queue⟩
    · exact h
    · rw [breadthFirst] at h ⊢
      split_ifs at h ⊢
      · exact ih h
      · exact h
      · exact ih h

theorem subset_breadthFirst (h : breadthFirst children limit n queue seen = some (some l)) : seen ⊆ l := by
  induction n generalizing queue seen with
  | zero => cases h
  | succ n ih =>
    rcases queue with _ | ⟨⟨node, depth⟩, queue⟩
    · cases h
      exact List.Subset.refl _
    · rw [breadthFirst, foldl_meet] at h
      split_ifs at h
      · exact ih h
      · cases h
      · exact (append_subset.1 (ih h)).1

variable (children root limit) in
theorem searched_root : ∃ result, Searched children root limit result ∧
    ∃ rounds, ∀ n, breadthFirst children limit (rounds + n) [(root, 0)] [root] = some result := by
  have h : Layer children root 0 [root] [root] :=
    ⟨fun _ => mem_singleton, fun _ => mem_singleton, nodup_singleton _⟩
  exact h.searched limit.zero_le

variable (children root limit) in
/-- **The search ends.** -/
theorem breadthFirst_ends :
    ∃ rounds, ∀ n, rounds ≤ n → (breadthFirst children limit n [(root, 0)] [root]).isSome := by
  obtain ⟨_, -, rounds, hrun⟩ := searched_root children root limit
  refine ⟨rounds, fun n hn => ?_⟩
  obtain ⟨m, rfl⟩ := Nat.exists_eq_add_of_le hn
  rw [hrun m]
  rfl

/-- **What the search comes to**, in however many rounds. -/
theorem breadthFirst_searched (h : breadthFirst children limit n [(root, 0)] [root] = some result) :
    Searched children root limit result := by
  obtain ⟨result', hres, rounds, hrun⟩ := searched_root children root limit
  have heq := breadthFirst_mono h rounds
  rw [Nat.add_comm, hrun n] at heq
  exact Option.some.inj heq ▸ hres

end Graph
