import Cordum.Text.GoString

/-!
# Texts with separators

`strings.Join` and `strings.Split` with a one-character separator, and `strings.NewReplacer` with
characters. A word without the separator that goes into a joined text comes out when it is split
(`mem_split_join`); a text joined from trimmed words is trimmed (`trimSpace_join`).
-/

namespace GoString

open List

variable {c sep new : Char} {olds : List Char} {s w : String} {words : List String}

/-- `strings.Join`. -/
def join (sep : Char) (words : List String) : String :=
  String.ofList ([sep].intercalate (words.map String.toList))

/-- `strings.Split`. -/
def split (sep : Char) (s : String) : List String := (s.toList.splitOn sep).map String.ofList

/-- `strings.NewReplacer`, with characters for characters. -/
def replaceAll (olds : List Char) (new : Char) (s : String) : String :=
  String.ofList (s.toList.map fun c => if olds.contains c then new else c)

theorem join_singleton : join sep [w] = w := by
  simp [join]

theorem toList_join_cons {w' : String} :
    (join sep (w :: w' :: words)).toList = w.toList ++ sep :: (join sep (w' :: words)).toList := by
  simp [join]

/-- Replacing the characters of a joined text replaces them in its words. -/
theorem replaceAll_join :
    replaceAll olds sep (join sep words) = join sep (words.map (replaceAll olds sep)) := by
  induction words with
  | nil => rfl
  | cons w words ih =>
    cases words with
    | nil => rw [map_cons, map_nil, join_singleton, join_singleton]
    | cons w' words =>
      rw [← String.toList_inj, map_cons, map_cons, toList_join_cons, ← map_cons, ← ih]
      unfold replaceAll
      rw [String.toList_ofList, toList_join_cons, map_append, map_cons]
      simp

theorem replaceAll_eq_self (h : ∀ c ∈ olds, c ∉ s.toList) : replaceAll olds new s = s := by
  have hmap : s.toList.map (fun c => if olds.contains c then new else c) = s.toList := by
    refine (map_congr_left fun c hc => ?_).trans (map_id _)
    have hno : olds.contains c = false := by
      rw [contains_eq_mem, decide_eq_false_iff_not]
      exact fun hmem => h c hmem hc
    rw [hno]
    rfl
  rw [replaceAll, hmap, String.ofList_toList]

theorem not_mem_replaceAll (hc : c ∈ olds) (hne : c ≠ new) : c ∉ (replaceAll olds new s).toList := by
  rw [replaceAll, String.toList_ofList]
  intro hmem
  obtain ⟨c', -, hc'⟩ := mem_map.1 hmem
  split at hc'
  · exact hne hc'.symm
  next hno => exact hno (by rw [hc']; simpa using hc)

theorem mem_splitOnP {α : Type} {p : α → Bool} {l w : List α}
    (hw : w ∈ l.splitOnP p) {c : α} (hc : c ∈ w) :
    c ∈ l ∧ p c = false := by
  induction l generalizing w with
  | nil =>
    rw [splitOnP_nil, mem_singleton] at hw
    rw [hw] at hc
    cases hc
  | cons a l ih =>
    rw [splitOnP_cons_eq_if_modifyHead] at hw
    split at hw
    · rcases mem_cons.1 hw with rfl | hw
      · cases hc
      · exact (ih hw hc).imp_left (mem_cons_of_mem a)
    next hpa =>
      cases hl : l.splitOnP p with
      | nil =>
        rw [hl] at hw
        cases hw
      | cons w' rest =>
        rw [hl] at hw
        rcases mem_cons.1 hw with rfl | hw
        · rcases mem_cons.1 hc with rfl | hc
          · exact ⟨mem_cons_self, Bool.eq_false_iff.2 hpa⟩
          · exact (ih (by rw [hl]; exact mem_cons_self) hc).imp_left (mem_cons_of_mem a)
        · exact (ih (by rw [hl]; exact mem_cons_of_mem _ hw) hc).imp_left (mem_cons_of_mem a)

theorem mem_of_mem_split (hw : w ∈ split sep s) (hc : c ∈ w.toList) : c ∈ s.toList ∧ c ≠ sep := by
  obtain ⟨part, hpr, rfl⟩ := mem_map.1 hw
  rw [String.toList_ofList] at hc
  obtain ⟨hmem, hne⟩ := mem_splitOnP hpr hc
  exact ⟨hmem, fun heq => by simp [heq] at hne⟩

/-- **A word without the separator comes out of a joined text as it went in.** -/
theorem mem_split_join (hsep : sep ∉ w.toList) (hw : w ∈ words) : w ∈ split sep (join sep words) := by
  have hsf : (w.toList).splitOn sep = [w.toList] := by
    refine splitOnP_eq_singleton fun c hc => ?_
    exact beq_false_of_ne fun heq => hsep (heq ▸ hc)
  induction words with
  | nil => cases hw
  | cons a words ih =>
    cases words with
    | nil =>
      obtain rfl := mem_singleton.1 hw
      rw [join_singleton, split, hsf, map_singleton, String.ofList_toList]
      exact mem_singleton.2 rfl
    | cons a' words =>
      have happ : split sep (join sep (a :: a' :: words)) = split sep a ++ split sep
          (join sep (a' :: words)) := by
        have hsp := splitOnP_append_cons (p := fun x => x == sep) a.toList (join sep (a' :: words)).toList
          (beq_self_eq_true sep)
        rw [split, toList_join_cons, splitOn, hsp, map_append]
        rfl
      rw [happ]
      rcases mem_cons.1 hw with rfl | hw
      · refine mem_append_left _ ?_
        rw [split, hsf, map_singleton, String.ofList_toList]
        exact mem_singleton.2 rfl
      · exact mem_append_right _ (ih hw)

/-! ## Trimmed texts -/

theorem mem_of_mem_trimSpace (h : c ∈ (trimSpace s).toList) : c ∈ s.toList := by
  rw [trimSpace, String.toList_ofList, mem_reverse] at h
  have hbk := (dropWhile_suffix isSpace).subset h
  exact (dropWhile_suffix isSpace).subset (mem_reverse.1 hbk)

/-- A text is trimmed when its first and its last character are not spaces. -/
theorem trimSpace_eq_self_iff : trimSpace s = s ↔
    (∀ c, s.toList.head? = some c → isSpace c = false) ∧ ∀ c,
    s.toList.getLast? = some c → isSpace c = false := by
  have hfrt : (∀ c, s.toList.head? = some c → isSpace c = false) ↔
      s.toList.dropWhile isSpace = s.toList := by
    cases hl : s.toList with
    | nil => simp
    | cons a l =>
      simp
  have hbk : (∀ c, s.toList.getLast? = some c → isSpace c = false) ↔
      s.toList.rdropWhile isSpace = s.toList := by
    rw [rdropWhile_eq_self_iff]
    constructor
    · exact fun h hne => by simpa using h _ (getLast?_eq_getLast_of_ne_nil hne)
    · intro h c hc
      have hne : s.toList ≠ [] := fun hnil => by simp [hnil] at hc
      rw [getLast?_eq_getLast_of_ne_nil hne] at hc
      cases hc
      simpa using h hne
  rw [hfrt, hbk]
  have htr : (trimSpace s).toList = (s.toList.dropWhile isSpace).rdropWhile isSpace := by
    rw [trimSpace, String.toList_ofList]
    rfl
  rw [← String.toList_inj, htr]
  constructor
  · intro h
    -- both ends only shorten the text
    have hle := congrArg length h
    have h1 := (List.rdropWhile_prefix isSpace (s.toList.dropWhile isSpace)).length_le
    have h2 := (dropWhile_suffix (l := s.toList) isSpace).length_le
    have hfrt : s.toList.dropWhile isSpace = s.toList :=
      (dropWhile_suffix isSpace).eq_of_length (by omega)
    rw [hfrt] at h
    exact ⟨hfrt, h⟩
  · rintro ⟨h1, h2⟩
    rw [h1, h2]

theorem toList_ne_nil (h : s ≠ "") : s.toList ≠ [] := by
  intro hnil
  exact h (by rw [← String.toList_inj, hnil]; rfl)

theorem join_ne_nil (sep : Char) (hw : w ≠ "") (words : List String) :
    (join sep (w :: words)).toList ≠ [] := by
  cases words with
  | nil =>
    rw [join_singleton]
    exact toList_ne_nil hw
  | cons w' words => simp [toList_join_cons]

/-- **A text joined from trimmed words is trimmed.** -/
theorem trimSpace_join (h : ∀ w ∈ words, trimSpace w = w ∧ w ≠ "") :
    trimSpace (join sep words) = join sep words := by
  induction words with
  | nil => exact trimSpace_empty
  | cons w words ih =>
    obtain ⟨hw, hne⟩ := h w mem_cons_self
    cases words with
    | nil => rw [join_singleton, hw]
    | cons w' words =>
      have hrs := ih fun v hv => h v (mem_cons_of_mem _ hv)
      have hne' := join_ne_nil sep (h w' (by simp)).2 words
      rw [trimSpace_eq_self_iff] at hw hrs ⊢
      rw [toList_join_cons]
      refine ⟨fun c hc => hw.1 c ?_, fun c hc => hrs.2 c ?_⟩
      · rwa [head?_append_of_ne_nil _ (toList_ne_nil hne)] at hc
      · rwa [getLast?_append_of_ne_nil _ (cons_ne_nil _ _), getLast?_cons_of_ne_nil hne'] at hc

end GoString
