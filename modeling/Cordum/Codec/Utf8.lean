import Mathlib.Data.List.Basic

/-!
# UTF-8 in a byte string

A byte string is read rune by rune, as Go's `utf8.DecodeRune` does: a byte that begins no rune is a
piece of its own, and the next byte is looked at afresh.
-/

/-- A string of Go: any bytes. -/
abbrev Bytes := List UInt8

namespace Utf8

open List

/-- What a lead byte asks for: how many bytes follow, and the range of the first. -/
structure Lead where
  tail : ℕ
  low : UInt8
  high : UInt8

/-- The lead bytes of runes of more than one byte, with Go's `acceptRanges`. -/
def lead (b : UInt8) : Option Lead :=
  if b < 0xC2 then none
  else if b ≤ 0xDF then some ⟨1, 0x80, 0xBF⟩
  else if b = 0xE0 then some ⟨2, 0xA0, 0xBF⟩
  else if b = 0xED then some ⟨2, 0x80, 0x9F⟩
  else if b ≤ 0xEF then some ⟨2, 0x80, 0xBF⟩
  else if b = 0xF0 then some ⟨3, 0x90, 0xBF⟩
  else if b ≤ 0xF3 then some ⟨3, 0x80, 0xBF⟩
  else if b = 0xF4 then some ⟨3, 0x80, 0x8F⟩
  else none

/-- A continuation byte. -/
def isCont (b : UInt8) : Bool := 0x80 ≤ b && b ≤ 0xBF

/-- These bytes may follow the lead byte. -/
def Lead.fits (l : Lead) : Bytes → Bool
  | [] => false
  | c :: cs => l.low ≤ c && c ≤ l.high && cs.all isCont

/-- How many of the bytes `s` complete the rune that `b` begins, if it does. -/
def tailLen (b : UInt8) (s : Bytes) : Option ℕ :=
  if b < 0x80 then some 0
  else
    match lead b with
    | none => none
    | some l => if l.tail ≤ s.length ∧ l.fits (s.take l.tail) then some l.tail else none

/-- Some bytes that are one rune. -/
def IsRune (r : Bytes) : Prop := ∃ b t, r = b :: t ∧ tailLen b t = some t.length

/-- A piece of a byte string: a rune, or a byte that is part of none. -/
inductive Piece
  | rune (r : Bytes)
  | stray (b : UInt8)
deriving DecidableEq

/-- The pieces from the position `skip` on. -/
def piecesFrom : ℕ → Bytes → List Piece
  | _, [] => []
  | skip + 1, _ :: s => piecesFrom skip s
  | 0, b :: s =>
    match tailLen b s with
    | none => .stray b :: piecesFrom 0 s
    | some n => .rune (b :: s.take n) :: piecesFrom n s

/-- The runes and the stray bytes of a string, in order. -/
def pieces (s : Bytes) : List Piece := piecesFrom 0 s

namespace Piece

/-- The bytes of a piece. -/
def bytes : Piece → Bytes
  | rune r => r
  | stray b => [b]

/-- The bytes of U+FFFD. -/
def replacement : Bytes := [0xEF, 0xBF, 0xBD]

/-- A stray byte becomes U+FFFD. -/
def clean : Piece → Piece
  | rune r => rune r
  | stray _ => rune replacement

/-- A byte that is no part of a character. -/
def isStray : Piece → Bool
  | rune _ => false
  | stray _ => true

theorem clean_eq_self {p : Piece} (h : p.isStray = false) : p.clean = p := by
  cases p with
  | rune r => rfl
  | stray b => cases h

end Piece

/-- The string that a JSON text keeps of `s`: its stray bytes are U+FFFD. -/
def scrub (s : Bytes) : Bytes := (pieces s).flatMap fun p => p.clean.bytes

/-- No byte is stray. -/
def Valid (s : Bytes) : Prop := ∀ p ∈ pieces s, p.isStray = false

instance (s : Bytes) : Decidable (Valid s) :=
  inferInstanceAs (Decidable (∀ p ∈ pieces s, p.isStray = false))

/-- `utf8.AppendRune`: a surrogate or a number out of range is written as U+FFFD. -/
def encodeRune (c : ℕ) : Bytes :=
  if c < 0x80 then [.ofNat c]
  else if c < 0x800 then [.ofNat (0xC0 + c / 64), .ofNat (0x80 + c % 64)]
  else if (0xD800 ≤ c ∧ c < 0xE000) ∨ 0x110000 ≤ c then Piece.replacement
  else if c < 0x10000 then [.ofNat (0xE0 + c / 4096), .ofNat (0x80 + c / 64 % 64), .ofNat (0x80 + c % 64)]
  else
    [.ofNat (0xF0 + c / 262144), .ofNat (0x80 + c / 4096 % 64),
      .ofNat (0x80 + c / 64 % 64), .ofNat (0x80 + c % 64)]

/-- The bytes of an ASCII text. -/
def ascii (s : String) : Bytes := s.toList.map fun c => .ofNat c.toNat

/-! ## Reading rune by rune -/

variable {b : UInt8} {s t r : Bytes} {n : ℕ}

theorem tailLen_ascii (hb : b < 0x80) (s : Bytes) : tailLen b s = some 0 := if_pos hb

theorem tailLen_le (h : tailLen b s = some n) : n ≤ s.length := by
  unfold tailLen at h
  split at h
  · cases h; exact Nat.zero_le _
  split at h
  · cases h
  · split at h
    · cases h; next hfit => exact hfit.1
    · cases h

theorem tailLen_of_take (h : tailLen b s = some n) (ht : t.take n = s.take n) (hlen : n ≤ t.length) :
    tailLen b t = some n := by
  unfold tailLen at h ⊢
  split at h
  · next hb => cases h; rw [if_pos hb]
  next hb =>
  rw [if_neg hb]
  cases hl : lead b with
  | none => rw [hl] at h; cases h
  | some l =>
    rw [hl] at h
    dsimp only at h ⊢
    split at h
    · next hfit =>
      cases h
      rw [if_pos ⟨hlen, by rw [ht]; exact hfit.2⟩]
    · cases h

theorem IsRune.of_tailLen (h : tailLen b s = some n) : IsRune (b :: s.take n) := by
  have hlen : (s.take n).length = n := length_take_of_le (tailLen_le h)
  refine ⟨b, s.take n, rfl, ?_⟩
  rw [hlen]
  exact tailLen_of_take h (by rw [take_take, Nat.min_self]) (Nat.le_of_eq hlen.symm)

theorem tailLen_append (h : tailLen b t = some t.length) : tailLen b (t ++ s) = some t.length :=
  tailLen_of_take h (by simp) (by simp)

theorem isRune_ascii (hb : b < 0x80) : IsRune [b] := ⟨b, [], rfl, tailLen_ascii hb []⟩

theorem piecesFrom_eq (n : ℕ) (s : Bytes) : piecesFrom n s = pieces (s.drop n) := by
  induction n generalizing s with
  | zero => rfl
  | succ n ih =>
    cases s with
    | nil => rfl
    | cons b s => exact ih s

@[simp] theorem pieces_nil : pieces [] = [] := rfl

theorem pieces_cons :
    pieces (b :: s) =
      match tailLen b s with
      | none => .stray b :: pieces s
      | some n => .rune (b :: s.take n) :: pieces (s.drop n) := by
  unfold pieces
  rw [piecesFrom]
  cases tailLen b s with
  | none => rfl
  | some n => exact congrArg _ (piecesFrom_eq n s)

theorem pieces_rune_append (hr : IsRune r) (s : Bytes) : pieces (r ++ s) = .rune r :: pieces s := by
  obtain ⟨b, t, rfl, ht⟩ := hr
  rw [cons_append, pieces_cons, tailLen_append ht]
  simp

theorem pieces_induction {motive : Bytes → Prop} (nil : motive [])
    (rune : ∀ r s, IsRune r → motive s → motive (r ++ s))
    (stray : ∀ b s, tailLen b s = none → motive s → motive (b :: s)) (s : Bytes) : motive s := by
  induction hn : s.length using Nat.strongRecOn generalizing s with
  | ind n ih =>
    cases s with
    | nil => exact nil
    | cons b s =>
      cases ht : tailLen b s with
      | none => exact stray b s ht (ih s.length (by simp at hn; omega) s rfl)
      | some k =>
        have hrs : motive (s.drop k) := ih (s.drop k).length (by simp at hn ⊢; omega) _ rfl
        have heq : (b :: s.take k) ++ s.drop k = b :: s := by rw [cons_append, take_append_drop]
        exact heq ▸ rune _ _ (IsRune.of_tailLen ht) hrs

theorem pieces_stray (h : tailLen b s = none) : pieces (b :: s) = .stray b :: pieces s := by
  rw [pieces_cons, h]

theorem isRune_of_mem_pieces (h : .rune r ∈ pieces s) : IsRune r := by
  induction s using pieces_induction with
  | nil => simp at h
  | rune r' s hr ih =>
    rw [pieces_rune_append hr, mem_cons] at h
    rcases h with h | h
    · cases h; exact hr
    · exact ih h
  | stray b s hb ih =>
    rw [pieces_stray hb, mem_cons] at h
    rcases h with h | h
    · cases h
    · exact ih h

theorem flatMap_pieces (s : Bytes) : (pieces s).flatMap Piece.bytes = s := by
  induction s using pieces_induction with
  | nil => rfl
  | rune r s hr ih => rw [pieces_rune_append hr, flatMap_cons, ih]; rfl
  | stray b s hb ih => rw [pieces_stray hb, flatMap_cons, ih]; rfl

/-- Runes written one after the other are read back. -/
theorem pieces_flatMap {ps : List Piece} (h : ∀ p ∈ ps, ∃ r, p = .rune r ∧ IsRune r) :
    pieces (ps.flatMap Piece.bytes) = ps := by
  induction ps with
  | nil => rfl
  | cons p ps ih =>
    obtain ⟨r, rfl, hr⟩ := h p (mem_cons_self ..)
    rw [flatMap_cons, Piece.bytes, pieces_rune_append hr, ih fun q hq => h q (mem_cons_of_mem _ hq)]

/-! ## Scrubbing -/

theorem scrub_eq_flatMap : scrub s = ((pieces s).map Piece.clean).flatMap Piece.bytes := by
  rw [scrub, flatMap_map]

theorem pieces_scrub : pieces (scrub s) = (pieces s).map Piece.clean := by
  rw [scrub_eq_flatMap]
  refine pieces_flatMap fun p hp => ?_
  obtain ⟨q, hq, rfl⟩ := mem_map.1 hp
  cases q with
  | rune r => exact ⟨r, rfl, isRune_of_mem_pieces hq⟩
  | stray b => exact ⟨_, rfl, 0xEF, [0xBF, 0xBD], rfl, by decide⟩

theorem Valid.scrub_eq (h : Valid s) : scrub s = s := by
  have hcle : (pieces s).map Piece.clean = pieces s := by
    conv_rhs => rw [← map_id (pieces s)]
    exact map_congr_left fun p hp => Piece.clean_eq_self (h p hp)
  rw [scrub_eq_flatMap, hcle, flatMap_pieces]

@[simp] theorem scrub_nil : scrub [] = [] := rfl

theorem valid_nil : Valid [] := nofun

theorem valid_of_ascii (h : ∀ b ∈ s, b < 0x80) : Valid s := by
  induction s with
  | nil => exact valid_nil
  | cons b s ih =>
    intro p hp
    rw [show b :: s = [b] ++ s from rfl, pieces_rune_append (isRune_ascii (h b (mem_cons_self ..)))] at hp
    rcases mem_cons.1 hp with rfl | hp
    · rfl
    · exact ih (fun c hc => h c (mem_cons_of_mem _ hc)) p hp

theorem valid_scrub : Valid (scrub s) := by
  intro p hp
  rw [pieces_scrub] at hp
  obtain ⟨q, -, rfl⟩ := mem_map.1 hp
  cases q <;> rfl

end Utf8
