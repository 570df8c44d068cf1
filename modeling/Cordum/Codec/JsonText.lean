import Cordum.Codec.Utf8
import Mathlib.Data.FinEnum

/-!
# JSON texts as Go's `encoding/json` writes and reads them

Strings are byte strings. Writing escapes the control characters, the quote, the backslash, `<`, `>`,
`&`, U+2028 and U+2029, and writes a byte that is part of no rune as the escape of U+FFFD; reading
decodes every escape and replaces such a byte by U+FFFD.
-/

namespace JsonText

open Utf8 List Piece Option Nat

/-- A JSON document; a number is kept as its literal. -/
inductive Value
  | null
  | bool (b : Bool)
  | num (literal : Bytes)
  | str (s : Bytes)
  | arr (items : List Value)
  | obj (members : List (Bytes × Value))

/-! ## Writing -/

/-- A digit of a lower-case hexadecimal number. -/
def hexDigit (n : ℕ) : UInt8 := if n < 10 then .ofNat (0x30 + n) else .ofNat (0x57 + n)

variable (b : UInt8) (s : Bytes)

/-- An ASCII byte of a string: as it is when it is in `htmlSafeSet`. -/
def escapeByte : Bytes :=
  if b = 0x5C ∨ b = 0x22 then [0x5C, b]
  else if b = 0x08 then [0x5C, 0x62]
  else if b = 0x0C then [0x5C, 0x66]
  else if b = 0x0A then [0x5C, 0x6E]
  else if b = 0x0D then [0x5C, 0x72]
  else if b = 0x09 then [0x5C, 0x74]
  else if b < 0x20 ∨ b = 0x3C ∨ b = 0x3E ∨ b = 0x26 then
    [0x5C, 0x75, 0x30, 0x30, hexDigit (b.toNat / 16), hexDigit (b.toNat % 16)]
  else [b]

/-- A piece of a string. -/
def escape : Piece → Bytes
  | .stray _ => [0x5C, 0x75, 0x66, 0x66, 0x66, 0x64]
  | .rune [b] => escapeByte b
  | .rune r =>
    -- the line separators, which JavaScript takes for line ends
    if r = [0xE2, 0x80, 0xA8] then [0x5C, 0x75, 0x32, 0x30, 0x32, 0x38]
    else if r = [0xE2, 0x80, 0xA9] then [0x5C, 0x75, 0x32, 0x30, 0x32, 0x39]
    else r

/-- A string between its quotes. -/
def quote : Bytes := 0x22 :: ((pieces s).flatMap escape ++ [0x22])

mutual

/-- The text of a document. -/
def render : Value → Bytes
  | .null => [0x6E, 0x75, 0x6C, 0x6C]
  | .bool true => [0x74, 0x72, 0x75, 0x65]
  | .bool false => [0x66, 0x61, 0x6C, 0x73, 0x65]
  | .num literal => literal
  | .str s => quote s
  | .arr [] => [0x5B, 0x5D]
  | .arr (v :: vs) => 0x5B :: (render v ++ renderItems vs)
  | .obj [] => [0x7B, 0x7D]
  | .obj ((k, v) :: ms) => 0x7B :: (quote k ++ 0x3A :: (render v ++ renderMembers ms))

/-- The items after the first, up to the closing bracket. -/
def renderItems : List Value → Bytes
  | [] => [0x5D]
  | v :: vs => 0x2C :: (render v ++ renderItems vs)

/-- The members after the first, up to the closing brace. -/
def renderMembers : List (Bytes × Value) → Bytes
  | [] => [0x7D]
  | (k, v) :: ms => 0x2C :: (quote k ++ 0x3A :: (render v ++ renderMembers ms))

end

/-! ## Reading -/

/-- The value of a hexadecimal digit. -/
def hexVal : Option ℕ :=
  if 0x30 ≤ b ∧ b ≤ 0x39 then some (b.toNat - 0x30)
  else if 0x61 ≤ b ∧ b ≤ 0x66 then some (b.toNat - 0x57)
  else if 0x41 ≤ b ∧ b ≤ 0x46 then some (b.toNat - 0x37)
  else none

/-- `getu4`: four hexadecimal digits. -/
def hex4 : Bytes → Option (ℕ × Bytes)
  | a :: b :: c :: d :: s => do
    let a ← hexVal a
    let b ← hexVal b
    let c ← hexVal c
    let d ← hexVal d
    some (4096 * a + 256 * b + 16 * c + d, s)
  | _ => none

/-- The escapes of one letter. -/
def shortEscape (c : UInt8) : Option UInt8 :=
  if c = 0x22 ∨ c = 0x5C ∨ c = 0x2F then some c
  else if c = 0x62 then some 0x08
  else if c = 0x66 then some 0x0C
  else if c = 0x6E then some 0x0A
  else if c = 0x72 then some 0x0D
  else if c = 0x74 then some 0x09
  else none

/-- The rune of an escape with the code `u`, and what is left. A surrogate needs its other half. -/
def codeUnit (u : ℕ) (s : Bytes) : Bytes × Bytes :=
  if 0xD800 ≤ u ∧ u < 0xE000 then
    match s with
    | b :: c :: t =>
      match (if b = 0x5C ∧ c = 0x75 then hex4 t else none) with
      | some (v, rest) =>
        if u < 0xDC00 ∧ 0xDC00 ≤ v ∧ v < 0xE000 then
          (encodeRune (0x10000 + 0x400 * (u - 0xD800) + (v - 0xDC00)), rest)
        else (Piece.replacement, s)
      | none => (Piece.replacement, s)
    | _ => (Piece.replacement, s)
  else (encodeRune u, s)

/-- The string up to its closing quote, decoded, and what is left, in at most so many steps. -/
def unquote : ℕ → Bytes → Option (Bytes × Bytes)
  | 0, _ => none
  | _ + 1, [] => none
  | n + 1, b :: s =>
    if b = 0x22 then some ([], s)
    else if b = 0x5C then
      match s with
      | [] => none
      | c :: s =>
        if c = 0x75 then
          match hex4 s with
          | none => none
          | some (u, s) => (unquote n (codeUnit u s).2).map fun r => ((codeUnit u s).1 ++ r.1, r.2)
        else
          match shortEscape c with
          | none => none
          | some c => (unquote n s).map fun r => (c :: r.1, r.2)
    else if b < 0x20 then none
    else
      match tailLen b s with
      | none => (unquote n s).map fun r => (Piece.replacement ++ r.1, r.2)
      | some k => (unquote n (s.drop k)).map fun r => (b :: s.take k ++ r.1, r.2)

/-- White space of JSON. -/
def isSpace : Bool := b = 0x20 || b = 0x09 || b = 0x0A || b = 0x0D

/-- A text without the white space at its front. -/
def skipSpace : Bytes := s.dropWhile isSpace

/-- A decimal digit. -/
def isDigit : Bool := 0x30 ≤ b && b ≤ 0x39

/-- The bytes of number literals. -/
def isNumByte : Bool := isDigit b || b = 0x2D || b = 0x2B || b = 0x2E || b = 0x65 || b = 0x45

/-- An exponent, or nothing. -/
def isExponent : Bytes → Bool
  | [] => true
  | e :: s =>
    (e = 0x65 || e = 0x45) &&
      match s with
      | [] => false
      | sign :: ds =>
        if sign = 0x2D || sign = 0x2B then ds ≠ [] && ds.all isDigit else (sign :: ds).all isDigit

/-- A fraction and an exponent, either of them left out. -/
def isFraction : Bytes → Bool
  | [] => true
  | dot :: s =>
    if dot = 0x2E then s.takeWhile isDigit ≠ [] && isExponent (s.dropWhile isDigit)
      else isExponent (dot :: s)

/-- A number literal without its sign. -/
def isUnsigned : Bytes → Bool
  | [] => false
  | d :: s => if d = 0x30 then isFraction s else isDigit d && isFraction (s.dropWhile isDigit)

/-- A number literal. -/
def isNumber : Bytes → Bool
  | [] => false
  | b :: s => if b = 0x2D then isUnsigned s else isUnsigned (b :: s)

/-- The rest of `s` after `word`. -/
def afterWord (word s : Bytes) : Option Bytes :=
  if word.isPrefixOf s then some (s.drop word.length) else none

mutual

/-- A document at the front of a text, and what is left, in at most so many steps. -/
def parseValue : ℕ → Bytes → Option (Value × Bytes)
  | 0, _ => none
  | n + 1, s =>
    match skipSpace s with
    | [] => none
    | b :: s =>
      if b = 0x22 then (unquote (s.length + 1) s).map fun r => (.str r.1, r.2)
      else if b = 0x5B then
        match skipSpace s with
        | [] => none
        | c :: t =>
          if c = 0x5D then some (.arr [], t)
          else
            match parseValue n (c :: t) with
            | none => none
            | some (v, s) => (parseItems n s).map fun r => (.arr (v :: r.1), r.2)
      else if b = 0x7B then
        match skipSpace s with
        | [] => none
        | c :: t =>
          if c = 0x7D then some (.obj [], t)
          else
            match parseMember n (c :: t) with
            | none => none
            | some (m, s) => (parseMembers n s).map fun r => (.obj (m :: r.1), r.2)
      else if b = 0x6E then (afterWord [0x6E, 0x75, 0x6C, 0x6C] (b :: s)).map fun r => (.null, r)
      else if b = 0x74 then (afterWord [0x74, 0x72, 0x75, 0x65] (b :: s)).map fun r => (.bool true, r)
      else if b = 0x66 then (afterWord [0x66, 0x61, 0x6C, 0x73, 0x65] (b :: s)).map
        fun r => (.bool false, r)
      else if isNumber ((b :: s).takeWhile isNumByte) then
        some (.num ((b :: s).takeWhile isNumByte), (b :: s).dropWhile isNumByte)
      else none

/-- More items, each after a comma, up to the closing bracket. -/
def parseItems : ℕ → Bytes → Option (List Value × Bytes)
  | 0, _ => none
  | n + 1, s =>
    match skipSpace s with
    | [] => none
    | b :: s =>
      if b = 0x5D then some ([], s)
      else if b = 0x2C then
        match parseValue n s with
        | none => none
        | some (v, s) => (parseItems n s).map fun r => (v :: r.1, r.2)
      else none

/-- A key, a colon and a value. -/
def parseMember : ℕ → Bytes → Option ((Bytes × Value) × Bytes)
  | 0, _ => none
  | n + 1, s =>
    match skipSpace s with
    | [] => none
    | b :: s =>
      if b = 0x22 then
        match unquote (s.length + 1) s with
        | none => none
        | some (k, s) =>
          match skipSpace s with
          | [] => none
          | c :: s => if c = 0x3A then (parseValue n s).map fun r => ((k, r.1), r.2) else none
      else none

/-- More members, each after a comma, up to the closing brace. -/
def parseMembers : ℕ → Bytes → Option (List (Bytes × Value) × Bytes)
  | 0, _ => none
  | n + 1, s =>
    match skipSpace s with
    | [] => none
    | b :: s =>
      if b = 0x7D then some ([], s)
      else if b = 0x2C then
        match parseMember n s with
        | none => none
        | some (m, s) => (parseMembers n s).map fun r => (m :: r.1, r.2)
      else none

end

/-- `json.Unmarshal` into a document: the whole text is one. -/
def parse : Option Value :=
  match parseValue (s.length + 1) s with
  | none => none
  | some (v, rest) => if skipSpace rest = [] then some v else none

/-! ## Strings are read back -/

theorem hexVal_hexDigit : ∀ n < 16, hexVal (hexDigit n) = some n := by decide

theorem hex4_byte : hex4 (0x30 :: 0x30 :: hexDigit (b.toNat / 16) :: hexDigit (b.toNat % 16) :: s) =
    some (b.toNat, s) := by
  have hlt := b.toNat_lt
  have hz : hexVal 0x30 = some 0 := by decide
  have hhg := hexVal_hexDigit (b.toNat / 16) (by omega)
  have hlow := hexVal_hexDigit (b.toNat % 16) (by omega)
  have hval : 4096 * 0 + 256 * 0 + 16 * (b.toNat / 16) + b.toNat % 16 = b.toNat := by omega
  simp only [hex4, hz, hhg, hlow, bind_eq_bind, bind_some, hval]

theorem codeUnit_ascii {b : UInt8} (hb : b < 0x80) {s : Bytes} : codeUnit b.toNat s = ([b], s) := by
  have hlt : b.toNat < 128 := UInt8.lt_iff_toNat_lt.1 hb
  rw [codeUnit.eq_def, if_neg (by omega), encodeRune, if_pos (by omega), UInt8.ofNat_toNat]

/-- A byte that neither ends the string nor escapes begins a rune or is stray. -/
theorem unquote_plain {b : UInt8} (hquo : b ≠ 0x22) (hsla : b ≠ 0x5C)
    (hctl : ¬ b < 0x20) {n : ℕ} {s : Bytes} :
    unquote (n + 1) (b :: s) =
      match tailLen b s with
      | none => (unquote n s).map fun r => (replacement ++ r.1, r.2)
      | some k => (unquote n (s.drop k)).map fun r => (b :: s.take k ++ r.1, r.2) := by
  rw [unquote.eq_def]
  dsimp only
  rw [if_neg hquo, if_neg hsla, if_neg hctl]

theorem unquote_code {n : ℕ} {s : Bytes} :
    unquote (n + 1) (0x5C :: 0x75 :: s) =
      match hex4 s with
      | none => none
      | some (u, s) => (unquote n (codeUnit u s).2).map fun r => ((codeUnit u s).1 ++ r.1, r.2) := by
  rfl

/-- One step of reading a string: `text` stands for the bytes `out`. -/
def Reads (text out : Bytes) : Prop :=
  ∀ n s, unquote (n + 1) (text ++ s) = (unquote n s).map fun r => (out ++ r.1, r.2)

theorem reads_escapeByte {b : UInt8} (hb : b < 0x80) : Reads (escapeByte b) [b] := by
  intro n s
  unfold escapeByte
  split
  · next h => rcases h with rfl | rfl <;> rfl
  split
  · next h => subst h; rfl
  split
  · next h => subst h; rfl
  split
  · next h => subst h; rfl
  split
  · next h => subst h; rfl
  split
  · next h => subst h; rfl
  split
  · simp only [cons_append]
    rw [unquote_code, hex4_byte]
    simp only [codeUnit_ascii hb]
    rfl
  · next hq _ _ _ _ _ hsf =>
    have hquo : b ≠ 0x22 := fun h => hq (.inr h)
    have hsla : b ≠ 0x5C := fun h => hq (.inl h)
    have hctl : ¬ b < 0x20 := fun h => hsf (.inl h)
    rw [cons_append, unquote_plain hquo hsla hctl, tailLen_ascii hb]
    rfl

variable {c : UInt8} {t literal k rest : Bytes} {n : ℕ} {p : Piece} {ps : List Piece}

theorem escape_rune_cons {b : UInt8} (h28 : b :: c :: t ≠ [0xE2, 0x80, 0xA8])
    (h29 : b :: c :: t ≠ [0xE2, 0x80, 0xA9]) : escape (.rune (b :: c :: t)) = b :: c :: t := by
  rw [escape, if_neg h28, if_neg h29]
  intro x hx
  cases hx

theorem not_ascii_of_tailLen {b : UInt8} {s : Bytes} (h : tailLen b s = some (n + 1)) : ¬ b < 0x80 := by
  intro hb
  rw [tailLen_ascii hb] at h
  cases h

theorem plain_of_not_ascii : ∀ b : UInt8, ¬ b < 0x80 → b ≠ 0x22 ∧ b ≠ 0x5C ∧ ¬ b < 0x20 := by
  decide +kernel

/-- Every piece is read as its cleaned bytes. -/
theorem reads_escape (hp : ∀ r, p = .rune r → IsRune r) : Reads (escape p) p.clean.bytes := by
  cases p with
  | stray b => intro n s; rfl
  | rune r =>
    obtain ⟨b, t, rfl, ht⟩ := hp r rfl
    cases t with
    | nil =>
      by_cases hb : b < 0x80
      · exact reads_escapeByte hb
      -- a lead byte alone is no rune
      unfold tailLen at ht
      rw [if_neg hb] at ht
      split at ht
      · cases ht
      next l hl =>
      split at ht
      · next hfit =>
        have hz : l.tail = 0 := le_zero.1 hfit.1
        exact absurd hfit.2 (by simp [Lead.fits])
      · cases ht
    | cons c t =>
      by_cases h28 : b :: c :: t = [0xE2, 0x80, 0xA8]
      · rw [h28]; intro n s; rfl
      by_cases h29 : b :: c :: t = [0xE2, 0x80, 0xA9]
      · rw [h29]; intro n s; rfl
      rw [escape_rune_cons h28 h29]
      obtain ⟨hquo, hsla, hctl⟩ := plain_of_not_ascii b (not_ascii_of_tailLen ht)
      intro n s
      rw [cons_append, unquote_plain hquo hsla hctl, tailLen_append ht]
      simp [clean, bytes]

theorem unquote_flatMap (hps : ∀ p ∈ ps, ∀ r, p = .rune r → IsRune r) (hn : ps.length < n) {s : Bytes} :
    unquote n (ps.flatMap escape ++ 0x22 :: s) = some (ps.flatMap fun p => p.clean.bytes, s) := by
  induction ps generalizing n with
  | nil =>
    cases n with
    | zero => cases hn
    | succ n => rfl
  | cons p ps ih =>
    cases n with
    | zero => cases hn
    | succ n =>
      have hrs := ih (fun q hq => hps q (mem_cons_of_mem _ hq)) (lt_of_succ_lt_succ hn)
      rw [flatMap_cons, append_assoc, reads_escape (hps p (mem_cons_self ..)), hrs]
      rfl

theorem length_escape_pos (hp : ∀ r, p = .rune r → IsRune r) : 1 ≤ (escape p).length := by
  -- no piece is read from nothing
  by_contra hlen
  have hnil : escape p = [] := length_eq_zero_iff.1 (by omega)
  have hrd := reads_escape hp 1 [0x22]
  rw [hnil] at hrd
  have hout : some ([], []) = some (p.clean.bytes ++ [], []) := hrd
  cases p with
  | stray b => cases hout
  | rune r =>
    obtain ⟨b, t, rfl, -⟩ := hp r rfl
    cases hout

theorem length_le_flatMap_escape (hps : ∀ p ∈ ps, ∀ r, p = .rune r → IsRune r) :
    ps.length ≤ (ps.flatMap escape).length := by
  induction ps with
  | nil => exact le_refl 0
  | cons p ps ih =>
    have hp := length_escape_pos (hps p (mem_cons_self ..))
    have hrs := ih fun q hq => hps q (mem_cons_of_mem _ hq)
    rw [flatMap_cons, length_append, length_cons]
    omega

/-- A string written between quotes is read back scrubbed. -/
theorem unquote_quote {s : Bytes} (hn : ((pieces t).flatMap escape).length < n) :
    unquote n ((pieces t).flatMap escape ++ 0x22 :: s) = some (scrub t, s) := by
  have hps : ∀ p ∈ pieces t, ∀ r, p = .rune r → IsRune r := by
    rintro p hp r rfl
    exact isRune_of_mem_pieces hp
  exact unquote_flatMap hps (lt_of_le_of_lt (length_le_flatMap_escape hps) hn)

/-! ## Documents are read back -/

mutual

/-- The number literals of the document are number literals. -/
def Value.Literal : Value → Prop
  | .null | .bool _ | .str _ => True
  | .num literal => isNumber literal ∧ literal.all isNumByte
  | .arr items => LiteralItems items
  | .obj members => LiteralMembers members

def LiteralItems : List Value → Prop
  | [] => True
  | v :: vs => v.Literal ∧ LiteralItems vs

def LiteralMembers : List (Bytes × Value) → Prop
  | [] => True
  | (_, v) :: ms => v.Literal ∧ LiteralMembers ms

end

mutual

/-- The document with all its strings scrubbed. -/
def Value.scrub : Value → Value
  | .null => .null
  | .bool b => .bool b
  | .num literal => .num literal
  | .str s => .str (Utf8.scrub s)
  | .arr items => .arr (scrubItems items)
  | .obj members => .obj (scrubMembers members)

def scrubItems : List Value → List Value
  | [] => []
  | v :: vs => v.scrub :: scrubItems vs

def scrubMembers : List (Bytes × Value) → List (Bytes × Value)
  | [] => []
  | (k, v) :: ms => (Utf8.scrub k, v.scrub) :: scrubMembers ms

end

/-- What may follow a document: nothing that continues a number. -/
def Ends : Prop := ∀ b t, s = b :: t → isNumByte b = false

theorem ends_cons {b : UInt8} {s : Bytes} (h : isNumByte b = false) : Ends (b :: s) := by
  rintro c t ⟨⟩
  exact h

theorem skipSpace_cons {b : UInt8} {s : Bytes} (h : isSpace b = false) : skipSpace (b :: s) = b :: s := by
  rw [skipSpace, dropWhile_cons_of_neg (by simp [h])]

theorem span_literal {s : Bytes} (hl : literal.all isNumByte) (hs : Ends s) :
    (literal ++ s).takeWhile isNumByte = literal ∧ (literal ++ s).dropWhile isNumByte = s := by
  have hall : ∀ b ∈ literal, isNumByte b := all_eq_true.1 hl
  have hst : s.takeWhile isNumByte = [] ∧ s.dropWhile isNumByte = s := by
    cases s with
    | nil => exact ⟨rfl, rfl⟩
    | cons b t =>
      have hb : ¬ isNumByte b := by simp [hs b t rfl]
      exact ⟨takeWhile_cons_of_neg hb, dropWhile_cons_of_neg hb⟩
  rw [takeWhile_append_of_pos hall, dropWhile_append_of_pos hall, hst.1, hst.2, append_nil]
  exact ⟨rfl, rfl⟩

theorem isNumber_head (h : isNumber literal) : ∃ b t, literal = b :: t ∧ (b = 0x2D ∨ isDigit b) := by
  cases literal with
  | nil => cases h
  | cons b t =>
    refine ⟨b, t, rfl, ?_⟩
    rw [isNumber] at h
    split at h
    · exact .inl ‹_›
    rw [isUnsigned] at h
    split at h
    · next hz => exact .inr (by rw [hz]; decide)
    · exact .inr (Bool.and_eq_true_iff.1 h).1

theorem numberHead_ne : ∀ b : UInt8, b = 0x2D ∨ isDigit b →
    isSpace b = false ∧ b ≠ 0x22 ∧ b ≠ 0x5B ∧ b ≠ 0x7B ∧ b ≠ 0x6E ∧ b ≠ 0x74 ∧ b ≠ 0x66 ∧
    b ≠ 0x5D ∧ b ≠ 0x7D := by
  decide +kernel

variable {v : Value}

theorem render_head (hv : v.Literal) : ∃ b t, render v = b :: t ∧ isSpace b = false ∧
    b ≠ 0x5D ∧ b ≠ 0x7D := by
  cases v with
  | null => exact ⟨_, _, by rw [render], by decide, by decide, by decide⟩
  | bool b => cases b <;> exact ⟨_, _, by rw [render], by decide, by decide, by decide⟩
  | num literal =>
    obtain ⟨b, t, rfl, hb⟩ := isNumber_head hv.1
    have hne := numberHead_ne b hb
    exact ⟨b, t, by rw [render], hne.1, hne.2.2.2.2.2.2.2⟩
  | str s => exact ⟨_, _, by rw [render, quote], by decide, by decide, by decide⟩
  | arr items =>
    cases items with
    | nil | cons v vs => exact ⟨_, _, by rw [render], by decide, by decide, by decide⟩
  | obj members =>
    rcases members with _ | ⟨⟨k, v⟩, ms⟩
    · exact ⟨_, _, by rw [render], by decide, by decide, by decide⟩
    · exact ⟨_, _, by rw [render], by decide, by decide, by decide⟩

theorem parseValue_quote (n : ℕ) (t s : Bytes) :
    parseValue (n + 1) (quote t ++ s) = some (.str (scrub t), s) := by
  have hlen : ((pieces t).flatMap escape).length <
      ((pieces t).flatMap escape ++ 0x22 :: s).length + 1 := by
    rw [length_append]; omega
  rw [quote, cons_append, append_assoc, singleton_append, parseValue, skipSpace_cons (by decide)]
  dsimp only
  rw [unquote_quote hlen]
  rfl

theorem renderItems_ends {vs : List Value} {s : Bytes} : Ends (renderItems vs ++ s) := by
  cases vs with
  | nil | cons v vs => rw [renderItems]; exact ends_cons (by decide)

theorem renderMembers_ends {ms : List (Bytes × Value)} {s : Bytes} : Ends (renderMembers ms ++ s) := by
  rcases ms with _ | ⟨⟨k, v⟩, ms⟩
  · rw [renderMembers]; exact ends_cons (by decide)
  · rw [renderMembers]; exact ends_cons (by decide)

theorem parseMember_quote {s : Bytes} (h : parseValue n s = some (v, rest)) :
    parseMember (n + 1) (quote k ++ 0x3A :: s) = some ((scrub k, v), rest) := by
  have hlen : ((pieces k).flatMap escape).length <
      ((pieces k).flatMap escape ++ 0x22 :: 0x3A :: s).length + 1 := by
    rw [length_append]; omega
  rw [quote, cons_append, append_assoc, singleton_append, parseMember, skipSpace_cons (by decide)]
  dsimp only
  rw [unquote_quote hlen]
  dsimp only
  rw [skipSpace_cons (by decide)]
  dsimp only
  rw [h]
  rfl

mutual

/-- What is written is read back, whatever follows it. -/
theorem parseValue_render : ∀ (v : Value), v.Literal → ∀ (n : ℕ) (s : Bytes),
    (render v).length ≤ n → Ends s → parseValue n (render v ++ s) = some (v.scrub, s)
  | .null, _, n + 1, s, _, _ => by
    rw [render, Value.scrub, cons_append, parseValue, skipSpace_cons (by decide)]
    simp [afterWord]
  | .bool true, _, n + 1, s, _, _ => by
    rw [render, Value.scrub, cons_append, parseValue, skipSpace_cons (by decide)]
    simp [afterWord]
  | .bool false, _, n + 1, s, _, _ => by
    rw [render, Value.scrub, cons_append, parseValue, skipSpace_cons (by decide)]
    simp [afterWord]
  | .str t, _, n + 1, s, _, _ => by rw [render, Value.scrub, parseValue_quote]
  | .num literal, hv, n + 1, s, _, hs => by
    rw [Value.Literal] at hv
    obtain ⟨b, t, rfl, hb⟩ := isNumber_head hv.1
    obtain ⟨hsp, h1, h2, h3, h4, h5, h6, -, -⟩ := numberHead_ne b hb
    have hspa := span_literal hv.2 hs
    rw [cons_append] at hspa
    rw [render, Value.scrub, cons_append, parseValue, skipSpace_cons hsp]
    dsimp only
    rw [if_neg h1, if_neg h2, if_neg h3, if_neg h4, if_neg h5, if_neg h6, hspa.1, if_pos hv.1, hspa.2]
  | .arr [], _, n + 1, s, _, _ => by
    rw [render, Value.scrub, scrubItems, cons_append, parseValue, skipSpace_cons (by decide)]
    rfl
  | .arr (v :: vs), hv, n + 1, s, hn, _ => by
    rw [Value.Literal, LiteralItems] at hv
    rw [render, length_cons, length_append] at hn
    have hfst := parseValue_render v hv.1 n (renderItems vs ++ s) (by omega) renderItems_ends
    have hrs := parseItems_render vs hv.2 n s (by omega)
    obtain ⟨b, t, hb, hsp, hne, -⟩ := render_head hv.1
    rw [hb] at hfst
    rw [render, Value.scrub, scrubItems, cons_append, append_assoc, hb, parseValue,
      skipSpace_cons (by decide)]
    dsimp only
    rw [if_neg (by decide), if_pos rfl, cons_append, skipSpace_cons hsp]
    dsimp only
    rw [if_neg hne, ← cons_append, hfst]
    dsimp only
    rw [hrs]
    rfl
  | .obj [], _, n + 1, s, _, _ => by
    rw [render, Value.scrub, scrubMembers, cons_append, parseValue, skipSpace_cons (by decide)]
    rfl
  | .obj ((k, v) :: ms), hv, n + 1, s, hn, _ => by
    rw [Value.Literal, LiteralMembers] at hv
    have hqp : 2 ≤ (quote k).length := by rw [quote, length_cons, length_append]; simp
    rw [render, length_cons, length_append, length_cons, length_append] at hn
    obtain ⟨n, rfl⟩ : ∃ m, n = m + 1 := ⟨n - 1, by omega⟩
    have hfst := parseMember_quote (k := k)
      (parseValue_render v hv.1 n (renderMembers ms ++ s) (by omega) renderMembers_ends)
    have hrs := parseMembers_render ms hv.2 (n + 1) s (by omega)
    rw [quote, cons_append] at hfst
    rw [render, Value.scrub, scrubMembers, quote]
    simp only [cons_append, append_assoc, nil_append] at hfst ⊢
    rw [parseValue, skipSpace_cons (by decide)]
    dsimp only
    rw [if_neg (by decide), if_neg (by decide), if_pos rfl, skipSpace_cons (by decide)]
    dsimp only
    rw [if_neg (by decide), hfst]
    dsimp only
    rw [hrs]
    rfl
  | .null, _, 0, _, hn, _ | .bool true, _, 0, _, hn, _ | .bool false, _, 0, _, hn,
      _ | .str _, _, 0, _, hn, _
  | .arr [], _, 0, _, hn, _ | .arr (_ :: _), _, 0, _, hn, _ | .obj [], _, 0, _, hn, _
  | .obj ((_, _) :: _), _, 0, _, hn, _ => by simp [render, quote] at hn
  | .num literal, hv, 0, _, hn, _ => by
    rw [Value.Literal] at hv
    obtain ⟨b, t, rfl, -⟩ := isNumber_head hv.1
    simp [render] at hn

theorem parseItems_render : ∀ (vs : List Value), LiteralItems vs → ∀ (n : ℕ) (s : Bytes),
    (renderItems vs).length ≤ n → parseItems n (renderItems vs ++ s) = some (scrubItems vs, s)
  | [], _, n + 1, s, _ => by
    rw [renderItems, scrubItems, cons_append, parseItems, skipSpace_cons (by decide)]
    rfl
  | v :: vs, hv, n + 1, s, hn => by
    rw [LiteralItems] at hv
    rw [renderItems, length_cons, length_append] at hn
    have hfst := parseValue_render v hv.1 n (renderItems vs ++ s) (by omega) renderItems_ends
    have hrs := parseItems_render vs hv.2 n s (by omega)
    rw [renderItems, scrubItems, cons_append, append_assoc, parseItems, skipSpace_cons (by decide)]
    dsimp only
    rw [if_neg (by decide), if_pos rfl, hfst]
    dsimp only
    rw [hrs]
    rfl
  | [], _, 0, _, hn | _ :: _, _, 0, _, hn => by simp [renderItems] at hn

theorem parseMembers_render : ∀ (ms : List (Bytes × Value)), LiteralMembers ms → ∀ (n : ℕ) (s : Bytes),
    (renderMembers ms).length ≤ n → parseMembers n (renderMembers ms ++ s) = some (scrubMembers ms, s)
  | [], _, n + 1, s, _ => by
    rw [renderMembers, scrubMembers, cons_append, parseMembers, skipSpace_cons (by decide)]
    rfl
  | (k, v) :: ms, hv, n + 1, s, hn => by
    rw [LiteralMembers] at hv
    have hqp : 2 ≤ (quote k).length := by rw [quote, length_cons, length_append]; simp
    rw [renderMembers, length_cons, length_append, length_cons, length_append] at hn
    obtain ⟨n, rfl⟩ : ∃ m, n = m + 1 := ⟨n - 1, by omega⟩
    have hfst := parseMember_quote (k := k)
      (parseValue_render v hv.1 n (renderMembers ms ++ s) (by omega) renderMembers_ends)
    have hrs := parseMembers_render ms hv.2 (n + 1) s (by omega)
    rw [renderMembers, scrubMembers]
    simp only [cons_append, append_assoc] at hfst ⊢
    rw [parseMembers, skipSpace_cons (by decide)]
    dsimp only
    rw [if_neg (by decide), if_pos rfl, hfst]
    dsimp only
    rw [hrs]
    rfl
  | [], _, 0, _, hn | (_, _) :: _, _, 0, _, hn => by simp [renderMembers] at hn

end

/-- **A document written out is read back, its strings scrubbed.** -/
theorem parse_render (hv : v.Literal) : parse (render v) = some v.scrub := by
  have hrd := parseValue_render v hv ((render v).length + 1) [] (le_succ _) nofun
  rw [append_nil] at hrd
  rw [parse, hrd]
  rfl

/-! ## Backslashes -/

/-- The backslashes of a text. -/
def backslashes : ℕ := s.count 0x5C

@[simp] theorem backslashes_append {s : Bytes} : backslashes (s ++ t) = backslashes s + backslashes t :=
  count_append

theorem backslashes_cons_of_ne {b : UInt8} (h : b ≠ 0x5C) {s : Bytes} :
    backslashes (b :: s) = backslashes s :=
  count_cons_of_ne h

/-- How many bytes are stray. -/
def strays : ℕ := (pieces s).countP Piece.isStray

theorem strays_eq_zero_iff : strays s = 0 ↔ Valid s := by
  rw [strays, countP_eq_zero]
  simp only [Valid, Bool.not_eq_true]

/-- A stray byte costs the backslash of its escape; U+FFFD is written without one. -/
theorem backslashes_escape : backslashes (escape p) = backslashes (escape p.clean) + if p.isStray
    then 1 else 0 := by
  cases p with
  | rune r => simp [clean, isStray]
  | stray b => rfl

theorem backslashes_flatMap (ps : List Piece) :
    backslashes (ps.flatMap escape) = backslashes ((ps.map clean).flatMap escape) + ps.countP isStray := by
  induction ps with
  | nil => rfl
  | cons p ps ih =>
    rw [flatMap_cons, map_cons, flatMap_cons, backslashes_append, backslashes_append,
      backslashes_escape, countP_cons]
    omega

/-- **A string and its scrubbed form differ by one backslash for each stray byte.** -/
theorem backslashes_quote : backslashes (quote s) = backslashes (quote (scrub s)) + strays s := by
  have hbd := backslashes_flatMap (pieces s)
  simp only [quote]
  rw [backslashes_cons_of_ne (by decide), backslashes_cons_of_ne (by decide),
    backslashes_append, backslashes_append, pieces_scrub, strays]
  omega

mutual

/-- The stray bytes of the strings of a document. -/
def Value.strays : Value → ℕ
  | .null | .bool _ | .num _ => 0
  | .str s => JsonText.strays s
  | .arr items => straysItems items
  | .obj members => straysMembers members

def straysItems : List Value → ℕ
  | [] => 0
  | v :: vs => v.strays + straysItems vs

def straysMembers : List (Bytes × Value) → ℕ
  | [] => 0
  | (k, v) :: ms => strays k + v.strays + straysMembers ms

end

mutual

theorem backslashes_render : ∀ v : Value, backslashes (render v) = backslashes (render v.scrub) + v.strays
  | .null | .bool _ | .num _ | .arr [] | .obj [] => rfl
  | .str s => backslashes_quote s
  | .arr (v :: vs) => by
    have hv := backslashes_render v
    have hvs := backslashes_items vs
    simp only [render, Value.scrub, scrubItems, Value.strays, straysItems,
      backslashes_cons_of_ne (b := 0x5B) (by decide), backslashes_append]
    omega
  | .obj ((k, v) :: ms) => by
    have hk := backslashes_quote k
    have hv := backslashes_render v
    have hms := backslashes_members ms
    simp only [render, Value.scrub, scrubMembers, Value.strays, straysMembers,
      backslashes_cons_of_ne (b := 0x7B) (by decide),
      backslashes_cons_of_ne (b := 0x3A) (by decide), backslashes_append]
    omega

theorem backslashes_items : ∀ vs : List Value,
    backslashes (renderItems vs) = backslashes (renderItems (scrubItems vs)) + straysItems vs
  | [] => rfl
  | v :: vs => by
    have hv := backslashes_render v
    have hvs := backslashes_items vs
    simp only [renderItems, scrubItems, straysItems, backslashes_cons_of_ne (b := 0x2C) (by decide),
      backslashes_append]
    omega

theorem backslashes_members : ∀ ms : List (Bytes × Value),
    backslashes (renderMembers ms) = backslashes (renderMembers (scrubMembers ms)) + straysMembers ms
  | [] => rfl
  | (k, v) :: ms => by
    have hk := backslashes_quote k
    have hv := backslashes_render v
    have hms := backslashes_members ms
    simp only [renderMembers, scrubMembers, straysMembers, backslashes_cons_of_ne (b := 0x2C) (by decide),
      backslashes_cons_of_ne (b := 0x3A) (by decide), backslashes_append]
    omega

end

/-- **Documents with one text have the same scrubbed strings, and as many stray bytes.** -/
theorem scrub_eq_of_render {v w : Value} (hv : v.Literal) (hw : w.Literal) (h : render v = render w) :
    v.scrub = w.scrub ∧ v.strays = w.strays := by
  have hrd := parse_render hv
  rw [h, parse_render hw, some.injEq] at hrd
  have hv := backslashes_render v
  rw [h, backslashes_render w, hrd] at hv
  exact ⟨hrd.symm, by omega⟩

end JsonText
