import Mathlib.Algebra.Ring.Int.Defs
import Mathlib.Data.List.DropRight

/-!
# The string functions of Go's `strings` package

They work on the characters of a string. Lower case is that of ASCII and of the two other letters
whose lower case is an ASCII letter, so a search for an ASCII word finds what Go finds.
-/

namespace GoString

open List String Nat

/-- `unicode.IsSpace`. -/
def isSpace (c : Char) : Bool :=
  (0x09 ≤ c.toNat && c.toNat ≤ 0x0d) || (0x2000 ≤ c.toNat && c.toNat ≤ 0x200a) ||
    [0x20, 0x85, 0xa0, 0x1680, 0x2028, 0x2029, 0x202f, 0x205f, 0x3000].contains c.toNat

/-- `strings.TrimSpace`. -/
def trimSpace (s : String) : String :=
  String.ofList ((s.toList.dropWhile isSpace).reverse.dropWhile isSpace).reverse

/-- `unicode.ToLower`, as far as it leads to ASCII: also of the Kelvin sign and the dotted capital
`I`. -/
def lowerRune (c : Char) : Char :=
  if c.toNat = 0x212a then 'k' else if c.toNat = 0x130 then 'i' else c.toLower

/-- `strings.ToLower`. -/
def toLower (s : String) : String := String.ofList (s.toList.map lowerRune)

/-- `strings.EqualFold`, for a word without `k` and `s`. -/
def equalFold (s t : String) : Bool := s.toList.map Char.toLower == t.toList.map Char.toLower

/-- `strings.HasPrefix`. -/
def hasPrefix (s p : String) : Bool := p.toList.isPrefixOf s.toList

/-- `strings.HasSuffix`. -/
def hasSuffix (s p : String) : Bool := p.toList.isSuffixOf s.toList

/-- `strings.TrimPrefix`. -/
def trimPrefix (s p : String) : String :=
  if hasPrefix s p then String.ofList (s.toList.drop p.toList.length) else s

/-- `strings.TrimSuffix`. -/
def trimSuffix (s p : String) : String :=
  if hasSuffix s p then String.ofList (s.toList.take (s.toList.length - p.toList.length)) else s

/-- `strings.Contains`. -/
def contains (s t : String) : Bool := s.toList.tails.any fun u => t.toList.isPrefixOf u

/-- `strings.IndexByte`, for an ASCII character; positions are those of characters. -/
def indexByte (s : String) (c : Char) : Option ℕ := s.toList.findIdx? (· == c)

/-- The text before the first `sep`, all of it when there is none. -/
def cut (sep : Char) (s : String) : String := String.ofList (s.toList.takeWhile (· != sep))

/-- `strconv.Atoi`: a sign and decimal digits, within 64 bits. -/
def atoi (s : String) : Option ℤ :=
  let (negative, digits) :=
    match s.toList with
    | '-' :: cs => (true, cs)
    | '+' :: cs => (false, cs)
    | cs => (false, cs)
  if digits = [] ∨ !digits.all Char.isDigit then none
  else
    let n : ℤ := digits.foldl (fun n c => n * 10 + (c.toNat - 48 : ℤ)) 0
    let n := if negative then -n else n
    if -(2 ^ 63) ≤ n ∧ n < 2 ^ 63 then some n else none

variable {c : Char} {l l' r r' : List Char} {s p : String} {i j n : ℕ}

/-- An element of two lists, one after the other, is in the second or in the first. -/
theorem split_append {α : Type*} {x : α} {l l' front back : List α} (h : l ++ l' = front ++ x :: back) :
    (∃ mid, front = l ++ mid ∧ l' = mid ++ x :: back) ∨ ∃ mid,
      l = front ++ x :: mid ∧ back = mid ++ l' := by
  rcases append_eq_append_iff.1 h with ⟨mid, hfrt, hmid⟩ | ⟨mid, hl, hbk⟩
  · exact .inl ⟨mid, hfrt, hmid⟩
  cases mid with
  | nil => exact .inl ⟨[], by rw [hl, append_nil, append_nil], hbk.symm⟩
  | cons y mid =>
    obtain ⟨rfl, hrs⟩ := cons.inj hbk
    exact .inr ⟨mid, hl, hrs⟩

theorem split_at_first (hl : c ∉ l) (hl' : c ∉ l') (h : l ++ c :: r = l' ++ c :: r') :
    l = l' ∧ r = r' := by
  rcases split_append h with ⟨mid, rfl, hmid⟩ | ⟨mid, rfl, -⟩
  · cases mid with
    | nil => simp_all
    | cons d mid =>
      obtain ⟨rfl, -⟩ := cons.inj hmid
      exact absurd (mem_append_right _ mem_cons_self) hl'
  · exact absurd (mem_append_right _ mem_cons_self) hl

theorem indexByte_of_toList (hs : s.toList = l ++ c :: r) (hl : c ∉ l) :
    indexByte s c = some l.length := by
  have hno : l.findIdx? (· == c) = none := by
    rw [findIdx?_eq_none_iff]
    exact fun x hx => beq_false_of_ne fun h => hl (h ▸ hx)
  rw [indexByte, hs, findIdx?_append, hno, findIdx?_cons]
  simp

theorem hasPrefix_append : hasPrefix (p ++ s) p := by
  simp [hasPrefix]

theorem trimPrefix_append (p s : String) : trimPrefix (p ++ s) p = s := by
  simp [trimPrefix, hasPrefix_append]

theorem append_trimPrefix (h : hasPrefix s p) : p ++ trimPrefix s p = s := by
  obtain ⟨t, ht⟩ := isPrefixOf_iff_prefix.1 h
  have hs : s = p ++ ofList t := by
    rw [← toList_inj, toList_append, toList_ofList, ht]
  rw [hs, trimPrefix_append]

theorem fromUTF8_toUTF8 (s : String) : fromUTF8? ⟨s.toUTF8.data.toList.toArray⟩ = some s := by
  exact dif_pos s.isValidUTF8

theorem toUTF8_ne_nil (h : s ≠ "") : s.toUTF8.data.toList ≠ [] := by
  intro hnil
  have hs := fromUTF8_toUTF8 s
  rw [hnil] at hs
  exact h (Option.some.inj (hs.symm.trans (fromUTF8_toUTF8 "")))

/-! ### Numbers -/

theorem natToString_injective (h : toString i = toString j) : i = j := by
  have hdig : toDigits 10 i = toDigits 10 j := ofList_inj.1 h
  have hi : ofDigitChars 10 (toDigits 10 i) 0 = i := ofDigitChars_ten_toDigits
  rw [← hi, hdig, ofDigitChars_ten_toDigits]

theorem isDigit_of_mem_natToString (h : c ∈ (toString i).toList) : c.isDigit := by
  have hdig : (toString i).toList = toDigits 10 i := toList_ofList
  rw [hdig] at h
  exact isDigit_of_mem_toDigits (by decide) (by decide) h

theorem intToString_injective {i j : ℤ} (h : toString i = toString j) : i = j := by
  -- a sign is not a digit
  have hsg : ∀ (n : ℕ) s, toString n ≠ "-" ++ s := by
    intro n s heq
    have hmem : '-' ∈ (toString n).toList := by rw [heq]; simp
    have hdg := isDigit_of_mem_natToString hmem
    cases hdg
  cases i with
  | ofNat i =>
    cases j with
    | ofNat j => rw [natToString_injective h]
    | negSucc j => exact absurd h (hsg i _)
  | negSucc i =>
    cases j with
    | ofNat j => exact absurd h.symm (hsg j _)
    | negSucc j =>
      have hli : ("-" ++ toString (i + 1)).toList = ("-" ++ toString (j + 1)).toList := congrArg toList h
      rw [toList_append, toList_append, append_cancel_left_eq] at hli
      have heq := natToString_injective (toList_inj.1 hli)
      rw [Nat.add_right_cancel heq]

theorem notMem_intToString {i : ℤ} (hc : c.isDigit = false) (hsg : c ≠ '-') : c ∉ (toString i).toList := by
  have hnat : ∀ n : ℕ, c ∉ (toString n).toList := by
    intro n hmem
    rw [isDigit_of_mem_natToString hmem] at hc
    cases hc
  cases i with
  | ofNat i => exact hnat i
  | negSucc i =>
    have hli : (toString (Int.negSucc i)).toList = '-' :: (toString (i + 1)).toList := by
      change ("-" ++ toString (i + 1)).toList = _
      rw [toList_append]
      rfl
    rw [hli, mem_cons, not_or]
    exact ⟨hsg, hnat (i + 1)⟩

theorem foldl_digits (hl : ∀ c ∈ l, c.isDigit) (n : ℕ) :
    l.foldl (fun n c => n * 10 + (c.toNat - 48 : ℤ)) (n : ℤ) = (ofDigitChars 10 l n : ℤ) := by
  induction l generalizing n with
  | nil => rw [ofDigitChars_nil]; rfl
  | cons c l ih =>
    have hc := hl c mem_cons_self
    have hle : 48 ≤ c.toNat := by
      rw [Char.isDigit, Bool.and_eq_true, decide_eq_true_eq] at hc
      exact hc.1
    have hnx : n * 10 + (c.toNat - 48 : ℤ) = ((10 * n + (c.toNat - '0'.toNat) : ℕ) : ℤ) := by
      have hz : '0'.toNat = 48 := rfl
      omega
    rw [foldl_cons, hnx]
    exact ih (fun c' hc' => hl c' (mem_cons_of_mem _ hc')) _

/-- A number is read back from its digits. -/
theorem atoi_natToString (h : (n : ℤ) < 2 ^ 63) : atoi (toString n) = some (n : ℤ) := by
  have hli : (toString n).toList = toDigits 10 n := toList_ofList
  have hdig : ∀ c ∈ toDigits 10 n, c.isDigit := by
    intro c hc
    exact isDigit_of_mem_natToString (by rw [hli]; exact hc)
  have hval : (toDigits 10 n).foldl (fun n c => n * 10 + (c.toNat - 48 : ℤ)) 0 = n := by
    have hfl := foldl_digits hdig 0
    rw [ofDigitChars_ten_toDigits] at hfl
    exact hfl
  unfold atoi
  rw [hli]
  split
  rename_i negative digits hsp
  -- the first digit is not a sign
  have hsm : negative = false ∧ digits = toDigits 10 n := by
    split at hsp
    · rename_i cs heq
      have hsg := hdig '-' (by rw [heq]; exact mem_cons_self)
      cases hsg
    · rename_i cs heq
      have hsg := hdig '+' (by rw [heq]; exact mem_cons_self)
      cases hsg
    · rw [Prod.mk.injEq] at hsp
      exact ⟨hsp.1.symm, hsp.2.symm⟩
  obtain ⟨rfl, rfl⟩ := hsm
  dsimp only
  rw [if_neg, hval, if_neg Bool.false_ne_true, if_pos ⟨by omega, h⟩]
  rw [not_or]
  refine ⟨toDigits_ne_nil, ?_⟩
  rw [Bool.not_eq_true', Bool.not_eq_false]
  exact all_eq_true.2 hdig

/-! ### Trimming -/

theorem trimSpace_trimSpace : trimSpace (trimSpace s) = trimSpace s := by
  let front := s.toList.dropWhile isSpace
  have hs : trimSpace s = ofList (front.rdropWhile isSpace) := rfl
  -- the first character left is the first of `front`, which is not a space
  have hfrt : (front.rdropWhile isSpace).dropWhile isSpace = front.rdropWhile isSpace := by
    have hdn : front.dropWhile isSpace = front := dropWhile_idempotent isSpace s.toList
    obtain ⟨spaces, happ⟩ := rdropWhile_prefix isSpace front
    cases hl : front.rdropWhile isSpace with
    | nil => rfl
    | cons c rest =>
      rw [hl] at happ
      rw [← happ] at hdn
      exact dropWhile_cons_of_neg (dropWhile_eq_self_iff.1 hdn (zero_lt_succ _))
  rw [hs, trimSpace, toList_ofList, hfrt]
  exact congrArg ofList (rdropWhile_idempotent isSpace front)

@[simp] theorem trimSpace_empty : trimSpace "" = "" := by decide

-- a comparison with a trimmed text is left alone when programs are compared
attribute [irreducible] trimSpace

end GoString
