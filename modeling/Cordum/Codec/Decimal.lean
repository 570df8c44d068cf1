import Cordum.Codec.JsonText
import Mathlib.Data.List.TakeWhile

/-!
# Decimal numbers in byte strings

* `digits`, `number`: a fixed number of digits, and how they are read.
* `formatInt`, `parseInt`: integers as Go's `strconv` writes and reads them (`parseInt_formatInt`).
-/

open JsonText List Nat UInt8

namespace Decimal

/-- The last `w` decimal digits of `n`. -/
def digits : ℕ → ℕ → Bytes
  | 0, _ => []
  | w + 1, n => digits w (n / 10) ++ [.ofNat (0x30 + n % 10)]

/-- The number a list of digits stands for. -/
def value (ds : Bytes) : ℕ := ds.foldl (fun n d => 10 * n + (d.toNat - 0x30)) 0

@[simp] theorem length_digits {w n : ℕ} : (digits w n).length = w := by
  induction w generalizing n with
  | zero => rfl
  | succ w ih => rw [digits, length_append, ih]; rfl

theorem isDigit_digit : ∀ d < 10, isDigit (.ofNat (0x30 + d)) := by decide

theorem toNat_digit : ∀ d < 10, (ofNat (0x30 + d)).toNat - 0x30 = d := by decide

variable {w n : ℕ} {b : UInt8}

theorem isDigit_of_mem_digits (h : b ∈ digits w n) : isDigit b := by
  induction w generalizing n with
  | zero => cases h
  | succ w ih =>
    rw [digits, mem_append, mem_singleton] at h
    rcases h with h | rfl
    · exact ih h
    · exact isDigit_digit _ (mod_lt n (by decide))

theorem value_append {ds : Bytes} {d : UInt8} : value (ds ++ [d]) = 10 * value ds + (d.toNat - 0x30) := by
  simp [value]

theorem value_digits (h : n < 10 ^ w) : value (digits w n) = n := by
  induction w generalizing n with
  | zero =>
    have hz : n = 0 := by rw [pow_zero] at h; omega
    rw [hz]; rfl
  | succ w ih =>
    have hq : n / 10 < 10 ^ w := by rw [pow_succ] at h; omega
    rw [digits, value_append, ih hq, toNat_digit _ (mod_lt n (by decide))]
    omega

/-- `w` digits at the front of a text. -/
def number (w : ℕ) (s : Bytes) : Option (ℕ × Bytes) :=
  if w ≤ s.length ∧ (s.take w).all isDigit then some (value (s.take w), s.drop w) else none

/-- The byte `b` at the front of a text. -/
def byte (b : UInt8) : Bytes → Option Bytes
  | [] => none
  | c :: s => if c = b then some s else none

@[simp] theorem number_digits (h : n < 10 ^ w) (s : Bytes) : number w (digits w n ++ s) = some (n, s) := by
  have htk : (digits w n ++ s).take w = digits w n := take_left' length_digits
  have hdr : (digits w n ++ s).drop w = s := drop_left' length_digits
  have hall : (digits w n).all isDigit := all_eq_true.2 fun b hb => isDigit_of_mem_digits hb
  rw [number, htk, hdr, if_pos ⟨by rw [length_append, length_digits]; omega, hall⟩, value_digits h]

@[simp] theorem byte_cons {s : Bytes} : byte b (b :: s) = some s := if_pos rfl

/-! ## Integers -/

/-- `strconv.FormatInt` to base ten. -/
def formatInt (n : ℤ) : Bytes := Utf8.ascii (toString n)

/-- `strconv.ParseInt` to base ten and 64 bits. -/
def parseInt : Bytes → Option ℤ
  | [] => none
  | b :: s =>
    let ds := if b = 0x2D ∨ b = 0x2B then s else b :: s
    let n : ℤ := if b = 0x2D then -(value ds : ℤ) else value ds
    if ds ≠ [] ∧ ds.all isDigit ∧ -2 ^ 63 ≤ n ∧ n < 2 ^ 63 then some n else none

/-- The digits of a natural number. -/
def formatNat (n : ℕ) : Bytes := (Nat.toDigits 10 n).map fun c => .ofNat c.toNat

theorem formatInt_natCast : formatInt n = formatNat n := by
  exact congrArg _ String.toList_ofList

theorem formatInt_negSucc : formatInt (Int.negSucc n) = 0x2D :: formatNat (n + 1) := by
  change Utf8.ascii ("-" ++ toString (n + 1)) = _
  rw [Utf8.ascii, String.toList_append, map_append]
  have hdig : (toString (n + 1)).toList = toDigits 10 (n + 1) := String.toList_ofList
  rw [hdig]
  rfl

theorem isDigit_ofNat {c : Char} (h : c.isDigit) :
    isDigit (.ofNat c.toNat) ∧ (ofNat c.toNat).toNat = c.toNat := by
  have hrg : 48 ≤ c.toNat ∧ c.toNat ≤ 57 := by simpa [Char.isDigit, UInt32.le_iff_toNat_le] using h
  have hnat : (ofNat c.toNat).toNat = c.toNat := by
    exact mod_eq_of_lt (by omega)
  refine ⟨?_, hnat⟩
  simp only [isDigit, le_iff_toNat_le, hnat, Bool.and_eq_true, decide_eq_true_eq]
  exact hrg

theorem isDigit_of_mem_formatNat (h : b ∈ formatNat n) : isDigit b := by
  obtain ⟨c, hc, rfl⟩ := mem_map.1 h
  exact (isDigit_ofNat (isDigit_of_mem_toDigits (by decide) (by decide) hc)).1

theorem formatNat_ne_nil (n : ℕ) : formatNat n ≠ [] := by
  rw [formatNat, Ne, map_eq_nil_iff]
  exact toDigits_ne_nil

theorem value_map {cs : List Char} (h : ∀ c ∈ cs, c.isDigit) :
    value (cs.map fun c => .ofNat c.toNat) = ofDigitChars 10 cs 0 := by
  rw [value, ofDigitChars_eq_foldl, foldl_map]
  generalize (0 : ℕ) = init
  induction cs generalizing init with
  | nil => rfl
  | cons c cs ih =>
    have hc : (ofNat c.toNat).toNat - 0x30 = c.toNat - '0'.toNat := by
      rw [(isDigit_ofNat (h c (mem_cons_self ..))).2]; rfl
    rw [foldl_cons, hc]
    exact ih (fun d hd => h d (mem_cons_of_mem _ hd)) _

theorem value_formatNat (n : ℕ) : value (formatNat n) = n := by
  rw [formatNat, value_map fun c hc => isDigit_of_mem_toDigits (by decide) (by decide) hc]
  exact ofDigitChars_ten_toDigits

theorem head_formatNat (h : 0 < n) : ∃ d s, formatNat n = d :: s ∧ d ≠ 0x30 := by
  have hdg : ∀ d < 10, 0 < d → ofNat (digitChar d).toNat ≠ 0x30 := by decide
  induction n using Nat.strongRecOn with
  | ind n ih =>
    rcases lt_or_ge n 10 with hlt | hge
    · refine ⟨.ofNat (digitChar n).toNat, [], ?_, hdg n hlt h⟩
      rw [formatNat, toDigits_of_lt_base hlt]
      rfl
    obtain ⟨d, s, hds, hd⟩ := ih (n / 10) (by omega) (by omega)
    refine ⟨d, s ++ [.ofNat (digitChar (n % 10)).toNat], ?_, hd⟩
    have hsp := toDigits_of_base_le (n := n) (by decide) hge
    rw [formatNat] at hds ⊢
    rw [hsp, map_append, hds]
    rfl

theorem isNumber_formatInt {n : ℤ} : isNumber (formatInt n) ∧ (formatInt n).all isNumByte := by
  have huns : ∀ n : ℕ, isUnsigned (formatNat n) := by
    intro n
    rcases n.eq_zero_or_pos with rfl | hpos
    · decide
    obtain ⟨d, s, hds, hd⟩ := head_formatNat hpos
    have hall : ∀ b ∈ d :: s, isDigit b := by rw [← hds]; exact fun b hb => isDigit_of_mem_formatNat hb
    have hdr : s.dropWhile isDigit = [] :=
      dropWhile_eq_nil_iff.2 fun b hb => hall b (mem_cons_of_mem _ hb)
    rw [hds, isUnsigned, if_neg hd, hdr, hall d (mem_cons_self ..)]
    rfl
  have hbyt : ∀ n : ℕ, (formatNat n).all isNumByte := fun n =>
    all_eq_true.2 fun b hb => by simp [isNumByte, isDigit_of_mem_formatNat hb]
  cases n with
  | ofNat n =>
    change isNumber (formatInt n) ∧ (formatInt n).all isNumByte
    rw [formatInt_natCast]
    refine ⟨?_, hbyt n⟩
    cases hf : formatNat n with
    | nil => exact absurd hf (formatNat_ne_nil n)
    | cons d s =>
      have hd : isDigit d := isDigit_of_mem_formatNat (hf ▸ mem_cons_self ..)
      have hne : d ≠ 0x2D := by rintro rfl; cases hd
      rw [isNumber, if_neg hne, ← hf]
      exact huns n
  | negSucc n =>
    rw [formatInt_negSucc]
    refine ⟨?_, ?_⟩
    · rw [isNumber]; exact huns (n + 1)
    · rw [all_cons, hbyt]; rfl

theorem parseInt_formatInt {n : ℤ} : parseInt (formatInt n) = if -2 ^ 63 ≤ n ∧ n < 2 ^ 63
    then some n else none := by
  have hall : ∀ n : ℕ, (formatNat n).all isDigit := fun n =>
    all_eq_true.2 fun b hb => isDigit_of_mem_formatNat hb
  cases n with
  | ofNat n =>
    change parseInt (formatInt n) = _
    rw [formatInt_natCast]
    have hne := formatNat_ne_nil n
    have hval := value_formatNat n
    have hdig := hall n
    cases hf : formatNat n with
    | nil => exact absurd hf hne
    | cons d s =>
      rw [hf] at hval hdig
      have hd : isDigit d := isDigit_of_mem_formatNat (hf ▸ mem_cons_self ..)
      have hmin : d ≠ 0x2D := by rintro rfl; cases hd
      have hpl : d ≠ 0x2B := by rintro rfl; cases hd
      rw [parseInt]
      simp only [hmin, hpl, or_self, if_false, hval, hdig, ne_eq, reduceCtorEq,
        not_false_eq_true, true_and]
      rfl
  | negSucc n =>
    have hne := formatNat_ne_nil (n + 1)
    have hneg : (-((n + 1 : ℕ) : ℤ)) = Int.negSucc n := rfl
    rw [formatInt_negSucc, parseInt]
    simp only [true_or, if_true, value_formatNat, hall, ne_eq, hne, not_false_eq_true, true_and, hneg]

theorem eq_of_parseInt_formatInt {n m : ℤ} (h : parseInt (formatInt n) = some m) : m = n := by
  rw [parseInt_formatInt] at h
  split at h
  · cases h; rfl
  · cases h

theorem isDigit_of_mem_formatInt {n : ℤ} (hn : 0 ≤ n) (h : b ∈ formatInt n) : isDigit b := by
  obtain ⟨n, rfl⟩ := Int.eq_ofNat_of_zero_le hn
  rw [formatInt_natCast] at h
  exact isDigit_of_mem_formatNat h

end Decimal
