import Mathlib.Data.List.Nodup

/-!
# Unpadded base64

`encode al` writes a byte string in the 64 characters of `al`, three bytes to four characters and no
padding; `decode al` reads it as Go does: line breaks are skipped, any other character outside the
alphabet is an error, and the bits left over in the last character are not looked at.
-/

namespace Base64

open List

/-- Sixty-four characters, all different. -/
structure Alphabet where
  chars : List Char
  length_eq : chars.length = 64
  nodup : chars.Nodup

/-- The digit `i < 64` of an alphabet. -/
def Alphabet.digit (al : Alphabet) (i : ℕ) : Char := al.chars.getD i '='

/-- The alphabet of `base64.RawURLEncoding`. -/
def rawURL : Alphabet where
  chars := "ABCDEFGHIJKLMNOPQRSTUVWXYZabcdefghijklmnopqrstuvwxyz0123456789-_".toList
  length_eq := by decide +kernel
  nodup := by decide +kernel

/-- The alphabet of `base64.RawStdEncoding`. -/
def rawStd : Alphabet where
  chars := "ABCDEFGHIJKLMNOPQRSTUVWXYZabcdefghijklmnopqrstuvwxyz0123456789+/".toList
  length_eq := by decide +kernel
  nodup := by decide +kernel

/-- The characters of an encoded byte string. -/
def encodeChars (al : Alphabet) : List UInt8 → List Char
  | [] => []
  | [a] => [al.digit (a.toNat / 4), al.digit (a.toNat % 4 * 16)]
  | [a, b] => [al.digit (a.toNat / 4), al.digit (a.toNat % 4 * 16 + b.toNat / 16),
      al.digit (b.toNat % 16 * 4)]
  | a :: b :: c :: rest =>
    al.digit (a.toNat / 4) :: al.digit (a.toNat % 4 * 16 + b.toNat / 16) ::
      al.digit (b.toNat % 16 * 4 + c.toNat / 64) :: al.digit (c.toNat % 64) :: encodeChars al rest

/-- The padded text of bytes. -/
def encode (al : Alphabet) (bs : List UInt8) : String := String.ofList (encodeChars al bs)

/-- The value of a character. -/
def Alphabet.value (al : Alphabet) (c : Char) : Option ℕ := al.chars.findIdx? (· == c)

/-- The bytes of a list of digits. A single digit left over is an error. -/
def decodeDigits : List ℕ → Option (List UInt8)
  | [] => some []
  | [_] => none
  | [a, b] => some [.ofNat (a * 4 + b / 16)]
  | [a, b, c] => some [.ofNat (a * 4 + b / 16), .ofNat (b % 16 * 16 + c / 4)]
  | a :: b :: c :: d :: rest =>
    (decodeDigits rest).map fun bs =>
      .ofNat (a * 4 + b / 16) :: .ofNat (b % 16 * 16 + c / 4) :: .ofNat (c % 4 * 64 + d) :: bs

/-- The bytes of a text without line breaks. -/
def decodeChars (al : Alphabet) (cs : List Char) : Option (List UInt8) :=
  (cs.mapM al.value).bind decodeDigits

/-- The bytes of a padded text. -/
def decode (al : Alphabet) (s : String) : Option (List UInt8) :=
  decodeChars al (s.toList.filter fun c => c != '\n' && c != '\r')

variable (al : Alphabet) {i : ℕ} {bs : List UInt8}

theorem Alphabet.digit_eq (hi : i < al.chars.length) : al.digit i = al.chars[i] := by
  simp [Alphabet.digit, hi]

theorem Alphabet.value_digit (hi : i < 64) : al.value (al.digit i) = some i := by
  have hlen : i < al.chars.length := by rw [al.length_eq]; exact hi
  rw [Alphabet.value, al.digit_eq hlen, findIdx?_eq_some_iff_getElem]
  refine ⟨hlen, by simp, fun j hj heq => ?_⟩
  -- the characters are all different, so the first match is at `i`
  have := (List.Nodup.getElem_inj_iff al.nodup).1 (beq_iff_eq.1 heq)
  omega

theorem mapM_value {is : List ℕ} (h : ∀ i ∈ is, i < 64) : (is.map al.digit).mapM al.value = some is := by
  induction is with
  | nil => rfl
  | cons i is ih =>
    rw [forall_mem_cons] at h
    simp [al.value_digit h.1, ih h.2]

/-- An encoded text is one of digits below 64 that stand for the bytes. -/
theorem encodeChars_digits (bs : List UInt8) :
    ∃ is : List ℕ, (∀ i ∈ is, i < 64) ∧ encodeChars al bs = is.map al.digit ∧
      decodeDigits is = some bs := by
  have hby : ∀ a n, n = a.toNat → UInt8.ofNat n = a := by
    rintro a n rfl
    exact UInt8.ofNat_toNat
  fun_induction encodeChars al bs with
  | case1 => exact ⟨[], by simp, rfl, rfl⟩
  | case2 a =>
    have ha := a.toNat_lt
    refine ⟨[a.toNat / 4, a.toNat % 4 * 16], ?_, rfl, ?_⟩
    · simp only [forall_mem_cons, not_mem_nil, false_implies, implies_true, and_true]
      omega
    · rw [decodeDigits, hby a _ (by omega)]
  | case3 a b =>
    have ha := a.toNat_lt
    have hb := b.toNat_lt
    refine ⟨[a.toNat / 4, a.toNat % 4 * 16 + b.toNat / 16, b.toNat % 16 * 4], ?_, rfl, ?_⟩
    · simp only [forall_mem_cons, not_mem_nil, false_implies, implies_true, and_true]
      omega
    · rw [decodeDigits, hby a _ (by omega), hby b _ (by omega)]
  | case4 a b c rest ih =>
    obtain ⟨is, hlt, henc, hdec⟩ := ih
    have ha := a.toNat_lt
    have hb := b.toNat_lt
    have hc := c.toNat_lt
    refine ⟨a.toNat / 4 :: (a.toNat % 4 * 16 + b.toNat / 16) :: (b.toNat % 16 * 4 + c.toNat / 64) ::
      c.toNat % 64 :: is, ?_, ?_, ?_⟩
    · simp only [forall_mem_cons]
      exact ⟨by omega, by omega, by omega, by omega, hlt⟩
    · rw [henc]
      rfl
    · rw [decodeDigits, hdec, hby a _ (by omega), hby b _ (by omega), hby c _ (by omega)]
      rfl

theorem decodeChars_encodeChars (bs : List UInt8) : decodeChars al (encodeChars al bs) = some bs := by
  obtain ⟨is, hlt, henc, hdec⟩ := encodeChars_digits al bs
  rw [decodeChars, henc, mapM_value al hlt]
  exact hdec

theorem mem_encodeChars {c : Char} (h : c ∈ encodeChars al bs) : c ∈ al.chars := by
  obtain ⟨is, hlt, henc, -⟩ := encodeChars_digits al bs
  rw [henc] at h
  obtain ⟨i, hi, rfl⟩ := mem_map.1 h
  have hlen : i < al.chars.length := by rw [al.length_eq]; exact hlt i hi
  rw [al.digit_eq hlen]
  exact getElem_mem hlen

theorem encodeChars_ne_nil (h : bs ≠ []) : encodeChars al bs ≠ [] := by
  intro hnil
  have hdec := decodeChars_encodeChars al bs
  rw [hnil] at hdec
  exact h (Option.some.inj hdec).symm

/-- No character is a line break. -/
def Alphabet.OneLine : Prop := ∀ c ∈ al.chars, (c != '\n' && c != '\r')

theorem rawStd_oneLine : rawStd.OneLine := all_eq_true.1 (by decide +kernel)

theorem rawURL_oneLine : rawURL.OneLine := all_eq_true.1 (by decide +kernel)

variable {al}

/-- **What was encoded is read back.** -/
theorem decode_encode (hal : al.OneLine) : decode al (encode al bs) = some bs := by
  have hkp : (encodeChars al bs).filter (fun c => c != '\n' && c != '\r') = encodeChars al bs :=
    filter_eq_self.2 fun c hc => hal c (mem_encodeChars al hc)
  rw [decode, encode, String.toList_ofList, hkp, decodeChars_encodeChars]

variable (al)

/-- **Different byte strings have different encodings.** -/
theorem encode_injective : Function.Injective (encode al) := by
  intro bs bs' h
  have hcha : encodeChars al bs = encodeChars al bs' := String.ofList_injective h
  have hdec := decodeChars_encodeChars al bs
  rw [hcha, decodeChars_encodeChars] at hdec
  exact (Option.some.inj hdec).symm

end Base64
