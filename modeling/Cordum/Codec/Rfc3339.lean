import Cordum.Codec.Decimal
import Mathlib.Tactic.Ring

/-!
# Timestamps as Go writes and reads them

A time is known by its reading in its own zone, down to the nanosecond, and by the offset of the zone
in seconds. Its text gives the offset in minutes, so an offset that is no multiple of a minute is
rounded towards zero; an offset of nothing at all is written `Z`.
-/

open JsonText Decimal List Option

/-- The days of a month. -/
def daysIn (month : ℕ) (year : ℤ) : ℕ :=
  if month = 2 then (if year % 4 = 0 ∧ (year % 100 ≠ 0 ∨ year % 400 = 0) then 29 else 28)
  else if month = 4 ∨ month = 6 ∨ month = 9 ∨ month = 11 then 30
  else 31

/-- A time: its reading in its zone, and the offset of the zone in seconds. -/
structure Timestamp where
  year : ℤ
  month : ℕ
  day : ℕ
  hour : ℕ
  minute : ℕ
  second : ℕ
  nanosecond : ℕ
  offset : ℤ
  civil : (1 ≤ month ∧ month ≤ 12 ∧ 1 ≤ day ∧ day ≤ daysIn month year) ∧
    hour < 24 ∧ minute < 60 ∧ second < 60 ∧ nanosecond < 10 ^ 9
deriving DecidableEq

namespace Timestamp

/-- The zero `time.Time`. -/
def zero : Timestamp where
  year := 1
  month := 1
  day := 1
  hour := 0
  minute := 0
  second := 0
  nanosecond := 0
  offset := 0
  civil := by decide

/-- `appendNano`: the fraction without its trailing zeros. -/
def fraction (nanosecond : ℕ) : Bytes :=
  let ds := ((digits 9 nanosecond).reverse.dropWhile (· = 0x30)).reverse
  if ds = [] then [] else 0x2E :: ds

/-- The offset of the zone, in minutes. -/
def zoneText (offset : ℤ) : Bytes :=
  if offset = 0 then [0x5A]
  else
    let zone := offset.tdiv 60
    (if zone < 0 then 0x2D else 0x2B) ::
      (digits 2 (zone.natAbs / 60) ++ 0x3A :: digits 2 (zone.natAbs % 60))

/-- `appendStrictRFC3339`: years of four digits and zones of less than a day. -/
def text (t : Timestamp) : Option Bytes :=
  if 0 ≤ t.year ∧ t.year < 10000 ∧ (t.offset.tdiv 60).natAbs / 60 < 24 then
    some (digits 4 t.year.toNat ++
      0x2D :: (digits 2 t.month ++ 0x2D :: (digits 2 t.day ++ 0x54 :: (digits 2 t.hour ++
      0x3A :: (digits 2 t.minute ++
        0x3A :: (digits 2 t.second ++ (fraction t.nanosecond ++ zoneText t.offset)))))))
  else none

/-- `parseNanoseconds`: nine digits count, those that are missing are zeros. -/
def nanoseconds (ds : Bytes) : ℕ := value ((ds ++ List.replicate 9 0x30).take 9)

/-- The fraction at the front of a text. -/
def readFraction : Bytes → ℕ × Bytes
  | b :: s =>
    if b = 0x2E ∧ s.takeWhile isDigit ≠ [] then (nanoseconds (s.takeWhile isDigit), s.dropWhile isDigit)
      else (0, b :: s)
  | [] => (0, [])

/-- The zone at the end of a text. -/
def readZone : Bytes → Option ℤ
  | [] => none
  | b :: s =>
    if b = 0x5A then (if s = [] then some 0 else none)
    else if b = 0x2D ∨ b = 0x2B then
      match number 2 s with
      | none => none
      | some (hours, s) =>
        match byte 0x3A s with
        | none => none
        | some s =>
          match number 2 s with
          | none => none
          | some (minutes, s) =>
            if hours < 24 ∧ minutes < 60 ∧ s = [] then
              some (if b = 0x2D then -(60 * (60 * hours + minutes) : ℤ) else 60 * (60 * hours + minutes))
            else none
    else none

/-- `parseRFC3339`. -/
def parse (s : Bytes) : Option Timestamp := do
  let (year, s) ← number 4 s
  let s ← byte 0x2D s
  let (month, s) ← number 2 s
  let s ← byte 0x2D s
  let (day, s) ← number 2 s
  let s ← byte 0x54 s
  let (hour, s) ← number 2 s
  let s ← byte 0x3A s
  let (minute, s) ← number 2 s
  let s ← byte 0x3A s
  let (second, s) ← number 2 s
  let (nanosecond, s) := readFraction s
  let offset ← readZone s
  if h : (1 ≤ month ∧ month ≤ 12 ∧ 1 ≤ day ∧ day ≤ daysIn month year) ∧
      hour < 24 ∧ minute < 60 ∧ second < 60 ∧ nanosecond < 10 ^ 9 then
    some ⟨year, month, day, hour, minute, second, nanosecond, offset, h⟩
  else none

/-- The time that a text keeps of `t`: the offset is in whole minutes. -/
def inMinutes (t : Timestamp) : Timestamp := { t with offset := 60 * t.offset.tdiv 60 }

/-! ## The fraction -/

theorem value_append_zeros {ds : Bytes} {k : ℕ} :
    value (ds ++ List.replicate k 0x30) = 10 ^ k * value ds := by
  induction k with
  | zero => simp
  | succ k ih =>
    rw [replicate_succ', ← append_assoc, value_append, ih]
    have hz : (0x30 : UInt8).toNat - 0x30 = 0 := by decide
    rw [hz]
    ring

/-- A list of digits is what is left without its trailing zeros, and these. -/
theorem exists_zeros {ds : Bytes} :
    ∃ k, ds = (ds.reverse.dropWhile (· = 0x30)).reverse ++ List.replicate k 0x30 := by
  refine ⟨(ds.reverse.takeWhile (· = 0x30)).length, ?_⟩
  have hzer : ds.reverse.takeWhile (· = 0x30) =
      replicate (ds.reverse.takeWhile (· = 0x30)).length 0x30 := by
    rw [eq_replicate_iff]
    refine ⟨rfl, fun b hb => ?_⟩
    simpa using mem_takeWhile_imp hb
  have hsp : ds.reverse.takeWhile (· = 0x30) ++ ds.reverse.dropWhile (· = 0x30) = ds.reverse :=
    takeWhile_append_dropWhile
  rw [hzer] at hsp
  have hrev := congrArg reverse hsp
  rw [reverse_reverse, reverse_append, reverse_replicate] at hrev
  exact hrev.symm

variable {ds all s : Bytes} {k nanosecond : ℕ} {offset n : ℤ}

theorem take_nine (h : all = ds ++ List.replicate k 0x30) (hlen : all.length = 9) :
    (ds ++ List.replicate 9 0x30).take 9 = all := by
  have hds : ds.length + k = 9 := by rw [h, length_append, length_replicate] at hlen; exact hlen
  rw [take_append, take_of_length_le (by omega), take_replicate, h]
  congr 2
  omega

theorem zoneText_head : ∃ b s, zoneText offset = b :: s ∧ isDigit b = false ∧ b ≠ 0x2E := by
  unfold zoneText
  split
  · exact ⟨_, _, rfl, by decide, by decide⟩
  dsimp only
  split
  · exact ⟨_, _, rfl, by decide, by decide⟩
  · exact ⟨_, _, rfl, by decide, by decide⟩

theorem readFraction_fraction (h : nanosecond < 10 ^ 9) :
    readFraction (fraction nanosecond ++ zoneText offset) = (nanosecond, zoneText offset) := by
  obtain ⟨z, s, hz, hdg, hpoi⟩ := zoneText_head
  obtain ⟨k, hk⟩ := exists_zeros
  have hval := value_digits h
  unfold fraction
  dsimp only
  generalize ((digits 9 nanosecond).reverse.dropWhile (· = 0x30)).reverse = ds at hk
  split
  · next hnil =>
    -- nothing but zeros
    rw [hnil, nil_append] at hk
    have hzr : nanosecond = 0 := by
      rw [← hval, hk, ← nil_append (replicate k 0x30), value_append_zeros]
      simp [value]
    rw [nil_append, hz, readFraction, if_neg (fun hb => hpoi hb.1), hzr]
  · next hne =>
    have hall : ∀ b ∈ ds, isDigit b := by
      intro b hb
      exact isDigit_of_mem_digits (hk ▸ mem_append_left _ hb)
    have hst : ¬ isDigit z := by simp [hdg]
    have htk : (ds ++ zoneText offset).takeWhile isDigit = ds := by
      rw [takeWhile_append_of_pos hall, hz, takeWhile_cons_of_neg hst, append_nil]
    have hdr : (ds ++ zoneText offset).dropWhile isDigit = zoneText offset := by
      rw [dropWhile_append_of_pos hall, hz, dropWhile_cons_of_neg hst]
    have hnn := take_nine hk length_digits
    rw [cons_append, readFraction, if_pos ⟨rfl, by rw [htk]; exact hne⟩, htk, hdr, nanoseconds, hnn, hval]

/-! ## The zone -/

theorem readZone_zoneText (h : (offset.tdiv 60).natAbs / 60 < 24) :
    readZone (zoneText offset) = some (60 * offset.tdiv 60) := by
  unfold zoneText
  split
  · next hz => rw [hz]; rfl
  set zone := offset.tdiv 60
  set sign : UInt8 := if zone < 0 then 0x2D else 0x2B with hsg
  have hkd : sign ≠ 0x5A ∧ (sign = 0x2D ∨ sign = 0x2B) := by
    rw [hsg]
    split <;> decide
  have hmin : zone.natAbs % 60 < 60 := Nat.mod_lt _ (by decide)
  have hls : number 2 (digits 2 (zone.natAbs % 60)) = some (zone.natAbs % 60, []) := by
    have hrd := number_digits (w := 2) (n := zone.natAbs % 60) (by omega) []
    rwa [append_nil] at hrd
  rw [readZone.eq_def]
  dsimp only
  rw [if_neg hkd.1, if_pos hkd.2, number_digits (by omega)]
  dsimp only
  rw [byte_cons]
  dsimp only
  rw [hls]
  dsimp only
  rw [if_pos ⟨h, hmin, rfl⟩]
  congr 1
  by_cases hneg : zone < 0
  · rw [if_pos hneg, if_pos rfl]
    omega
  · rw [if_neg hneg, if_neg (by decide)]
    omega

/-! ## The whole text -/

variable {t : Timestamp}

/-- **A time written out is read back, its offset in whole minutes.** -/
theorem parse_text (h : t.text = some s) : parse s = some t.inMinutes := by
  unfold text at h
  split at h
  · next hrg =>
    obtain ⟨hyr, hyr', hzn⟩ := hrg
    cases h
    obtain ⟨⟨hm, hm', hd, hd'⟩, hh, hmin, hs, hn⟩ := t.civil
    have hday : t.day ≤ 31 := by
      refine hd'.trans ?_
      unfold daysIn
      split
      · split <;> omega
      · split <;> omega
    have hcs : t.year.toNat = t.year := Int.toNat_of_nonneg hyr
    have hciv := t.civil
    unfold parse
    rw [number_digits (by omega)]
    simp only [bind_eq_bind, bind_some, byte_cons]
    rw [number_digits (by omega)]
    simp only [bind_some, byte_cons]
    rw [number_digits (by omega)]
    simp only [bind_some, byte_cons]
    rw [number_digits (by omega)]
    simp only [bind_some, byte_cons]
    rw [number_digits (by omega)]
    simp only [bind_some, byte_cons]
    rw [number_digits (by omega)]
    simp only [bind_some, readFraction_fraction hn, readZone_zoneText hzn, hcs]
    rw [dif_pos hciv]
    rfl
  · cases h

/-- The offset survives being written: there is none, or it is a minute at least. -/
def ZoneKept (t : Timestamp) : Prop := t.offset = 0 ∨ 60 ≤ t.offset ∨ t.offset ≤ -60

instance (t : Timestamp) : Decidable t.ZoneKept := inferInstanceAs (Decidable (_ ∨ _ ∨ _))

theorem tdiv_sixty : (60 * n).tdiv 60 = n := Int.mul_tdiv_cancel_left n (by decide)

/-- A zone is written the same way again, unless it was closer than a minute. -/
theorem zoneText_minutes_iff : zoneText (60 * t.offset.tdiv 60) = zoneText t.offset ↔ t.ZoneKept := by
  have hzr : t.offset.tdiv 60 = 0 ↔ -60 < t.offset ∧ t.offset < 60 := by
    have hdiv : (t.offset.tdiv 60).natAbs = t.offset.natAbs / 60 := Int.natAbs_tdiv t.offset 60
    omega
  have hmul : 60 * t.offset.tdiv 60 = 0 ↔ t.offset.tdiv 60 = 0 := by omega
  unfold ZoneKept
  by_cases hz : t.offset.tdiv 60 = 0
  · -- the offset that is read back is none
    have hrd : zoneText (60 * t.offset.tdiv 60) = [0x5A] := if_pos (hmul.2 hz)
    rw [hrd]
    constructor
    · intro h
      by_contra hne
      rw [zoneText, if_neg (by omega)] at h
      rw [cons.injEq] at h
      have hlen := congrArg length h.2
      simp at hlen
    · intro h
      rw [zoneText, if_pos (by omega)]
  · have hout : t.offset ≠ 0 := fun h => hz (by rw [h]; rfl)
    have hsm : zoneText (60 * t.offset.tdiv 60) = zoneText t.offset := by
      rw [zoneText, zoneText, if_neg (fun h => hz (hmul.1 h)), if_neg hout, tdiv_sixty]
    rw [iff_true_left hsm]
    omega

/-- **A time that is read back has the same text, unless its zone was closer than a minute.** -/
theorem text_inMinutes (h : t.text = some s) :
    ∃ s', t.inMinutes.text = some s' ∧ (s' = s ↔ t.ZoneKept) := by
  unfold text at h ⊢
  split at h
  · next hrg =>
    cases h
    have hrg' : 0 ≤ t.inMinutes.year ∧ t.inMinutes.year < 10000 ∧
        (t.inMinutes.offset.tdiv 60).natAbs / 60 < 24 := by
      simp only [inMinutes, tdiv_sixty]
      exact hrg
    refine ⟨_, if_pos hrg', ?_⟩
    rw [← zoneText_minutes_iff]
    simp only [inMinutes, append_cancel_left_eq, cons.injEq, true_and]
  · cases h

/-- The text of a time is ASCII without quotes and backslashes. -/
def isTimeByte (b : UInt8) : Bool := isDigit b || b = 0x2D || b = 0x2B || b = 0x2E ||
    b = 0x3A || b = 0x54 || b = 0x5A

theorem all_isTimeByte (h : t.text = some s) : s.all isTimeByte := by
  have hdig : ∀ w n, (digits w n).all isTimeByte := fun w n =>
    all_eq_true.2 fun b hb => by simp [isTimeByte, isDigit_of_mem_digits hb]
  have hfr : ∀ n, (fraction n).all isTimeByte := by
    intro n
    unfold fraction
    dsimp only
    split
    · rfl
    rw [all_cons, all_reverse]
    have hsub : ∀ b ∈ (digits 9 n).reverse.dropWhile (· = 0x30), isTimeByte b := fun b hb =>
      all_eq_true.1 (hdig 9 n) b (mem_reverse.1 ((dropWhile_sublist _).subset hb))
    rw [all_eq_true.2 hsub]
    decide
  have hzn : ∀ o, (zoneText o).all isTimeByte := by
    intro o
    unfold zoneText
    split
    · decide
    · dsimp only
      split <;> simp [hdig] <;> decide
  unfold text at h
  split at h
  · cases h
    simp only [all_append, all_cons, hdig, hfr, hzn]
    decide
  · cases h

end Timestamp
