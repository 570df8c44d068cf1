import Cordum.Workflow.Engine

/-!
# The delays between attempts

`backoff_wellFormed_iff`: the delay of a retry is what the exponential gives, up to the cap, if that
many nanoseconds fit into 63 bits. The code multiplies without a check.
-/

namespace Cordum.Flow

variable (retry : RetryConfig)

/-- The seconds of the exponential. -/
def RetryConfig.exponential (attempts : ℤ) : ℚ :=
  let initial : ℤ := if retry.initialBackoffSec ≤ 0 then 1 else retry.initialBackoffSec
  let mult := if retry.multiplier ≤ 1 then 2 else retry.multiplier
  initial * mult ^ (max 1 attempts - 1).toNat

/-- The seconds that an attempt has to wait. -/
def RetryConfig.delay (attempts : ℤ) : ℚ :=
  if 0 < retry.maxBackoffSec then min (retry.maxBackoffSec : ℚ) (retry.exponential attempts)
  else retry.exponential attempts

/-- The wait of a step with this configuration, in nanoseconds. -/
def RetryConfig.backoff (attempts : ℤ) : ℤ := computeBackoff (some { retry := some retry }) { attempts }

/-- A positive wait, no shorter than that of an earlier attempt, within the cap. -/
structure RetryConfig.WellFormed (attempts : ℤ) : Prop where
  positive : 0 < retry.backoff attempts
  mono : ∀ earlier ≤ attempts, retry.backoff earlier ≤ retry.backoff attempts
  capped : 0 < retry.maxBackoffSec → retry.backoff attempts ≤ retry.maxBackoffSec * 1000000000

variable {retry} {m n : ℤ}

theorem exponential_mono (h : m ≤ n) : 1 ≤ retry.exponential m ∧
    retry.exponential m ≤ retry.exponential n := by
  have hini : (1 : ℚ) ≤ (if retry.initialBackoffSec ≤ 0 then 1 else retry.initialBackoffSec : ℤ) := by
    split
    · norm_num
    · rename_i hpos
      exact_mod_cast Int.add_one_le_iff.2 (Int.not_le.1 hpos)
  have hml : 1 ≤ if retry.multiplier ≤ 1 then 2 else retry.multiplier := by
    split
    · norm_num
    · exact (not_le.1 ‹_›).le
  have hexp : (max 1 m - 1).toNat ≤ (max 1 n - 1).toNat := by omega
  exact ⟨one_le_mul_of_one_le_of_one_le hini (one_le_pow₀ hml),
    mul_le_mul_of_nonneg_left (pow_le_pow_right₀ hml hexp) (by linarith)⟩

theorem delay_mono (h : m ≤ n) : 1 ≤ retry.delay m ∧ retry.delay m ≤ retry.delay n := by
  obtain ⟨hone, hle⟩ : 1 ≤ retry.exponential m ∧ retry.exponential m ≤ retry.exponential n :=
    exponential_mono h
  unfold RetryConfig.delay
  split
  · rename_i hcap
    exact ⟨le_min (by exact_mod_cast hcap) hone, min_le_min_left _ hle⟩
  · exact ⟨hone, hle⟩

theorem delay_le_cap (hcap : 0 < retry.maxBackoffSec) : retry.delay n ≤ retry.maxBackoffSec := by
  rw [RetryConfig.delay, if_pos hcap]
  exact min_le_left _ _

theorem backoff_eq : retry.backoff n = Int.bmod (⌊retry.delay n⌋ * 1000000000) (2 ^ 64) := by
  have hdel : retry.delay n =
      if 0 < retry.maxBackoffSec ∧ (retry.maxBackoffSec : ℚ) < retry.exponential n
      then (retry.maxBackoffSec : ℚ)
      else retry.exponential n := by
    unfold RetryConfig.delay
    split_ifs <;> grind
  rw [hdel]
  rfl

/-- **When a retry waits as it is configured**: its wait is well-formed, and fits into a duration. -/
theorem backoff_wellFormed_iff : retry.WellFormed n ∧ retry.backoff n = ⌊retry.delay n⌋ * 1000000000 ↔
    ⌊retry.delay n⌋ * 1000000000 < 2 ^ 63 := by
  have hflr : ∀ {k}, 1 ≤ ⌊retry.delay k⌋ := Int.le_floor.2 (by exact_mod_cast (delay_mono le_rfl).1)
  have hmn : ∀ {k}, k ≤ n → ⌊retry.delay k⌋ ≤ ⌊retry.delay n⌋ :=
    fun hk => Int.floor_le_floor (delay_mono hk).2
  refine ⟨fun h => ?_, fun hft => ?_⟩
  · have hex := h.2
    rw [backoff_eq] at hex
    have := Int.bmod_lt (x := ⌊retry.delay n⌋ * 1000000000) (m := 2 ^ 64) (by decide)
    omega
  · have hex : ∀ k ≤ n, retry.backoff k = ⌊retry.delay k⌋ * 1000000000 := by
      intro k hk
      have hpos := @hflr k
      have hle := hmn hk
      rw [backoff_eq, Int.bmod_eq_of_le] <;> omega
    have hpos := @hflr n
    refine ⟨⟨?_, fun k hk => ?_, fun hcap => ?_⟩, hex n le_rfl⟩
    · rw [hex n le_rfl]
      omega
    · have hle := hmn hk
      rw [hex n le_rfl, hex k hk]
      omega
    · have hle : ⌊retry.delay n⌋ ≤ retry.maxBackoffSec := by
        exact_mod_cast (Int.floor_le _).trans (delay_le_cap hcap)
      rw [hex n le_rfl]
      omega

/-- **Ten billion seconds are a negative wait.** -/
theorem long_backoff_negative :
    shouldRetry (some { retry := some { maxRetries := 1, initialBackoffSec := 10000000000 } })
      { attempts := 1 } = true ∧
    RetryConfig.backoff { maxRetries := 1, initialBackoffSec := 10000000000 } 1 < 0 := by
  decide +kernel

end Cordum.Flow
