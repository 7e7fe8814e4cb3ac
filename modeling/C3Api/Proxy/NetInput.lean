import C3Api.Protoconv.RespToMess
import C3Api.Proxy.UsageExtract

/-!
# Net input tokens

The share of the input that is billed at the input price is worked out twice: by the
extraction of usage from native responses, and by the conversion of a response to the
Messages protocol.  Both are the difference over the integers as long as the two cache
counts together are a word; beyond that the first takes the whole input and the second may turn
round to a positive number.
-/

namespace C3Api.Proxy

open Machine

def netInput (gross cacheRead cacheWrite : Int) : Int := max 0 (gross - cacheRead - cacheWrite)

section

variable {gross cacheRead cacheWrite : Int} (gross_nonneg : 0 ≤ gross) (gross_fits : Fits gross)
  (read_nonneg : 0 ≤ cacheRead) (read_fits : Fits cacheRead) (write_nonneg : 0 ≤ cacheWrite)
  (write_fits : Fits cacheWrite)

include gross_nonneg gross_fits read_nonneg read_fits write_nonneg write_fits

/-- A sum of cache counts that is no word turns negative, and the whole input is billed. -/
theorem deductCacheTokens_exact :
    deductCacheTokens gross cacheRead cacheWrite = netInput gross cacheRead cacheWrite ↔
      cacheRead + cacheWrite ≤ maxInt64 ∨ gross = 0 := by
  obtain ⟨-, upper⟩ := fits_iff.mp gross_fits
  obtain ⟨-, read⟩ := fits_iff.mp read_fits
  obtain ⟨-, write⟩ := fits_iff.mp write_fits
  simp only [deductCacheTokens, if_neg (not_lt.mpr read_nonneg),
    if_neg (not_lt.mpr write_nonneg), netInput]
  by_cases word : cacheRead + cacheWrite ≤ maxInt64
  · have cache_fits : Fits (cacheRead + cacheWrite) := ⟨by unfold minInt64; omega, word⟩
    rw [add64_of_fits cache_fits]
    unfold maxInt64 at word ⊢
    split
    · omega
    split
    · omega
    · rw [sub64_of_fits (fits_iff.mpr (by omega))]
      omega
  · unfold add64 maxInt64 at *
    rw [wrap_of_overflow (by unfold maxInt64; omega) (by unfold maxInt64; omega), if_pos (by omega)]
    omega

/-- A difference that is no word turns positive. -/
theorem respInputNet_exact :
    Protoconv.respInputNet gross cacheRead cacheWrite = netInput gross cacheRead cacheWrite ↔
      minInt64 ≤ gross - cacheRead - cacheWrite := by
  obtain ⟨-, upper⟩ := fits_iff.mp gross_fits
  obtain ⟨-, read⟩ := fits_iff.mp read_fits
  obtain ⟨-, write⟩ := fits_iff.mp write_fits
  rw [Protoconv.respInputNet, sub64_of_fits (a := gross) (fits_iff.mpr (by omega)), netInput]
  by_cases word : minInt64 ≤ gross - cacheRead - cacheWrite
  · have fits : Fits (gross - cacheRead - cacheWrite) := ⟨word, by unfold maxInt64; omega⟩
    rw [sub64_of_fits fits]
    exact iff_of_true rfl word
  · unfold sub64 minInt64 at *
    rw [wrap_of_underflow (by unfold minInt64; omega) (by unfold minInt64; omega)]
    omega

end

/-- Both sides bill the net input if and only if the cache counts together are a word, or the
input is zero and they exceed a word by one. -/
theorem net_input_agrees {gross cacheRead cacheWrite : Int} (gross_nonneg : 0 ≤ gross)
    (gross_fits : Fits gross) (read_nonneg : 0 ≤ cacheRead) (read_fits : Fits cacheRead)
    (write_nonneg : 0 ≤ cacheWrite) (write_fits : Fits cacheWrite) :
    (deductCacheTokens gross cacheRead cacheWrite = netInput gross cacheRead cacheWrite ∧
      Protoconv.respInputNet gross cacheRead cacheWrite = netInput gross cacheRead cacheWrite) ↔
      cacheRead + cacheWrite ≤ maxInt64 ∨ gross = 0 ∧ cacheRead + cacheWrite = maxInt64 + 1 := by
  rw [deductCacheTokens_exact gross_nonneg gross_fits read_nonneg read_fits write_nonneg write_fits,
    respInputNet_exact gross_nonneg gross_fits read_nonneg read_fits write_nonneg write_fits]
  unfold maxInt64 minInt64
  omega

theorem net_input_agrees_cached :
    deductCacheTokens 1000 400 100 = 500 ∧ Protoconv.respInputNet 1000 400 100 = 500 :=
  (net_input_agrees (by decide) (by decide) (by decide) (by decide) (by decide) (by decide)).mpr
    (.inl (by decide))

/-- Cache counts whose sum is not a word: the native extraction sees a negative sum and bills
the whole input, the conversion may turn round to a positive one. -/
theorem cache_sum_wraps :
    deductCacheTokens 10 4611686018427387904 4611686018427387904 = 10 ∧
      Protoconv.respInputNet 10 4611686018427387904 4611686018427387904 = 0 ∧
      Protoconv.respInputNet 0 9223372036854775807 9223372036854775807 = 2 ∧
      netInput 10 4611686018427387904 4611686018427387904 = 0 ∧
      netInput 0 9223372036854775807 9223372036854775807 = 0 := by
  decide

end C3Api.Proxy
