import Mathlib.Tactic.Linarith

/-!
# Signed 64-bit arithmetic on integers

A machine word is an integer in the range of `Fits`. Every operation is the
exact integer operation followed by `wrap`, the two's complement reduction, and
agrees with the exact one whenever the exact result fits. Division truncates
towards zero.
-/

namespace Machine

def maxInt64 : Int := 9223372036854775807

def minInt64 : Int := -9223372036854775808

/-- The integers a 64-bit word can hold. -/
def Fits (x : Int) : Prop := minInt64 ≤ x ∧ x ≤ maxInt64

instance (x : Int) : Decidable (Fits x) :=
  inferInstanceAs (Decidable (minInt64 ≤ x ∧ x ≤ maxInt64))

/-- Two's complement reduction to 64 bits. -/
def wrap (x : Int) : Int := x.bmod 18446744073709551616

def add64 (a b : Int) : Int := wrap (a + b)

def sub64 (a b : Int) : Int := wrap (a - b)

def mul64 (a b : Int) : Int := wrap (a * b)

def div64 (a b : Int) : Int := wrap (a.tdiv b)

def mod64 (a b : Int) : Int := wrap (a.tmod b)

variable {x a b : Int}

theorem fits_iff : Fits x ↔ -9223372036854775808 ≤ x ∧ x ≤ 9223372036854775807 := Iff.rfl

theorem wrap_of_fits (fits : Fits x) : wrap x = x := by
  obtain ⟨lower, upper⟩ := fits_iff.mp fits
  exact Int.bmod_eq_of_le (by omega) (by omega)

theorem wrap_fits (x : Int) : Fits (wrap x) := by
  have lower := Int.le_bmod (x := x) (m := 18446744073709551616) (by decide)
  have upper := Int.bmod_lt (x := x) (m := 18446744073709551616) (by decide)
  exact fits_iff.mpr ⟨by unfold wrap; omega, by unfold wrap; omega⟩

/-- Above the range by less than one full turn, the word has turned negative. -/
theorem wrap_of_overflow (high : maxInt64 < x) (turn : x ≤ maxInt64 + 18446744073709551616) :
    wrap x = x - 18446744073709551616 := by
  unfold maxInt64 at high turn
  unfold wrap
  rw [← Int.sub_bmod_right]
  exact Int.bmod_eq_of_le (by omega) (by omega)

/-- Below the range by less than one full turn, the word has turned positive. -/
theorem wrap_of_underflow (low : x < minInt64) (turn : minInt64 - 18446744073709551616 ≤ x) :
    wrap x = x + 18446744073709551616 := by
  unfold minInt64 at low turn
  unfold wrap
  rw [← Int.add_bmod_right]
  exact Int.bmod_eq_of_le (by omega) (by omega)

/-- Above the range a word has lost a full turn or more. -/
theorem wrap_le_of_overflow (high : maxInt64 < x) : wrap x ≤ x - 18446744073709551616 := by
  obtain ⟨-, upper⟩ := fits_iff.mp (wrap_fits x)
  obtain ⟨turns, lost⟩ : (18446744073709551616 : Int) ∣ x - wrap x := Int.dvd_self_sub_bmod
  unfold maxInt64 at high
  omega

theorem add64_of_fits (fits : Fits (a + b)) : add64 a b = a + b :=
  wrap_of_fits fits

theorem sub64_of_fits (fits : Fits (a - b)) : sub64 a b = a - b :=
  wrap_of_fits fits

theorem mul64_of_fits (fits : Fits (a * b)) : mul64 a b = a * b :=
  wrap_of_fits fits

theorem div64_of_pos (fits : Fits a) (positive : 0 < b) : div64 a b = a.tdiv b := by
  apply wrap_of_fits
  obtain ⟨lower, upper⟩ := fits_iff.mp fits
  rw [fits_iff]
  rcases le_total 0 a with nonneg | nonpos
  · have atMost := Int.ediv_le_self b nonneg
    have atLeast := Int.ediv_nonneg nonneg positive.le
    rw [Int.tdiv_eq_ediv_of_nonneg nonneg]
    omega
  · have magnitude : (a.tdiv b).natAbs ≤ a.natAbs := by
      rw [Int.natAbs_tdiv]
      exact Nat.div_le_self _ _
    have sign : 0 ≤ (-a).tdiv b := Int.tdiv_nonneg (by omega) positive.le
    rw [Int.neg_tdiv] at sign
    omega

theorem div64_of_nonneg (fits : Fits a) (nonneg : 0 ≤ a) (positive : 0 < b) :
    div64 a b = a / b := by
  rw [div64_of_pos fits positive, Int.tdiv_eq_ediv_of_nonneg nonneg]

end Machine
