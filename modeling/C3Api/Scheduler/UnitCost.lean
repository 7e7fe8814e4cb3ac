import C3Api.Scheduler.Decide
import Mathlib.Tactic.Ring

/-!
# The unit cost in machine words

`routing_compiler_arithmetic.go` computes the price of a route in 192 bits. A word is a natural
number below `word`, and `bits.Div64` panics where the quotient needs more than one word.
-/

namespace C3Api.Scheduler

open Machine Option

def word : Nat := 18446744073709551616

def bitsMul64 (x y : Nat) : Nat × Nat := (x * y / word, x * y % word)

def bitsAdd64 (x y carry : Nat) : Nat × Nat := ((x + y + carry) % word, (x + y + carry) / word)

def bitsDiv64 (hi lo y : Nat) : Option (Nat × Nat) :=
  if hi < y then some ((word * hi + lo) / y, (word * hi + lo) % y) else none

def weightedPrice (billable inputPrice cached cachePrice : Nat) : Nat × Nat :=
  let (hi, lo) := bitsMul64 billable inputPrice
  let (hi2, lo2) := bitsMul64 cached cachePrice
  let (sum, carry) := bitsAdd64 lo lo2 0
  ((hi + hi2 + carry) % word, sum)

def mul192 (hi lo m : Nat) : Nat × Nat × Nat :=
  let (loHi, loLo) := bitsMul64 lo m
  let (hiHi, hiLo) := bitsMul64 hi m
  let (mid, carry) := bitsAdd64 loHi hiLo 0
  ((hiHi + carry) % word, mid, loLo)

def div192By64 (n : Nat × Nat × Nat) (d : Nat) : Option (Nat × Nat × Nat) := do
  let (q2, r2) ← bitsDiv64 0 n.1 d
  let (q1, r1) ← bitsDiv64 r2 n.2.1 d
  let (q0, _) ← bitsDiv64 r1 n.2.2 d
  return (q2, q1, q0)

/-- `InputUnitPurchaseCost`, or `none` when it panics. -/
def unitPurchaseCost (mult billable cached inputPrice cachePrice denom : Nat) : Option Int := do
  let (pHi, pLo) := weightedPrice billable inputPrice cached cachePrice
  let q ← div192By64 (mul192 pHi pLo mult) denom
  let s ← div192By64 q 10000
  if s.1 ≠ 0 ∨ s.2.1 ≠ 0 ∨ maxInt64 < s.2.2 then return maxInt64 else return s.2.2

def value (n : Nat × Nat × Nat) : Nat := word * (word * n.1 + n.2.1) + n.2.2

section

variable {hi lo m d : Nat}

theorem weightedPrice_value {b p c q : Nat} (first : b * p < 2 ^ 63 * 2 ^ 63)
    (second : c * q < 2 ^ 63 * 2 ^ 63) :
    word * (weightedPrice b p c q).1 + (weightedPrice b p c q).2 = b * p + c * q ∧
      (weightedPrice b p c q).1 < word ∧ (weightedPrice b p c q).2 < word := by
  simp only [weightedPrice, bitsMul64, bitsAdd64, word]
  omega

theorem mul192_value (high : hi < word) (small : m ≤ 100000) (low : lo < word) :
    value (mul192 hi lo m) = (word * hi + lo) * m := by
  have highs := Nat.mul_le_mul high.le small
  have lows := Nat.mul_le_mul low.le small
  rw [Nat.add_mul, Nat.mul_assoc]
  simp only [value, mul192, bitsMul64, bitsAdd64, word] at *
  omega

/-- One digit of a long division. -/
theorem digit_div (a x : Nat) (pos : 0 < d) :
    (word * a + x) / d = word * (a / d) + (word * (a % d) + x) / d ∧
      (word * a + x) % d = (word * (a % d) + x) % d := by
  have parts : word * a + x = word * (a % d) + x + d * (word * (a / d)) := by
    conv_lhs => rw [← Nat.mod_add_div a d]
    ring
  rw [parts, Nat.add_mul_div_left _ _ pos, Nat.add_mul_mod_self_left]
  exact ⟨Nat.add_comm _ _, rfl⟩

theorem div192By64_value (n : Nat × Nat × Nat) (pos : 0 < d) :
    ∃ q, div192By64 n d = some q ∧ value q = value n / d := by
  obtain ⟨n2, n1, n0⟩ := n
  have rest : ∀ a, a % d < d := fun a => Nat.mod_lt a pos
  refine ⟨(n2 / d, (word * (n2 % d) + n1) / d, (word * ((word * (n2 % d) + n1) % d) + n0) / d),
    ?_, ?_⟩
  · simp only [div192By64, bitsDiv64, if_pos pos, if_pos (rest _), Nat.mul_zero, Nat.zero_add,
      bind_eq_bind, bind_some, pure_def]
  · simp only [value]
    rw [(digit_div (word * n2 + n1) n0 pos).1, (digit_div n2 n1 pos).1, (digit_div n2 n1 pos).2]

end

/-- The cost is exact until it saturates, for all sums of tokens, and nothing panics. -/
theorem unit_cost_exact (mult b c p q : Nat) (tokens : b < 2 ^ 63 ∧ c < 2 ^ 63)
    (prices : p < 2 ^ 63 ∧ q < 2 ^ 63) (used : 0 < b + c) (bound : mult ≤ 100000) :
    unitPurchaseCost mult b c p q ((b + c) % word) =
        some (inputUnitPurchaseCost mult b c p q (b + c)) ∧
      inputUnitPurchaseCost mult b c p q (b + c) =
        min ((mult * (b * p + c * q) / ((b + c) * 10000) : Nat) : Int) maxInt64 := by
  have formula : inputUnitPurchaseCost mult b c p q (b + c) =
      min ((mult * (b * p + c * q) / ((b + c) * 10000) : Nat) : Int) maxInt64 := by
    rw [inputUnitPurchaseCost, Int.ediv_ediv_of_nonneg (by omega)]
    rfl
  refine ⟨?_, formula⟩
  obtain ⟨sum, high, low⟩ := weightedPrice_value (Nat.mul_lt_mul'' tokens.1 prices.1)
    (Nat.mul_lt_mul'' tokens.2 prices.2)
  have denom : (b + c) % word = b + c := Nat.mod_eq_of_lt (by simp only [word]; omega)
  obtain ⟨d, divided, quotient⟩ := div192By64_value _ used
  obtain ⟨s, scaled, result⟩ := div192By64_value d (d := 10000) (by decide)
  rw [quotient, mul192_value high bound low, sum, Nat.mul_comm, Nat.div_div_eq_div_mul] at result
  rw [formula, ← result, unitPurchaseCost, denom]
  simp only [divided, scaled, bind_eq_bind, bind_some, value]
  split
  next large => exact congrArg some (min_eq_right (by simp only [word, maxInt64] at *; omega)).symm
  next small =>
    simp only [not_or, not_not, not_lt] at small
    obtain ⟨top, middle, fits⟩ := small
    rw [top, middle, min_eq_left (by simpa using fits)]
    simp

/-- The sum of these tokens is no longer a signed word. -/
theorem unit_cost_exact_overflowing :
    unitPurchaseCost 10000 (2 ^ 63 - 1) (2 ^ 63 - 1) 3 5 ((2 ^ 63 - 1 + (2 ^ 63 - 1)) % word) =
      some 4 := by
  obtain ⟨computed, exactly⟩ := unit_cost_exact 10000 (2 ^ 63 - 1) (2 ^ 63 - 1) 3 5
    (by decide) (by decide) (by decide) (by decide)
  rw [computed, exactly]
  decide

end C3Api.Scheduler
