import C3Api.Machine.Int64
import Mathlib.Data.List.TakeWhile

/-!
# Decimal numbers in a text

The verb `%d` of a format and of a scan. A scan passes over white space, reads a sign and
digits and leaves the rest; a number that is no word is an error. What is written is read
back.
-/

namespace Scan

open List Machine

/-- The white space of Unicode. -/
def isSpace (c : Char) : Bool :=
  let n := c.toNat
  (9 ≤ n && n ≤ 13) || [0x20, 0x85, 0xA0, 0x1680, 0x2028, 0x2029, 0x202f, 0x205f, 0x3000].contains n ||
    (0x2000 ≤ n && n ≤ 0x200a)

def formatInt : Int → List Char
  | .ofNat n => Nat.toDigits 10 n
  | .negSucc n => '-' :: Nat.toDigits 10 (n + 1)

def scanDigits (sign : Int) (s : List Char) : Option (Int × List Char) :=
  let value := sign * (Nat.ofDigitChars 10 (s.takeWhile Char.isDigit) 0 : Nat)
  if s.takeWhile Char.isDigit = [] ∨ ¬Fits value then none
  else some (value, s.dropWhile Char.isDigit)

def scanDecimal (s : List Char) : Option (Int × List Char) :=
  -- a line break is no space within one scan and ends it like any other character
  match s.dropWhile fun c => isSpace c && c != '\n' with
  | '-' :: rest => scanDigits (-1) rest
  | '+' :: rest => scanDigits 1 rest
  | rest => scanDigits 1 rest

theorem isDigit_of_mem_toDigits {n : Nat} {c : Char} (member : c ∈ Nat.toDigits 10 n) :
    c.isDigit = true :=
  Nat.isDigit_of_mem_toDigits (by decide) (by decide) member

theorem digit_plain {c : Char} (digit : c.isDigit = true) :
    isSpace c = false ∧ c ≠ '-' ∧ c ≠ '+' ∧ c ≠ ':' := by
  refine ⟨?_, ?_, ?_, ?_⟩
  · have bounds : 48 ≤ c.toNat ∧ c.toNat ≤ 57 := by
      simpa [Char.isDigit, UInt32.le_iff_toNat_le] using digit
    simp only [isSpace, Bool.or_eq_false_iff]
    refine ⟨⟨?_, ?_⟩, ?_⟩ <;> simp <;> omega
  all_goals
    rintro rfl
    revert digit
    decide

theorem scanDigits_toDigits {sign : Int} {n : Nat} (fits : Fits (sign * n)) :
    scanDigits sign (Nat.toDigits 10 n) = some (sign * n, []) := by
  have digits : ∀ c ∈ Nat.toDigits 10 n, c.isDigit = true := fun c => isDigit_of_mem_toDigits
  rw [scanDigits, takeWhile_eq_self_iff.mpr digits, dropWhile_eq_nil_iff.mpr digits,
    Nat.ofDigitChars_ten_toDigits]
  exact if_neg (by simp [Nat.toDigits_ne_nil, fits])

theorem scanDecimal_formatInt {i : Int} (fits : Fits i) :
    scanDecimal (formatInt i) = some (i, []) := by
  cases i with
  | ofNat n =>
    have digits : scanDigits 1 (Nat.toDigits 10 n) = _ := scanDigits_toDigits (by simpa using fits)
    rw [formatInt]
    cases text : Nat.toDigits 10 n with
    | nil => exact absurd text Nat.toDigits_ne_nil
    | cons c rest =>
      have first : c ∈ Nat.toDigits 10 n := by rw [text]; exact mem_cons_self
      obtain ⟨solid, notMinus, notPlus, -⟩ := digit_plain (isDigit_of_mem_toDigits first)
      rw [text] at digits
      rw [scanDecimal, dropWhile_cons_of_neg (by simp [solid])]
      split
      next same => exact absurd (List.cons.inj same).1 notMinus
      next same => exact absurd (List.cons.inj same).1 notPlus
      · simpa using digits
  | negSucc n =>
    have value : Int.negSucc n = -1 * ((n + 1 : Nat) : Int) := by omega
    rw [formatInt, scanDecimal, dropWhile_cons_of_neg (by decide), value]
    exact scanDigits_toDigits (value ▸ fits)

theorem colon_notMem_formatInt (i : Int) : ':' ∉ formatInt i := by
  intro member
  cases i with
  | ofNat n => exact (digit_plain (isDigit_of_mem_toDigits member)).2.2.2 rfl
  | negSucc n =>
    rcases mem_cons.mp member with same | member
    · exact absurd same (by decide)
    · exact (digit_plain (isDigit_of_mem_toDigits member)).2.2.2 rfl

end Scan
