import Mathlib.Data.List.Basic

/-!
# Base64 without padding

The alphabet for addresses, three bytes in four digits. A reader passes over line breaks, takes
a last group of two or three digits and does not look at the bits that such a group leaves over.
-/

namespace Base64

open List Option

def digit (n : Nat) : UInt8 :=
  UInt8.ofNat
    (if n < 26 then 65 + n else if n < 52 then 71 + n else if n < 62 then n - 4
    else if n = 62 then 45 else 95)

def value (c : UInt8) : Option Nat :=
  if 65 ≤ c ∧ c ≤ 90 then some (c.toNat - 65)
  else if 97 ≤ c ∧ c ≤ 122 then some (c.toNat - 71)
  else if 48 ≤ c ∧ c ≤ 57 then some (c.toNat + 4)
  else if c = 45 then some 62
  else if c = 95 then some 63
  else none

/-- The second, third and fourth digit of a group, by the bytes they lie between. -/
def second (a b : UInt8) : UInt8 := digit (a.toNat % 4 * 16 + b.toNat / 16)

def third (b c : UInt8) : UInt8 := digit (b.toNat % 16 * 4 + c.toNat / 64)

def encode : List UInt8 → List UInt8
  | [] => []
  | [a] => [digit (a.toNat / 4), second a 0]
  | [a, b] => [digit (a.toNat / 4), second a b, third b 0]
  | a :: b :: c :: rest =>
    digit (a.toNat / 4) :: second a b :: third b c :: digit (c.toNat % 64) :: encode rest

/-- The bytes of a group of digits. -/
def first (i j : Nat) : UInt8 := UInt8.ofNat (i * 4 + j / 16)

def middle (j k : Nat) : UInt8 := UInt8.ofNat (j % 16 * 16 + k / 4)

def final (k l : Nat) : UInt8 := UInt8.ofNat (k % 4 * 64 + l)

def decodeGroups : List UInt8 → Option (List UInt8)
  | [] => some []
  | [_] => none
  | [a, b] => do
    let i ← value a
    let j ← value b
    pure [first i j]
  | [a, b, c] => do
    let i ← value a
    let j ← value b
    let k ← value c
    pure [first i j, middle j k]
  | a :: b :: c :: d :: rest => do
    let i ← value a
    let j ← value b
    let k ← value c
    let l ← value d
    let bytes ← decodeGroups rest
    pure (first i j :: middle j k :: final k l :: bytes)

def isBreak (c : UInt8) : Bool := c = 10 || c = 13

def decode (text : List UInt8) : Option (List UInt8) :=
  decodeGroups (text.filter fun c => !isBreak c)

variable (a b c : UInt8)

theorem value_digit : ∀ n < 64, value (digit n) = some n := by
  decide +kernel

theorem digit_ascii (n : Nat) : digit n < 128 ∧ isBreak (digit n) = false := by
  have small : ∀ n < 64, digit n < 128 ∧ isBreak (digit n) = false := by decide +kernel
  rcases Nat.lt_or_ge n 64 with lt | ge
  · exact small n lt
  · have last : digit n = digit 63 := by
      simp [digit, show ¬n < 26 by omega, show ¬n < 52 by omega, show ¬n < 62 by omega,
        show ¬n = 62 by omega]
    rw [last]
    exact small 63 (by decide)

/-- The digits of three bytes, as numbers. -/
theorem group_values :
    value (digit (a.toNat / 4)) = some (a.toNat / 4) ∧
      value (second a b) = some (a.toNat % 4 * 16 + b.toNat / 16) ∧
      value (third b c) = some (b.toNat % 16 * 4 + c.toNat / 64) ∧
      value (digit (c.toNat % 64)) = some (c.toNat % 64) := by
  have := a.toNat_lt
  have := b.toNat_lt
  have := c.toNat_lt
  exact ⟨value_digit _ (by omega), value_digit _ (by omega), value_digit _ (by omega),
    value_digit _ (by omega)⟩

theorem group_bytes :
    first (a.toNat / 4) (a.toNat % 4 * 16 + b.toNat / 16) = a ∧
      middle (a.toNat % 4 * 16 + b.toNat / 16) (b.toNat % 16 * 4 + c.toNat / 64) = b ∧
      final (b.toNat % 16 * 4 + c.toNat / 64) (c.toNat % 64) = c := by
  have := a.toNat_lt
  have := b.toNat_lt
  have := c.toNat_lt
  have ofSame (n : Nat) (x : UInt8) (same : n = x.toNat) : UInt8.ofNat n = x := by
    rw [same, UInt8.ofNat_toNat]
  exact ⟨ofSame _ a (by omega), ofSame _ b (by omega), ofSame _ c (by omega)⟩

theorem decodeGroups_encode (bytes : List UInt8) : decodeGroups (encode bytes) = some bytes := by
  fun_induction encode bytes with
  | case1 => rfl
  | case2 a =>
    obtain ⟨i, j, -, -⟩ := group_values a 0 0
    simp only [decodeGroups, i, j, (group_bytes a 0 0).1, bind_eq_bind, bind_some]
    rfl
  | case3 a b =>
    obtain ⟨i, j, k, -⟩ := group_values a b 0
    obtain ⟨one, two, -⟩ := group_bytes a b 0
    simp only [decodeGroups, i, j, k, one, two, bind_eq_bind, bind_some]
    rfl
  | case4 a b c rest ih =>
    obtain ⟨i, j, k, l⟩ := group_values a b c
    obtain ⟨one, two, three⟩ := group_bytes a b c
    simp only [decodeGroups, i, j, k, l, ih, one, two, three, bind_eq_bind, bind_some]
    rfl

theorem encode_ascii (bytes : List UInt8) : ∀ c ∈ encode bytes, c < 128 ∧ isBreak c = false := by
  fun_induction encode bytes with
  | case1 => simp
  | case2 | case3 => simp [second, third, digit_ascii]
  | case4 a b c rest ih => simpa [second, third, digit_ascii] using ih

/-- What was encoded is read back. -/
theorem decode_encode (bytes : List UInt8) : decode (encode bytes) = some bytes := by
  rw [decode, filter_eq_self.mpr fun c member => by simp [(encode_ascii bytes c member).2]]
  exact decodeGroups_encode bytes

end Base64
