import Mathlib.Data.Nat.Digits.Defs

/-!
# Encodings that frame themselves

A word of a framed encoding can be told off the front of any list that begins with it, so
framed encodings may be written one after the other and what they encode is still known.
Words of one length are framed, and so are words that end in a byte they do not contain
and words behind their own length.
-/

namespace Framing

open List

variable {α β γ : Type}

def Framed (enc : α → List β) : Prop :=
  ∀ a b rest rest', enc a ++ rest = enc b ++ rest' → a = b ∧ rest = rest'

namespace Framed

variable {enc : α → List β} {enc' : γ → List β}

theorem injective (framed : Framed enc) : Function.Injective enc := by
  intro a b same
  exact (framed a b [] [] (by rw [same])).1

theorem append (first : Framed enc) (second : Framed enc') :
    Framed fun p : α × γ => enc p.1 ++ enc' p.2 := by
  intro a b rest rest' same
  simp only [append_assoc] at same
  obtain ⟨left, same⟩ := first _ _ _ _ same
  obtain ⟨right, rests⟩ := second _ _ _ _ same
  exact ⟨Prod.ext left right, rests⟩

theorem after (word : List β) (framed : Framed enc) : Framed fun a => word ++ enc a := by
  intro a b rest rest' same
  simp only [append_assoc, append_cancel_left_eq] at same
  exact framed a b rest rest' same

theorem flatMap_injective (framed : Framed enc) (filled : ∀ a, enc a ≠ []) :
    Function.Injective fun as : List α => as.flatMap enc := by
  intro as
  induction as with
  | nil =>
    intro bs same
    cases bs with
    | nil => rfl
    | cons b bs => simp [filled] at same
  | cons a as ih =>
    intro bs same
    cases bs with
    | nil => simp [filled] at same
    | cons b bs =>
      obtain ⟨rfl, rests⟩ := framed a b _ _ (by simpa only [flatMap_cons] using same)
      rw [ih rests]

end Framed

theorem framed_of_length {enc : α → List β} (n : Nat) (length : ∀ a, (enc a).length = n)
    (injective : Function.Injective enc) : Framed enc := by
  intro a b rest rest' same
  obtain ⟨words, rests⟩ := append_inj same ((length a).trans (length b).symm)
  exact ⟨injective words, rests⟩

theorem append_stop_inj {stop : β} {left right rest rest' : List β} (inLeft : stop ∉ left)
    (inRight : stop ∉ right) (same : left ++ stop :: rest = right ++ stop :: rest') :
    left = right ∧ rest = rest' := by
  induction left generalizing right with
  | nil =>
    cases right with
    | nil => exact ⟨rfl, (cons.inj same).2⟩
    | cons c right => exact absurd ((cons.inj same).1 ▸ mem_cons_self) inRight
  | cons c left ih =>
    cases right with
    | nil => exact absurd ((cons.inj same).1 ▸ mem_cons_self) inLeft
    | cons d right =>
      obtain ⟨rfl, tails⟩ := cons.inj same
      obtain ⟨rfl, rests⟩ := ih (fun mem => inLeft (mem_cons_of_mem _ mem))
        (fun mem => inRight (mem_cons_of_mem _ mem)) tails
      exact ⟨rfl, rests⟩

theorem framed_of_stop {enc : α → List β} (stop : β) (injective : Function.Injective enc)
    (avoids : ∀ a, stop ∉ enc a) : Framed fun a => enc a ++ [stop] := by
  intro a b rest rest' same
  simp only [append_assoc, singleton_append] at same
  obtain ⟨words, rests⟩ := append_stop_inj (avoids a) (avoids b) same
  exact ⟨injective words, rests⟩

abbrev Bytes := List UInt8

/-- The last `n` bytes of a number, the highest first. -/
def bigEndian : Nat → Nat → Bytes
  | 0, _ => []
  | n + 1, x => bigEndian n (x / 256) ++ [UInt8.ofNat x]

theorem ofNat_inj_mod {x y : Nat} (same : UInt8.ofNat x = UInt8.ofNat y) : x % 256 = y % 256 := by
  have values := congrArg UInt8.toNat same
  simpa using values

theorem bigEndian_inj {n x y : Nat} (low : x < 256 ^ n) (low' : y < 256 ^ n)
    (same : bigEndian n x = bigEndian n y) : x = y := by
  induction n generalizing x y with
  | zero =>
    omega
  | succ n ih =>
    obtain ⟨heads, lasts⟩ := append_inj' same rfl
    have last := ofNat_inj_mod (cons.inj lasts).1
    have head := ih (Nat.div_lt_of_lt_mul (by omega)) (Nat.div_lt_of_lt_mul (by omega)) heads
    omega

/-- Seven bits a byte, the lowest first; every byte but the last has its high bit set. -/
def uvarint (n : Nat) : Bytes :=
  if n < 128 then [UInt8.ofNat n] else UInt8.ofNat (n % 128 + 128) :: uvarint (n / 128)

theorem framed_uvarint : Framed uvarint := by
  intro a
  induction a using Nat.strongRecOn with
  | _ a ih =>
    intro b rest rest' same
    rw [uvarint, uvarint.eq_1 b] at same
    by_cases small : a < 128 <;> by_cases small' : b < 128
    · rw [if_pos small, if_pos small'] at same
      obtain ⟨heads, rests⟩ := cons.inj same
      have := ofNat_inj_mod heads
      exact ⟨by omega, rests⟩
    · rw [if_pos small, if_neg small'] at same
      have := ofNat_inj_mod (cons.inj same).1
      omega
    · rw [if_neg small, if_pos small'] at same
      have := ofNat_inj_mod (cons.inj same).1
      omega
    · rw [if_neg small, if_neg small'] at same
      obtain ⟨heads, tails⟩ := cons.inj same
      have low := ofNat_inj_mod heads
      obtain ⟨high, rests⟩ := ih (a / 128) (by omega) (b / 128) rest rest' tails
      exact ⟨by omega, rests⟩

def prefixed (field : Bytes) : Bytes := uvarint field.length ++ field

theorem framed_prefixed : Framed prefixed := by
  intro a b rest rest' same
  simp only [prefixed, append_assoc] at same
  obtain ⟨lengths, same⟩ := framed_uvarint _ _ _ _ same
  exact append_inj same lengths

def hexDigit (n : Nat) : UInt8 := UInt8.ofNat (if n < 10 then 48 + n else 87 + n)

def hexValue (c : UInt8) : Option Nat :=
  if 48 ≤ c ∧ c ≤ 57 then some (c.toNat - 48)
  else if 97 ≤ c ∧ c ≤ 102 then some (c.toNat - 87)
  else if 65 ≤ c ∧ c ≤ 70 then some (c.toNat - 55)
  else none

def hex : Bytes → Bytes
  | [] => []
  | c :: rest => hexDigit (c.toNat / 16) :: hexDigit (c.toNat % 16) :: hex rest

def unhex : Bytes → Option Bytes
  | [] => some []
  | [_] => none
  | high :: low :: rest =>
    match hexValue high, hexValue low, unhex rest with
    | some h, some l, some bs => some (UInt8.ofNat (16 * h + l) :: bs)
    | _, _, _ => none

theorem hexValue_hexDigit : ∀ n < 16, hexValue (hexDigit n) = some n := by decide

theorem unhex_hex (bs : Bytes) : unhex (hex bs) = some bs := by
  induction bs with
  | nil => rfl
  | cons c bs ih =>
    have bound := c.toNat_lt
    simp only [hex, unhex, hexValue_hexDigit (c.toNat / 16) (by omega),
      hexValue_hexDigit (c.toNat % 16) (by omega), ih, Nat.div_add_mod,
      UInt8.ofNat_toNat]

theorem hex_injective : Function.Injective hex := by
  intro a b same
  have read := unhex_hex a
  rw [same, unhex_hex] at read
  exact (Option.some.inj read).symm

theorem length_hex (bs : Bytes) : (hex bs).length = 2 * bs.length := by
  induction bs with
  | nil => rfl
  | cons c bs ih =>
    simp only [hex, length_cons, ih]
    omega

def decimalDigit (d : Nat) : UInt8 := UInt8.ofNat (48 + d)

def decimal (n : Nat) : Bytes :=
  if n = 0 then [48] else (Nat.digits 10 n).reverse.map decimalDigit

def undecimal (bs : Bytes) : Nat := bs.foldl (fun n c => n * 10 + (c.toNat - 48)) 0

theorem toNat_decimalDigit : ∀ d < 10, (decimalDigit d).toNat = 48 + d := by decide

theorem undecimal_reverse_map {ds : List Nat} (small : ∀ d ∈ ds, d < 10) :
    undecimal (ds.reverse.map decimalDigit) = Nat.ofDigits 10 ds := by
  induction ds with
  | nil => rfl
  | cons d ds ih =>
    have earlier := ih fun e mem => small e (mem_cons_of_mem d mem)
    have last := toNat_decimalDigit d (small d mem_cons_self)
    unfold undecimal at earlier ⊢
    rw [reverse_cons, map_append, foldl_append, earlier, Nat.ofDigits_cons]
    simp only [map_cons, map_nil, foldl_cons, foldl_nil, last]
    omega

theorem undecimal_decimal (n : Nat) : undecimal (decimal n) = n := by
  unfold decimal
  split
  next zero =>
    subst zero
    rfl
  · rw [undecimal_reverse_map fun d mem => Nat.digits_lt_base (by decide) mem, Nat.ofDigits_digits]

theorem decimal_injective : Function.Injective decimal :=
  Function.LeftInverse.injective undecimal_decimal

theorem mem_decimal {n : Nat} {c : UInt8} (mem : c ∈ decimal n) : 48 ≤ c ∧ c ≤ 57 := by
  have digit : ∀ d < 10, 48 ≤ decimalDigit d ∧ decimalDigit d ≤ 57 := by decide
  unfold decimal at mem
  split at mem
  · rw [mem_singleton.mp mem]
    decide
  · obtain ⟨d, listed, rfl⟩ := mem_map.mp mem
    exact digit d (Nat.digits_lt_base (by decide) (mem_reverse.mp listed))

end Framing
