import C3Api.Json.Tree
import C3Api.Proxy.StripScan

/-!
# Comparing the model of a response

`modelStringEquals` walks a string literal and the model's name side by side and never builds the
decoded text. `equalsFrom` is its loop; `jump` counts the bytes its index has passed already.
-/

namespace C3Api.Proxy

open List JsonText

open JsonText (Content Piece contentText quoted hexValue encodeRune decodePair isSurrogate)

def decodeHex4 (b : Bytes) : Nat :=
  b.foldl (fun r c =>
    r * 16 +
      (if 48 ≤ c && c ≤ 57 then (c - 48).toNat
      else if 97 ≤ c && c ≤ 102 then (c - 97).toNat + 10
      else (c - 65).toNat + 10)) 0

/-- The rune of an escape and how many bytes of what follows belong to it. -/
def pairRune (r : Nat) (rest : Bytes) : Nat × Nat :=
  if isSurrogate r then
    if r ≤ 56319 ∧ 6 ≤ rest.length ∧ rest.take 2 = [backslash, 117] then
      let low := decodeHex4 ((rest.drop 2).take 4)
      if 56320 ≤ low ∧ low ≤ 57343 then (decodePair r low, 6) else (65533, 0)
    else (65533, 0)
  else (r, 0)

def simpleEscape (escape : UInt8) : Option UInt8 :=
  if escape = 98 then some 8
  else if escape = 102 then some 12
  else if escape = 110 then some 10
  else if escape = 114 then some 13
  else if escape = 116 then some 9
  else if escape = quote ∨ escape = backslash ∨ escape = 47 then some escape
  else none

/-- What one round of the loop compares with the model, and the bytes it passes. -/
def decodeNext : Bytes → Option (Bytes × Nat)
  | [] => none
  | c :: rest =>
    if c ≠ backslash then some ([c], 1)
    else
      match rest with
      | [] => none
      | escape :: rest =>
        if escape = 117 then
          if rest.length < 4 then none
          else
            let (r, more) := pairRune (decodeHex4 (rest.take 4)) (rest.drop 4)
            some (encodeRune r, 6 + more)
        else (simpleEscape escape).map fun decoded => ([decoded], 2)

def equalsFrom (jump : Nat) : Bytes → Bytes → Bool
  | [], model => model.isEmpty
  | c :: rest, model =>
    match jump with
    | jump + 1 => equalsFrom jump rest model
    | 0 =>
      match decodeNext (c :: rest) with
      | none => false
      | some (decoded, passed) =>
        decoded.isPrefixOf model && equalsFrom (passed - 1) rest (model.drop decoded.length)

def modelStringEquals (raw model : Bytes) : Bool :=
  if raw.length < 2 ∨ raw.head? ≠ some quote ∨ raw.getLast? ≠ some quote then false
  else equalsFrom 0 (raw.drop 1).dropLast model

/-- What a string literal stands for. A surrogate without its partner is the replacement
character, as `encodeRune` writes it. -/
def decodeLiteral : Content → Bytes
  | [] => []
  | .plain c _ :: rest => c :: decodeLiteral rest
  | .escape c _ :: rest => unescape c :: decodeLiteral rest
  | .unicode u _ :: .unicode v ok :: rest =>
    if 55296 ≤ hexValue u ∧ hexValue u < 56320 ∧ 56320 ≤ hexValue v ∧ hexValue v < 57344 then
      encodeRune (decodePair (hexValue u) (hexValue v)) ++ decodeLiteral rest
    else encodeRune (hexValue u) ++ decodeLiteral (.unicode v ok :: rest)
  | .unicode u _ :: rest => encodeRune (hexValue u) ++ decodeLiteral rest

section

variable {text rest tail model decoded u v : Bytes}

theorem equalsFrom_jump (text rest model : Bytes) :
    equalsFrom text.length (text ++ rest) model = equalsFrom 0 rest model := by
  induction text with
  | nil => rfl
  | cons c text ih => exact ih

/-- One round passes a text and compares what it stands for. -/
theorem equalsFrom_next {c : UInt8}
    (next : decodeNext (c :: (text ++ rest)) = some (decoded, text.length + 1))
    (ih : ∀ model, equalsFrom 0 rest model = true ↔ tail = model) :
    equalsFrom 0 (c :: (text ++ rest)) model = true ↔ decoded ++ tail = model := by
  rw [equalsFrom, next]
  simp only [Nat.add_sub_cancel, equalsFrom_jump, Bool.and_eq_true, isPrefixOf_iff_prefix, ih]
  constructor
  · rintro ⟨⟨later, rfl⟩, equal⟩
    rw [equal, drop_left]
  · rintro rfl
    exact ⟨prefix_append _ _, drop_left.symm⟩

theorem decodeHex4_eq (hex : u.all isHex = true) : decodeHex4 u = hexValue u := by
  refine foldl_ext _ _ _ fun r c member => ?_
  have digit := all_eq_true.mp hex c member
  simp only [isHex, isDigit, Bool.or_eq_true, Bool.and_eq_true,
    decide_eq_true_eq, UInt8.le_iff_toNat_le, UInt8.reduceToNat] at digit ⊢
  congr 1
  rcases digit with (⟨low, high⟩ | ⟨low, high⟩) | ⟨low, high⟩
  · rw [if_pos ⟨low, high⟩, if_pos ⟨low, high⟩]
    exact UInt8.toNat_sub_of_le _ _ low
  · rw [if_neg (by omega), if_pos ⟨low, high⟩, if_neg (by omega), if_pos low,
      UInt8.toNat_sub_of_le _ _ low]
    change c.toNat - 97 + 10 = _
    omega
  · rw [if_neg (by omega), if_neg (by omega), if_neg (by omega), if_neg (by omega),
      UInt8.toNat_sub_of_le _ _ low]
    change c.toNat - 65 + 10 = _
    omega

theorem decodeNext_escape {c : UInt8} (ok : c ∈ escapes) :
    decodeNext (92 :: ([c] ++ rest)) = some ([unescape c], 2) := by
  simp only [escapes, mem_cons, not_mem_nil, or_false] at ok
  rcases ok with rfl | rfl | rfl | rfl | rfl | rfl | rfl | rfl <;> rfl

theorem decodeNext_unicode (ok : u.length = 4 ∧ u.all isHex = true) (rest : Bytes) :
    decodeNext (92 :: 117 :: (u ++ rest)) = some (encodeRune (pairRune (hexValue u) rest).1,
      6 + (pairRune (hexValue u) rest).2) := by
  have first : (u ++ rest).take 4 = u := take_left' ok.1
  have behind : (u ++ rest).drop 4 = rest := drop_left' ok.1
  rw [← decodeHex4_eq ok.2]
  simp [decodeNext, backslash, first, behind, ok.1]

/-- A surrogate without a partner behind it is written as the replacement character. -/
theorem decodeNext_alone (ok : u.length = 4 ∧ u.all isHex = true)
    (alone : isSurrogate (hexValue u) = true → hexValue u ≤ 56319 → rest.take 2 = [backslash, 117] →
      ¬ (56320 ≤ decodeHex4 ((rest.drop 2).take 4) ∧ decodeHex4 ((rest.drop 2).take 4) ≤ 57343)) :
    decodeNext (92 :: (117 :: u ++ rest)) =
      some (encodeRune (hexValue u), (117 :: u).length + 1) := by
  apply (decodeNext_unicode ok rest).trans
  rw [length_cons, ok.1]
  have replaced (surrogate : isSurrogate (hexValue u) = true) :
      encodeRune 65533 = encodeRune (hexValue u) := by
    simp only [isSurrogate, Bool.and_eq_true, decide_eq_true_eq] at surrogate
    rw [encodeRune, encodeRune]
    simp [surrogate, show ¬ hexValue u < 128 by omega, show ¬ hexValue u < 2048 by omega]
  rw [pairRune]
  split
  case isFalse => rfl
  case isTrue surrogate =>
    split
    case isTrue paired =>
      rw [if_neg (alone surrogate paired.1 paired.2.2), replaced surrogate]
      rfl
    case isFalse =>
      rw [replaced surrogate]
      rfl

/-- The code of an escape that follows. -/
theorem decodeHex4_behind (ok : v.length = 4 ∧ v.all isHex = true) (rest : Bytes) :
    decodeHex4 (((92 :: 117 :: (v ++ rest)).drop 2).take 4) = hexValue v := by
  rw [← decodeHex4_eq ok.2]
  exact congrArg decodeHex4 (take_left' ok.1)

theorem pairRune_pair {r : Nat} (ok : v.length = 4 ∧ v.all isHex = true)
    (high : 55296 ≤ r ∧ r < 56320) (low : 56320 ≤ hexValue v ∧ hexValue v < 57344) :
    pairRune r (92 :: 117 :: (v ++ rest)) = (decodePair r (hexValue v), 6) := by
  have long : 6 ≤ (92 :: 117 :: (v ++ rest)).length := by simp [ok.1]
  have surrogate : isSurrogate r = true := by
    simp only [isSurrogate, Bool.and_eq_true, decide_eq_true_eq]
    omega
  rw [pairRune, if_pos surrogate, if_pos ⟨by omega, long, rfl⟩, decodeHex4_behind ok]
  exact if_pos ⟨low.1, by omega⟩

theorem contentText_take {content : Content}
    (other : ∀ v ok rest, content = .unicode v ok :: rest → False) :
    (contentText content).take 2 ≠ [backslash, 117] := by
  intro begins
  cases content with
  | nil => cases begins
  | cons piece rest =>
    cases piece with
    | plain c ok =>
      cases (cons_eq_cons.mp begins).1
      cases ok
    | escape c ok =>
      cases (cons_eq_cons.mp (cons_eq_cons.mp begins).2).1
      exact absurd ok (by decide)
    | unicode v ok => exact other v ok rest rfl

end

/-- The loop compares the decoded literal with the model. -/
theorem equalsFrom_content (content : Content) (model : Bytes) :
    equalsFrom 0 (contentText content) model = true ↔ decodeLiteral content = model := by
  -- one round of the loop for each equation of the decoder
  induction content using decodeLiteral.induct generalizing model with
  | case1 => exact List.isEmpty_iff.trans eq_comm
  | case2 c ok rest ih =>
    have next : decodeNext (c :: ([] ++ contentText rest)) = some ([c], 1) := by
      apply if_pos
      rintro rfl
      cases ok
    exact equalsFrom_next next ih
  | case3 c ok rest ih => exact equalsFrom_next (decodeNext_escape ok) ih
  | case4 u uok v vok rest pair ih =>
    have next : decodeNext (92 :: (117 :: u ++ 92 :: 117 :: v ++ contentText rest)) =
        some (encodeRune (decodePair (hexValue u) (hexValue v)),
          (117 :: u ++ 92 :: 117 :: v).length + 1) := by
      have paired := decodeNext_unicode uok (92 :: 117 :: (v ++ contentText rest))
      rw [pairRune_pair vok ⟨pair.1, pair.2.1⟩ pair.2.2] at paired
      simpa [uok.1, vok.1] using paired
    have text : contentText (.unicode u uok :: .unicode v vok :: rest) =
        92 :: (117 :: u ++ 92 :: 117 :: v ++ contentText rest) := by
      simp [contentText, Piece.text]
    rw [text, decodeLiteral, if_pos pair]
    exact equalsFrom_next next ih
  | case5 u uok v vok rest pair ih =>
    rw [decodeLiteral, if_neg pair]
    refine equalsFrom_next (decodeNext_alone uok fun high below _ found => pair ?_) ih
    have behind := decodeHex4_behind vok (contentText rest)
    simp only [isSurrogate, Bool.and_eq_true, decide_eq_true_eq] at high
    exact ⟨high.1, by omega, behind ▸ found.1, Nat.lt_succ_of_le (behind ▸ found.2)⟩
  | case6 u ok rest other ih =>
    rw [decodeLiteral]
    · refine equalsFrom_next (decodeNext_alone ok fun _ _ begins => ?_) ih
      exact absurd begins (contentText_take other)
    · exact other

theorem modelStringEquals_decoded (content : Content) (model : Bytes) :
    modelStringEquals (quoted content) model = true ↔ decodeLiteral content = model := by
  rw [← equalsFrom_content, modelStringEquals, getLast?_quoted, quoted, if_neg (by simp [quote])]
  simp

end C3Api.Proxy
