import C3Api.Json.Parse

/-!
# String literals

A literal is read back as it was written. What it stands for is no longer than its text, and what
an encoder writes for valid UTF-8 stands for the bytes it was given.
-/

namespace JsonText

open List Piece

variable {c : UInt8} {content rest : Content}

theorem parsePieces_content (content : Content) (rest : Bytes) :
    parsePieces (contentText content ++ 34 :: rest) = some (content, rest) := by
  induction content with
  | nil => simp [contentText, parsePieces.eq_def]
  | cons piece content ih =>
    rw [contentText, flatMap_cons, append_assoc, ← contentText, parsePieces.eq_def]
    cases piece with
    | plain c ok =>
      have other : c ≠ 34 ∧ c ≠ 92 := by
        constructor <;>
        · rintro rfl
          cases ok
      simp [text, other, ok, ih]
    | escape c ok =>
      have other : c ≠ 117 := by
        rintro rfl
        exact absurd ok (by decide)
      simp [text, other, ok, ih]
    | unicode digits ok =>
      obtain ⟨h₁, h₂, h₃, h₄, rfl⟩ := length_eq_four.mp ok.1
      have hex := ok.2
      simp only [text, cons_append, nil_append, ih, hex]
      simp

theorem decode_of_unescaped (plain : 92 ∉ contentText content) :
    decode content = contentText content := by
  induction content with
  | nil => rfl
  | cons piece content ih =>
    rw [contentText, flatMap_cons, mem_append, not_or] at plain
    cases piece with
    | plain c ok => exact congrArg (c :: ·) (ih plain.2)
    | escape c ok => exact absurd mem_cons_self plain.1
    | unicode u ok => exact absurd mem_cons_self plain.1

theorem encodeRune_length (r : Nat) : (encodeRune r).length ≤ 4 := by
  unfold encodeRune
  repeat' split
  all_goals simp

/-- An escape stands for fewer bytes than it takes. -/
theorem decode_length (content : Content) :
    (decode content).length + (if 92 ∈ contentText content then 1 else 0) ≤
      (contentText content).length := by
  fun_induction decode content with
  | case1 => exact Nat.le_refl 0
  | case2 c ok rest ih =>
    have other : 92 ≠ c := by
      rintro rfl
      cases ok
    simp [contentText, text, other] at ih ⊢
    split_ifs at ih ⊢ <;> omega
  | case3 c ok rest ih =>
    have behind := Nat.le_of_add_right_le ih
    simp [contentText, text] at behind ⊢
    omega
  | case4 u ok v ok' rest pair ih =>
    have short := encodeRune_length (decodePair (hexValue u) (hexValue v))
    have behind := Nat.le_of_add_right_le ih
    simp [contentText, text, ok.1, ok'.1] at behind ⊢
    omega
  | case5 u ok v ok' rest pair ih | case6 u ok rest other ih =>
    have short := encodeRune_length (hexValue u)
    have behind := Nat.le_of_add_right_le ih
    simp [contentText, text, ok.1] at behind ⊢
    omega

/-- The byte that a piece stands for, whatever follows it. -/
def Piece.byte : Piece → Option UInt8
  | .plain c _ => some c
  | .escape c _ => some (unescape c)
  | .unicode u _ => if hexValue u < 128 then some (.ofNat (hexValue u)) else none

theorem decode_cons {p : Piece} (byte : p.byte = some c) :
    decode (p :: rest) = c :: decode rest := by
  cases p with
  | plain b ok | escape b ok =>
    cases byte
    rfl
  | unicode u ok =>
    rw [Piece.byte] at byte
    split at byte <;> cases byte
    next low =>
    have alone : isSurrogate (hexValue u) = false := by
      simp [isSurrogate]
      omega
    rcases rest with _ | ⟨_ | _ | _, rest⟩ <;> simp [decode, alone, encodeRune, low]

theorem decode_encodeByte (low : c < 128) : decode (encodeByte c ++ rest) = c :: decode rest := by
  have every : ∀ n < 128, (encodeByte (.ofNat n)).map byte = [some (.ofNat n)] := by
    decide +kernel
  have here := every c.toNat (UInt8.lt_iff_toNat_lt.mp low)
  rw [UInt8.ofNat_toNat] at here
  obtain ⟨p, single, byte⟩ := map_eq_singleton_iff.mp here
  rw [single]
  exact decode_cons byte

theorem isPlain_of_high (high : 128 ≤ c) : isPlain c = true := by
  simp only [UInt8.le_iff_toNat_le, isPlain, Bool.and_eq_true, decide_eq_true_eq, bne_iff_ne,
    ne_eq, ← UInt8.toNat_inj, UInt8.reduceToNat] at high ⊢
  omega

theorem decode_plainPiece (high : 128 ≤ c) : decode (plainPiece c ++ rest) = c :: decode rest := by
  rw [plainPiece, dif_pos (isPlain_of_high high)]
  rfl

/-- The bytes of a code point already begun. -/
theorem decode_encodeFrom {bs more : Bytes} (high : ∀ c ∈ bs, 128 ≤ c) :
    decode (encodeFrom bs.length (bs ++ more)) = bs ++ decode (encodeFrom 0 more) := by
  induction bs with
  | nil => rfl
  | cons c bs ih =>
    obtain ⟨first, others⟩ := forall_mem_cons.mp high
    exact (decode_plainPiece first).trans (congrArg (c :: ·) (ih others))

/-- A scalar value is a byte below 128, or its bytes make up one sequence. -/
theorem utf8EncodeChar_cases (x : Char) (more : Bytes) :
    (∃ c < 128, String.utf8EncodeChar x = [c]) ∨
      ∃ c bs, String.utf8EncodeChar x = c :: bs ∧ (∀ d ∈ c :: bs, 128 ≤ d) ∧
        runeSize (c :: (bs ++ more)) = bs.length + 1 := by
  have scalar : x.val.toNat < 55296 ∨ 57343 < x.val.toNat ∧ x.val.toNat < 1114112 := x.valid
  unfold String.utf8EncodeChar
  generalize x.val.toNat = v at scalar
  dsimp only
  repeat' split
  · refine .inl ⟨_, ?_, rfl⟩
    simp [UInt8.lt_iff_toNat_lt]
    omega
  all_goals
    refine .inr ⟨_, _, rfl, ?_, ?_⟩
    · simp [UInt8.le_iff_toNat_le]
      omega
    · rcases more with _ | ⟨e, _ | ⟨f, more⟩⟩ <;>
        simp [runeSize, runeSize.three, runeSize.four, inRange, isCont, UInt8.le_iff_toNat_le,
          ← UInt8.toNat_inj] <;>
        (try split_ifs) <;> omega

theorem decode_encode (text : List Char) :
    decode (encode (text.flatMap String.utf8EncodeChar)) = text.flatMap String.utf8EncodeChar := by
  induction text with
  | nil => rfl
  | cons x text ih =>
    rw [flatMap_cons]
    rcases utf8EncodeChar_cases x (text.flatMap String.utf8EncodeChar) with
      ⟨c, low, bytes⟩ | ⟨c, bs, bytes, high, size⟩
    · rw [bytes, singleton_append, encode, encodeFrom, if_pos low, decode_encodeByte low]
      exact congrArg (c :: ·) ih
    · obtain ⟨first, others⟩ := forall_mem_cons.mp high
      rw [bytes, cons_append, encode, encodeFrom, if_neg (UInt8.not_lt.mpr first), size,
        if_neg (Nat.succ_ne_zero _), Nat.add_sub_cancel, decode_plainPiece first,
        decode_encodeFrom others]
      exact congrArg (fun tail => c :: (bs ++ tail)) ih

end JsonText
