import C3Api.Json.Members
import C3Api.Protoconv.RespToChat

/-!
# Raw keys and strings

A key or a string of a request is compared with a name as it is written. Its text is decoded only
when its length is not that of the name and there is an escape in it.
-/

namespace C3Api.Protoconv

open JsonText List

/-- The string that `gjson.Parse` reads from a literal. -/
def parseStr (raw : Bytes) : Bytes := ((parsePieces (raw.drop 1)).map fun r => decode r.1).getD []

def rawEq (raw name : Bytes) : Bool :=
  if raw.length < 2 ∨ raw.head? ≠ some 34 ∨ raw.getLast? ≠ some 34 then false
  else
    let inner := (raw.drop 1).dropLast
    if raw.length = name.length + 2 then inner = name
    else if inner.contains 92 then parseStr raw = name
    else false

def gjsonKeyEq (k name : Bytes) : Bool := rawEq k name

def rawStrEq (v lit : Bytes) : Bool := rawEq v lit

def rawKeyEq (keyRaw name : Bytes) : Bool := rawEq keyRaw name

def appendJSONBytes (out s : Bytes) : Bytes := out ++ quoted (encode s)

section

variable {bs more : Bytes} {c : UInt8}

theorem contentText_plainPiece (high : 128 ≤ c) (content : Content) :
    contentText (plainPiece c ++ content) = c :: contentText content := by
  rw [plainPiece, dif_pos (isPlain_of_high high)]
  rfl

theorem contentText_encodeFrom (high : ∀ c ∈ bs, 128 ≤ c) :
    contentText (encodeFrom bs.length (bs ++ more)) = bs ++ contentText (encodeFrom 0 more) := by
  induction bs with
  | nil => rfl
  | cons c bs ih =>
    obtain ⟨first, others⟩ := forall_mem_cons.mp high
    rw [length_cons, cons_append, encodeFrom, contentText_plainPiece first, ih others, cons_append]

theorem escape_of_high {x : Char} (high : 128 ≤ x.toNat) : escape x = [x] := by
  have apart (d : Char) (low : d.toNat < 128) : x ≠ d := by
    rintro rfl
    omega
  simp [escape, apart '"' (by decide), apart '\\' (by decide), apart '\n' (by decide),
    apart '\r' (by decide), apart '\t' (by decide), apart '&' (by decide), apart '<' (by decide),
    apart '>' (by decide), show x.toNat ≠ 8 by omega, show x.toNat ≠ 12 by omega,
    show ¬x.toNat < 32 by omega]

/-- The characters that a text is escaped by are the bytes of its literal. -/
theorem contentText_encode (text : List Char) :
    contentText (encode (text.flatMap String.utf8EncodeChar)) =
      (text.flatMap escape).flatMap String.utf8EncodeChar := by
  have ascii : ∀ n < 128, String.utf8EncodeChar (Char.ofNat n) = [UInt8.ofNat n] ∧
      contentText (encodeByte (UInt8.ofNat n)) =
        (escape (Char.ofNat n)).flatMap String.utf8EncodeChar := by
    decide +kernel
  induction text with
  | nil => rfl
  | cons x text ih =>
    rw [flatMap_cons, flatMap_cons, flatMap_append, ← ih]
    rcases Nat.lt_or_ge x.toNat 128 with low | high
    · obtain ⟨single, written⟩ := ascii x.toNat low
      rw [Char.ofNat_toNat] at single written
      have small : UInt8.ofNat x.toNat < 128 := by
        rw [UInt8.lt_iff_toNat_lt, UInt8.toNat_ofNat']
        exact Nat.lt_of_le_of_lt (Nat.mod_le _ _) low
      rw [single, singleton_append, encode, encodeFrom, if_pos small, contentText, flatMap_append,
        ← contentText, written]
      rfl
    rcases utf8EncodeChar_cases x (text.flatMap String.utf8EncodeChar) with
      ⟨c, small, bytes⟩ | ⟨c, bs, bytes, high', size⟩
    · have one := congrArg length bytes
      rw [String.length_utf8EncodeChar] at one
      have low : x.toNat < 128 := Nat.lt_succ_of_le (Char.utf8Size_eq_one_iff.mp one)
      omega
    · obtain ⟨first, others⟩ := forall_mem_cons.mp high'
      rw [escape_of_high high, flatMap_singleton, bytes, cons_append, encode, encodeFrom,
        if_neg (UInt8.not_lt.mpr first), size, if_neg (Nat.succ_ne_zero _), Nat.add_sub_cancel,
        contentText_plainPiece first, contentText_encodeFrom others]
      rfl

/-- Strings are escaped as their bytes are. -/
theorem utf8_appendJSONString (s : String) :
    utf8 (appendJSONString s) = appendJSONBytes [] (utf8 s) := by
  have quote : utf8 "\"" = [34] := by decide +kernel
  have escaped := utf8_eq (String.ofList (s.toList.flatMap escape))
  rw [String.toList_ofList, ← contentText_encode, ← utf8_eq] at escaped
  rw [appendJSONString, utf8_append, utf8_append, quote, escaped]
  rfl

end

/-- A literal that is the name byte for byte passes, although its escapes stand for less. -/
theorem rawEq_quoted {content : Content} {name : Bytes} :
    (rawEq (quoted content) name = true ↔ decode content = name) ↔
      (92 ∉ name ∨ contentText content ≠ name) := by
  have parsed : parseStr (quoted content) = decode content := by
    rw [parseStr, quoted, drop_one, tail_cons, parsePieces_content]
    rfl
  have unfolded : rawEq (quoted content) name =
      if (contentText content).length = name.length then contentText content = name
      else if 92 ∈ contentText content then decode content = name else false := by
    rw [rawEq, parsed, getLast?_quoted, quoted, if_neg (by simp)]
    simp
  rw [unfolded]
  by_cases escaped : 92 ∈ contentText content
  · have shorter := decode_length content
    rw [if_pos escaped] at shorter ⊢
    by_cases same : contentText content = name
    · subst same
      have other : decode content ≠ contentText content := by
        intro equal
        rw [equal] at shorter
        omega
      simp [escaped, other]
    · have other (long : (contentText content).length = name.length) : decode content ≠ name := by
        rintro rfl
        omega
      split
      next long => simp [same, other long]
      · simp [same]
  · have apart : 92 ∉ name ∨ contentText content ≠ name := by
      rw [← not_and_or]
      rintro ⟨inside, rfl⟩
      exact escaped inside
    rw [decode_of_unescaped escaped, if_neg escaped]
    refine iff_of_true ?_ apart
    split
    · simp
    next differs => simpa using fun same => differs (congrArg length same)

/-- The comparisons go by what a literal stands for if and only if the name is not the escaped
text itself; what the encoder writes stands for the text it was given. -/
theorem raw_comparison_decodes (content : Content) (name out : Bytes) (text : List Char) :
    (((gjsonKeyEq (quoted content) name = true ↔ decode content = name) ∧
      (rawStrEq (quoted content) name = true ↔ decode content = name) ∧
      (rawKeyEq (quoted content) name = true ↔ decode content = name)) ↔
      (92 ∉ name ∨ contentText content ≠ name)) ∧
    ∃ literal, appendJSONBytes out (text.flatMap String.utf8EncodeChar) = out ++ quoted literal ∧
      decode literal = text.flatMap String.utf8EncodeChar := by
  refine ⟨?_, _, rfl, decode_encode text⟩
  rw [← rawEq_quoted]
  exact and_iff_left_of_imp (fun decoded => ⟨decoded, decoded⟩)

/-- A line feed written as an escape passes for a backslash and an `n`. -/
theorem escaped_literal_passes : ∃ content, decode content = [10] ∧
    gjsonKeyEq (quoted content) [92, 110] = true ∧ rawStrEq (quoted content) [92, 110] = true ∧
    rawKeyEq (quoted content) [92, 110] = true :=
  ⟨[.escape 110 (by decide)], rfl, rfl, rfl, rfl⟩

end C3Api.Protoconv
