import C3Api.Json.Literal
import C3Api.Json.Value

/-!
# Objects of strings

The text that an encoder writes for an object whose members are strings, and what a decoder makes
of a text: bytes that are no UTF-8 become replacement characters, and of a numeral the number
stays.
-/

namespace JsonText

open List

def utf8 (s : String) : Bytes := s.toByteArray.data.toList

@[simp] theorem utf8_append (s t : String) : utf8 (s ++ t) = utf8 s ++ utf8 t := by
  simp [utf8]

@[simp] theorem length_utf8 (s : String) : (utf8 s).length = s.utf8ByteSize := by
  simp [utf8]

theorem utf8_eq (s : String) : utf8 s = s.toList.flatMap String.utf8EncodeChar := by
  have same := congrArg (fun a : ByteArray => a.data.toList)
    (String.toByteArray_ofList (l := s.toList))
  simpa [utf8, List.utf8Encode] using same

/-- The bytes of a text, of which the first few belong to a code point already begun. -/
def repairFrom : Nat → Bytes → Bytes
  | _, [] => []
  | begun + 1, c :: rest => c :: repairFrom begun rest
  | 0, c :: rest =>
    if c < 128 then c :: repairFrom 0 rest
    else if runeSize (c :: rest) = 0 then [239, 191, 189] ++ repairFrom 0 rest
    else c :: repairFrom (runeSize (c :: rest) - 1) rest

def stringOf (bs : Bytes) : String := (String.fromUTF8? (repairFrom 0 bs).toByteArray).getD ""

theorem repairFrom_begun (bs more : Bytes) :
    repairFrom bs.length (bs ++ more) = bs ++ repairFrom 0 more := by
  induction bs with
  | nil => rfl
  | cons c bs ih => exact congrArg (c :: ·) ih

theorem repairFrom_utf8 (text : List Char) :
    repairFrom 0 (text.flatMap String.utf8EncodeChar) = text.flatMap String.utf8EncodeChar := by
  induction text with
  | nil => rfl
  | cons x text ih =>
    rw [flatMap_cons]
    rcases utf8EncodeChar_cases x (text.flatMap String.utf8EncodeChar) with
      ⟨c, low, bytes⟩ | ⟨c, bs, bytes, high, size⟩
    · rw [bytes, singleton_append, repairFrom, if_pos low, ih]
    · obtain ⟨first, -⟩ := forall_mem_cons.mp high
      rw [bytes, cons_append, repairFrom, if_neg (UInt8.not_lt.mpr first), size,
        if_neg (Nat.succ_ne_zero _), Nat.add_sub_cancel, repairFrom_begun, ih]

theorem stringOf_utf8 (s : String) : stringOf (utf8 s) = s := by
  have same : (utf8 s).toByteArray = s.toByteArray := ByteArray.ext (by simp [utf8])
  rw [stringOf, utf8_eq, repairFrom_utf8, ← utf8_eq, same, String.fromUTF8?, dif_pos s.isValidUTF8]
  rfl

def digitsValue (digits : Bytes) : Nat := digits.foldl (fun n c => 10 * n + (c.toNat - 48)) 0

def Exponent.scale (e : Exponent) : ℚ :=
  if e.sign = some true then 1 / 10 ^ digitsValue e.digits.1 else 10 ^ digitsValue e.digits.1

def Numeral.value (n : Numeral) : ℚ :=
  let frac := (n.frac.map fun ds => (digitsValue ds.1 : ℚ) / 10 ^ ds.1.length).getD 0
  (if n.neg then -1 else 1) * (digitsValue n.int + frac) * (n.exp.map Exponent.scale).getD 1

mutual

def Tree.toJson : Tree → C3Api.Json
  | .null => .null
  | .bool b => .bool b
  | .num n => .num n.value
  | .str content => .str (stringOf (decode content))
  | .arr _ elements => .arr elements.toJson
  | .obj _ members => .obj members.toJson

def Elements.toJson : Elements → List C3Api.Json
  | .nil => []
  | .cons _ value _ rest => value.toJson :: rest.toJson

def Members.toJson : Members → List (String × C3Api.Json)
  | .nil => []
  | .cons _ key _ _ value _ rest => (stringOf (decode key), value.toJson) :: rest.toJson

end

def memberText (field : String × String) : Bytes :=
  quoted (encode (utf8 field.1)) ++ 58 :: quoted (encode (utf8 field.2))

/-- The text of the object with these members. -/
def objectText (fields : List (String × String)) : Bytes :=
  123 :: (commas (fields.map memberText) ++ [125])

def stringMembers : List (String × String) → Members
  | [] => .nil
  | field :: rest =>
    .cons .none (encode (utf8 field.1)) .none .none (.str (encode (utf8 field.2))) .none
      (stringMembers rest)

theorem takeBlank_of_not {c : UInt8} {rest : Bytes} (solid : isBlank c = false) :
    takeBlank (c :: rest) = (.none, c :: rest) := by
  simp [takeBlank, solid, Blank.none]

section

variable (field : String × String) (fuel : Nat) (rest : Bytes)

theorem parseMembers_last :
    parseMembers (fuel + 2) (memberText field ++ 125 :: rest) =
      some (stringMembers [field], rest) := by
  conv_lhs => rw [parseMembers]
  simp [memberText, quoted, parseValue, takeBlank_of_not, isBlank, parsePieces_content,
    stringMembers]

theorem parseMembers_comma :
    parseMembers (fuel + 2) (memberText field ++ 44 :: rest) =
      (parseMembers (fuel + 1) rest).map fun r =>
        (.cons .none (encode (utf8 field.1)) .none .none (.str (encode (utf8 field.2))) .none r.1,
          r.2) := by
  conv_lhs => rw [parseMembers]
  simp [memberText, quoted, parseValue, takeBlank_of_not, isBlank, parsePieces_content]

end

/-- Members are read off the front of what follows their object. -/
theorem parseMembers_text (field : String × String) (fields : List (String × String)) (fuel : Nat)
    (enough : fields.length ≤ fuel) (rest : Bytes) :
    parseMembers (fuel + 2) (commas ((field :: fields).map memberText) ++ 125 :: rest) =
      some (stringMembers (field :: fields), rest) := by
  induction fields generalizing field fuel with
  | nil => exact parseMembers_last field fuel rest
  | cons next fields ih =>
    obtain ⟨fuel, rfl⟩ := Nat.exists_eq_add_of_lt (Nat.lt_of_lt_of_le (Nat.succ_pos _) enough)
    have more := ih next (0 + fuel) (by simpa using enough)
    rw [map_cons, map_cons, commas, append_assoc, cons_append, parseMembers_comma, ← map_cons, more]
    · rfl
    · simp

theorem length_commas (fields : List (String × String)) :
    fields.length ≤ (commas (fields.map memberText)).length := by
  induction fields with
  | nil => exact Nat.zero_le _
  | cons field fields ih =>
    cases fields with
    | nil => simp [commas, memberText, quoted]
    | cons next fields =>
      simp only [map_cons, commas, length_append, length_cons] at ih ⊢
      omega

/-- The object that was written is read back. -/
theorem parse_objectText (fields : List (String × String)) :
    parse (objectText fields) = some ⟨.none, .obj .none (stringMembers fields), .none⟩ := by
  have root (fuel : Nat) (enough : fields.length ≤ fuel) :
      parseValue (fuel + 3) (objectText fields) = some (.obj .none (stringMembers fields), []) := by
    cases fields with
    | nil => simp [objectText, commas, parseValue, takeBlank_of_not, isBlank, stringMembers]
    | cons field fields =>
      have inside := parseMembers_text field fields fuel (Nat.le_of_succ_le enough) []
      obtain ⟨more, begins⟩ : ∃ more, commas ((field :: fields).map memberText) = 34 :: more := by
        cases fields <;> exact ⟨_, rfl⟩
      rw [begins] at inside
      rw [objectText, begins, parseValue]
      simp only [cons_append] at inside ⊢
      simp [takeBlank_of_not, isBlank, inside]
  obtain ⟨fuel, large⟩ : ∃ fuel, 2 * (objectText fields).length + 2 = fuel + 3 ∧
      fields.length ≤ fuel := by
    have := length_commas fields
    refine ⟨2 * (objectText fields).length - 1, ?_⟩
    simp only [objectText, length_cons, length_append, length_nil]
    omega
  have solid : takeBlank (objectText fields) = (.none, objectText fields) := takeBlank_of_not rfl
  rw [parse, solid, large.1, root fuel large.2]
  rfl

theorem toJson_stringMembers (fields : List (String × String)) :
    (stringMembers fields).toJson = fields.map fun field => (field.1, .str field.2) := by
  have text (s : String) : stringOf (decode (encode (utf8 s))) = s := by
    rw [utf8_eq, decode_encode, ← utf8_eq, stringOf_utf8]
  induction fields with
  | nil => rfl
  | cons field fields ih =>
    simp only [stringMembers, Members.toJson, Tree.toJson, ih, text, map_cons]

end JsonText
