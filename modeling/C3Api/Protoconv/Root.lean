import C3Api.Json.Parse

/-!
# The root of a request

One pass over the bytes of a request checks that its brackets and quotes match, before anything
reads it. The pass keeps the open brackets in an array of 64, so that a deeper body is refused.
-/

namespace C3Api.Protoconv

open JsonText List

def stackSize : Nat := 64

/-- The open brackets after a byte outside of strings. -/
def bracket (stack : Bytes) (c : UInt8) : Option Bytes :=
  if c = 123 ∨ c = 91 then
    if stack.length = stackSize then none else some (c :: stack)
  else if c = 125 ∨ c = 93 then
    match stack with
    | [] => none
    | top :: stack => if (c == 125) != (top == 123) then none else some stack
  else some stack

inductive Place where
  | outside
  | inString
  /-- Behind a backslash of a string. -/
  | escaped

def shapeFrom : Place → Bytes → Bytes → Bool
  | _, _, [] => false
  | .escaped, stack, _ :: rest => shapeFrom .inString stack rest
  | .inString, stack, c :: rest =>
    shapeFrom (if c = 92 then .escaped else if c = 34 then .outside else .inString) stack rest
  | .outside, stack, c :: rest =>
    if c = 34 then shapeFrom .inString stack rest
    else
      match bracket stack c with
      | none => false
      | some [] => rest.all (· ≤ 32)
      | some (top :: stack) => shapeFrom .outside (top :: stack) rest

def jsonShapeOK (b : Bytes) : Bool := shapeFrom .outside [] (b.dropWhile (· ≤ 32))

/-- Whether the value is read as `null`, as everything is that starts no other value. -/
def readsNull : Bytes → Bool
  | [] => true
  | c :: rest =>
    if c = 110 then rest.head?.all (· = 117)
    else !(isDigit c || (bytes "+-iINtf\"[\x7b").contains c)

inductive RootError where
  | invalidJSON
  | notObject
deriving DecidableEq

/-- The raw text of the root. -/
def parseRoot (body : Bytes) : Except RootError Bytes :=
  let raw := body.dropWhile (· ≤ 32)
  if !jsonShapeOK body then .error .invalidJSON
  else if raw.head? = some 123 then .ok raw
  else if readsNull raw && (parse body).isSome then
    .ok (raw.takeWhile fun c => 97 ≤ c && c ≤ 122)
  else if (parse body).isNone then .error .invalidJSON
  else .error .notObject

mutual

def treeDepth : Tree → Nat
  | .arr _ elements => elementsDepth elements + 1
  | .obj _ members => membersDepth members + 1
  | _ => 0

def elementsDepth : Elements → Nat
  | .nil => 0
  | .cons _ value _ rest => max (treeDepth value) (elementsDepth rest)

def membersDepth : Members → Nat
  | .nil => 0
  | .cons _ _ _ _ value _ rest => max (treeDepth value) (membersDepth rest)

end

/-- Inside of brackets a text is passed over, unless it has more brackets than fit. -/
def Passes (part : Bytes) (depth : Nat) : Prop :=
  ∀ top stack rest, (top :: stack).length ≤ stackSize →
    shapeFrom .outside (top :: stack) (part ++ rest) =
      (decide ((top :: stack).length + depth ≤ stackSize) &&
        shapeFrom .outside (top :: stack) rest)

section

variable {part more : Bytes} {stack : Bytes} {a b : Nat}

theorem Passes.append (first : Passes part a) (second : Passes more b) :
    Passes (part ++ more) (max a b) := by
  intro top stack rest fits
  rw [append_assoc, first top stack _ fits, second top stack _ fits, ← Bool.and_assoc,
    ← Bool.decide_and]
  congr 1
  exact decide_eq_decide.mpr (by omega)

def isQuiet (c : UInt8) : Bool := c != 34 && c != 123 && c != 91 && c != 125 && c != 93

theorem Passes.quiet (quiet : part.all isQuiet = true) : Passes part 0 := by
  intro top stack rest fits
  induction part with
  | nil => simpa using fun _ => fits
  | cons c part ih =>
    obtain ⟨first, others⟩ : isQuiet c = true ∧ part.all isQuiet = true := by simpa using quiet
    simp only [isQuiet, Bool.and_eq_true, bne_iff_ne] at first
    rw [← ih others]
    simp [shapeFrom, bracket, first]

theorem Passes.commas {parts : List Bytes} (first : Passes part a)
    (others : Passes (commas parts) b) (none : parts = [] → b = 0) :
    Passes (commas (part :: parts)) (max a b) := by
  cases parts with
  | nil => rwa [none rfl, Nat.max_zero]
  | cons next parts =>
    have comma : Passes [44] 0 := .quiet rfl
    have whole := first.append (comma.append others)
    rwa [Nat.zero_max] at whole

theorem shape_inside {bs : Bytes} (plain : ∀ c ∈ bs, c ≠ 34 ∧ c ≠ 92) (rest : Bytes) :
    shapeFrom .inString stack (bs ++ rest) = shapeFrom .inString stack rest := by
  induction bs with
  | nil => rfl
  | cons c bs ih =>
    obtain ⟨quote, slash⟩ := plain c mem_cons_self
    rw [cons_append, shapeFrom, if_neg slash, if_neg quote]
    exact ih (forall_mem_cons.mp plain).2

theorem isHex_inside {c : UInt8} (hex : isHex c = true) : c ≠ 34 ∧ c ≠ 92 := by
  constructor <;>
  · rintro rfl
    revert hex
    decide

theorem shape_content (content : Content) (rest : Bytes) :
    shapeFrom .inString stack (contentText content ++ 34 :: rest) =
      shapeFrom .outside stack rest := by
  induction content with
  | nil => rfl
  | cons piece content ih =>
    rw [contentText, flatMap_cons, append_assoc]
    cases piece with
    | plain c ok =>
      refine (shape_inside (fun d member => ?_) _).trans ih
      cases mem_singleton.mp member
      simp only [isPlain, Bool.and_eq_true, bne_iff_ne] at ok
      exact ⟨ok.1.2, ok.2⟩
    | escape c ok => exact ih
    | unicode digits ok =>
      have inside : ∀ d ∈ digits, d ≠ 34 ∧ d ≠ 92 := fun d member =>
        isHex_inside (all_eq_true.mp ok.2 d member)
      exact (shape_inside inside _).trans ih

theorem Passes.quoted (content : Content) : Passes (quoted content) 0 := by
  intro top stack rest fits
  rw [JsonText.quoted, cons_append, shapeFrom, if_pos rfl, append_assoc]
  apply (shape_content content rest).trans
  simpa using fun _ => fits

theorem blank_all {p : UInt8 → Bool} (blank : Blank) (white : [32, 9, 10, 13].all p = true) :
    blank.text.all p = true := by
  refine all_eq_true.mpr fun c member => all_eq_true.mp white c ?_
  have listed := all_eq_true.mp blank.2 c member
  simpa [isBlank, or_assoc] using listed

theorem Passes.blank (blank : Blank) : Passes blank.text 0 := .quiet (blank_all blank rfl)

theorem digits_quiet {bs : Bytes} (digits : bs.all isDigit = true) : bs.all isQuiet = true := by
  refine all_eq_true.mpr fun c member => ?_
  have digit := all_eq_true.mp digits c member
  simp only [isQuiet, Bool.and_eq_true, bne_iff_ne]
  refine ⟨⟨⟨⟨?_, ?_⟩, ?_⟩, ?_⟩, ?_⟩ <;>
  · rintro rfl
    revert digit
    decide

theorem Passes.num (n : Numeral) : Passes n.text 0 := by
  obtain ⟨neg, int, intOK, frac, exp⟩ := n
  refine ((Passes.append (a := 0) (b := 0) ?_ ?_).append (b := 0) ?_).append (b := 0) ?_
  · cases neg <;> exact .quiet rfl
  · cases int with
    | nil => exact .quiet rfl
    | cons c int =>
      simp only [isInt, Bool.and_eq_true] at intOK
      exact .quiet (digits_quiet (by simp [intOK.1]))
  · cases frac with
    | none => exact .quiet rfl
    | some digits =>
      have quiet := digits_quiet digits.2.2
      exact .quiet quiet
  · cases exp with
    | none => exact .quiet rfl
    | some e =>
      obtain ⟨upper, sign, digits⟩ := e
      have quiet := digits_quiet digits.2.2
      rcases upper with _ | _ <;> rcases sign with _ | _ | _ <;> exact .quiet quiet

theorem Passes.enclosed {o c : UInt8} (pair : o = 123 ∧ c = 125 ∨ o = 91 ∧ c = 93)
    (inner : Passes part a) : Passes (o :: (part ++ [c])) (a + 1) := by
  intro top stack rest fits
  by_cases full : (top :: stack).length = stackSize
  · have deep : ¬ (top :: stack).length + (a + 1) ≤ stackSize := by omega
    rw [decide_eq_false deep]
    rcases pair with ⟨rfl, rfl⟩ | ⟨rfl, rfl⟩ <;> simp [shapeFrom, bracket, full]
  · have passed := inner o (top :: stack) ([c] ++ rest) (Nat.lt_of_le_of_ne fits full)
    rw [show (o :: top :: stack).length + a = (top :: stack).length + (a + 1) by simp; omega] at passed
    rcases pair with ⟨rfl, rfl⟩ | ⟨rfl, rfl⟩ <;>
      simpa [shapeFrom, bracket, full, -length_cons] using passed

mutual

theorem passes_tree : ∀ t : Tree, Passes t.text (treeDepth t)
  | .null | .bool true | .bool false => .quiet rfl
  | .num n => .num n
  | .str content => .quoted content
  | .arr blank elements => by
    have inner := (Passes.blank blank).append (passes_elements elements)
    exact .enclosed (.inr ⟨rfl, rfl⟩) (by simpa using inner)
  | .obj blank members => by
    have inner := (Passes.blank blank).append (passes_members members)
    exact .enclosed (.inl ⟨rfl, rfl⟩) (by simpa using inner)

theorem passes_elements : ∀ elements : Elements,
    Passes (commas elements.texts) (elementsDepth elements)
  | .nil => .quiet rfl
  | .cons before value after rest => by
    have part := ((Passes.blank before).append (passes_tree value)).append (.blank after)
    rw [Nat.zero_max, Nat.max_zero] at part
    refine part.commas (passes_elements rest) fun none => ?_
    cases rest with
    | nil => rfl
    | cons => cases none

theorem passes_members : ∀ members : Members,
    Passes (commas members.texts) (membersDepth members)
  | .nil => .quiet rfl
  | .cons before key afterKey beforeValue value after rest => by
    have colon : Passes [58] 0 := .quiet rfl
    have named := (((Passes.blank before).append (.quoted key)).append (.blank afterKey)).append
      (colon.append ((Passes.blank beforeValue).append (passes_tree value)))
    have part := named.append (.blank after)
    simp only [Nat.zero_max, Nat.max_zero, Nat.max_self] at part
    refine Passes.commas part (passes_members rest) fun none => ?_
    cases rest with
    | nil => rfl
    | cons => cases none

end

end

/-- An object is accepted if its brackets fit the array, and only then. -/
theorem parseRoot_object (before blank after : Blank) (members : Members) :
    parseRoot (Document.text ⟨before, .obj blank members, after⟩) =
      if treeDepth (.obj blank members) ≤ stackSize then
        .ok ((Tree.obj blank members).text ++ after.text)
      else .error .invalidJSON := by
  have raw : (Document.text ⟨before, .obj blank members, after⟩).dropWhile (· ≤ 32) =
      123 :: (blank.text ++ commas members.texts ++ 125 :: after.text) := by
    rw [Document.text, append_assoc,
      dropWhile_append_of_pos (all_eq_true.mp (blank_all before rfl))]
    simp [Tree.text]
  have shape : jsonShapeOK (Document.text ⟨before, .obj blank members, after⟩) =
      decide (treeDepth (.obj blank members) ≤ stackSize) := by
    have inner := (Passes.blank blank).append (passes_members members)
    have passed := inner 123 [] (125 :: after.text) (by decide)
    have closed : shapeFrom .outside [123] (125 :: after.text) = true := blank_all after rfl
    rw [closed, Bool.and_true, Nat.zero_max] at passed
    rw [jsonShapeOK, raw, treeDepth, Nat.add_comm]
    exact passed
  rw [parseRoot]
  split <;> simp_all [Tree.text]

/-- An array in as many arrays. -/
def nested : Nat → Tree
  | 0 => array []
  | n + 1 => array [nested n]

theorem deep_object_rejected :
    (JsonText.object [("input", nested 63)]).isObject = true ∧
      parseRoot (Document.text (JsonText.object [("input", nested 63)])) = .error .invalidJSON := by
  decide +kernel

end C3Api.Protoconv
