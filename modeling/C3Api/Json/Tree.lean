import C3Api.Encoding.Framing
import Mathlib.Data.List.Basic

/-!
# JSON texts

A tree keeps every byte of a JSON text: its white space, the escapes of its strings and the
members of its objects in their order and with their repetitions. Whatever a tree is built
from is well formed, so that the texts of trees are the JSON texts.
-/

namespace JsonText

abbrev Bytes := List UInt8

def bytes (s : String) : Bytes := s.toUTF8.toList

def isBlank (c : UInt8) : Bool := c == 32 || c == 9 || c == 10 || c == 13

def isDigit (c : UInt8) : Bool := 48 ≤ c && c ≤ 57

def isHex (c : UInt8) : Bool := isDigit c || (97 ≤ c && c ≤ 102) || (65 ≤ c && c ≤ 70)

def escapes : Bytes := [34, 92, 47, 98, 102, 110, 114, 116]

def isPlain (c : UInt8) : Bool := 32 ≤ c && c != 34 && c != 92

def Blank := { bs : Bytes // bs.all isBlank = true }

namespace Blank

def none : Blank := ⟨[], rfl⟩

def text (b : Blank) : Bytes := b.1

end Blank

inductive Piece where
  | plain (c : UInt8) (ok : isPlain c = true)
  | escape (c : UInt8) (ok : c ∈ escapes)
  | unicode (digits : Bytes) (ok : digits.length = 4 ∧ digits.all isHex = true)

def Piece.text : Piece → Bytes
  | plain c _ => [c]
  | escape c _ => [92, c]
  | unicode digits _ => 92 :: 117 :: digits

abbrev Content := List Piece

def contentText (content : Content) : Bytes := content.flatMap Piece.text

def quoted (content : Content) : Bytes := 34 :: (contentText content ++ [34])

theorem getLast?_quoted (content : Content) : (quoted content).getLast? = some 34 :=
  List.getLast?_concat (l := 34 :: contentText content)

def Digits := { bs : Bytes // bs ≠ [] ∧ bs.all isDigit = true }

def isInt : Bytes → Bool
  | [] => false
  | c :: rest => isDigit c && rest.all isDigit && (c != 48 || rest.isEmpty)

structure Exponent where
  upper : Bool
  /-- Whether a sign that stands there is a minus. -/
  sign : Option Bool
  digits : Digits

def Exponent.text (e : Exponent) : Bytes :=
  (if e.upper then 69 else 101) ::
    ((match e.sign with
      | none => []
      | some true => [45]
      | some false => [43]) ++ e.digits.1)

structure Numeral where
  neg : Bool
  int : Bytes
  intOK : isInt int = true
  frac : Option Digits
  exp : Option Exponent

def Numeral.text (n : Numeral) : Bytes :=
  (if n.neg then [45] else []) ++ n.int ++
    (match n.frac with
      | none => []
      | some digits => 46 :: digits.1) ++
    (match n.exp with
      | none => []
      | some e => e.text)

mutual

inductive Tree where
  | null
  | bool (value : Bool)
  | num (n : Numeral)
  | str (content : Content)
  | arr (blank : Blank) (elements : Elements)
  | obj (blank : Blank) (members : Members)

/-- The elements of an array, each with the white space around it. -/
inductive Elements where
  | nil
  | cons (before : Blank) (value : Tree) (after : Blank) (rest : Elements)

/-- The members of an object, with the white space around their keys and values. -/
inductive Members where
  | nil
  | cons (before : Blank) (key : Content) (afterKey beforeValue : Blank) (value : Tree)
      (after : Blank) (rest : Members)

end

def commas : List Bytes → Bytes
  | [] => []
  | [part] => part
  | part :: rest => part ++ 44 :: commas rest

mutual

def Tree.text : Tree → Bytes
  | .null => [110, 117, 108, 108]
  | .bool true => [116, 114, 117, 101]
  | .bool false => [102, 97, 108, 115, 101]
  | .num n => n.text
  | .str content => quoted content
  | .arr blank elements => 91 :: (blank.text ++ commas elements.texts ++ [93])
  | .obj blank members => 123 :: (blank.text ++ commas members.texts ++ [125])

def Elements.texts : Elements → List Bytes
  | .nil => []
  | .cons before value after rest =>
    (before.text ++ value.text ++ after.text) :: rest.texts

def Members.texts : Members → List Bytes
  | .nil => []
  | .cons before key afterKey beforeValue value after rest =>
    (before.text ++ quoted key ++ afterKey.text ++ 58 :: (beforeValue.text ++ value.text) ++
      after.text) :: rest.texts

end

/-- A text with one value and white space around it. -/
structure Document where
  before : Blank
  root : Tree
  after : Blank

def Document.text (d : Document) : Bytes := d.before.text ++ d.root.text ++ d.after.text

def Valid (bs : Bytes) : Prop := ∃ d : Document, d.text = bs

def Elements.values : Elements → List Tree
  | .nil => []
  | .cons _ value _ rest => value :: rest.values

def Members.values : Members → List (Content × Tree)
  | .nil => []
  | .cons _ key _ _ value _ rest => (key, value) :: rest.values

def hexValue (digits : Bytes) : Nat :=
  digits.foldl (fun n c =>
    n * 16 + (if isDigit c then c.toNat - 48 else if 97 ≤ c then c.toNat - 87 else c.toNat - 55)) 0

/-- The bytes of a code point; what is none is written as the replacement character. -/
def encodeRune (r : Nat) : Bytes :=
  if r < 128 then [UInt8.ofNat r]
  else if r < 2048 then [UInt8.ofNat (192 + r / 64), UInt8.ofNat (128 + r % 64)]
  else if 55296 ≤ r ∧ r < 57344 ∨ 1114112 ≤ r then [239, 191, 189]
  else if r < 65536 then
    [UInt8.ofNat (224 + r / 4096), UInt8.ofNat (128 + r / 64 % 64), UInt8.ofNat (128 + r % 64)]
  else
    [UInt8.ofNat (240 + r / 262144), UInt8.ofNat (128 + r / 4096 % 64),
      UInt8.ofNat (128 + r / 64 % 64), UInt8.ofNat (128 + r % 64)]

def isSurrogate (r : Nat) : Bool := 55296 ≤ r && r < 57344

/-- The code point of a surrogate pair, or the replacement character. -/
def decodePair (high low : Nat) : Nat :=
  if high < 56320 ∧ 56320 ≤ low ∧ low < 57344 then
    (high - 55296) * 1024 + (low - 56320) + 65536
  else 65533

def unescape (c : UInt8) : UInt8 :=
  if c = 98 then 8
  else if c = 102 then 12
  else if c = 110 then 10
  else if c = 114 then 13
  else if c = 116 then 9
  else c

/-- The bytes a string literal stands for. A surrogate takes the code after it along, whatever
that is. -/
def decode : Content → Bytes
  | [] => []
  | .plain c _ :: rest => c :: decode rest
  | .escape c _ :: rest => unescape c :: decode rest
  | .unicode u _ :: .unicode v ok :: rest =>
    if isSurrogate (hexValue u) then
      encodeRune (decodePair (hexValue u) (hexValue v)) ++ decode rest
    else encodeRune (hexValue u) ++ decode (.unicode v ok :: rest)
  | .unicode u _ :: rest => encodeRune (hexValue u) ++ decode rest

namespace Tree

def isObject : Tree → Bool
  | obj .. => true
  | _ => false

def str? : Tree → Option Content
  | str content => some content
  | _ => none

def arr? : Tree → Option (List Tree)
  | arr _ elements => some elements.values
  | _ => none

def members : Tree → List (Content × Tree)
  | obj _ members => members.values
  | _ => []

/-- The first member of a name; there is none in a value that is not an object. -/
def get (t : Tree) (key : String) : Option Tree :=
  (t.members.find? fun m => decode m.1 = bytes key).map Prod.snd

def getLast (t : Tree) (key : String) : Option Tree :=
  (t.members.reverse.find? fun m => decode m.1 = bytes key).map Prod.snd

def isStr (t : Option Tree) (s : String) : Bool :=
  ((t.bind str?).map decode) = some (bytes s)

end Tree

instance : Coe Tree Document := ⟨fun t => ⟨.none, t, .none⟩⟩

/-- A string constant without characters that need an escape. -/
def plainContent (s : String) : Content :=
  (bytes s).filterMap fun c => if ok : isPlain c = true then some (.plain c ok) else none

def Elements.ofList : List Tree → Elements
  | [] => .nil
  | t :: rest => .cons .none t .none (ofList rest)

def Members.ofList : List (String × Document) → Members
  | [] => .nil
  | (key, d) :: rest =>
    .cons .none (plainContent key) .none d.before d.root d.after (ofList rest)

def array (elements : List Tree) : Tree := .arr .none (.ofList elements)

def object (members : List (String × Document)) : Tree := .obj .none (.ofList members)

def string (s : String) : Tree := .str (plainContent s)

@[simp] theorem Elements.values_ofList (elements : List Tree) :
    (Elements.ofList elements).values = elements := by
  induction elements with
  | nil => rfl
  | cons t rest ih => rw [ofList, values, ih]

@[simp] theorem arr?_array (elements : List Tree) : (array elements).arr? = some elements :=
  congrArg some (Elements.values_ofList elements)

/-- A byte of the range, for the second byte of a sequence. -/
def inRange (low high c : UInt8) : Bool := low ≤ c && c ≤ high

def isCont (c : UInt8) : Bool := inRange 128 191 c

/-- The length of the code point at the head of the bytes; zero where there is none. -/
def runeSize : Bytes → Nat
  | c :: d :: e :: f :: _ =>
    if inRange 194 223 c && isCont d then 2
    else if three c d && isCont e then 3
    else if four c d && isCont e && isCont f then 4
    else 0
  | [c, d, e] => if inRange 194 223 c && isCont d then 2 else if three c d && isCont e then 3 else 0
  | [c, d] => if inRange 194 223 c && isCont d then 2 else 0
  | _ => 0
where
  three (c d : UInt8) : Bool :=
    if c = 224 then inRange 160 191 d
    else if c = 237 then inRange 128 159 d
    else inRange 225 239 c && isCont d
  four (c d : UInt8) : Bool :=
    if c = 240 then inRange 144 191 d
    else if c = 244 then inRange 128 143 d
    else inRange 241 243 c && isCont d

/-- A byte as it is; those that need an escape are not meant here. -/
def plainPiece (c : UInt8) : Content := if ok : isPlain c = true then [.plain c ok] else []

def unicodePiece (digits : Bytes) : Content :=
  if ok : digits.length = 4 ∧ digits.all isHex = true then [.unicode digits ok] else []

def escapePiece (c : UInt8) : Content := if ok : c ∈ escapes then [.escape c ok] else []

/-- A byte below 128, with the escapes an encoder writes. -/
def encodeByte (c : UInt8) : Content :=
  if c = 34 ∨ c = 92 then escapePiece c
  else if c = 10 then escapePiece 110
  else if c = 13 then escapePiece 114
  else if c = 9 then escapePiece 116
  else if c = 8 then escapePiece 98
  else if c = 12 then escapePiece 102
  else if c < 32 ∨ c = 38 ∨ c = 60 ∨ c = 62 then
    unicodePiece [48, 48, Framing.hexDigit (c.toNat / 16), Framing.hexDigit (c.toNat % 16)]
  else plainPiece c

/-- The string literal an encoder writes for the bytes, of which the first few belong to a
code point already begun. -/
def encodeFrom : Nat → Bytes → Content
  | _, [] => []
  | begun + 1, c :: rest => plainPiece c ++ encodeFrom begun rest
  | 0, c :: rest =>
    if c < 128 then encodeByte c ++ encodeFrom 0 rest
    else if runeSize (c :: rest) = 0 then
      unicodePiece [102, 102, 102, 100] ++ encodeFrom 0 rest
    else plainPiece c ++ encodeFrom (runeSize (c :: rest) - 1) rest

def encode (bs : Bytes) : Content := encodeFrom 0 bs

end JsonText
