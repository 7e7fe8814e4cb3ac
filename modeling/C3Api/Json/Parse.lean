import C3Api.Json.Tree

/-!
# Reading JSON texts

The tree of a text, if it has one.
-/

namespace JsonText

def takeBlank (bs : Bytes) : Blank × Bytes :=
  (⟨bs.takeWhile isBlank, List.all_takeWhile⟩, bs.dropWhile isBlank)

/-- The string after its opening quote, and what follows its closing quote. -/
def parsePieces : Bytes → Option (Content × Bytes)
  | [] => none
  | c :: rest =>
    if c = 34 then some ([], rest)
    else if c = 92 then
      match rest with
      | [] => none
      | e :: rest =>
        if e = 117 then
          match rest with
          | h₁ :: h₂ :: h₃ :: h₄ :: rest =>
            if ok : [h₁, h₂, h₃, h₄].all isHex = true then
              (parsePieces rest).map fun r => (.unicode [h₁, h₂, h₃, h₄] ⟨rfl, ok⟩ :: r.1, r.2)
            else none
          | _ => none
        else if ok : e ∈ escapes then
          (parsePieces rest).map fun r => (.escape e ok :: r.1, r.2)
        else none
    else if ok : isPlain c = true then (parsePieces rest).map fun r => (.plain c ok :: r.1, r.2)
    else none

def parseDigits (bs : Bytes) : Option (Digits × Bytes) :=
  if some' : bs.takeWhile isDigit ≠ [] then
    some (⟨bs.takeWhile isDigit, some', List.all_takeWhile⟩, bs.dropWhile isDigit)
  else none

/-- A zero stands alone. -/
def parseInt (bs : Bytes) : Option ({ int : Bytes // isInt int = true } × Bytes) :=
  if bs.head? = some 48 then some (⟨[48], rfl⟩, bs.drop 1)
  else
    if ok : isInt (bs.takeWhile isDigit) = true then
      some (⟨bs.takeWhile isDigit, ok⟩, bs.dropWhile isDigit)
    else none

def parseFrac (bs : Bytes) : Option (Option Digits × Bytes) :=
  if bs.head? = some 46 then (parseDigits (bs.drop 1)).map fun r => (some r.1, r.2)
  else some (none, bs)

def parseExp (bs : Bytes) : Option (Option Exponent × Bytes) :=
  if bs.head? = some 101 ∨ bs.head? = some 69 then
    let upper := bs.head? = some 69
    let rest := bs.drop 1
    if rest.head? = some 45 then
      (parseDigits (rest.drop 1)).map fun r => (some ⟨upper, some true, r.1⟩, r.2)
    else if rest.head? = some 43 then
      (parseDigits (rest.drop 1)).map fun r => (some ⟨upper, some false, r.1⟩, r.2)
    else (parseDigits rest).map fun r => (some ⟨upper, none, r.1⟩, r.2)
  else some (none, bs)

def parseNumeral (bs : Bytes) : Option (Numeral × Bytes) :=
  let neg := bs.head? = some 45
  match parseInt (if neg then bs.drop 1 else bs) with
  | none => none
  | some (int, bs) =>
    match parseFrac bs with
    | none => none
    | some (frac, bs) =>
      (parseExp bs).map fun r => (⟨neg, int.1, int.2, frac, r.1⟩, r.2)

def parseWord (word : Bytes) (t : Tree) (bs : Bytes) : Option (Tree × Bytes) :=
  if word.isPrefixOf bs then some (t, bs.drop word.length) else none

mutual

def parseValue : Nat → Bytes → Option (Tree × Bytes)
  | 0, _ => none
  | _ + 1, [] => none
  | fuel + 1, c :: rest =>
    if c = 110 then parseWord [110, 117, 108, 108] .null (c :: rest)
    else if c = 116 then parseWord [116, 114, 117, 101] (.bool true) (c :: rest)
    else if c = 102 then parseWord [102, 97, 108, 115, 101] (.bool false) (c :: rest)
    else if c = 34 then (parsePieces rest).map fun r => (.str r.1, r.2)
    else if c = 91 then
      if (takeBlank rest).2.head? = some 93 then
        some (.arr (takeBlank rest).1 .nil, (takeBlank rest).2.drop 1)
      else (parseElements fuel rest).map fun r => (.arr .none r.1, r.2)
    else if c = 123 then
      if (takeBlank rest).2.head? = some 125 then
        some (.obj (takeBlank rest).1 .nil, (takeBlank rest).2.drop 1)
      else (parseMembers fuel rest).map fun r => (.obj .none r.1, r.2)
    else (parseNumeral (c :: rest)).map fun r => (.num r.1, r.2)

def parseElements : Nat → Bytes → Option (Elements × Bytes)
  | 0, _ => none
  | fuel + 1, bs =>
    match parseValue fuel (takeBlank bs).2 with
    | none => none
    | some (value, rest) =>
      if (takeBlank rest).2.head? = some 93 then
        some (.cons (takeBlank bs).1 value (takeBlank rest).1 .nil, (takeBlank rest).2.drop 1)
      else if (takeBlank rest).2.head? = some 44 then
        (parseElements fuel ((takeBlank rest).2.drop 1)).map fun r =>
          (.cons (takeBlank bs).1 value (takeBlank rest).1 r.1, r.2)
      else none

def parseMembers : Nat → Bytes → Option (Members × Bytes)
  | 0, _ => none
  | fuel + 1, bs =>
    if (takeBlank bs).2.head? = some 34 then
      match parsePieces ((takeBlank bs).2.drop 1) with
      | none => none
      | some (key, afterKey) =>
        if (takeBlank afterKey).2.head? = some 58 then
          match parseValue fuel (takeBlank ((takeBlank afterKey).2.drop 1)).2 with
          | none => none
          | some (value, rest) =>
            if (takeBlank rest).2.head? = some 125 then
              some (.cons (takeBlank bs).1 key (takeBlank afterKey).1
                (takeBlank ((takeBlank afterKey).2.drop 1)).1 value (takeBlank rest).1 .nil,
                (takeBlank rest).2.drop 1)
            else if (takeBlank rest).2.head? = some 44 then
              (parseMembers fuel ((takeBlank rest).2.drop 1)).map fun r =>
                (.cons (takeBlank bs).1 key (takeBlank afterKey).1
                  (takeBlank ((takeBlank afterKey).2.drop 1)).1 value (takeBlank rest).1 r.1, r.2)
            else none
        else none
    else none

end

/-- The tree of a text. A value takes at least one byte, and so does what leads from one call to
the next but one. -/
def parse (bs : Bytes) : Option Document :=
  match parseValue (2 * bs.length + 2) (takeBlank bs).2 with
  | none => none
  | some (root, rest) =>
    if (takeBlank rest).2 = [] then some ⟨(takeBlank bs).1, root, (takeBlank rest).1⟩ else none

end JsonText
