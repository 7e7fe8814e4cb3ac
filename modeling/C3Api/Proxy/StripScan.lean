import Mathlib.Data.List.TakeWhile

/-!
# Byte scanner for JSON objects

`proxy/strip_scan.go`: the single-pass scanner that finds the value of a
top-level key. A position in the body is the list of bytes from there on, and a
jump of the source's index over a value is a count of bytes still to pass.
-/

namespace C3Api.Proxy

abbrev Bytes := List UInt8

def bytes (s : String) : Bytes := s.toUTF8.toList

def quote : UInt8 := 34
def comma : UInt8 := 44
def colon : UInt8 := 58
def backslash : UInt8 := 92
def openBrace : UInt8 := 123
def closeBrace : UInt8 := 125
def openBracket : UInt8 := 91
def closeBracket : UInt8 := 93

def isWS (c : UInt8) : Bool := c == 32 || c == 9 || c == 10 || c == 13

def skipSpace (body : Bytes) : Bytes := body.dropWhile isWS

def prepend (c : UInt8) (scanned : Option (Bytes × Bytes)) : Option (Bytes × Bytes) :=
  scanned.map (fun found => (c :: found.1, found.2))

/-- The raw content of a string after its opening quote, and what follows the
closing one. -/
def parseJSONString : Bytes → Option (Bytes × Bytes)
  | [] => none
  | c :: rest =>
    if c = backslash then
      match rest with
      | [] => none
      | d :: rest => prepend c (prepend d (parseJSONString rest))
    else if c = quote then some ([], rest)
    else prepend c (parseJSONString rest)

/-- The rest of an object or array at nesting `depth`, with `jump` bytes of a
string still to pass. -/
def skipNested (depth jump : Nat) : Bytes → Option (Bytes × Bytes)
  | [] => none
  | c :: rest =>
    match jump with
    | jump + 1 => prepend c (skipNested depth jump rest)
    | 0 =>
      if c = quote then
        match parseJSONString rest with
        | none => none
        | some (_, after) => prepend c (skipNested depth (rest.length - after.length) rest)
      else if c = openBrace ∨ c = openBracket then prepend c (skipNested (depth + 1) 0 rest)
      else if c = closeBrace ∨ c = closeBracket then
        if depth = 1 then some ([c], rest) else prepend c (skipNested (depth - 1) 0 rest)
      else prepend c (skipNested depth 0 rest)

def skipLiteral (word body : Bytes) : Option (Bytes × Bytes) :=
  if body.take word.length = word then some (word, body.drop word.length) else none

def endsNumber (c : UInt8) : Bool :=
  isWS c || c == comma || c == closeBrace || c == closeBracket

/-- The value at the head of the body and what follows it. -/
def skipValue (body : Bytes) : Option (Bytes × Bytes) :=
  match body with
  | [] => none
  | c :: rest =>
    if c = quote then (parseJSONString rest).map (fun found => (c :: found.1 ++ [quote], found.2))
    else if c = openBrace ∨ c = openBracket then prepend c (skipNested 1 0 rest)
    else if c = 116 then skipLiteral (bytes "true") body
    else if c = 102 then skipLiteral (bytes "false") body
    else if c = 110 then skipLiteral (bytes "null") body
    else some (body.span (fun b => !endsNumber b))

/-- One `"key": value` member after the opening quote of its key. -/
def scanMember (rest : Bytes) : Option (Bytes × Bytes × Bytes) :=
  match parseJSONString rest with
  | none => none
  | some (key, next) =>
    match skipSpace next with
    | [] => none
    | c :: next =>
      if c = colon then (skipValue (skipSpace next)).map (fun found => (key, found)) else none

def scanMembers (key : Bytes) (jump : Nat) : Bytes → Option Bytes
  | [] => none
  | c :: rest =>
    match jump with
    | jump + 1 => scanMembers key jump rest
    | 0 =>
      if isWS c ∨ c = comma then scanMembers key 0 rest
      else if c = quote then
        match scanMember rest with
        | none => none
        | some (found, value, after) =>
          if found = key then some value
          else scanMembers key (rest.length - after.length) rest
      else none

/-- The value of the first top-level member with this raw key. -/
def scanKeyValue (body key : Bytes) : Option Bytes :=
  match skipSpace body with
  | [] => none
  | c :: rest => if c = openBrace then scanMembers key 0 rest else none

end C3Api.Proxy
