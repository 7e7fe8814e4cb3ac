import C3Api.Encoding.Framing
import C3Api.Protoconv.RespToMess

/-!
# From a Responses stream to a Chat stream

This direction writes the text of its chunks itself. A delta whose event is written plainly
is not decoded at all: its string is found by a scan of the text and stands in the chunk
as it came.
-/

namespace C3Api.Protoconv

open Json Machine

def skipSpace (data : List Char) : List Char :=
  data.dropWhile fun c => c = ' ' || c = '\n' || c = '\r' || c = '\t'

/-- The text of a string after its opening quote, and what follows its closing quote. -/
def rawTail : List Char → Option (List Char × List Char)
  | [] => none
  | ['\\'] => none
  | '\\' :: c :: rest => (rawTail rest).map fun r => ('\\' :: c :: r.1, r.2)
  | '"' :: rest => some ([], rest)
  | c :: rest => (rawTail rest).map fun r => (c :: r.1, r.2)

def rawString : List Char → Option (List Char × List Char)
  | '"' :: rest => rawTail rest
  | _ => none

def digits (n : Int) : List Char → Int × List Char
  | [] => (n, [])
  | c :: rest =>
    if c.isDigit then digits (wrap (n * 10 + (c.toNat - '0'.toNat))) rest else (n, c :: rest)

def rawInt : List Char → Option (Int × List Char)
  | [] => none
  | c :: rest =>
    if c.isDigit then
      match digits 0 (c :: rest) with
      | (_, '.' :: _) => none
      | (_, 'e' :: _) => none
      | (_, 'E' :: _) => none
      | found => some found
    else none

/-- What follows the bracket that closes the given depth; brackets of the other kind and
those inside strings do not count. -/
def skipNested (opening closing : Char) : Nat → Nat → List Char → Option (List Char)
  | _, 0, data => some data
  | 0, _ + 1, _ => none
  | _ + 1, _ + 1, [] => none
  | fuel + 1, depth + 1, '"' :: rest =>
    match rawTail rest with
    | none => none
    | some (_, after) => skipNested opening closing fuel (depth + 1) after
  | fuel + 1, depth + 1, c :: rest =>
    if c = opening then skipNested opening closing fuel (depth + 2) rest
    else if c = closing then skipNested opening closing fuel depth rest
    else skipNested opening closing fuel (depth + 1) rest

def skipWord (word : String) (data : List Char) : Option (List Char) :=
  if word.toList.isPrefixOf data then some (data.drop word.length) else none

def skipValue : List Char → Option (List Char)
  | '"' :: rest => (rawTail rest).map Prod.snd
  -- every turn of the scan takes a character
  | '\x7b' :: rest => skipNested '\x7b' '\x7d' rest.length 1 rest
  | '[' :: rest => skipNested '[' ']' rest.length 1 rest
  | 't' :: rest => skipWord "true" ('t' :: rest)
  | 'f' :: rest => skipWord "false" ('f' :: rest)
  | 'n' :: rest => skipWord "null" ('n' :: rest)
  | c :: rest =>
    if c = '-' || c.isDigit then
      some (rest.dropWhile fun c =>
        c.isDigit || c = '.' || c = 'e' || c = 'E' || c = '+' || c = '-')
    else none
  | [] => none

/-- What a scan has found: the string of the one key and the number of the other. -/
structure Literal where
  str : Option (List Char) := none
  num : Int := 0

/-- One member whose key has been read: keep what it holds, or pass over it. -/
def literalMember (key numKey : String) (found : Literal) (name value : List Char) :
    Option (Literal × List Char) :=
  if name = key.toList then
    (rawString value).map fun r => ({ found with str := some r.1 }, r.2)
  else if numKey ≠ "" ∧ name = numKey.toList then
    (rawInt value).map fun r => ({ found with num := r.1 }, r.2)
  else (skipValue value).map fun after => (found, after)

def literalMembers (key numKey : String) : Nat → Literal → List Char → Option (List Char × Int)
  | 0, _, _ => none
  | fuel + 1, found, data =>
    match skipSpace data with
    | '\x7d' :: rest =>
      if skipSpace rest = [] then found.str.map fun s => (s, found.num) else none
    | '"' :: rest =>
      match rawTail rest with
      | none => none
      | some (name, afterKey) =>
        match skipSpace afterKey with
        | ':' :: afterColon =>
          match literalMember key numKey found name (skipSpace afterColon) with
          | none => none
          | some (found', after) =>
            -- a missing comma is not noticed
            match skipSpace after with
            | ',' :: next => literalMembers key numKey fuel found' next
            | next => literalMembers key numKey fuel found' next
        | _ => none
    | _ => none

/-- The string of a key at the top of an object, between its quotes and not decoded, with the
number of another key. The last of several members counts. -/
def literalTop (data : String) (key numKey : String) : Option (String × Int) :=
  match skipSpace data.toList with
  | '\x7b' :: rest =>
    -- every turn of the scan takes a member or ends it
    (literalMembers key numKey (rest.length + 1) {} rest).map fun r => (String.ofList r.1, r.2)
  | _ => none

section

variable (m : Obj) (key : String)

def strOrEmpty : String := ((first m key).bind Json.str?).getD ""

def gjsonNumInt : Int :=
  match first m key with
  | some (.num value) => toInt64 value
  | _ => 0

def getObject : Option Obj := (first m key).bind Json.obj?

def getArray : List Json := ((first m key).bind Json.arr?).getD []

def hasStr (text : String) : Bool := (first m key).bind Json.str? = some text

def getPath (inner : String) : Option Json :=
  m.findSome? fun p => if p.1 = key then p.2.obj?.bind fun o => first o inner else none

end

def hexChar (n : Nat) : Char := Char.ofNat (Framing.hexDigit n).toNat

def escape (c : Char) : List Char :=
  if c = '"' then ['\\', '"']
  else if c = '\\' then ['\\', '\\']
  else if c = '\n' then ['\\', 'n']
  else if c = '\r' then ['\\', 'r']
  else if c = '\t' then ['\\', 't']
  else if c.toNat = 8 then ['\\', 'b']
  else if c.toNat = 12 then ['\\', 'f']
  else if c.toNat < 32 ∨ c = '&' ∨ c = '<' ∨ c = '>' then
    ['\\', 'u', '0', '0', hexChar (c.toNat / 16), hexChar (c.toNat % 16)]
  else [c]

def appendJSONString (s : String) : String := "\"" ++ String.ofList (s.toList.flatMap escape) ++ "\""

def objText (members : List (String × String)) : String :=
  "\x7b" ++ ",".intercalate (members.map fun p => "\"" ++ p.1 ++ "\":" ++ p.2) ++ "\x7d"

def arrText (items : List String) : String := "[" ++ ",".intercalate items ++ "]"

/-- The matching key of a tool call: its call id unless that is empty, or its item id. -/
def fcIDRaw (item : Obj) : String :=
  if strOrEmpty item "call_id" ≠ "" then strOrEmpty item "call_id" else strOrEmpty item "id"

def chatFinishFromIncomplete (reason : String) : String := (stopRow reason).chat

def hasRespFunctionCall (output : List Json) : Bool :=
  (objects output).any fun item => hasStr item "type" "function_call"

def hasRespRefusal (output : List Json) : Bool :=
  (objects output).any fun item =>
    hasStr item "type" "message" &&
      (objects (getArray item "content")).any fun part => hasStr part "type" "refusal"

def chatFinishReason (resp : Obj) : String :=
  if hasStr resp "status" "incomplete" then
    chatFinishFromIncomplete (((getPath resp "incomplete_details" "reason").bind Json.str?).getD "")
  else if hasRespFunctionCall (getArray resp "output") then "tool_calls"
  else if hasRespRefusal (getArray resp "output") then "content_filter"
  else "stop"

def appendChatPromptDetails (cr cc : Int) : String :=
  objText ([("cached_tokens", toString cr)] ++
    if 0 < cc then [("cache_write_tokens", toString cc)] else [])

def appendChatUsage (u : Obj) : String :=
  let reasoning := gjsonNumInt ((getObject u "output_tokens_details").getD []) "reasoning_tokens"
  let details := (getObject u "input_tokens_details").getD []
  let c := gjsonNumInt details "cached_tokens"
  let w := gjsonNumInt details "cache_write_tokens"
  objText ([("completion_tokens", toString (gjsonNumInt u "output_tokens"))] ++
    (if 0 < reasoning then
      [("completion_tokens_details", objText [("reasoning_tokens", toString reasoning)])]
    else []) ++
    [("prompt_tokens", toString (gjsonNumInt u "input_tokens"))] ++
    (if 0 < c ∨ 0 < w then [("prompt_tokens_details", appendChatPromptDetails c w)] else []) ++
    [("total_tokens", toString (gjsonNumInt u "total_tokens"))])

namespace StreamMapper

variable (m : StreamMapper)

def chunkTail : List (String × String) :=
  [("created", toString m.created), ("id", appendJSONString m.id),
    ("model", appendJSONString m.model), ("object", appendJSONString "chat.completion.chunk")]

def chatChunkFrame (delta finish : String) : Frame :=
  ⟨"", .text (objText
    ([("choices", arrText [objText [("delta", delta), ("finish_reason", finish), ("index", "0")]])] ++
      m.chunkTail))⟩

def appendUsageOnlyChunk (usage : String) : Frame :=
  ⟨"", .text (objText ([("choices", arrText [])] ++ m.chunkTail ++ [("usage", usage)]))⟩

def textChunk (key literal : String) : Frame := m.chatChunkFrame (objText [(key, literal)]) "null"

def argumentsChunk (literal : String) (index : Int) : Frame :=
  m.chatChunkFrame
    (objText [("tool_calls", arrText [objText
      [("function", objText [("arguments", literal)]), ("index", toString index)]])])
    "null"

def plainDelta (name : String) (data : Data) : Option Frame :=
  match RespEvent.ofName name with
  | .textDelta =>
    (literalTop data.text "delta" "").map fun r => m.textChunk "content" ("\"" ++ r.1 ++ "\"")
  | .argumentsDelta =>
    (literalTop data.text "delta" "output_index").map fun r =>
      m.argumentsChunk ("\"" ++ r.1 ++ "\"") r.2
  | .reasoningDelta =>
    (literalTop data.text "delta" "").map fun r =>
      m.textChunk "reasoning_content" ("\"" ++ r.1 ++ "\"")
  | _ => none

def chatCreated (ev : Obj) : Mapped :=
  if m.started then (m, [])
  else
    let m' :=
      match getObject ev "response" with
      | none => { m with started := true }
      | some resp =>
        { m with
          started := true
          id := ((first resp "id").bind Json.str?).getD m.id
          model := ((first resp "model").bind Json.str?).getD m.model
          created := gjsonNumInt resp "created_at" }
    (m', [m'.chatChunkFrame
      (objText [("content", appendJSONString ""), ("role", appendJSONString "assistant")]) "null"])

def chatItemAdded (ev : Obj) : Mapped :=
  match getObject ev "item" with
  | none => (m, [])
  | some item =>
    if hasStr item "type" "function_call" then
      (m, [m.chatChunkFrame
        (objText [("tool_calls", arrText [objText
          [("function", objText
              [("arguments", appendJSONString ""),
                ("name", appendJSONString (strOrEmpty item "name"))]),
            ("id", appendJSONString (fcIDRaw item)),
            ("index", toString (gjsonNumInt ev "output_index")),
            ("type", appendJSONString "function")]])])
        "null"])
    else (m, [])

def chatCompleted (ev : Obj) : Mapped :=
  if m.done then (m, [])
  else
    let resp := (getObject ev "response").getD []
    let m' := { m with done := true }
    (m', [m'.chatChunkFrame (objText []) (appendJSONString (chatFinishReason resp))] ++
      ((getObject resp "usage").map fun u => m'.appendUsageOnlyChunk (appendChatUsage u)).toList ++
      [doneFrame])

def chatFailed (ev : Obj) : Mapped :=
  if m.done then (m, [])
  else
    let error := (getObject ((getObject ev "response").getD []) "error").map fun e =>
      Frame.mk "" (.text (objText
        [("error", objText [("message", appendJSONString (strOrEmpty e "message"))])]))
    ({ m with done := true }, error.toList ++ [doneFrame])

def mapRespToChat (name : String) (data : Data) : Mapped :=
  match m.plainDelta name data with
  | some frame => (m, [frame])
  | none =>
    match data.json with
    | some (.obj ev) =>
      match RespEvent.ofName name with
      | .created => m.chatCreated ev
      | .textDelta => (m, [m.textChunk "content" (appendJSONString (strOrEmpty ev "delta"))])
      | .reasoningDelta =>
        (m, [m.textChunk "reasoning_content" (appendJSONString (strOrEmpty ev "delta"))])
      | .itemAdded => m.chatItemAdded ev
      | .argumentsDelta =>
        (m, [m.argumentsChunk (appendJSONString (strOrEmpty ev "delta"))
          (gjsonNumInt ev "output_index")])
      | .completed => m.chatCompleted ev
      | .failed => m.chatFailed ev
      | _ => (m, [])
    | _ => (m, [])

end StreamMapper

end C3Api.Protoconv
