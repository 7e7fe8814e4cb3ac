import C3Api.Json.Parse
import C3Api.Protoconv.ContentModel

/-!
# From the messages of a chat request to those of a Messages request

The converter appends bytes; what it appends is built here as trees, which have these bytes
as their texts. Two loops decide about tool calls: one asks whether an answered call was
declared, another one writes the calls.
-/

namespace C3Api.Protoconv

open JsonText JsonText.Tree

/-- The literal of a string; anything else counts as an empty one. -/
def strLit (v : Option Tree) : Content := (v.bind str?).getD []

def textParts (content : List Tree) : List Content :=
  content.filterMap fun p =>
    if p.isObject && isStr (p.get "type") "text" then (p.get "text").bind str? else none

def joinLines : List Content → Content
  | [] => []
  | [t] => t
  | t :: rest => t ++ escapePiece 110 ++ joinLines rest

def contentTextRaw (content : Option Tree) : Option Content :=
  match content with
  | some (.str c) => some c
  | some (.arr _ elements) =>
    if textParts elements.values = [] then none else some (joinLines (textParts elements.values))
  | _ => none

/-- A string that is itself a JSON text stands for that text, anything else for an empty
object. -/
def appendParsedJSON (v : Option Tree) : Document :=
  let lit := strLit v
  if lit = [] then object []
  else (parse (decode lit)).getD (object [])

def imageURLRaw (p : Tree) : Option Content :=
  match p.get "image_url" with
  | some (.str c) => some c
  | some (.obj blank members) => (JsonText.Tree.get (.obj blank members) "url").bind str?
  | _ => none

def chatImgShape (p : Tree) : ChatShape :=
  match imageURLRaw p with
  | none => .tail
  | some u =>
    if (bytes "https://").isPrefixOf (decode u) || (bytes "http://").isPrefixOf (decode u) then
      .userImgURL
    else if (bytes "data:image/").isPrefixOf (decode u) then .userImgData
    else .userImgBare64

def imageMedia : List Bytes := [bytes "jpeg", bytes "png", bytes "gif", bytes "webp"]

/-- The image block of an address: a web address of at least eight bytes, or inline data of a
known type. -/
def appendImageSource (url : Content) : Option Tree :=
  let s := decode url
  if 8 ≤ s.length && ((bytes "https://").isPrefixOf s || (bytes "http://").isPrefixOf s) then
    some (object
      [("source", object [("type", string "url"), ("url", str url)]),
        ("type", string "image")])
  else if (bytes "data:image/").isPrefixOf s then
    let rest := s.drop 11
    let media := rest.takeWhile (· ≠ 59)
    let after := rest.dropWhile (· ≠ 59)
    if media ∈ imageMedia && (bytes ";base64,").isPrefixOf after then
      some (object
        [("source", object
            [("data", str (encode (after.drop 8))),
              ("media_type", str (encode (bytes "image/" ++ media))),
              ("type", string "base64")]),
          ("type", string "image")])
    else none
  else none

def chatMessPartShape (r : Role) (p : Tree) : ChatShape :=
  let typ := p.get "type"
  if r = .assistant then
    if isStr typ "text" then .asstText
    else if isStr typ "refusal" then .asstRefusal
    else .asstOtherParts
  else if isStr typ "text" then .userText
  else if isStr typ "image_url" then chatImgShape p
  else if isStr typ "input_audio" then .userAudio
  else if isStr typ "file" then
    match p.get "file" with
    | some f => if f.isObject && strLit (f.get "file_id") ≠ [] then .userFileID else .userFileData
    | none => .userFileData
  else .tail

def textBlockTree (text : Content) : Tree :=
  object [("text", str text), ("type", string "text")]

def partBlock (r : Role) (p : Tree) : Option Tree :=
  if p.isObject && emits rowsChatToMess (chatMessPartShape r p) r then
    match chatMessPartShape r p with
    | .userText | .asstText => ((p.get "text").bind str?).map textBlockTree
    -- a refusal is written as text
    | .asstRefusal => ((p.get "refusal").bind str?).map textBlockTree
    | .userImgURL | .userImgData => (imageURLRaw p).bind appendImageSource
    | _ => none
  else none

def appendChatPartsMess (content : Option Tree) (r : Role) : List Tree :=
  ((content.bind arr?).getD []).filterMap (partBlock r)

def toolUseBlock (tc : Tree) : Option Tree :=
  if tc.isObject then
    match tc.get "function" with
    | none => none
    | some fn =>
      if fn.isObject then
        some (object
          [("id", str (strLit (tc.get "id"))),
            ("input", appendParsedJSON (fn.get "arguments")),
            ("name", str (strLit (fn.get "name"))), ("type", string "tool_use")])
      else none
  else none

def assistantBlocks (mv : Tree) : List Tree :=
  let content := mv.get "content"
  let text := strLit content
  appendChatPartsMess content .assistant ++
    (if text ≠ [] && mapsTo rowsChatToMess .asstText .assistant then [textBlockTree text] else []) ++
    (if mapsTo rowsChatToMess .asstToolFunction .assistant then
      (((mv.get "tool_calls").bind arr?).getD []).filterMap toolUseBlock
    else [])

def chatDeclaresToolCall (msgs : List Tree) (callID : Content) : Bool :=
  msgs.any fun mv =>
    isStr (mv.get "role") "assistant" &&
      (((mv.get "tool_calls").bind arr?).getD []).any fun tc =>
        decode (strLit (tc.get "id")) = decode callID

def messageTree (blocks : List Tree) (role : String) : Tree :=
  object [("content", array blocks), ("role", string role)]

def appendToolResult (callID body : Content) : Tree :=
  messageTree
    [object [("content", str body), ("tool_use_id", str callID),
      ("type", string "tool_result")]]
    "user"

def answeredID (mv : Tree) : Content :=
  if isStr (mv.get "role") "function" then strLit (mv.get "name")
  else strLit (mv.get "tool_call_id")

def chatToolMessage (msgs : List Tree) (mv : Tree) : Option Tree :=
  let sh := if isStr (mv.get "role") "function" then ChatShape.functionMsg else .toolMsg
  if mapsTo rowsChatToMess sh .tool then
    match contentTextRaw (mv.get "content") with
    | none => none
    | some text =>
      -- an answer to a call nobody made is dropped
      if chatDeclaresToolCall msgs (answeredID mv) then
        some (appendToolResult (answeredID mv) text)
      else none
  else none

def chatMessMessage (msgs : List Tree) (mv : Tree) : Option Tree :=
  if mv.isObject then
    let content := mv.get "content"
    match roleOf (mv.get "role") with
    | .user =>
      match content with
      | some (.str text) =>
        if mapsTo rowsChatToMess .userText .user then
          some (object [("content", str text), ("role", string "user")])
        else none
      | _ =>
        let blocks := appendChatPartsMess content .user
        if blocks = [] then none else some (messageTree blocks "user")
    | .assistant =>
      if assistantBlocks mv = [] then none
      else some (messageTree (assistantBlocks mv) "assistant")
    | .tool => chatToolMessage msgs mv
    -- system texts are folded into a field of the request
    | _ => none
  else none

def appendChatMessMessages (msgs : List Tree) : List Tree := msgs.filterMap (chatMessMessage msgs)

/-- The messages of a converted request; of several members of the name the last one counts. -/
def convertedMessages (root : Tree) : List Tree :=
  (((root.getLast "messages").bind arr?).map appendChatMessMessages).getD []

end C3Api.Protoconv
