import Mathlib.Data.Finset.Sort
import C3Api.FiniteMap.Basic
import C3Api.Json.Value

/-!
# The stream mapper

A mapper turns the events of an upstream protocol into frames of the client's protocol, one
event at a time. This file holds what its four directions share: how it reads an event,
the state it keeps, how it allots content indexes, and how a stream is finished that
came to its end without a terminal event.
-/

namespace C3Api.Protoconv

open FiniteMap

inductive ProtocolConvert where
  | chatToResp
  | messToResp
  | respToMess
  | chatToMess
deriving DecidableEq

/-- The data of an upstream event: its text, and the value it decodes to if it is JSON. -/
structure Data where
  text : String
  json : Option Json

/-- What a frame carries: a value, text that stands as it is, or for a frame that is written
whole its bytes. -/
inductive Body where
  | json (value : Json)
  | text (text : String)
  | raw (bytes : List UInt8)

/-- A frame for the client; without a name it has no event line. -/
structure Frame where
  event : String
  data : Body

section

open Json

variable (m : Obj) (key : String)

/-- An object; `null` decodes to an empty map. -/
def decodeObj (data : Data) : Option Obj :=
  match data.json with
  | some (.obj members) => some members
  | some .null => some []
  | _ => none

def str : Option String := (last m key).bind Json.str?

def arr : Option (List Json) := (last m key).bind Json.arr?

def num : Option ℚ := (last m key).bind Json.num?

def object : Option Obj := (last m key).bind Json.obj?

def strOr : String := (str m key).getD ""

/-- Conversion to a 64-bit integer, with zero for what is out of its range. -/
def toInt64 (value : ℚ) : Int :=
  if 9223372036854775808 < value ∨ value < -9223372036854775808 then 0
  -- the bound itself is in the range of the comparison and wraps round
  else if value = 9223372036854775808 then -9223372036854775808
  else value.num.tdiv value.den

def intOr0 : Int :=
  match num m key with
  | none => 0
  | some value => toInt64 value

end

/-- What an anchored `type` holds, up to its closing quote. -/
def scanType : List Char → Option (List Char)
  | [] => none
  | '"' :: _ => some []
  | '\\' :: c :: rest => (scanType rest).map fun t => '\\' :: c :: t
  | c :: rest => (scanType rest).map (c :: ·)

/-- The start of data whose first member is its type. -/
def typeAnchor : List Char := ['\x7b', '"', 't', 'y', 'p', 'e', '"', ':', '"']

/-- Decoding into a record with the one string field `type`: names fold their case, `null` leaves
the field as it is, any other value is an error. -/
def decodeType (found : String) : Json.Obj → Option String
  | [] => some found
  | (key, value) :: rest =>
    if key.toLower = "type" then
      match value with
      | .str text => decodeType text rest
      | .null => decodeType found rest
      | _ => none
    else decodeType found rest

/-- The name of an event that came without one; empty when there is none. -/
def inferEventName (data : Data) : String :=
  if typeAnchor.isPrefixOf data.text.toList then
    ((scanType (data.text.toList.drop typeAnchor.length)).map String.ofList).getD ""
  else
    match data.json with
    | some (.obj members) => (decodeType "" members).getD ""
    | _ => ""

inductive Kind where
  | text
  | toolUse
  | thinking
deriving DecidableEq

def Kind.name : Kind → String
  | text => "text"
  | toolUse => "tool_use"
  | thinking => "thinking"

/-- The key a content index is allotted to. -/
structure AllocKey where
  oi : Int
  kind : Kind
deriving DecidableEq

/-- The identity of a content block over several events. -/
structure BlockKey where
  id : String
  oi : Int
  kind : Kind
deriving DecidableEq

def blockKeyOf (id : String) (oi : Int) (kind : Kind) : BlockKey :=
  if id ≠ "" then ⟨id, 0, kind⟩ else ⟨"", oi, kind⟩

structure ThinkingBlock where
  type : String
  thinking : String := ""
  signature : String := ""
  data : String := ""

/-- What carries a Responses reasoning item through a thinking block's signature. -/
structure ReasoningRef where
  encryptedContent : String
  id : String

/-- What an envelope may hold. -/
inductive Envelope where
  | thinking (block : ThinkingBlock)
  | ref (ref : ReasoningRef)

section

-- The encoding of an envelope; empty when it would be longer than an envelope may be.
variable (sealBytes : Envelope → String)

def maxThinkingBytes : Nat := 262144

/-- Whether a thinking block survives the way through an envelope and back. -/
def canReplay (b : ThinkingBlock) : Bool :=
  if b.type = "thinking" then
    !(b.signature = "" || maxThinkingBytes < b.thinking.utf8ByteSize) &&
      sealBytes (.thinking b) ≠ ""
  else if b.type = "redacted_thinking" then
    !(b.data = "" || maxThinkingBytes < b.data.utf8ByteSize) && sealBytes (.thinking b) ≠ ""
  else false

def sealThinking (b : ThinkingBlock) : String :=
  if canReplay sealBytes b then sealBytes (.thinking b) else ""

def sealReasoningRef (r : ReasoningRef) : String :=
  if r.encryptedContent = "" then "" else sealBytes (.ref r)

end

structure StreamMapper where
  started : Bool := false
  done : Bool := false
  id : String := ""
  model : String := ""
  created : Int := 0
  it : Int := 0
  ot : Int := 0
  cached : Int := 0
  cacheCreate : Int := 0
  reason : String := ""
  allocIndex : Map AllocKey Int := ∅
  owner : Map Int AllocKey := ∅
  itemIndex : Map BlockKey Int := ∅
  nextIndex : Int := 0
  nonThinkSeen : Bool := false
  blockStarted : Finset Int := ∅
  blockStopped : Finset Int := ∅
  textByIndex : Map Int String := ∅
  argsByIndex : Map Int String := ∅
  fcNames : Map Int String := ∅
  fcIDs : Map Int String := ∅
  blockOrder : List Int := []
  thinkBlocks : Map Int ThinkingBlock := ∅

/-- A mapper after an event, with the frames it sends. -/
abbrev Mapped := StreamMapper × List Frame

namespace StreamMapper

variable (m : StreamMapper)

def free (owner : Map Int AllocKey) (key : AllocKey) (idx : Int) : Bool :=
  (owner.lookup idx).all (· = key)

def probe (owner : Map Int AllocKey) (key : AllocKey) : Nat → Int → Int
  | 0, idx => idx
  | fuel + 1, idx => if free owner key idx then idx else probe owner key fuel (idx + 1)

/-- The content index of an output index and a kind: the output index itself unless another key
holds it. -/
def contentIndex (oi : Int) (kind : Kind) : StreamMapper × Int :=
  let key : AllocKey := ⟨oi, kind⟩
  match m.allocIndex.lookup key with
  | some idx => (m, idx)
  | none =>
    let base := if free m.owner key oi then oi else m.nextIndex
    -- every taken index has its own entry, so that many steps find a free one
    let idx := probe m.owner key m.owner.keys.length base
    ({ m with
        allocIndex := m.allocIndex.insert key idx
        owner := m.owner.insert idx key
        nextIndex := if m.nextIndex ≤ idx then idx + 1 else m.nextIndex }, idx)

def blockIndex (key : BlockKey) (oi : Int) (kind : Kind) : StreamMapper × Int :=
  match m.itemIndex.lookup key with
  | some idx => (m, idx)
  | none =>
    let (m', idx) := m.contentIndex oi kind
    ({ m' with itemIndex := m'.itemIndex.insert key idx }, idx)

/-- Whether the kind holds the index; a thinking block's index is held by thinking alone. -/
def indexOwnedBy (idx : Int) (kind : Kind) : Bool :=
  if (m.thinkBlocks.lookup idx).isSome then kind = .thinking
  else (m.owner.lookup idx).any fun holder => holder.kind = kind

/-- As `blockIndex`, but an index another kind holds is not taken over. -/
def ownBlockIndex (key : BlockKey) (oi : Int) (kind : Kind) : StreamMapper × Int :=
  match m.itemIndex.lookup key with
  | some idx =>
    if m.indexOwnedBy idx kind then (m, idx)
    else
      let (m', idx') := m.contentIndex oi kind
      ({ m' with itemIndex := m'.itemIndex.insert key idx' }, idx')
  | none =>
    let (m', idx) := m.contentIndex oi kind
    ({ m' with itemIndex := m'.itemIndex.insert key idx }, idx)

end StreamMapper

/-- The matching key of a tool call: its call id, or its item id where that is missing. -/
def toolCallID (item : Json.Obj) : String :=
  match str item "call_id" with
  | some id => if id ≠ "" then id else strOr item "id"
  | none => strOr item "id"

def encodeFrame (name : String) (members : Json.Obj) : Frame := ⟨name, .json (.obj members)⟩

def doneFrame : Frame := ⟨"", .text "[DONE]"⟩

end C3Api.Protoconv
