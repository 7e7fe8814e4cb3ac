import C3Api.Machine.Int64
import C3Api.Protoconv.Mapper

/-!
# From a Responses stream to a Messages stream

Every content block of the client's stream has an index of its own kind. It is started by
its first event, stopped by its last one, and all blocks still open are stopped before the
message is.
-/

namespace C3Api.Protoconv

open Json Machine

inductive RespEvent where
  | created
  | textDelta
  | textDone
  | itemAdded
  | reasoningDelta
  | itemDone
  | argumentsDelta
  | argumentsDone
  | completed
  | failed
  | other
deriving DecidableEq

def RespEvent.ofName : String → RespEvent
  | "response.created" => created
  | "response.output_text.delta" => textDelta
  | "response.refusal.delta" => textDelta
  | "response.output_text.done" => textDone
  | "response.refusal.done" => textDone
  | "response.output_item.added" => itemAdded
  | "response.reasoning_summary_text.delta" => reasoningDelta
  | "response.reasoning_text.delta" => reasoningDelta
  | "response.output_item.done" => itemDone
  | "response.function_call_arguments.delta" => argumentsDelta
  | "response.function_call_arguments.done" => argumentsDone
  | "response.completed" => completed
  | "response.failed" => failed
  | _ => other

/-- The input tokens without the cached ones, as the Messages protocol counts them. -/
def respInputNet (gross cacheRead cacheWrite : Int) : Int :=
  max 0 (sub64 (sub64 gross cacheRead) cacheWrite)

def respUsageToMess (r : Obj) : Obj :=
  let u := (object r "usage").getD []
  let d := (object u "input_tokens_details").getD []
  let cached := intOr0 d "cached_tokens"
  let write := intOr0 d "cache_write_tokens"
  [("input_tokens", .int (respInputNet (intOr0 u "input_tokens") cached write)),
    ("output_tokens", .int (intOr0 u "output_tokens")),
    ("cache_creation_input_tokens", .int write),
    ("cache_read_input_tokens", .int cached)]

structure StopRow where
  incomplete : String
  mess : String
  chat : String

def stopMapIncomplete : List StopRow :=
  [⟨"content_filter", "refusal", "content_filter"⟩,
    ⟨"max_output_tokens", "max_tokens", "length"⟩,
    ⟨"max_messages", "max_tokens", "length"⟩,
    ⟨"steered", "end_turn", "stop"⟩]

def stopDefaultIncomplete : StopRow := ⟨"", "max_tokens", "length"⟩

def stopRow (reason : String) : StopRow :=
  (stopMapIncomplete.find? fun row => row.incomplete = reason).getD stopDefaultIncomplete

def messStopFromIncomplete (reason : String) : String := (stopRow reason).mess

def objects (items : List Json) : List Obj := items.filterMap Json.obj?

def hasCall (output : List Json) : Bool :=
  (objects output).any fun item => str item "type" = some "function_call"

def hasRefusal (output : List Json) : Bool :=
  (objects output).any fun item =>
    str item "type" = some "message" &&
      (objects ((arr item "content").getD [])).any fun part => str part "type" = some "refusal"

def respToMessStopReason (r : Obj) : String :=
  if strOr r "status" = "incomplete" then
    messStopFromIncomplete (strOr ((object r "incomplete_details").getD []) "reason")
  else
    let output := (arr r "output").getD []
    if hasCall output then "tool_use"
    else if hasRefusal output then "refusal"
    else "end_turn"

def messageStart (id model : String) : Frame :=
  encodeFrame "message_start"
    [("type", .str "message_start"),
      ("message", .obj
        [("id", .str id), ("type", .str "message"), ("role", .str "assistant"),
          ("model", .str model), ("content", .arr []), ("stop_reason", .null),
          ("stop_sequence", .null),
          ("usage", .obj [("input_tokens", .int 0), ("output_tokens", .int 0)])])]

def blockStart (index : Int) (block : Obj) : Frame :=
  encodeFrame "content_block_start"
    [("type", .str "content_block_start"), ("index", .int index), ("content_block", .obj block)]

def textBlock : Obj := [("type", .str "text"), ("text", .str "")]

def thinkBlock : Obj := [("type", .str "thinking"), ("thinking", .str ""), ("signature", .str "")]

def toolBlock (id name : String) : Obj :=
  [("type", .str "tool_use"), ("id", .str id), ("name", .str name), ("input", .obj [])]

def blockDelta (index : Int) (delta : Obj) : Frame :=
  encodeFrame "content_block_delta"
    [("type", .str "content_block_delta"), ("index", .int index), ("delta", .obj delta)]

def blockStop (index : Int) : Frame :=
  encodeFrame "content_block_stop" [("type", .str "content_block_stop"), ("index", .int index)]

def messageDelta (reason : String) (usage : Obj) : Frame :=
  encodeFrame "message_delta"
    [("type", .str "message_delta"),
      ("delta", .obj [("stop_reason", .str reason), ("stop_sequence", .null)]),
      ("usage", .obj usage)]

def finalDelta (ev : Obj) : Frame :=
  match object ev "response" with
  | some resp => messageDelta (respToMessStopReason resp) (respUsageToMess resp)
  | none => messageDelta "" (respUsageToMess [])

def messageStop : Frame := encodeFrame "message_stop" [("type", .str "message_stop")]

def errorFrame (message : String) : Frame :=
  encodeFrame "error"
    [("type", .str "error"),
      ("error", .obj [("type", .str "api_error"), ("message", .str message)])]

namespace StreamMapper

variable (m : StreamMapper)

/-- The content index of an event, found by its item id first. -/
def eventBlockIndex (ev : Obj) (kind : Kind) : StreamMapper × Int :=
  m.ownBlockIndex (blockKeyOf (strOr ev "item_id") (intOr0 ev "output_index") kind)
    (intOr0 ev "output_index") kind

/-- The content index of a reasoning event; `none` when the block comes too late. -/
def thinkBlockIndex (key : BlockKey) (oi : Int) : StreamMapper × Option Int :=
  match m.itemIndex.lookup key with
  | some idx => (m, some idx)
  | none =>
    if m.nonThinkSeen then (m, none)
    else
      let (m', index) := m.blockIndex key oi .thinking
      ({ m' with
          thinkBlocks :=
            if (m'.thinkBlocks.lookup index).isSome then m'.thinkBlocks
            else m'.thinkBlocks.insert index { type := "thinking" } }, some index)

/-- The content index of a finished reasoning item; without an id it is only looked up. -/
def doneThinkIndex (id : String) (oi : Int) : StreamMapper × Option Int :=
  if id ≠ "" then m.thinkBlockIndex (blockKeyOf id oi .thinking) oi
  else (m, m.itemIndex.lookup (blockKeyOf "" oi .thinking))

def stopBlock (index : Int) : Mapped :=
  if index ∉ m.blockStarted ∨ index ∈ m.blockStopped then (m, [])
  else ({ m with blockStopped := insert index m.blockStopped }, [blockStop index])

def closeOpenBlocks : Mapped :=
  ({ m with blockStopped := m.blockStopped ∪ m.blockStarted },
    ((m.blockStarted \ m.blockStopped).sort (· ≤ ·)).map blockStop)

def startBlock (index : Int) (block : Obj) : Mapped :=
  if index ∈ m.blockStarted then (m, [])
  else ({ m with blockStarted := insert index m.blockStarted }, [blockStart index block])

def respCreated (ev : Obj) : Mapped :=
  if m.started then (m, [])
  else
    let resp := (object ev "response").getD []
    ({ m with started := true }, [messageStart (strOr resp "id") (strOr resp "model")])

def respTextDelta (ev : Obj) : Mapped :=
  let (m₁, index) := m.eventBlockIndex ev .text
  let m₂ := { m₁ with nonThinkSeen := true }
  if index ∈ m₂.blockStopped then (m₂, [])
  else
    let (m₃, start) := m₂.startBlock index textBlock
    (m₃, start ++
      [blockDelta index [("type", .str "text_delta"), ("text", .str (strOr ev "delta"))]])

def respDone (ev : Obj) (kind : Kind) : Mapped :=
  let (m', index) := { m with nonThinkSeen := true }.eventBlockIndex ev kind
  m'.stopBlock index

def respItemAdded (ev : Obj) : Mapped :=
  match object ev "item" with
  | none => (m, [])
  | some item =>
    let oi := intOr0 ev "output_index"
    let itemID := strOr item "id"
    match str item "type" with
    | some "reasoning" =>
      -- a thinking block after another kind is dropped as a whole
      if m.nonThinkSeen then (m, [])
      else
        let (m', index) := m.blockIndex (blockKeyOf itemID oi .thinking) oi .thinking
        if index ∈ m'.blockStarted then (m', [])
        else
          ({ m' with
              blockStarted := insert index m'.blockStarted
              thinkBlocks := m'.thinkBlocks.insert index { type := "thinking" } },
            [blockStart index thinkBlock])
    | some "message" =>
      -- the block itself is started by its first delta
      (({ m with nonThinkSeen := true }.ownBlockIndex (blockKeyOf itemID oi .text) oi .text).1, [])
    | some "function_call" =>
      let (m', index) :=
        { m with nonThinkSeen := true }.ownBlockIndex (blockKeyOf itemID oi .toolUse) oi .toolUse
      m'.startBlock index (toolBlock (toolCallID item) (strOr item "name"))
    | _ => (m, [])

def respReasoningDelta (ev : Obj) : Mapped :=
  let oi := intOr0 ev "output_index"
  let (m', found) := m.thinkBlockIndex (blockKeyOf (strOr ev "item_id") oi .thinking) oi
  match found with
  | none => (m', [])
  | some index =>
    if (m'.thinkBlocks.lookup index).isNone ∨ index ∈ m'.blockStopped then (m', [])
    else
      let (m'', start) := m'.startBlock index thinkBlock
      (m'', start ++
        [blockDelta index [("type", .str "thinking_delta"), ("thinking", .str (strOr ev "delta"))]])

variable (sealBytes : Envelope → String)

def signatureDelta (index : Int) (item : Obj) : List Frame :=
  let arm := sealReasoningRef sealBytes ⟨strOr item "encrypted_content", strOr item "id"⟩
  if strOr item "encrypted_content" = "" ∨ arm = "" then []
  else [blockDelta index [("type", .str "signature_delta"), ("signature", .str arm)]]

def respItemDone (ev : Obj) : Mapped :=
  match object ev "item" with
  | none => (m, [])
  | some item =>
    if str item "type" ≠ some "reasoning" then (m, [])
    else
      let (m', found) := m.doneThinkIndex (strOr item "id") (intOr0 ev "output_index")
      match found with
      | none => (m', [])
      | some index =>
        if (m'.thinkBlocks.lookup index).isNone ∨ index ∈ m'.blockStopped then (m', [])
        else
          -- an item that only says it is done still has to be started
          let (m'', start) := m'.startBlock index thinkBlock
          ({ m'' with blockStopped := insert index m''.blockStopped },
            start ++ signatureDelta sealBytes index item ++ [blockStop index])

def respArgumentsDelta (ev : Obj) : Mapped :=
  let (m', index) := { m with nonThinkSeen := true }.eventBlockIndex ev .toolUse
  if index ∈ m'.blockStopped then (m', [])
  else
    (m', [blockDelta index
      [("type", .str "input_json_delta"), ("partial_json", .str (strOr ev "delta"))]])

def respCompleted (ev : Obj) : Mapped :=
  if m.done then (m, [])
  else
    let (m', stops) := { m with done := true }.closeOpenBlocks
    (m', stops ++ [finalDelta ev, messageStop])

def respFailed (ev : Obj) : Mapped :=
  if m.done then (m, [])
  else
    let error := (object ((object ev "response").getD []) "error").getD []
    ({ m with done := true }, [errorFrame (strOr error "message")])

def mapRespToMess (name : String) (data : Data) : Mapped :=
  match decodeObj data with
  | none => (m, [])
  | some ev =>
    match RespEvent.ofName name with
    | .created => m.respCreated ev
    | .textDelta => m.respTextDelta ev
    | .textDone => m.respDone ev .text
    | .itemAdded => m.respItemAdded ev
    | .reasoningDelta => m.respReasoningDelta ev
    | .itemDone => m.respItemDone sealBytes ev
    | .argumentsDelta => m.respArgumentsDelta ev
    | .argumentsDone => m.respDone ev .toolUse
    | .completed => m.respCompleted ev
    | .failed => m.respFailed ev
    | .other => (m, [])

end StreamMapper

end C3Api.Protoconv
