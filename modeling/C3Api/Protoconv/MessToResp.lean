import C3Api.Machine.Int64
import C3Api.Protoconv.Mapper

/-!
# From a Messages stream to a Responses stream

The mapper passes the deltas on and gathers the blocks, in the order in which they were
started, into the response that its last event carries.
-/

namespace C3Api.Protoconv

open Json Machine

inductive MessEvent where
  | messageStart
  | blockStart
  | blockDelta
  | blockStop
  | messageDelta
  | messageStop
  | error
  | other
deriving DecidableEq

def MessEvent.ofName : String → MessEvent
  | "message_start" => messageStart
  | "content_block_start" => blockStart
  | "content_block_delta" => blockDelta
  | "content_block_stop" => blockStop
  | "message_delta" => messageDelta
  | "message_stop" => messageStop
  | "error" => error
  | _ => other

/-- The input tokens with the cached ones, as the Responses protocol counts them. -/
def respInputGross (net cacheRead cacheWrite : Int) : Int := add64 (add64 net cacheRead) cacheWrite

/-- Cache writes are only named where there are any. -/
def respInputDetails (cached write : Int) : Obj :=
  if 0 < write then [("cached_tokens", .int cached), ("cache_write_tokens", .int write)]
  else [("cached_tokens", .int cached)]

def respUsage (input output cached write : Int) : Obj :=
  [("input_tokens", .int input), ("output_tokens", .int output),
    ("total_tokens", .int (add64 input output)),
    ("input_tokens_details", .obj (respInputDetails cached write))]

def respStatusFromMessStop (reason : String) : String × Option Obj :=
  if reason = "max_tokens" ∨ reason = "model_context_window_exceeded" then
    ("incomplete", some [("reason", .str "max_output_tokens")])
  else if reason = "refusal" then ("incomplete", some [("reason", .str "content_filter")])
  else ("completed", none)

def withDetails (response : Obj) : Option Obj → Obj
  | none => response
  | some details => response ++ [("incomplete_details", .obj details)]

def outputText (text : String) : Json :=
  .obj [("type", .str "output_text"), ("text", .str text), ("annotations", .arr [])]

def reasoningSummary (text : String) : Json :=
  if text = "" then .arr []
  else .arr [.obj [("type", .str "summary_text"), ("text", .str text)]]

namespace StreamMapper

variable (m : StreamMapper)

def setMessUsage (u : Obj) : StreamMapper :=
  { m with
    it := intOr0 u "input_tokens"
    cached := intOr0 u "cache_read_input_tokens"
    cacheCreate := intOr0 u "cache_creation_input_tokens" }

def mergeMessUsage (u : Obj) : StreamMapper :=
  { m with
    it := if (last u "input_tokens").isSome then intOr0 u "input_tokens" else m.it
    cached :=
      if (last u "cache_read_input_tokens").isSome then intOr0 u "cache_read_input_tokens"
      else m.cached
    cacheCreate :=
      if (last u "cache_creation_input_tokens").isSome then intOr0 u "cache_creation_input_tokens"
      else m.cacheCreate }

def takeUsage (ev : Obj) : StreamMapper :=
  match object ev "usage" with
  | none => m
  | some u => { m with ot := intOr0 u "output_tokens" }.mergeMessUsage u

def messInputTotal : Int := respInputGross m.it m.cached m.cacheCreate

def itemID (index : Int) : String := "msg_" ++ m.id ++ "_" ++ toString index

def thinkID (index : Int) : String := "rs_" ++ m.id ++ "_" ++ toString index

def takeStart (ev : Obj) : StreamMapper :=
  match object ev "message" with
  | none => { m with started := true }
  | some msg =>
    let m' := { m with started := true, id := strOr msg "id", model := strOr msg "model" }
    match object msg "usage" with
    | none => m'
    | some u => m'.setMessUsage u

def messStart (ev : Obj) : Mapped :=
  if m.started then (m, [])
  else
    let m' := m.takeStart ev
    (m', [encodeFrame "response.created"
      [("type", .str "response.created"),
        ("response", .obj
          [("id", .str m'.id), ("object", .str "response"), ("created_at", .int 0),
            ("status", .str "in_progress"), ("model", .str m'.model), ("output", .arr []),
            ("usage", .null)])]])

def itemAdded (index : Int) (item : Obj) : Frame :=
  encodeFrame "response.output_item.added"
    [("type", .str "response.output_item.added"), ("output_index", .int index),
      ("item", .obj item)]

def itemDone (index : Int) (item : Obj) : Frame :=
  encodeFrame "response.output_item.done"
    [("type", .str "response.output_item.done"), ("output_index", .int index),
      ("item", .obj item)]

def reasoningAdded (index : Int) : Frame :=
  itemAdded index
    [("id", .str (m.thinkID index)), ("type", .str "reasoning"), ("status", .str "in_progress"),
      ("summary", .arr [])]

def noteBlock (index : Int) : StreamMapper :=
  { m with
    blockStarted := insert index m.blockStarted
    blockOrder := m.blockOrder ++ [index] }

section

variable (sealBytes : Envelope → String)

def reasoningItem (index : Int) (b : ThinkingBlock) : Option Obj :=
  let enc := sealThinking sealBytes b
  if enc = "" then none
  else
    some [("id", .str (m.thinkID index)), ("type", .str "reasoning"), ("status", .str "completed"),
      ("summary", reasoningSummary b.thinking), ("encrypted_content", .str enc)]

def messOutputItem (index : Int) : Option Obj :=
  match m.thinkBlocks.lookup index with
  | some b => m.reasoningItem sealBytes index b
  | none =>
    match m.fcNames.lookup index with
    | some name =>
      let id := (m.fcIDs.lookup index).getD ""
      some [("id", .str ("fc_" ++ id)), ("type", .str "function_call"), ("call_id", .str id),
        ("name", .str name), ("arguments", .str ((m.argsByIndex.lookup index).getD "")),
        ("status", .str "completed")]
    | none =>
      some [("id", .str (m.itemID index)), ("type", .str "message"), ("status", .str "completed"),
        ("role", .str "assistant"),
        ("content", .arr [outputText ((m.textByIndex.lookup index).getD "")])]

def messOutputItems : List Json :=
  m.blockOrder.filterMap fun index => (m.messOutputItem sealBytes index).map Json.obj

variable (index : Int)

/-- Thinking comes before all other blocks or not at all. -/
def thinkingStart : Mapped :=
  if m.nonThinkSeen ∨ index ∈ m.blockStarted then (m, [])
  else
    let m' := m.noteBlock index
    ({ m' with thinkBlocks := m'.thinkBlocks.insert index { type := "thinking" } },
      [m.reasoningAdded index])

def redactedStart (block : Obj) : Mapped :=
  if m.nonThinkSeen ∨ index ∈ m.blockStarted then (m, [])
  else
    let blk : ThinkingBlock := { type := "redacted_thinking", data := strOr block "data" }
    match m.reasoningItem sealBytes index blk with
    | none => (m, [])
    | some item =>
      let m' := m.noteBlock index
      ({ m' with
          blockStopped := insert index m'.blockStopped
          thinkBlocks := m'.thinkBlocks.insert index blk },
        [m.reasoningAdded index, itemDone index item])

def textStart : Mapped :=
  if index ∈ m.blockStarted then (m, [])
  else
    ({ m.noteBlock index with nonThinkSeen := true },
      [itemAdded index
        [("id", .str (m.itemID index)), ("type", .str "message"), ("status", .str "in_progress"),
          ("role", .str "assistant"), ("content", .arr [outputText ""])]])

def toolStart (block : Obj) : Mapped :=
  if index ∈ m.blockStarted then (m, [])
  else
    let id := strOr block "id"
    let name := strOr block "name"
    ({ m.noteBlock index with
        nonThinkSeen := true
        fcIDs := m.fcIDs.insert index id
        fcNames := m.fcNames.insert index name },
      [itemAdded index
        [("id", .str ("fc_" ++ id)), ("type", .str "function_call"), ("call_id", .str id),
          ("name", .str name), ("arguments", .str ""), ("status", .str "in_progress")]])

def messBlockStart (ev : Obj) : Mapped :=
  match object ev "content_block" with
  | none => (m, [])
  | some block =>
    match str block "type" with
    | some "thinking" => m.thinkingStart (intOr0 ev "index")
    | some "redacted_thinking" => m.redactedStart sealBytes (intOr0 ev "index") block
    | some "text" => m.textStart (intOr0 ev "index")
    | some "tool_use" => m.toolStart (intOr0 ev "index") block
    | _ => (m, [])

def thinkingDelta (delta : Obj) : Mapped :=
  match m.thinkBlocks.lookup index with
  | none => (m, [])
  | some b =>
    if index ∈ m.blockStopped then (m, [])
    else
      let t := strOr delta "thinking"
      ({ m with thinkBlocks := m.thinkBlocks.insert index { b with thinking := b.thinking ++ t } },
        [encodeFrame "response.reasoning_summary_text.delta"
          [("type", .str "response.reasoning_summary_text.delta"),
            ("item_id", .str (m.thinkID index)), ("output_index", .int index),
            ("summary_index", .int 0), ("delta", .str t)]])

/-- A signature has no event of its own; it waits for the end of its block. -/
def messSignatureDelta (delta : Obj) : Mapped :=
  match m.thinkBlocks.lookup index with
  | none => (m, [])
  | some b =>
    if index ∈ m.blockStopped then (m, [])
    else
      let b' := { b with signature := b.signature ++ strOr delta "signature" }
      ({ m with thinkBlocks := m.thinkBlocks.insert index b' }, [])

def textDelta (delta : Obj) : Mapped :=
  let m' := { m with nonThinkSeen := true }
  if index ∈ m.blockStopped then (m', [])
  else
    let text := strOr delta "text"
    ({ m' with
        textByIndex := m.textByIndex.insert index ((m.textByIndex.lookup index).getD "" ++ text) },
      [encodeFrame "response.output_text.delta"
        [("type", .str "response.output_text.delta"), ("item_id", .str (m.itemID index)),
          ("output_index", .int index), ("content_index", .int 0), ("delta", .str text)]])

def argumentsDelta (delta : Obj) : Mapped :=
  let m' := { m with nonThinkSeen := true }
  if index ∈ m.blockStopped then (m', [])
  else
    let part := strOr delta "partial_json"
    ({ m' with
        argsByIndex := m.argsByIndex.insert index ((m.argsByIndex.lookup index).getD "" ++ part) },
      [encodeFrame "response.function_call_arguments.delta"
        [("type", .str "response.function_call_arguments.delta"),
          ("item_id", .str ("fc_" ++ (m.fcIDs.lookup index).getD "")),
          ("output_index", .int index), ("delta", .str part)]])

def messBlockDelta (ev : Obj) : Mapped :=
  match object ev "delta" with
  | none => (m, [])
  | some delta =>
    match str delta "type" with
    | some "thinking_delta" => m.thinkingDelta (intOr0 ev "index") delta
    | some "signature_delta" => m.messSignatureDelta (intOr0 ev "index") delta
    | some "text_delta" => m.textDelta (intOr0 ev "index") delta
    | some "input_json_delta" => m.argumentsDelta (intOr0 ev "index") delta
    | _ => (m, [])

def messBlockStop (ev : Obj) : Mapped :=
  let index := intOr0 ev "index"
  if index ∈ m.blockStopped then (m, [])
  else
    match m.thinkBlocks.lookup index with
    | none =>
      -- a client needs no frame for it; late deltas are dropped from now on
      if index ∈ m.blockStarted then ({ m with blockStopped := insert index m.blockStopped }, [])
      else (m, [])
    | some b =>
      ({ m with blockStopped := insert index m.blockStopped },
        match m.reasoningItem sealBytes index b with
        | none => []
        | some item => [itemDone index item])

end

def messDelta (ev : Obj) : Mapped :=
  match object ev "delta" with
  | none => (m.takeUsage ev, [])
  | some d => ({ m.takeUsage ev with reason := strOr d "stop_reason" }, [])

variable (sealBytes : Envelope → String)

def finalResponse : Obj :=
  let status := respStatusFromMessStop m.reason
  withDetails
    [("id", .str m.id), ("object", .str "response"), ("created_at", .int 0),
      ("status", .str status.1), ("model", .str m.model),
      ("output", .arr (m.messOutputItems sealBytes)),
      ("usage", .obj (respUsage m.messInputTotal m.ot m.cached m.cacheCreate))]
    status.2

def responseCompleted (response : Obj) : Frame :=
  encodeFrame "response.completed"
    [("type", .str "response.completed"), ("response", .obj response)]

def messStop : Mapped :=
  if m.done then (m, [])
  else
    let m' := { m with done := true }
    (m', [responseCompleted (m'.finalResponse sealBytes)])

def messError (ev : Obj) : Mapped :=
  match object ev "error" with
  | none => (m, [])
  | some e =>
    (m, [encodeFrame "error" [("code", .str (strOr e "type")), ("message", .str (strOr e "message"))]])

def mapMessToResp (name : String) (data : Data) : Mapped :=
  match decodeObj data with
  | none => (m, [])
  | some ev =>
    match MessEvent.ofName name with
    | .messageStart => m.messStart ev
    | .blockStart => m.messBlockStart sealBytes ev
    | .blockDelta => m.messBlockDelta ev
    | .blockStop => m.messBlockStop sealBytes ev
    | .messageDelta => m.messDelta ev
    | .messageStop => m.messStop sealBytes
    | .error => m.messError ev
    | .other => (m, [])

end StreamMapper

end C3Api.Protoconv
