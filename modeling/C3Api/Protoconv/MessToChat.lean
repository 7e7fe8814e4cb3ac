import C3Api.Protoconv.MessToResp

/-!
# From a Messages stream to a Chat stream

Every event that has a place in a chat stream is one chunk; the message's delta closes the
stream with its finish reason, its usage and the end marker.
-/

namespace C3Api.Protoconv

open Json Machine

def messStopToChat : List (String × String) :=
  [("tool_use", "tool_calls"), ("max_tokens", "length"),
    ("model_context_window_exceeded", "length"), ("refusal", "content_filter")]

def messStopToChatFinish (reason : String) : String :=
  (messStopToChat.lookup reason).getD "stop"

def chatPromptDetails (cr cc : Int) : Obj :=
  if 0 < cc then [("cached_tokens", .int cr), ("cache_write_tokens", .int cc)]
  else [("cached_tokens", .int cr)]

def chatUsage (prompt completion cached cacheCreate : Int) : Obj :=
  [("prompt_tokens", .int prompt), ("completion_tokens", .int completion),
    ("total_tokens", .int (add64 prompt completion))] ++
    if 0 < cached ∨ 0 < cacheCreate then
      [("prompt_tokens_details", .obj (chatPromptDetails cached cacheCreate))]
    else []

namespace StreamMapper

variable (m : StreamMapper)

def chatChunk (choices : List Json) (more : Obj) : Frame :=
  encodeFrame ""
    ([("id", .str m.id), ("object", .str "chat.completion.chunk"), ("created", .int m.created),
      ("model", .str m.model), ("choices", .arr choices)] ++ more)

def chatFrame (delta : Obj) (finish : Json) : Frame :=
  m.chatChunk [.obj [("index", .int 0), ("delta", .obj delta), ("finish_reason", finish)]] []

def chatUsageOnlyFrame (usage : Obj) : Frame := m.chatChunk [] [("usage", .obj usage)]

def chatStart (ev : Obj) : Mapped :=
  if m.started then (m, [])
  else
    let m' := m.takeStart ev
    (m', [m'.chatFrame [("role", .str "assistant"), ("content", .str "")] .null])

def chatToolStart (ev : Obj) : Mapped :=
  match object ev "content_block" with
  | none => (m, [])
  | some block =>
    if str block "type" ≠ some "tool_use" then (m, [])
    else
      (m, [m.chatFrame
        [("tool_calls", .arr [.obj
          [("index", .int (intOr0 ev "index")), ("id", .str (strOr block "id")),
            ("type", .str "function"),
            ("function", .obj [("name", .str (strOr block "name")), ("arguments", .str "")])]])]
        .null])

def chatDelta (ev : Obj) : Mapped :=
  match object ev "delta" with
  | none => (m, [])
  | some delta =>
    match str delta "type" with
    | some "thinking_delta" =>
      if strOr delta "thinking" = "" then (m, [])
      else (m, [m.chatFrame [("reasoning_content", .str (strOr delta "thinking"))] .null])
    | some "text_delta" => (m, [m.chatFrame [("content", .str (strOr delta "text"))] .null])
    | some "input_json_delta" =>
      (m, [m.chatFrame
        [("tool_calls", .arr [.obj
          [("index", .int (intOr0 ev "index")),
            ("function", .obj [("arguments", .str (strOr delta "partial_json"))])]])]
        .null])
    | _ => (m, [])

def chatFinish (ev : Obj) : Mapped :=
  if m.done then (m, [])
  else
    let reason :=
      match object ev "delta" with
      | none => "stop"
      | some d => messStopToChatFinish (strOr d "stop_reason")
    let m' := { m with done := true }.takeUsage ev
    (m', [m'.chatFrame [] (.str reason),
      m'.chatUsageOnlyFrame (chatUsage m'.messInputTotal m'.ot m'.cached m'.cacheCreate), doneFrame])

def chatError (ev : Obj) : Mapped :=
  match object ev "error" with
  | none => (m, [])
  | some e =>
    (m, [encodeFrame "" [("error", .obj [("message", .str (strOr e "message"))])]])

def mapMessToChat (name : String) (data : Data) : Mapped :=
  match decodeObj data with
  | none => (m, [])
  | some ev =>
    match MessEvent.ofName name with
    | .messageStart => m.chatStart ev
    | .blockStart => m.chatToolStart ev
    | .blockDelta => m.chatDelta ev
    | .messageDelta => m.chatFinish ev
    | .error => m.chatError ev
    | _ => (m, [])

end StreamMapper

end C3Api.Protoconv
