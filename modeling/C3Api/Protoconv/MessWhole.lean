import C3Api.Protoconv.MessToResp

/-!
# From a whole message to a response

Without a stream the blocks of a message are gathered by their kind: all thinking comes first,
the texts become the parts of one message, and the calls stand at the end.
-/

namespace C3Api.Protoconv

open Json Machine

-- The encoder of values, which is used on the input of a call.
variable (sealBytes : Envelope → String) (marshal : Json → String)

/-- A missing value is written as `null`. -/
def marshalAny (value : Option Json) : String := marshal (value.getD .null)

/-- The items of the blocks seen so far, by kind. -/
structure Gathered where
  thinks : List Json := []
  textParts : List Json := []
  fcs : List Json := []

namespace Gathered

/-- The item of a thinking block, unless it cannot be sealed. -/
def addThinking (g : Gathered) (msgID : String) (b : ThinkingBlock) : Gathered :=
  let enc := sealThinking sealBytes b
  if enc = "" then g
  else
    { g with
      thinks := g.thinks ++ [.obj
        [("type", .str "reasoning"),
          ("id", .str ("rs_" ++ msgID ++ "_" ++ toString g.thinks.length)),
          ("summary", reasoningSummary b.thinking), ("encrypted_content", .str enc)]] }

def addBlock (msgID : String) (g : Gathered) (block : Json) : Gathered :=
  match block with
  | .obj bm =>
    match str bm "type" with
    | some "thinking" =>
      g.addThinking sealBytes msgID
        { type := "thinking", thinking := strOr bm "thinking", signature := strOr bm "signature" }
    | some "redacted_thinking" =>
      g.addThinking sealBytes msgID { type := "redacted_thinking", data := strOr bm "data" }
    | some "text" =>
      match str bm "text" with
      | none => g
      | some text => { g with textParts := g.textParts ++ [outputText text] }
    | some "tool_use" =>
      { g with
        fcs := g.fcs ++ [.obj
          [("type", .str "function_call"), ("id", .str (strOr bm "id")),
            ("call_id", .str (strOr bm "id")), ("name", .str (strOr bm "name")),
            ("arguments", .str (marshalAny marshal (last bm "input"))),
            ("status", .str "completed")]] }
    | _ => g
  | _ => g

def output (msgID : String) (g : Gathered) : List Json :=
  g.thinks ++
    (if g.textParts = [] then []
    else
      [.obj [("id", .str msgID), ("type", .str "message"), ("status", .str "completed"),
        ("role", .str "assistant"), ("content", .arr g.textParts)]]) ++
    g.fcs

end Gathered

def messContentToRespOutput (msg : Obj) : List Json × Int × Int :=
  let content := (arr msg "content").getD []
  let g := content.foldl (Gathered.addBlock sealBytes marshal (strOr msg "id")) {}
  match object msg "usage" with
  | none => (g.output (strOr msg "id"), 0, 0)
  | some u =>
    (g.output (strOr msg "id"),
      respInputGross (intOr0 u "input_tokens") (intOr0 u "cache_read_input_tokens")
        (intOr0 u "cache_creation_input_tokens"),
      intOr0 u "output_tokens")

def messUsageToResp (msg : Obj) (it ot : Int) : Obj :=
  let u := (object msg "usage").getD []
  respUsage it ot (intOr0 u "cache_read_input_tokens") (intOr0 u "cache_creation_input_tokens")

/-- The response of a whole message; `none` is a body that is not an object. -/
def messToRespResponse (body : Data) : Option Obj :=
  (decodeObj body).map fun msg =>
    let converted := messContentToRespOutput sealBytes marshal msg
    let status := respStatusFromMessStop (strOr msg "stop_reason")
    withDetails
      [("id", .str (strOr msg "id")), ("object", .str "response"), ("created_at", .int 0),
        ("status", .str status.1), ("model", .str (strOr msg "model")),
        ("output", .arr converted.1),
        ("usage", .obj (messUsageToResp msg converted.2.1 converted.2.2))]
      status.2

end C3Api.Protoconv
