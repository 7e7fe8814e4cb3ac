import C3Api.Protoconv.MessWhole

/-!
# Messages and what a client reads of them

A message is a list of blocks with a stop reason and a usage. Its response is compared by what
a client reads of it, the ids of its items apart.
-/

namespace C3Api.Protoconv

open Json List Gathered

def partView (part : Json) : Option String × Option String :=
  let o := part.obj?.getD []
  (str o "type", str o "text")

/-- What a client reads of an output item, its id apart. -/
structure ItemView where
  type : Option String := none
  content : List (Option String × Option String) := []
  callID : Option String := none
  name : Option String := none
  arguments : Option String := none
  summary : List (Option String × Option String) := []
  encrypted : Option String := none

def itemView (item : Json) : ItemView :=
  let o := item.obj?.getD []
  { type := str o "type"
    content := ((arr o "content").getD []).map partView
    callID := str o "call_id"
    name := str o "name"
    arguments := str o "arguments"
    summary := ((arr o "summary").getD []).map partView
    encrypted := str o "encrypted_content" }

structure ResponseView where
  output : List ItemView
  status : Option String
  details : Option Json
  usage : Option Json

def responseView (response : Obj) : ResponseView :=
  { output := ((arr response "output").getD []).map itemView
    status := str response "status"
    details := last response "incomplete_details"
    usage := last response "usage" }

/-- Both conversions write their response in the same form. -/
theorem responseView_withDetails (id model : Json) (status : String) (output : List Json)
    (usage : Obj) (details : Option Obj) :
    responseView (withDetails
      [("id", id), ("object", .str "response"), ("created_at", .int 0), ("status", .str status),
        ("model", model), ("output", .arr output), ("usage", .obj usage)] details) =
      { output := output.map itemView, status := some status, details := details.map .obj
        usage := some (.obj usage) } := by
  cases details <;> rfl

inductive Block where
  | text (text : String)
  | toolUse (id name : String) (input : Json)
  | thinking (thinking signature : String)
  | redacted (data : String)

structure MessUsage where
  input : Int
  cacheRead : Int
  cacheCreation : Int
  output : Int

structure Message where
  blocks : List Block
  stopReason : String
  usage : MessUsage

namespace Block

def Reads (b : Block) (element : Json) : Prop :=
  ∃ o, element = .obj o ∧
    match b with
    | text t => str o "type" = some "text" ∧ str o "text" = some t
    | toolUse id name input =>
      str o "type" = some "tool_use" ∧ strOr o "id" = id ∧ strOr o "name" = name ∧
        last o "input" = some input
    | thinking t signature =>
      str o "type" = some "thinking" ∧ strOr o "thinking" = t ∧ strOr o "signature" = signature
    | redacted data => str o "type" = some "redacted_thinking" ∧ strOr o "data" = data

end Block

structure Message.Reads (M : Message) (msg : Obj) : Prop where
  content : ∃ items, arr msg "content" = some items ∧ List.Forall₂ Block.Reads M.blocks items
  stop : strOr msg "stop_reason" = M.stopReason
  usage : ∃ u, object msg "usage" = some u ∧ intOr0 u "input_tokens" = M.usage.input ∧
    intOr0 u "cache_read_input_tokens" = M.usage.cacheRead ∧
    intOr0 u "cache_creation_input_tokens" = M.usage.cacheCreation ∧
    intOr0 u "output_tokens" = M.usage.output

/-- What has come of a block. -/
inductive Draft where
  | text (text : String)
  | call (id name arguments : String)
  | thinking (block : ThinkingBlock)

namespace Draft

def isThinking : Draft → Bool
  | thinking .. => true
  | _ => false

def isCall : Draft → Bool
  | call .. => true
  | _ => false

/-- Two drafts of one block, the arguments of a call apart. -/
inductive Alike : Draft → Draft → Prop where
  | same (d : Draft) : Alike d d
  | call (id name given taken : String) : Alike (.call id name given) (.call id name taken)

end Draft

open Draft

namespace Block

def blank : Block → Draft
  | text _ => .text ""
  | toolUse id name _ => .call id name ""
  | thinking _ _ => .thinking { type := "thinking" }
  | redacted data => .thinking { type := "redacted_thinking", data := data }

/-- A block that has come as a whole, the input of a call as the encoder writes it. -/
def full (marshal : Json → String) : Block → Draft
  | text t => .text t
  | toolUse id name input => .call id name (marshal input)
  | thinking t signature =>
    .thinking { type := "thinking", thinking := t, signature := signature }
  | redacted data => .thinking { type := "redacted_thinking", data := data }

end Block

variable (sealBytes : Envelope → String) (marshal : Json → String)

def reasoningView (b : ThinkingBlock) : Option ItemView :=
  if sealThinking sealBytes b = "" then none
  else
    some
      { type := some "reasoning"
        summary := if b.thinking = "" then [] else [(some "summary_text", some b.thinking)]
        encrypted := some (sealThinking sealBytes b) }

/-- The item of a block as far as it has come. -/
def Draft.view : Draft → Option ItemView
  | .text t => some { type := some "message", content := [(some "output_text", some t)] }
  | .call id name arguments =>
    some { type := some "function_call", callID := some id, name := some name
           arguments := some arguments }
  | .thinking b => reasoningView sealBytes b

/-- Thinking first, then at most one text, then the calls and thinking that is not shown. -/
def Arranged : List Draft → Prop
  | [] => True
  | .thinking _ :: ds => Arranged ds
  | _ :: ds => ∀ d ∈ ds, d.isCall = true ∨ d.view sealBytes = none

def views (ds : List Draft) : List ItemView := ds.filterMap (view sealBytes)

@[simp] theorem views_cons (d : Draft) (ds : List Draft) :
    views sealBytes (d :: ds) = (d.view sealBytes).toList ++ views sealBytes ds := by
  cases view : d.view sealBytes <;> simp [views, view]

def textViews (ds : List Draft) : List (Option String × Option String) :=
  ds.filterMap fun d =>
    match d with
    | .text t => some (some "output_text", some t)
    | _ => none

/-- The items in the order of the blocks, without the thinking after a block of another kind. -/
def streamViews : Bool → List Draft → List ItemView
  | _, [] => []
  | seen, d :: ds =>
    if seen && d.isThinking then streamViews seen ds
    else (d.view sealBytes).toList ++ streamViews (seen || !d.isThinking) ds

/-- The items gathered by their kind, the texts in one message. -/
def wholeViews (ds : List Draft) : List ItemView :=
  views sealBytes (ds.filter isThinking) ++
    (if textViews ds = [] then [] else [{ type := some "message", content := textViews ds }]) ++
    views sealBytes (ds.filter isCall)

/-- What has been gathered since of these blocks, as a client reads it. -/
def Gathered.Adds (ds : List Draft) (g g' : Gathered) : Prop :=
  g'.thinks.map itemView = g.thinks.map itemView ++ views sealBytes (ds.filter isThinking) ∧
    g'.textParts.map partView = g.textParts.map partView ++ textViews ds ∧
    g'.fcs.map itemView = g.fcs.map itemView ++ views sealBytes (ds.filter isCall)

variable {bs : List Block} (msgID : String) (g : Gathered)

theorem addThinking_views (b : ThinkingBlock) :
    (g.addThinking sealBytes msgID b).thinks.map itemView =
        g.thinks.map itemView ++ views sealBytes [.thinking b] ∧
      (g.addThinking sealBytes msgID b).textParts = g.textParts ∧
      (g.addThinking sealBytes msgID b).fcs = g.fcs := by
  rw [views_cons, view]
  unfold addThinking reasoningView
  by_cases lost : sealThinking sealBytes b = ""
  · simp [lost, views]
  refine ⟨?_, ?_, ?_⟩
  · simp only [lost, if_false, map_append, Option.toList_some]
    unfold reasoningSummary
    split <;> rfl
  · simp [lost]
  · simp [lost]

variable {sealBytes marshal}

theorem addBlock_views {b : Block} {element : Json} (reads : b.Reads element) :
    g.Adds sealBytes [b.full marshal] (g.addBlock sealBytes marshal msgID element) := by
  obtain ⟨o, rfl, what⟩ := reads
  unfold Gathered.Adds
  cases b with
  | text t =>
    obtain ⟨kind, text⟩ := what
    simp only [addBlock, kind, text, map_append]
    exact ⟨(append_nil _).symm, rfl, (append_nil _).symm⟩
  | toolUse id name input =>
    obtain ⟨kind, rfl, rfl, given⟩ := what
    simp only [addBlock, kind, given, map_append]
    exact ⟨(append_nil _).symm, (append_nil _).symm, rfl⟩
  | thinking t signature =>
    obtain ⟨kind, rfl, rfl⟩ := what
    simp only [addBlock, kind]
    obtain ⟨thinks, texts, calls⟩ := addThinking_views sealBytes msgID g
      { type := "thinking", thinking := strOr o "thinking", signature := strOr o "signature" }
    rw [thinks, texts, calls]
    exact ⟨rfl, (append_nil _).symm, (append_nil _).symm⟩
  | redacted data =>
    obtain ⟨kind, rfl⟩ := what
    simp only [addBlock, kind]
    obtain ⟨thinks, texts, calls⟩ := addThinking_views sealBytes msgID g
      { type := "redacted_thinking", data := strOr o "data" }
    rw [thinks, texts, calls]
    exact ⟨rfl, (append_nil _).symm, (append_nil _).symm⟩

theorem foldl_addBlock_views {items : List Json} (reads : List.Forall₂ Block.Reads bs items)
    (g : Gathered) : g.Adds sealBytes (bs.map (Block.full marshal))
      (items.foldl (addBlock sealBytes marshal msgID) g) := by
  induction reads generalizing g with
  | nil => exact ⟨(append_nil _).symm, (append_nil _).symm, (append_nil _).symm⟩
  | @cons b item bs items first _ ih =>
    obtain ⟨thinks, texts, calls⟩ := addBlock_views msgID g first
    obtain ⟨thinks', texts', calls'⟩ := ih _
    rw [foldl_cons, map_cons, ← singleton_append]
    refine ⟨?_, ?_, ?_⟩
    · rw [thinks', thinks, append_assoc, filter_append, views, views, views, filterMap_append]
    · rw [texts', texts, append_assoc, textViews, textViews, textViews, filterMap_append]
    · rw [calls', calls, append_assoc, filter_append, views, views, views, filterMap_append]

theorem gathered_views {items : List Json} (reads : List.Forall₂ Block.Reads bs items) :
    ((items.foldl (addBlock sealBytes marshal msgID) {}).output msgID).map itemView =
      wholeViews sealBytes (bs.map (Block.full marshal)) := by
  obtain ⟨thinks, texts, calls⟩ : _ ∧ _ ∧ _ :=
    @foldl_addBlock_views sealBytes marshal bs msgID items reads {}
  rw [map_nil, nil_append] at thinks texts calls
  rw [output, map_append, map_append, thinks, calls, wholeViews, ← texts]
  simp only [map_eq_nil_iff]
  split <;> rfl

/-- What a response to a message with this output shows. -/
def Message.view (M : Message) (output : List ItemView) : ResponseView where
  output
  status := some (respStatusFromMessStop M.stopReason).1
  details := (respStatusFromMessStop M.stopReason).2.map .obj
  usage := some (.obj (respUsage
    (respInputGross M.usage.input M.usage.cacheRead M.usage.cacheCreation)
    M.usage.output M.usage.cacheRead M.usage.cacheCreation))

theorem messToRespResponse_view {M : Message} {msg : Obj} {body : Data}
    (holds : decodeObj body = some msg) (reads : M.Reads msg) :
    (messToRespResponse sealBytes marshal body).map responseView =
      some (M.view (wholeViews sealBytes (M.blocks.map (Block.full marshal)))) := by
  obtain ⟨items, content, blocks⟩ := reads.content
  obtain ⟨u, usage, input, read, create, output⟩ := reads.usage
  simp [messToRespResponse, holds, responseView_withDetails, messContentToRespOutput,
    messUsageToResp, content, usage, reads.stop, input, read, create, output,
    gathered_views _ blocks, Message.view]

/-! ## Where the two outputs agree -/

section

variable {d e : Draft} {ds es : List Draft}

theorem Draft.Alike.isThinking_eq (alike : d.Alike e) : d.isThinking = e.isThinking := by
  cases alike <;> rfl

theorem reasoning_iff {v : ItemView} (view : d.view sealBytes = some v) :
    v.type = some "reasoning" ↔ d.isThinking = true := by
  cases d with
  | text | call =>
    cases view
    simp [Draft.isThinking]
  | thinking b =>
    simp only [Draft.view, reasoningView] at view
    split at view
    · cases view
    · cases view
      simp [Draft.isThinking]

theorem streamViews_true :
    streamViews sealBytes true ds = views sealBytes (ds.filter fun d => !d.isThinking) := by
  induction ds with
  | nil => rfl
  | cons d ds ih => cases thinking : d.isThinking <;> simp [streamViews, thinking, ih]

/-- Nothing is left out of a stream that has no thinking to show. -/
theorem streamViews_spoken (spoken : d.isThinking = false) : streamViews sealBytes false (d :: ds) =
    views sealBytes ((d :: ds).filter fun d => !d.isThinking) := by
  simp [streamViews, spoken, streamViews_true]

theorem textViews_text (t : String) (ds : List Draft) :
    textViews (.text t :: ds) = (some "output_text", some t) :: textViews ds := rfl

theorem filter_text (t : String) (ds : List Draft) :
    (text t :: ds).filter (fun d => !d.isThinking) =
        .text t :: ds.filter (fun d => !d.isThinking) ∧
      (text t :: ds).filter isCall = ds.filter isCall := ⟨rfl, rfl⟩

theorem calls_iff : (∀ e ∈ es, e.isCall = true ∨ e.view sealBytes = none) ↔
    (∀ e ∈ es, e.isThinking = true → e.view sealBytes = none) ∧ textViews es = [] := by
  rw [textViews, filterMap_eq_nil_iff, ← forall₂_and]
  refine forall₂_congr fun e _ => ?_
  cases e <;> simp [isCall, isThinking, view]

theorem wholeViews_silent (silent : ∀ e ∈ es, e.isThinking = true → e.view sealBytes = none) :
    wholeViews sealBytes es =
      (if textViews es = [] then [] else [{ type := some "message", content := textViews es }]) ++
        views sealBytes (es.filter isCall) := by
  have hidden : views sealBytes (es.filter isThinking) = [] :=
    filterMap_eq_nil_iff.mpr fun e member =>
      silent e (mem_filter.mp member).1 (mem_filter.mp member).2
  rw [wholeViews, hidden]
  rfl

/-- Calls show their arguments. -/
theorem views_calls (alike : List.Forall₂ Draft.Alike ds es)
    (calls : ∀ e ∈ es, e.isCall = true ∨ e.view sealBytes = none) :
    views sealBytes (ds.filter fun d => !d.isThinking) = views sealBytes (es.filter isCall) ↔
      ds = es := by
  induction alike with
  | nil => simp
  | @cons d e ds es first _ ih =>
    obtain ⟨call, others⟩ := forall_mem_cons.mp calls
    cases first with
    | call id name given taken =>
      rw [filter_cons_of_pos rfl, filter_cons_of_pos rfl]
      simp [view, ih others]
    | same =>
      cases d with
      | text t => simp [isCall, view] at call
      | call =>
        rw [filter_cons_of_pos rfl, filter_cons_of_pos rfl]
        simp [ih others]
      | thinking =>
        rw [filter_cons_of_neg Bool.false_ne_true, filter_cons_of_neg Bool.false_ne_true]
        simp [ih others]

/-- Once another kind than thinking has come, the stream shows what is gathered exactly when all
that follows and is shown are calls. -/
theorem views_spoken (first : d.Alike e) (spoken : e.isThinking = false)
    (alike : List.Forall₂ Draft.Alike ds es) :
    streamViews sealBytes false (d :: ds) = wholeViews sealBytes (e :: es) ↔
      (∀ e ∈ es, e.isCall = true ∨ e.view sealBytes = none) ∧ d :: ds = e :: es := by
  have both : List.Forall₂ Draft.Alike (d :: ds) (e :: es) := .cons first alike
  have quiet : e.isThinking = true → e.view sealBytes = none := fun thinks => by simp [spoken] at thinks
  rw [streamViews_spoken (first.isThinking_eq.trans spoken)]
  constructor
  · intro same
    have silent : ∀ x ∈ e :: es, x.isThinking = true → x.view sealBytes = none := by
      intro x member thinks
      rw [Option.eq_none_iff_forall_ne_some]
      intro v view
      have gathered : v ∈ wholeViews sealBytes (e :: es) :=
        mem_append_left _ (mem_append_left _
          (mem_filterMap.mpr ⟨x, mem_filter.mpr ⟨member, thinks⟩, view⟩))
      rw [← same] at gathered
      obtain ⟨y, listed, own⟩ := mem_filterMap.mp gathered
      have silent := (mem_filter.mp listed).2
      rw [(reasoning_iff own).mp ((reasoning_iff view).mpr thinks)] at silent
      cases silent
    rw [wholeViews_silent silent] at same
    cases e with
    | thinking b => cases spoken
    | text t =>
      cases first
      simp only [textViews_text, cons_ne_nil, if_false, filter_text, views_cons, view,
        Option.toList_some, singleton_append, cons.injEq, ItemView.mk.injEq, true_and, and_true] at same
      obtain ⟨textless, rest⟩ := same
      have calls := calls_iff.mpr ⟨(forall_mem_cons.mp silent).2, textless.symm⟩
      exact ⟨calls, by rw [(views_calls alike calls).mp rest]⟩
    | call id name taken =>
      by_cases textless : textViews (.call id name taken :: es) = []
      · have calls := calls_iff.mpr ⟨silent, textless⟩
        rw [if_pos textless, nil_append] at same
        exact ⟨(forall_mem_cons.mp calls).2, (views_calls both calls).mp same⟩
      · rw [if_neg textless] at same
        cases first <;> simp [view, isThinking] at same
  · rintro ⟨calls, equal⟩
    cases equal
    obtain ⟨silent, textless⟩ := calls_iff.mp calls
    rw [wholeViews_silent (forall_mem_cons.mpr ⟨quiet, silent⟩)]
    cases d with
    | thinking b => cases spoken
    | text t =>
      simp only [textViews_text, cons_ne_nil, if_false, filter_text, views_cons, view,
        textless, (views_calls alike calls).mpr rfl]
      rfl
    | call id name given =>
      have all : ∀ e ∈ call id name given :: ds,
          e.isCall = true ∨ e.view sealBytes = none := forall_mem_cons.mpr ⟨.inl rfl, calls⟩
      rw [if_pos (calls_iff.mp all).2, (views_calls both all).mpr rfl]
      rfl

theorem views_agree (alike : List.Forall₂ Draft.Alike ds es) :
    streamViews sealBytes false ds = wholeViews sealBytes es ↔ Arranged sealBytes es ∧ ds = es := by
  induction alike with
  | nil => simp [streamViews, wholeViews, views, textViews, Arranged]
  | @cons d e ds es first alike ih =>
    cases e with
    | text | call => exact views_spoken first rfl alike
    | thinking b =>
      cases first
      have stream : streamViews sealBytes false (.thinking b :: ds) =
          (reasoningView sealBytes b).toList ++ streamViews sealBytes false ds := rfl
      have whole : wholeViews sealBytes (.thinking b :: es) =
          (reasoningView sealBytes b).toList ++ wholeViews sealBytes es := by
        change views sealBytes (.thinking b :: es.filter isThinking) ++ _ ++ _ = _
        rw [views_cons, append_assoc, append_assoc]
        exact congrArg _ (append_assoc _ _ _).symm
      rw [stream, whole, append_right_inj, ih, cons_inj_right]
      rfl

end

end C3Api.Protoconv
