import C3Api.Protoconv.ChatToMess

/-!
# Answers and calls

Every answer of a converted request should name a call of the same request. The converter drops
the answers to calls nobody declared, but it counts more calls as declared than
it writes.
-/

namespace C3Api.Protoconv

open JsonText List Option JsonText.Tree

/-- The content blocks of messages, as a reader of the request sees them. -/
def blocksOf (messages : List Tree) : List Tree :=
  messages.flatMap fun m => ((m.getLast "content").bind arr?).getD []

def memberString (t : Tree) (key : String) : Option Bytes :=
  ((t.getLast key).bind str?).map decode

def IsToolUse (b : Tree) : Prop := memberString b "type" = some (bytes "tool_use")

def IsToolResult (b : Tree) : Prop := memberString b "type" = some (bytes "tool_result")

def Answered (messages : List Tree) : Prop :=
  ∀ b ∈ blocksOf messages, IsToolResult b →
    ∃ id, memberString b "tool_use_id" = some id ∧
      ∃ c ∈ blocksOf messages, IsToolUse c ∧ memberString c "id" = some id

def chatMessages (root : Tree) : List Tree := ((root.getLast "messages").bind arr?).getD []

def toolCalls (mv : Tree) : List Tree :=
  if isStr (mv.get "role") "assistant" then ((mv.get "tool_calls").bind arr?).getD []
  else []

def callID (tc : Tree) : Bytes := decode (strLit (tc.get "id"))

def isFunctionCall (tc : Tree) : Bool := tc.isObject && (tc.get "function").any isObject

/-- A message of a tool that has a text. -/
def answers (mv : Tree) : Bool :=
  mv.isObject && decide (roleOf (mv.get "role") = .tool) &&
    (contentTextRaw (mv.get "content")).isSome

/-- Where a call is answered, a function call has its id. -/
def functionsAnswered (msgs : List Tree) : Bool :=
  msgs.all fun mv => !answers mv ||
    (msgs.flatMap toolCalls).all fun tc => callID tc ≠ decode (answeredID mv) ||
      (msgs.flatMap toolCalls).any fun fc => isFunctionCall fc && callID fc = decode (answeredID mv)

section

/-- Whether a constant key is read under a name. -/
def sameKey (s key : String) : Bool := decode (plainContent s) = bytes key

variable (members : List (String × Document))

theorem values_ofList :
    (Members.ofList members).values = members.map fun m => (plainContent m.1, m.2.root) := by
  induction members with
  | nil => rfl
  | cons m rest ih =>
    rw [Members.ofList, Members.values, ih, map_cons]

theorem getLast_object (key : String) :
    (JsonText.object members).getLast key =
      (members.reverse.find? fun m => sameKey m.1 key).map fun m => m.2.root := by
  rw [Tree.getLast, JsonText.object, Tree.members, values_ofList, ← map_reverse,
    List.find?_map, Option.map_map]
  rfl

theorem sameKey_reads :
    sameKey "type" "type" = true ∧ sameKey "id" "id" = true ∧ sameKey "type" "id" = false ∧
      sameKey "name" "id" = false ∧ sameKey "input" "id" = false ∧
      sameKey "tool_use_id" "tool_use_id" = true ∧ sameKey "type" "tool_use_id" = false ∧
      sameKey "content" "content" = true ∧ sameKey "role" "content" = false := by
  decide +kernel

theorem memberString_type (type : String) :
    memberString (JsonText.object (members ++ [("type", (string type : Document))])) "type" =
      some (decode (plainContent type)) := by
  rw [memberString, getLast_object, reverse_append]
  simp [sameKey_reads.1, string, str?]

theorem types_read :
    decode (plainContent "tool_use") = bytes "tool_use" ∧
      decode (plainContent "tool_result") = bytes "tool_result" ∧
      (decode (plainContent "text") ≠ bytes "tool_result" ∧
        decode (plainContent "text") ≠ bytes "tool_use") ∧
      (decode (plainContent "image") ≠ bytes "tool_result" ∧
        decode (plainContent "image") ≠ bytes "tool_use") ∧
      bytes "tool_use" ≠ bytes "tool_result" := by
  decide +kernel

/-- A block that is neither a call nor an answer. -/
def Plain (b : Tree) : Prop := ¬ IsToolResult b ∧ ¬ IsToolUse b

theorem plain_of_type {type : String} (other : decode (plainContent type) ≠ bytes "tool_result" ∧
      decode (plainContent type) ≠ bytes "tool_use") :
    Plain (JsonText.object (members ++ [("type", (string type : Document))])) := by
  unfold Plain IsToolResult IsToolUse
  rw [memberString_type]
  exact ⟨fun result => other.1 (some.inj result), fun use => other.2 (some.inj use)⟩

theorem blocks_messageTree (blocks : List Tree) (role : String) :
    ((messageTree blocks role).getLast "content").bind arr? = some blocks := by
  rw [messageTree, getLast_object]
  simp [sameKey_reads]

end

theorem appendImageSource_plain {url : Content} {b : Tree}
    (written : appendImageSource url = some b) : Plain b := by
  unfold appendImageSource at written
  simp only at written
  split at written
  · cases written
    exact plain_of_type [("source", _)] types_read.2.2.2.1
  split at written
  · split at written
    · cases written
      exact plain_of_type [("source", _)] types_read.2.2.2.1
    · cases written
  · cases written

theorem textBlockTree_plain (text : Content) : Plain (textBlockTree text) :=
  plain_of_type [("text", _)] types_read.2.2.1

theorem partBlock_plain {r : Role} {p b : Tree} (written : partBlock r p = some b) : Plain b := by
  unfold partBlock at written
  split at written
  · split at written
    case h_1 | h_2 | h_3 =>
      obtain ⟨text, -, rfl⟩ := map_eq_some_iff.mp written
      exact textBlockTree_plain text
    case h_4 | h_5 =>
      obtain ⟨url, -, written⟩ := bind_eq_some_iff.mp written
      exact appendImageSource_plain written
    · cases written
  · cases written

theorem parts_plain {content : Option Tree} {r : Role} {b : Tree}
    (member : b ∈ appendChatPartsMess content r) : Plain b := by
  obtain ⟨p, -, written⟩ := mem_filterMap.mp member
  exact partBlock_plain written

/-- A call is written if it is a function call, under its own id. -/
theorem toolUseBlock_eq {tc b : Tree} (written : toolUseBlock tc = some b) :
    isFunctionCall tc = true ∧ IsToolUse b ∧ memberString b "id" = some (callID tc) := by
  unfold toolUseBlock at written
  split at written
  next isObject =>
    split at written
    · cases written
    next fn function =>
      split at written
      next whole =>
        cases written
        refine ⟨by simp [isFunctionCall, isObject, function, whole], ?_, ?_⟩
        · exact (memberString_type [_, _, _] "tool_use").trans (congrArg some types_read.1)
        · rw [memberString, getLast_object]
          simp [sameKey_reads, str?, callID]
      · cases written
  · cases written

theorem toolUseBlock_isSome {tc : Tree} (function : isFunctionCall tc = true) :
    ∃ b, toolUseBlock tc = some b := by
  obtain ⟨isObject, function⟩ := Bool.and_eq_true_iff.mp function
  obtain ⟨fn, found, whole⟩ := (Option.any_eq_true _ _).mp function
  rw [toolUseBlock, if_pos isObject, found]
  simp [whole]

theorem assistantBlocks_cases {mv b : Tree} (member : b ∈ assistantBlocks mv) :
    Plain b ∨ ∃ tc ∈ ((mv.get "tool_calls").bind arr?).getD [], toolUseBlock tc = some b := by
  simp only [assistantBlocks, mem_append] at member
  rcases member with (part | text) | call
  · exact .inl (parts_plain part)
  · split at text
    · rw [mem_singleton.mp text]
      exact .inl (textBlockTree_plain _)
    · cases text
  · split at call
    · exact .inr (mem_filterMap.mp call)
    · cases call

section

def messageBlocks (m : Tree) : List Tree := ((m.getLast "content").bind arr?).getD []

variable {msgs : List Tree} {mv : Tree}

theorem chatToolMessage_eq {m : Tree} : chatToolMessage msgs mv = some m ↔
    chatDeclaresToolCall msgs (answeredID mv) = true ∧
      ∃ text, contentTextRaw (mv.get "content") = some text ∧
        m = appendToolResult (answeredID mv) text := by
  have mapped : ∀ named : Bool,
      mapsTo rowsChatToMess (if named then ChatShape.functionMsg else .toolMsg) .tool = true := by
    decide +kernel
  rw [chatToolMessage, if_pos (mapped _)]
  cases contentTextRaw (mv.get "content") with
  | none => simp
  | some text =>
    simp only [ite_none_right_eq_some, some.injEq, exists_eq_left', eq_comm (a := m)]

/-- The message of an answer has one block. -/
theorem appendToolResult_blocks (id text : Content) :
    ∃ b, messageBlocks (appendToolResult id text) = [b] ∧ IsToolResult b ∧
      memberString b "tool_use_id" = some (decode id) := by
  have blocks := blocks_messageTree
    [JsonText.object [("content", Tree.str text), ("tool_use_id", Tree.str id),
      ("type", string "tool_result")]] "user"
  refine ⟨_, congrArg (Option.getD · []) blocks, ?_, ?_⟩
  · exact (memberString_type [_, _] "tool_result").trans (congrArg some types_read.2.1)
  · rw [memberString, getLast_object]
    simp [sameKey_reads, str?]

theorem isObject_of_isStr {t : Tree} {key s : String} (found : isStr (t.get key) s = true) :
    t.isObject = true := by
  cases t with
  | obj blank members => rfl
  | _ => simp [isStr, JsonText.Tree.get, members] at found

theorem roleOf_assistant {role : Option Tree} :
    roleOf role = .assistant ↔ isStr role "assistant" = true := by
  constructor
  · intro assistant
    unfold roleOf at assistant
    split_ifs at assistant
    assumption
  · intro assistant
    have value : (role.bind str?).map decode = some (bytes "assistant") := by
      simpa [isStr] using assistant
    simp only [roleOf, isStr, value]
    decide +kernel

/-- The blocks of a written message: a call that its assistant made, an answer to a declared
call, or neither. -/
theorem chatMessMessage_cases {m b : Tree} (written : chatMessMessage msgs mv = some m)
    (member : b ∈ messageBlocks m) :
    Plain b ∨ (∃ tc ∈ toolCalls mv, toolUseBlock tc = some b) ∨
      answers mv = true ∧ chatDeclaresToolCall msgs (answeredID mv) = true ∧
        memberString b "tool_use_id" = some (decode (answeredID mv)) ∧ IsToolResult b := by
  unfold chatMessMessage at written
  simp only at written
  split at written
  next isObject =>
    split at written
    · split at written
      · -- a message that is a text has no blocks
        split at written
        · cases written
          rw [messageBlocks, getLast_object] at member
          simp [sameKey_reads, arr?] at member
        · cases written
      · split at written
        · cases written
        · cases written
          rw [messageBlocks, blocks_messageTree] at member
          exact .inl (parts_plain member)
    next assistant =>
      split at written
      · cases written
      · cases written
        rw [messageBlocks, blocks_messageTree] at member
        refine (assistantBlocks_cases member).imp_right .inl |>.imp_right (Or.imp_left ?_)
        rw [toolCalls, if_pos (roleOf_assistant.mp assistant)]
        exact id
    next tool =>
      obtain ⟨declared, text, content, rfl⟩ := chatToolMessage_eq.mp written
      obtain ⟨single, blocks, result, named⟩ := appendToolResult_blocks (answeredID mv) text
      rw [blocks] at member
      rw [mem_singleton.mp member]
      exact .inr (.inr ⟨by simp [answers, isObject, tool, content], declared, named, result⟩)
    · cases written
  · cases written

theorem chatMessMessage_call (msgs : List Tree) {tc b : Tree} (member : tc ∈ toolCalls mv)
    (written : toolUseBlock tc = some b) :
    ∃ m, chatMessMessage msgs mv = some m ∧ b ∈ messageBlocks m := by
  unfold toolCalls at member
  split at member
  next assistant =>
    have inside : b ∈ assistantBlocks mv := by
      simp only [assistantBlocks, mem_append]
      right
      exact mem_filterMap.mpr ⟨tc, member, written⟩
    refine ⟨messageTree (assistantBlocks mv) "assistant", ?_, ?_⟩
    · rw [chatMessMessage, if_pos (isObject_of_isStr assistant), roleOf_assistant.mpr assistant]
      exact if_neg (ne_nil_of_mem inside)
    · rw [messageBlocks, blocks_messageTree]
      exact inside
  · cases member

/-- An answer to a declared call is written. -/
theorem chatMessMessage_answer (answering : answers mv = true)
    (declared : chatDeclaresToolCall msgs (answeredID mv) = true) :
    ∃ m b, chatMessMessage msgs mv = some m ∧ b ∈ messageBlocks m ∧ IsToolResult b ∧
      memberString b "tool_use_id" = some (decode (answeredID mv)) := by
  simp only [answers, Bool.and_eq_true, decide_eq_true_eq] at answering
  obtain ⟨⟨isObject, tool⟩, content⟩ := answering
  obtain ⟨text, content⟩ := isSome_iff_exists.mp content
  obtain ⟨b, blocks, result, named⟩ := appendToolResult_blocks (answeredID mv) text
  refine ⟨appendToolResult (answeredID mv) text, b, ?_, blocks ▸ mem_singleton_self b, result, named⟩
  rw [chatMessMessage, if_pos isObject, tool]
  exact chatToolMessage_eq.mpr ⟨declared, text, content, rfl⟩

theorem declares_iff {id : Content} : chatDeclaresToolCall msgs id = true ↔
    ∃ tc ∈ msgs.flatMap toolCalls, callID tc = decode id := by
  simp only [chatDeclaresToolCall, List.any_eq_true, Bool.and_eq_true, decide_eq_true_eq, mem_flatMap,
    toolCalls, callID]
  constructor
  · rintro ⟨mv, among, assistant, tc, call, same⟩
    exact ⟨tc, ⟨mv, among, by rwa [if_pos assistant]⟩, same⟩
  · rintro ⟨tc, ⟨mv, among, call⟩, same⟩
    split at call
    next assistant => exact ⟨mv, among, assistant, tc, call, same⟩
    · cases call

theorem functionsAnswered_iff : functionsAnswered msgs = true ↔
    ∀ mv ∈ msgs, answers mv = true → chatDeclaresToolCall msgs (answeredID mv) = true →
      ∃ fc ∈ msgs.flatMap toolCalls, isFunctionCall fc = true ∧
        callID fc = decode (answeredID mv) := by
  simp only [functionsAnswered, declares_iff, List.all_eq_true, List.any_eq_true, Bool.or_eq_true,
    Bool.and_eq_true, Bool.not_eq_true', decide_eq_true_eq, ne_eq]
  refine forall₂_congr fun mv _ => ?_
  cases answers mv with
  | false => simp
  | true =>
    simp only [Bool.true_eq_false, false_or, forall_const]
    constructor
    · rintro each ⟨tc, call, same⟩
      exact (each tc call).resolve_left (not_not.mpr same)
    · intro some tc call
      exact (Classical.em (callID tc = decode (answeredID mv))).symm.imp_right fun same =>
        some ⟨tc, call, same⟩

theorem mem_blocksOf {b : Tree} : b ∈ blocksOf (appendChatMessMessages msgs) ↔
    ∃ mv ∈ msgs, ∃ m, chatMessMessage msgs mv = some m ∧ b ∈ messageBlocks m := by
  simp only [blocksOf, appendChatMessMessages, mem_flatMap, mem_filterMap]
  constructor
  · rintro ⟨m, ⟨mv, among, written⟩, inside⟩
    exact ⟨mv, among, m, written, inside⟩
  · rintro ⟨mv, among, m, written, inside⟩
    exact ⟨m, ⟨mv, among, written⟩, inside⟩

/-- The calls of the written messages are the function calls. -/
theorem written_call_iff {id : Bytes} :
    (∃ c ∈ blocksOf (appendChatMessMessages msgs), IsToolUse c ∧ memberString c "id" = some id) ↔
      ∃ fc ∈ msgs.flatMap toolCalls, isFunctionCall fc = true ∧ callID fc = id := by
  constructor
  · rintro ⟨c, among, use, named⟩
    obtain ⟨mv, message, m, written, inside⟩ := mem_blocksOf.mp among
    rcases chatMessMessage_cases written inside with plain | ⟨tc, call, block⟩ | ⟨-, -, -, result⟩
    · exact absurd use plain.2
    · obtain ⟨function, -, same⟩ := toolUseBlock_eq block
      exact ⟨tc, mem_flatMap.mpr ⟨mv, message, call⟩, function, some.inj (same.symm.trans named)⟩
    · exact absurd (some.inj (use.symm.trans result)) types_read.2.2.2.2
  · rintro ⟨fc, call, function, rfl⟩
    obtain ⟨mv, message, call⟩ := mem_flatMap.mp call
    obtain ⟨c, block⟩ := toolUseBlock_isSome function
    obtain ⟨m, written, inside⟩ := chatMessMessage_call msgs call block
    obtain ⟨-, use, same⟩ := toolUseBlock_eq block
    exact ⟨c, mem_blocksOf.mpr ⟨mv, message, m, written, inside⟩, use, same⟩

end

/-- The answers of a converted request all name calls of it if and only if each answered call
shares its id with a function call. -/
theorem answers_name_calls (root : Tree) :
    Answered (convertedMessages root) ↔ functionsAnswered (chatMessages root) = true := by
  have converted : convertedMessages root = appendChatMessMessages (chatMessages root) := by
    unfold convertedMessages chatMessages
    cases (root.getLast "messages").bind arr? <;> rfl
  rw [converted, functionsAnswered_iff]
  constructor
  · intro answered mv among answering declared
    obtain ⟨m, b, written, inside, result, named⟩ := chatMessMessage_answer answering declared
    obtain ⟨id, same, call⟩ :=
      answered b (mem_blocksOf.mpr ⟨mv, among, m, written, inside⟩) result
    cases named.symm.trans same
    exact written_call_iff.mp call
  · intro functions b among result
    obtain ⟨mv, message, m, written, inside⟩ := mem_blocksOf.mp among
    rcases chatMessMessage_cases written inside with plain | ⟨tc, -, block⟩ | ⟨answering, declared,
      named, -⟩
    · exact absurd result plain.1
    · exact absurd (some.inj ((toolUseBlock_eq block).2.1.symm.trans result)) types_read.2.2.2.2
    · exact ⟨_, named, written_call_iff.mpr (functions mv message answering declared)⟩

/-- A request in which one call is answered. -/
def answeredCall (call : List (String × Document)) : Tree :=
  JsonText.object [("messages", array
    [JsonText.object [("role", string "assistant"),
        ("tool_calls", array [JsonText.object ([("id", (string "call_1" : Document))] ++ call)])],
      JsonText.object [("role", string "tool"), ("tool_call_id", string "call_1"),
        ("content", string "done")]])]

/-- The answer to a call of a custom tool is written, the call itself is not. -/
theorem custom_call_orphaned :
    ¬ Answered (convertedMessages
      (answeredCall
        [("type", string "custom"), ("custom", JsonText.object [("name", string "f")])])) := by
  intro answered
  have types : (blocksOf (convertedMessages (answeredCall
        [("type", string "custom"), ("custom", JsonText.object [("name", string "f")])]))).map
        (fun b => memberString b "type") = [some (bytes "tool_result")] := by
    decide +kernel
  obtain ⟨b, single, result⟩ := map_eq_singleton_iff.mp types
  obtain ⟨_, -, c, among, use, -⟩ := answered b (single ▸ mem_cons_self) result
  rw [single] at among
  cases mem_singleton.mp among
  exact absurd (result.symm.trans use) (by decide +kernel)

end C3Api.Protoconv
