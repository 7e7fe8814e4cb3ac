import C3Api.Json.Members
import C3Api.Protoconv.Blocks
import C3Api.Protoconv.DataFrame
import C3Api.Protoconv.MessToChat
import C3Api.Protoconv.RespToChat

/-!
# The end of a stream

One flag of the mapper says that the client has its terminal frame. The events that end a
stream look at it; the others do not, and neither does data that is passed on.
-/

namespace C3Api.Protoconv

open JsonText (utf8)
open List Option Protoconv.Frame

/-- The data of an unnamed event is passed on line by line. -/
def passedOn (data : Data) : Frame := ⟨"", .raw (DataFrame.encodeDataFrame (utf8 data.text))⟩

/-- Whether the client has its end marker with a frame; frames that are written whole are read
with the relay's parser. -/
def Frame.terminal : ProtocolConvert → Frame → Bool
  | .messToResp, f => f.event = "message_stop" || f.event = "error"
  | .respToMess, f =>
    f.event = "response.completed" || f.event = "response.incomplete" || f.event = "response.failed"
  | .chatToResp, f | .chatToMess, f =>
    match f.data with
    | .text text => f.event = "" && text = "[DONE]"
    | .raw bytes =>
      (Relay.events bytes).any fun event => event.event = [] && event.data = utf8 "[DONE]"
    | .json _ => false

def eventName (name : String) (data : Data) : String :=
  if name = "" then inferEventName data else name

namespace StreamMapper

section

variable (sealBytes : Envelope → String) (dir : ProtocolConvert) (m : StreamMapper)

def mapNamed (name : String) (data : Data) : Mapped :=
  match dir with
  | .chatToResp => m.mapRespToChat name data
  | .messToResp => m.mapRespToMess sealBytes name data
  | .respToMess => m.mapMessToResp sealBytes name data
  | .chatToMess => m.mapMessToChat name data

def map (name : String) (data : Data) : Mapped :=
  if eventName name data = "" then
    (m, if data.text = "" then [] else [passedOn data])
  else m.mapNamed sealBytes dir (eventName name data) data

/-- The frames that end a stream which had no terminal event. -/
def finish : Mapped :=
  match dir with
  | .messToResp =>
    (m.closeOpenBlocks.1,
      m.closeOpenBlocks.2 ++ [messageDelta "" (respUsageToMess []), messageStop])
  | .chatToResp => (m, [doneFrame])
  | _ => (m, [])

def mapAll : StreamMapper → List (String × Data) → Mapped
  | m, [] => (m, [])
  | m, (name, data) :: events =>
    let step := m.map sealBytes dir name data
    let rest := mapAll step.1 events
    (rest.1, step.2 ++ rest.2)

def streamed (events : List (String × Data)) : List Frame :=
  let mapped := mapAll sealBytes dir {} events
  if mapped.1.done then mapped.2 else mapped.2 ++ (mapped.1.finish dir).2

end

/-- The events that say nothing once a stream has ended: those that would end it, and those
without a place in the client's stream. -/
def Silent (dir : ProtocolConvert) (name : String) : Prop :=
  match dir with
  | .chatToResp =>
    RespEvent.ofName name ∈ [.completed, .failed, .textDone, .itemDone, .argumentsDone, .other]
  | .messToResp => RespEvent.ofName name ∈ [.completed, .failed, .other]
  | .respToMess => MessEvent.ofName name ∈ [.messageDelta, .messageStop, .other]
  | .chatToMess => MessEvent.ofName name ∈ [.blockStop, .messageDelta, .messageStop, .other]

instance (dir : ProtocolConvert) (name : String) : Decidable (Silent dir name) := by
  unfold Silent
  cases dir <;> infer_instance

/-- Data that would be passed on and is the end marker of the client's protocol itself. -/
def Forged (dir : ProtocolConvert) (name : String) (data : Data) : Prop :=
  eventName name data = "" ∧ (passedOn data).terminal dir = true

instance (dir : ProtocolConvert) (name : String) (data : Data) :
    Decidable (Forged dir name data) :=
  inferInstanceAs (Decidable (_ ∧ _))

example : Forged .chatToResp "" ⟨"[DONE]\n", none⟩ ∧ ¬ Forged .chatToResp "" ⟨"a\n[DONE]", none⟩ := by
  decide +kernel

/-- A sequence of events which brings nothing of its own after its end, and whose end no
passed-on data pretends to be. -/
def Orderly (sealBytes : Envelope → String) (dir : ProtocolConvert) :
    StreamMapper → List (String × Data) → Prop
  | _, [] => True
  | m, (name, data) :: events =>
    (m.done = true →
        (eventName name data = "" → data.text = "") ∧ Silent dir (eventName name data)) ∧
      ¬ Forged dir name data ∧
      Orderly sealBytes dir (m.map sealBytes dir name data).1 events

variable {dir : ProtocolConvert} {m m' : StreamMapper} {fs gs : List Frame}

/-- A step that leaves the end of the stream where it was. -/
structure Goes (dir : ProtocolConvert) (m m' : StreamMapper) (fs : List Frame) : Prop where
  done : m'.done = m.done
  plain : ∀ f ∈ fs, f.terminal dir = false

/-- The last frame is terminal, and no other. -/
def Closed (dir : ProtocolConvert) (fs : List Frame) : Prop :=
  ∃ pre final, fs = pre ++ [final] ∧ (∀ f ∈ pre, f.terminal dir = false) ∧
    final.terminal dir = true

/-- A step with which the stream ends. -/
structure Ends (dir : ProtocolConvert) (m m' : StreamMapper) (fs : List Frame) : Prop where
  before : m.done = false
  after : m'.done = true
  last : Closed dir fs

abbrev Continues (dir : ProtocolConvert) (m : StreamMapper) (step : Mapped) :=
  Goes dir m step.1 step.2

abbrev Finishes (dir : ProtocolConvert) (m : StreamMapper) (step : Mapped) :=
  Ends dir m step.1 step.2

abbrev Turns (dir : ProtocolConvert) (m : StreamMapper) (step : Mapped) :=
  Goes dir m step.1 step.2 ∨ Ends dir m step.1 step.2

theorem Closed.after (closed : Closed dir gs) (plain : ∀ f ∈ fs, f.terminal dir = false) :
    Closed dir (fs ++ gs) := by
  obtain ⟨pre, final, rfl, plain', terminal⟩ := closed
  exact ⟨fs ++ pre, final, (append_assoc fs pre [final]).symm,
    forall_mem_append.mpr ⟨plain, plain'⟩, terminal⟩

namespace Goes

theorem silent (done : m'.done = m.done) : Goes dir m m' [] :=
  ⟨done, nofun⟩

theorem one {f : Frame} (done : m'.done = m.done) (plain : f.terminal dir = false) :
    Goes dir m m' [f] :=
  ⟨done, fun g member => by rwa [mem_singleton.mp member]⟩

theorem append {m'' : StreamMapper} (first : Goes dir m m' fs) (second : Goes dir m' m'' gs) :
    Goes dir m m'' (fs ++ gs) where
  done := second.done.trans first.done
  plain := forall_mem_append.mpr ⟨first.plain, second.plain⟩

theorem since {m'' : StreamMapper} (goes : Goes dir m m' fs) (same : m.done = m''.done) :
    Goes dir m'' m' fs :=
  ⟨goes.done.trans same, goes.plain⟩

/-- Handlers that say nothing under some condition, and send one frame otherwise. -/
theorem guarded {c : Prop} [Decidable c] {m'' : StreamMapper} {f : Frame}
    (kept : m'.done = m.done) (done : m''.done = m.done) (plain : f.terminal dir = false) :
    Continues dir m (if c then (m', []) else (m'', [f])) := by
  split
  · exact .silent kept
  · exact .one done plain

end Goes

namespace Ends

variable {final : Frame}

theorem snoc (before : m.done = false) (after : m'.done = true)
    (plain : ∀ f ∈ fs, f.terminal dir = false) (terminal : final.terminal dir = true) :
    Ends dir m m' (fs ++ [final]) :=
  ⟨before, after, fs, final, rfl, plain, terminal⟩

theorem single (before : m.done = false) (after : m'.done = true)
    (terminal : final.terminal dir = true) : Ends dir m m' [final] :=
  ⟨before, after, [], final, rfl, nofun, terminal⟩

end Ends

section

variable (m : StreamMapper) (oi : Int) (kind : Kind)

@[simp] theorem contentIndex_done : (m.contentIndex oi kind).1.done = m.done := by
  unfold contentIndex
  simp only
  split <;> rfl

@[simp] theorem blockIndex_done (key : BlockKey) : (m.blockIndex key oi kind).1.done = m.done := by
  unfold blockIndex
  split
  · rfl
  · exact m.contentIndex_done oi kind

@[simp] theorem ownBlockIndex_done (key : BlockKey) :
    (m.ownBlockIndex key oi kind).1.done = m.done := by
  unfold ownBlockIndex
  split
  · split
    · rfl
    · exact m.contentIndex_done oi kind
  · exact m.contentIndex_done oi kind

@[simp] theorem eventBlockIndex_done (ev : Json.Obj) :
    (m.eventBlockIndex ev kind).1.done = m.done :=
  m.ownBlockIndex_done _ kind _

@[simp] theorem thinkBlockIndex_done (key : BlockKey) :
    (m.thinkBlockIndex key oi).1.done = m.done := by
  unfold thinkBlockIndex
  split
  · rfl
  split
  · rfl
  · exact m.blockIndex_done oi .thinking key

@[simp] theorem doneThinkIndex_done (id : String) : (m.doneThinkIndex id oi).1.done = m.done := by
  unfold doneThinkIndex
  split
  · exact m.thinkBlockIndex_done oi _
  · rfl

end

section

variable (m : StreamMapper) (ev : Json.Obj)

theorem stopBlock_goes (index : Int) : Continues .messToResp m (m.stopBlock index) :=
  .guarded rfl rfl rfl

theorem startBlock_goes (index : Int) (block : Json.Obj) :
    Continues .messToResp m (m.startBlock index block) :=
  .guarded rfl rfl rfl

theorem closeOpenBlocks_goes : Continues .messToResp m m.closeOpenBlocks := by
  refine ⟨rfl, fun f member => ?_⟩
  obtain ⟨index, -, rfl⟩ := mem_map.mp member
  rfl

theorem respTextDelta_goes : Continues .messToResp m (m.respTextDelta ev) := by
  have same := m.eventBlockIndex_done .text ev
  unfold respTextDelta
  generalize m.eventBlockIndex ev .text = found at same ⊢
  simp only
  split
  · exact .silent same
  · have started := startBlock_goes { found.1 with nonThinkSeen := true } found.2 textBlock
    exact (started.since same).append (.one rfl rfl)

theorem respDone_goes (kind : Kind) : Continues .messToResp m (m.respDone ev kind) :=
  (stopBlock_goes _ _).since (eventBlockIndex_done _ kind ev)

theorem respItemAdded_goes : Continues .messToResp m (m.respItemAdded ev) := by
  unfold respItemAdded
  cases object ev "item" with
  | none => exact .silent rfl
  | some item =>
    simp only
    split
    · split
      · exact .silent rfl
      · split
        · exact .silent (blockIndex_done ..)
        · exact .one (blockIndex_done ..) rfl
    · exact .silent (ownBlockIndex_done ..)
    · exact (startBlock_goes _ _ _).since (ownBlockIndex_done ..)
    · exact .silent rfl

theorem respReasoningDelta_goes : Continues .messToResp m (m.respReasoningDelta ev) := by
  have same := m.thinkBlockIndex_done (intOr0 ev "output_index")
    (blockKeyOf (strOr ev "item_id") (intOr0 ev "output_index") .thinking)
  unfold respReasoningDelta
  simp only
  generalize m.thinkBlockIndex _ _ = found at same ⊢
  split
  · exact .silent same
  next index _ =>
    split
    · exact .silent same
    · exact ((startBlock_goes found.1 index thinkBlock).since same).append (.one rfl rfl)

theorem signatureDelta_plain (sealBytes : Envelope → String) (index : Int) (item : Json.Obj) :
    Goes .messToResp m m (signatureDelta sealBytes index item) := by
  unfold signatureDelta
  simp only
  split
  · exact .silent rfl
  · exact .one rfl rfl

theorem respItemDone_goes (sealBytes : Envelope → String) :
    Continues .messToResp m (m.respItemDone sealBytes ev) := by
  unfold respItemDone
  cases object ev "item" with
  | none => exact .silent rfl
  | some item =>
    have same := m.doneThinkIndex_done (intOr0 ev "output_index") (strOr item "id")
    simp only
    split
    · exact .silent rfl
    generalize m.doneThinkIndex _ _ = found at same ⊢
    split
    · exact .silent same
    next index _ =>
      split
      · exact .silent same
      have started := startBlock_goes found.1 index thinkBlock
      have signed := signatureDelta_plain (found.1.startBlock index thinkBlock).1 sealBytes
        index item
      exact ((started.since same).append signed).append (.one rfl rfl)

theorem finalDelta_plain : (finalDelta ev).terminal .messToResp = false := by
  obtain ⟨reason, usage, final⟩ := finalDelta_eq ev
  rw [final]
  rfl

theorem respCompleted_ends (fresh : m.done = false) :
    Finishes .messToResp m (m.respCompleted ev) := by
  rw [respCompleted, if_neg (by simp [fresh])]
  have closed := closeOpenBlocks_goes { m with done := true }
  have last : Goes .messToResp _ _ [finalDelta ev] := .one closed.done.symm (finalDelta_plain ev)
  have ended : Ends .messToResp m _ ((_ ++ [finalDelta ev]) ++ [messageStop]) :=
    .snoc fresh closed.done (closed.append last).plain rfl
  rwa [append_assoc] at ended

theorem respFailed_ends (fresh : m.done = false) : Finishes .messToResp m (m.respFailed ev) := by
  rw [respFailed, if_neg (by simp [fresh])]
  exact .single fresh rfl rfl

variable (sealBytes : Envelope → String)

@[simp] theorem takeStart_done : (m.takeStart ev).done = m.done := by
  unfold takeStart
  split
  · rfl
  · split <;> rfl

theorem messBlockStart_goes : Continues .respToMess m (m.messBlockStart sealBytes ev) := by
  unfold messBlockStart
  split
  · exact .silent rfl
  next block _ =>
    split
    · exact .guarded rfl rfl rfl
    · unfold redactedStart
      split
      · exact .silent rfl
      simp only
      split
      · exact .silent rfl
      · exact .append (.one rfl rfl) (.one rfl rfl)
    · exact .guarded rfl rfl rfl
    · exact .guarded rfl rfl rfl
    · exact .silent rfl

theorem messBlockDelta_goes : Continues .respToMess m (m.messBlockDelta ev) := by
  unfold messBlockDelta
  split
  · exact .silent rfl
  split
  · unfold thinkingDelta
    split
    · exact .silent rfl
    · exact .guarded rfl rfl rfl
  · unfold messSignatureDelta
    split
    · exact .silent rfl
    split
    · exact .silent rfl
    · exact .silent rfl
  · exact .guarded rfl rfl rfl
  · exact .guarded rfl rfl rfl
  · exact .silent rfl

theorem messBlockStop_goes : Continues .respToMess m (m.messBlockStop sealBytes ev) := by
  unfold messBlockStop
  simp only
  split
  · exact .silent rfl
  split
  · split
    · exact .silent rfl
    · exact .silent rfl
  · split
    · exact .silent rfl
    · exact .one rfl rfl

@[simp] theorem takeUsage_done : (m.takeUsage ev).done = m.done := by
  unfold takeUsage
  split <;> rfl

theorem messDelta_goes : Continues .respToMess m (m.messDelta ev) := by
  unfold messDelta
  split
  · exact .silent (m.takeUsage_done ev)
  · exact .silent (m.takeUsage_done ev)

theorem messStop_ends (fresh : m.done = false) : Finishes .respToMess m (m.messStop sealBytes) := by
  rw [messStop, if_neg (by simp [fresh])]
  exact .single fresh rfl rfl

theorem messError_goes : Continues .respToMess m (m.messError ev) := by
  unfold messError
  split
  · exact .silent rfl
  · exact .one rfl rfl

/-- A text that is an object is not the end marker. -/
theorem objText_plain (members : List (String × String)) :
    (Frame.mk "" (.text (objText members))).terminal .chatToResp = false := by
  have differ : objText members ≠ "[DONE]" := by
    intro same
    have heads := congrArg (fun s => s.toList.head?) same
    simp [objText] at heads
  simp [Frame.terminal, differ]

theorem chatCreated_goes : Continues .chatToResp m (m.chatCreated ev) := by
  unfold chatCreated
  split
  · exact .silent rfl
  · refine .one ?_ (objText_plain _)
    split <;> rfl

theorem chatItemAdded_goes : Continues .chatToResp m (m.chatItemAdded ev) := by
  unfold chatItemAdded
  split
  · exact .silent rfl
  split
  · exact .one rfl (objText_plain _)
  · exact .silent rfl

theorem chatCompleted_ends (fresh : m.done = false) :
    Finishes .chatToResp m (m.chatCompleted ev) := by
  rw [chatCompleted, if_neg (by simp [fresh])]
  refine .snoc fresh rfl (fun f member => ?_) rfl
  rcases mem_append.mp member with finish | usage
  · rw [mem_singleton.mp finish]
    exact objText_plain _
  · obtain ⟨u, -, rfl⟩ := map_eq_some_iff.mp (mem_toList.mp usage)
    exact objText_plain _

theorem chatFailed_ends (fresh : m.done = false) : Finishes .chatToResp m (m.chatFailed ev) := by
  rw [chatFailed, if_neg (by simp [fresh])]
  refine .snoc fresh rfl (fun f member => ?_) rfl
  obtain ⟨e, -, rfl⟩ := map_eq_some_iff.mp (mem_toList.mp member)
  exact objText_plain _

theorem plainDelta_plain {name : String} {data : Data} {f : Frame}
    (found : m.plainDelta name data = some f) : f.terminal .chatToResp = false := by
  unfold plainDelta at found
  split at found
  case h_1 | h_2 | h_3 =>
    obtain ⟨r, -, rfl⟩ := map_eq_some_iff.mp found
    exact objText_plain _
  · cases found

theorem chatToolStart_goes : Continues .chatToMess m (m.chatToolStart ev) := by
  unfold chatToolStart
  split
  · exact .silent rfl
  · exact .guarded rfl rfl rfl

theorem chatDelta_goes : Continues .chatToMess m (m.chatDelta ev) := by
  unfold chatDelta
  split
  · exact .silent rfl
  split
  · exact .guarded rfl rfl rfl
  · exact .one rfl rfl
  · exact .one rfl rfl
  · exact .silent rfl

theorem chatFinish_ends (fresh : m.done = false) : Finishes .chatToMess m (m.chatFinish ev) := by
  rw [chatFinish, if_neg (by simp [fresh])]
  have plain : ∀ (f g : Frame), f.terminal .chatToMess = false → g.terminal .chatToMess = false →
      ∀ h ∈ [f, g], h.terminal .chatToMess = false := by
    intro f g first second h member
    rcases mem_pair.mp member with rfl | rfl
    · exact first
    · exact second
  exact ⟨fresh, takeUsage_done _ ev, [_, _], doneFrame, rfl, plain _ _ rfl rfl, rfl⟩

theorem chatError_goes : Continues .chatToMess m (m.chatError ev) := by
  unfold chatError
  split
  · exact .silent rfl
  · exact .one rfl rfl

end

section

variable (sealBytes : Envelope → String) (m : StreamMapper) (name : String) (data : Data)

theorem step_of_ending {step : Mapped}
    (ends : m.done = false → Finishes dir m (if m.done then (m, []) else step)) :
    Turns dir m (if m.done then (m, []) else step) := by
  cases done : m.done with
  | false => exact .inr (done ▸ ends done)
  | true => exact .inl (.silent rfl)

theorem mapRespToMess_step : Turns .messToResp m (m.mapRespToMess sealBytes name data) := by
  unfold mapRespToMess
  split
  · exact .inl (.silent rfl)
  next ev _ =>
    split
    · exact .inl (.guarded rfl rfl rfl)
    · exact .inl (m.respTextDelta_goes ev)
    · exact .inl (m.respDone_goes ev .text)
    · exact .inl (m.respItemAdded_goes ev)
    · exact .inl (m.respReasoningDelta_goes ev)
    · exact .inl (m.respItemDone_goes ev sealBytes)
    · exact .inl (.guarded (eventBlockIndex_done ..) (eventBlockIndex_done ..) rfl)
    · exact .inl (m.respDone_goes ev .toolUse)
    · exact m.step_of_ending (m.respCompleted_ends ev)
    · exact m.step_of_ending (m.respFailed_ends ev)
    · exact .inl (.silent rfl)

theorem mapMessToResp_step : Turns .respToMess m (m.mapMessToResp sealBytes name data) := by
  unfold mapMessToResp
  split
  · exact .inl (.silent rfl)
  next ev _ =>
    split
    · exact .inl (.guarded rfl (m.takeStart_done ev) rfl)
    · exact .inl (m.messBlockStart_goes ev sealBytes)
    · exact .inl (m.messBlockDelta_goes ev)
    · exact .inl (m.messBlockStop_goes ev sealBytes)
    · exact .inl (m.messDelta_goes ev)
    · exact m.step_of_ending (m.messStop_ends sealBytes)
    · exact .inl (m.messError_goes ev)
    · exact .inl (.silent rfl)

theorem mapMessToChat_step : Turns .chatToMess m (m.mapMessToChat name data) := by
  unfold mapMessToChat
  split
  · exact .inl (.silent rfl)
  next ev _ =>
    split
    · exact .inl (.guarded rfl (m.takeStart_done ev) rfl)
    · exact .inl (m.chatToolStart_goes ev)
    · exact .inl (m.chatDelta_goes ev)
    · exact m.step_of_ending (m.chatFinish_ends ev)
    · exact .inl (m.chatError_goes ev)
    · exact .inl (.silent rfl)

theorem mapRespToChat_step : Turns .chatToResp m (m.mapRespToChat name data) := by
  unfold mapRespToChat
  split
  next frame found => exact .inl (.one rfl (m.plainDelta_plain found))
  split
  next ev _ =>
    split
    · exact .inl (m.chatCreated_goes ev)
    · exact .inl (.one rfl (objText_plain _))
    · exact .inl (.one rfl (objText_plain _))
    · exact .inl (m.chatItemAdded_goes ev)
    · exact .inl (.one rfl (objText_plain _))
    · exact m.step_of_ending (m.chatCompleted_ends ev)
    · exact m.step_of_ending (m.chatFailed_ends ev)
    · exact .inl (.silent rfl)
  · exact .inl (.silent rfl)

theorem map_step (honest : ¬ Forged dir name data) :
    Turns dir m (m.map sealBytes dir name data) := by
  unfold map
  split
  next unnamed =>
    refine .inl ⟨rfl, fun f member => ?_⟩
    split at member
    · cases member
    · rw [mem_singleton.mp member]
      exact Bool.eq_false_iff.mpr fun terminal => honest ⟨unnamed, terminal⟩
  · cases dir with
    | chatToResp => exact m.mapRespToChat_step _ data
    | messToResp => exact m.mapRespToMess_step sealBytes _ data
    | respToMess => exact m.mapMessToResp_step sealBytes _ data
    | chatToMess => exact m.mapMessToChat_step _ data

theorem mapNamed_silent (done : m.done = true) (silent : Silent dir name) :
    (m.mapNamed sealBytes dir name data).2 = [] := by
  cases dir
  all_goals simp only [Silent, mem_cons, not_mem_nil, or_false] at silent
  case chatToResp =>
    simp only [mapNamed, mapRespToChat, plainDelta]
    rcases silent with event | event | event | event | event | event <;>
      simp only [event, chatCompleted, chatFailed, done, if_true] <;> split <;> rfl
  case messToResp =>
    simp only [mapNamed, mapRespToMess]
    rcases silent with event | event | event <;>
      rw [event] <;> split <;> simp [respCompleted, respFailed, done]
  case respToMess =>
    simp only [mapNamed, mapMessToResp]
    rcases silent with event | event | event <;> rw [event] <;> split <;> simp [messStop, done]
    unfold messDelta
    split <;> rfl
  case chatToMess =>
    simp only [mapNamed, mapMessToChat]
    rcases silent with event | event | event | event <;>
      rw [event] <;> split <;> simp [chatFinish, done]

theorem map_silent (done : m.done = true)
    (quiet : (eventName name data = "" → data.text = "") ∧ Silent dir (eventName name data)) :
    (m.map sealBytes dir name data).2 = [] := by
  unfold map
  split
  next unnamed => exact if_pos (quiet.1 unnamed)
  · exact m.mapNamed_silent sealBytes _ data done quiet.2

end

section

variable (sealBytes : Envelope → String)

/-- What a client has received before and after the end of its stream. -/
structure Kept (dir : ProtocolConvert) (m : StreamMapper) (fs : List Frame) : Prop where
  going : m.done = false → ∀ f ∈ fs, f.terminal dir = false
  ended : m.done = true → Closed dir fs

namespace Kept

theorem start : Kept dir {} [] := ⟨nofun, nofun⟩

variable (kept : Kept dir m fs)

include kept

theorem done (found : ∃ f ∈ fs, f.terminal dir = true) : m.done = true := by
  obtain ⟨f, member, terminal⟩ := found
  by_contra going
  rw [kept.going (Bool.eq_false_iff.mpr going) f member] at terminal
  cases terminal

theorem ends (ends : Ends dir m m' gs) : Kept dir m' (fs ++ gs) where
  going going := absurd ends.after (by simp [going])
  ended _ := ends.last.after (kept.going ends.before)

theorem goes (goes : Goes dir m m' gs) (silent : m.done = true → gs = []) :
    Kept dir m' (fs ++ gs) where
  going done := forall_mem_append.mpr ⟨kept.going (goes.done ▸ done), goes.plain⟩
  ended done := by
    have before : m.done = true := goes.done ▸ done
    rw [silent before, append_nil]
    exact kept.ended before

theorem mapAll {events : List (String × Data)} (orderly : Orderly sealBytes dir m events) :
    Kept dir (mapAll sealBytes dir m events).1 (fs ++ (mapAll sealBytes dir m events).2) := by
  induction events generalizing m fs with
  | nil => simpa [StreamMapper.mapAll] using kept
  | cons event events ih =>
    obtain ⟨quiet, honest, rest⟩ := orderly
    rw [StreamMapper.mapAll, ← append_assoc]
    refine ih ?_ rest
    rcases m.map_step sealBytes event.1 event.2 honest with goes | ends
    · exact kept.goes goes fun done => m.map_silent sealBytes _ _ done (quiet done)
    · exact kept.ends ends

end Kept

theorem Orderly.of_append {before after : List (String × Data)}
    (orderly : Orderly sealBytes dir m (before ++ after)) : Orderly sealBytes dir m before := by
  induction before generalizing m with
  | nil => trivial
  | cons event before ih =>
    exact ⟨orderly.1, orderly.2.1, ih orderly.2.2⟩

theorem finish_ends (covered : dir = .messToResp ∨ dir = .chatToResp) :
    Closed dir (m.finish dir).2 := by
  rcases covered with rfl | rfl
  · have closed := closeOpenBlocks_goes m
    refine ⟨m.closeOpenBlocks.2 ++ [messageDelta "" (respUsageToMess [])], messageStop, ?_, ?_, rfl⟩
    · rw [append_assoc]
      rfl
    · exact (closed.append (.one closed.done.symm rfl)).plain
  · exact ⟨[], doneFrame, rfl, nofun, rfl⟩

theorem terminal_last {pre : List Frame} {final : Frame} (plain : ∀ f ∈ pre, f.terminal dir = false)
    {before after : List Frame} {f : Frame} (split : pre ++ [final] = before ++ f :: after)
    (terminal : f.terminal dir = true) : (∀ g ∈ before, g.terminal dir = false) ∧ after = [] := by
  rcases eq_nil_or_concat after with rfl | ⟨after', last, rfl⟩
  · obtain ⟨rfl, -⟩ := append_inj' split rfl
    exact ⟨plain, rfl⟩
  · rw [concat_eq_append, ← cons_append, ← append_assoc] at split
    obtain ⟨rfl, -⟩ := append_inj' split rfl
    rw [plain f (by simp)] at terminal
    cases terminal

theorem countP_terminal {pre : List Frame} {final : Frame}
    (plain : ∀ f ∈ pre, f.terminal dir = false) (terminal : final.terminal dir = true) :
    (pre ++ [final]).countP (Frame.terminal dir) = 1 := by
  have none : pre.countP (Frame.terminal dir) = 0 :=
    countP_eq_zero.mpr fun f member => by simp [plain f member]
  simp [none, terminal]

theorem streamed_cases {events : List (String × Data)} (orderly : Orderly sealBytes dir {} events) :
    ((dir ≠ .messToResp ∧ dir ≠ .chatToResp) ∧
        ∀ f ∈ streamed sealBytes dir events, f.terminal dir = false) ∨
      Closed dir (streamed sealBytes dir events) := by
  have kept := Kept.start.mapAll sealBytes orderly
  unfold streamed
  generalize mapAll sealBytes dir {} events = mapped at kept ⊢
  dsimp only
  cases done : mapped.1.done with
  | true => exact .inr (kept.ended done)
  | false =>
    by_cases covered : dir = .messToResp ∨ dir = .chatToResp
    · right
      rw [if_neg nofun]
      exact (finish_ends covered).after (kept.going done)
    · left
      have uncovered := not_or.mp covered
      have nothing : (mapped.1.finish dir).2 = [] := by
        cases dir with
        | chatToResp => exact absurd rfl uncovered.2
        | messToResp => exact absurd rfl uncovered.1
        | respToMess => rfl
        | chatToMess => rfl
      rw [if_neg nofun, nothing, append_nil]
      exact ⟨uncovered, kept.going done⟩

end

def emptyData : Data := ⟨"\x7b\x7d", some (.obj [])⟩

/-- A response that is completed, with a delta before and a second completion after it. -/
def completedTwice : List (String × Data) :=
  [("response.output_text.delta", emptyData), ("response.completed", emptyData),
    ("response.completed", emptyData)]

end StreamMapper

end C3Api.Protoconv
