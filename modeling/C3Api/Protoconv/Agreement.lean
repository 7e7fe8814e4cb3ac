import C3Api.Protoconv.Message
import C3Api.Protoconv.Terminal

/-!
# A streamed message and the whole one

A message may reach the mapper as a stream of events or as one body. The stream is described
by what its events say and not by how they are written; how its texts are cut into deltas is
left open.
-/

namespace C3Api.Protoconv

open Json FiniteMap List Block MessEvent

abbrev Event := String × Data

def Says (event : Event) (name : String) (holds : Obj → Prop) : Prop :=
  event.1 = name ∧ ∃ ev, decodeObj event.2 = some ev ∧ holds ev

namespace Block

def Starts (index : Int) (b : Block) (ev : Obj) : Prop :=
  intOr0 ev "index" = index ∧ ∃ block, object ev "content_block" = some block ∧
    match b with
    | text _ => str block "type" = some "text" ∧ strOr block "text" = ""
    | toolUse id name _ =>
      str block "type" = some "tool_use" ∧ strOr block "id" = id ∧ strOr block "name" = name
    | thinking _ _ =>
      str block "type" = some "thinking" ∧ strOr block "thinking" = "" ∧
        strOr block "signature" = ""
    | redacted data => str block "type" = some "redacted_thinking" ∧ strOr block "data" = data

end Block

/-- A delta adds to what has come of a block. -/
inductive Grows (index : Int) : Draft → Obj → Draft → Prop where
  | text {ev delta : Obj} (text : String) (here : intOr0 ev "index" = index)
      (carries : object ev "delta" = some delta) (kind : str delta "type" = some "text_delta") :
      Grows index (.text text) ev (.text (text ++ strOr delta "text"))
  | call {ev delta : Obj} (id name arguments : String) (here : intOr0 ev "index" = index)
      (carries : object ev "delta" = some delta)
      (kind : str delta "type" = some "input_json_delta") :
      Grows index (.call id name arguments) ev
        (.call id name (arguments ++ strOr delta "partial_json"))
  | thinking {ev delta : Obj} (thinking signature : String) (here : intOr0 ev "index" = index)
      (carries : object ev "delta" = some delta)
      (kind : str delta "type" = some "thinking_delta") :
      Grows index (.thinking { type := "thinking", thinking := thinking, signature := signature }) ev
        (.thinking
          { type := "thinking", thinking := thinking ++ strOr delta "thinking"
            signature := signature })
  | signature {ev delta : Obj} (thinking signature : String) (here : intOr0 ev "index" = index)
      (carries : object ev "delta" = some delta)
      (kind : str delta "type" = some "signature_delta") :
      Grows index (.thinking { type := "thinking", thinking := thinking, signature := signature }) ev
        (.thinking
          { type := "thinking", thinking := thinking
            signature := signature ++ strOr delta "signature" })

theorem Grows.type_eq {index : Int} {b : ThinkingBlock} {ev : Obj} {d : Draft}
    (grows : Grows index (.thinking b) ev d) : b.type = "thinking" := by
  cases grows <;> rfl

inductive Fills (index : Int) : Draft → List Event → Draft → Prop where
  | done (d : Draft) : Fills index d [] d
  | delta {d d' d'' : Draft} {event : Event} {rest : List Event}
      (grows : Says event "content_block_delta" fun ev => Grows index d ev d')
      (fills : Fills index d' rest d'') : Fills index d (event :: rest) d''

/-- The events of a list of blocks, the first of which has the given index, and what the blocks
come to. -/
inductive BlockEvents : Int → List Block → List Draft → List Event → Prop where
  | nil (index : Int) : BlockEvents index [] [] []
  | block {index : Int} {b : Block} {bs : List Block} {d : Draft} {ds : List Draft}
      {start stop : Event} {deltas rest : List Event}
      (starts : Says start "content_block_start" (b.Starts index))
      (fills : Fills index b.blank deltas d) (alike : d.Alike (b.full fun _ => ""))
      (stops : Says stop "content_block_stop" fun ev => intOr0 ev "index" = index)
      (more : BlockEvents (index + 1) bs ds rest) :
      BlockEvents index (b :: bs) (d :: ds) (start :: (deltas ++ stop :: rest))

theorem BlockEvents.alike {index : Int} {bs : List Block} {ds : List Draft} {events : List Event}
    (marshal : Json → String) (stream : BlockEvents index bs ds events) :
    List.Forall₂ Draft.Alike ds (bs.map (full marshal)) := by
  induction stream with
  | nil => exact .nil
  | @block index b bs d ds start stop deltas rest _ _ alike _ _ ih =>
    refine .cons ?_ ih
    cases b with
    | toolUse => cases alike <;> exact .call ..
    | _ => exact alike

/-- A count of the last usage that names it. -/
def settled (start final : Obj) (key : String) : Int :=
  if (last final key).isSome then intOr0 final key else intOr0 start key

/-- The events that enclose the blocks of a message. -/
structure Enclosed (M : Message) (start delta stop : Event) : Prop where
  usage : ∃ u w,
    (Says start "message_start" fun ev =>
      ∃ msg, object ev "message" = some msg ∧ object msg "usage" = some u) ∧
    (Says delta "message_delta" fun ev =>
      object ev "usage" = some w ∧
        ∃ d, object ev "delta" = some d ∧ strOr d "stop_reason" = M.stopReason) ∧
    settled u w "input_tokens" = M.usage.input ∧
    settled u w "cache_read_input_tokens" = M.usage.cacheRead ∧
    settled u w "cache_creation_input_tokens" = M.usage.cacheCreation ∧
    intOr0 w "output_tokens" = M.usage.output
  stop : Says stop "message_stop" fun _ => True

/-- A stream of the message: its start, its blocks one after the other and its end, with pings
anywhere between them. -/
def Streams (M : Message) (ds : List Draft) (events : List Event) : Prop :=
  ∃ start blocks delta stop,
    (events.filter fun event => event.1 ≠ "ping") = start :: (blocks ++ [delta, stop]) ∧
      Enclosed M start delta stop ∧ BlockEvents 0 M.blocks ds blocks

namespace StreamMapper

variable {m m' m₀ : StreamMapper} {index : Int} {d d' : Draft}

variable (sealBytes : Envelope → String)

section

def viewAt (m : StreamMapper) (index : Int) : Option ItemView :=
  (m.messOutputItem sealBytes index).map fun item => itemView (.obj item)

def Drafted (m : StreamMapper) (index : Int) : Draft → Prop
  | .text t =>
    m.thinkBlocks.lookup index = none ∧ m.fcNames.lookup index = none ∧
      (m.textByIndex.lookup index).getD "" = t
  | .call id name arguments =>
    m.thinkBlocks.lookup index = none ∧ m.fcNames.lookup index = some name ∧
      (m.fcIDs.lookup index).getD "" = id ∧ (m.argsByIndex.lookup index).getD "" = arguments
  | .thinking b => m.thinkBlocks.lookup index = some b

theorem Drafted.viewAt (drafted : m.Drafted index d) :
    m.viewAt sealBytes index = d.view sealBytes := by
  cases d with
  | text t =>
    obtain ⟨think, name, rfl⟩ := drafted
    simp only [StreamMapper.viewAt, messOutputItem, think, name]
    rfl
  | call id name arguments =>
    obtain ⟨think, names, rfl, rfl⟩ := drafted
    simp only [StreamMapper.viewAt, messOutputItem, think, names]
    rfl
  | thinking b =>
    have think : m.thinkBlocks.lookup index = some b := drafted
    simp only [StreamMapper.viewAt, messOutputItem, think, reasoningItem, Draft.view, reasoningView]
    split
    · rfl
    · unfold reasoningSummary
      split <;> rfl

/-- What is kept for one block. -/
def kept (m : StreamMapper) (j : Int) :=
  (m.thinkBlocks.lookup j, m.fcNames.lookup j, m.fcIDs.lookup j, m.argsByIndex.lookup j,
    m.textByIndex.lookup j, j ∈ m.blockStarted, j ∈ m.blockStopped)

/-- Only what is kept for one block has changed. -/
structure Elsewhere (index : Int) (m m' : StreamMapper) : Prop where
  kept : ∀ j, j ≠ index → m'.kept j = m.kept j
  rest : m'.id = m.id ∧ m'.it = m.it ∧ m'.cached = m.cached ∧ m'.cacheCreate = m.cacheCreate ∧
    m'.done = m.done

theorem Elsewhere.refl (index : Int) (m : StreamMapper) : Elsewhere index m m :=
  ⟨fun _ _ => rfl, rfl, rfl, rfl, rfl, rfl⟩

theorem Elsewhere.trans {m'' : StreamMapper} (first : Elsewhere index m m')
    (second : Elsewhere index m' m'') : Elsewhere index m m'' where
  kept j other := (second.kept j other).trans (first.kept j other)
  rest := by simp only [second.rest, first.rest, and_self]

variable {j : Int} {b : Block} {ev : Obj}

theorem Elsewhere.viewAt (elsewhere : Elsewhere index m m') (other : j ≠ index) :
    m'.viewAt sealBytes j = m.viewAt sealBytes j := by
  have same := elsewhere.kept j other
  simp only [StreamMapper.kept, Prod.mk.injEq] at same
  simp only [StreamMapper.viewAt, messOutputItem, reasoningItem, thinkID, itemID, same,
    elsewhere.rest]

structure Untouched (m : StreamMapper) (index : Int) : Prop where
  think : m.thinkBlocks.lookup index = none
  names : m.fcNames.lookup index = none
  args : m.argsByIndex.lookup index = none
  texts : m.textByIndex.lookup index = none
  started : index ∉ m.blockStarted
  stopped : index ∉ m.blockStopped

theorem Untouched.elsewhere (untouched : m.Untouched j) (elsewhere : Elsewhere index m m')
    (other : j ≠ index) : m'.Untouched j := by
  have same := elsewhere.kept j other
  simp only [kept, Prod.mk.injEq] at same
  obtain ⟨think, names, args, texts, started, stopped⟩ := untouched
  constructor <;> simpa only [same]

theorem Untouched.messBlockStop (fresh : m.Untouched index) (here : intOr0 ev "index" = index) :
    (m.messBlockStop sealBytes ev).1 = m := by
  subst here
  simp only [StreamMapper.messBlockStop, fresh.stopped, if_false]
  rw [fresh.think]
  simp only [fresh.started, if_false]

/-- A block is under way: `m₀` is the mapper before its start. -/
structure Working (m₀ m : StreamMapper) (index : Int) (d : Draft) : Prop where
  drafted : m.Drafted index d
  elsewhere : Elsewhere index m₀ m
  order : m.blockOrder = m₀.blockOrder ++ [index]
  opened : index ∈ m.blockStarted
  running : index ∉ m.blockStopped
  gate : m.nonThinkSeen = (m₀.nonThinkSeen || !d.isThinking)

theorem messBlockStart_working (fresh : m.Untouched index)
    (gate : b.blank.isThinking = true → m.nonThinkSeen = false) (whole : ∀ data, b ≠ .redacted data)
    (starts : b.Starts index ev) : Working m (m.messBlockStart sealBytes ev).1 index b.blank := by
  obtain ⟨rfl, block, carries, kind⟩ := starts
  cases b with
  | text t =>
    simp only [messBlockStart, carries, kind, textStart, fresh.started, if_false]
    refine ⟨⟨fresh.think, fresh.names, by simp [noteBlock, fresh.texts]⟩, ?_, rfl,
      Finset.mem_insert_self _ _, fresh.stopped, (Bool.or_true _).symm⟩
    constructor <;> simp +contextual [kept, noteBlock]
  | toolUse id name input =>
    simp only [messBlockStart, carries, kind, toolStart, fresh.started, if_false]
    refine ⟨⟨fresh.think, by simp, by simp, by simp [noteBlock, fresh.args]⟩, ?_, rfl,
      Finset.mem_insert_self _ _, fresh.stopped, (Bool.or_true _).symm⟩
    constructor <;> simp +contextual [kept, noteBlock]
  | thinking t signature =>
    simp only [messBlockStart, carries, kind, thinkingStart, fresh.started, gate rfl, or_self,
      if_false, Bool.false_eq_true]
    refine ⟨by simp [Drafted, blank], ?_, rfl, Finset.mem_insert_self _ _, fresh.stopped, (Bool.or_false _).symm⟩
    constructor <;> simp +contextual [kept, noteBlock]
  | redacted data => exact absurd rfl (whole data)

section

variable (working : Working m₀ m index d)

include working

theorem Working.step (drafted : m'.Drafted index d') (elsewhere : Elsewhere index m m')
    (order : m'.blockOrder = m.blockOrder) (started : m'.blockStarted = m.blockStarted)
    (stopped : m'.blockStopped = m.blockStopped)
    (gate : m'.nonThinkSeen = (m.nonThinkSeen || !d.isThinking))
    (same : d'.isThinking = d.isThinking) : Working m₀ m' index d' where
  drafted := drafted
  elsewhere := working.elsewhere.trans elsewhere
  order := order.trans working.order
  opened := started ▸ working.opened
  running := stopped ▸ working.running
  gate := by rw [gate, working.gate, same, Bool.or_assoc, Bool.or_self]

theorem Working.messBlockDelta (grows : Grows index d ev d') :
    Working m₀ (m.messBlockDelta ev).1 index d' := by
  cases grows with
  | text t here carries kind =>
    subst here
    obtain ⟨think, name, rfl⟩ := working.drafted
    simp only [StreamMapper.messBlockDelta, carries, kind, textDelta, working.running, if_false]
    refine working.step ⟨think, name, by simp⟩ ?_ rfl rfl rfl (Bool.or_true _).symm rfl
    constructor <;> simp +contextual [kept]
  | call id name arguments here carries kind =>
    subst here
    obtain ⟨think, names, ids, rfl⟩ := working.drafted
    simp only [StreamMapper.messBlockDelta, carries, kind, argumentsDelta, working.running, if_false]
    refine working.step ⟨think, names, ids, by simp⟩ ?_ rfl rfl rfl (Bool.or_true _).symm rfl
    constructor <;> simp +contextual [kept]
  | thinking t signature here carries kind | signature t signature here carries kind =>
    subst here
    have think : m.thinkBlocks.lookup _ = some _ := working.drafted
    simp only [StreamMapper.messBlockDelta, carries, kind, thinkingDelta, messSignatureDelta, think,
      working.running, if_false]
    refine working.step ?_ ?_ rfl rfl rfl (Bool.or_false _).symm rfl
    · simp [Drafted]
    · constructor <;> simp +contextual [kept]

structure Finished (m₀ m : StreamMapper) (index : Int) (d : Draft) (view : Option ItemView) :
    Prop where
  elsewhere : Elsewhere index m₀ m
  item : m.blockOrder = m₀.blockOrder ++ [index] ∧ m.viewAt sealBytes index = view ∨
    m.blockOrder = m₀.blockOrder ∧ view = none
  gate : m.nonThinkSeen = (m₀.nonThinkSeen || !d.isThinking)

theorem Working.messBlockStop (here : intOr0 ev "index" = index) :
    Finished sealBytes m₀ (m.messBlockStop sealBytes ev).1 index d (d.view sealBytes) := by
  subst here
  have after : (m.messBlockStop sealBytes ev).1 =
      { m with blockStopped := insert (intOr0 ev "index") m.blockStopped } := by
    unfold StreamMapper.messBlockStop
    simp only [working.running, if_false]
    split
    · simp only [working.opened, if_true]
    · rfl
  rw [after]
  refine ⟨working.elsewhere.trans ?_, .inl ⟨working.order, ?_⟩, working.gate⟩
  · constructor <;> simp +contextual [kept]
  · rw [← working.drafted.viewAt sealBytes]
    rfl

end

/-- A redacted block comes as a whole with its start. -/
theorem messBlockStart_redacted {data : String} (fresh : m.Untouched index)
    (gate : m.nonThinkSeen = false) (starts : (redacted data).Starts index ev) {stop : Obj}
    (here : intOr0 stop "index" = index) :
    Finished sealBytes m ((m.messBlockStart sealBytes ev).1.messBlockStop sealBytes stop).1 index
      (redacted data).blank ((redacted data).blank.view sealBytes) := by
  obtain ⟨at', block, carries, kind, rfl⟩ := starts
  subst here
  by_cases lost : sealThinking sealBytes
      { type := "redacted_thinking", data := strOr block "data" } = ""
  · -- a block that cannot be sealed is not even noted
    have start : (m.messBlockStart sealBytes ev).1 = m := by
      simp only [messBlockStart, carries, kind, redactedStart, at', fresh.started, gate, or_self,
        Bool.false_eq_true, if_false, reasoningItem, lost, if_true]
    rw [start, fresh.messBlockStop sealBytes rfl]
    exact ⟨.refl _ m, .inr ⟨rfl, if_pos lost⟩, (Bool.or_false _).symm⟩
  · have start : (m.messBlockStart sealBytes ev).1 =
        { m.noteBlock (intOr0 stop "index") with
          blockStopped := insert (intOr0 stop "index") m.blockStopped
          thinkBlocks := m.thinkBlocks.insert (intOr0 stop "index")
            { type := "redacted_thinking", data := strOr block "data" } } := by
      simp only [messBlockStart, carries, kind, redactedStart, at', fresh.started, gate, or_self,
        Bool.false_eq_true, if_false, reasoningItem, lost, noteBlock]
    rw [start]
    have stopped : ∀ n : StreamMapper, intOr0 stop "index" ∈ n.blockStopped →
        (n.messBlockStop sealBytes stop).1 = n := by
      intro n over'
      simp only [StreamMapper.messBlockStop, over', if_true]
    rw [stopped _ (Finset.mem_insert_self _ _)]
    refine ⟨?_, .inl ⟨rfl, ?_⟩, (Bool.or_false _).symm⟩
    · constructor <;> simp +contextual [kept, noteBlock]
    · apply Drafted.viewAt sealBytes (d := .thinking _)
      simp [Drafted]

end

section

theorem mapAll_append (dir : ProtocolConvert) (m : StreamMapper) (xs ys : List Event) :
    mapAll sealBytes dir m (xs ++ ys) =
      ((mapAll sealBytes dir (mapAll sealBytes dir m xs).1 ys).1, (mapAll sealBytes dir m xs).2 ++
          (mapAll sealBytes dir (mapAll sealBytes dir m xs).1 ys).2) := by
  induction xs generalizing m with
  | nil => rfl
  | cons event xs ih =>
    rw [cons_append, mapAll, mapAll, ih, append_assoc]

theorem mapAll_pings (m : StreamMapper) (events : List Event) :
    mapAll sealBytes .respToMess m events =
      mapAll sealBytes .respToMess m (events.filter fun event => event.1 ≠ "ping") := by
  induction events generalizing m with
  | nil => rfl
  | cons event events ih =>
    by_cases ping : event.1 = "ping"
    · have nothing : m.map sealBytes .respToMess event.1 event.2 = (m, []) := by
        rw [ping]
        simp only [map, eventName, mapNamed, mapMessToResp]
        cases decodeObj event.2 <;> rfl
      rw [filter_cons_of_neg (by simp [ping]), mapAll, nothing]
      exact ih m
    · rw [filter_cons_of_pos (by simp [ping]), mapAll, mapAll, ih]

theorem map_named {event : Event} {name : String} {holds : Obj → Prop}
    (said : Says event name holds) (named : name ≠ "") (m : StreamMapper) :
    ∃ ev, holds ev ∧ m.map sealBytes .respToMess event.1 event.2 =
      m.mapMessToResp sealBytes name ⟨"", some (.obj ev)⟩ := by
  obtain ⟨rfl, ev, decoded, what⟩ := said
  refine ⟨ev, what, ?_⟩
  have same : eventName event.1 event.2 = event.1 := if_neg named
  apply (if_neg (same.symm ▸ named)).trans
  rw [same]
  change m.mapMessToResp sealBytes event.1 event.2 = _
  rw [mapMessToResp, decoded]
  rfl

variable {deltas events : List Event} {b : Block} {views : List ItemView} {ev : Obj}

theorem Working.fills (fills : Fills index d deltas d') (working : Working m₀ m index d) :
    Working m₀ (mapAll sealBytes .respToMess m deltas).1 index d' := by
  induction fills generalizing m with
  | done d => exact working
  | delta grows _ ih =>
    obtain ⟨ev, grows, step⟩ := map_named sealBytes grows (by decide) m
    rw [mapAll, step]
    exact ih (working.messBlockDelta grows)

variable {marshal : Json → String} {bs : List Block}

/-- Thinking after a block of another kind leaves no trace. -/
theorem thinking_gated {start stop : Event} (fresh : m.Untouched index)
    (gate : m.nonThinkSeen = true) (thinks : b.blank.isThinking = true)
    (starts : Says start "content_block_start" (b.Starts index))
    (fills : Fills index b.blank deltas d)
    (stops : Says stop "content_block_stop" fun ev => intOr0 ev "index" = index) :
    (mapAll sealBytes .respToMess m (start :: (deltas ++ [stop]))).1 = m := by
  obtain ⟨ev, ⟨-, block, carries, kind⟩, startStep⟩ := map_named sealBytes starts (by decide) m
  obtain ⟨last, here, stopStep⟩ := map_named sealBytes stops (by decide) m
  have started : (m.messBlockStart sealBytes ev).1 = m := by
    cases b with
    | text | toolUse => cases thinks
    | thinking => simp [messBlockStart, carries, kind, thinkingStart, gate]
    | redacted => simp [messBlockStart, carries, kind, redactedStart, gate]
  have filled : (mapAll sealBytes .respToMess m deltas).1 = m := by
    generalize b.blank = blank at thinks fills
    induction fills with
    | done => rfl
    | delta grows _ ih =>
      obtain ⟨ev, grows, step⟩ := map_named sealBytes grows (by decide) m
      have same : (m.messBlockDelta ev).1 = m := by
        cases grows with
        | text | call => cases thinks
        | thinking _ _ at' carries kind | signature _ _ at' carries kind =>
          subst at'
          simp only [StreamMapper.messBlockDelta, carries, kind, thinkingDelta, messSignatureDelta]
          rw [fresh.think]
      rw [mapAll, step]
      simp only [mapMessToResp, decodeObj, ofName, same]
      refine ih ?_
      cases grows with
      | text | call => cases thinks
      | thinking | signature => rfl
  simp only [mapMessToResp, decodeObj, ofName] at startStep stopStep
  simp [mapAll, mapAll_append, startStep, started, filled, stopStep,
    fresh.messBlockStop sealBytes here]

/-- A block has come and gone; thinking is not shown after a block of another kind. -/
theorem block_finished {start stop : Event} (fresh : m.Untouched index)
    (starts : Says start "content_block_start" (b.Starts index))
    (fills : Fills index b.blank deltas d) (same : d.isThinking = b.blank.isThinking)
    (stops : Says stop "content_block_stop" fun ev => intOr0 ev "index" = index) :
    Finished sealBytes m (mapAll sealBytes .respToMess m (start :: (deltas ++ [stop]))).1 index d
      (if m.nonThinkSeen && d.isThinking then none else d.view sealBytes) := by
  by_cases gated : (m.nonThinkSeen && d.isThinking) = true
  · rw [if_pos gated]
    obtain ⟨gate, thinks⟩ := Bool.and_eq_true_iff.mp gated
    rw [thinking_gated sealBytes fresh gate (same ▸ thinks) starts fills stops]
    exact ⟨.refl _ m, .inr ⟨rfl, rfl⟩, by rw [thinks, gate]; rfl⟩
  rw [if_neg gated]
  have gate : b.blank.isThinking = true → m.nonThinkSeen = false := fun thinks => by
    simpa [same, thinks] using gated
  obtain ⟨ev, startsHere, startStep⟩ := map_named sealBytes starts (by decide) m
  rw [mapAll, startStep, mapAll_append]
  obtain ⟨last, here, stopStep⟩ := map_named sealBytes stops (by decide)
    (mapAll sealBytes .respToMess (m.messBlockStart sealBytes ev).1 deltas).1
  simp only [mapAll, mapMessToResp, decodeObj, ofName] at stopStep ⊢
  rw [stopStep]
  by_cases whole : ∀ data, b ≠ .redacted data
  · have working := messBlockStart_working sealBytes fresh gate whole startsHere
    exact (working.fills sealBytes fills).messBlockStop sealBytes here
  · obtain ⟨data, rfl⟩ : ∃ data, b = .redacted data := by simpa using whole
    cases fills with
    | done => exact messBlockStart_redacted sealBytes fresh (gate rfl) startsHere here
    | delta grows =>
      obtain ⟨-, ev, -, grows⟩ := grows
      exact absurd grows.type_eq (by simp)

/-- The blocks before an index have come. -/
structure Gathers (m : StreamMapper) (index : Int) (views : List ItemView) : Prop where
  fresh : ∀ j, index ≤ j → m.Untouched j
  below : ∀ i ∈ m.blockOrder, i < index
  views : m.blockOrder.filterMap (m.viewAt sealBytes) = views

theorem Gathers.block {view : Option ItemView} (gathers : Gathers sealBytes m index views)
    (finished : Finished sealBytes m m' index d view) :
    Gathers sealBytes m' (index + 1) (views ++ view.toList) := by
  have kept : m.blockOrder.filterMap (m'.viewAt sealBytes) = views := by
    rw [← gathers.views]
    refine filterMap_congr fun i member => ?_
    exact finished.elsewhere.viewAt sealBytes (Int.ne_of_lt (gathers.below i member))
  have below : ∀ i ∈ m.blockOrder, i < index + 1 := fun i member =>
    (gathers.below i member).trans (Int.lt_succ _)
  refine ⟨fun j later => ?_, ?_, ?_⟩
  · exact (gathers.fresh j (by omega)).elsewhere finished.elsewhere (by omega)
  · rcases finished.item with ⟨order, -⟩ | ⟨order, -⟩
    · rw [order]
      exact forall_mem_append.mpr ⟨below, forall_mem_singleton.mpr (Int.lt_succ _)⟩
    · rwa [order]
  · rcases finished.item with ⟨order, seen⟩ | ⟨order, none⟩
    · rw [order, filterMap_append, kept]
      cases view <;> simp [seen]
    · rw [order, kept, none]
      simp

theorem Gathers.blocks {ds : List Draft} (stream : BlockEvents index bs ds events)
    (gathers : Gathers sealBytes m index views) :
    (∃ next, Gathers sealBytes (mapAll sealBytes .respToMess m events).1 next
      (views ++ streamViews sealBytes m.nonThinkSeen ds)) ∧
      (mapAll sealBytes .respToMess m events).1.it = m.it ∧
      (mapAll sealBytes .respToMess m events).1.cached = m.cached ∧
      (mapAll sealBytes .respToMess m events).1.cacheCreate = m.cacheCreate ∧
      (mapAll sealBytes .respToMess m events).1.done = m.done := by
  induction stream generalizing m views with
  | nil index => exact ⟨⟨index, by simpa [streamViews, mapAll] using gathers⟩, rfl, rfl, rfl, rfl⟩
  | @block index b bs d ds start stop deltas rest starts fills alike stops _ ih =>
    have kind : d.isThinking = b.blank.isThinking := by
      rw [alike.isThinking_eq]
      cases b <;> rfl
    have finished := block_finished sealBytes (gathers.fresh index (Int.le_refl _)) starts
      fills kind stops
    have split : start :: (deltas ++ stop :: rest) = (start :: (deltas ++ [stop])) ++ rest := by simp
    rw [split, mapAll_append]
    obtain ⟨⟨next, more⟩, it, cached, create, done⟩ := ih (gathers.block sealBytes finished)
    obtain ⟨-, it', cached', create', done'⟩ := finished.elsewhere.rest
    refine ⟨⟨next, ?_⟩, it.trans it', cached.trans cached', create.trans create', done.trans done'⟩
    rw [finished.gate, append_assoc] at more
    have shown : streamViews sealBytes m.nonThinkSeen (d :: ds) =
        (if m.nonThinkSeen && d.isThinking then none else d.view sealBytes).toList ++
          streamViews sealBytes (m.nonThinkSeen || !d.isThinking) ds := by
      rw [streamViews]
      split
      next gated => rw [(Bool.and_eq_true_iff.mp gated).1]; rfl
      · rfl
    rwa [shown]

theorem messStart_gathers {msg u : Obj} (carries : object ev "message" = some msg)
    (usage : object msg "usage" = some u) :
    Gathers sealBytes (messStart {} ev).1 0 [] ∧ (messStart {} ev).1.nonThinkSeen = false ∧
      (messStart {} ev).1.done = false ∧ (messStart {} ev).1.it = intOr0 u "input_tokens" ∧
      (messStart {} ev).1.cached = intOr0 u "cache_read_input_tokens" ∧
      (messStart {} ev).1.cacheCreate = intOr0 u "cache_creation_input_tokens" := by
  have after : (messStart {} ev).1 =
      ({ started := true, id := strOr msg "id", model := strOr msg "model" } :
        StreamMapper).setMessUsage u := by
    simp [messStart, takeStart, carries, usage]
  rw [after]
  refine ⟨⟨fun j _ => ?_, (fun i member => nomatch member), rfl⟩, rfl, rfl, rfl, rfl, rfl⟩
  constructor <;> simp [setMessUsage]

theorem finalResponse_view (m : StreamMapper) :
    responseView (m.finalResponse sealBytes) =
      { output := m.blockOrder.filterMap (m.viewAt sealBytes)
        status := some (respStatusFromMessStop m.reason).1
        details := (respStatusFromMessStop m.reason).2.map .obj
        usage := some (.obj (respUsage m.messInputTotal m.ot m.cached m.cacheCreate)) } := by
  have items : (m.messOutputItems sealBytes).map itemView =
      m.blockOrder.filterMap (m.viewAt sealBytes) := by
    rw [messOutputItems, map_filterMap]
    refine filterMap_congr fun i _ => ?_
    rw [StreamMapper.viewAt, Option.map_map]
    rfl
  rw [finalResponse, responseView_withDetails, items]

theorem messDelta_settles {w d : Obj} (counts : object ev "usage" = some w)
    (carries : object ev "delta" = some d) :
    (m.messDelta ev).1 =
      { { m with ot := intOr0 w "output_tokens" }.mergeMessUsage w with
        reason := strOr d "stop_reason" } := by
  simp only [messDelta, carries, takeUsage, counts]

theorem streams_response {M : Message} {ds : List Draft} (stream : Streams M ds events) :
    ∃ response,
      (mapAll sealBytes .respToMess {} events).2.getLast? = some (responseCompleted response) ∧
      responseView response = M.view (streamViews sealBytes false ds) := by
  obtain ⟨start, blocks, delta, stop, whole, enclosed, blockEvents⟩ := stream
  obtain ⟨u, w, starts, deltas, input, read, create, output⟩ := enclosed.usage
  obtain ⟨ev, ⟨msg, carries, usage⟩, startStep⟩ := map_named sealBytes starts (by decide) {}
  obtain ⟨gathers, seen, done, it, cached, cacheCreate⟩ :=
    messStart_gathers sealBytes carries usage
  obtain ⟨⟨next, gathered⟩, it', cached', cacheCreate', done'⟩ :=
    gathers.blocks sealBytes blockEvents
  rw [mapAll_pings, whole, mapAll, startStep, mapAll_append]
  simp only [mapMessToResp, decodeObj, ofName]
  generalize (mapAll sealBytes .respToMess (messStart {} ev).1 blocks).1 = n at *
  obtain ⟨dev, ⟨counts, d, carries', reason⟩, deltaStep⟩ :=
    map_named sealBytes deltas (by decide) n
  obtain ⟨_, -, stopStep⟩ := map_named sealBytes enclosed.stop (by decide) (n.messDelta dev).1
  simp only [mapMessToResp, decodeObj, ofName] at deltaStep stopStep
  simp only [mapAll, deltaStep, stopStep]
  have after := messDelta_settles (m := n) counts carries'
  have going : (n.messDelta dev).1.done = false := by
    rw [after]
    exact done'.trans done
  have stopped : ((n.messDelta dev).1.messStop sealBytes).2 =
      [responseCompleted ({ (n.messDelta dev).1 with done := true }.finalResponse sealBytes)] := by
    rw [messStop, if_neg (by simp [going])]
  refine ⟨{ (n.messDelta dev).1 with done := true }.finalResponse sealBytes, ?_, ?_⟩
  · rw [stopped]
    simp
  have views : n.blockOrder.filterMap (n.viewAt sealBytes) = streamViews sealBytes false ds := by
    rw [gathered.views, seen, nil_append]
  rw [finalResponse_view, Message.view, after, ← views, ← reason, ← input, ← read, ← create, ← output]
  simp only [messInputTotal, mergeMessUsage, settled, it', cached', cacheCreate', it, cached,
    cacheCreate]
  rfl

end

/-- A message has the same response as a stream and as a whole exactly when its blocks are
arranged and its calls are streamed as the encoder writes them. -/
theorem stream_agrees (sealBytes : Envelope → String) (marshal : Json → String) (M : Message)
    (body : Data) (msg : Obj) (holds : decodeObj body = some msg) (reads : M.Reads msg)
    (ds : List Draft) (events : List Event) (stream : Streams M ds events) :
    (∃ streamed whole,
      (mapAll sealBytes .respToMess {} events).2.getLast? = some (responseCompleted streamed) ∧
      messToRespResponse sealBytes marshal body = some whole ∧
      responseView streamed = responseView whole) ↔
    Arranged sealBytes (M.blocks.map (full marshal)) ∧ ds = M.blocks.map (full marshal) := by
  obtain ⟨streamed, last, view⟩ := streams_response sealBytes stream
  obtain ⟨whole, converted, wholeView⟩ := Option.map_eq_some_iff.mp
    (@messToRespResponse_view sealBytes marshal M msg body holds reads)
  obtain ⟨_, _, _, _, -, -, blockEvents⟩ := stream
  rw [← views_agree (blockEvents.alike marshal)]
  constructor
  · rintro ⟨streamed', whole', last', converted', same⟩
    obtain rfl : streamed = streamed' := by
      simpa [responseCompleted, encodeFrame] using last.symm.trans last'
    obtain rfl : whole = whole' := Option.some.inj (converted.symm.trans converted')
    rw [view, wholeView] at same
    exact congrArg ResponseView.output same
  · intro same
    exact ⟨streamed, whole, last, converted, by rw [view, wholeView, same]⟩

def eventOf (name : String) (members : Obj) : Event := (name, ⟨"", some (.obj members)⟩)

def sampleUsage : Obj := [("input_tokens", .int 3), ("output_tokens", .int 5)]

def sampleText : Obj := [("type", .str "text"), ("text", .str "hi")]

def sampleCall : Obj :=
  [("type", .str "tool_use"), ("id", .str "call_1"), ("name", .str "f"), ("input", .obj [])]

def sampleBody (content : List Obj) : Obj :=
  [("content", .arr (content.map .obj)), ("stop_reason", .str "tool_use"),
    ("usage", .obj sampleUsage)]

def sampleTextDelta : Obj := [("type", .str "text_delta"), ("text", .str "hi")]

def sampleCallDelta : Obj :=
  [("type", .str "input_json_delta"), ("partial_json", .str "\x7b\x7d")]

def textEvents (index : Int) : List Event :=
  [eventOf "content_block_start"
      [("index", .int index), ("content_block", .obj [("type", .str "text"), ("text", .str "")])],
    eventOf "content_block_delta" [("index", .int index), ("delta", .obj sampleTextDelta)],
    eventOf "content_block_stop" [("index", .int index)]]

def callEvents (index : Int) : List Event :=
  [eventOf "content_block_start" [("index", .int index), ("content_block", .obj sampleCall)],
    eventOf "content_block_delta" [("index", .int index), ("delta", .obj sampleCallDelta)],
    eventOf "content_block_stop" [("index", .int index)]]

def sampleStart : Event := eventOf "message_start" [("message", .obj [("usage", .obj sampleUsage)])]

def sampleDelta : Event :=
  eventOf "message_delta"
    [("delta", .obj [("stop_reason", .str "tool_use")]), ("usage", .obj sampleUsage)]

def sampleEvents (blocks : List Event) : List Event :=
  sampleStart :: (blocks ++ [sampleDelta, eventOf "message_stop" []])

def sampleMessage (blocks : List Block) : Message := ⟨blocks, "tool_use", ⟨3, 0, 0, 5⟩⟩

def sampleMarshal (_ : Json) : String := "\x7b\x7d"

theorem sample_reads_text : (text "hi").Reads (.obj sampleText) :=
  ⟨sampleText, rfl, rfl, rfl⟩

theorem sample_reads_call : (toolUse "call_1" "f" (.obj [])).Reads (.obj sampleCall) :=
  ⟨sampleCall, rfl, rfl, rfl, rfl, rfl⟩

theorem sample_counts :
    intOr0 sampleUsage "input_tokens" = 3 ∧ intOr0 sampleUsage "cache_read_input_tokens" = 0 ∧
      intOr0 sampleUsage "cache_creation_input_tokens" = 0 ∧
      intOr0 sampleUsage "output_tokens" = 5 := by
  decide +kernel

theorem sample_reads {blocks : List Block} {content : List Obj}
    (reads : List.Forall₂ Block.Reads blocks (content.map .obj)) :
    (sampleMessage blocks).Reads (sampleBody content) :=
  ⟨⟨_, rfl, reads⟩, rfl, sampleUsage, rfl, sample_counts⟩

theorem sample_enclosed (blocks : List Block) :
    Enclosed (sampleMessage blocks) sampleStart sampleDelta (eventOf "message_stop" []) where
  usage := ⟨sampleUsage, sampleUsage, ⟨rfl, _, rfl, _, rfl, rfl⟩, ⟨rfl, _, rfl, rfl, _, rfl, rfl⟩,
    sample_counts⟩
  stop := ⟨rfl, _, rfl, trivial⟩

section

variable (counts : intOr0 [("index", .int index)] "index" = index)
variable {bs : List Block} {rest : List Event}
  {ds : List Draft} (more : BlockEvents (index + 1) bs ds rest)

include counts more

theorem sample_textEvents :
    BlockEvents index (.text "hi" :: bs) (.text "hi" :: ds) (textEvents index ++ rest) := by
  refine .block ?_ (.delta ?_ (.done _)) (.same _) ?_ more
  · exact ⟨rfl, _, rfl, counts, _, rfl, rfl, rfl⟩
  · exact ⟨rfl, _, rfl, @Grows.text index _ sampleTextDelta "" counts rfl rfl⟩
  · exact ⟨rfl, _, rfl, counts⟩

theorem sample_callEvents :
    BlockEvents index (.toolUse "call_1" "f" (.obj []) :: bs)
      (.call "call_1" "f" "\x7b\x7d" :: ds) (callEvents index ++ rest) := by
  refine .block ?_ (.delta ?_ (.done _)) (.call ..) ?_ more
  · exact ⟨rfl, _, rfl, counts, _, rfl, rfl, rfl, rfl⟩
  · exact ⟨rfl, _, rfl, @Grows.call index _ sampleCallDelta "call_1" "f" "" counts rfl rfl⟩
  · exact ⟨rfl, _, rfl, counts⟩

end

theorem sample_streams {blocks : List Block} {ds : List Draft} {events : List Event}
    (stream : BlockEvents 0 blocks ds events) (quiet : ∀ event ∈ events, event.1 ≠ "ping") :
    Streams (sampleMessage blocks) ds (sampleEvents events) := by
  refine ⟨_, events, _, _, filter_eq_self.mpr fun event member => ?_, sample_enclosed blocks,
    stream⟩
  simp only [sampleEvents, mem_cons, mem_append, not_mem_nil, or_false] at member
  rcases member with rfl | inside | rfl | rfl
  · rfl
  · exact decide_eq_true (quiet event inside)
  · rfl
  · rfl

theorem stream_agrees_sample :
    ∃ streamed whole,
      (mapAll (fun _ => "") .respToMess {} (sampleEvents (textEvents 0 ++ (callEvents 1 ++ [])))).2.getLast?
        = some (responseCompleted streamed) ∧ messToRespResponse (fun _ => "") sampleMarshal
        ⟨"", some (.obj (sampleBody [sampleText, sampleCall]))⟩ = some whole ∧
      responseView streamed = responseView whole := by
  have reads : (sampleMessage [.text "hi", .toolUse "call_1" "f" (.obj [])]).Reads
      (sampleBody [sampleText, sampleCall]) :=
    sample_reads (.cons sample_reads_text (.cons sample_reads_call .nil))
  refine (stream_agrees _ _ _ _ _ rfl reads _ _
    (sample_streams (sample_textEvents (by decide +kernel)
      (sample_callEvents (by decide +kernel) (.nil _))) (by decide +kernel))).mpr ⟨?_, rfl⟩
  exact forall_mem_singleton.mpr (.inl rfl)

def responseOf (f : Frame) : Option Obj :=
  match f.data with
  | .json value => value.obj?.bind fun o => object o "response"
  | _ => none

/-- With the call before the text, the stream keeps that order and the whole message does not. -/
theorem call_before_text_differs :
    (sampleMessage [.toolUse "call_1" "f" (.obj []), .text "hi"]).Reads
        (sampleBody [sampleCall, sampleText]) ∧
      Streams (sampleMessage [.toolUse "call_1" "f" (.obj []), .text "hi"])
        [.call "call_1" "f" "\x7b\x7d", .text "hi"]
        (sampleEvents (callEvents 0 ++ (textEvents 1 ++ []))) ∧
      (((mapAll (fun _ => "") .respToMess {}
            (sampleEvents (callEvents 0 ++ (textEvents 1 ++ [])))).2.getLast?.bind responseOf).map
          fun response => (responseView response).output.map ItemView.type) =
        some [some "function_call", some "message"] ∧
      ((messToRespResponse (fun _ => "") sampleMarshal
            ⟨"", some (.obj (sampleBody [sampleCall, sampleText]))⟩).map
          fun response => (responseView response).output.map ItemView.type) =
        some [some "message", some "function_call"] := by
  refine ⟨sample_reads (.cons sample_reads_call (.cons sample_reads_text .nil)),
    sample_streams (sample_callEvents (by decide +kernel)
      (sample_textEvents (by decide +kernel) (.nil _))) (by decide +kernel), ?_, ?_⟩
  · decide +kernel
  · decide +kernel

end StreamMapper

end C3Api.Protoconv
