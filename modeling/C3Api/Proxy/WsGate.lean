import C3Api.Interleaving.History
import C3Api.Proxy.WsRelay

/-!
# Acknowledge before visible

The continuation gate of `relayWS` in `proxy/ws_relay.go`: a frame that shows a response
id to the client waits for the bind of that id. The events of a session are its binds and
the frames it hands to the client, in their order.
-/

namespace C3Api.Proxy

open History List Option UpFrame UpState

variable (cfg : RelayConfig)

def UpFrame.shown (f : UpFrame) : Bool × Bytes :=
  (f.text, if f.text && cfg.respModel != "" then cfg.rewriteResponseModelJSON f.data cfg.respModel
    else f.data)

def shownID (frame : Bool × Bytes) : String := cfg.contFrameID frame.2

abbrev UpFrame.id (f : UpFrame) : String := shownID cfg (f.shown cfg)

inductive RelayEvent where
  | bind (id : String) (ok : Bool)
  | forward (frame : Bool × Bytes)
  deriving DecidableEq

/-- The id that a frame makes the gate bind: a first one, or one other than the last. -/
def boundID (st : UpState) (f : UpFrame) : Option String :=
  if f.id cfg = "" ∨ (st.contAcked = true ∧ f.id cfg = st.contLastID) then none else some (f.id cfg)

def stepEvents (st : UpState) (f : UpFrame) : List RelayEvent :=
  ((boundID cfg st f).map fun id => .bind id f.bind.isNone).toList ++
    ((upStep cfg st f).1.sent.drop st.sent.length).map .forward

def loopEvents (cfg : RelayConfig) : UpState → List UpFrame → List RelayEvent
  | _, [] => []
  | st, f :: rest =>
    let next := upStep cfg st f
    stepEvents cfg st f ++ if next.2 then loopEvents cfg next.1 rest else []

/-- The frames still held when the upstream ends without a response id, of which the first
`written` reach the client. -/
def Session.released (s : Session) (written : Nat) : List (Bool × Bytes) :=
  let st := s.final cfg
  if st.contFail.isNone && !st.contAcked then st.contPending.take written else []

def Session.events (s : Session) (written : Nat) : List RelayEvent :=
  loopEvents cfg {} s.frames ++ (s.released cfg written).map .forward

def forwards : List RelayEvent → List (Bool × Bytes) :=
  List.filterMap fun
    | .forward frame => some frame
    | .bind _ _ => none

def heldBytes (frames : List (Bool × Bytes)) : Nat := (frames.map fun frame => frame.2.length).sum

/-- The part of the loop's state that the gate reads and writes. -/
structure GateState where
  acked : Bool := false
  lastID : String := ""
  pending : List (Bool × Bytes) := []
  pendingN : Nat := 0
  fail : Option FormatError := none
  sent : List (Bool × Bytes) := []

def UpState.gateState (st : UpState) : GateState where
  acked := st.contAcked
  lastID := st.contLastID
  pending := st.contPending
  pendingN := st.contPendingN
  fail := st.contFail
  sent := st.sent

variable (g : GateState) (f : UpFrame) in
/-- What a frame does at the gate, whether the loop goes on behind it, and the events. -/
inductive GateStep : GateState → Bool → List RelayEvent → Prop
  | hold : g.acked = false → f.id cfg = "" → g.pendingN + (f.shown cfg).2.length ≤ contMaxBuffer →
      GateStep
        { g with
          pending := g.pending ++ [f.shown cfg]
          pendingN := g.pendingN + (f.shown cfg).2.length } true []
  | overflow {fail : Option FormatError} {pendingN : Nat} : g.acked = false → f.id cfg = "" →
      contMaxBuffer < g.pendingN + (f.shown cfg).2.length → fail ≠ none →
      GateStep { g with pendingN, fail } false []
  | refused {fail : Option FormatError} : f.id cfg ≠ "" → (g.acked = true → f.id cfg ≠ g.lastID) →
      f.bind ≠ none → fail ≠ none → GateStep { g with fail } false [.bind (f.id cfg) false]
  | opened {ws pending : List (Bool × Bytes)} {pendingN : Nat} {more : Bool} :
      g.acked = false → f.id cfg ≠ "" → f.bind = none → ws <+: g.pending ++ [f.shown cfg] →
      (pending = [] ∨ (pending = g.pending ∧ more = false)) →
      GateStep
        { g with
          acked := true
          lastID := f.id cfg
          pending
          pendingN
          sent := g.sent ++ ws } more
        (.bind (f.id cfg) true :: ws.map .forward)
  | rebound {ws : List (Bool × Bytes)} {more : Bool} : g.acked = true → f.id cfg ≠ "" →
      f.bind = none → ws <+: [f.shown cfg] →
      GateStep { g with lastID := f.id cfg, sent := g.sent ++ ws } more
        (.bind (f.id cfg) true :: ws.map .forward)
  | passed {ws : List (Bool × Bytes)} {more : Bool} : g.acked = true →
      (f.id cfg = "" ∨ f.id cfg = g.lastID) → ws <+: [f.shown cfg] →
      GateStep { g with sent := g.sent ++ ws } more (ws.map .forward)

theorem sniff_gateState (st : UpState) (data : Bytes) :
    (st.sniff cfg data).gateState = st.gateState := by
  unfold sniff
  split <;> rfl

theorem write_forwards (st : UpState) (f : UpFrame) :
    ∃ ws, ws <+: [f.shown cfg] ∧
      (st.write f (f.shown cfg).2).1 = { st with sent := st.sent ++ ws } := by
  unfold write
  split
  · exact ⟨[], nil_prefix, by rw [append_nil]⟩
  · exact ⟨[f.shown cfg], prefix_rfl, rfl⟩

theorem release_forwards (st : UpState) (f : UpFrame) :
    ∃ ws pending pendingN, ws <+: st.contPending ++ [f.shown cfg] ∧
      (pending = [] ∨
        (pending = st.contPending ∧ (st.release f (f.shown cfg).2).2 = false)) ∧
      (st.release f (f.shown cfg).2).1 =
        { st with sent := st.sent ++ ws, contPending := pending, contPendingN := pendingN } := by
  unfold release
  split
  next n _ =>
    exact ⟨st.contPending.take n, st.contPending, st.contPendingN,
      (List.take_prefix _ _).trans (prefix_append _ _), Or.inr ⟨rfl, rfl⟩, rfl⟩
  · obtain ⟨ws, written, same⟩ := write_forwards cfg
      { st with sent := st.sent ++ st.contPending, contPending := [], contPendingN := 0 } f
    refine ⟨st.contPending ++ ws, [], 0, (prefix_append_right_inj _).mpr written, Or.inl rfl, ?_⟩
    rw [same, append_assoc]

variable {cfg}

/-- The binds and writes of the gate on a state that has been sniffed. -/
theorem gate_gateStep (st : UpState) (f : UpFrame) :
    ∃ events, GateStep cfg st.gateState f (st.gate cfg f (f.shown cfg).2).1.gateState
        (st.gate cfg f (f.shown cfg).2).2 events ∧
      events = ((boundID cfg st f).map fun id => RelayEvent.bind id f.bind.isNone).toList ++
        ((st.gate cfg f (f.shown cfg).2).1.sent.drop st.sent.length).map .forward := by
  have id : f.id cfg = cfg.contFrameID (f.shown cfg).2 := rfl
  unfold gate boundID
  dsimp only
  rw [id]
  by_cases acked : st.contAcked = true
  · rw [if_neg (by simp [acked])]
    by_cases new : cfg.contFrameID (f.shown cfg).2 ≠ "" ∧
        cfg.contFrameID (f.shown cfg).2 ≠ st.contLastID
    · rw [if_pos new, if_neg (by tauto)]
      cases answer : f.bind with
      | some ferr =>
        exact ⟨_, .refused new.1 (fun _ => new.2) (by simp [answer]) (some_ne_none ferr), by simp [id]⟩
      | none =>
        obtain ⟨ws, written, same⟩ := write_forwards cfg
          { st with contLastID := cfg.contFrameID (f.shown cfg).2 } f
        rw [same]
        exact ⟨_, .rebound acked new.1 answer written, by simp [id]⟩
    · rw [if_neg new, if_pos (by tauto)]
      obtain ⟨ws, written, same⟩ := write_forwards cfg st f
      rw [same]
      exact ⟨_, .passed acked (by tauto) written, by simp⟩
  · rw [if_pos (by simp [acked])]
    have closed : st.contAcked = false := Bool.eq_false_of_not_eq_true acked
    by_cases none : cfg.contFrameID (f.shown cfg).2 = ""
    · rw [if_pos none, if_pos (Or.inl none)]
      split
      next full => exact ⟨_, .overflow closed none full (some_ne_none _), by simp⟩
      next fits => exact ⟨_, .hold closed none (Nat.not_lt.mp fits), by simp⟩
    · rw [if_neg none, if_neg (by simp [none, closed])]
      cases answer : f.bind with
      | some ferr =>
        exact ⟨_, .refused none (fun opened => absurd opened acked) (by simp [answer]) (some_ne_none ferr),
          by simp [id]⟩
      | none =>
        obtain ⟨ws, pending, pendingN, written, cleared, same⟩ := release_forwards cfg
          { st with contAcked := true, contLastID := cfg.contFrameID (f.shown cfg).2 } f
        rw [same]
        exact ⟨_, .opened closed none answer written cleared, by simp [id]⟩

theorem upStep_gateStep (gated : cfg.gated = true) (st : UpState) (f : UpFrame) :
    GateStep cfg st.gateState f (upStep cfg st f).1.gateState (upStep cfg st f).2
      (stepEvents cfg st f) := by
  let sniffed : UpState :=
    { st.sniff cfg f.data with ttft := some ((st.sniff cfg f.data).ttft.getD f.elapsed) }
  have same : sniffed.gateState = st.gateState := sniff_gateState cfg st f.data
  have next : upStep cfg st f = sniffed.gate cfg f (f.shown cfg).2 := if_pos gated
  obtain ⟨events, step, listed⟩ := gate_gateStep sniffed f
  have sent : sniffed.sent = st.sent := congrArg GateState.sent same
  have bound : boundID cfg sniffed f = boundID cfg st f := by
    unfold boundID
    rw [show sniffed.contAcked = st.contAcked from congrArg GateState.acked same,
      show sniffed.contLastID = st.contLastID from congrArg GateState.lastID same]
  rw [bound, sent] at listed
  unfold stepEvents
  rw [next, ← listed, ← same]
  exact step

def Acknowledged (cfg : RelayConfig) (before : List RelayEvent) (event : RelayEvent) : Prop :=
  ∀ frame, event = .forward frame → shownID cfg frame ≠ "" →
    .bind (shownID cfg frame) true ∈ before

/-- Nothing comes behind a bind that failed. -/
def Unrefused (before : List RelayEvent) (_ : RelayEvent) : Prop := ∀ id, .bind id false ∉ before

section

variable {events : List RelayEvent} {sent ws : List (Bool × Bytes)}

@[simp] theorem forwards_append (left right : List RelayEvent) :
    forwards (left ++ right) = forwards left ++ forwards right := filterMap_append

@[simp] theorem forwards_bind (id : String) (ok : Bool) : forwards [.bind id ok] = [] := rfl

@[simp] theorem forwards_map (ws : List (Bool × Bytes)) : forwards (ws.map .forward) = ws := by
  induction ws with
  | nil => rfl
  | cons frame ws ih => exact congrArg (frame :: ·) ih

structure Clean (cfg : RelayConfig) (events : List RelayEvent) (sent : List (Bool × Bytes)) :
    Prop where
  acknowledged : Always (Acknowledged cfg) events
  unrefused : ∀ id, .bind id false ∉ events
  forwarded : forwards events = sent

theorem acknowledged_bind (before : List RelayEvent) (id : String) (ok : Bool) :
    Acknowledged cfg before (.bind id ok) := nofun

variable (clean : Clean cfg events sent)

include clean

theorem Clean.bind (id : String) : Clean cfg (events ++ [.bind id true]) sent := by
  refine ⟨clean.acknowledged.snoc (acknowledged_bind _ id true), ?_, ?_⟩
  · intro id' mem
    rcases mem_append.mp mem with old | new
    · exact clean.unrefused id' old
    · cases mem_singleton.mp new
  · rw [forwards_append, clean.forwarded, forwards_bind, append_nil]

theorem Clean.forward
    (bound : ∀ frame ∈ ws, shownID cfg frame ≠ "" → .bind (shownID cfg frame) true ∈ events) :
    Clean cfg (events ++ ws.map .forward) (sent ++ ws) := by
  refine ⟨clean.acknowledged.append ?_, ?_, ?_⟩
  · intro front event early frame same visible
    have member : event ∈ ws.map .forward :=
      early.subset (mem_append_right _ mem_cons_self)
    obtain ⟨own, listed, rfl⟩ := mem_map.mp member
    cases same
    exact mem_append_left _ (bound frame listed visible)
  · intro id mem
    rcases mem_append.mp mem with old | new
    · exact clean.unrefused id old
    · obtain ⟨_, -, same⟩ := mem_map.mp new
      cases same
  · rw [forwards_append, clean.forwarded, forwards_map]

theorem Clean.bind_forward {id : String}
    (shown : ∀ frame ∈ ws, shownID cfg frame = "" ∨ shownID cfg frame = id) :
    Clean cfg (events ++ .bind id true :: ws.map .forward) (sent ++ ws) := by
  rw [append_cons]
  refine (clean.bind id).forward fun frame mem visible => ?_
  rw [(shown frame mem).resolve_left visible]
  exact mem_append_right _ mem_cons_self

theorem Clean.always_unrefused : Always Unrefused events := by
  intro before event after split id mem
  exact clean.unrefused id (split ▸ mem_append_left _ mem)

end

variable {read : List UpFrame} {g : GateState} {more : Bool}

section

variable {g' : GateState} {f : UpFrame} {events evs : List RelayEvent}

/-- What holds at the gate after the frames read so far. A failed bind is the last event. -/
structure Guarded (cfg : RelayConfig) (read : List UpFrame) (g : GateState) (more : Bool)
    (events : List RelayEvent) : Prop where
  log : Clean cfg events g.sent ∨ (g.fail ≠ none ∧ more = false ∧
    ∃ clean id, events = clean ++ [.bind id false] ∧ Clean cfg clean g.sent)
  ordered : g.sent.Sublist (read.map (shown cfg))
  waiting : g.acked = false → g.sent = [] ∧ g.pending.Sublist (read.map (shown cfg))
  idless : ∀ frame ∈ g.pending, shownID cfg frame = ""
  bounded : heldBytes g.pending ≤ contMaxBuffer
  bound : g.acked = true → .bind g.lastID true ∈ events
  going : more = true → g.fail = none ∧ (g.acked = false → heldBytes g.pending = g.pendingN)

theorem Guarded.clean (guarded : Guarded cfg read g true events) : Clean cfg events g.sent := by
  rcases guarded.log with clean | ⟨-, stopped, -⟩
  · exact clean
  · cases stopped

theorem guarded_start (cfg : RelayConfig) : Guarded cfg [] ({} : UpState).gateState true [] where
  log := Or.inl ⟨always_nil, nofun, rfl⟩
  ordered := List.Sublist.refl _
  waiting _ := ⟨rfl, List.Sublist.refl _⟩
  idless _ mem := nomatch mem
  bounded := Nat.zero_le _
  bound acked := nomatch acked
  going _ := ⟨rfl, fun _ => rfl⟩

theorem sublist_read (cfg : RelayConfig) {frames ws : List (Bool × Bytes)} {read : List UpFrame}
    (early : frames.Sublist (read.map (shown cfg))) {f : UpFrame}
    (last : ws.Sublist [f.shown cfg]) :
    (frames ++ ws).Sublist ((read ++ [f]).map (shown cfg)) := by
  rw [map_append]
  exact early.append last

theorem Guarded.longer (guarded : Guarded cfg read g more events) (rest : List UpFrame) :
    Guarded cfg (read ++ rest) g more events := by
  have grown {frames : List (Bool × Bytes)} (early : frames.Sublist (read.map (shown cfg))) :
      frames.Sublist ((read ++ rest).map (shown cfg)) := by
    rw [map_append]
    exact early.trans (sublist_append_left _ _)
  exact
    { guarded with
      ordered := grown guarded.ordered
      waiting := fun closed => (guarded.waiting closed).imp_right grown }

section

variable (guarded : Guarded cfg read g true events)

include guarded

theorem Guarded.hold (closed : g.acked = false) (id : f.id cfg = "")
    (fits : g.pendingN + (f.shown cfg).2.length ≤ contMaxBuffer) :
    Guarded cfg (read ++ [f])
      { g with
        pending := g.pending ++ [f.shown cfg]
        pendingN := g.pendingN + (f.shown cfg).2.length } true events := by
  obtain ⟨nothing, held⟩ := guarded.waiting closed
  obtain ⟨running, counted⟩ := guarded.going rfl
  have bytes : heldBytes (g.pending ++ [f.shown cfg]) = g.pendingN + (f.shown cfg).2.length := by
    rw [← counted closed]
    simp [heldBytes]
  exact
    { guarded.longer [f] with
      waiting := fun _ => ⟨nothing, sublist_read cfg held (List.Sublist.refl _)⟩
      idless := forall_mem_append.mpr ⟨guarded.idless, forall_mem_singleton.mpr id⟩
      bounded := bytes.trans_le fits
      going := fun _ => ⟨running, fun _ => bytes⟩ }

theorem Guarded.opened (closed : g.acked = false) {ws pending : List (Bool × Bytes)}
    {pendingN : Nat}
    (written : ws <+: g.pending ++ [f.shown cfg])
    (cleared : pending = [] ∨ (pending = g.pending ∧ more = false)) :
    Guarded cfg (read ++ [f])
      { g with
        acked := true
        lastID := f.id cfg
        pending
        pendingN
        sent := g.sent ++ ws } more
      (events ++ .bind (f.id cfg) true :: ws.map .forward) := by
  obtain ⟨nothing, held⟩ := guarded.waiting closed
  have shown : ∀ frame ∈ ws, shownID cfg frame = "" ∨ shownID cfg frame = f.id cfg := by
    intro frame mem
    rcases mem_append.mp (written.subset mem) with old | new
    · exact Or.inl (guarded.idless frame old)
    · exact Or.inr (by rw [mem_singleton.mp new])
  have kept : (∀ frame ∈ pending, shownID cfg frame = "") ∧ heldBytes pending ≤ contMaxBuffer := by
    rcases cleared with rfl | ⟨rfl, -⟩
    · exact ⟨nofun, Nat.zero_le _⟩
    · exact ⟨guarded.idless, guarded.bounded⟩
  exact
    { log := Or.inl (guarded.clean.bind_forward shown)
      ordered := by
        rw [nothing, nil_append]
        exact written.sublist.trans (sublist_read cfg held (List.Sublist.refl _))
      waiting := nofun
      idless := kept.1
      bounded := kept.2
      bound := fun _ => mem_append_right _ mem_cons_self
      going := fun _ => ⟨(guarded.going rfl).1, nofun⟩ }

/-- Past the first acknowledgement a frame is written or not. -/
theorem Guarded.passed (acked : g.acked = true) {ws : List (Bool × Bytes)} {lastID : String}
    (written : ws <+: [f.shown cfg])
    (log : Clean cfg (events ++ evs) (g.sent ++ ws))
    (bound : .bind lastID true ∈ events ++ evs) :
    Guarded cfg (read ++ [f]) { g with lastID, sent := g.sent ++ ws } more (events ++ evs) :=
  have opened : g.acked ≠ false := by
    rw [acked]
    decide
  { log := Or.inl log
    ordered := sublist_read cfg guarded.ordered written.sublist
    waiting := fun closed => absurd closed opened
    idless := guarded.idless
    bounded := guarded.bounded
    bound := fun _ => bound
    going := fun _ => ⟨(guarded.going rfl).1, fun closed => absurd closed opened⟩ }

theorem Guarded.step (stepped : GateStep cfg g f g' more evs) :
    Guarded cfg (read ++ [f]) g' more (events ++ evs) := by
  have longer := guarded.longer [f]
  cases stepped with
  | hold closed id fits =>
    rw [append_nil]
    exact guarded.hold closed id fits
  | overflow =>
    rw [append_nil]
    exact { longer with log := Or.inl guarded.clean, going := nofun }
  | refused _ _ _ failed =>
    exact
      { longer with
        log := Or.inr ⟨failed, rfl, events, _, rfl, guarded.clean⟩
        bound := fun acked => mem_append_left _ (guarded.bound acked)
        going := nofun }
  | opened closed _ _ written cleared => exact guarded.opened closed written cleared
  | rebound acked _ _ written =>
    refine guarded.passed acked written (guarded.clean.bind_forward fun frame mem => Or.inr ?_)
      (mem_append_right _ mem_cons_self)
    rw [mem_singleton.mp (written.subset mem)]
  | passed acked known written =>
    refine guarded.passed acked written (guarded.clean.forward fun frame mem visible => ?_)
      (mem_append_left _ (guarded.bound acked))
    rw [mem_singleton.mp (written.subset mem)] at visible ⊢
    rw [show shownID cfg (f.shown cfg) = g.lastID from known.resolve_left visible]
    exact guarded.bound acked

end

theorem guarded_loop (gated : cfg.gated = true) (frames : List UpFrame) {st : UpState}
    (guarded : Guarded cfg read st.gateState true events) :
    Guarded cfg (read ++ frames) (upLoop cfg st frames).1.gateState (upLoop cfg st frames).2
      (events ++ loopEvents cfg st frames) := by
  induction frames generalizing st read events with
  | nil =>
    rw [append_nil, loopEvents, append_nil]
    exact guarded
  | cons f rest ih =>
    have next := guarded.step (upStep_gateStep gated st f)
    rw [append_cons, loopEvents, ← append_assoc, upLoop]
    cases goesOn : (upStep cfg st f).2 with
    | true =>
      rw [goesOn] at next
      exact ih next
    | false =>
      have stopped := next.longer rest
      simpa [goesOn] using stopped

end

/-- What the events of a loop look like from outside. -/
theorem Guarded.told {events : List RelayEvent} (guarded : Guarded cfg read g more events) :
    Always (Acknowledged cfg) events ∧ (forwards events).Sublist (read.map (shown cfg)) ∧
      Always Unrefused events := by
  rcases guarded.log with clean | ⟨-, -, clean, id, rfl, log⟩
  · rw [clean.forwarded]
    exact ⟨clean.acknowledged, guarded.ordered, clean.always_unrefused⟩
  · refine ⟨log.acknowledged.snoc (acknowledged_bind _ id false), ?_,
      log.always_unrefused.snoc log.unrefused⟩
    rw [forwards_append, log.forwarded, forwards_bind, append_nil]
    exact guarded.ordered

/-- Releasing the held frames at the end of a loop that no bind has failed. -/
theorem Guarded.release {events : List RelayEvent} (guarded : Guarded cfg read g more events)
    (closed : g.acked = false) (running : g.fail = none) (written : Nat) :
    Clean cfg (events ++ (g.pending.take written).map .forward) (g.pending.take written) ∧
      (forwards (events ++ (g.pending.take written).map .forward)).Sublist
        (read.map (shown cfg)) := by
  obtain ⟨nothing, held⟩ := guarded.waiting closed
  have clean : Clean cfg events g.sent := by
    rcases guarded.log with clean | ⟨failed, -⟩
    · exact clean
    · exact absurd running failed
  have log := clean.forward fun frame (mem : frame ∈ g.pending.take written) visible =>
    absurd (guarded.idless frame (mem_of_mem_take mem)) visible
  rw [nothing, nil_append] at log
  refine ⟨log, ?_⟩
  rw [log.forwarded]
  exact (take_sublist _ _).trans held

/-- Frames are released only by a loop that ended without an id and without a failure. -/
theorem released_cases (cfg : RelayConfig) (s : Session) (written : Nat) :
    s.released cfg written = [] ∨
      ((upLoop cfg {} s.frames).1.contAcked = false ∧ (upLoop cfg {} s.frames).1.contFail = none ∧
        s.released cfg written = (upLoop cfg {} s.frames).1.contPending.take written) := by
  unfold Session.released Session.final
  dsimp only
  split
  · exact Or.inl rfl
  split
  next free =>
    simp only [Bool.and_eq_true, isNone_iff_eq_none, Bool.not_eq_true'] at free
    exact Or.inr ⟨free.2, free.1, rfl⟩
  · exact Or.inl rfl

/-- No response id is visible before it is bound, the client gets upstream frames in their
order and none twice, the gate never holds more than its cap, and a failed bind ends it. -/
theorem ack_before_visible (cfg : RelayConfig) (gated : cfg.gated = true) (s : Session)
    (written : Nat) :
    Always (Acknowledged cfg) (s.events cfg written) ∧
      (forwards (s.events cfg written)).Sublist (s.frames.map (shown cfg)) ∧
      (∀ n, heldBytes (upLoop cfg {} (s.frames.take n)).1.contPending ≤ contMaxBuffer) ∧
      Always Unrefused (s.events cfg written) := by
  have loop (frames : List UpFrame) := guarded_loop gated frames (guarded_start cfg)
  have held (n : Nat) := (loop (s.frames.take n)).bounded
  have guarded := loop s.frames
  unfold Session.events
  rcases released_cases cfg s written with none | ⟨closed, running, some⟩
  · obtain ⟨acknowledged, ordered, unrefused⟩ := guarded.told
    rw [none, map_nil, append_nil]
    exact ⟨acknowledged, ordered, held, unrefused⟩
  · obtain ⟨clean, ordered⟩ := guarded.release closed running written
    rw [some]
    exact ⟨clean.acknowledged, ordered, held, clean.always_unrefused⟩

/-- A gated session in which the length of a longer frame is its id. -/
def gatedRelay : RelayConfig :=
  { plainRelay with
    gated := true
    contFrameID := fun out => if out.length ≤ 1 then "" else toString out.length }

/-- The id of the last frame but one cannot be bound. -/
def gatedSession : Session where
  frames := [{ data := [1] }, { data := [1, 2] }, { data := [3] },
    { data := [1, 2, 3], bind := some errContUnavailable }, { data := [4] }]

theorem ack_before_visible_gated :
    gatedSession.events gatedRelay 5 =
        [.bind "2" true, .forward (true, [1]), .forward (true, [1, 2]), .forward (true, [3]),
          .bind "3" false] ∧
      Always (Acknowledged gatedRelay) (gatedSession.events gatedRelay 5) := by
  refine ⟨?_, (ack_before_visible gatedRelay rfl gatedSession 5).1⟩
  decide +kernel

end C3Api.Proxy
