import C3Api.Proxy.WsGate

/-!
# What a relayed session reports

The end of a session hands one log on: after a binding that failed as it is, otherwise only
where the outcome passes its checks. Which of the two it is can be read off the frames, the
answers to the binds and the configuration. The log carries the usage of the last
`response.completed` frame only, and `bills_every_round_iff` says which sessions are still
billed for every round.
-/

namespace C3Api.Proxy

open List UpFrame UpState

/-! ## How the gate leaves a session -/

section

variable (cfg : RelayConfig) (read : List UpFrame)

/-- The last response id that the frames show. -/
def lastID : String := ((read.map (id cfg)).filter (· ≠ "")).getLast?.getD ""

/-- The last frame shows another id than the one before it, and that cannot be bound. -/
def Refused : Prop :=
  ∃ f ∈ read.getLast?, f.id cfg ≠ "" ∧ f.id cfg ≠ lastID cfg read.dropLast ∧ f.bind ≠ none

/-- No frame shows an id. -/
def Unnamed : Prop := ∀ f ∈ read, f.id cfg = ""

/-- Some frame shows an id that is bound. -/
def Acked : Prop := ∃ f ∈ read, f.id cfg ≠ "" ∧ f.bind = none

/-- Without an id the frames are more than the gate holds back. -/
def Overflows : Prop :=
  Unnamed cfg read ∧ contMaxBuffer < heldBytes (read.map (shown cfg))

end

variable {cfg : RelayConfig} {read : List UpFrame} {f : UpFrame}

theorem refused_snoc : Refused cfg (read ++ [f]) ↔
    f.id cfg ≠ "" ∧ f.id cfg ≠ lastID cfg read ∧ f.bind ≠ none := by
  simp [Refused]

theorem unnamed_snoc : Unnamed cfg (read ++ [f]) ↔ Unnamed cfg read ∧ f.id cfg = "" := by
  simp only [Unnamed, forall_mem_append, forall_mem_singleton]

theorem acked_snoc : Acked cfg (read ++ [f]) ↔ Acked cfg read ∨ f.id cfg ≠ "" ∧ f.bind = none := by
  simp [Acked, or_and_right, exists_or]

theorem lastID_snoc :
    lastID cfg (read ++ [f]) = if f.id cfg = "" then lastID cfg read else f.id cfg := by
  unfold lastID
  split
  next none => simp [none]
  next named => simp [named]

theorem heldBytes_snoc : heldBytes ((read ++ [f]).map (shown cfg)) =
    heldBytes (read.map (shown cfg)) + (f.shown cfg).2.length := by
  simp [heldBytes]

theorem Unnamed.lastID_eq (unnamed : Unnamed cfg read) : lastID cfg read = "" := by
  have none : (read.map (id cfg)).filter (· ≠ "") = [] := by simpa [Unnamed] using unnamed
  rw [lastID, none]
  rfl

theorem Acked.named (acked : Acked cfg read) : ¬Unnamed cfg read := by
  obtain ⟨f, member, named, -⟩ := acked
  exact fun unnamed => named (unnamed f member)

/-- What the frames read so far have made of the gate. -/
structure Reads (cfg : RelayConfig) (read : List UpFrame) (g : GateState) (more : Bool) : Prop where
  acked : g.acked = true ↔ Acked cfg read
  failed : g.fail ≠ none ↔ Refused cfg read ∨ Overflows cfg read
  going : more = true → g.fail = none ∧ (g.acked = true → lastID cfg read = g.lastID) ∧
    (g.acked = false → Unnamed cfg read ∧ heldBytes (read.map (shown cfg)) = g.pendingN)
  stopped : more = false → Unnamed cfg read → Overflows cfg read

variable {g g' : GateState} {more : Bool} {events : List RelayEvent}

theorem reads_start (cfg : RelayConfig) : Reads cfg [] ({} : UpState).gateState true := by
  refine ⟨?_, ?_, fun _ => ⟨rfl, nofun, fun _ => ⟨nofun, rfl⟩⟩, nofun⟩
  · simp [Acked, gateState]
  · simp [Refused, Overflows, heldBytes, gateState]

theorem Reads.step (reads : Reads cfg read g true) (stepped : GateStep cfg g f g' more events) :
    Reads cfg (read ++ [f]) g' more := by
  obtain ⟨running, known, waiting⟩ := reads.going rfl
  have acked := reads.acked
  cases stepped with
  | hold closed id fits =>
    obtain ⟨unnamed, held⟩ := waiting closed
    refine ⟨?_, ?_, fun _ => ⟨running, ?_, fun _ => ⟨unnamed_snoc.mpr ⟨unnamed, id⟩, ?_⟩⟩, nofun⟩
    · simp [acked_snoc, ← acked, id]
    · simp only [running, refused_snoc, id, Overflows, heldBytes_snoc, held]
      simp [fits]
    · simp [closed]
    · rw [heldBytes_snoc, held]
  | overflow closed id full failed =>
    obtain ⟨unnamed, held⟩ := waiting closed
    have spills : Overflows cfg (read ++ [f]) :=
      ⟨unnamed_snoc.mpr ⟨unnamed, id⟩, by rw [heldBytes_snoc, held]; exact full⟩
    exact ⟨by simp [acked_snoc, ← acked, id], by simp [failed, spills], nofun, fun _ _ => spills⟩
  | refused named other unbound failed =>
    have fresh : f.id cfg ≠ lastID cfg read := by
      cases opened : g.acked with
      | true => exact known opened ▸ other opened
      | false => exact (waiting opened).1.lastID_eq ▸ named
    refine ⟨by simp [acked_snoc, ← acked, unbound], ?_, nofun, fun _ unnamed => ?_⟩
    · simp [failed, refused_snoc, named, fresh, unbound]
    · exact absurd (unnamed_snoc.mp unnamed).2 named
  | opened closed named bound | rebound closed named bound =>
    refine ⟨by simp [acked_snoc, ← acked, named, bound, closed], ?_, fun _ => ⟨running, ?_, ?_⟩, ?_⟩
    · simp [running, refused_snoc, bound, Overflows, unnamed_snoc, named]
    · simp [lastID_snoc, named]
    · simp [closed]
    · exact fun _ unnamed => absurd (unnamed_snoc.mp unnamed).2 named
  | passed opened same =>
    have seen := (acked.mp opened).named
    refine ⟨by simp [acked_snoc, ← acked, opened], ?_, fun _ => ⟨running, fun _ => ?_, ?_⟩, ?_⟩
    · simp only [running, refused_snoc, known opened, Overflows, unnamed_snoc, seen]
      tauto
    · rw [lastID_snoc, known opened]
      split
      · rfl
      · exact same.resolve_left ‹_›
    · simp [opened]
    · exact fun _ unnamed => absurd (unnamed_snoc.mp unnamed).1 seen

theorem upLoop_reads (gated : cfg.gated = true) (frames : List UpFrame) {st : UpState}
    (reads : Reads cfg read st.gateState true) :
    Reads cfg (read ++ framesRead cfg st frames) (upLoop cfg st frames).1.gateState
      (upLoop cfg st frames).2 := by
  induction frames generalizing st read with
  | nil => simpa [framesRead, upLoop] using reads
  | cons f rest ih =>
    have next := reads.step (upStep_gateStep gated st f)
    rw [framesRead, append_cons, upLoop_cons]
    split
    next more =>
      rw [more] at next
      exact ih next
    · rwa [append_nil]

/-- Without a gate nothing is bound. -/
theorem upLoop_ungated (ungated : cfg.gated = false) (frames : List UpFrame) (st : UpState) :
    (upLoop cfg st frames).1.contFail = st.contFail ∧
      (upLoop cfg st frames).1.contAcked = st.contAcked := by
  induction frames generalizing st with
  | nil => exact ⟨rfl, rfl⟩
  | cons f rest ih =>
    have sniffed := sniff_gateState cfg st f.data
    have step : (upStep cfg st f).1.contFail = st.contFail ∧
        (upStep cfg st f).1.contAcked = st.contAcked := by
      unfold upStep write
      simp only [ungated, Bool.false_eq_true, if_false]
      split <;> exact ⟨congrArg GateState.fail sniffed, congrArg GateState.acked sniffed⟩
    rw [upLoop_cons]
    split
    · rw [(ih _).1, (ih _).2]
      exact step
    · exact step

variable (cfg) (s : Session)

abbrev Session.seen : List UpFrame := framesRead cfg {} s.frames

/-- A binding fails: an id is refused, or none comes before the buffer is full or the time for
it is over. -/
def Session.BindFails : Prop :=
  cfg.gated = true ∧ (Refused cfg (s.seen cfg) ∨ Overflows cfg (s.seen cfg) ∨
    Unnamed cfg (s.seen cfg) ∧ s.ackTimeout = true)

theorem final_gate :
    ((s.final cfg).contFail ≠ none ↔ s.BindFails cfg) ∧
      ((s.final cfg).contAcked = true ↔ cfg.gated = true ∧ Acked cfg (s.seen cfg)) := by
  unfold Session.final Session.BindFails
  dsimp only
  cases gated : cfg.gated with
  | false =>
    obtain ⟨fail, acked⟩ := upLoop_ungated gated s.frames {}
    simp [fail, acked]
  | true =>
    have reads := upLoop_reads gated s.frames (reads_start cfg)
    rw [nil_append] at reads
    obtain ⟨acked, failed, going, stopped⟩ := reads
    split
    next late =>
      simp only [Bool.and_eq_true, Bool.not_eq_true', and_true] at late
      obtain ⟨⟨more, late⟩, closed⟩ := late
      obtain ⟨-, -, waiting⟩ := going more
      have unnamed := (waiting closed).1
      exact ⟨by simp [late, unnamed], acked.trans (and_iff_right rfl).symm⟩
    next early =>
      refine ⟨failed.trans ?_, acked.trans (and_iff_right rfl).symm⟩
      rw [and_iff_right rfl, ← or_assoc]
      refine (or_iff_left_of_imp ?_).symm
      rintro ⟨unnamed, late⟩
      have closed : (upLoop cfg {} s.frames).1.contAcked = false :=
        Bool.eq_false_iff.mpr fun opened => (acked.mp opened).named unnamed
      exact .inr (stopped (by simpa [late, closed] using early) unnamed)

/-! ## What the report checks -/

open AttemptOutcome

/-- The attempt is named and passes the checks of a dispatched one. -/
def AttemptOutcome.Identified (o : AttemptOutcome) : Prop :=
  o.id ≠ "" ∧ ∀ check ∈ o.dispatchedChecks, check.1 = false

/-- Whatever the ending, the outcome passes its checks where the attempt is identified and
no count and no time is negative. -/
theorem validate_ending (ending : RelayEnd) (u : UsageTuple) (ttft : Option Int) :
    (ending.outcome cfg.base u ttft).validate = .ok () ↔
      cfg.base.Identified ∧ (∀ c, 0 ≤ u.count c) ∧ 0 ≤ u.calls ∧ 0 ≤ ttft.getD 0 := by
  have sound := base_isMalformed cfg
  have latency : 0 ≤ cfg.base.latencyMS := by
    unfold RelayConfig.base mergeDispatchBase
    split <;> exact Int.le_max_right _ _
  have counts : (∀ c, 0 ≤ u.count c) ↔ 0 ≤ u.it ∧ 0 ≤ u.ot ∧ 0 ≤ u.cr ∧ 0 ≤ u.cc :=
    ⟨fun counted => ⟨counted .input, counted .output, counted .cacheRead, counted .cacheWrite⟩,
      fun ⟨_, _, _, _⟩ c => by cases c <;> assumption⟩
  have sent : (ending.outcome cfg.base u ttft).isDispatched = true := by cases ending <;> rfl
  have same : (ending.outcome cfg.base u ttft).dispatchedChecks = cfg.base.dispatchedChecks := by
    cases ending <;> rfl
  rw [validate, firstError_ok_iff, checks, counts, Identified, if_pos sent, same]
  simp only [forall_mem_append]
  generalize (∀ check ∈ cfg.base.dispatchedChecks, check.1 = false) = dispatched
  cases ending <;>
    simp [RelayEnd.outcome, wsOutcomeForSuccess, wsOutcomeForClientAbort, wsOutcomeForUpstreamError,
      frameChecks, started, amountChecks, wsUsageFromTuple, resultChecks, successChecks,
      cancelChecks, failedChecks, networkChecks, commitChecks, sound, latency] <;>
    tauto

theorem blind_ttft : Blind ttft := fun _ _ _ _ _ _ _ => rfl

theorem blind_img : Blind img := fun _ _ _ _ _ _ _ => rfl

theorem upLoop_ttft (frames : List UpFrame) (st : UpState) : (upLoop cfg st frames).1.ttft =
    st.ttft.or ((framesRead cfg st frames).head?.map elapsed) := by
  induction frames generalizing st with
  | nil => simp [upLoop, framesRead]
  | cons f rest ih =>
    have step : (upStep cfg st f).1.ttft = some (st.ttft.getD f.elapsed) :=
      upStep_frame cfg blind_ttft st f
    have arrived : (upLoop cfg st (f :: rest)).1.ttft = some (st.ttft.getD f.elapsed) := by
      rw [upLoop_cons]
      split
      · rw [ih, step, Option.some_or]
      · exact step
    rw [arrived, framesRead]
    cases st.ttft <;> rfl

theorem upLoop_img (frames : List UpFrame) {st : UpState} (counted : 0 ≤ st.img) :
    0 ≤ (upLoop cfg st frames).1.img := by
  induction frames generalizing st with
  | nil => exact counted
  | cons f rest ih =>
    have step : 0 ≤ (upStep cfg st f).1.img := by
      rw [upStep_frame cfg blind_img]
      show 0 ≤ (st.sniff cfg f.data).img
      unfold sniff
      split
      · exact counted
      · dsimp only
        split
        · exact Int.natCast_nonneg _
        · exact counted
    rw [upLoop_cons]
    split
    · exact ih step
    · exact step

/-- The counts that the upstream completed last, if any, are not negative. -/
def Session.Counted : Prop :=
  ∀ u ∈ (completedUsages (s.seen cfg)).getLast?, ∀ c, 0 ≤ u.count c

/-- The report passes its checks. -/
def Session.Passes : Prop :=
  cfg.base.Identified ∧ s.Counted cfg ∧ ∀ f ∈ (s.seen cfg).head?, 0 ≤ f.elapsed

theorem final_passes (ending : RelayEnd) :
    (ending.outcome cfg.base (s.final cfg).usage (s.final cfg).ttft).validate = .ok () ↔
      s.Passes cfg := by
  have ttft : (s.final cfg).ttft = (s.seen cfg).head?.map elapsed := by
    rw [final_frame cfg blind_ttft, upLoop_ttft]
    rfl
  have calls : 0 ≤ (s.final cfg).usage.calls := by
    show 0 ≤ (s.final cfg).img
    rw [final_frame cfg blind_img]
    exact upLoop_img cfg s.frames le_rfl
  have none (c : TokenCount) : 0 ≤ ({} : UsageTuple).count c := by cases c <;> exact le_rfl
  rw [validate_ending, Session.Passes, Session.Counted, ttft]
  simp only [final_count, calls, true_and]
  cases (completedUsages (s.seen cfg)).getLast? <;> cases (s.seen cfg).head? <;> simp [none]

/-- A session is handed to `finish` unless its report is refused. -/
theorem relayWS_isSome_iff (g : ConcurrencyGate) (now : Int) (s : Session) :
    (relayWS cfg g now s).isSome = true ↔ s.BindFails cfg ∨ s.Passes cfg := by
  rw [← (final_gate cfg s).1]
  unfold relayWS
  dsimp only
  cases failed : (s.final cfg).contFail with
  | some ferr => simp
  | none =>
    have passes := final_passes cfg s (relayClassify s.upClose (s.clientFailed cfg (s.final cfg)))
    unfold reportWSOutcome
    generalize RelayEnd.outcome _ _ _ _ = o at passes ⊢
    rw [← passes]
    cases o.validate <;> simp

/-! ## What is billed -/

/-- The session's log reaches the usage table: logs are captured, and a binding failed after
the first acknowledged id, or the report passes its checks. -/
def Recorded : Prop :=
  cfg.proxy.usageCapture = true ∧
    (s.BindFails cfg ∧ Acked cfg (s.seen cfg) ∨ ¬s.BindFails cfg ∧ s.Passes cfg)

theorem recorded_iff :
    Recorded cfg s ↔ cfg.proxy.usageCapture = true ∧
      match (s.final cfg).contFail with
      | some _ => (s.final cfg).contAcked = true
      | none => ((relayClassify s.upClose (s.clientFailed cfg (s.final cfg))).outcome cfg.base
          (s.final cfg).usage (s.final cfg).ttft).validate = .ok () := by
  obtain ⟨fails, acked⟩ := final_gate cfg s
  rw [Recorded, ← fails]
  cases failed : (s.final cfg).contFail with
  | some ferr =>
    have gated := (fails.mp (by simp [failed])).1
    simp [acked, gated]
  | none => simp [final_passes]

/-- The session's row carries, in each count, the sum over all completed frames. -/
def BillsEveryRound (g : ConcurrencyGate) (now : Int) (s : Session) : Prop :=
  ∀ c, recordedCount (relayWS cfg g now s) c =
    roundsTotal (completedUsages (framesRead cfg {} s.frames)) c

theorem relayWS_count (g : ConcurrencyGate) (now : Int) (s : Session) (c : TokenCount) :
    (Recorded cfg s → recordedCount (relayWS cfg g now s) c = (s.final cfg).usage.count c) ∧
      (¬ Recorded cfg s → recordedCount (relayWS cfg g now s) c = 0) := by
  have fits := final_fits cfg s
  rw [recorded_iff, relayWS]
  dsimp only
  cases failed : (s.final cfg).contFail with
  | some ferr =>
    unfold relayWSContFail
    rw [finish_buildLog_count _ _ _ _ _ _ _ _ _ _ _ _ ⟨rfl, rfl⟩ fits]
    cases captured : cfg.proxy.usageCapture <;> cases (s.final cfg).contAcked <;> simp
  | none =>
    unfold reportWSOutcome
    have passes := outcomeStatus_passes cfg
      (relayClassify s.upClose (s.clientFailed cfg (s.final cfg))) (s.final cfg).usage
      (s.final cfg).ttft
    generalize (relayClassify s.upClose (s.clientFailed cfg (s.final cfg))).outcome cfg.base
      (s.final cfg).usage (s.final cfg).ttft = o at passes ⊢
    cases checked : o.validate with
    | error message => simp [recordedCount]
    | ok _ =>
      rw [finish_buildLog_count _ _ _ _ _ _ _ _ _ _ _ _ ⟨rfl, rfl⟩ fits]
      cases captured : cfg.proxy.usageCapture <;> simp [passes]

theorem roundsTotal_dropLast (usages : List UsageTuple) (c : TokenCount) :
    roundsTotal usages c = roundsTotal usages.dropLast c + (usages.getLast?.getD {}).count c := by
  rcases eq_nil_or_concat usages with rfl | ⟨earlier, u, rfl⟩
  · cases c <;> rfl
  · simp [roundsTotal]

/-- A session is billed for every round exactly when its log is recorded and the
rounds before the last carry nothing, or no round carries anything. -/
theorem bills_every_round_iff (cfg : RelayConfig) (g : ConcurrencyGate) (now : Int) (s : Session) :
    BillsEveryRound cfg g now s ↔
      (Recorded cfg s ∧ ∀ c,
        roundsTotal (completedUsages (framesRead cfg {} s.frames)).dropLast c = 0) ∨
      (¬ Recorded cfg s ∧ ∀ c,
        roundsTotal (completedUsages (framesRead cfg {} s.frames)) c = 0) := by
  unfold BillsEveryRound
  by_cases recorded : Recorded cfg s
  · have each (c : TokenCount) : recordedCount (relayWS cfg g now s) c =
        roundsTotal (completedUsages (framesRead cfg {} s.frames)) c ↔
        roundsTotal (completedUsages (framesRead cfg {} s.frames)).dropLast c = 0 := by
      rw [(relayWS_count cfg g now s c).1 recorded, final_count, roundsTotal_dropLast]
      omega
    simp only [each, recorded, true_and, not_true_eq_false, false_and, or_false]
  · have each (c : TokenCount) : recordedCount (relayWS cfg g now s) c =
        roundsTotal (completedUsages (framesRead cfg {} s.frames)) c ↔
        roundsTotal (completedUsages (framesRead cfg {} s.frames)) c = 0 := by
      rw [(relayWS_count cfg g now s c).2 recorded]
      exact eq_comm
    simp only [each, recorded, false_and, not_false_eq_true, true_and, false_or]

end C3Api.Proxy
