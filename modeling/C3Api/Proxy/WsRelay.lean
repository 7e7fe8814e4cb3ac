import C3Api.Proxy.AttemptOutcome
import C3Api.Proxy.Finish

/-!
# Relaying a Responses WebSocket session

`relayWS` of `proxy/ws_relay.go` and the report of `proxy/ws_report.go`. The
upstream loop is a state machine over the frames it reads; what the peers and the
continuation store answer is part of each frame. The loop keeps the usage of the
last `response.completed` frame only.
-/

namespace C3Api.Proxy

open Machine

structure FormatError where
  status : Int
  msg : String

def errContUnavailable : FormatError := ⟨503, "continuation state unavailable"⟩

/-- Bytes held back before the first response id is acknowledged. -/
def contMaxBuffer : Nat := 1048576

/-- The fields of the selected account that the relay reads. -/
structure Selection where
  model : String := ""
  mappedModel : String := ""
  codex : Bool := false
  candidateFingerprint : String := ""
  templateID : Int := 0
  accountID : Int := 0
  supplierFinance : SupplierFinance := {}

/-- What a session takes from the selected account and the request. The JSON path
queries behind `contFrameID`, the model rewrite and the image count are left as
functions of the frame; `dispatch` is the outcome the dispatch loop has opened. -/
structure RelayConfig where
  proxy : ProxyConfig
  sel : Selection
  dispatch : Option AttemptOutcome
  gated : Bool
  respModel : String
  rewriteResponseModelJSON : Bytes → String → Bytes
  contFrameID : Bytes → String
  respImageDetectOn : Bool
  respImageCountCompleted : Bytes → Nat
  groupID : Int
  reqModel : String
  latency : Int
  ctx : LogContext

/-- One frame read from upstream, with the answers it meets on its way: the
result of binding its id, the first held frame that cannot be written, and
whether its own write fails. -/
structure UpFrame where
  text : Bool := true
  data : Bytes
  elapsed : Int := 0
  bind : Option FormatError := none
  flushFails : Option Nat := none
  writeFails : Bool := false

structure UpState where
  it : Int := 0
  ot : Int := 0
  tt : Int := 0
  cr : Int := 0
  cc : Int := 0
  img : Int := 0
  advances : Nat := 0
  ttft : Option Int := none
  contAcked : Bool := false
  contLastID : String := ""
  contPending : List (Bool × Bytes) := []
  contPendingN : Nat := 0
  contFail : Option FormatError := none
  sent : List (Bool × Bytes) := []

open UpState

/-- A completed frame replaces the counts; every other frame leaves them. -/
def UpState.sniff (cfg : RelayConfig) (st : UpState) (data : Bytes) : UpState :=
  match sniffResponsesCompletedUsage data with
  | none => st
  | some u =>
    { st with
      it := u.it
      ot := u.ot
      tt := u.tt
      cr := u.cr
      cc := u.cc
      advances := st.advances + 1
      img := if cfg.respImageDetectOn then (cfg.respImageCountCompleted data : Int) else st.img }

/-- Writing the frame to the client; the flag says whether the loop goes on. -/
def UpState.write (st : UpState) (f : UpFrame) (out : Bytes) : UpState × Bool :=
  if f.writeFails then (st, false) else ({ st with sent := st.sent ++ [(f.text, out)] }, true)

/-- The first acknowledged id releases the frames held back before it. -/
def UpState.release (st : UpState) (f : UpFrame) (out : Bytes) : UpState × Bool :=
  match f.flushFails with
  | some n => ({ st with sent := st.sent ++ st.contPending.take n }, false)
  | none =>
    write { st with sent := st.sent ++ st.contPending, contPending := [], contPendingN := 0 }
      f out

/-- The continuation gate: no frame with a response id passes before its id is
bound. -/
def UpState.gate (cfg : RelayConfig) (st : UpState) (f : UpFrame) (out : Bytes) : UpState × Bool :=
  let id := cfg.contFrameID out
  if !st.contAcked then
    if id = "" then
      let st := { st with contPendingN := st.contPendingN + out.length }
      if contMaxBuffer < st.contPendingN then
        ({ st with contFail := some errContUnavailable }, false)
      else ({ st with contPending := st.contPending ++ [(f.text, out)] }, true)
    else
      match f.bind with
      | some ferr => ({ st with contFail := some ferr }, false)
      | none => release { st with contAcked := true, contLastID := id } f out
  else if id ≠ "" ∧ id ≠ st.contLastID then
    match f.bind with
    | some ferr => ({ st with contFail := some ferr }, false)
    | none => write { st with contLastID := id } f out
  else st.write f out

def upStep (cfg : RelayConfig) (st : UpState) (f : UpFrame) : UpState × Bool :=
  let st := st.sniff cfg f.data
  let st := { st with ttft := some (st.ttft.getD f.elapsed) }
  let out :=
    if f.text && cfg.respModel != "" then cfg.rewriteResponseModelJSON f.data cfg.respModel
    else f.data
  if cfg.gated then st.gate cfg f out else st.write f out

/-- The loop over the frames, and whether it was still reading at their end. -/
def upLoop (cfg : RelayConfig) : UpState → List UpFrame → UpState × Bool
  | st, [] => (st, true)
  | st, f :: rest =>
    let next := upStep cfg st f
    if next.2 then upLoop cfg next.1 rest else next

def framesRead (cfg : RelayConfig) : UpState → List UpFrame → List UpFrame
  | _, [] => []
  | st, f :: rest =>
    let next := upStep cfg st f
    f :: if next.2 then framesRead cfg next.1 rest else []

/-- How the session ended: the frames, whether the read behind them ran into the
acknowledgement deadline, the upstream's close code and the client's error at the
end, and whether releasing the held frames failed. -/
structure Session where
  frames : List UpFrame
  ackTimeout : Bool := false
  upClose : Option Int := none
  clientErr : Bool := false
  flushFails : Bool := false

/-- The loop's state when all readers have stopped. -/
def Session.final (cfg : RelayConfig) (s : Session) : UpState :=
  let run := upLoop cfg {} s.frames
  if run.2 && s.ackTimeout && cfg.gated && !run.1.contAcked then
    { run.1 with contFail := some errContUnavailable }
  else run.1

inductive RelayEnd where
  | upstreamClosed | clientAbort | upstreamError
  deriving DecidableEq

def isNormalWSCloseCode (code : Int) : Bool := code == 1000 || code == 1001

def relayClassify (upClose : Option Int) (clientErr : Bool) : RelayEnd :=
  match upClose with
  | some code =>
    if isNormalWSCloseCode code then .upstreamClosed
    else if clientErr then .clientAbort
    else .upstreamError
  | none => if clientErr then .clientAbort else .upstreamError

def wsDispatchedBase (sel : Selection) (reqModel : String) (latency : Int) : AttemptOutcome :=
  let mapped := if sel.model = "" then reqModel else sel.model
  let mapped := if mapped = "" then "unknown" else mapped
  let fp := sel.candidateFingerprint
  { id := "attempt-ws-1"
    routeClassID :=
      if fp = "" then "rc-ws" else if 4 < fp.length then "rc-" ++ fp.take 4 else "rc-" ++ fp
    qualityClassID := if fp = "" then "qc-ws" else "qc-" ++ fp.take 1
    fingerprint := if fp = "" then "fp-ws" else fp
    templateID := sel.templateID
    accountID := sel.accountID
    requestedModel := if reqModel = "" then mapped else reqModel
    mappedModel := mapped
    callerCategory := some (if sel.codex then .codexWS else .responsesWS)
    operationTag := "responses_ws"
    ordinal := 1
    identityRevision := 1
    lane := some .primary
    generation := 1
    latencyMS := max latency 0 }

/-- The identity of the attempt as the dispatch loop opened it, where it did. -/
def mergeDispatchBase (dispatch : Option AttemptOutcome) (own : AttemptOutcome) :
    AttemptOutcome :=
  match dispatch with
  | none => own
  | some d =>
    { own with
      id := d.id
      routeClassID := d.routeClassID
      qualityClassID := d.qualityClassID
      fingerprint := d.fingerprint
      templateID := d.templateID
      accountID := d.accountID
      requestedModel := d.requestedModel
      mappedModel := d.mappedModel
      ordinal := d.ordinal
      identityRevision := d.identityRevision
      lane := d.lane
      generation := d.generation
      previousAttemptID := d.previousAttemptID }

def RelayConfig.base (cfg : RelayConfig) : AttemptOutcome :=
  mergeDispatchBase cfg.dispatch (wsDispatchedBase cfg.sel cfg.reqModel cfg.latency)

theorem base_isMalformed (cfg : RelayConfig) : cfg.base.isMalformed = false := by
  unfold RelayConfig.base mergeDispatchBase
  split <;> rfl

def wsUsageFromTuple (u : UsageTuple) : AttemptUsage where
  inputTokens := u.it
  outputTokens := u.ot
  cacheReadTokens := u.cr
  cacheCreationTokens := u.cc
  callCount := u.calls

def wsOutcomeForSuccess (base : AttemptOutcome) (ttft : Option Int) (u : UsageTuple) :
    AttemptOutcome :=
  { base with
    commit := .responseStarted
    result := .success
    httpStatus := 200
    terminal := true
    businessFrameSent := true
    ttftMS := ttft
    usage := wsUsageFromTuple u }

def wsOutcomeForClientAbort (base : AttemptOutcome) (u : UsageTuple) (ttft : Option Int) :
    AttemptOutcome :=
  { base with
    result := .clientCancel
    httpStatus := 0
    terminal := true
    commit := .responseStarted
    businessFrameSent := true
    ttftMS := ttft
    usage := wsUsageFromTuple u }

def wsOutcomeForUpstreamError (base : AttemptOutcome) (u : UsageTuple) (ttft : Option Int) :
    AttemptOutcome :=
  { base with
    result := .failed
    httpStatus := 0
    commit := .sentAmbiguous
    businessFrameSent := true
    terminal := true
    ttftMS := ttft
    usage := wsUsageFromTuple u }

def RelayEnd.outcome (ending : RelayEnd) (base : AttemptOutcome) (u : UsageTuple)
    (ttft : Option Int) : AttemptOutcome :=
  match ending with
  | .upstreamClosed => wsOutcomeForSuccess base ttft u
  | .clientAbort => wsOutcomeForClientAbort base u ttft
  | .upstreamError => wsOutcomeForUpstreamError base u ttft

def outcomeStatus (o : AttemptOutcome) : Int × ErrorType :=
  match o.result with
  | .success => (200, .none)
  | .clientCancel => (if o.commit = .notSent then 499 else 200, .abort)
  | .failed =>
    if o.isMalformed then (if o.httpStatus = 0 then 200 else o.httpStatus, .status4xx)
    else if o.httpStatus = 429 then (429, .status429)
    else if 500 ≤ o.httpStatus then (o.httpStatus, .status5xx)
    else if 400 ≤ o.httpStatus then (o.httpStatus, .status4xx)
    else if o.httpStatus = 0 then
      if o.commit = .sentAmbiguous then (200, .abort) else (0, .network)
    else (o.httpStatus, .none)
  | _ => (o.httpStatus, .none)

def reportWSOutcome (cfg : RelayConfig) (g : ConcurrencyGate) (now : Int) (ttft : Option Int)
    (u : UsageTuple) (o : AttemptOutcome) : Option Routed :=
  match o.validate with
  | .error _ => none
  | .ok () =>
    let status := outcomeStatus o
    let l := logWithCtx { cfg.ctx with ttft := ttft } (buildLog cfg.groupID o.accountID cfg.reqModel
      cfg.sel.mappedModel .openAIResponsesWS status.1 status.2 u)
    some (finish cfg.proxy g cfg.sel.supplierFinance now l)

/-- The end of a session whose binding failed: after the first acknowledged id it
is logged as an abort, before it as a gateway error. -/
def relayWSContFail (cfg : RelayConfig) (g : ConcurrencyGate) (now : Int) (st : UpState)
    (u : UsageTuple) (ferr : FormatError) : Routed :=
  let status : Int × ErrorType := if st.contAcked then (200, .abort) else (ferr.status, .status5xx)
  let l := logWithCtx { cfg.ctx with ttft := st.ttft } (buildLog cfg.groupID cfg.sel.accountID
    cfg.reqModel cfg.sel.mappedModel .openAIResponsesWS status.1 status.2 u)
  finish cfg.proxy g cfg.sel.supplierFinance now l

def UpState.usage (st : UpState) : UsageTuple :=
  { it := st.it, ot := st.ot, tt := st.tt, cr := st.cr, cc := st.cc, calls := st.img }

/-- The client's error slot once the frames still held have been released. -/
def Session.clientFailed (cfg : RelayConfig) (s : Session) (st : UpState) : Bool :=
  s.clientErr || (cfg.gated && !st.contAcked && !st.contPending.isEmpty && s.flushFails)

/-- The session from the first upstream read to its log; `none` is a log that is
never handed on. -/
def relayWS (cfg : RelayConfig) (g : ConcurrencyGate) (now : Int) (s : Session) : Option Routed :=
  let st := s.final cfg
  match st.contFail with
  | some ferr => some (relayWSContFail cfg g now st st.usage ferr)
  | none =>
    let ending := relayClassify s.upClose (s.clientFailed cfg st)
    reportWSOutcome cfg g now st.ttft st.usage (ending.outcome cfg.base st.usage st.ttft)

inductive TokenCount where
  | input | output | cacheRead | cacheWrite
  deriving DecidableEq

def UsageTuple.count (u : UsageTuple) : TokenCount → Int
  | .input => u.it
  | .output => u.ot
  | .cacheRead => u.cr
  | .cacheWrite => u.cc

def UsageLog.count (l : UsageLog) : TokenCount → Int
  | .input => l.inputTokens
  | .output => l.outputTokens
  | .cacheRead => l.cacheReadTokens
  | .cacheWrite => l.cacheCreationTokens

/-- The count the session put on the usage table, zero when it put no row there. -/
def recordedCount (result : Option Routed) (c : TokenCount) : Int :=
  match result.bind Routed.usage with
  | none => 0
  | some l => l.count c

def completedUsages (frames : List UpFrame) : List UsageTuple :=
  frames.filterMap (fun f => sniffResponsesCompletedUsage f.data)

def roundsTotal (usages : List UsageTuple) (c : TokenCount) : Int :=
  (usages.map (fun u => u.count c)).sum

section

variable (cfg : RelayConfig)

variable (st : UpState) (f : UpFrame) (rest : List UpFrame)

theorem sniff_count (data : Bytes) (c : TokenCount) :
    (st.sniff cfg data).usage.count c =
      ((sniffResponsesCompletedUsage data).getD st.usage).count c := by
  unfold sniff
  cases sniffResponsesCompletedUsage data with
  | none => rfl
  | some u => cases c <;> rfl

section

/-- Reads nothing of what the write side of the loop changes. -/
def Blind {α : Type} (view : UpState → α) : Prop :=
  ∀ st acked lastID pending held failed sent,
    view { st with
      contAcked := acked, contLastID := lastID, contPending := pending, contPendingN := held,
      contFail := failed, sent := sent } = view st

variable {α : Type} {view : UpState → α} (blind : Blind view)
include blind

variable (st : UpState) (f : UpFrame) (out : Bytes)

theorem write_frame : view (st.write f out).1 = view st := by
  unfold write
  split
  · rfl
  · exact blind st ..

theorem release_frame : view (st.release f out).1 = view st := by
  unfold release
  split
  · exact blind st ..
  · exact (write_frame blind _ f out).trans (blind st ..)

theorem gate_frame : view (st.gate cfg f out).1 = view st := by
  unfold gate
  dsimp only
  split
  · split
    · split <;> exact blind st ..
    · split
      · exact blind st ..
      · exact (release_frame blind _ f out).trans (blind st ..)
  · split
    · split
      · exact blind st ..
      · exact (write_frame blind _ f out).trans (blind st ..)
    · exact write_frame blind st f out

/-- A step shows what the frame's own counts and its arrival show. -/
theorem upStep_frame :
    view (upStep cfg st f).1 =
      view { st.sniff cfg f.data with ttft := some (st.ttft.getD f.elapsed) } := by
  have kept : (st.sniff cfg f.data).ttft = st.ttft := by
    unfold sniff
    split <;> rfl
  unfold upStep
  dsimp only
  rw [kept]
  split
  · exact gate_frame cfg blind _ f _
  · exact write_frame blind _ f _

end

theorem blind_usage : Blind usage := fun _ _ _ _ _ _ _ => rfl

theorem completedUsages_cons :
    completedUsages (f :: rest) =
      (sniffResponsesCompletedUsage f.data).toList ++ completedUsages rest := by
  unfold completedUsages
  cases sniffed : sniffResponsesCompletedUsage f.data <;> simp [sniffed]

theorem upLoop_cons :
    upLoop cfg st (f :: rest) =
      if (upStep cfg st f).2 then upLoop cfg (upStep cfg st f).1 rest else upStep cfg st f := rfl

theorem upLoop_count (frames : List UpFrame) (st : UpState) (c : TokenCount) :
    (upLoop cfg st frames).1.usage.count c =
      ((completedUsages (framesRead cfg st frames)).getLast?.getD st.usage).count c := by
  induction frames generalizing st with
  | nil => rfl
  | cons f rest ih =>
    have step : (upStep cfg st f).1.usage.count c =
        ((sniffResponsesCompletedUsage f.data).getD st.usage).count c := by
      rw [← sniff_count cfg, upStep_frame cfg blind_usage]
      rfl
    have later := ih (upStep cfg st f).1
    rw [upLoop_cons, framesRead, completedUsages_cons]
    by_cases goes : (upStep cfg st f).2 = true
    case neg =>
      rw [if_neg goes, if_neg goes]
      apply step.trans
      cases sniffResponsesCompletedUsage f.data <;> rfl
    case pos =>
      rw [if_pos goes, if_pos goes, List.getLast?_append]
      apply later.trans
      cases (completedUsages (framesRead cfg (upStep cfg st f).1 rest)).getLast? with
      | none =>
        apply step.trans
        cases sniffResponsesCompletedUsage f.data <;> rfl
      | some u => rfl

theorem final_frame {α : Type} {view : UpState → α} (blind : Blind view) (s : Session) :
    view (s.final cfg) = view (upLoop cfg {} s.frames).1 := by
  unfold Session.final
  dsimp only
  split
  · exact blind ..
  · rfl

theorem final_count (s : Session) (c : TokenCount) :
    (s.final cfg).usage.count c =
      ((completedUsages (framesRead cfg {} s.frames)).getLast?.getD {}).count c := by
  rw [final_frame cfg blind_usage, upLoop_count]
  rfl

theorem final_fits (s : Session) : Fits (s.final cfg).usage.it ∧ Fits (s.final cfg).usage.ot := by
  have input := final_count cfg s .input
  have output := final_count cfg s .output
  change (s.final cfg).usage.it = UsageTuple.it _ at input
  change (s.final cfg).usage.ot = UsageTuple.ot _ at output
  rw [input, output]
  cases last : (completedUsages (framesRead cfg {} s.frames)).getLast? with
  | none => decide
  | some u =>
    obtain ⟨f, -, found⟩ := List.mem_filterMap.mp (List.mem_of_getLast? last)
    exact sniffResponsesCompletedUsage_fits found

end

theorem outcomeStatus_passes (cfg : RelayConfig) (ending : RelayEnd) (u : UsageTuple)
    (ttft : Option Int) :
    (outcomeStatus (ending.outcome cfg.base u ttft)).2 = .none ∨
      (outcomeStatus (ending.outcome cfg.base u ttft)).2 = .abort := by
  cases ending with
  | upstreamClosed => exact .inl rfl
  | clientAbort => exact .inr rfl
  | upstreamError =>
    have sound := base_isMalformed cfg
    simp [outcomeStatus, RelayEnd.outcome, wsOutcomeForUpstreamError, sound]

theorem finish_buildLog_count (cfg : ProxyConfig) (g : ConcurrencyGate) (fin : SupplierFinance)
    (now : Int) (ctx : LogContext) (group account : Int) (model mapped : String)
    (format : RequestFormat) (status : Int) (et : ErrorType) {u : UsageTuple}
    (plain : u.ii = 0 ∧ u.io = 0) (fits : Fits u.it ∧ Fits u.ot) (c : TokenCount) :
    recordedCount (some (finish cfg g fin now
      (logWithCtx ctx (buildLog group account model mapped format status et u)))) c =
      if cfg.usageCapture = true ∧ (et = .none ∨ et = .abort) then u.count c else 0 := by
  have routed := finish_usage cfg g fin now
    (logWithCtx ctx (buildLog group account model mapped format status et u))
  change (if cfg.usageCapture = true ∧ (et = .none ∨ et = .abort) then _ else _) at routed
  unfold recordedCount
  rw [Option.bind_some]
  split at routed
  case isFalse skipped =>
    rw [routed, if_neg skipped]
  case isTrue passed =>
    obtain ⟨recorded, found, same⟩ := routed
    rw [found, if_pos passed]
    have input : add64 u.it u.ii = u.it := by
      rw [plain.1, add64_of_fits (by rw [add_zero]; exact fits.1), add_zero]
    have output : add64 u.ot u.io = u.ot := by
      rw [plain.2, add64_of_fits (by rw [add_zero]; exact fits.2), add_zero]
    cases c with
    | input => exact same.input.trans input
    | output => exact same.output.trans output
    | cacheRead => exact same.cacheRead
    | cacheWrite => exact same.cacheCreation

/-- A plain session: no continuation store, no model rewrite, no prices. -/
def plainRelay : RelayConfig where
  proxy := { usageCapture := true, billingCapture := false, bill := none }
  sel := { templateID := 1, accountID := 1 }
  dispatch := none
  gated := false
  respModel := ""
  rewriteResponseModelJSON := fun data _ => data
  contFrameID := fun _ => ""
  respImageDetectOn := false
  respImageCountCompleted := fun _ => 0
  groupID := 1
  reqModel := "gpt-4o"
  latency := 0
  ctx := { userID := 1, keyID := 1 }

def tenTokens : Bytes :=
  bytes "\x7b\"type\":\"response.completed\",\"response\":\x7b\"usage\":\x7b\"input_tokens\":10\x7d\x7d\x7d"

/-- Two rounds of ten input tokens each, closed normally by upstream. -/
def twoRounds : Session where
  frames := [{ data := tenTokens }, { data := tenTokens }]
  upClose := some 1000

/-- Two rounds are relayed and only the last one is recorded. -/
theorem last_round_only :
    recordedCount (relayWS plainRelay emptyGate 0 twoRounds) .input = 10 ∧
      roundsTotal (completedUsages (framesRead plainRelay {} twoRounds.frames)) .input = 20 := by
  decide +kernel

end C3Api.Proxy
