import Mathlib.Data.List.Basic

/-!
# Outcomes of an upstream attempt

`proxy/attempt_outcome.go`: what one attempt reports and `Validate`, the list of
checks it must pass before it is recorded. A check is a condition that rejects
and the text of its error; the first that fires is the result.
-/

namespace C3Api.Proxy

inductive LaneID where
  | primary | explore | degraded
  deriving DecidableEq

inductive CommitState where
  | notSent | sentAmbiguous | upstreamResponded | responseStarted | clientCommitted
  deriving DecidableEq

def CommitState.string : CommitState → String
  | .notSent => "not_sent"
  | .sentAmbiguous => "sent_ambiguous"
  | .upstreamResponded => "upstream_responded"
  | .responseStarted => "response_started"
  | .clientCommitted => "client_committed"

inductive AttemptResult where
  | unknown | success | failed | clientCancel | localReject | reservationReject
  deriving DecidableEq

inductive CallerCategory where
  | chat | responses | anthropic | converted | images | imagesCodex | codexHTTP | responsesWS
  | codexWS | search
  deriving DecidableEq

structure AttemptUsage where
  inputTokens : Int := 0
  outputTokens : Int := 0
  cacheReadTokens : Int := 0
  cacheCreationTokens : Int := 0
  callCount : Int := 0

structure AttemptOutcome where
  id : String := ""
  routeClassID : String := ""
  qualityClassID : String := ""
  fingerprint : String := ""
  templateID : Int := 0
  accountID : Int := 0
  requestedModel : String := ""
  mappedModel : String := ""
  callerCategory : Option CallerCategory := none
  operationTag : String := ""
  ordinal : Nat := 0
  identityRevision : Int := 0
  lane : Option LaneID := none
  generation : Int := 0
  commit : CommitState := .notSent
  result : AttemptResult := .unknown
  httpStatus : Int := 0
  latencyMS : Int := 0
  ttftMS : Option Int := none
  usage : AttemptUsage := {}
  previousAttemptID : Option String := none
  terminal : Bool := false
  hardContinuation : Bool := false
  businessFrameSent : Bool := false
  isMalformed : Bool := false

namespace AttemptOutcome

def isDispatched (o : AttemptOutcome) : Bool :=
  o.result ≠ .localReject && o.result ≠ .reservationReject && o.result ≠ .unknown

abbrev Check := Bool × String

def firstError : List Check → Except String Unit
  | [] => .ok ()
  | check :: checks => if check.1 then .error check.2 else firstError checks

theorem firstError_ok_iff (checks : List Check) :
    firstError checks = .ok () ↔ ∀ check ∈ checks, check.1 = false := by
  induction checks with
  | nil => simp [firstError]
  | cons check checks ih =>
    unfold firstError
    cases fires : check.1 <;> simp [fires, ih]

section

variable (o : AttemptOutcome)

def started : Bool :=
  o.commit == .responseStarted || o.commit == .clientCommitted

def frameChecks : List Check :=
  [(o.id == "", "AttemptID empty"),
    (o.result == .unknown, "invalid Result 0"),
    (o.terminal && o.commit == .notSent && o.result != .clientCancel,
      "terminal not_sent is invalid"),
    (o.commit == .notSent && o.businessFrameSent, "not_sent cannot have BusinessFrameSent"),
    (o.started && !o.businessFrameSent,
      "response_started/client_committed requires BusinessFrameSent"),
    (o.commit == .upstreamResponded && o.businessFrameSent,
      "upstream_responded cannot have BusinessFrameSent"),
    (o.commit == .sentAmbiguous && !o.businessFrameSent,
      "sent_ambiguous requires BusinessFrameSent")]

def dispatchedChecks : List Check :=
  [(o.routeClassID == "", "RouteClassID required for dispatched attempt"),
    (o.qualityClassID == "", "QualityClassID required for dispatched attempt"),
    (o.fingerprint == "", "Fingerprint required for dispatched attempt"),
    (o.templateID == 0, "TemplateID required for dispatched attempt"),
    (o.accountID == 0, "AccountID required for dispatched attempt"),
    (o.requestedModel == "", "RequestedModel required for dispatched attempt"),
    (o.mappedModel == "", "MappedModel required for dispatched attempt"),
    (o.callerCategory.isNone, "CallerCategory required and must be valid for dispatched attempt"),
    (o.operationTag == "", "OperationTag required for dispatched attempt"),
    (o.lane.isNone, "Lane required and must be valid for dispatched attempt"),
    (o.ordinal == 0, "Ordinal must be >0 for dispatched attempt"),
    (decide (o.generation ≤ 0), "Generation must be >0"),
    (decide (o.identityRevision ≤ 0), "IdentityRevision must be >0"),
    (o.ordinal == 1 && o.previousAttemptID.isSome, "PreviousAttemptID must be nil for ordinal 1"),
    (decide (1 < o.ordinal) && (o.previousAttemptID.getD "" == ""),
      "PreviousAttemptID required for ordinal >1")]

def rejectedChecks : List Check :=
  [(o.routeClassID != "" || o.qualityClassID != "" || o.fingerprint != "" || o.templateID != 0 ||
      o.accountID != 0 || o.requestedModel != "" || o.mappedModel != "" ||
      o.callerCategory.isSome || o.operationTag != "" || o.lane.isSome || o.generation != 0 ||
      o.identityRevision != 0 || o.ordinal != 0 || o.previousAttemptID.isSome,
      "non-dispatched must have no dispatch metadata"),
    (o.commit != .notSent, "local/reservation reject must be not_sent"),
    (o.httpStatus != 0, "local/reservation reject must have status 0"),
    (o.businessFrameSent, "local/reservation reject cannot have BusinessFrameSent"),
    (o.isMalformed, "local/reservation reject cannot be malformed"),
    (o.terminal, "local/reservation reject cannot be terminal")]

def malformedChecks : List Check :=
  [(o.result != .failed, "malformed must be failed"),
    (!(o.commit == .upstreamResponded || o.started),
      "malformed must be upstream_responded/response_started/client_committed"),
    (o.result == .clientCancel || o.result == .localReject || o.result == .reservationReject,
      "malformed cannot be cancel/local/reservation")]

def amountChecks : List Check :=
  [(decide (o.latencyMS < 0), "LatencyMS must be >=0"),
    (decide (o.ttftMS.getD 0 < 0), "TTFTMS must be >=0"),
    (decide (o.usage.inputTokens < 0) || decide (o.usage.outputTokens < 0) ||
      decide (o.usage.cacheReadTokens < 0) || decide (o.usage.cacheCreationTokens < 0) ||
      decide (o.usage.callCount < 0), "usage tokens must be >=0"),
    (decide (o.httpStatus < 0) || decide (599 < o.httpStatus), "HTTPStatus out of range"),
    (decide (100 ≤ o.httpStatus) && decide (o.httpStatus ≤ 199), "1xx status not allowed"),
    (decide (300 ≤ o.httpStatus) && decide (o.httpStatus ≤ 399), "3xx status not allowed")]

def successChecks : List Check :=
  [(o.isMalformed, "success cannot be malformed"),
    (decide (o.httpStatus < 200) || decide (300 ≤ o.httpStatus), "success must have 2xx status"),
    (!o.started, "success must be response_started or client_committed"),
    (!o.terminal, "success must be terminal"),
    (!o.businessFrameSent, "success must have BusinessFrameSent")]

def networkChecks : List Check :=
  match o.commit with
  | .notSent => [(o.terminal, "not_sent network must not be terminal")]
  | .sentAmbiguous => [(!o.terminal, "sent_ambiguous must be terminal")]
  | .responseStarted | .clientCommitted =>
    [(!o.terminal, "response_started/client_committed network must be terminal"),
      (!o.businessFrameSent, "response_started/client_committed requires BusinessFrameSent")]
  | .upstreamResponded =>
    [(true, "status0 network must be not_sent, sent_ambiguous or " ++
      "response_started/client_committed")]

def failedChecks : List Check :=
  if o.isMalformed then
    [(o.httpStatus != 0 && (decide (o.httpStatus < 200) || decide (599 < o.httpStatus)),
        "malformed status invalid"),
      (!o.terminal, "malformed must be terminal")]
  else if o.httpStatus = 429 then
    [(o.commit != .upstreamResponded, "429 must be upstream_responded"),
      (o.hardContinuation && !o.terminal, "hard 429 must be terminal"),
      (!o.hardContinuation && o.terminal, "ordinary 429 must not be terminal")]
  else if 400 ≤ o.httpStatus ∧ o.httpStatus ≤ 499 then
    [(o.commit != .upstreamResponded, "4xx must be upstream_responded"),
      (!o.terminal, "4xx must be terminal")]
  else if 500 ≤ o.httpStatus ∧ o.httpStatus ≤ 599 then
    [(o.commit != .upstreamResponded, "5xx must be upstream_responded"),
      (!o.terminal, "5xx must be terminal")]
  else if o.httpStatus = 0 then o.networkChecks
  else if 200 ≤ o.httpStatus ∧ o.httpStatus ≤ 299 then [(true, "failed cannot have 2xx status")]
  else [(true, "failed with unexpected status " ++ toString o.httpStatus)]

def cancelChecks : List Check :=
  [(o.isMalformed, "client_cancel cannot be malformed"),
    (o.httpStatus != 0, "client_cancel must have status 0"),
    (o.commit == .upstreamResponded, "client_cancel has invalid commit " ++ o.commit.string),
    (!o.terminal, "client_cancel must be terminal")]

def resultChecks : List Check :=
  match o.result with
  | .success => o.successChecks
  | .failed => o.failedChecks
  | .clientCancel => o.cancelChecks
  | .localReject | .reservationReject => []
  | .unknown => [(true, "unexpected result unknown")]

def commitChecks : List Check :=
  [(o.result == .success && o.commit == .sentAmbiguous, "success cannot be sent_ambiguous"),
    (o.result == .success && o.commit == .upstreamResponded,
      "success cannot be upstream_responded")]

def checks : List Check :=
  o.frameChecks ++ (if o.isDispatched then o.dispatchedChecks else o.rejectedChecks) ++
    (if o.isMalformed then o.malformedChecks else []) ++ o.amountChecks ++ o.resultChecks ++
    o.commitChecks

def validate : Except String Unit := firstError o.checks

end

end AttemptOutcome

end C3Api.Proxy
