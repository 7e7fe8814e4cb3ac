import C3Api.Proxy.AttemptOutcome
import C3Api.Scheduler.Session

/-!
# The retry matrix

`proxy/retry_matrix.go`, `proxy/dispatch_identity.go` and the retry gate of
`proxy/failover_plan.go`. A failed call is put on top of the attempt's identity as an
outcome, and the matrix decides whether another account may be tried. The client's
context is looked at for a connection-level failure only.
-/

namespace C3Api.Proxy

open Machine

def laneOf : Scheduler.AttemptLane → LaneID
  | .primary => .primary
  | .explore => .explore
  | .degraded => .degraded

def callerCategoryOf : Scheduler.CallerKind → CallerCategory
  | .chat => .chat
  | .responses => .responses
  | .anthropic => .anthropic
  | .images => .images
  | .search => .search
  | .ws => .responsesWS

def attemptChecks (a : Scheduler.Attempt) : List AttemptOutcome.Check :=
  [(a.attemptID == "", "AttemptID required"),
    (a.routeClassID == "", "RouteClassID required"),
    (a.qualityClassID == "", "QualityClassID required"),
    (a.candidateFingerprint == "", "CandidateFingerprint required"),
    (a.templateID == 0, "TemplateID required"),
    (a.accountID == 0, "AccountID required"),
    (a.requestedModel == "", "RequestedModel required"),
    (a.mappedModel == "", "MappedModel required"),
    (a.ordinal == 0, "Ordinal must be >0"),
    (a.routingGeneration == 0, "RoutingGeneration must be >0"),
    (decide (a.identityRevision ≤ 0), "IdentityRevision must be >0"),
    (a.ordinal == 1 && a.previousAttemptID.isSome, "PreviousAttemptID must be nil for ordinal 1"),
    (decide (1 < a.ordinal) && (a.previousAttemptID.getD "" == ""),
      "PreviousAttemptID required for ordinal >1")]

def validateAttempt (a : Scheduler.Attempt) : Except String Unit :=
  AttemptOutcome.firstError (attemptChecks a)

def pipelineBase (a : Scheduler.Attempt) : AttemptOutcome where
  id := a.attemptID
  routeClassID := a.routeClassID
  qualityClassID := a.qualityClassID
  fingerprint := a.candidateFingerprint
  templateID := a.templateID
  accountID := a.accountID
  requestedModel := a.requestedModel
  mappedModel := a.mappedModel
  callerCategory := some (callerCategoryOf a.callerCategory)
  operationTag := a.operationTag.name
  ordinal := a.ordinal
  identityRevision := a.identityRevision
  lane := some (laneOf a.lane)
  generation := wrap a.routingGeneration
  previousAttemptID := a.previousAttemptID

def dispatchFailureOutcome (base : AttemptOutcome) (code : Int) (clientCancel terminal : Bool) :
    AttemptOutcome :=
  if clientCancel then
    { base with httpStatus := code, terminal := terminal, result := .clientCancel,
                commit := .notSent }
  else
    { base with httpStatus := code, terminal := terminal, result := .failed,
                commit := if code = 0 then .notSent else .upstreamResponded }

def statusTooManyRequests : Int := 429

/-- `ctxErr` is whether the client's context has ended. -/
def retryOutcomeForAttempt (a : Scheduler.Attempt) (code : Int) (callErr : Option String)
    (ctxErr : Bool) : AttemptOutcome :=
  let clientCancel := decide (code = 0) && ctxErr
  let terminal :=
    if clientCancel then true
    else if code = 0 ∧ callErr.isSome then false
    else if code = statusTooManyRequests then false
    else true
  dispatchFailureOutcome (pipelineBase a) code clientCancel terminal

def AttemptOutcome.hasPossiblyWrittenBytes (o : AttemptOutcome) : Bool :=
  o.commit == .responseStarted || o.commit == .clientCommitted || o.commit == .sentAmbiguous

def canRetry (cat : Option CallerCategory) (o : AttemptOutcome) : Bool :=
  if cat.isNone then false
  else if o.validate ≠ .ok () then false
  else if o.terminal then false
  else if o.result = .localReject ∨ o.result = .reservationReject ∨ o.result = .unknown then false
  else if o.result = .clientCancel then false
  else if o.isMalformed then false
  else if o.hasPossiblyWrittenBytes then false
  else if o.httpStatus = 429 ∧ o.commit = .upstreamResponded then !o.hardContinuation
  else if 500 ≤ o.httpStatus ∧ o.httpStatus ≤ 599 then false
  else
    decide (o.httpStatus = 0) && decide (o.commit = .notSent) && !o.businessFrameSent &&
      decide (o.result = .failed) && !o.isMalformed && !o.hardContinuation

def hardenOutcome (hard : Bool) (o : AttemptOutcome) : AttemptOutcome :=
  if hard then
    { o with
      hardContinuation := true
      terminal := if o.result = .failed ∧ o.httpStatus = statusTooManyRequests then true
        else o.terminal }
  else o

def shouldRetryWithPlan (ctxErr : Bool) (code : Int) (callErr : Option String)
    (a : Scheduler.Attempt) (hard : Bool) : Bool :=
  if a.attemptID = "" ∨ a.accountID = 0 then false
  else
    canRetry (some (callerCategoryOf a.callerCategory))
      (hardenOutcome hard (retryOutcomeForAttempt a code callErr ctxErr))

theorem of_canRetry {cat : Option CallerCategory} {o : AttemptOutcome}
    (retried : canRetry cat o = true) :
    o.validate = .ok () ∧ o.terminal = false ∧ o.hardContinuation = false := by
  unfold canRetry at retried
  split at retried
  · cases retried
  split at retried
  · cases retried
  next valid =>
  split at retried
  · cases retried
  next unfinished =>
  refine ⟨not_not.mp valid, Bool.eq_false_of_not_eq_true unfinished, ?_⟩
  -- the last two answers both ask for an ordinary request
  split at retried
  · cases retried
  split at retried
  · cases retried
  split at retried
  · cases retried
  split at retried
  · cases retried
  split at retried
  · simpa using retried
  split at retried
  · cases retried
  · simp only [Bool.and_eq_true, Bool.not_eq_true'] at retried
    exact retried.2

theorem hardenOutcome_hardContinuation (hard : Bool) (o : AttemptOutcome)
    (ordinary : o.hardContinuation = false) : (hardenOutcome hard o).hardContinuation = hard := by
  cases hard
  · exact ordinary
  · rfl

theorem retryOutcomeForAttempt_terminal (a : Scheduler.Attempt) (code : Int)
    (callErr : Option String) (ctxErr : Bool) :
    (retryOutcomeForAttempt a code callErr ctxErr).terminal = false ↔
      code = 429 ∨ (code = 0 ∧ callErr.isSome ∧ ctxErr = false) := by
  unfold retryOutcomeForAttempt dispatchFailureOutcome statusTooManyRequests
  by_cases zero : code = 0
  · subst zero
    cases ctxErr <;> cases callErr <;> simp
  · by_cases limited : code = 429
    · subst limited
      simp
    · simp [zero, limited]

theorem dispatchFailureOutcome_hardContinuation (base : AttemptOutcome) (code : Int)
    (clientCancel terminal : Bool) :
    (dispatchFailureOutcome base code clientCancel terminal).hardContinuation =
      base.hardContinuation := by
  cases clientCancel <;> rfl

/-- A retry follows a rate limit, or a call that never reached the upstream while the
client was still there; a hard continuation is never moved. -/
theorem of_shouldRetryWithPlan {ctxErr : Bool} {code : Int} {callErr : Option String}
    {a : Scheduler.Attempt} {hard : Bool}
    (retried : shouldRetryWithPlan ctxErr code callErr a hard = true) :
    hard = false ∧ (code = 429 ∨ (code = 0 ∧ callErr.isSome ∧ ctxErr = false)) := by
  unfold shouldRetryWithPlan at retried
  split at retried
  · cases retried
  obtain ⟨-, unfinished, ordinary⟩ := of_canRetry retried
  have kept : (retryOutcomeForAttempt a code callErr ctxErr).hardContinuation = false :=
    dispatchFailureOutcome_hardContinuation (pipelineBase a) code _ _
  rw [hardenOutcome_hardContinuation hard _ kept] at ordinary
  subst ordinary
  exact ⟨rfl, (retryOutcomeForAttempt_terminal a code callErr ctxErr).mp unfinished⟩

end C3Api.Proxy
