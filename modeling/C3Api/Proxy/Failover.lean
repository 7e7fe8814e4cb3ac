import C3Api.Proxy.RetryMatrix
import C3Api.Proxy.WsRelay

/-!
# The failover loop

`failoverLoopWithPlan` of `proxy/pipeline.go`. A run is the list of what the loop does:
the leases it takes and gives back, its upstream calls, the logs it hands on and the
accounts it marks. What the upstream, the plan and the client's context answer are
sequences that the run reads. The retry gate asks for the client only when a call failed
without a status, so a rate-limited call is tried again for a client that has gone.
-/

namespace C3Api.Proxy

open List

def normalizedAttempts (failoverAttempts : Int) : Nat :=
  if failoverAttempts ≤ 0 then 3 else (min failoverAttempts 8).toNat

inductive RuleKind where
  | status429 | status4xx | status5xx | network
  deriving DecidableEq

def ruleKindOf (httpStatus : Int) : RuleKind :=
  if httpStatus = 0 then .network else .status5xx

structure RuleEvent where
  accountID : Int
  kind : RuleKind
  httpStatus : Option Int
  model : String
  errorMessage : String

def errMsgMaxLen : Nat := 500

def truncateErrMsg (s : String) : String :=
  if s.utf8ByteSize ≤ errMsgMaxLen then s
  else if s.toList.length ≤ errMsgMaxLen then s
  else String.ofList (s.toList.take errMsgMaxLen)

def withEgressNote (note msg : String) : String :=
  if note = "" then truncateErrMsg msg
  else if msg = "" then note
  else
    let suffix := " (" ++ note ++ ")"
    if errMsgMaxLen ≤ suffix.toList.length then note
    else String.ofList (msg.toList.take (errMsgMaxLen - suffix.toList.length)) ++ suffix

/-- What an upstream call answers, whether it gave back its lease, and the two looks at
the client's context that follow it. A context that has ended stays so. -/
structure CallResult where
  code : Int
  respBody : String := ""
  handled : Bool := false
  callErr : Option String := none
  released : Bool := false
  cancelled : Bool := false
  cancelledAtRetry : Bool := cancelled
  stays : cancelled = true → cancelledAtRetry = true := by decide

structure Leased where
  lease : Nat
  sel : Selection
  attempt : Scheduler.Attempt

inductive Event where
  | reserve (lease : Nat)
  | release (lease : Nat)
  | call (lease : Nat) (result : CallResult)
  | reject (log : UsageLog) (msg : String)
  | finish (log : UsageLog) (msg : Option String)
  | record (log : UsageLog) (msg : Option String)
  | mark (event : RuleEvent)

def statusClientClosedRequest : Int := 499

def errNoPrice : FormatError := ⟨402, "no price configured for this model"⟩

/-- A request in the loop and the sequences that answer it: the `n`-th call and the `n`-th
reservation. The path queries on a body, the prices, the rule table and the model that is
logged are functions. -/
structure Failover where
  failoverAttempts : Int
  precheck : Bool
  priced : Selection → Bool
  hardContinuation : Bool
  format : RequestFormat
  groupID : Int
  reqModel : String
  ctx : LogContext
  usageIdentity : Selection → String
  upstreamErrMsg : String → String
  egressNote : Selection → String
  punishes : RuleEvent → Bool
  call : Nat → CallResult
  reserve : Nat → Option (Selection × Scheduler.Attempt)

namespace Failover

def log (f : Failover) (sel : Selection) (status : Int) (et : ErrorType) : UsageLog :=
  logWithCtx f.ctx
    (buildLog f.groupID sel.accountID f.reqModel (f.usageIdentity sel) f.format status et {})

def mark (f : Failover) (sel : Selection) (kind : RuleKind) (httpStatus : Option Int)
    (msg : String) : List Event :=
  let event : RuleEvent :=
    { accountID := sel.accountID, kind, httpStatus, model := sel.model, errorMessage := msg }
  if f.punishes event then [.mark event] else []

/-- What the classification of a failed call does, the text it keeps and whether the
request has ended with it. -/
structure Classified where
  events : List Event
  lastErrMsg : String
  terminate : Bool

def nonempty (msg : String) : Option String := if msg = "" then none else some msg

def failureText (f : Failover) (sel : Selection) (r : CallResult) : String :=
  let answered :=
    if f.upstreamErrMsg r.respBody = "" then truncateErrMsg r.respBody
    else truncateErrMsg (f.upstreamErrMsg r.respBody)
  if r.code = 0 then
    withEgressNote (f.egressNote sel) (r.callErr.elim answered truncateErrMsg)
  else answered

def classifyFailoverAttempt (f : Failover) (cur : Leased) (r : CallResult) : Classified :=
  if r.code = statusTooManyRequests then
    let msg := truncateErrMsg (f.upstreamErrMsg r.respBody)
    let msg := if msg = "" then truncateErrMsg r.respBody else msg
    ⟨f.mark cur.sel .status429 (some r.code) msg, msg, false⟩
  else if 500 ≤ r.code ∨ r.code = 0 then
    if r.code = 0 ∧ r.cancelled then
      ⟨[.release cur.lease, .finish (f.log cur.sel statusClientClosedRequest .abort)
        (some "client closed request before upstream response")], "", true⟩
    else
      let msg := f.failureText cur.sel r
      let status := if 0 < r.code then some r.code else none
      ⟨f.mark cur.sel (ruleKindOf r.code) status msg, msg, false⟩
  else
    let msg := truncateErrMsg r.respBody
    let msg := if msg = "" then truncateErrMsg (r.callErr.getD "") else msg
    ⟨[.release cur.lease, .finish (f.log cur.sel r.code .status4xx) (nonempty msg)] ++
      f.mark cur.sel .status4xx (some r.code) msg, "", true⟩

def exhaustedType (code : Int) : ErrorType :=
  if code = statusTooManyRequests then .status429 else if code = 0 then .network else .status5xx

def writeFailoverExhausted (f : Failover) (sel : Selection) (code : Int) (msg : String) :
    List Event :=
  [.record (f.log sel code (exhaustedType code)) (nonempty msg)]

/-- `reservePlanAttempt`: a lease whose attempt fails its checks is given back at once. -/
def selectNextWithPlan (f : Failover) (n : Nat) : List Event × Option Leased :=
  match f.reserve n with
  | none => ([], none)
  | some (sel, attempt) =>
    if validateAttempt attempt = .ok () then ([.reserve (n + 1)], some ⟨n + 1, sel, attempt⟩)
    else ([.reserve (n + 1), .release (n + 1)], none)

inductive Verdict where
  | done
  | exhausted (lastErrMsg : String)
  | again (lastErrMsg : String)

def round (f : Failover) (n : Nat) (cur : Leased) : List Event × Verdict :=
  if f.precheck && !f.priced cur.sel then
    ([.reject (f.log cur.sel errNoPrice.status .billing) errNoPrice.msg, .release cur.lease],
      .done)
  else
    let r := f.call n
    if r.handled then
      (.call cur.lease r :: if r.released then [.release cur.lease] else [], .done)
    else
      let c := f.classifyFailoverAttempt cur r
      if c.terminate then (.call cur.lease r :: c.events, .done)
      else
        (.call cur.lease r :: (c.events ++ [.release cur.lease]),
          if shouldRetryWithPlan r.cancelledAtRetry r.code r.callErr cur.attempt
            f.hardContinuation then .again c.lastErrMsg
          else .exhausted c.lastErrMsg)

/-- The rounds from the `n`-th call on, `left` more being allowed after it. -/
def rounds (f : Failover) (left n : Nat) (cur : Leased) : List Event :=
  (f.round n cur).1 ++
    match (f.round n cur).2 with
    | .done => []
    | .exhausted msg => f.writeFailoverExhausted cur.sel (f.call n).code msg
    | .again msg =>
      match left with
      | 0 => f.writeFailoverExhausted cur.sel (f.call n).code msg
      | left + 1 =>
        (f.selectNextWithPlan n).1 ++
          match (f.selectNextWithPlan n).2 with
          | none => f.writeFailoverExhausted cur.sel (f.call n).code msg
          | some next => rounds f left (n + 1) next

/-- The loop, entered with the selection of lease 0. -/
def failoverLoopWithPlan (f : Failover) (sel : Selection) (attempt : Scheduler.Attempt) :
    List Event :=
  f.rounds (normalizedAttempts f.failoverAttempts - 1) 0 ⟨0, sel, attempt⟩

def callsIn : List Event → List CallResult :=
  List.filterMap fun
    | .call _ r => some r
    | _ => none

def hold (held : List Nat) : Event → List Nat
  | .reserve lease => lease :: held
  | .release lease => held.filter (· ≠ lease)
  | _ => held

def heldAfter (held : List Nat) (events : List Event) : List Nat := events.foldl hold held

/-- What allows another call: an unhandled rate limit or an unhandled failure to reach the
upstream, on an ordinary request whose client is still there. -/
structure MayRetry (f : Failover) (r : CallResult) : Prop where
  unhandled : r.handled = false
  transient : r.code = statusTooManyRequests ∨ (r.code = 0 ∧ r.callErr.isSome)
  ordinary : f.hardContinuation = false
  present : r.cancelledAtRetry = false

/-- The answers after which the loop goes on from the `n`-th call with a next lease. -/
structure Continues (f : Failover) (n : Nat) (cur next : Leased) : Prop where
  charged : (f.precheck && !f.priced cur.sel) = false
  unhandled : (f.call n).handled = false
  retried : shouldRetryWithPlan (f.call n).cancelledAtRetry (f.call n).code (f.call n).callErr
    cur.attempt f.hardContinuation = true
  reserved : f.reserve n = some (next.sel, next.attempt)
  valid : validateAttempt next.attempt = .ok ()
  numbered : next.lease = n + 1

/-- The `m`-th call is due for a loop at the `n`-th, `left` more being allowed after it. -/
inductive Due (f : Failover) : Nat → Nat → Leased → Nat → Prop
  | now {left n cur} : (f.precheck && !f.priced cur.sel) = false → Due f left n cur n
  | later {left n cur next m} : f.Continues n cur next → Due f left (n + 1) next m →
    Due f (left + 1) n cur m

theorem callsIn_append (left right : List Event) :
    callsIn (left ++ right) = callsIn left ++ callsIn right := filterMap_append

theorem heldAfter_append (held : List Nat) (left right : List Event) :
    heldAfter held (left ++ right) = heldAfter (heldAfter held left) right := foldl_append

variable (f : Failover) (n : Nat) (cur : Leased)

@[simp] theorem callsIn_mark (sel : Selection) (kind : RuleKind) (status : Option Int)
    (msg : String) : callsIn (f.mark sel kind status msg) = [] := by
  unfold mark
  dsimp only
  split <;> rfl

@[simp] theorem heldAfter_mark (held : List Nat) (sel : Selection) (kind : RuleKind)
    (status : Option Int) (msg : String) : heldAfter held (f.mark sel kind status msg) = held := by
  unfold mark
  dsimp only
  split <;> rfl

theorem callsIn_classify (r : CallResult) :
    callsIn (f.classifyFailoverAttempt cur r).events = [] := by
  unfold classifyFailoverAttempt
  split
  · exact callsIn_mark ..
  split
  · split
    · rfl
    · exact callsIn_mark ..
  · rw [callsIn_append, callsIn_mark]
    rfl

theorem heldAfter_classify (r : CallResult) :
    heldAfter [cur.lease] (f.classifyFailoverAttempt cur r).events =
      if (f.classifyFailoverAttempt cur r).terminate then [] else [cur.lease] := by
  unfold classifyFailoverAttempt
  split
  · exact heldAfter_mark ..
  split
  · split
    · simp [heldAfter, hold]
    · exact heldAfter_mark ..
  · rw [heldAfter_append, heldAfter_mark]
    simp [heldAfter, hold]

theorem heldAfter_round (returned : (f.call n).handled = true → (f.call n).released = true) :
    heldAfter [cur.lease] (f.round n cur).1 = [] := by
  have classified := heldAfter_classify f cur (f.call n)
  unfold round
  split
  · simp [heldAfter, hold]
  dsimp only
  split
  next handled =>
    rw [if_pos (returned handled)]
    simp [heldAfter, hold]
  split
  next ends =>
    rw [if_pos ends] at classified
    exact classified
  next goesOn =>
    change heldAfter [cur.lease] (_ ++ _) = []
    rw [heldAfter_append, classified]
    simp [heldAfter, hold]

theorem callsIn_round : callsIn (f.round n cur).1 =
    if (f.precheck && !f.priced cur.sel) = false then [f.call n] else [] := by
  unfold round
  cases f.precheck && !f.priced cur.sel with
  | true => rfl
  | false =>
    simp only [Bool.false_eq_true, ↓reduceIte]
    split
    · split <;> rfl
    split
    · exact congrArg (f.call n :: ·) (callsIn_classify f cur (f.call n))
    change f.call n :: callsIn (_ ++ _) = _
    rw [callsIn_append, callsIn_classify]
    rfl

/-- A call that the gate lets go on is not the end of the request. -/
theorem classify_retried {f : Failover} {cur : Leased} {r : CallResult}
    (retried : shouldRetryWithPlan r.cancelledAtRetry r.code r.callErr cur.attempt
      f.hardContinuation = true) : (f.classifyFailoverAttempt cur r).terminate = false := by
  obtain ⟨-, limited | ⟨zero, -, present⟩⟩ := of_shouldRetryWithPlan retried
  · simp [classifyFailoverAttempt, limited, statusTooManyRequests]
  · have here : r.cancelled = false := by
      cases cancelled : r.cancelled with
      | false => rfl
      | true => exact absurd (r.stays cancelled) (by simp [present])
    simp [classifyFailoverAttempt, zero, here, statusTooManyRequests]

/-- A round asks for another where it has made its call and the gate lets it. -/
theorem round_again : (∃ msg, (f.round n cur).2 = .again msg) ↔
    (f.precheck && !f.priced cur.sel) = false ∧ (f.call n).handled = false ∧
      shouldRetryWithPlan (f.call n).cancelledAtRetry (f.call n).code (f.call n).callErr
        cur.attempt f.hardContinuation = true := by
  unfold round
  cases f.precheck && !f.priced cur.sel with
  | true => simp
  | false =>
    simp only [Bool.false_eq_true, ↓reduceIte]
    split
    next handled => simp [handled]
    next unhandled =>
    split
    next ends =>
      simp only [reduceCtorEq, exists_false, false_iff]
      rintro ⟨-, -, retried⟩
      exact absurd ends (by simp [classify_retried retried])
    next goesOn =>
      split
      next retried => simp [unhandled, retried]
      next stopped => simp [stopped]

theorem heldAfter_selectNext :
    heldAfter [] (f.selectNextWithPlan n).1 =
      ((f.selectNextWithPlan n).2.map Leased.lease).toList := by
  unfold selectNextWithPlan
  split
  · rfl
  split
  · rfl
  · simp [heldAfter, hold]

theorem callsIn_selectNext : callsIn (f.selectNextWithPlan n).1 = [] := by
  unfold selectNextWithPlan
  split
  · rfl
  split <;> rfl

/-- Events that neither call nor leave a lease behind. -/
structure Quiet (events : List Event) : Prop where
  calls : callsIn events = []
  leases : heldAfter [] events = []

theorem quiet_exhausted (sel : Selection) (code : Int) (msg : String) :
    Quiet (f.writeFailoverExhausted sel code msg) := ⟨rfl, rfl⟩

theorem quiet_selectNext {f : Failover} {n : Nat} (stopped : (f.selectNextWithPlan n).2 = none) :
    Quiet (f.selectNextWithPlan n).1 := by
  have leases := heldAfter_selectNext f n
  rw [stopped] at leases
  exact ⟨callsIn_selectNext f n, leases⟩

theorem Quiet.append {left right : List Event} (first : Quiet left) (second : Quiet right) :
    Quiet (left ++ right) := by
  refine ⟨?_, ?_⟩
  · rw [callsIn_append, first.calls, second.calls, nil_append]
  · rw [heldAfter_append, first.leases, second.leases]

theorem selectNext_eq_some {f : Failover} {n : Nat} {next : Leased} :
    (f.selectNextWithPlan n).2 = some next ↔ f.reserve n = some (next.sel, next.attempt) ∧
      validateAttempt next.attempt = .ok () ∧ next.lease = n + 1 := by
  obtain ⟨lease, sel, attempt⟩ := next
  unfold selectNextWithPlan
  cases f.reserve n with
  | none => simp
  | some found =>
    obtain ⟨foundSel, foundAttempt⟩ := found
    dsimp only
    split
    next valid =>
      rw [Option.some.injEq, Leased.mk.injEq, Option.some.injEq, Prod.mk.injEq]
      constructor
      · rintro ⟨rfl, rfl, rfl⟩
        exact ⟨⟨rfl, rfl⟩, valid, rfl⟩
      · rintro ⟨⟨rfl, rfl⟩, -, rfl⟩
        exact ⟨rfl, rfl, rfl⟩
    next invalid =>
      simp only [reduceCtorEq, false_iff]
      rintro ⟨same, valid, -⟩
      cases same
      exact invalid valid

/-- The induction over a run: after a round the loop stops quietly, or it goes on with the
next lease. -/
theorem rounds_induction {motive : Nat → Nat → Leased → Prop}
    (stop : ∀ left n cur rest, f.rounds left n cur = (f.round n cur).1 ++ rest → Quiet rest →
      (left = 0 ∨ ∀ next, ¬f.Continues n cur next) → motive left n cur)
    (more : ∀ left n cur next, f.rounds (left + 1) n cur =
        (f.round n cur).1 ++ ((f.selectNextWithPlan n).1 ++ f.rounds left (n + 1) next) →
      f.Continues n cur next → motive left (n + 1) next → motive (left + 1) n cur)
    (left n : Nat) (cur : Leased) : motive left n cur := by
  have ended : ∀ {n cur}, (∀ msg, (f.round n cur).2 ≠ .again msg) →
      ∀ next, ¬f.Continues n cur next := by
    intro n cur final next continues
    obtain ⟨msg, again⟩ := (round_again f n cur).mpr
      ⟨continues.charged, continues.unhandled, continues.retried⟩
    exact final msg again
  induction left generalizing n cur with
  | zero =>
    cases verdict : (f.round n cur).2 with
    | done => exact stop _ _ _ [] (by rw [rounds, verdict]) ⟨rfl, rfl⟩ (.inl rfl)
    | exhausted msg => exact stop _ _ _ _ (by rw [rounds, verdict]) (quiet_exhausted ..) (.inl rfl)
    | again msg => exact stop _ _ _ _ (by rw [rounds, verdict]) (quiet_exhausted ..) (.inl rfl)
  | succ left ih =>
    cases verdict : (f.round n cur).2 with
    | done =>
      exact stop _ _ _ [] (by rw [rounds, verdict]) ⟨rfl, rfl⟩ (.inr (ended (by simp [verdict])))
    | exhausted msg =>
      exact stop _ _ _ _ (by rw [rounds, verdict]) (quiet_exhausted ..)
        (.inr (ended (by simp [verdict])))
    | again msg =>
      obtain ⟨charged, unhandled, retried⟩ := (round_again f n cur).mp ⟨msg, verdict⟩
      cases selected : (f.selectNextWithPlan n).2 with
      | none =>
        refine stop _ _ _
          ((f.selectNextWithPlan n).1 ++ f.writeFailoverExhausted cur.sel (f.call n).code msg)
          (by rw [rounds, verdict]; simp only [selected])
          ((quiet_selectNext selected).append (quiet_exhausted ..)) (.inr ?_)
        intro next continues
        have found := selectNext_eq_some.mpr
          ⟨continues.reserved, continues.valid, continues.numbered⟩
        rw [selected] at found
        cases found
      | some next =>
        obtain ⟨reserved, valid, numbered⟩ := selectNext_eq_some.mp selected
        exact more _ _ _ next (by rw [rounds, verdict]; simp only [selected])
          ⟨charged, unhandled, retried, reserved, valid, numbered⟩ (ih (n + 1) next)

theorem heldAfter_rounds {f : Failover}
    (returned : ∀ n, (f.call n).handled = true → (f.call n).released = true)
    (left n : Nat) (cur : Leased) : heldAfter [cur.lease] (f.rounds left n cur) = [] := by
  refine rounds_induction f (motive := fun left n cur =>
    heldAfter [cur.lease] (f.rounds left n cur) = []) ?_ ?_ left n cur
  · intro left n cur rest run quiet _
    rw [run, heldAfter_append, heldAfter_round f n cur (returned n), quiet.leases]
  · intro left n cur next run continues released
    have found := selectNext_eq_some.mpr ⟨continues.reserved, continues.valid, continues.numbered⟩
    rw [run, heldAfter_append, heldAfter_round f n cur (returned n), heldAfter_append,
      heldAfter_selectNext, found]
    exact released

theorem length_callsIn_round : (callsIn (f.round n cur).1).length ≤ 1 := by
  rw [callsIn_round]
  split
  · exact le_rfl
  · exact Nat.zero_le 1

/-- The run makes at most a call a round. -/
theorem length_callsIn_rounds (left : Nat) : (callsIn (f.rounds left n cur)).length ≤ left + 1 := by
  refine rounds_induction f (motive := fun left n cur =>
    (callsIn (f.rounds left n cur)).length ≤ left + 1) ?_ ?_ left n cur
  · intro left n cur rest run quiet _
    rw [run, callsIn_append, quiet.calls, append_nil]
    exact (length_callsIn_round f n cur).trans (Nat.le_add_left 1 left)
  · intro left n cur next run _ later
    have one := length_callsIn_round f n cur
    rw [run, callsIn_append, callsIn_append, callsIn_selectNext, nil_append, length_append]
    omega

section Due

variable {f} {left n cur} {next : Leased} {m : Nat}

theorem Due.le (due : f.Due left n cur m) : n ≤ m := by
  induction due with
  | now => exact le_rfl
  | later _ _ ih => exact (Nat.le_succ _).trans ih

theorem Continues.unique {other : Leased} (first : f.Continues n cur next)
    (second : f.Continues n cur other) : other = next := by
  have same := first.reserved.symm.trans second.reserved
  have numbered := second.numbered.trans first.numbered.symm
  cases next
  cases other
  simp_all

theorem due_later (continues : f.Continues n cur next) (further : n < m) :
    f.Due (left + 1) n cur m ↔ f.Due left (n + 1) next m := by
  refine ⟨fun due => ?_, .later continues⟩
  cases due with
  | now => exact absurd further (Nat.lt_irrefl _)
  | later other due => rwa [← continues.unique other]

theorem due_first : f.Due left n cur n ↔ (f.precheck && !f.priced cur.sel) = false := by
  refine ⟨fun due => ?_, .now⟩
  cases due with
  | now charged => exact charged
  | later _ due => exact absurd due.le (Nat.not_succ_le_self n)

theorem not_due_of_stop (stops : left = 0 ∨ ∀ next, ¬f.Continues n cur next) (further : n < m) :
    ¬f.Due left n cur m := by
  intro due
  cases due with
  | now => exact absurd further (Nat.lt_irrefl _)
  | later continues _ => exact stops.elim (nofun) fun none => none _ continues

/-- A run calls at once or never. -/
theorem callsIn_rounds (f : Failover) (left n : Nat) (cur : Leased) :
    (f.Due left n cur n ∧ ∃ rest, callsIn (f.rounds left n cur) = f.call n :: rest) ∨
      (¬f.Due left n cur n ∧ callsIn (f.rounds left n cur) = []) := by
  have calls := callsIn_round f n cur
  rw [due_first]
  by_cases charged : (f.precheck && !f.priced cur.sel) = false
  · rw [if_pos charged] at calls
    refine .inl ⟨charged, ?_⟩
    rw [rounds, callsIn_append, calls]
    exact ⟨_, rfl⟩
  · rw [if_neg charged] at calls
    refine .inr ⟨charged, ?_⟩
    refine rounds_induction f (motive := fun left n cur =>
      callsIn (f.round n cur).1 = [] → callsIn (f.rounds left n cur) = []) ?_ ?_ left n cur calls
    · intro left n cur rest run quiet _ none
      rw [run, callsIn_append, none, quiet.calls, append_nil]
    · intro left n cur next run continues _ none
      rw [callsIn_round, if_pos continues.charged] at none
      cases none

theorem Continues.mayRetry (continues : f.Continues n cur next) :
    f.MayRetry (f.call n) ↔
      ((f.call n).code = statusTooManyRequests → (f.call n).cancelledAtRetry = false) := by
  obtain ⟨ordinary, transient⟩ := of_shouldRetryWithPlan continues.retried
  refine ⟨fun mayRetry _ => mayRetry.present, fun present => ?_⟩
  exact
    { unhandled := continues.unhandled
      transient := transient.imp_right fun failed => ⟨failed.1, failed.2.1⟩
      ordinary
      present := transient.elim present fun failed => failed.2.2 }

/-- A call is followed by another where it may be, as long as no rate limit before a due call
finds the client gone. -/
theorem isChain_rounds (f : Failover) (left n : Nat) (cur : Leased) :
    ((callsIn (f.rounds left n cur)).IsChain fun earlier _ => f.MayRetry earlier) ↔
      ∀ m, n ≤ m → f.Due left n cur (m + 1) → (f.call m).code = statusTooManyRequests →
        (f.call m).cancelledAtRetry = false := by
  refine rounds_induction f (motive := fun left n cur =>
    ((callsIn (f.rounds left n cur)).IsChain fun earlier _ => f.MayRetry earlier) ↔
      ∀ m, n ≤ m → f.Due left n cur (m + 1) → (f.call m).code = statusTooManyRequests →
        (f.call m).cancelledAtRetry = false) ?_ ?_ left n cur
  · intro left n cur rest run quiet stops
    have chain : (callsIn (f.rounds left n cur)).IsChain fun earlier _ => f.MayRetry earlier := by
      rw [run, callsIn_append, quiet.calls, append_nil, callsIn_round]
      split
      · exact .singleton _
      · exact .nil
    simp only [chain, true_iff]
    intro m later due
    exact absurd due (not_due_of_stop stops (Nat.lt_succ_of_le later))
  · intro left n cur next run continues ih
    have calls : callsIn (f.rounds (left + 1) n cur) =
        f.call n :: callsIn (f.rounds left (n + 1) next) := by
      rw [run, callsIn_append, callsIn_append, callsIn_selectNext, nil_append, callsIn_round,
        if_pos continues.charged]
      rfl
    have chain : ((callsIn (f.rounds (left + 1) n cur)).IsChain fun earlier _ =>
        f.MayRetry earlier) ↔ (f.Due left (n + 1) next (n + 1) → f.MayRetry (f.call n)) ∧
          (callsIn (f.rounds left (n + 1) next)).IsChain fun earlier _ => f.MayRetry earlier := by
      rw [calls]
      rcases callsIn_rounds f left (n + 1) next with ⟨due, rest, later⟩ | ⟨undue, none⟩
      · rw [later, isChain_cons_cons]
        simp only [due, true_implies]
      · rw [none]
        simp [undue]
    rw [chain, ih, continues.mayRetry]
    constructor
    · rintro ⟨here, after⟩ m later due
      have due := (due_later continues (Nat.lt_succ_of_le later)).mp due
      rcases later.eq_or_lt with rfl | later
      · exact here due
      · exact after m later due
    · refine fun all => ⟨fun due => all n le_rfl (.later continues due), fun m later due => ?_⟩
      exact all m (Nat.le_of_succ_le later) (.later continues due)

end Due

theorem normalizedAttempts_pos (failoverAttempts : Int) :
    0 < normalizedAttempts failoverAttempts := by
  unfold normalizedAttempts
  split <;> omega

/-- The loop stays within its limit and returns every lease; it calls again only where it may
exactly when no rate limit before a due call is classified for a client that has gone. -/
theorem failover_discipline (f : Failover) (sel : Selection) (attempt : Scheduler.Attempt)
    (returned : ∀ n, (f.call n).handled = true → (f.call n).released = true) :
    let run := f.failoverLoopWithPlan sel attempt
    (callsIn run).length ≤ normalizedAttempts f.failoverAttempts ∧ heldAfter [0] run = [] ∧
      (((callsIn run).IsChain fun earlier _ => f.MayRetry earlier) ↔
        ∀ n, f.Due (normalizedAttempts f.failoverAttempts - 1) 0 ⟨0, sel, attempt⟩ (n + 1) →
          (f.call n).code = statusTooManyRequests → (f.call n).cancelledAtRetry = false) := by
  have positive := normalizedAttempts_pos f.failoverAttempts
  refine ⟨?_, heldAfter_rounds returned _ 0 ⟨0, sel, attempt⟩, ?_⟩
  · exact (length_callsIn_rounds f 0 ⟨0, sel, attempt⟩ _).trans (Nat.sub_add_cancel positive).le
  · rw [failoverLoopWithPlan, isChain_rounds]
    simp only [Nat.zero_le, true_implies]

def plainAttempt : Scheduler.Attempt where
  attemptID := "r:1"
  routeClassID := "rc"
  qualityClassID := "qc"
  candidateFingerprint := "fp"
  templateID := 1
  accountID := 1
  requestedModel := "m"
  mappedModel := "m"
  lane := .primary
  ordinal := 1
  routingGeneration := 1
  identityRevision := 1
  previousAttemptID := none
  previousAccountID := none
  callerCategory := .chat
  operationTag := .chatCompletions

def twoAttempts (call : Nat → CallResult) : Failover where
  failoverAttempts := 2
  precheck := false
  priced := fun _ => true
  hardContinuation := false
  format := .openAIChat
  groupID := 1
  reqModel := "m"
  ctx := {}
  usageIdentity := fun _ => ""
  upstreamErrMsg := fun _ => ""
  egressNote := fun _ => ""
  punishes := fun _ => true
  call := call
  reserve := fun _ => some ({}, plainAttempt)

theorem failover_discipline_limited :
    let f := twoAttempts fun _ => { code := 429 }
    (callsIn (f.failoverLoopWithPlan {} plainAttempt)).length = 2 ∧
      heldAfter [0] (f.failoverLoopWithPlan {} plainAttempt) = [] ∧
      (callsIn (f.failoverLoopWithPlan {} plainAttempt)).IsChain fun earlier _ =>
        f.MayRetry earlier := by
  intro f
  obtain ⟨-, leases, chain⟩ := failover_discipline f {} plainAttempt (by simp [f, twoAttempts])
  exact ⟨by decide +kernel, leases, chain.mpr fun _ _ _ => rfl⟩

/-- The client has gone when the rate limit arrives, and the second account is called. -/
theorem gone_client_retried :
    let f := twoAttempts fun _ => { code := 429, cancelled := true }
    ¬ (callsIn (f.failoverLoopWithPlan {} plainAttempt)).IsChain fun earlier _ =>
      f.MayRetry earlier := by
  intro f chain
  cases chain with
  | cons_cons mayRetry _ => exact absurd mayRetry.present (by decide)

end Failover

end C3Api.Proxy
