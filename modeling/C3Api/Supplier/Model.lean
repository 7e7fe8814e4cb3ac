import C3Api.Encoding.Scan
import C3Api.Proxy.Finish
import C3Api.ReadCommitted.Statement
import Mathlib.Data.List.Sort
import Mathlib.Data.List.Dedup

/-!
# The supplier ledger

The tables of the supplier ledger and the pure functions over them: aggregation
of a credit batch, freeze hours, the payout gate, the risk review and the checks
of a command's input. The clock counts seconds.
-/

namespace C3Api.Supplier

open ReadCommitted
open Machine (maxInt64 minInt64)
open Scan (isSpace)
open C3Api.Proxy (ErrorType UsageLog SupplierFinance stampSupplier)

def secondsPerDay : Nat := 86400

def sourceDay (createdAt : Nat) : Nat := createdAt / secondsPerDay

structure UsageRow where
  errorType : ErrorType := .none
  cost : Int
  billed : Bool := false
  supplierUserID : Option Int := none
  supplierEarnMillis : Int := 0
  supplierCredited : Bool := false
  createdAt : Nat
  deriving DecidableEq

inductive Role where
  | platformAdmin
  | supplier
  | user
  deriving DecidableEq

inductive UserStatus where
  | active
  | disabled
  deriving DecidableEq

structure User where
  role : Role
  status : UserStatus := .active
  tokenVersion : Int := 0

structure SupplierBalance where
  available : Int := 0
  lifetimeCredited : Int := 0
  lifetimePaid : Int := 0
  shareBp : Option Int := none
  freezeHours : Option Int := none
  createdAt : Nat := 0
  updatedAt : Nat := 0

structure SupplierFrozenChunk where
  amount : Int

inductive ReconciliationState where
  | opened
  | closed
  deriving DecidableEq

structure SupplierReconciliation where
  grossCost : Int
  earned : Int
  rowCount : Int
  state : ReconciliationState := .opened
  closedRevision : Option Nat := none
  closedAt : Option Nat := none

inductive SupplierSettlementKind where
  | supplierRequest
  | adminRequest
  deriving DecidableEq

inductive SupplierSettlementStatus where
  | pending
  | approved
  | paying
  | paid
  | rejected
  deriving DecidableEq

structure SupplierPayeeSnapshot where
  payeeName : String
  account : String
  unit : String
  deriving DecidableEq

structure SupplierPayoutFailureConfirmation where
  reason : String
  evidence : String
  confirmedNotPaid : Bool
  oldExecutionStopped : Bool

structure Evidence where
  reference : String
  summary : String

structure RiskReview where
  operatorID : Int
  decidedAt : Int
  scope : String
  evidence : Evidence
  decision : String
  expiresAt : Int
  approvedRevision : Int

/-- The texts that the table holds as JSON are kept as the records they encode; a
payment key is a UUID and never empty. -/
structure SupplierSettlement where
  supplierUserID : Int
  kind : SupplierSettlementKind
  amountMillis : Int
  periodStart : Nat
  periodEnd : Nat
  status : SupplierSettlementStatus := .pending
  revision : Int := 1
  requestKey : String
  requestedAt : Nat
  requestedOperator : Int
  reviewedAt : Option Nat := none
  reviewerUserID : Option Int := none
  payoutOperatorUserID : Option Int := none
  payoutStartedAt : Option Nat := none
  paymentKey : Option Nat := none
  externalRef : Option String := none
  payeeSnapshot : Option SupplierPayeeSnapshot := none
  payoutFailureReason : Option SupplierPayoutFailureConfirmation := none
  payoutFailedAt : Option Nat := none
  riskReview : Option RiskReview := none
  paidAt : Option Nat := none
  paidOperatorUserID : Option Int := none
  note : Option String := none
  rejectReason : Option String := none

/-- The rows of the ledger. A usage row lies in the partition of its UTC day;
`usageID` is the sequence that hands out each id once, `request` and `payment` are
the unique indexes of the settlements. -/
inductive Key where
  | usage (day id : Nat)
  | usageID (id : Nat)
  | partition (day : Nat)
  | user (id : Int)
  | balance (uid : Int)
  | chunk (uid : Int) (availableAt : Nat)
  | reconciliation (uid : Int) (day : Nat)
  | settlement (id : Nat)
  | request (operator : Int) (requestKey : String)
  | payment (paymentKey : Nat)
  deriving DecidableEq

/-- The sequence keeps the day that an id was used for, an index the id of its
settlement. -/
abbrev Row : Key → Type
  | .usage _ _ => UsageRow
  | .usageID _ => Nat
  | .partition _ => Unit
  | .user _ => User
  | .balance _ => SupplierBalance
  | .chunk _ _ => SupplierFrozenChunk
  | .reconciliation _ _ => SupplierReconciliation
  | .settlement _ => SupplierSettlement
  | .request _ _ => Nat
  | .payment _ => Nat

abbrev Rows : Type := Table Row

inductive SupplierError where
  | failure (detail : String)
  | fundsForbidden (detail : String)
  | notFound (detail : String)
  | invalidInput (detail : String)
  | conflict (detail : String)
  | settlementKeyConflict
  | staleRevision (detail : String)
  | payoutGate (detail : String)
  | riskReview (detail : String)
  | retryable
  | storage

structure SupplierRepoConfig where
  granularitySeconds : Int := 3600
  freezeEnabled : Bool := true
  freezeHoursDefault : Int := 0
  billingEnabled : Bool := true
  payoutMaxBacklogRows : Int := 0
  payoutMaxBacklogAge : Int := 0
  payoutMaxObserveAge : Int := 0
  riskReviewMaxAge : Int := 0

def addChecked (a b : Int) : Except SupplierError Int :=
  if 0 < b ∧ maxInt64 - b < a then
    .error (.failure s!"supplier: int64 overflow summing {a} + {b}")
  else if b < 0 ∧ a < minInt64 - b then
    .error (.failure s!"supplier: int64 underflow summing {a} + {b}")
  else .ok (a + b)

structure BatchRow where
  id : Nat
  uid : Int
  cost : Int
  earn : Int
  createdAt : Nat
  deriving DecidableEq

structure UIDCredit where
  uid : Int
  earn : Int
  toFrozen : Int
  toAvailable : Int
  balanced : toAvailable + toFrozen = earn
  deriving DecidableEq

/-- What a batch adds to the reconciliation of a supplier and a source day. -/
structure DayRecon where
  uid : Int
  sourceDay : Nat
  grossCost : Int
  earn : Int
  rows : Int
  deriving DecidableEq

/-- The maps that `AggregateBatch` fills row by row. -/
structure Aggregation where
  seen : List Nat := []
  perUID : Table (fun _ : Int => Int × Int) := ∅
  perDay : Table (fun _ : Int × Nat => DayRecon) := ∅
  rowsEarn : Int := 0

def aggregateRow (a : Aggregation) (r : BatchRow) : Except SupplierError Aggregation := do
  if r.id ∈ a.seen then
    throw (.failure s!"supplier: duplicate batch row id {r.id}")
  if r.earn < 0 ∨ r.cost < 0 then
    throw (.failure s!"supplier: negative earn/cost in row {r.id}")
  let rowsEarn ← addChecked a.rowsEarn r.earn
  let (earn, cost) := (a.perUID.lookup r.uid).getD (0, 0)
  let earn ← addChecked earn r.earn
  let cost ← addChecked cost r.cost
  let day := sourceDay r.createdAt
  let d := (a.perDay.lookup (r.uid, day)).getD ⟨r.uid, day, 0, 0, 0⟩
  let grossCost ← addChecked d.grossCost r.cost
  let dayEarn ← addChecked d.earn r.earn
  let rows ← addChecked d.rows 1
  return { seen := r.id :: a.seen
           perUID := a.perUID.insert r.uid (earn, cost)
           perDay := a.perDay.insert (r.uid, day) { d with grossCost, earn := dayEarn, rows }
           rowsEarn }

def uidCredit (freezeByUID : Int → Int) (uid earn : Int) : UIDCredit :=
  if 0 < freezeByUID uid then
    { uid, earn, toFrozen := earn, toAvailable := 0, balanced := zero_add earn }
  else { uid, earn, toFrozen := 0, toAvailable := earn, balanced := add_zero earn }

def aggregateBatch (rows : List BatchRow) (freezeByUID : Int → Int) :
    Except SupplierError (List UIDCredit × List DayRecon) := do
  let a ← rows.foldlM aggregateRow {}
  let totals := a.perUID.entries.map fun entry => uidCredit freezeByUID entry.1 entry.2.1
  let sumAvail ← totals.foldlM (fun sum t => addChecked sum t.toAvailable) 0
  let sumFrozen ← totals.foldlM (fun sum t => addChecked sum t.toFrozen) 0
  let combined ← addChecked sumAvail sumFrozen
  if combined ≠ a.rowsEarn then
    throw (.failure
      s!"supplier: credit conservation violation: avail+frozen={combined} != earn={a.rowsEarn}")
  return (totals.insertionSort (fun x y => x.uid ≤ y.uid),
    (a.perDay.entries.map Sigma.snd).insertionSort
      (fun x y => x.uid < y.uid ∨ (x.uid = y.uid ∧ x.sourceDay ≤ y.sourceDay)))

def effectiveFreezeHours (freezeEnabled : Bool) (rowOverride : Option Int) (globalDefault : Int) :
    Int :=
  if freezeEnabled then rowOverride.getD globalDefault else 0

structure PayoutGateConfig where
  billingEnabled : Bool
  maxBacklogRows : Int
  maxBacklogAge : Int
  maxObserveAge : Int

structure BillingProbe where
  backlogRows : Int
  oldestCreatedAt : Option Int
  observedAt : Int

def evaluatePayoutGate (cfg : PayoutGateConfig) (p : BillingProbe) (dbNow : Int) :
    Except SupplierError Unit := do
  if !cfg.billingEnabled then throw (.payoutGate "billing disabled")
  if p.backlogRows < 0 then throw (.payoutGate "negative backlog rows")
  if cfg.maxBacklogRows < p.backlogRows then
    throw (.payoutGate s!"backlog_rows {p.backlogRows} > {cfg.maxBacklogRows}")
  if 0 < p.backlogRows then
    match p.oldestCreatedAt with
    | none => throw (.payoutGate s!"backlog_rows {p.backlogRows} but oldest_created_at missing")
    | some oldest =>
      let age := dbNow - oldest
      if age < 0 ∨ cfg.maxBacklogAge < age then
        throw (.payoutGate s!"backlog head age {age} out of [0, {cfg.maxBacklogAge}]")
  let observeAge := dbNow - p.observedAt
  if observeAge < 0 ∨ cfg.maxObserveAge < observeAge then
    throw (.payoutGate s!"observe age {observeAge} out of [0, {cfg.maxObserveAge}]")

def trimSpace (s : String) : String :=
  String.ofList ((s.toList.dropWhile isSpace).reverse.dropWhile isSpace).reverse

def riskReviewScope : String := "platform_credit_risk"

def riskReviewDecision : String := "approve_credit_risk"

def buildRiskReview (actorID : Int) (evidence : Evidence) (approvedRevision decidedAt maxAge : Int) :
    Except SupplierError RiskReview := do
  let reference := trimSpace evidence.reference
  let summary := trimSpace evidence.summary
  if reference = "" ∨ summary = "" then
    throw (.riskReview "evidence reference and summary required")
  if approvedRevision < 1 then throw (.riskReview "approved_revision required")
  return { operatorID := actorID, decidedAt, scope := riskReviewScope, evidence := ⟨reference, summary⟩
           decision := riskReviewDecision, expiresAt := decidedAt + maxAge, approvedRevision }

def validateRiskReview (rr : RiskReview) (actorID expectedRevision now maxAge : Int) :
    Except SupplierError Unit := do
  if rr.operatorID ≠ actorID then
    throw (.riskReview s!"operator_id {rr.operatorID} != actor {actorID}")
  if rr.scope ≠ riskReviewScope then throw (.riskReview s!"scope {rr.scope}")
  if rr.decision ≠ riskReviewDecision then throw (.riskReview s!"decision {rr.decision}")
  if trimSpace rr.evidence.reference = "" ∨ trimSpace rr.evidence.summary = "" then
    throw (.riskReview "evidence incomplete")
  if rr.approvedRevision ≠ expectedRevision then
    throw (.riskReview s!"approved_revision {rr.approvedRevision} != expected {expectedRevision}")
  if now < rr.decidedAt then throw (.riskReview "decided_at in the future")
  if maxAge < now - rr.decidedAt then
    throw (.riskReview "risk review expired (decided_at too old)")
  if rr.decidedAt + maxAge < rr.expiresAt then
    throw (.riskReview "expires_at exceeds decided_at + max_age")
  if rr.expiresAt < now then throw (.riskReview "risk review expired (expires_at)")

structure FundsActor where
  userID : Int
  tokenVersion : Int

structure SupplierRiskEvidence where
  reference : String
  summary : String
  approvedRevision : Int

structure SupplierClaimCommand where
  amountMillis : Int
  settlementRevision : Int
  payee : SupplierPayeeSnapshot
  risk : SupplierRiskEvidence

def SupplierPayeeSnapshot.normalizeAndValidate (p : SupplierPayeeSnapshot) :
    Except SupplierError SupplierPayeeSnapshot :=
  let p : SupplierPayeeSnapshot := ⟨trimSpace p.payeeName, trimSpace p.account, trimSpace p.unit⟩
  if p.payeeName = "" ∨ p.account = "" ∨ p.unit = "" then
    .error (.invalidInput "payee_snapshot requires payee_name/account/unit")
  else .ok p

def SupplierRiskEvidence.normalizeAndValidate (r : SupplierRiskEvidence) (expectedRevision : Int) :
    Except SupplierError SupplierRiskEvidence :=
  let r := { r with reference := trimSpace r.reference, summary := trimSpace r.summary }
  if r.reference = "" ∨ r.summary = "" then
    .error (.invalidInput "risk evidence reference and summary are required")
  else if r.approvedRevision ≠ expectedRevision then
    .error (.invalidInput
      s!"risk approved_revision {r.approvedRevision} != expected {expectedRevision}")
  else .ok r

def SupplierClaimCommand.normalizeAndValidate (c : SupplierClaimCommand) :
    Except SupplierError SupplierClaimCommand := do
  if c.amountMillis ≤ 0 then throw (.invalidInput "amount_millis must be > 0")
  let payee ← c.payee.normalizeAndValidate
  let risk ← c.risk.normalizeAndValidate c.settlementRevision
  return { c with payee, risk }

def SupplierPayoutFailureConfirmation.validate (f : SupplierPayoutFailureConfirmation) :
    Except SupplierError SupplierPayoutFailureConfirmation :=
  let f := { f with reason := trimSpace f.reason, evidence := trimSpace f.evidence }
  if f.reason = "" ∨ f.evidence = "" ∨ !f.confirmedNotPaid ∨ !f.oldExecutionStopped then
    .error (.invalidInput
      "confirm-failed requires reason, evidence and confirmed-not-paid/old-execution-stopped")
  else .ok f

def normalizeExternalRef (ref : String) : Except SupplierError String :=
  if trimSpace ref = "" then .error (.invalidInput "external_ref is required to confirm paid")
  else .ok (trimSpace ref)

structure ApplySettlementRequest where
  operatorUID : Int
  supplierUID : Int
  kind : SupplierSettlementKind
  amountMillis : Int
  requestKey : String
  note : Option String := none
  deriving DecidableEq

def matchSettlement (s : SupplierSettlement) (req : ApplySettlementRequest) :
    Except SupplierError Unit :=
  if s.kind ≠ req.kind ∨ s.supplierUserID ≠ req.supplierUID ∨ s.amountMillis ≠ req.amountMillis then
    .error (.conflict "request_key reused with different parameters")
  else .ok ()

def usageRow (l : UsageLog) (createdAt : Nat) : UsageRow where
  errorType := l.errorType
  cost := l.cost
  billed := l.billed
  supplierUserID := if 0 < l.supplierUserID then some l.supplierUserID else none
  supplierEarnMillis := l.supplierEarnMillis
  supplierCredited := l.supplierCredited
  createdAt

end C3Api.Supplier
