import C3Api.Supplier.Credit

/-!
# Settlements, retirement and the whole system

The settlement request with its recovery after a unique violation, the commands
that move a settlement, and the retirement of a usage partition. The lock on a
partition is a table lock: writing one of its rows takes it shared, dropping it
takes it exclusive.
-/

namespace C3Api.Supplier

open ReadCommitted UsageRow
open C3Api.Proxy (UsageLog SupplierFinance)

def Role.text : Role → String
  | .platformAdmin => "platform_admin"
  | .supplier => "supplier"
  | .user => "user"

def UserStatus.text : UserStatus → String
  | .active => "active"
  | .disabled => "disabled"

def supplierSurfaceRoles : List Role := [.supplier, .platformAdmin]

/-- No roles stand for the platform administrator. -/
def lockFundsOperator (actor : FundsActor) (roles : List Role) (next : Tx) : Tx :=
  .selectForUpdate (.user actor.userID) fun
    | none => .abort (.fundsForbidden s!"operator {actor.userID} not found")
    | some u =>
      if u.role ∉ (if roles = [] then [.platformAdmin] else roles) ∨ u.status ≠ .active then
        .abort (.fundsForbidden
          s!"operator {actor.userID} role={u.role.text} status={u.status.text}")
      else if u.tokenVersion ≠ actor.tokenVersion then
        .abort (.fundsForbidden s!"operator {actor.userID} token_version mismatch")
      else next

def lockSupplierBalanceRow (uid : Int) (next : Bool → Tx) : Tx :=
  .selectForUpdate (.balance uid) (fun row => next row.isSome)

structure SettlementRequestMode where
  name : String
  operatorRoles : List Role := []
  requireBalanceRow : Bool := false

def supplierRequestMode : SettlementRequestMode :=
  { name := "supplier_request", operatorRoles := supplierSurfaceRoles }

def adminRequestMode : SettlementRequestMode :=
  { name := "admin_request", requireBalanceRow := true }

def readSettlementByKey (view : Rows) (operator : Int) (key : String) :
    Option (Nat × SupplierSettlement) :=
  (view.lookup (.request operator key)).bind fun id =>
    (view.lookup (.settlement id)).map fun s => (id, s)

/-- The settlement that the key already names, or what to do without one. -/
def replyByKey (req : ApplySettlementRequest) (missing : Tx) : Tx :=
  .read fun view _ =>
    match readSettlementByKey view req.operatorUID req.requestKey with
    | some (id, s) => orAbort (matchSettlement s req) fun _ => .commit [.replied id req]
    | none => missing

def deduct (now : Nat) (amount : Int) (b : SupplierBalance) : Option SupplierBalance :=
  if amount ≤ b.available then
    some { b with available := b.available - amount, updatedAt := now }
  else none

def periodEnds (view : Rows) (uid : Int) : List Nat :=
  view.entries.filterMap fun
    | ⟨.settlement _, s⟩ => if s.supplierUserID = uid then some s.periodEnd else none
    | _ => none

/-- The end of the last period, the birth of the balance, or the clock. -/
def periodStart (view : Rows) (uid : Int) (clock : Nat) : Nat :=
  (periodEnds view uid).max?.getD
    (((view.lookup (.balance uid)).map SupplierBalance.createdAt).getD clock)

def newSettlement (req : ApplySettlementRequest) (start clock : Nat) : SupplierSettlement where
  supplierUserID := req.supplierUID
  kind := req.kind
  amountMillis := req.amountMillis
  periodStart := start
  periodEnd := max start clock
  requestKey := req.requestKey
  requestedAt := clock
  requestedOperator := req.operatorUID
  note := req.note

def applySettlementTx (req : ApplySettlementRequest) (now : Nat) (conflict : Tx) : Tx :=
  replyByKey req <|
  .updateWhere (.balance req.supplierUID) (deduct now req.amountMillis) fun
    | none => replyByKey req (.abort (.invalidInput ""))
    | some _ =>
      .read fun view clock =>
      let start := periodStart view req.supplierUID clock
      .read fun _ clock =>
      .insertSerial .settlement (fun _ => newSettlement req start clock) .storage fun id =>
      .insertRow (.request req.operatorUID req.requestKey) id fun
        | false => conflict
        | true => .commit [.requested id req]

/-- A unique violation rolls the transaction back; the settlement that holds the
key is then read outside of it. -/
def recoverSettlementByKey (req : ApplySettlementRequest) : Tx :=
  .rollback (replyByKey req (.abort .settlementKeyConflict))

def applySettlementRequest (mode : SettlementRequestMode) (req : ApplySettlementRequest)
    (actor : FundsActor) : Tx :=
  if actor.userID ≠ req.operatorUID then
    .abort (.fundsForbidden s!"{mode.name} operator mismatch")
  else
    .read fun _ now =>
    lockFundsOperator actor mode.operatorRoles <|
    if mode.requireBalanceRow then
      lockSupplierBalanceRow req.supplierUID fun present =>
        if present then applySettlementTx req now (recoverSettlementByKey req)
        else .abort (.notFound s!"supplier_user_id={req.supplierUID} has no balance row")
    else applySettlementTx req now (recoverSettlementByKey req)

def applySettlement (req : ApplySettlementRequest) (actor : FundsActor) : Tx :=
  if req.amountMillis ≤ 0 ∨ req.requestKey = "" ∨ req.operatorUID ≤ 0 ∨ req.supplierUID ≤ 0 then
    .abort (.invalidInput "")
  else applySettlementRequest supplierRequestMode req actor

def adminApplySettlement (req : ApplySettlementRequest) (actor : FundsActor) : Tx :=
  if req.amountMillis ≤ 0 ∨ req.requestKey = "" ∨ req.supplierUID ≤ 0 then
    .abort (.invalidInput "amount_millis must be > 0 and request_key required")
  else applySettlementRequest adminRequestMode req actor

/-- The frame of every command: the operator, the head of the settlement, then the
lock on the balance, whether or not there is one. -/
def withFundsTx (actor : FundsActor) (id : Nat) (check : Int → Except SupplierError Unit)
    (body : Nat → Int → Int → Tx) : Tx :=
  .read fun _ now =>
  lockFundsOperator actor [] <| .read fun view _ =>
    match view.lookup (.settlement id) with
    | none => .abort (.notFound s!"settlement id={id} missing")
    | some s =>
      orAbort (check s.amountMillis) fun _ =>
        lockSupplierBalanceRow s.supplierUserID fun _ => body now s.supplierUserID s.amountMillis

/-- The conditional update of a settlement's status; `stamp` sets the other columns. -/
def compareAndSet (id : Nat) (sources : List SupplierSettlementStatus)
    (target : SupplierSettlementStatus) (expectedRevision : Int)
    (stamp : Nat → SupplierSettlement → SupplierSettlement) (reason : String) (next : Tx) : Tx :=
  .read fun _ clock =>
    .updateWhere (.settlement id)
      (fun s =>
        if s.status ∈ sources ∧ s.revision = expectedRevision then
          some { stamp clock s with status := target, revision := s.revision + 1 }
        else none)
      fun
      | none => .abort (.staleRevision
          s!"settlement id={id} expected revision {expectedRevision} stale{reason}")
      | some _ => next

def approveSettlement (id : Nat) (expectedRevision : Int) (actor : FundsActor) : Tx :=
  withFundsTx actor id (fun _ => .ok ()) fun _ supplierUID amount =>
    compareAndSet id [.pending] .approved expectedRevision
      (fun clock s => { s with reviewedAt := some clock, reviewerUserID := some actor.userID }) ""
      (.commit [.moved id supplierUID amount .approved])

def rejectSettlement (id : Nat) (expectedRevision : Int) (reason : Option String)
    (actor : FundsActor) : Tx :=
  withFundsTx actor id (fun _ => .ok ()) fun now supplierUID amount =>
    compareAndSet id [.pending, .approved] .rejected expectedRevision
      (fun clock s => { s with reviewedAt := some clock, reviewerUserID := some actor.userID
                               rejectReason := reason })
      " or not rejectable" <|
    .updateWhere (.balance supplierUID) (addAvailable now amount) fun
      | none => .abort (.invalidInput
          s!"supplier_balances uid={supplierUID} missing while rejecting settlement")
      | some _ => .commit [.moved id supplierUID amount .rejected]

/-- `NOT billed AND error_type IN ('none','abort') AND cost > 0`. -/
def UsageRow.backlog (r : UsageRow) : Bool :=
  !r.billed && (decide (r.errorType = .none) || decide (r.errorType = .abort)) &&
    decide (0 < r.cost)

def billingProbe (view : Rows) (observedAt : Nat) : BillingProbe :=
  let rows := ((usageEntries view).map UsageEntry.row).filter backlog
  { backlogRows := rows.length
    oldestCreatedAt := (rows.map createdAt).min?.map Int.ofNat
    observedAt := observedAt }

/-- The review is built and read back before it is stored. -/
def checkedRiskReview (actor : FundsActor) (evidence : Evidence)
    (expectedRevision decidedAt maxAge : Int) : Except SupplierError RiskReview := do
  let review ← buildRiskReview actor.userID evidence expectedRevision decidedAt maxAge
  validateRiskReview review actor.userID expectedRevision decidedAt maxAge
  return review

def payoutGateConfig (cfg : SupplierRepoConfig) : PayoutGateConfig where
  billingEnabled := cfg.billingEnabled
  maxBacklogRows := cfg.payoutMaxBacklogRows
  maxBacklogAge := cfg.payoutMaxBacklogAge
  maxObserveAge := cfg.payoutMaxObserveAge

/-- The index of payment keys, unless the settlement is in it already. -/
def indexPayment (existing : Option Nat) (key id : Nat) (next : Tx) : Tx :=
  match existing with
  | some _ => next
  | none => .insertRow (.payment key) id fun
    | false => .abort .storage
    | true => next

/-- The claim once the balance is locked and the settlement is read: the payment
key and the payee of an earlier claim are kept. -/
def claimLocked (cfg : SupplierRepoConfig) (id : Nat) (expectedRevision : Int)
    (snapshot : SupplierPayeeSnapshot) (evidence : Evidence) (actor : FundsActor)
    (s : SupplierSettlement) (fresh : Nat) : Tx :=
  let key := s.paymentKey.getD fresh
  if s.payeeSnapshot ≠ none ∧ s.payeeSnapshot ≠ some snapshot then
    .abort (.invalidInput "payee_snapshot mismatch on re-claim")
  else
    .read fun view observedAt => .read fun _ dbNow =>
    orAbort (evaluatePayoutGate (payoutGateConfig cfg) (billingProbe view observedAt) dbNow) fun _ =>
    orAbort (checkedRiskReview actor evidence expectedRevision dbNow cfg.riskReviewMaxAge)
      fun review =>
    compareAndSet id [.approved] .paying expectedRevision
      (fun clock s => { s with payoutOperatorUserID := some actor.userID
                               payoutStartedAt := some clock, paymentKey := some key
                               payeeSnapshot := some snapshot, riskReview := some review })
      " or not claimable" <|
    indexPayment s.paymentKey key id (.commit [.claimed id key snapshot])

def claimSettlement (cfg : SupplierRepoConfig) (id : Nat) (expectedRevision amountMillis : Int)
    (payee : SupplierPayeeSnapshot) (risk : SupplierRiskEvidence) (actor : FundsActor) : Tx :=
  let command : SupplierClaimCommand :=
    { amountMillis, settlementRevision := expectedRevision, payee, risk }
  orAbort command.normalizeAndValidate fun cmd =>
  orAbort cmd.payee.normalizeAndValidate fun snapshot =>
  withFundsTx actor id
    (fun amount =>
      if cmd.amountMillis ≠ amount then
        .error (.invalidInput s!"claim amount {cmd.amountMillis} != settlement amount {amount}")
      else .ok ())
    fun _ _ _ =>
  .read fun view _ =>
    match view.lookup (.settlement id) with
    | none => .abort .storage
    | some s =>
      .choose (claimLocked cfg id expectedRevision snapshot ⟨cmd.risk.reference, cmd.risk.summary⟩
        actor s)

def confirmFailedSettlement (id : Nat) (expectedRevision : Int)
    (confirmation : SupplierPayoutFailureConfirmation) (actor : FundsActor) : Tx :=
  orAbort confirmation.validate fun record =>
  withFundsTx actor id (fun _ => .ok ()) fun _ supplierUID amount =>
    compareAndSet id [.paying] .approved expectedRevision
      (fun clock s => { s with payoutFailureReason := some record, payoutFailedAt := some clock
                               reviewerUserID := some actor.userID })
      " or not paying" (.commit [.moved id supplierUID amount .approved])

def addPaid (now : Nat) (amount : Int) (b : SupplierBalance) : Option SupplierBalance :=
  some { b with lifetimePaid := b.lifetimePaid + amount, updatedAt := now }

def paidSettlement (id : Nat) (expectedRevision : Int) (externalRef : String) (actor : FundsActor) :
    Tx :=
  orAbort (normalizeExternalRef externalRef) fun ref =>
  withFundsTx actor id (fun _ => .ok ()) fun now supplierUID amount =>
    compareAndSet id [.paying] .paid expectedRevision
      (fun clock s => { s with paidAt := some clock, paidOperatorUserID := some actor.userID
                               externalRef := some ref })
      " or not paying" <|
    .updateWhere (.balance supplierUID) (addPaid now amount) fun
      | none => .abort (.invalidInput
          s!"supplier_balances uid={supplierUID} missing while settling paid")
      | some _ => .commit [.moved id supplierUID amount .paid]

def usageOfDay (view : Rows) (day : Nat) : List (Nat × UsageRow) :=
  ((usageEntries view).filter (fun e => e.day = day)).map fun e => (e.id, e.row)

/-- `supplier_earn_millis > 0 AND supplier_user_id IS NOT NULL`, with the group. -/
def sourceKey (r : UsageRow) : Option (Int × Nat) :=
  if 0 < r.supplierEarnMillis then r.supplierUserID.map (·, sourceDay r.createdAt) else none

/-- What the reconciliation keeps of the rows of a supplier and a day. -/
inductive Measure where
  | grossCost
  | earned
  | rowCount
  deriving DecidableEq

def UsageRow.measure (r : UsageRow) : Measure → Int
  | .grossCost => r.cost
  | .earned => r.supplierEarnMillis
  | .rowCount => 1

def SupplierReconciliation.measure (r : SupplierReconciliation) : Measure → Int
  | .grossCost => r.grossCost
  | .earned => r.earned
  | .rowCount => r.rowCount

def sourceSum (rows : List UsageRow) (m : Measure) (key : Int × Nat) : Int :=
  ((rows.filter (fun r => sourceKey r = some key)).map (fun r => r.measure m)).sum

def sourceKeys (rows : List UsageRow) : List (Int × Nat) := (rows.filterMap sourceKey).dedup

def reconAgrees (rows : List UsageRow) (key : Int × Nat) (r : SupplierReconciliation) : Bool :=
  [Measure.grossCost, .earned, .rowCount].all fun m => sourceSum rows m key = r.measure m

def reconciliationKeys (view : Rows) : List (Int × Nat) :=
  view.entries.filterMap fun
    | ⟨.reconciliation uid day, _⟩ => some (uid, day)
    | _ => none

/-- A key without a reconciliation that agrees, or a reconciliation of one of the
days without a key. -/
def mismatches (view : Rows) (rows : List UsageRow) : List (Int × Nat) :=
  let src := sourceKeys rows
  src.filter (fun k => !(view.lookup (.reconciliation k.1 k.2)).any (reconAgrees rows k)) ++
    (reconciliationKeys view).filter (fun k => decide (k.2 ∈ src.map Prod.snd) && decide (k ∉ src))

def openMatched (view : Rows) (rows : List UsageRow) : List (Int × Nat) :=
  (sourceKeys rows).filter fun k =>
    (view.lookup (.reconciliation k.1 k.2)).any fun r =>
      decide (r.state = .opened) && reconAgrees rows k r

def closeRecon (revision now : Nat) (r : SupplierReconciliation) : Option SupplierReconciliation :=
  if r.state = .opened then
    some { r with state := .closed, closedRevision := some revision, closedAt := some now }
  else none

/-- The open reconciliations of the partition's rows, with the keys it closed. -/
def closeReconciledSourceDays (day revision : Nat) (next : List (Int × Nat) → Tx) : Tx :=
  .read fun view now =>
    .updateEach (fun k : Int × Nat => .reconciliation k.1 k.2) (fun _ => closeRecon revision now)
      (fun k _ closed => k :: closed) next
      ((sourceKeys ((usageOfDay view day).map Prod.snd)).filter fun k =>
        ((view.lookup (.reconciliation k.1 k.2)).bind (closeRecon revision now)).isSome) []

/-- `DROP TABLE` takes the rows with it. -/
def dropPartition (day : Nat) : Tx :=
  .read fun view _ =>
    .forEach
      (fun entry _ rest => .removeRow (.usage day entry.1) fun _ => rest ())
      (fun _ => .removeRow (.partition day) fun _ => .commit [.dropped day (usageOfDay view day)])
      (usageOfDay view day) ()

def blocked (facts : BlockedPartition) : Tx := .rollback (.commit [.blocked facts])

/-- The lock may time out; a partition that is gone counts as retired. Under the lock
one snapshot serves both counts. -/
def retireOneUsageLogPartition (day revision : Nat) : Tx :=
  exec (blocked { day, uncreditedEarnRows := -1, unbilledRows := -1 }) <|
  .hold day true <| .read fun view _ =>
    match view.lookup (.partition day) with
    | none => .commit []
    | some _ =>
      let rows := (usageOfDay view day).map Prod.snd
      let uncredited := rows.filter uncredited
      let unbilled := rows.filter (fun r => !r.billed)
      if uncredited ≠ [] ∨ unbilled ≠ [] then
        blocked { day, uncreditedEarnRows := uncredited.length, unbilledRows := unbilled.length
                  oldestUncredited := (uncredited.map createdAt).min? }
      else
        .read fun view _ =>
        let rows := (usageOfDay view day).map Prod.snd
        let src := (sourceKeys rows).length
        if mismatches view rows ≠ [] then
          blocked { day, reconSourceKeys := src, reconMismatch := (mismatches view rows).length }
        else if openMatched view rows ≠ [] then
          closeReconciledSourceDays day revision fun closed =>
            if closed.length ≠ (openMatched view rows).length then
              blocked { day, reconSourceKeys := src
                        reconOpenKeys := (openMatched view rows).length - closed.length }
            else dropPartition day
        else dropPartition day

inductive Task where
  | insertBatch (logs : List (SupplierFinance × UsageLog × Nat))
  | markBilledBulk (ids : List Nat)
  | consumeBatch (limit : Int)
  | thawDueChunks (limit : Int)
  | releaseFrozenNoWait (limit : Int)
  | patchSupplierBalance (uid : Int) (p : SupplierBalancePatch)
  | applySettlement (req : ApplySettlementRequest) (actor : FundsActor)
  | adminApplySettlement (req : ApplySettlementRequest) (actor : FundsActor)
  | approveSettlement (id : Nat) (expectedRevision : Int) (actor : FundsActor)
  | rejectSettlement (id : Nat) (expectedRevision : Int) (reason : Option String)
      (actor : FundsActor)
  | claimSettlement (id : Nat) (expectedRevision amountMillis : Int)
      (payee : SupplierPayeeSnapshot) (risk : SupplierRiskEvidence) (actor : FundsActor)
  | confirmFailedSettlement (id : Nat) (expectedRevision : Int)
      (confirmation : SupplierPayoutFailureConfirmation) (actor : FundsActor)
  | paidSettlement (id : Nat) (expectedRevision : Int) (externalRef : String) (actor : FundsActor)
  | retireUsageLogPartition (day revision : Nat)

def tableLock : Key → Option (Nat × Bool)
  | .usage day _ => some (day, false)
  | .partition day => some (day, true)
  | _ => none

def Task.code (cfg : SupplierRepoConfig) : Task → Tx
  | .insertBatch logs => Supplier.insertBatch logs
  | .markBilledBulk ids => Supplier.markBilledBulk ids
  | .consumeBatch limit => Supplier.consumeBatch cfg limit
  | .thawDueChunks limit => thawWithRetry limit maxAttempts
  | .releaseFrozenNoWait limit => Supplier.releaseFrozenNoWait limit
  | .patchSupplierBalance uid p => Supplier.patchSupplierBalance uid p
  | .applySettlement req actor => Supplier.applySettlement req actor
  | .adminApplySettlement req actor => Supplier.adminApplySettlement req actor
  | .approveSettlement id revision actor => Supplier.approveSettlement id revision actor
  | .rejectSettlement id revision reason actor => Supplier.rejectSettlement id revision reason actor
  | .claimSettlement id revision amount payee risk actor =>
    Supplier.claimSettlement cfg id revision amount payee risk actor
  | .confirmFailedSettlement id revision confirmation actor =>
    Supplier.confirmFailedSettlement id revision confirmation actor
  | .paidSettlement id revision externalRef actor =>
    Supplier.paidSettlement id revision externalRef actor
  | .retireUsageLogPartition day revision => retireOneUsageLogPartition day revision

def system (cfg : SupplierRepoConfig) : System Row Nat Event SupplierError Task where
  guard := tableLock
  code := Task.code cfg

abbrev SupplierWorld : Type := World Row Event

abbrev SupplierState : Type := State Row Nat Event SupplierError Task

end C3Api.Supplier
