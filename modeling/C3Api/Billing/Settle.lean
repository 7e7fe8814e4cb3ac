import C3Api.Proxy.Forward
import C3Api.ReadCommitted.Statement
import Mathlib.Data.List.Sort
import Mathlib.Data.List.Dedup

/-!
# Settlement of usage rows

The two settlement statements and the zero-cost sweep of the billing consumer,
as transactions over the usage rows, the users and their temporary balances. A
statement computes its batch from one snapshot; every row it then changes is
checked again on its newest version.
-/

namespace C3Api.Billing.Settle

open ReadCommitted
open C3Api.Proxy (ErrorType)

structure UsageRow where
  userID : Option Nat
  errorType : ErrorType := .none
  cost : Int
  billed : Bool := false
  overdraft : Bool := false
  deriving DecidableEq

structure User where
  balance : Int := 0
  balanceWarningThreshold : Int := 0
  email : String := ""
  deriving DecidableEq

structure TempBalance where
  userID : Nat
  amount : Int
  expiresAt : Option Nat := none
  deriving DecidableEq

inductive Key where
  | usage (id : Nat)
  | user (id : Nat)
  | temp (id : Nat)
  deriving DecidableEq

abbrev Row : Key → Type
  | .usage _ => UsageRow
  | .user _ => User
  | .temp _ => TempBalance

abbrev Rows : Type := Table Row

def UsageRow.uid (r : UsageRow) : Nat := r.userID.getD 0

/-- `NOT billed AND error_type IN ('none', 'abort')`. -/
def UsageRow.pending (r : UsageRow) : Bool :=
  !r.billed && (r.errorType == .none || r.errorType == .abort)

def TempBalance.active (t : TempBalance) (now : Nat) : Bool :=
  decide (0 < t.amount) && t.expiresAt.all (fun moment => decide (now < moment))

def tempActive (view : Rows) (now uid : Nat) : Bool :=
  view.entries.any fun
    | ⟨.temp _, t⟩ => t.userID == uid && t.active now
    | _ => false

inductive Lane where
  | balance
  | fefo
  deriving DecidableEq

def Lane.admits (lane : Lane) (active : Bool) : Bool :=
  match lane with
  | .balance => !active
  | .fefo => active

structure BatchRow where
  id : Nat
  uid : Nat
  cost : Int
  deriving DecidableEq

def candidates (lane : Lane) (view : Rows) (now k bucket : Nat) : List BatchRow :=
  view.entries.filterMap fun
    | ⟨.usage id, r⟩ =>
      if r.pending && decide (0 < r.cost) && r.uid % k == bucket &&
          lane.admits (tempActive view now r.uid) then
        some { id, uid := r.uid, cost := r.cost }
      else none
    | _ => none

def batch (lane : Lane) (view : Rows) (now limit k bucket : Nat) : List BatchRow :=
  ((candidates lane view now k bucket).insertionSort (fun a b => a.id ≤ b.id)).take limit

structure Total where
  uid : Nat
  delta : Int
  deriving DecidableEq

def owed (rows : List BatchRow) (uid : Nat) : Int :=
  ((rows.filter (fun r => r.uid = uid)).map BatchRow.cost).sum

def totals (rows : List BatchRow) : List Total :=
  (rows.map BatchRow.uid).dedup.map fun uid => { uid, delta := owed rows uid }

structure PoolRow where
  tid : Nat
  uid : Nat
  amount : Int
  expiresAt : Option Nat

/-- `ORDER BY expires_at NULLS LAST`. -/
def expiresBy : Option Nat → Option Nat → Bool
  | _, none => true
  | none, some _ => false
  | some a, some b => decide (a ≤ b)

/-- The temporary balances that can be drawn, in the order of the window; `order`
is how the database breaks ties. -/
def tempPool (order : Nat) (view : Rows) (now : Nat) : List PoolRow :=
  (reorder order (view.entries.filterMap fun
    | ⟨.temp tid, t⟩ =>
      if t.active now then
        some { tid, uid := t.userID, amount := t.amount, expiresAt := t.expiresAt }
      else none
    | _ => none)).insertionSort (fun a b => expiresBy a.expiresAt b.expiresAt)

structure Take where
  tid : Nat
  uid : Nat
  take : Int

/-- The takes of one user; `cum` is the sum of the amounts before the first row. -/
def takesFrom (delta cum : Int) : List PoolRow → List Take
  | [] => []
  | p :: ps =>
    let cum' := cum + p.amount
    if cum' - p.amount < delta then
      { tid := p.tid, uid := p.uid,
        take := if cum' ≤ delta then p.amount else delta - (cum' - p.amount) } ::
        takesFrom delta cum' ps
    else takesFrom delta cum' ps

def takes (lane : Lane) (order : Nat) (view : Rows) (now : Nat) (owing : List Total) : List Take :=
  match lane with
  | .balance => []
  | .fefo => owing.flatMap fun t =>
      takesFrom t.delta 0 ((tempPool order view now).filter (fun p => p.uid = t.uid))

def drawnBy (drawn : List Take) (uid : Nat) : Int :=
  ((drawn.filter (fun x => x.uid = uid)).map Take.take).sum

/-- What is left for the balance. The Balance lane draws nothing, so there it is
the totals. -/
def spill (owing : List Total) (drawn : List Take) : List Total :=
  (owing.map fun t => { t with delta := t.delta - drawnBy drawn t.uid }).filter
    (fun t => 0 < t.delta)

structure Charged where
  uid : Nat
  balanceAfter : Int
  delta : Int
  threshold : Int
  email : String

def Charged.crossed (c : Charged) : Bool :=
  decide (c.threshold > 0) && decide (c.balanceAfter + c.delta > c.threshold) &&
    decide (c.balanceAfter ≤ c.threshold)

structure BalanceWarningEvent where
  entityID : Nat
  balanceMillis : Int
  thresholdMillis : Int
  email : String

structure SettlementSummary where
  batchRows : Nat := 0
  debitedUsers : Nat := 0
  forcedUsers : Nat := 0
  marked : Nat := 0
  quarantined : Nat := 0
  balances : List (Nat × Int) := []
  balanceWarnings : List BalanceWarningEvent := []

inductive Event where
  | settled (rows ghosts : List BatchRow) (summary : SettlementSummary)
  | swept (ids : List Nat)
  | inserted (id : Nat) (row : UsageRow)
  | adjusted (uid : Nat) (amount : Int)

inductive BillingError where
  | concurrentMark (lane : Lane) (marked batchRows : Nat)
  | divisionByZero
  | notFound (detail : String)
  | storage

abbrev Tx : Type := Prog Row Empty Event BillingError

def drawTemp (x : Take) (t : TempBalance) : Option TempBalance :=
  if x.take ≤ t.amount then some { t with amount := t.amount - x.take } else none

/-- `temp_drawn`: the takes that still fit their row. -/
def tempDrawn (xs : List Take) (next : List Take → Tx) : Tx :=
  .updateEach (fun x => .temp x.tid) drawTemp (fun x _ drawn => x :: drawn) next xs []

def chargeUsers (set : Total → User → Option User) (view : Rows) (owing : List Total)
    (next : List Charged → Tx) : Tx :=
  .updateEach (fun t => .user t.uid) set
    (fun t u charged => { uid := t.uid, balanceAfter := u.balance, delta := t.delta,
                          threshold := u.balanceWarningThreshold, email := u.email } :: charged)
    next (owing.filter (fun t => ((view.lookup (.user t.uid)).bind (set t)).isSome)) []

def debit (t : Total) (u : User) : Option User :=
  if t.delta ≤ u.balance then some { u with balance := u.balance - t.delta } else none

def force (t : Total) (u : User) : Option User := some { u with balance := u.balance - t.delta }

def isCharged (charged : List Charged) (uid : Nat) : Bool := charged.any (fun c => c.uid == uid)

def markRow (overdraft : Bool) (r : UsageRow) : Option UsageRow :=
  if r.billed then none else some { r with billed := true, overdraft }

/-- `marked`: the batch rows that are still not billed. -/
def marked (rows : List BatchRow) (forced : List Charged) (next : Nat → Tx) : Tx :=
  .updateEach (fun b => .usage b.id) (fun b => markRow (isCharged forced b.uid))
    (fun _ _ n => n + 1) next rows 0

def ghosts (rows : List BatchRow) (left : List Total) (debited forced : List Charged) :
    List BatchRow :=
  rows.filter fun b => left.any (fun t => t.uid == b.uid) && !isCharged debited b.uid &&
    !isCharged forced b.uid

def summarize (rows : List BatchRow) (left : List Total) (debited forced : List Charged)
    (n : Nat) : SettlementSummary :=
  let changed := (debited ++ forced).insertionSort (fun a b => a.uid ≤ b.uid)
  { batchRows := rows.length
    debitedUsers := debited.length
    forcedUsers := forced.length
    marked := n
    quarantined := (ghosts rows left debited forced).length
    balances := changed.map fun c => (c.uid, c.balanceAfter)
    balanceWarnings := (changed.filter Charged.crossed).map fun c =>
      { entityID := c.uid, balanceMillis := c.balanceAfter, thresholdMillis := c.threshold,
        email := c.email } }

/-- The statement of a lane from its batch on, and the guard on the number of
marked rows. -/
def settleRows (lane : Lane) (view : Rows) (rows : List BatchRow) (xs : List Take)
    (concurrent : BillingError → Tx) : Tx :=
  tempDrawn xs fun drawn =>
    let left := spill (totals rows) drawn
    chargeUsers debit view left fun debited =>
      chargeUsers force view (left.filter (fun t => !isCharged debited t.uid)) fun forced =>
        marked rows forced fun n =>
          if n ≠ rows.length then concurrent (.concurrentMark lane n rows.length)
          else
            .commit [.settled rows (ghosts rows left debited forced)
              (summarize rows left debited forced n)]

/-- One attempt in its own transaction; `now()` is the start of the transaction. -/
def settleOnce (lane : Lane) (limit k bucket : Nat) (concurrent : BillingError → Tx) : Tx :=
  if k = 0 then .abort .divisionByZero
  else
    .read fun _ now => .read fun view _ => .choose fun order =>
      let rows := batch lane view now limit k bucket
      settleRows lane view rows (takes lane order view now (totals rows)) concurrent

/-- A batch that was marked by somebody else is rolled back and tried once more. -/
def settleBatch (lane : Lane) (limit k bucket : Nat) : Tx :=
  if limit = 0 then .commit []
  else
    settleOnce lane limit k bucket fun _ =>
      .rollback (settleOnce lane limit k bucket .abort)

def settleBalanceBatch : Nat → Nat → Nat → Tx := settleBatch .balance

def settleFefoBatch : Nat → Nat → Nat → Tx := settleBatch .fefo

def fetchBatchLimit : Nat := 2000

def fetchUnbilledBatch (view : Rows) (limit : Nat) : List BatchRow :=
  ((view.entries.filterMap fun
    | ⟨.usage id, r⟩ => if r.pending then some { id, uid := r.uid, cost := r.cost } else none
    | _ => none).insertionSort (fun a b => a.id ≤ b.id)).take limit

def markBilled : (k : Key) → Row k → Option (Row k)
  | .usage _, r => if r.billed then none else some { r with billed := true }
  | _, _ => none

def markBilledBulk (ids : List Nat) : Tx :=
  .updateRows (ids.map .usage) markBilled (fun _ => .commit [.swept ids])

/-- The batch is read before the statement that marks its free rows. -/
def sweepZeroCost : Tx :=
  .read fun view _ =>
    let zeroIDs := ((fetchUnbilledBatch view fetchBatchLimit).filter
      (fun r => r.cost ≤ 0)).map BatchRow.id
    if zeroIDs = [] then .commit [] else markBilledBulk zeroIDs

def insertBatch (rows : List UsageRow) : Tx :=
  .forEach
    (fun row events next => .insertSerial .usage (fun _ => row) .storage
      (fun id => next (events ++ [.inserted id row])))
    .commit rows []

def updateUserBalance (uid : Nat) (delta : Int) : Tx :=
  .updateWhere (.user uid) (fun u => some { u with balance := u.balance + delta }) fun
    | none => .abort (.notFound s!"id={uid} missing")
    | some _ => .commit [.adjusted uid delta]

def createTempBalance (uid : Nat) (amount : Int) (expiresAt : Option Nat) : Tx :=
  .read fun view _ =>
    match view.lookup (.user uid) with
    | none => .abort .storage
    | some _ =>
      .insertSerial .temp (fun _ => { userID := uid, amount, expiresAt }) .storage
        (fun _ => .commit [.adjusted uid amount])

inductive Task where
  | settle (lane : Lane) (limit k bucket : Nat)
  | sweepZeroCost
  | insertBatch (rows : List UsageRow)
  | updateUserBalance (uid : Nat) (delta : Int)
  | createTempBalance (uid : Nat) (amount : Int) (expiresAt : Option Nat)

def system : System Row Empty Event BillingError Task where
  guard _ := none
  code
    | .settle lane limit k bucket => settleBatch lane limit k bucket
    | .sweepZeroCost => sweepZeroCost
    | .insertBatch rows => insertBatch rows
    | .updateUserBalance uid delta => updateUserBalance uid delta
    | .createTempBalance uid amount expiresAt => createTempBalance uid amount expiresAt

abbrev BillingWorld : Type := World Row Event

abbrev BillingState : Type := State Row Empty Event BillingError Task

end C3Api.Billing.Settle
