import C3Api.Supplier.Model

/-!
# Crediting and thawing

The transactions that insert and mark usage rows, credit a batch of them to their
suppliers, and release frozen chunks. A credit batch is read before its transaction
begins, so other transactions may have taken its rows by the time they are marked.
-/

namespace C3Api.Supplier

open ReadCommitted
open C3Api.Proxy (UsageLog SupplierFinance stampSupplier)

structure BlockedPartition where
  day : Nat
  uncreditedEarnRows : Int := 0
  unbilledRows : Int := 0
  oldestUncredited : Option Nat := none
  reconSourceKeys : Nat := 0
  reconMismatch : Nat := 0
  reconOpenKeys : Nat := 0
  deriving DecidableEq

inductive Event where
  | inserted (rows : List (Nat × UsageRow))
  | billed (ids : List Nat)
  | credited (rows : List BatchRow) (totals : List UIDCredit)
  | thawed (deltas : List (Int × Int))
  | patched (uid : Int)
  | requested (id : Nat) (req : ApplySettlementRequest)
  | replied (id : Nat) (req : ApplySettlementRequest)
  | moved (id : Nat) (supplierUID amount : Int) (target : SupplierSettlementStatus)
  | claimed (id paymentKey : Nat) (payee : SupplierPayeeSnapshot)
  | dropped (day : Nat) (rows : List (Nat × UsageRow))
  | blocked (facts : BlockedPartition)
  deriving DecidableEq

abbrev Tx : Type := Prog Row Nat Event SupplierError

/-- A statement that can fail with a deadlock or a lock timeout. -/
def exec (failed next : Tx) : Tx := .choose fun n => if n = 0 then next else failed

def orAbort {A : Type} (result : Except SupplierError A) (next : A → Tx) : Tx :=
  match result with
  | .error e => .abort e
  | .ok a => next a

def maxAttempts : Nat := 5

/-- The rows are inserted into the partition of their UTC day by one statement. -/
def insertBatch (logs : List (SupplierFinance × UsageLog × Nat)) : Tx :=
  .forEach
    (fun x inserted rest =>
      let row := usageRow (stampSupplier x.1 x.2.1) x.2.2
      let day := sourceDay row.createdAt
      .hold day false <| .read fun view _ =>
        match view.lookup (.partition day) with
        | none => .abort .storage
        | some _ =>
          .insertSerial .usageID (fun _ => day) .storage fun id =>
            .insertRow (.usage day id) row fun
              | false => .abort .storage
              | true => rest ((id, row) :: inserted))
    (fun inserted => .commit [.inserted inserted]) logs []

structure UsageEntry where
  day : Nat
  id : Nat
  row : UsageRow

def usageEntries (view : Rows) : List UsageEntry :=
  view.entries.filterMap fun
    | ⟨.usage day id, row⟩ => some { day, id, row }
    | _ => none

/-- `UPDATE usage_logs SET … WHERE id = ANY($1) AND …`, with the ids it changed. -/
def updateUsage (ids : List Nat) (set : UsageRow → Option UsageRow) (next : List Nat → Tx) : Tx :=
  .read fun view _ =>
    .updateEach (fun e : UsageEntry => .usage e.day e.id) (fun _ => set) (fun e _ done => e.id :: done)
      next ((usageEntries view).filter (fun e => decide (e.id ∈ ids) && (set e.row).isSome)) []

def markBilled (r : UsageRow) : Option UsageRow :=
  if r.billed then none else some { r with billed := true }

def markBilledBulk (ids : List Nat) : Tx :=
  if ids = [] then .commit []
  else updateUsage ids markBilled fun marked => .commit [.billed marked]

/-- `NOT supplier_credited AND supplier_earn_millis > 0`. -/
def UsageRow.uncredited (r : UsageRow) : Bool :=
  !r.supplierCredited && decide (0 < r.supplierEarnMillis)

/-- A row without a supplier cannot be scanned. -/
def scanBatchRow (e : UsageEntry) : Except SupplierError BatchRow :=
  match e.row.supplierUserID with
  | none => .error .storage
  | some uid => .ok { id := e.id, uid, cost := e.row.cost, earn := e.row.supplierEarnMillis,
                      createdAt := e.row.createdAt }

def fetchCreditBatch (view : Rows) (limit : Int) : Except SupplierError (List BatchRow) :=
  ((((usageEntries view).filter (fun e => e.row.uncredited)).insertionSort
    (fun a b => a.id ≤ b.id)).take limit.toNat).mapM scanBatchRow

def freezeHoursByUID (cfg : SupplierRepoConfig) (view : Rows) (uids : List Int) (uid : Int) : Int :=
  if uid ∈ uids then
    effectiveFreezeHours cfg.freezeEnabled
      ((view.lookup (.balance uid)).bind SupplierBalance.freezeHours) cfg.freezeHoursDefault
  else 0

/-- The suppliers with something to freeze, and their hours. -/
def chunkRows (totals : List UIDCredit) (freezeByUID : Int → Int) :
    Except SupplierError (List (UIDCredit × Int)) :=
  (totals.filter (fun t => 0 < t.toFrozen)).mapM fun t =>
    let h := freezeByUID t.uid
    if h ≤ 0 then
      .error (.failure
        s!"supplier credit: uid {t.uid} has frozen amount but non-positive freeze hours")
    else .ok (t, h)

def bucketAvailableAt (now : Nat) (g hours : Int) : Nat :=
  ((now + g - 1) / g * g + hours * 3600).toNat

def addToChunk (amount : Int) (old : Option SupplierFrozenChunk) : SupplierFrozenChunk :=
  match old with
  | none => { amount }
  | some c => { amount := c.amount + amount }

def creditChunks (g : Int) (chunks : List (UIDCredit × Int)) (next : Tx) : Tx :=
  .forEach
    (fun x _ rest => .read fun _ now =>
      .upsertRow (.chunk x.1.uid (bucketAvailableAt now g x.2)) (addToChunk x.1.toFrozen)
        (fun _ => rest ()))
    (fun _ => next) chunks ()

/-- `SELECT … FOR UPDATE` of balances in the order of their suppliers. -/
def lockBalances (uids : List Int) (next : Tx) : Tx :=
  .forEach (fun uid _ rest => .selectForUpdate (.balance uid) (fun _ => rest ())) (fun _ => next)
    uids ()

def creditBalance (t : UIDCredit) (now : Nat) (old : Option SupplierBalance) : SupplierBalance :=
  match old with
  | none => { available := t.toAvailable, lifetimeCredited := t.earn, createdAt := now
              updatedAt := now }
  | some b => { b with available := b.available + t.toAvailable
                       lifetimeCredited := b.lifetimeCredited + t.earn, updatedAt := now }

/-- Stage C, with the suppliers the statement returns. -/
def creditBalances (now : Nat) (totals : List UIDCredit) (next : List Int → Tx) : Tx :=
  .forEach
    (fun t returned rest =>
      .upsertRow (.balance t.uid) (creditBalance t now) (fun _ => rest (t.uid :: returned)))
    next totals []

/-- Only an open reconciliation can be added to. -/
def accumulate (d : DayRecon) (old : Option SupplierReconciliation) :
    Option SupplierReconciliation :=
  match old with
  | none => some { grossCost := d.grossCost, earned := d.earn, rowCount := d.rows }
  | some r =>
    if r.state = .opened then
      some { r with grossCost := r.grossCost + d.grossCost, earned := r.earned + d.earn
                    rowCount := r.rowCount + d.rows }
    else none

/-- The reconciliations added to. -/
def accumulateRecon (recon : List DayRecon) (next : List DayRecon → Tx) : Tx :=
  .forEach
    (fun d affected rest => .upsertWhere (.reconciliation d.uid d.sourceDay) (accumulate d) fun
      | none => rest affected
      | some _ => rest (d :: affected))
    next recon []

def markCredited (r : UsageRow) : Option UsageRow :=
  if r.supplierCredited then none else some { r with supplierCredited := true }

def applyCredit (cfg : SupplierRepoConfig) (batch : List BatchRow) (freezeByUID : Int → Int)
    (totals : List UIDCredit) (recon : List DayRecon) (failed : Tx) : Tx :=
  let g := if cfg.granularitySeconds ≤ 0 then 3600 else cfg.granularitySeconds
  .read fun _ now =>
  orAbort (chunkRows totals freezeByUID) fun chunks =>
  exec failed <| creditChunks g chunks <|
  exec failed <| lockBalances (totals.map UIDCredit.uid) <|
  exec failed <| creditBalances now totals fun returned =>
  match totals.find? (fun t => t.uid ∉ returned) with
  | some t => .abort (.failure
      s!"supplier credit: balance coverage guard failed: uid {t.uid} missing from RETURNING")
  | none =>
    exec failed <| accumulateRecon recon fun affected =>
    if affected.length ≠ recon.length then
      .abort (.failure (s!"supplier credit: reconciliation guard failed: affected " ++
        s!"{affected.length}/{recon.length} (closed or missing source day)"))
    else
      exec failed <| updateUsage (batch.map BatchRow.id) markCredited fun marked =>
      if marked.length ≠ batch.length then
        .abort (.failure
          s!"supplier credit: mark guard failed: marked {marked.length}/{batch.length}")
      else .commit [.credited batch totals]

def applyCreditTx (cfg : SupplierRepoConfig) (batch : List BatchRow) (freezeByUID : Int → Int)
    (failed : Tx) : Tx :=
  if batch = [] then .commit []
  else
    orAbort (aggregateBatch batch freezeByUID) fun aggregated =>
      applyCredit cfg batch freezeByUID aggregated.1 aggregated.2 failed

/-- The same batch again after a deadlock or a lock timeout. -/
def applyWithRetry (cfg : SupplierRepoConfig) (batch : List BatchRow) (freezeByUID : Int → Int) :
    Nat → Tx
  | 0 => .abort .retryable
  | n + 1 => applyCreditTx cfg batch freezeByUID (.rollback (applyWithRetry cfg batch freezeByUID n))

def consumeBatch (cfg : SupplierRepoConfig) (limit : Int) : Tx :=
  .read fun view _ =>
  orAbort (fetchCreditBatch view limit) fun batch =>
  if batch = [] then .commit []
  else
    .read fun view _ =>
      applyWithRetry cfg batch (freezeHoursByUID cfg view (batch.map BatchRow.uid)) maxAttempts

/-- The rows that are left of a list when those that others hold are skipped. -/
def skipLocked {A : Type} (mask : Nat) : List A → List A
  | [] => []
  | x :: xs =>
    if mask % 2 = 0 then x :: skipLocked (mask / 2) xs else skipLocked (mask / 2) xs

def chunkKeys (view : Rows) : List (Int × Nat) :=
  view.entries.filterMap fun
    | ⟨.chunk uid availableAt, _⟩ => some (uid, availableAt)
    | _ => none

abbrev Deltas : Type := Table (fun _ : Int => Int)

def addDelta (deltas : Deltas) (uid amount : Int) : Except SupplierError Deltas :=
  if uid ≤ 0 ∨ amount < 0 then
    .error (.failure s!"supplier thaw: invalid chunk uid={uid} amount={amount}")
  else
    match addChecked ((deltas.lookup uid).getD 0) amount with
    | .error (.failure detail) => .error (.failure s!"supplier thaw: {detail}")
    | .error e => .error e
    | .ok sum => .ok (deltas.insert uid sum)

def deltaList (deltas : Deltas) : List (Int × Int) :=
  (deltas.entries.map fun entry => (entry.1, entry.2)).insertionSort (fun x y => x.1 ≤ y.1)

def addAvailable (now : Nat) (delta : Int) (b : SupplierBalance) : Option SupplierBalance :=
  some { b with available := b.available + delta, updatedAt := now }

/-- `UPDATE supplier_balances … FROM unnest(…)`, with the suppliers it returns. -/
def thawBalances (now : Nat) (deltas : List (Int × Int)) (next : List Int → Tx) : Tx :=
  .read fun view _ =>
    .updateEach (fun d : Int × Int => .balance d.1) (fun d => addAvailable now d.2)
      (fun d _ returned => d.1 :: returned) next
      (deltas.filter fun d => (view.lookup (.balance d.1)).isSome) []

def releaseDeltas (now : Nat) (failed : Tx) (deltas : List (Int × Int)) : Tx :=
  if deltas = [] then .commit [.thawed []]
  else
    exec failed <| lockBalances (deltas.map Prod.fst) <|
    match deltas.find? (fun d => d.2 < 0) with
    | some d => .abort (.failure s!"supplier thaw: negative delta {d.2} for uid {d.1}")
    | none =>
      exec failed <| thawBalances now deltas fun returned =>
      match deltas.find? (fun d => d.1 ∉ returned) with
      | some d => .abort (.failure s!"supplier thaw: balance coverage guard failed: uid {d.1} missing")
      | none => .commit [.thawed deltas]

/-- The chunks with the earliest release first; the database chooses among equal
moments, and which rows it finds locked. -/
def thawChunks (limit : Int) (dueOnly : Bool) (failed : Tx) : Tx :=
  if limit ≤ 0 then .commit []
  else
    .read fun _ now =>
    exec failed <| .read fun view _ => .choose fun order => .choose fun locked =>
    let chosen := ((reorder order (chunkKeys view)).filter
      (fun c => !dueOnly || decide (c.2 ≤ now))).insertionSort (fun a b => a.2 ≤ b.2)
    .forEach
      (fun c deltas rest => .removeRow (.chunk c.1 c.2) fun
        | none => rest deltas
        | some chunk => orAbort (addDelta deltas c.1 chunk.amount) rest)
      (fun deltas => releaseDeltas now failed (deltaList deltas))
      ((skipLocked locked chosen).take limit.toNat) ∅

def thawWithRetry (limit : Int) : Nat → Tx
  | 0 => .abort .retryable
  | n + 1 => thawChunks limit true (.rollback (thawWithRetry limit n))

def releaseFrozenNoWait (limit : Int) : Tx := thawChunks limit false (.abort .retryable)

structure SupplierBalancePatch where
  shareBp : Option Int := none
  clearShareBp : Bool := false
  freezeHours : Option Int := none
  clearFreezeHours : Bool := false

def patched (value : Option Int) (clear : Bool) (old : Option Int) : Option Int :=
  if value.isSome then value else if clear then none else old

def SupplierBalancePatch.isEmpty (p : SupplierBalancePatch) : Bool :=
  p.shareBp.isNone && !p.clearShareBp && p.freezeHours.isNone && !p.clearFreezeHours

def SupplierBalancePatch.set (p : SupplierBalancePatch) (now : Nat) (b : SupplierBalance) :
    Option SupplierBalance :=
  some { b with shareBp := patched p.shareBp p.clearShareBp b.shareBp
                freezeHours := patched p.freezeHours p.clearFreezeHours b.freezeHours
                updatedAt := now }

def balanceMissing (uid : Int) : SupplierError := .notFound s!"supplier_user_id={uid} missing"

def patchSupplierBalance (uid : Int) (p : SupplierBalancePatch) : Tx :=
  .read fun view now =>
  if p.isEmpty then
    match view.lookup (.balance uid) with
    | none => .abort (balanceMissing uid)
    | some _ => .commit []
  else
    .updateWhere (.balance uid) (p.set now) fun
      | none => .abort (balanceMissing uid)
      | some _ => .commit [.patched uid]

end C3Api.Supplier
