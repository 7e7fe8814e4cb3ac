import C3Api.ReadCommitted.Statement
import Mathlib.Data.List.Sort

/-!
# Redemption codes

`Redeem`, the deactivation of codes and the retention of redemption records, as
transactions over the tables they share. The clock counts seconds.
-/

namespace C3Api.Redemption

open ReadCommitted

inductive RedemptionType where
  | balance
  | concurrency
  | tempBalance
  deriving DecidableEq

inductive RedemptionStatus where
  | active
  | disabled
  deriving DecidableEq

structure RedemptionCode where
  code : String
  type : RedemptionType
  value : Int
  expiresAt : Option Nat := none
  resourceExpiresAt : Option Nat := none
  maxUses : Nat := 1
  usedCount : Nat := 0
  status : RedemptionStatus := .active

structure RedemptionUse where
  id : Nat
  value : Int
  resourceExpiresAt : Option Nat
  createdAt : Nat

structure User where
  balance : Int := 0
  maxConcurrency : Int := 0

structure TempBalance where
  userID : Nat
  amount : Int
  expiresAt : Option Nat
  note : String

structure BalanceLog where
  userID : Nat
  amount : Int
  balanceAfter : Int
  operatorID : Nat
  note : String

inductive Key where
  | code (id : Nat)
  | use (codeID userID : Nat)
  | user (id : Nat)
  | tempBalance (id : Nat)
  | balanceLog (id : Nat)
  deriving DecidableEq

abbrev Row : Key → Type
  | .code _ => RedemptionCode
  | .use _ _ => RedemptionUse
  | .user _ => User
  | .tempBalance _ => TempBalance
  | .balanceLog _ => BalanceLog

/-- What a committed transaction did: the grant of a code with its
`RedemptionApply`, or the number of rows it changed. -/
inductive Event where
  | granted (codeID userID : Nat) (type : RedemptionType) (value : Int)
      (resourceExpiresAt : Option Nat)
  | deactivated (total : Nat)
  | purged (total : Nat)

inductive ServiceError where
  | invalidInput (detail : String)
  | conflict (detail : String)
  | notFound (detail : String)
  | storage

abbrev Tx : Type := Prog Row Empty Event ServiceError

abbrev Rows : Type := Table Row

def errInvalidCode : ServiceError := .invalidInput "invalid code"

def getByCode (view : Rows) (code : String) : Option (Nat × RedemptionCode) :=
  view.entries.findSome? fun
    | ⟨.code id, c⟩ => if c.code = code then some (id, c) else none
    | _ => none

def expired (c : RedemptionCode) (now : Nat) : Bool :=
  match c.expiresAt with
  | some moment => decide (moment ≤ now)
  | none => false

/-- `users.balance += delta`, and nothing at all for a missing user. -/
def updateUserBalance (userID : Nat) (delta : Int) (next : Tx) : Tx :=
  .updateWhere (.user userID) (fun u => some { u with balance := u.balance + delta }) fun
    | none => .abort (.notFound s!"id={userID} missing")
    | some _ => next

/-- An unlimited user, whose limit is 0, gets the value as the limit. -/
def updateUserMaxConcurrency (userID : Nat) (value : Int) (next : Tx) : Tx :=
  .updateWhere (.user userID)
    (fun u => some { u with
      maxConcurrency := if u.maxConcurrency = 0 then value else u.maxConcurrency + value }) fun
    | none => .abort (.notFound s!"id={userID} missing")
    | some _ => next

/-- The foreign key on the user makes the insert fail for a missing user. -/
def createTempBalance (userID : Nat) (amount : Int) (expiresAt : Option Nat) (note : String)
    (next : Tx) : Tx :=
  .read fun view _ =>
    match view.lookup (.user userID) with
    | none => .abort .storage
    | some _ =>
      .insertSerial .tempBalance (fun _ => { userID, amount, expiresAt, note }) .storage
        (fun _ => next)

def applyBalance (userID : Nat) (c : RedemptionCode) (next : Tx) : Tx :=
  updateUserBalance userID c.value <|
    .read fun view _ =>
      match view.lookup (.user userID) with
      | none => .abort (.notFound s!"id={userID} missing")
      | some u =>
        .insertSerial .balanceLog
          (fun _ => { userID, amount := c.value, balanceAfter := u.balance, operatorID := 0,
                      note := c.code })
          .storage (fun _ => next)

def applyConcurrency (userID : Nat) (c : RedemptionCode) (next : Tx) : Tx :=
  updateUserMaxConcurrency userID c.value next

def applyTempBalance (userID : Nat) (c : RedemptionCode) (next : Tx) : Tx :=
  match c.resourceExpiresAt with
  | none => .abort errInvalidCode
  | some expiresAt => createTempBalance userID c.value (some expiresAt) "redemption code" next

def appliers : RedemptionType → Nat → RedemptionCode → Tx → Tx
  | .balance => applyBalance
  | .concurrency => applyConcurrency
  | .tempBalance => applyTempBalance

/-- The insert of the redemption record, which is unique for a code and a user. -/
def createUse (codeID userID : Nat) (c : RedemptionCode) (next : Tx) : Tx :=
  .read fun _ now =>
    .choose fun id =>
      .insertRow (.use codeID userID)
        { id, value := c.value, resourceExpiresAt := c.resourceExpiresAt, createdAt := now } fun
        | false => .abort (.conflict s!"code_id={codeID} user_id={userID}")
        | true => next

def RedemptionCode.used (c : RedemptionCode) : RedemptionCode :=
  { c with usedCount := c.usedCount + 1 }

def incremented (c : RedemptionCode) : Option RedemptionCode :=
  if c.usedCount < c.maxUses then some c.used else none

def incrementUsed (codeID : Nat) (next : Bool → Tx) : Tx :=
  .updateWhere (.code codeID) incremented (fun c => next c.isSome)

def redeem (code : String) (userID : Nat) : Tx :=
  .read fun view _ =>
    match getByCode view code with
    | none => .abort errInvalidCode
    | some (codeID, c) =>
      .read fun view _ =>
        match view.lookup (.use codeID userID) with
        | some _ => .abort (.conflict "already redeemed")
        | none =>
          .read fun _ now =>
            if c.status ≠ .active ∨ expired c now = true then .abort errInvalidCode
            else
              appliers c.type userID c <|
                createUse codeID userID c <|
                  incrementUsed codeID fun
                    | false => .abort errInvalidCode
                    | true => .commit [.granted codeID userID c.type c.value c.resourceExpiresAt]

def deactivated : (k : Key) → Row k → Option (Row k)
  | .code _, c => if c.status ≠ .disabled then some { c with status := .disabled } else none
  | _, _ => none

def deactivateCodes (ids : List Nat) : Tx :=
  .updateRows (ids.map .code) deactivated (fun total => .commit [.deactivated total])

def redemptionUseRetentionDays : Nat := 90

def redemptionUsesDeleteBatchLimit : Nat := 5000

def secondsPerDay : Nat := 86400

structure UseRef where
  codeID : Nat
  userID : Nat
  id : Nat

/-- `SELECT id … WHERE created_at < cutoff ORDER BY id LIMIT …`. -/
def usesBefore (view : Rows) (cutoff : Nat) : List UseRef :=
  ((view.entries.filterMap fun
    | ⟨.use codeID userID, use⟩ =>
      if use.createdAt < cutoff then some { codeID, userID, id := use.id } else none
    | _ => none).insertionSort (fun a b => a.id ≤ b.id)).take redemptionUsesDeleteBatchLimit

def deleteRedemptionUsesBefore (cutoff : Nat) : Tx :=
  .read fun view _ =>
    .visit
      (fun ref total rest =>
        .deleteWhere (.use ref.codeID ref.userID) (fun use => use.id == ref.id) fun
          | none => rest total
          | some _ => rest (total + 1))
      (fun total => .commit [.purged total]) (usesBefore view cutoff) 0

/-- The redemption part of a retention round. -/
def retentionRunOnce : Tx :=
  .read fun _ now =>
    deleteRedemptionUsesBefore (now - redemptionUseRetentionDays * secondsPerDay)

inductive Task where
  | redeem (code : String) (userID : Nat)
  | deactivateCodes (ids : List Nat)
  | retention

def system : System Row Empty Event ServiceError Task where
  guard _ := none
  code
    | .redeem code userID => redeem code userID
    | .deactivateCodes ids => deactivateCodes ids
    | .retention => retentionRunOnce

abbrev RedemptionWorld : Type := World Row Event

abbrev RedemptionState : Type := State Row Empty Event ServiceError Task

def isGrant (codeID userID : Nat) : Event → Bool
  | .granted c u _ _ _ => c == codeID && u == userID
  | _ => false

def isGrantOf (codeID : Nat) : Event → Bool
  | .granted c _ _ _ _ => c == codeID
  | _ => false

def grants (log : List Event) (codeID userID : Nat) : Nat := log.countP (isGrant codeID userID)

def grantsOf (log : List Event) (codeID : Nat) : Nat := log.countP (isGrantOf codeID)

/-- What a code adds to: the money of a user, or the limit on their concurrent requests. -/
inductive Holding where
  | money
  | concurrency
  deriving DecidableEq

def RedemptionType.holding : RedemptionType → Holding
  | .concurrency => .concurrency
  | _ => .money

def holdingOf (held : Holding) (userID : Nat) : (k : Key) → Row k → Int
  | .user id, u =>
    if id = userID then
      match held with
      | .money => u.balance
      | .concurrency => u.maxConcurrency
    else 0
  | .tempBalance _, b => if b.userID = userID ∧ held = .money then b.amount else 0
  | _, _ => 0

def grantedTo (held : Holding) (userID : Nat) : Event → Int
  | .granted _ u type value _ => if u = userID ∧ type.holding = held then value else 0
  | _ => 0

end C3Api.Redemption
