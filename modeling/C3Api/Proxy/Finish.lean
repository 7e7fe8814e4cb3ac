import C3Api.Proxy.Forward
import C3Api.Proxy.Gate
import C3Api.Proxy.UsageExtract

/-!
# Closing a request

`finish` of `proxy/forward.go` and what it calls: billing, the quota deduction,
the supplier stamp and the routing of the log to the usage table, the error
table or both.
-/

namespace C3Api.Proxy

open Machine

def buildLog (groupID accountID : Int) (reqModel mappedModel : String) (format : RequestFormat)
    (status : Int) (et : ErrorType) (u : UsageTuple) : UsageLog :=
  { groupID := groupID
    accountID := accountID
    model := reqModel
    mappedModel := mappedModel
    format := format
    statusCode := status
    errorType := et
    inputTokens := add64 u.it u.ii
    outputTokens := add64 u.ot u.io
    totalTokens := u.tt
    cacheReadTokens := u.cr
    cacheCreationTokens := u.cc
    callCount := u.calls }

structure LogContext where
  userID : Int := 0
  keyID : Int := 0
  tier : Option String := none
  ttft : Option Int := none

def logWithCtx (ctx : LogContext) (l : UsageLog) : UsageLog :=
  { l with
    userID := ctx.userID
    keyID := ctx.keyID
    billingTier := ctx.tier.getD l.billingTier
    ttftMS := if ctx.ttft.isSome then ctx.ttft else l.ttftMS }

/-- The supplier's share captured when the account was selected. -/
structure SupplierFinance where
  ready : Bool := false
  uid : Int := 0
  bp : Int := 0

def shareBpFull : Int := 10000

def earnOf (cost shareBp : Int) : Int :=
  if cost ≤ 0 ∨ shareBp ≤ 0 then 0
  else if shareBpFull ≤ shareBp then cost
  else
    add64 (mul64 (div64 cost 10000) shareBp)
      (div64 (mul64 (mod64 cost 10000) shareBp) shareBpFull)

def stampSupplier (fin : SupplierFinance) (l : UsageLog) : UsageLog :=
  let l :=
    if fin.ready then
      { l with
        supplierUserID := fin.uid
        supplierEarnMillis :=
          if 0 < l.cost ∧ 0 < fin.bp then earnOf l.cost fin.bp else l.supplierEarnMillis }
    else l
  { l with supplierCredited := decide (l.supplierEarnMillis ≤ 0) }

structure ProxyConfig where
  usageCapture : Bool
  billingCapture : Bool
  bill : Option BillingHooks

/-- Where a log went: the usage table, the error table, and the quota counter. -/
structure Routed where
  usage : Option UsageLog := none
  error : Option UsageLog := none
  gate : ConcurrencyGate

def routeLog (cfg : ProxyConfig) (g : ConcurrencyGate) (l : UsageLog) : Routed :=
  let passed := l.errorType = .none ∨ l.errorType = .abort
  let l := if passed then { l with billed := !(cfg.billingCapture && decide (0 < l.userID)) } else l
  { usage := if passed then some l else none
    error := if l.errorType = .none then none else some l
    gate := g }

def finish (cfg : ProxyConfig) (g : ConcurrencyGate) (fin : SupplierFinance) (now : Int)
    (l : UsageLog) : Routed :=
  let l := applyBilling cfg.bill now l
  let g := if cfg.billingCapture then (deductQuota g l.keyID l.cost).1 else g
  if cfg.usageCapture then routeLog cfg g (stampSupplier fin l) else { gate := g }

structure SameCounts (a b : UsageLog) : Prop where
  errorType : a.errorType = b.errorType
  input : a.inputTokens = b.inputTokens
  output : a.outputTokens = b.outputTokens
  cacheRead : a.cacheReadTokens = b.cacheReadTokens
  cacheCreation : a.cacheCreationTokens = b.cacheCreationTokens

theorem applyBilling_counts (bill : Option BillingHooks) (now : Int) (l : UsageLog) :
    SameCounts (applyBilling bill now l) l := by
  have same : SameCounts l l := ⟨rfl, rfl, rfl, rfl, rfl⟩
  unfold applyBilling
  cases bill with
  | none => exact same
  | some hooks =>
    dsimp only
    split
    · unfold applyImageBilling
      split
      · exact same
      split
      · exact ⟨rfl, rfl, rfl, rfl, rfl⟩
      split
      · exact ⟨rfl, rfl, rfl, rfl, rfl⟩
      split <;> exact ⟨rfl, rfl, rfl, rfl, rfl⟩
    · unfold applyFunctionBilling
      split <;> exact ⟨rfl, rfl, rfl, rfl, rfl⟩
    · unfold applyTokenBilling
      split
      · exact same
      split <;> exact ⟨rfl, rfl, rfl, rfl, rfl⟩

theorem stampSupplier_counts (fin : SupplierFinance) (l : UsageLog) :
    SameCounts (stampSupplier fin l) l := by
  unfold stampSupplier
  cases fin.ready <;> exact ⟨rfl, rfl, rfl, rfl, rfl⟩

/-- A new row is credited from birth exactly when it earns nothing. -/
theorem stampSupplier_credited (fin : SupplierFinance) (l : UsageLog) :
    (stampSupplier fin l).supplierCredited = decide ((stampSupplier fin l).supplierEarnMillis ≤ 0) := by
  cases fin.ready <;> rfl

theorem routeLog_usage (cfg : ProxyConfig) (g : ConcurrencyGate) (l : UsageLog) :
    (routeLog cfg g l).usage =
      if l.errorType = .none ∨ l.errorType = .abort then
        some { l with billed := !(cfg.billingCapture && decide (0 < l.userID)) }
      else none := by
  unfold routeLog
  by_cases passed : l.errorType = .none ∨ l.errorType = .abort
  · simp only [if_pos passed]
  · simp only [if_neg passed]

/-- A log reaches the usage table when it is captured and not a plain error, and
keeps its counts on the way. -/
theorem finish_usage (cfg : ProxyConfig) (g : ConcurrencyGate) (fin : SupplierFinance) (now : Int)
    (l : UsageLog) :
    if cfg.usageCapture = true ∧ (l.errorType = .none ∨ l.errorType = .abort) then
      ∃ recorded, (finish cfg g fin now l).usage = some recorded ∧ SameCounts recorded l
    else (finish cfg g fin now l).usage = none := by
  have billed := applyBilling_counts cfg.bill now l
  have stamped := stampSupplier_counts fin (applyBilling cfg.bill now l)
  have error := stamped.errorType.trans billed.errorType
  unfold finish
  by_cases captured : cfg.usageCapture = true
  · rw [if_pos captured, routeLog_usage, error]
    by_cases passed : l.errorType = .none ∨ l.errorType = .abort
    · rw [if_pos passed, if_pos ⟨captured, passed⟩]
      exact ⟨_, rfl, rfl, stamped.input.trans billed.input, stamped.output.trans billed.output,
        stamped.cacheRead.trans billed.cacheRead, stamped.cacheCreation.trans billed.cacheCreation⟩
    · rw [if_neg passed, if_neg (fun both => passed both.2)]
  · rw [if_neg captured, if_neg (fun both => captured both.1)]

end C3Api.Proxy
