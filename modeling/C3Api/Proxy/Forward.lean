import C3Api.Billing.Cost

/-!
# Charging a finished request

`applyBilling` of `proxy/forward.go`: the three billing branches, the price
snapshots they leave on the log and the multiplier applied last. Caps protect
the token cost and the per-unit cost separately, so the final multiplication is
the one place where a word can still turn over; `charge_iff` says when.
-/

namespace C3Api.Proxy

open Machine Billing

inductive RequestFormat where
  | openAIChat | openAIResponses | openAIResponsesWS | anthropic | openAIImages | openAISearch
  deriving DecidableEq

inductive ErrorType where
  | none | status429 | status4xx | status5xx | network | auth | noAccount | abort | billing
  deriving DecidableEq

/-- The columns of a usage log that billing and routing read or write. -/
structure UsageLog where
  groupID : Int := 0
  accountID : Int := 0
  userID : Int := 0
  keyID : Int := 0
  model : String := ""
  mappedModel : String := ""
  format : RequestFormat := .openAIChat
  statusCode : Int := 0
  errorType : ErrorType := .none
  ttftMS : Option Int := none
  inputTokens : Int := 0
  priceInputMillis : Option Int := none
  outputTokens : Int := 0
  priceOutputMillis : Option Int := none
  totalTokens : Int := 0
  cacheReadTokens : Int := 0
  priceCacheReadMillis : Option Int := none
  cacheCreationTokens : Int := 0
  priceCacheCreationMillis : Option Int := none
  callCount : Int := 0
  pricePerCallMillis : Option Int := none
  cost : Int := 0
  rawCost : Int := 0
  billingTier : String := ""
  aboveHit : Bool := false
  billed : Bool := false
  supplierUserID : Int := 0
  supplierEarnMillis : Int := 0
  supplierCredited : Bool := false

/-- Multiplier snapshot in ten-thousandths: a user's own value for a group, then
the group's. -/
structure Multipliers where
  assignments : Int → Int → Option Int
  groups : Int → Option Int

def effectiveMultiplier (mult : Option Multipliers) (userID groupID : Int) : Int :=
  match mult with
  | none => 10000
  | some m =>
    match m.assignments userID groupID with
    | some am => am
    | none => (m.groups groupID).getD 10000

/-- What `applyBilling` reads: the price snapshot and the multiplier snapshot.
The price snapshot is queried by model, prompt size, tier and time. -/
structure BillingHooks where
  resolvePrices : String → Int → String → Int → Option ResolvedPrices
  mult : Option Multipliers

def applyMultiplier (cost m : Int) : Int :=
  if m = 10000 then cost else div64 (add64 (mul64 cost m) 5000) 10000

def applyMultiplierLog (bill : BillingHooks) (l : UsageLog) (raw : Int) : UsageLog :=
  { l with
    rawCost := raw
    cost := applyMultiplier raw (effectiveMultiplier bill.mult l.userID l.groupID) }

def billedModel (l : UsageLog) : String :=
  if l.mappedModel = "" then l.model else l.mappedModel

def applyImageBilling (bill : BillingHooks) (now : Int) (l : UsageLog) : UsageLog :=
  if billedModel l = "" then l
  else
    match bill.resolvePrices (billedModel l) l.inputTokens l.billingTier now with
    | none => { l with billingTier := "no_price" }
    | some rp =>
      if rp.imgInTokPerM = none ∧ rp.imgOutTokPerM = none ∧ rp.pricePerImage = none then
        { l with billingTier := "no_price" }
      else
        let priced :=
          if 0 < l.callCount ∧ rp.pricePerImage.isSome then
            { l with pricePerCallMillis := rp.pricePerImage }
          else l
        applyMultiplierLog bill priced
          (imageCostFromResolved rp l.inputTokens l.outputTokens l.callCount)

def codexSearchModel : String := "codex-search"

def defaultCodexSearchPricePerCall : Int := 1000

/-- The price used for a search call, with the built-in default. -/
def searchPrices (resolved : Option ResolvedPrices) : ResolvedPrices :=
  match resolved with
  | none => { pricePerCall := some defaultCodexSearchPricePerCall }
  | some rp =>
    if rp.pricePerCall = none then { rp with pricePerCall := some defaultCodexSearchPricePerCall }
    else rp

def applyFunctionBilling (bill : BillingHooks) (now : Int) (l : UsageLog) : UsageLog :=
  let rp := searchPrices (bill.resolvePrices codexSearchModel 0 "" now)
  let priced := if 0 < l.callCount then { l with pricePerCallMillis := rp.pricePerCall } else l
  applyMultiplierLog bill priced (callCostFromResolved rp l.callCount)

/-- The price columns a token-billed log keeps. -/
def snapshotPrices (rp : ResolvedPrices) (l : UsageLog) : UsageLog :=
  { l with
    priceInputMillis := if rp.inputPerM.isSome then rp.inputPerM else l.priceInputMillis
    priceOutputMillis := if rp.outputPerM.isSome then rp.outputPerM else l.priceOutputMillis
    priceCacheReadMillis :=
      if 0 < l.cacheReadTokens ∧ rp.cacheReadPerM.isSome then rp.cacheReadPerM
      else l.priceCacheReadMillis
    priceCacheCreationMillis :=
      if 0 < l.cacheCreationTokens ∧ rp.cacheWritePerM.isSome then rp.cacheWritePerM
      else l.priceCacheCreationMillis
    pricePerCallMillis :=
      if 0 < l.callCount ∧ rp.pricePerImage.isSome then rp.pricePerImage
      else l.pricePerCallMillis }

def rawTokenCost (rp : ResolvedPrices) (l : UsageLog) : Int :=
  let cost := costFromResolved rp l.inputTokens l.outputTokens l.cacheReadTokens
    l.cacheCreationTokens
  if 0 < l.callCount ∧ rp.pricePerImage.isSome then
    add64 cost (imageCostFromResolved rp 0 0 l.callCount)
  else cost

def applyTokenBilling (bill : BillingHooks) (now : Int) (l : UsageLog) : UsageLog :=
  if billedModel l = "" then l
  else
    match bill.resolvePrices (billedModel l) l.inputTokens l.billingTier now with
    | none => { l with billingTier := "no_price" }
    | some rp =>
      applyMultiplierLog bill { snapshotPrices rp l with aboveHit := false } (rawTokenCost rp l)

def applyBilling (bill : Option BillingHooks) (now : Int) (l : UsageLog) : UsageLog :=
  match bill with
  | none => l
  | some hooks =>
    match l.format with
    | .openAIImages => applyImageBilling hooks now l
    | .openAISearch => applyFunctionBilling hooks now l
    | _ => applyTokenBilling hooks now l

structure UsageLog.Counts (l : UsageLog) : Prop where
  input : 0 ≤ l.inputTokens ∧ l.inputTokens ≤ maxInt64
  output : 0 ≤ l.outputTokens ∧ l.outputTokens ≤ maxInt64
  cacheRead : 0 ≤ l.cacheReadTokens ∧ l.cacheReadTokens ≤ maxInt64
  cacheCreation : 0 ≤ l.cacheCreationTokens ∧ l.cacheCreationTokens ≤ maxInt64
  calls : 0 ≤ l.callCount ∧ l.callCount ≤ maxInt64

structure UsageLog.Below (a b : UsageLog) : Prop where
  format : a.format = b.format
  model : billedModel a = billedModel b
  user : a.userID = b.userID
  group : a.groupID = b.groupID
  input : a.inputTokens ≤ b.inputTokens
  output : a.outputTokens ≤ b.outputTokens
  cacheRead : a.cacheReadTokens ≤ b.cacheReadTokens
  cacheCreation : a.cacheCreationTokens ≤ b.cacheCreationTokens
  calls : a.callCount ≤ b.callCount

/-- The billing branch of the log charges it at these prices. -/
def Priced (hooks : BillingHooks) (now : Int) (rp : ResolvedPrices) (l : UsageLog) : Prop :=
  match l.format with
  | .openAISearch => searchPrices (hooks.resolvePrices codexSearchModel 0 "" now) = rp
  | .openAIImages =>
    billedModel l ≠ "" ∧
      hooks.resolvePrices (billedModel l) l.inputTokens l.billingTier now = some rp ∧
      ¬ (rp.imgInTokPerM = none ∧ rp.imgOutTokPerM = none ∧ rp.pricePerImage = none)
  | _ =>
    billedModel l ≠ "" ∧
      hooks.resolvePrices (billedModel l) l.inputTokens l.billingTier now = some rp

/-- The charge before the multiplier, in exact integers over the capped counts. -/
def exactCharge (rp : ResolvedPrices) (l : UsageLog) : Int :=
  match l.format with
  | .openAIImages => imageCharge rp l.inputTokens l.outputTokens l.callCount
  | .openAISearch => unitSegment (orInt rp.pricePerCall) l.callCount
  | _ =>
    tokenCharge rp l.inputTokens l.outputTokens l.cacheReadTokens l.cacheCreationTokens +
      unitSegment (orInt rp.pricePerImage) l.callCount

def chargeCap : Int := 96845406386975

theorem applyMultiplierLog_cost (bill : BillingHooks) (l : UsageLog) (raw : Int) :
    (applyMultiplierLog bill l raw).cost =
      applyMultiplier raw (effectiveMultiplier bill.mult l.userID l.groupID) := rfl

variable {rp : ResolvedPrices} {l : UsageLog} {charge m : Int}

theorem unitSegment_eq_zero_of_unset {count : Int}
    (skipped : ¬ (0 < count ∧ rp.pricePerImage.isSome)) :
    unitSegment (orInt rp.pricePerImage) count = 0 := by
  apply if_neg
  rintro ⟨price, units⟩
  apply skipped
  cases image : rp.pricePerImage with
  | none => simp [image] at price
  | some p => exact ⟨units, rfl⟩

theorem rawTokenCost_eq (valid : rp.Valid) (counts : l.Counts) :
    rawTokenCost rp l =
      tokenCharge rp l.inputTokens l.outputTokens l.cacheReadTokens l.cacheCreationTokens +
        unitSegment (orInt rp.pricePerImage) l.callCount := by
  have tokens := tokenCharge_bounds rp counts.input.1 counts.output.1 counts.cacheRead.1
    counts.cacheCreation.1
  have units := unitSegment_bounds (orInt rp.pricePerImage) l.callCount
  have cap := imageTotalCap_eq
  unfold rawTokenCost
  rw [costFromResolved_eq counts.input.1 counts.output.1 counts.cacheRead.1
    counts.cacheCreation.1 valid]
  by_cases charged : 0 < l.callCount ∧ rp.pricePerImage.isSome
  · rw [if_pos charged, imageCostFromResolved_eq valid le_rfl le_rfl counts.calls.1,
      imageCharge_zero_tokens, add64_of_fits (fits_iff.mpr (by omega))]
  · rw [if_neg charged, unitSegment_eq_zero_of_unset charged, add_zero]

theorem applyBilling_cost {hooks : BillingHooks} {now : Int} (valid : rp.Valid) (counts : l.Counts)
    (priced : Priced hooks now rp l) :
    (applyBilling (some hooks) now l).cost =
      applyMultiplier (exactCharge rp l) (effectiveMultiplier hooks.mult l.userID l.groupID) := by
  unfold Priced at priced
  unfold applyBilling exactCharge
  cases format : l.format <;> simp only [format] at priced ⊢
  case openAIImages =>
    obtain ⟨named, resolved, set⟩ := priced
    simp only [applyImageBilling, if_neg named, resolved, if_neg set]
    rw [applyMultiplierLog_cost,
      imageCostFromResolved_eq valid counts.input.1 counts.output.1 counts.calls.1]
    split <;> rfl
  case openAISearch =>
    simp only [applyFunctionBilling, priced]
    rw [applyMultiplierLog_cost, callCostFromResolved_eq counts.calls.1]
    split <;> rfl
  all_goals
    obtain ⟨named, resolved⟩ := priced
    simp only [applyTokenBilling, if_neg named, resolved]
    rw [applyMultiplierLog_cost, rawTokenCost_eq valid counts]
    rfl

theorem exactCharge_bounds (rp : ResolvedPrices) (counts : l.Counts) :
    0 ≤ exactCharge rp l ∧ exactCharge rp l ≤ chargeCap := by
  have tokens := tokenCharge_bounds rp counts.input.1 counts.output.1 counts.cacheRead.1
    counts.cacheCreation.1
  have images := imageCharge_bounds rp l.callCount counts.input.1 counts.output.1
  have perImage := unitSegment_bounds (orInt rp.pricePerImage) l.callCount
  have perCall := unitSegment_bounds (orInt rp.pricePerCall) l.callCount
  have cap := imageTotalCap_eq
  unfold exactCharge chargeCap
  split <;> omega

theorem exactCharge_mono (rp : ResolvedPrices) {a b : UsageLog} (below : a.Below b) :
    exactCharge rp a ≤ exactCharge rp b := by
  unfold exactCharge
  rw [below.format]
  split
  · exact imageCharge_mono rp below.input below.output below.calls
  · exact unitSegment_mono _ below.calls
  exact add_le_add
    (tokenCharge_mono rp below.input below.output below.cacheRead below.cacheCreation)
    (unitSegment_mono _ below.calls)

/-- Outside the token branches a single cap already covers the multiplication. -/
theorem exactCharge_le_imageTotalCap (rp : ResolvedPrices) (counts : l.Counts)
    (format : l.format = .openAIImages ∨ l.format = .openAISearch) :
    exactCharge rp l ≤ imageTotalCap := by
  unfold exactCharge
  rcases format with images | search
  · rw [images]
    exact (imageCharge_bounds rp l.callCount counts.input.1 counts.output.1).2
  · rw [search]
    exact (unitSegment_bounds _ _).2

/-- The multiplication of a charge by `m`, rounded, fits a word. -/
def MultiplierFits (charge m : Int) : Prop := m = 10000 ∨ charge * m + 5000 ≤ maxInt64

instance (charge m : Int) : Decidable (MultiplierFits charge m) :=
  inferInstanceAs (Decidable (m = 10000 ∨ charge * m + 5000 ≤ maxInt64))

theorem applyMultiplier_of_fits (lower : 0 ≤ charge) (hm : 0 ≤ m) (fits : MultiplierFits charge m) :
    applyMultiplier charge m = if m = 10000 then charge else (charge * m + 5000) / 10000 := by
  unfold applyMultiplier
  by_cases same : m = 10000
  · rw [if_pos same, if_pos same]
  have total := fits.resolve_left same
  have product := mul_nonneg lower hm
  unfold maxInt64 at total
  rw [mul64_of_fits (fits_iff.mpr (by omega)), add64_of_fits (fits_iff.mpr (by omega)),
    div64_of_nonneg (fits_iff.mpr (by omega)) (by omega) (by decide)]

/-- A product past the range comes out negative. -/
theorem applyMultiplier_neg_of_not_fits (upper : charge ≤ chargeCap) (hm : 0 ≤ m) (hm' : m ≤ 100000)
    (misfit : ¬ MultiplierFits charge m) : applyMultiplier charge m < 0 := by
  unfold applyMultiplier chargeCap at *
  obtain ⟨differs, past⟩ := not_or.mp misfit
  have product : charge * m ≤ 96845406386975 * 100000 :=
    mul_le_mul upper hm' hm (by decide)
  have turned : add64 (mul64 charge m) 5000 = charge * m + 5000 - 18446744073709551616 := by
    have merged : add64 (mul64 charge m) 5000 = wrap (charge * m + 5000) := by
      exact Int.bmod_add_bmod
    rw [merged]
    exact wrap_of_overflow (by omega) (by unfold maxInt64 at *; omega)
  unfold maxInt64 at past
  rw [turned, div64_of_pos (fits_iff.mpr (by omega)) (by decide)]
  have flipped : 0 < (-(charge * m + 5000 - 18446744073709551616)).tdiv 10000 := by
    rw [Int.tdiv_eq_ediv_of_nonneg (by omega)]
    omega
  rw [Int.neg_tdiv] at flipped
  omega

theorem multiplierFits_mono {a b : Int} (ordered : a ≤ b) (hm : 0 ≤ m) (fits : MultiplierFits b m) :
    MultiplierFits a m := by
  rcases fits with same | total
  · exact .inl same
  · have product := mul_le_mul_of_nonneg_right ordered hm
    exact .inr (by omega)

theorem applyMultiplier_mono {a b : Int} (lower : 0 ≤ a) (ordered : a ≤ b) (hm : 0 ≤ m)
    (fits : MultiplierFits b m) :
    0 ≤ applyMultiplier a m ∧ applyMultiplier a m ≤ applyMultiplier b m := by
  have product := mul_le_mul_of_nonneg_right ordered hm
  have start := mul_nonneg lower hm
  rw [applyMultiplier_of_fits lower hm (multiplierFits_mono ordered hm fits),
    applyMultiplier_of_fits (lower.trans ordered) hm fits]
  split <;> omega

theorem multiplierFits_of_le_imageTotalCap (upper : charge ≤ imageTotalCap) (hm : 0 ≤ m)
    (hm' : m ≤ 100000) : MultiplierFits charge m := by
  have product : charge * m ≤ imageTotalCap * 100000 := mul_le_mul upper hm' hm (by decide)
  rw [imageTotalCap_eq] at product
  exact .inr (by unfold maxInt64; omega)

/-- The cost written for a log is non-negative and no smaller than the cost of
the same request with smaller counts. -/
def ChargeSound (hooks : BillingHooks) (now : Int) (rp : ResolvedPrices) (l : UsageLog) : Prop :=
  0 ≤ (applyBilling (some hooks) now l).cost ∧
  ∀ a : UsageLog, a.Counts → Priced hooks now rp a → a.Below l →
    0 ≤ (applyBilling (some hooks) now a).cost ∧
    (applyBilling (some hooks) now a).cost ≤ (applyBilling (some hooks) now l).cost

/-- One price for every model and one multiplier for every group. -/
def flatHooks (rp : ResolvedPrices) (m : Int) : BillingHooks where
  resolvePrices := fun _ _ _ _ => some rp
  mult := some { assignments := fun _ _ => none, groups := fun _ => some m }

def wrapPrices : ResolvedPrices := { inputPerM := some 1000000, pricePerImage := some 1 }

def wrapLog : UsageLog := { model := "m", inputTokens := 1, callCount := maxInt64 }

/-- A capped per-image cost and one token, at the largest multiplier, turn the
charge negative. -/
theorem charge_wraps :
    wrapPrices.Valid ∧ wrapLog.Counts ∧ Priced (flatHooks wrapPrices 100000) 0 wrapPrices wrapLog ∧
      effectiveMultiplier (flatHooks wrapPrices 100000).mult 0 0 = 100000 ∧
      (applyBilling (some (flatHooks wrapPrices 100000)) 0 wrapLog).cost = -922337203685474 := by
  refine ⟨⟨by decide⟩, ?_, ⟨by decide, rfl⟩, rfl, by decide⟩
  constructor <;> decide

/-- Charges are sound exactly where the image and search caps apply alone, the
multiplier is one, or the exact charge times the multiplier still fits. -/
theorem charge_iff (hooks : BillingHooks) (now : Int) (rp : ResolvedPrices) (valid : rp.Valid)
    (l : UsageLog) (counts : l.Counts) (priced : Priced hooks now rp l)
    (hm : 0 ≤ effectiveMultiplier hooks.mult l.userID l.groupID)
    (hm' : effectiveMultiplier hooks.mult l.userID l.groupID ≤ 100000) :
    ChargeSound hooks now rp l ↔ l.format = .openAIImages ∨ l.format = .openAISearch ∨
        MultiplierFits
          (tokenCharge rp l.inputTokens l.outputTokens l.cacheReadTokens l.cacheCreationTokens +
            unitSegment (orInt rp.pricePerImage) l.callCount)
          (effectiveMultiplier hooks.mult l.userID l.groupID) := by
  have bounds := exactCharge_bounds rp counts
  have equivalent : ChargeSound hooks now rp l ↔
      MultiplierFits (exactCharge rp l) (effectiveMultiplier hooks.mult l.userID l.groupID) := by
    constructor
    · intro sound
      by_contra misfit
      have negative := applyMultiplier_neg_of_not_fits bounds.2 hm hm' misfit
      rw [← applyBilling_cost valid counts priced] at negative
      exact absurd sound.1 (not_le.mpr negative)
    · intro fits
      constructor
      · rw [applyBilling_cost valid counts priced]
        exact (applyMultiplier_mono bounds.1 le_rfl hm fits).1
      · intro a countsA pricedA below
        rw [applyBilling_cost valid counts priced, applyBilling_cost valid countsA pricedA,
          below.user, below.group]
        exact applyMultiplier_mono (exactCharge_bounds rp countsA).1 (exactCharge_mono rp below)
          hm fits
  rw [equivalent, ← or_assoc]
  by_cases single : l.format = .openAIImages ∨ l.format = .openAISearch
  · refine iff_of_true ?_ (.inl single)
    exact multiplierFits_of_le_imageTotalCap (exactCharge_le_imageTotalCap rp counts single) hm hm'
  · rw [or_iff_right single]
    cases format : l.format <;> simp_all [exactCharge]

theorem charge_iff_wrapLog : ChargeSound (flatHooks wrapPrices 20000) 0 wrapPrices wrapLog :=
  (charge_iff (flatHooks wrapPrices 20000) 0 wrapPrices ⟨by decide⟩ wrapLog
    (by constructor <;> decide) ⟨by decide, rfl⟩ (by decide) (by decide)).mpr
    (.inr (.inr (by decide)))

end C3Api.Proxy
