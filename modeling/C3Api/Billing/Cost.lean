import C3Api.Machine.Int64

/-!
# Price matrix arithmetic

The pure cost functions of `billing/cost.go` over resolved prices, in 64-bit
words. Each product is capped before it is formed, so the words never leave
their range; the lemmas here give every function its exact integer value.
-/

namespace C3Api.Billing

open Machine List

/-- Unit prices after variant resolution; `none` is a price that is not set. -/
structure ResolvedPrices where
  inputPerM : Option Int := none
  outputPerM : Option Int := none
  cacheReadPerM : Option Int := none
  cacheWritePerM : Option Int := none
  pricePerCall : Option Int := none
  imgInTokPerM : Option Int := none
  imgOutTokPerM : Option Int := none
  pricePerImage : Option Int := none
  deriving DecidableEq

def milliPerMillion : Int := 1000000

/-- Upper bound of one capped product: eight of them and the rounding term fit. -/
def segBudget : Int := (maxInt64 - milliPerMillion / 2) / 8

def imageTotalCap : Int := maxInt64 / 100000

def orInt (v : Option Int) : Int := v.getD 0

variable {t count pt ct cr cc inTok outTok : Int} (p : Int) (rp : ResolvedPrices)

@[simp] theorem orInt_none : orInt none = 0 := rfl

@[simp] theorem orInt_some : orInt (some p) = p := rfl

def clampNeg (t : Int) : Int := if t < 0 then 0 else t

def clampToken (t p : Int) : Int :=
  if 0 < p then
    if div64 segBudget p < t then div64 segBudget p else t
  else t

def costFromResolved (rp : ResolvedPrices) (pt ct cr cc : Int) : Int :=
  let pt := clampNeg pt
  let ct := clampNeg ct
  let cr := clampNeg cr
  let cc := clampNeg cc
  let raw := add64 (add64 (add64
    (mul64 (clampToken pt (orInt rp.inputPerM)) (orInt rp.inputPerM))
    (mul64 (clampToken ct (orInt rp.outputPerM)) (orInt rp.outputPerM)))
    (mul64 (clampToken cr (orInt rp.cacheReadPerM)) (orInt rp.cacheReadPerM)))
    (mul64 (clampToken cc (orInt rp.cacheWritePerM)) (orInt rp.cacheWritePerM))
  div64 (add64 raw (milliPerMillion / 2)) milliPerMillion

/-- `count` units at `price` each, with the count capped so that the product
stays below `imageTotalCap`. Both per-unit branches of the source share it. -/
def cappedUnits (price count : Int) : Int :=
  mul64 (if div64 imageTotalCap price < count then div64 imageTotalCap price else count) price

def imageCostFromResolved (rp : ResolvedPrices) (inTok outTok count : Int) : Int :=
  let inTok := clampNeg inTok
  let outTok := clampNeg outTok
  let count := clampNeg count
  let inP := orInt rp.imgInTokPerM
  let outP := orInt rp.imgOutTokPerM
  let perP := orInt rp.pricePerImage
  let raw := add64 (mul64 (clampToken inTok inP) inP) (mul64 (clampToken outTok outP) outP)
  let tokenCost := div64 (add64 raw (milliPerMillion / 2)) milliPerMillion
  let perImage := if 0 < perP ∧ 0 < count then cappedUnits perP count else 0
  min (add64 tokenCost perImage) imageTotalCap

def callCostFromResolved (rp : ResolvedPrices) (count : Int) : Int :=
  match rp.pricePerCall with
  | none => 0
  | some p => if 0 < p then cappedUnits p (clampNeg count) else 0

/-- Every price that is set is a non-negative word. -/
structure ResolvedPrices.Valid (rp : ResolvedPrices) : Prop where
  word : ∀ v ∈ [rp.inputPerM, rp.outputPerM, rp.cacheReadPerM, rp.cacheWritePerM,
    rp.pricePerCall, rp.imgInTokPerM, rp.imgOutTokPerM, rp.pricePerImage],
    0 ≤ orInt v ∧ orInt v ≤ maxInt64

def segment (t p : Int) : Int := if 0 < p then min t (segBudget / p) * p else 0

/-- The exact value of one capped per-unit charge. -/
def unitSegment (price count : Int) : Int :=
  if 0 < price ∧ 0 < count then min count (imageTotalCap / price) * price else 0

theorem segBudget_eq : segBudget = 1152921504606784475 := by decide

theorem imageTotalCap_eq : imageTotalCap = 92233720368547 := by decide

theorem clampNeg_of_nonneg (nonneg : 0 ≤ t) : clampNeg t = t := by
  unfold clampNeg
  split <;> omega

theorem capped_le {cap p : Int} (cap_nonneg : 0 ≤ cap) (positive : 0 < p) (nonneg : 0 ≤ t) :
    0 ≤ min t (cap / p) * p ∧ min t (cap / p) * p ≤ cap := by
  have quotient := Int.ediv_nonneg cap_nonneg positive.le
  constructor
  · exact mul_nonneg (le_min nonneg quotient) positive.le
  · calc min t (cap / p) * p ≤ cap / p * p :=
          mul_le_mul_of_nonneg_right (min_le_right _ _) positive.le
      _ ≤ cap := Int.ediv_mul_le _ positive.ne'

theorem segment_bounds (nonneg : 0 ≤ t) : 0 ≤ segment t p ∧ segment t p ≤ segBudget := by
  unfold segment
  split
  case isTrue positive => exact capped_le (by decide) positive nonneg
  case isFalse => exact ⟨le_rfl, by decide⟩

theorem segment_mono {s : Int} (ordered : s ≤ t) : segment s p ≤ segment t p := by
  unfold segment
  split
  case isTrue positive =>
    exact mul_le_mul_of_nonneg_right (min_le_min_right _ ordered) positive.le
  case isFalse => exact le_rfl

theorem unitSegment_bounds (count : Int) :
    0 ≤ unitSegment p count ∧ unitSegment p count ≤ imageTotalCap := by
  unfold unitSegment
  split
  case isTrue both => exact capped_le (by decide) both.1 both.2.le
  case isFalse => exact ⟨le_rfl, by decide⟩

theorem unitSegment_mono {s : Int} (ordered : s ≤ t) : unitSegment p s ≤ unitSegment p t := by
  unfold unitSegment
  by_cases smaller : 0 < p ∧ 0 < s
  · have larger : 0 < p ∧ 0 < t := ⟨smaller.1, by omega⟩
    rw [if_pos smaller, if_pos larger]
    exact mul_le_mul_of_nonneg_right (min_le_min_right _ ordered) smaller.1.le
  · rw [if_neg smaller]
    exact (unitSegment_bounds p t).1

theorem mul64_capped {cap p : Int} (cap_nonneg : 0 ≤ cap) (fits : Fits cap) (positive : 0 < p)
    (nonneg : 0 ≤ t) :
    mul64 (if div64 cap p < t then div64 cap p else t) p = min t (cap / p) * p := by
  rw [div64_of_nonneg fits cap_nonneg positive]
  have selected : (if cap / p < t then cap / p else t) = min t (cap / p) := by
    split <;> omega
  rw [selected, mul64_of_fits]
  obtain ⟨lower, upper⟩ := capped_le cap_nonneg positive nonneg
  rw [fits_iff] at fits ⊢
  omega

theorem mul64_clampToken {p : Int} (count : 0 ≤ t) (price : 0 ≤ p) :
    mul64 (clampToken t p) p = segment t p := by
  unfold clampToken segment
  rcases price.lt_or_eq with positive | zero
  · rw [if_pos positive, if_pos positive, mul64_capped (by decide) (by decide) positive count]
  · subst zero
    simp [mul64, wrap]

theorem cappedUnits_eq {p : Int} (price : 0 < p) (units : 0 ≤ count) :
    cappedUnits p count = min count (imageTotalCap / p) * p :=
  mul64_capped (by decide) (by decide) price units

/-- Rounding a sum of capped products to the nearest unit stays in range. -/
theorem rounded_eq {raw : Int} (lower : 0 ≤ raw) (upper : raw ≤ 4 * segBudget) :
    div64 (add64 raw (milliPerMillion / 2)) milliPerMillion = (raw + 500000) / 1000000 := by
  rw [segBudget_eq] at upper
  have half : milliPerMillion / 2 = 500000 := by decide
  have unit : milliPerMillion = 1000000 := rfl
  rw [half, unit, add64_of_fits (fits_iff.mpr (by omega)),
    div64_of_nonneg (fits_iff.mpr (by omega)) (by omega) (by decide)]

theorem ResolvedPrices.Valid.nonneg {rp : ResolvedPrices} (valid : rp.Valid) {v : Option Int}
    (member : v ∈ [rp.inputPerM, rp.outputPerM, rp.cacheReadPerM, rp.cacheWritePerM,
      rp.pricePerCall, rp.imgInTokPerM, rp.imgOutTokPerM, rp.pricePerImage]) :
    0 ≤ orInt v := (valid.word v member).1

/-- The token cost in exact integers: capped products, summed, rounded half up. -/
def tokenCharge (rp : ResolvedPrices) (pt ct cr cc : Int) : Int :=
  (segment pt (orInt rp.inputPerM) + segment ct (orInt rp.outputPerM) +
    segment cr (orInt rp.cacheReadPerM) + segment cc (orInt rp.cacheWritePerM) + 500000) / 1000000

def segments (rp : ResolvedPrices) (pt ct cr cc : Int) : List Int :=
  [segment pt (orInt rp.inputPerM), segment ct (orInt rp.outputPerM),
    segment cr (orInt rp.cacheReadPerM), segment cc (orInt rp.cacheWritePerM)]

section

variable (hpt : 0 ≤ pt) (hct : 0 ≤ ct) (hcr : 0 ≤ cr) (hcc : 0 ≤ cc)

include hpt hct hcr hcc

theorem segments_within : ∀ s ∈ segments rp pt ct cr cc, 0 ≤ s ∧ s ≤ segBudget := by
  simp only [segments, forall_mem_cons]
  exact ⟨segment_bounds _ hpt, segment_bounds _ hct, segment_bounds _ hcr, segment_bounds _ hcc,
    by simp⟩

theorem costFromResolved_eq {rp : ResolvedPrices} (valid : rp.Valid) :
    costFromResolved rp pt ct cr cc = tokenCharge rp pt ct cr cc := by
  have within := segments_within rp hpt hct hcr hcc
  simp only [segments, forall_mem_cons] at within
  unfold costFromResolved tokenCharge
  simp only [clampNeg_of_nonneg hpt, clampNeg_of_nonneg hct, clampNeg_of_nonneg hcr,
    clampNeg_of_nonneg hcc]
  rw [mul64_clampToken hpt (valid.nonneg (by simp)), mul64_clampToken hct (valid.nonneg (by simp)),
    mul64_clampToken hcr (valid.nonneg (by simp)), mul64_clampToken hcc (valid.nonneg (by simp))]
  have budget := segBudget_eq
  rw [add64_of_fits (a := segment pt _) (fits_iff.mpr (by omega)),
    add64_of_fits (b := segment cr _) (fits_iff.mpr (by omega)),
    add64_of_fits (b := segment cc _) (fits_iff.mpr (by omega)),
    rounded_eq (by omega) (by omega)]

theorem tokenCharge_bounds :
    0 ≤ tokenCharge rp pt ct cr cc ∧ tokenCharge rp pt ct cr cc ≤ 4611686018428 := by
  have within := segments_within rp hpt hct hcr hcc
  simp only [segments, forall_mem_cons] at within
  have budget := segBudget_eq
  unfold tokenCharge
  omega

theorem segments_bounds : (∀ s ∈ segments rp pt ct cr cc, 0 ≤ s) ∧
    (segments rp pt ct cr cc).sum + 500000 ≤ maxInt64 := by
  have within := segments_within rp hpt hct hcr hcc
  refine ⟨fun s member => (within s member).1, ?_⟩
  have budget := segBudget_eq
  simp only [segments, forall_mem_cons] at within
  simp only [segments, sum_cons, sum_nil, maxInt64]
  omega

end

theorem tokenCharge_mono {pt' ct' cr' cc' : Int} (hpt : pt ≤ pt') (hct : ct ≤ ct') (hcr : cr ≤ cr')
    (hcc : cc ≤ cc') : tokenCharge rp pt ct cr cc ≤ tokenCharge rp pt' ct' cr' cc' := by
  have m₁ := segment_mono (orInt rp.inputPerM) hpt
  have m₂ := segment_mono (orInt rp.outputPerM) hct
  have m₃ := segment_mono (orInt rp.cacheReadPerM) hcr
  have m₄ := segment_mono (orInt rp.cacheWritePerM) hcc
  unfold tokenCharge
  omega

theorem costFromResolved_clamped {rp : ResolvedPrices} (valid : rp.Valid) (pt ct cr cc : Int) :
    costFromResolved rp pt ct cr cc = tokenCharge rp (max pt 0) (max ct 0) (max cr 0) (max cc 0) := by
  have clamped (t : Int) : clampNeg t = clampNeg (max t 0) := by
    unfold clampNeg
    split <;> split <;> omega
  rw [← costFromResolved_eq (le_max_right _ _) (le_max_right _ _) (le_max_right _ _)
    (le_max_right _ _) valid]
  unfold costFromResolved
  rw [clamped pt, clamped ct, clamped cr, clamped cc]

theorem segment_of_le {p : Int} (price : 0 ≤ p) (within : t * p ≤ segBudget) :
    segment t p = t * p := by
  unfold segment
  split
  case isTrue positive =>
    rw [min_eq_left ((Int.le_ediv_iff_mul_le positive).mpr within)]
  case isFalse notPositive =>
    have zero : p = 0 := by omega
    rw [zero, mul_zero]

/-- The token cost is the exact one, with a negative count read as zero and every product
capped at the budget: no operation wraps, it is not negative, it grows with each count, and
below the budget it is the sum of the products rounded half up. -/
theorem token_cost_exact {rp : ResolvedPrices} (valid : rp.Valid) (pt ct cr cc : Int) :
    costFromResolved rp pt ct cr cc = tokenCharge rp (max pt 0) (max ct 0) (max cr 0) (max cc 0) ∧
      ((∀ s ∈ segments rp (max pt 0) (max ct 0) (max cr 0) (max cc 0), 0 ≤ s) ∧
        (segments rp (max pt 0) (max ct 0) (max cr 0) (max cc 0)).sum + 500000 ≤ maxInt64) ∧
      0 ≤ costFromResolved rp pt ct cr cc ∧ Fits (costFromResolved rp pt ct cr cc) ∧
      (∀ pt' ct' cr' cc', pt ≤ pt' → ct ≤ ct' → cr ≤ cr' → cc ≤ cc' →
        costFromResolved rp pt ct cr cc ≤ costFromResolved rp pt' ct' cr' cc') ∧
      (max pt 0 * orInt rp.inputPerM ≤ segBudget → max ct 0 * orInt rp.outputPerM ≤ segBudget →
        max cr 0 * orInt rp.cacheReadPerM ≤ segBudget →
        max cc 0 * orInt rp.cacheWritePerM ≤ segBudget → costFromResolved rp pt ct cr cc =
          (max pt 0 * orInt rp.inputPerM + max ct 0 * orInt rp.outputPerM +
            max cr 0 * orInt rp.cacheReadPerM + max cc 0 * orInt rp.cacheWritePerM + 500000) /
              1000000) := by
  obtain ⟨lower, upper⟩ := tokenCharge_bounds rp (le_max_right pt 0) (le_max_right ct 0)
    (le_max_right cr 0) (le_max_right cc 0)
  have exact := costFromResolved_clamped valid pt ct cr cc
  refine ⟨exact, segments_bounds rp (le_max_right pt 0) (le_max_right ct 0)
    (le_max_right cr 0) (le_max_right cc 0), exact ▸ lower, ?_, ?_, ?_⟩
  · exact fits_iff.mpr (by omega)
  · intro pt' ct' cr' cc' hpt hct hcr hcc
    rw [exact, costFromResolved_clamped valid]
    exact tokenCharge_mono rp (max_le_max_right 0 hpt) (max_le_max_right 0 hct)
      (max_le_max_right 0 hcr) (max_le_max_right 0 hcc)
  · intro input output read write
    rw [exact, tokenCharge, segment_of_le (valid.nonneg (by simp)) input,
      segment_of_le (valid.nonneg (by simp)) output, segment_of_le (valid.nonneg (by simp)) read,
      segment_of_le (valid.nonneg (by simp)) write]

theorem token_cost_exact_mixed :
    costFromResolved ⟨some 9223372036854775807, some 3000, none, some 0, none, none, none, none⟩
      1 1000000 (-5) 7 = 3000 := by
  have valid : ResolvedPrices.Valid
      ⟨some 9223372036854775807, some 3000, none, some 0, none, none, none, none⟩ :=
    ⟨by decide⟩
  rw [(token_cost_exact valid 1 1000000 (-5) 7).1]
  decide

theorem negative_count_costs_nothing :
    costFromResolved ⟨some 1000000, none, none, none, none, none, none, none⟩ (-1) 0 0 0 = 0 ∧
      (-1 : Int) * 1000000 ≤ segBudget ∧ ((-1 : Int) * 1000000 + 500000) / 1000000 = -1 := by
  decide

/-- The image cost in exact integers, with the source's final cap. -/
def imageCharge (rp : ResolvedPrices) (inTok outTok count : Int) : Int :=
  min ((segment inTok (orInt rp.imgInTokPerM) + segment outTok (orInt rp.imgOutTokPerM) +
    500000) / 1000000 + unitSegment (orInt rp.pricePerImage) count) imageTotalCap

theorem imageCostFromResolved_eq {rp : ResolvedPrices} (valid : rp.Valid) (hin : 0 ≤ inTok)
    (hout : 0 ≤ outTok) (hcount : 0 ≤ count) :
    imageCostFromResolved rp inTok outTok count = imageCharge rp inTok outTok count := by
  obtain ⟨l₁, u₁⟩ := segment_bounds (orInt rp.imgInTokPerM) hin
  obtain ⟨l₂, u₂⟩ := segment_bounds (orInt rp.imgOutTokPerM) hout
  obtain ⟨l₃, u₃⟩ := unitSegment_bounds (orInt rp.pricePerImage) count
  have units : (if 0 < orInt rp.pricePerImage ∧ 0 < count
      then cappedUnits (orInt rp.pricePerImage) count else 0) =
      unitSegment (orInt rp.pricePerImage) count := by
    unfold unitSegment
    split
    case isTrue both => exact cappedUnits_eq both.1 hcount
    case isFalse => rfl
  have budget := segBudget_eq
  have cap := imageTotalCap_eq
  unfold imageCostFromResolved imageCharge
  simp only [clampNeg_of_nonneg hin, clampNeg_of_nonneg hout, clampNeg_of_nonneg hcount]
  rw [mul64_clampToken hin (valid.nonneg (by simp)), mul64_clampToken hout (valid.nonneg (by simp)),
    units, add64_of_fits (a := segment inTok _) (fits_iff.mpr (by omega)),
    rounded_eq (by omega) (by omega), add64_of_fits (fits_iff.mpr (by omega))]

theorem imageCharge_bounds (count : Int) (hin : 0 ≤ inTok) (hout : 0 ≤ outTok) :
    0 ≤ imageCharge rp inTok outTok count ∧ imageCharge rp inTok outTok count ≤ imageTotalCap := by
  obtain ⟨l₁, u₁⟩ := segment_bounds (orInt rp.imgInTokPerM) hin
  obtain ⟨l₂, u₂⟩ := segment_bounds (orInt rp.imgOutTokPerM) hout
  obtain ⟨l₃, u₃⟩ := unitSegment_bounds (orInt rp.pricePerImage) count
  unfold imageCharge
  omega

theorem imageCharge_mono {inTok' outTok' count' : Int} (hin : inTok ≤ inTok')
    (hout : outTok ≤ outTok') (hcount : count ≤ count') :
    imageCharge rp inTok outTok count ≤ imageCharge rp inTok' outTok' count' := by
  have m₁ := segment_mono (orInt rp.imgInTokPerM) hin
  have m₂ := segment_mono (orInt rp.imgOutTokPerM) hout
  have m₃ := unitSegment_mono (orInt rp.pricePerImage) hcount
  unfold imageCharge
  omega

/-- The image cost is the exact one, with a negative count read as zero: it is between zero and
the cap and grows with each count. -/
theorem image_cost_exact {rp : ResolvedPrices} (valid : rp.Valid) (inTok outTok count : Int) :
    let cost := imageCostFromResolved rp
    cost inTok outTok count = imageCharge rp (max inTok 0) (max outTok 0) (max count 0) ∧
      0 ≤ cost inTok outTok count ∧ cost inTok outTok count ≤ imageTotalCap ∧
      ∀ inTok' ≥ inTok, ∀ outTok' ≥ outTok, ∀ count' ≥ count,
        cost inTok outTok count ≤ cost inTok' outTok' count' := by
  intro cost
  have clamped (t : Int) : clampNeg t = clampNeg (max t 0) := by
    unfold clampNeg
    split <;> split <;> omega
  have exact (a b n : Int) : cost a b n = imageCharge rp (max a 0) (max b 0) (max n 0) := by
    rw [← imageCostFromResolved_eq valid (le_max_right a 0) (le_max_right b 0) (le_max_right n 0)]
    unfold cost imageCostFromResolved
    rw [clamped a, clamped b, clamped n]
  obtain ⟨lower, upper⟩ :=
    imageCharge_bounds rp (max count 0) (le_max_right inTok 0) (le_max_right outTok 0)
  rw [exact]
  refine ⟨rfl, lower, upper, fun a ha b hb n hn => ?_⟩
  rw [exact]
  apply imageCharge_mono
  all_goals exact max_le_max_right 0 ‹_›

theorem image_cost_exact_mixed :
    imageCostFromResolved ⟨none, none, none, none, none, none, some 40000, some 5⟩ (-1) 50 3 = 17 := by
  rw [(image_cost_exact ⟨by decide⟩ _ _ _).1]
  decide

theorem imageCharge_zero_tokens (count : Int) :
    imageCharge rp 0 0 count = unitSegment (orInt rp.pricePerImage) count := by
  obtain ⟨lower, upper⟩ := unitSegment_bounds (orInt rp.pricePerImage) count
  have zero (p : Int) : segment 0 p = 0 := by
    unfold segment
    split
    case isTrue positive =>
      rw [min_eq_left (Int.ediv_nonneg (by decide) positive.le), zero_mul]
    case isFalse => rfl
  unfold imageCharge
  rw [zero, zero]
  omega

theorem callCostFromResolved_eq {rp : ResolvedPrices} (hcount : 0 ≤ count) :
    callCostFromResolved rp count = unitSegment (orInt rp.pricePerCall) count := by
  unfold callCostFromResolved
  cases price : rp.pricePerCall with
  | none => simp [unitSegment]
  | some p =>
    rw [orInt_some]
    simp only [clampNeg_of_nonneg hcount]
    unfold unitSegment
    by_cases positive : 0 < p
    · rw [if_pos positive, cappedUnits_eq positive hcount]
      by_cases units : 0 < count
      · rw [if_pos ⟨positive, units⟩]
      have none_left : count = 0 := by omega
      rw [if_neg (by omega), none_left,
        min_eq_left (Int.ediv_nonneg (by decide) positive.le), zero_mul]
    · rw [if_neg positive, if_neg (by omega)]

end C3Api.Billing
