import Mathlib.Data.List.Sort
import C3Api.Billing.Cost
import C3Api.Encoding.Scan

/-!
# Price entries and their variants

The writers of the price table check an entry and the variants of its model; the resolution
takes the prices of the entry and applies the first variant whose conditions hold.
-/

namespace C3Api.Billing

open Machine Option List
open Scan (scanDecimal)

inductive PriceMode where
  | token
  | call
  | image
  | other (name : String)
deriving DecidableEq

def PriceMode.valid : PriceMode → Bool
  | other _ => false
  | _ => true

structure PriceEntryManual where
  model : String
  mode : PriceMode
  prices : ResolvedPrices

structure PriceEntry where
  model : String
  mode : PriceMode
  prices : ResolvedPrices
  provider : Option String := none

structure PriceVariant where
  seq : Int
  serviceTier : Option String := none
  ctxMin : Option Int := none
  ctxMax : Option Int := none
  timeStart : Option String := none
  timeEnd : Option String := none
  dowMask : Option Int := none
  multBP : Option Int := none
  setInputPerM : Option Int := none
  setOutputPerM : Option Int := none
  setCacheReadPerM : Option Int := none
  setCacheCreationPerM : Option Int := none
  setPricePerCall : Option Int := none
  setImgInTokPerM : Option Int := none
  setImgOutTokPerM : Option Int := none
  setPricePerImage : Option Int := none
deriving DecidableEq

/-! ## Writing -/

def invalidInput (detail : String) : String := "service: invalid input: " ++ detail

def ResolvedPrices.columns (rp : ResolvedPrices) : List (String × Option Int) :=
  [("input_per_m", rp.inputPerM), ("output_per_m", rp.outputPerM),
    ("cache_read_per_m", rp.cacheReadPerM), ("cache_write_per_m", rp.cacheWritePerM),
    ("price_per_call", rp.pricePerCall), ("img_in_tok_per_m", rp.imgInTokPerM),
    ("img_out_tok_per_m", rp.imgOutTokPerM), ("price_per_image", rp.pricePerImage)]

def firstNegative (columns : List (String × Option Int)) : Option String :=
  (columns.find? fun column => column.2.any (· < 0)).map Prod.fst

def missingPrice (mode : PriceMode) (rp : ResolvedPrices) : Option String :=
  match mode with
  | .token =>
    if rp.inputPerM = none ∨ rp.outputPerM = none then
      some "token mode requires input_per_m+output_per_m"
    else none
  | .call => if rp.pricePerCall = none then some "call mode requires price_per_call" else none
  | .image =>
    if rp.imgInTokPerM = none ∧ rp.imgOutTokPerM = none ∧ rp.pricePerImage = none then
      some "image mode requires at least one image component"
    else none
  | .other _ => none

def upsertPriceEntry (m : PriceEntryManual) : Except String PriceEntry :=
  if m.model = "" then .error (invalidInput "model is required")
  else
    match m.mode with
    | .other name => .error (invalidInput ("invalid mode \"" ++ name ++ "\""))
    | mode =>
      match missingPrice mode m.prices, firstNegative m.prices.columns with
      | some detail, _ => .error (invalidInput detail)
      | none, some name => .error (invalidInput (name ++ " must be >=0"))
      | none, none => .ok { model := m.model, mode, prices := m.prices }

def PriceVariant.sets (v : PriceVariant) : ResolvedPrices where
  inputPerM := v.setInputPerM
  outputPerM := v.setOutputPerM
  cacheReadPerM := v.setCacheReadPerM
  cacheWritePerM := v.setCacheCreationPerM
  pricePerCall := v.setPricePerCall
  imgInTokPerM := v.setImgInTokPerM
  imgOutTokPerM := v.setImgOutTokPerM
  pricePerImage := v.setPricePerImage

def PriceVariant.hasEffect (v : PriceVariant) : Bool :=
  v.multBP.isSome || v.sets.columns.any fun column => column.2.isSome

def PriceVariant.check (v : PriceVariant) : Option String :=
  if v.hasEffect = false then
    some (invalidInput ("variant seq " ++ toString v.seq ++ " requires at least one effect"))
  else if v.multBP.any (fun mult => mult < 0 || 100000 < mult) then
    some (invalidInput ("variant seq " ++ toString v.seq ++ " multiplier must be in [0,10]"))
  else none

/-- The first number that an earlier variant already has. -/
def duplicateSeq (seqs : List Int) : List PriceVariant → Option Int
  | [] => none
  | v :: rest => if v.seq ∈ seqs then some v.seq else duplicateSeq (v.seq :: seqs) rest

/-- `ReplacePriceVariants` and `ReplaceBatch`: the checked variants in the order of their
numbers. -/
def replacePriceVariants (variants : List PriceVariant) : Except String (List PriceVariant) :=
  match variants.findSome? PriceVariant.check with
  | some detail => .error detail
  | none =>
    match duplicateSeq [] variants with
    | some seq => .error ("duplicate seq " ++ toString seq)
    | none => .ok (variants.insertionSort fun a b => a.seq ≤ b.seq)

/-! ## Resolving -/

/-- The moment of a request in the local time of the installation. -/
structure LocalTime where
  hour : Nat
  minute : Nat
  weekday : Nat

/-- The minute of the day of a text `HH:MM`; what cannot be read counts as nought. -/
def parseClock (s : String) : Int :=
  match scanDecimal s.toList with
  | some (h, ':' :: rest) => add64 (mul64 h 60) (((scanDecimal rest).map Prod.fst).getD 0)
  | some (h, _) => mul64 h 60
  | none => 0

def timeMatches (start stop : Option String) (now : LocalTime) : Bool :=
  let cur : Int := now.hour * 60 + now.minute
  match start, stop with
  | none, none => true
  | some start, some stop =>
    let s := parseClock start
    let e := parseClock stop
    if s = e then true
    else if s < e then s ≤ cur && cur < e
    -- the window runs over midnight
    else s ≤ cur || cur < e
  | some start, none => parseClock start ≤ cur
  | none, some stop => cur < parseClock stop

def variantMatches (v : PriceVariant) (tier : String) (promptTokens : Int) (now : LocalTime) :
    Bool :=
  v.serviceTier.all (· = tier) && v.ctxMin.all (· ≤ promptTokens) &&
    v.ctxMax.all (promptTokens < ·) && timeMatches v.timeStart v.timeEnd now &&
    v.dowMask.all fun mask => mask / 2 ^ now.weekday % 2 ≠ 0

structure Resolved where
  mode : PriceMode
  prices : ResolvedPrices
  variantSeq : Option Int := none
  provider : Option String
deriving DecidableEq

def applyMult (mult : Int) : Option Int → Option Int
  | none => none
  | some p =>
    let val := div64 (add64 (mul64 p mult) 5000) 10000
    if val < 0 then some p else some val

def setInt64Ptr (dst src : Option Int) : Option Int := src.or dst

/-- The prices under an operation on each of them, with a second record beside. -/
def ResolvedPrices.zip (f : Option Int → Option Int → Option Int) (a b : ResolvedPrices) :
    ResolvedPrices where
  inputPerM := f a.inputPerM b.inputPerM
  outputPerM := f a.outputPerM b.outputPerM
  cacheReadPerM := f a.cacheReadPerM b.cacheReadPerM
  cacheWritePerM := f a.cacheWritePerM b.cacheWritePerM
  pricePerCall := f a.pricePerCall b.pricePerCall
  imgInTokPerM := f a.imgInTokPerM b.imgInTokPerM
  imgOutTokPerM := f a.imgOutTokPerM b.imgOutTokPerM
  pricePerImage := f a.pricePerImage b.pricePerImage

def clampMult (mult : Int) : Int :=
  if mult < 0 then 0 else if 100000 < mult then 100000 else mult

def applyEffect (multBP : Option Int) (price set : Option Int) : Option Int :=
  setInt64Ptr
    (match multBP with
    | none => price
    | some mult => applyMult (clampMult mult) price) set

def applyVariant (v : PriceVariant) (rp : Resolved) : Resolved :=
  { rp with
    variantSeq := some v.seq
    prices := rp.prices.zip (applyEffect v.multBP) v.sets }

def applyFirst (tier : String) (promptTokens : Int) (now : LocalTime) (rp : Resolved) :
    List PriceVariant → Resolved
  | [] => rp
  | v :: rest =>
    if variantMatches v tier promptTokens now then applyVariant v rp
    else applyFirst tier promptTokens now rp rest

def resolveEntryPrices (entry : Option PriceEntry) (variants : List PriceVariant)
    (tier : String) (promptTokens : Int) (now : LocalTime) : Option Resolved :=
  entry.map fun entry =>
    applyFirst tier promptTokens now
      { mode := entry.mode, prices := entry.prices, provider := entry.provider } variants

/-! ## What the writers accept -/

theorem upsertPriceEntry_ok {m : PriceEntryManual} {entry : PriceEntry}
    (accepted : upsertPriceEntry m = .ok entry) :
    entry.prices = m.prices ∧ firstNegative m.prices.columns = none := by
  unfold upsertPriceEntry at accepted
  split at accepted
  · exact nomatch accepted
  split at accepted
  · exact nomatch accepted
  split at accepted
  · exact nomatch accepted
  · exact nomatch accepted
  rename_i nonneg
  cases Except.ok.inj accepted
  exact ⟨rfl, nonneg⟩

theorem nonneg_of_firstNegative {columns : List (String × Option Int)}
    (none : firstNegative columns = none) {column : String × Option Int}
    (member : column ∈ columns) {p : Int} (price : column.2 = some p) : 0 ≤ p := by
  have unfound := find?_eq_none.mp (map_eq_none_iff.mp none) column member
  rw [price, any_some, decide_eq_true_eq] at unfound
  exact not_lt.mp unfound

theorem replacePriceVariants_ok {variants stored : List PriceVariant}
    (accepted : replacePriceVariants variants = .ok stored) {v : PriceVariant}
    (member : v ∈ stored) {mult : Int} (multiplier : v.multBP = some mult) :
    0 ≤ mult ∧ mult ≤ 100000 := by
  unfold replacePriceVariants at accepted
  split at accepted
  · exact nomatch accepted
  rename_i checked
  split at accepted
  · exact nomatch accepted
  cases Except.ok.inj accepted
  have listed := (mem_insertionSort _).mp member
  have unchecked := findSome?_eq_none_iff.mp checked v listed
  unfold PriceVariant.check at unchecked
  split at unchecked
  · exact nomatch unchecked
  split at unchecked
  · exact nomatch unchecked
  rename_i inRange
  rw [multiplier] at inRange
  simp only [any_some, Bool.or_eq_true, decide_eq_true_eq, not_or, not_lt] at inRange
  exact inRange

/-! ## The resolved prices -/

theorem applyFirst_eq (tier : String) (promptTokens : Int) (now : LocalTime) (rp : Resolved)
    (variants : List PriceVariant) :
    applyFirst tier promptTokens now rp variants =
      match variants.find? (variantMatches · tier promptTokens now) with
      | none => rp
      | some v => applyVariant v rp := by
  induction variants with
  | nil => rfl
  | cons v rest ih =>
    rw [applyFirst, find?_cons]
    split
    next here => rw [here]
    next other => rw [Bool.eq_false_iff.mpr other, ih]

/-- A price under the variant that applies, over the integers: the set price, else the base
price times the multiplier, rounded half up. -/
def exactPrice (multBP price set : Option Int) : Option Int :=
  match set, multBP with
  | some s, _ => some s
  | none, none => price
  | none, some mult => price.map fun p => (p * mult + 5000) / 10000

/-- A price that resolves without harm: one that is set is not negative, one that is multiplied
leaves room for the product, or is multiplied by one and its product turns negative, for then
the base price stays. -/
def Resolvable (multBP price set : Option Int) : Prop :=
  match set, multBP with
  | some s, _ => 0 ≤ s
  | none, none => True
  | none, some mult => price.all fun p =>
      p * mult + 5000 ≤ maxInt64 ∨ (mult = 10000 ∧ wrap (p * mult + 5000) ≤ -10000)

instance (multBP price set : Option Int) : Decidable (Resolvable multBP price set) := by
  unfold Resolvable
  split <;> infer_instance

/-- The multiplied price before it is found to be negative. -/
theorem multiplied_eq (p mult : Int) : div64 (add64 (mul64 p mult) 5000) 10000 =
    (wrap (p * mult + 5000)).tdiv 10000 := by
  have sum : add64 (mul64 p mult) 5000 = wrap (p * mult + 5000) := Int.bmod_add_bmod
  rw [sum, div64_of_pos (wrap_fits _) (by decide)]

theorem applyMult_eq {p mult : Int} (price : 0 ≤ p) (multiplier : 0 ≤ mult)
    (room : p * mult + 5000 ≤ maxInt64) :
    applyMult mult (some p) = some ((p * mult + 5000) / 10000) := by
  have product : 0 ≤ p * mult := mul_nonneg price multiplier
  have fits : Fits (p * mult + 5000) := ⟨le_trans (by decide) (add_nonneg product (by decide)), room⟩
  simp only [applyMult, multiplied_eq, wrap_of_fits fits]
  rw [Int.tdiv_eq_ediv_of_nonneg (by omega), if_neg]
  exact not_lt.mpr (Int.ediv_nonneg (by omega) (by decide))

/-- Beyond a word the product has lost a full turn, so it is right only where it turns negative
and the base price is the multiplied one. -/
theorem applyMult_overflow {p mult : Int} (price : 0 ≤ p) (high : mult ≤ 100000)
    (beyond : maxInt64 < p * mult + 5000) :
    applyMult mult (some p) = some ((p * mult + 5000) / 10000) ↔
      mult = 10000 ∧ wrap (p * mult + 5000) ≤ -10000 := by
  have turned := wrap_le_of_overflow beyond
  have bound : p * mult ≤ p * 100000 := mul_le_mul_of_nonneg_left high price
  have up : 0 ≤ wrap (p * mult + 5000) → _ := Int.tdiv_eq_ediv_of_nonneg (b := 10000)
  have down : 0 ≤ -wrap (p * mult + 5000) → _ := Int.tdiv_eq_ediv_of_nonneg (b := 10000)
  rw [Int.neg_tdiv] at down
  unfold maxInt64 at beyond
  simp only [applyMult, multiplied_eq]
  split
  next negative =>
    have low : wrap (p * mult + 5000) ≤ -10000 := by omega
    simp only [low, and_true, some.injEq]
    refine ⟨fun same => ?_, fun one => by subst one; omega⟩
    -- a multiplier beside ten thousand moves a price this large
    rcases lt_trichotomy mult 10000 with below | one | above
    · have less : p * mult ≤ p * 9999 := mul_le_mul_of_nonneg_left (by omega) price
      omega
    · exact one
    · have more : p * 10001 ≤ p * mult := mul_le_mul_of_nonneg_left (by omega) price
      omega
  next kept =>
    rw [some.injEq]
    exact ⟨fun same => by omega, fun ⟨_, low⟩ => by omega⟩

theorem applyEffect_exact {multBP price set : Option Int} (nonneg : ∀ p, price = some p → 0 ≤ p)
    (range : ∀ mult, multBP = some mult → 0 ≤ mult ∧ mult ≤ 100000) :
    (applyEffect multBP price set = exactPrice multBP price set ∧
      ∀ p, applyEffect multBP price set = some p → 0 ≤ p) ↔ Resolvable multBP price set := by
  cases set with
  | some s => simp [applyEffect, exactPrice, setInt64Ptr, Resolvable]
  | none =>
    cases multBP with
    | none => simpa [applyEffect, exactPrice, setInt64Ptr, Resolvable] using nonneg
    | some mult =>
      obtain ⟨low, high⟩ := range mult rfl
      have clamped : clampMult mult = mult := by
        unfold clampMult
        rw [if_neg (not_lt.mpr low), if_neg (not_lt.mpr high)]
      cases price with
      | none => simp [applyEffect, exactPrice, setInt64Ptr, Resolvable, applyMult]
      | some base =>
        have base_nonneg := nonneg base rfl
        have product := mul_nonneg base_nonneg low
        have exact_nonneg : 0 ≤ (base * mult + 5000) / 10000 :=
          Int.ediv_nonneg (by omega) (by decide)
        have effect : applyEffect (some mult) (some base) none = applyMult mult (some base) := by
          simp [applyEffect, setInt64Ptr, clamped]
        have whole : Resolvable (some mult) (some base) none ↔
            applyMult mult (some base) = some ((base * mult + 5000) / 10000) := by
          rw [Resolvable, all_some, decide_eq_true_eq]
          rcases le_or_gt (base * mult + 5000) maxInt64 with room | beyond
          · simp only [room, true_or, applyMult_eq base_nonneg low room]
          · rw [applyMult_overflow base_nonneg high beyond]
            simp only [not_le.mpr beyond, false_or]
        rw [effect, whole]
        refine ⟨And.left, fun same => ⟨same, fun p price => ?_⟩⟩
        cases same.symm.trans price
        exact exact_nonneg

theorem applyVariant_columns (v : PriceVariant) (rp : Resolved) :
    (applyVariant v rp).prices.columns = (zip rp.prices.columns v.sets.columns).map fun pair =>
        (pair.1.1, applyEffect v.multBP pair.1.2 pair.2.2) :=
  rfl

/-- What resolves without harm under the variant that applies. -/
def PriceVariant.Resolves (v : PriceVariant) (rp : ResolvedPrices) : Prop :=
  ∀ pair ∈ zip rp.columns v.sets.columns, Resolvable v.multBP pair.1.2 pair.2.2

instance (v : PriceVariant) (rp : ResolvedPrices) : Decidable (v.Resolves rp) :=
  inferInstanceAs (Decidable (∀ pair ∈ zip rp.columns v.sets.columns,
    Resolvable v.multBP pair.1.2 pair.2.2))

/-- The first matching variant applies, and every price is the exact one and not negative,
exactly when the prices resolve under that variant. -/
theorem resolution_exact {m : PriceEntryManual} {entry : PriceEntry}
    (accepted : upsertPriceEntry m = .ok entry) {variants stored : List PriceVariant}
    (replaced : replacePriceVariants variants = .ok stored) (tier : String)
    (promptTokens : Int) (now : LocalTime) :
    (∃ rp, resolveEntryPrices (some entry) stored tier promptTokens now = some rp ∧
      rp.variantSeq =
        (stored.find? (variantMatches · tier promptTokens now)).map PriceVariant.seq ∧
      rp.prices.columns =
        (match stored.find? (variantMatches · tier promptTokens now) with
        | none => entry.prices.columns
        | some v => (List.zip entry.prices.columns v.sets.columns).map fun pair =>
            (pair.1.1, exactPrice v.multBP pair.1.2 pair.2.2)) ∧
      ∀ column ∈ rp.prices.columns, ∀ p, column.2 = some p → 0 ≤ p) ↔
    ∀ v, stored.find? (variantMatches · tier promptTokens now) = some v →
      v.Resolves entry.prices := by
  obtain ⟨prices, nonneg⟩ := upsertPriceEntry_ok accepted
  rw [← prices] at nonneg
  simp only [resolveEntryPrices, Option.map_some, some.injEq, exists_eq_left']
  rw [applyFirst_eq]
  cases first : stored.find? (variantMatches · tier promptTokens now) with
  | none =>
    refine ⟨fun _ v impossible => (nomatch impossible), fun _ => ⟨rfl, rfl, ?_⟩⟩
    exact fun column member p price => nonneg_of_firstNegative nonneg member price
  | some v =>
    have range (mult : Int) (multiplier : v.multBP = some mult) :=
      replacePriceVariants_ok replaced (mem_of_find?_eq_some first) multiplier
    -- each price is settled alone, beside the price that the variant sets for it
    have each : ∀ pair ∈ List.zip entry.prices.columns v.sets.columns,
        (applyEffect v.multBP pair.1.2 pair.2.2 = exactPrice v.multBP pair.1.2 pair.2.2 ∧
          ∀ p, applyEffect v.multBP pair.1.2 pair.2.2 = some p → 0 ≤ p) ↔
        Resolvable v.multBP pair.1.2 pair.2.2 := by
      intro pair member
      refine applyEffect_exact (fun p price => ?_) range
      exact nonneg_of_firstNegative nonneg (of_mem_zip member).1 price
    have columns : ((applyVariant v ⟨entry.mode, entry.prices, none, entry.provider⟩).prices.columns =
        (List.zip entry.prices.columns v.sets.columns).map fun pair =>
          (pair.1.1, exactPrice v.multBP pair.1.2 pair.2.2)) ↔
        ∀ pair ∈ List.zip entry.prices.columns v.sets.columns,
          applyEffect v.multBP pair.1.2 pair.2.2 = exactPrice v.multBP pair.1.2 pair.2.2 := by
      rw [applyVariant_columns, map_inj_left]
      simp only [Prod.mk.injEq, true_and]
    simp only [columns, some.injEq, forall_eq']
    rw [applyVariant_columns, List.forall_mem_map, PriceVariant.Resolves]
    constructor
    · rintro ⟨-, same, signs⟩ pair member
      exact (each pair member).mp ⟨same pair member, signs pair member⟩
    · intro resolves
      have settled := fun pair member => (each pair member).mpr (resolves pair member)
      exact ⟨rfl, fun pair member => (settled pair member).1,
        fun pair member => (settled pair member).2⟩

theorem resolution_exact_priority :
    resolveEntryPrices
        (some ⟨"m", .token, { inputPerM := some 3, outputPerM := some 7 }, none⟩)
        [{ seq := 1, serviceTier := some "flex", setOutputPerM := some 1 },
          { seq := 2, multBP := some 15000, setOutputPerM := some 9 }] "priority" 10 ⟨8, 0, 1⟩ =
      some ⟨.token, { inputPerM := some 5, outputPerM := some 9 }, some 2, none⟩ ∧
    ∃ rp, resolveEntryPrices
        (some ⟨"m", .token, { inputPerM := some 3, outputPerM := some 7 }, none⟩)
        [{ seq := 1, serviceTier := some "flex", setOutputPerM := some 1 },
          { seq := 2, multBP := some 15000, setOutputPerM := some 9 }] "priority" 10 ⟨8, 0, 1⟩ =
        some rp ∧ ∀ column ∈ rp.prices.columns, ∀ p, column.2 = some p → 0 ≤ p := by
  refine ⟨by decide +kernel, ?_⟩
  have accepted : upsertPriceEntry
      ⟨"m", .token, { inputPerM := some 3, outputPerM := some 7 }⟩ = .ok _ := rfl
  have replaced : replacePriceVariants [{ seq := 2, multBP := some 15000, setOutputPerM := some 9 },
        { seq := 1, serviceTier := some "flex", setOutputPerM := some 1 }] = .ok _ := rfl
  obtain ⟨rp, resolved, -, -, nonneg⟩ :=
    (resolution_exact accepted replaced "priority" 10 ⟨8, 0, 1⟩).mpr fun v first => by
      have second : v = { seq := 2, multBP := some 15000, setOutputPerM := some 9 } :=
        some.inj (first.symm.trans (by decide +kernel))
      subst second
      decide +kernel
  exact ⟨rp, resolved, nonneg⟩

/-- Both tables are accepted: a price that is tenfold leaves the range of a word and stays as it
was, and a negative set price goes through. -/
theorem accepted_prices_resolve_wrong :
    (∃ entry stored, upsertPriceEntry
        ⟨"m", .call, { pricePerCall := some 9223372036854775807 }⟩ = .ok entry ∧
      replacePriceVariants [{ seq := 1, multBP := some 100000 }] = .ok stored ∧
      (resolveEntryPrices (some entry) stored "auto" 0 ⟨0, 0, 0⟩).map (·.prices.pricePerCall) =
        some (some 9223372036854775807)) ∧
    ∃ entry stored, upsertPriceEntry ⟨"m", .call, { pricePerCall := some 1000 }⟩ = .ok entry ∧
      replacePriceVariants [{ seq := 1, setPricePerCall := some (-5) }] = .ok stored ∧
      (resolveEntryPrices (some entry) stored "auto" 0 ⟨0, 0, 0⟩).map (·.prices.pricePerCall) =
        some (some (-5)) :=
  ⟨⟨_, _, rfl, rfl, by decide +kernel⟩, _, _, rfl, rfl, by decide +kernel⟩

end C3Api.Billing
