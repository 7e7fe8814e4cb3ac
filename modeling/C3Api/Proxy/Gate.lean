import C3Api.Machine.Int64
import Mathlib.Data.List.Infix

/-!
# Quota budgets of the concurrency gate

The quota half of `proxy/gate.go`. Each key holds a local budget that is
allocated when a snapshot is rebuilt and re-claimed from the database when it
runs out. A claim subtracts the consumption the database does not show yet, so
re-claiming converges; a rebuild does not, and `rebuild_grant_iff` says when its
budget still stays within the quota.
-/

namespace C3Api.Proxy

open Machine List Function

structure KeyMeta where
  keyID : Int
  userID : Int := 0
  hasQuota : Bool := false
  quota : Int := 0
  quotaUsed : Int := 0
  deriving DecidableEq

structure KeyQuota where
  consumed : Int := 0
  budget : Int := 0
  reclaiming : Bool := false
  exhausted : Bool := false
  retryAt : Int := 0
  quotaUsedAtReclaim : Int := 0

structure GateSnapshot where
  users : Int → Option Int
  keys : Int → Option Int
  quotas : Int → Option KeyQuota

structure ConcurrencyGate where
  quotaEnabled : Bool
  reclaimer : Bool
  store : GateSnapshot

def GateSnapshot.empty : GateSnapshot := ⟨fun _ => none, fun _ => none, fun _ => none⟩

/-- The instance count, one when no provider is set or it reports nothing. -/
def instancesN (provider : Option Int) : Int :=
  match provider with
  | some n => if 0 < n then n else 1
  | none => 1

def ceilDiv (a b : Int) : Int :=
  if a ≤ 0 then 0 else div64 (sub64 (add64 a b) 1) b

def allocBudget (provider : Option Int) (q : KeyQuota) (keyMeta : KeyMeta) : KeyQuota :=
  let remaining := sub64 keyMeta.quota keyMeta.quotaUsed
  if remaining ≤ 0 then { q with budget := q.consumed, exhausted := true }
  else
    { q with
      quotaUsedAtReclaim := keyMeta.quotaUsed
      budget := add64 q.consumed (ceilDiv remaining (instancesN provider))
      exhausted := false }

/-- What a database read of `quota_used` returned. -/
inductive QuotaRead where
  | failed
  | used (value : Int)

/-- What one call of `reclaim` reads from outside: the clock before and after
the database read, the read itself and the instance count. -/
structure ReclaimInput where
  now : Int := 0
  after : Int := 0
  read : QuotaRead
  provider : Option Int := none

def quotaReclaimRetry : Int := 10000000000

def reclaim (reclaimer : Bool) (input : ReclaimInput) (keyMeta : KeyMeta) (q : KeyQuota) :
    KeyQuota × Bool :=
  if q.reclaiming then (q, decide (q.consumed < q.budget))
  else if input.now < q.retryAt then (q, false)
  else if !reclaimer then ({ q with exhausted := true }, false)
  else
    match input.read with
    | .failed =>
      ({ q with retryAt := add64 input.after quotaReclaimRetry, budget := add64 q.consumed 1 },
        true)
    | .used used =>
      let remaining := sub64 keyMeta.quota used
      if 0 < remaining then
        let unreported := max (sub64 q.consumed q.quotaUsedAtReclaim) 0
        let remainingEff := sub64 remaining unreported
        if 0 < remainingEff then
          ({ q with
              quotaUsedAtReclaim := used
              budget := add64 q.consumed (ceilDiv remainingEff (instancesN input.provider)) },
            true)
        else ({ q with exhausted := true }, false)
      else ({ q with exhausted := true }, false)

def GateSnapshot.setQuota (snap : GateSnapshot) (key : Int) (q : KeyQuota) : GateSnapshot :=
  { snap with quotas := update snap.quotas key (some q) }

/-- The check before a request; `false` admits it. -/
def quotaExhausted (g : ConcurrencyGate) (input : ReclaimInput) (keyMeta : KeyMeta) :
    ConcurrencyGate × Bool :=
  if !g.quotaEnabled || !keyMeta.hasQuota then (g, false)
  else
    match g.store.quotas keyMeta.keyID with
    | none => (g, decide (keyMeta.quota ≤ keyMeta.quotaUsed))
    | some q =>
      if q.exhausted then (g, true)
      else if q.consumed < q.budget then (g, false)
      else
        let result := reclaim g.reclaimer input keyMeta q
        ({ g with store := g.store.setQuota keyMeta.keyID result.1 }, !result.2)

def deductQuota (g : ConcurrencyGate) (keyID cost : Int) : ConcurrencyGate × Int :=
  if !g.quotaEnabled || keyID ≤ 0 || cost ≤ 0 then (g, 0)
  else
    match g.store.quotas keyID with
    | none => (g, 0)
    | some q =>
      ({ g with store := g.store.setQuota keyID { q with consumed := add64 q.consumed cost } },
        cost)

/-- One entry of a reload: in-flight counts and consumption carry over, the
budget is allocated afresh. -/
def reloadEntry (quotaEnabled : Bool) (old snap : GateSnapshot)
    (entry : KeyMeta × Option Int) : GateSnapshot where
  users :=
    if (snap.users entry.1.userID).isSome then snap.users
    else update snap.users entry.1.userID (some ((old.users entry.1.userID).getD 0))
  keys := update snap.keys entry.1.keyID (some ((old.keys entry.1.keyID).getD 0))
  quotas :=
    if quotaEnabled && entry.1.hasQuota then
      let consumed :=
        match old.quotas entry.1.keyID with
        | some o => o.consumed
        | none => entry.1.quotaUsed
      update snap.quotas entry.1.keyID
        (some (allocBudget entry.2 { consumed := consumed } entry.1))
    else snap.quotas

/-- The entries come in the order the map is walked, each with the instance
count read while its budget is allocated. -/
def reload (g : ConcurrencyGate) (metas : List (KeyMeta × Option Int)) : ConcurrencyGate :=
  { g with store := metas.foldl (reloadEntry g.quotaEnabled g.store) .empty }

def upsert (g : ConcurrencyGate) (keyMeta : KeyMeta) (provider : Option Int) : ConcurrencyGate :=
  let old := g.store
  let users :=
    if (old.users keyMeta.userID).isSome then old.users
    else update old.users keyMeta.userID (some 0)
  let keys :=
    if (old.keys keyMeta.keyID).isSome then old.keys
    else update old.keys keyMeta.keyID (some 0)
  let quotas :=
    if g.quotaEnabled && keyMeta.hasQuota then
      let q := (old.quotas keyMeta.keyID).getD { consumed := keyMeta.quotaUsed }
      update old.quotas keyMeta.keyID (some (allocBudget provider q keyMeta))
    else update old.quotas keyMeta.keyID none
  { g with store := ⟨users, keys, quotas⟩ }

theorem instancesN_pos (provider : Option Int) : 0 < instancesN provider := by
  unfold instancesN
  split
  · split <;> omega
  · decide

theorem ceilDiv_eq {a b : Int} (positive : 0 < a) (divisor : 0 < b) (fits : a + b ≤ maxInt64) :
    ceilDiv a b = (a + b - 1) / b := by
  unfold maxInt64 at fits
  unfold ceilDiv
  rw [if_neg (by omega), add64_of_fits (fits_iff.mpr (by omega)),
    sub64_of_fits (fits_iff.mpr (by omega)),
    div64_of_nonneg (fits_iff.mpr (by omega)) (by omega) divisor]

/-- Without overflow the rounded-up quotient is bounded by a product. -/
theorem ceilDiv_spec {a b : Int} (positive : 0 < a) (divisor : 0 < b) (fits : a + b ≤ maxInt64) :
    0 < ceilDiv a b ∧ ceilDiv a b ≤ a ∧ ∀ x, ceilDiv a b ≤ x ↔ a ≤ b * x := by
  have bound (x : Int) : ceilDiv a b ≤ x ↔ a ≤ b * x := by
    rw [ceilDiv_eq positive divisor fits, ← Int.lt_add_one_iff, Int.ediv_lt_iff_lt_mul divisor,
      add_mul, one_mul, mul_comm x]
    omega
  refine ⟨?_, ?_, bound⟩
  · by_contra small
    have none_left := (bound 0).mp (by omega)
    omega
  · rw [bound]
    nlinarith

section

/-- What holds of an entry between calls when the last database read was `read`. -/
structure QuotaInv (quota read : Int) (q : KeyQuota) : Prop where
  budget : q.budget ≤ quota
  baseline : 0 ≤ q.quotaUsedAtReclaim ∧ q.quotaUsedAtReclaim ≤ read
  consumed : Fits q.consumed

theorem QuotaInv.later {quota read used : Int} {q : KeyQuota} (inv : QuotaInv quota read q)
    (ordered : read ≤ used) : QuotaInv quota used q :=
  ⟨inv.budget, ⟨inv.baseline.1, inv.baseline.2.trans ordered⟩, inv.consumed⟩

/-- A granted claim leaves the consumption and the new budget within the quota,
also when the consumption counter has turned over. -/
theorem claimed_le {quota used consumed baseline n : Int} (fits : Fits consumed)
    (start : 0 ≤ baseline) (ordered : baseline ≤ used) (word : used ≤ maxInt64)
    (nonneg : 0 ≤ quota) (divisor : 0 < n) (total : quota + n ≤ maxInt64)
    (remaining : 0 < sub64 quota used)
    (granted : 0 < sub64 (sub64 quota used) (max (sub64 consumed baseline) 0)) :
    consumed < quota ∧
      add64 consumed (ceilDiv (sub64 (sub64 quota used) (max (sub64 consumed baseline) 0)) n) ≤
        quota := by
  obtain ⟨low, high⟩ := fits_iff.mp fits
  obtain ⟨lowDiff, highDiff⟩ := fits_iff.mp (wrap_fits (consumed - baseline))
  have reported : consumed < 0 ∨ sub64 consumed baseline = consumed - baseline := by
    by_cases counted : consumed < 0
    · exact .inl counted
    · exact .inr (sub64_of_fits (fits_iff.mpr (by unfold maxInt64 at word; omega)))
  unfold maxInt64 at word total
  rw [sub64_of_fits (a := quota) (fits_iff.mpr (by omega))] at remaining granted ⊢
  change sub64 consumed baseline ≤ 9223372036854775807 at highDiff
  rw [sub64_of_fits (a := quota - used) (fits_iff.mpr (by omega))] at granted ⊢
  obtain ⟨some_granted, at_most, -⟩ :=
    ceilDiv_spec granted divisor (by unfold maxInt64; omega)
  refine ⟨by omega, ?_⟩
  rw [add64_of_fits (fits_iff.mpr (by omega))]
  omega

/-- A check of the key that carries its quota and whose read of the database succeeds and is
not below the one before. -/
structure Fetched (key quota read used : Int) (keyMeta : KeyMeta) (input : ReclaimInput) : Prop where
  same : keyMeta.keyID = key
  limited : keyMeta.hasQuota = true
  fixed : keyMeta.quota = quota
  result : input.read = .used used
  ordered : read ≤ used
  word : used ≤ maxInt64
  total : quota + instancesN input.provider ≤ maxInt64

variable {key quota read used : Int} {q : KeyQuota} {keyMeta : KeyMeta} {input : ReclaimInput}

theorem reclaim_inv (reclaimer : Bool) (inv : QuotaInv quota read q)
    (idle : q.consumed < q.budget → q.consumed < quota) (nonneg : 0 ≤ quota)
    (reads : Fetched key quota read used keyMeta input) :
    QuotaInv quota used (reclaim reclaimer input keyMeta q).1 ∧
      ((reclaim reclaimer input keyMeta q).2 = true → q.consumed < quota) := by
  have kept := inv.later reads.ordered
  have marked : QuotaInv quota used { q with exhausted := true } :=
    ⟨kept.budget, kept.baseline, kept.consumed⟩
  unfold reclaim
  rw [reads.result, reads.fixed]
  split
  · exact ⟨kept, fun admitted => idle (of_decide_eq_true admitted)⟩
  split
  · exact ⟨kept, by simp⟩
  split
  · exact ⟨marked, by simp⟩
  dsimp only
  split
  case isFalse => exact ⟨marked, by simp⟩
  rename_i remaining
  split
  case isFalse => exact ⟨marked, by simp⟩
  case isTrue granted =>
    obtain ⟨below, bounded⟩ := claimed_le inv.consumed inv.baseline.1
      (inv.baseline.2.trans reads.ordered) reads.word nonneg (instancesN_pos input.provider)
      reads.total remaining granted
    refine ⟨⟨bounded, ⟨?_, le_rfl⟩, inv.consumed⟩, fun _ => below⟩
    exact inv.baseline.1.trans (inv.baseline.2.trans reads.ordered)

end

inductive QuotaCall where
  | quotaExhausted (keyMeta : KeyMeta) (input : ReclaimInput)
  | deductQuota (keyID cost : Int)

def QuotaCall.apply (g : ConcurrencyGate) : QuotaCall → ConcurrencyGate
  | .quotaExhausted keyMeta input => (Proxy.quotaExhausted g input keyMeta).1
  | .deductQuota keyID cost => (Proxy.deductQuota g keyID cost).1

def runCalls (g : ConcurrencyGate) (calls : List QuotaCall) : ConcurrencyGate :=
  calls.foldl QuotaCall.apply g

/-- Calls whose checks of `key` carry its quota and whose reads never fall. -/
inductive SteadyReads (key quota : Int) : Int → List QuotaCall → Prop
  | nil (read : Int) : SteadyReads key quota read []
  | deduct {read keyID cost : Int} {rest : List QuotaCall} :
      SteadyReads key quota read rest →
      SteadyReads key quota read (.deductQuota keyID cost :: rest)
  | other {read : Int} {keyMeta : KeyMeta} {input : ReclaimInput} {rest : List QuotaCall} :
      keyMeta.keyID ≠ key → SteadyReads key quota read rest →
      SteadyReads key quota read (.quotaExhausted keyMeta input :: rest)
  | check {read used : Int} {keyMeta : KeyMeta} {input : ReclaimInput} {rest : List QuotaCall} :
      Fetched key quota read used keyMeta input → SteadyReads key quota used rest →
      SteadyReads key quota read (.quotaExhausted keyMeta input :: rest)

/-- The gate holds an entry for `key` that satisfies the invariant. -/
structure GateInv (key quota read : Int) (g : ConcurrencyGate) : Prop where
  enabled : g.quotaEnabled = true
  entry : ∃ q, g.store.quotas key = some q ∧ QuotaInv quota read q

section

variable {key quota read : Int} {g : ConcurrencyGate}

section

variable (inv : GateInv key quota read g)

include inv

theorem deductQuota_inv (keyID cost : Int) :
    GateInv key quota read (deductQuota g keyID cost).1 := by
  obtain ⟨q, entry, held⟩ := inv.entry
  unfold deductQuota
  split
  · exact inv
  cases found : g.store.quotas keyID with
  | none => exact inv
  | some p =>
    refine ⟨inv.enabled, ?_⟩
    by_cases same : key = keyID
    · subst same
      cases entry.symm.trans found
      exact ⟨_, update_self .., held.budget, held.baseline, wrap_fits _⟩
    · exact ⟨q, (update_of_ne same ..).trans entry, held⟩

theorem quotaExhausted_other (input : ReclaimInput) (different : keyMeta.keyID ≠ key) :
    GateInv key quota read (quotaExhausted g input keyMeta).1 := by
  obtain ⟨q, entry, held⟩ := inv.entry
  unfold quotaExhausted
  split
  · exact inv
  cases g.store.quotas keyMeta.keyID with
  | none => exact inv
  | some p =>
    dsimp only
    split
    · exact inv
    split
    · exact inv
    exact ⟨inv.enabled, q, (update_of_ne different.symm ..).trans entry, held⟩

/-- A check of the key keeps the invariant, and admits only below the quota. -/
theorem quotaExhausted_inv (nonneg : 0 ≤ quota) (reads : Fetched key quota read used keyMeta input) :
    GateInv key quota used (quotaExhausted g input keyMeta).1 ∧
      ((quotaExhausted g input keyMeta).2 = false →
        ∃ q, g.store.quotas key = some q ∧ q.consumed < quota) := by
  obtain ⟨q, entry, held⟩ := inv.entry
  have kept : GateInv key quota used g := ⟨inv.enabled, q, entry, held.later reads.ordered⟩
  have idle (within : q.consumed < q.budget) : q.consumed < quota := within.trans_le held.budget
  unfold quotaExhausted
  rw [if_neg (by simp [inv.enabled, reads.limited]), reads.same, entry]
  dsimp only
  split
  · exact ⟨kept, by simp⟩
  split
  case isTrue within => exact ⟨kept, fun _ => ⟨q, rfl, idle within⟩⟩
  obtain ⟨next, admitted⟩ := reclaim_inv g.reclaimer held idle nonneg reads
  refine ⟨⟨inv.enabled, _, update_self .., next⟩, ?_⟩
  intro passed
  exact ⟨q, rfl, admitted (by simpa using passed)⟩

end

theorem runCalls_inv (nonneg : 0 ≤ quota) (calls rest : List QuotaCall)
    (inv : GateInv key quota read g) (steady : SteadyReads key quota read (calls ++ rest)) :
    ∃ last, GateInv key quota last (runCalls g calls) ∧ SteadyReads key quota last rest := by
  induction calls generalizing g read with
  | nil => exact ⟨read, inv, steady⟩
  | cons call calls ih =>
    cases steady with
    | deduct later => exact ih (deductQuota_inv inv _ _) later
    | other different later => exact ih (quotaExhausted_other inv _ different) later
    | check reads later => exact ih (quotaExhausted_inv inv nonneg reads).1 later

end

def freshQuota (provider : Option Int) (keyMeta : KeyMeta) : KeyQuota :=
  allocBudget provider { consumed := keyMeta.quotaUsed } keyMeta

theorem freshQuota_inv {provider : Option Int} {keyMeta : KeyMeta} (start : 0 ≤ keyMeta.quotaUsed)
    (left : keyMeta.quotaUsed < keyMeta.quota)
    (total : keyMeta.quota + instancesN provider ≤ maxInt64) :
    QuotaInv keyMeta.quota keyMeta.quotaUsed (freshQuota provider keyMeta) := by
  have divisor := instancesN_pos provider
  unfold maxInt64 at total
  have remaining : sub64 keyMeta.quota keyMeta.quotaUsed = keyMeta.quota - keyMeta.quotaUsed :=
    sub64_of_fits (fits_iff.mpr (by omega))
  obtain ⟨some_granted, at_most, -⟩ := ceilDiv_spec (a := keyMeta.quota - keyMeta.quotaUsed)
    (by omega) divisor (by unfold maxInt64; omega)
  unfold freshQuota allocBudget
  simp only [remaining]
  rw [if_neg (by omega)]
  refine ⟨?_, ⟨start, le_rfl⟩, fits_iff.mpr ⟨?_, ?_⟩⟩
  · change add64 keyMeta.quotaUsed _ ≤ _
    rw [add64_of_fits (fits_iff.mpr (by omega))]
    omega
  · change _ ≤ keyMeta.quotaUsed
    omega
  · change keyMeta.quotaUsed ≤ _
    omega

/-- From a fresh entry the budget stays within the quota through every call, so
each admitted request is admitted while the local consumption is below it. -/
theorem reclaim_converges (g : ConcurrencyGate) (keyMeta : KeyMeta) (provider : Option Int)
    (enabled : g.quotaEnabled = true)
    (fresh : g.store.quotas keyMeta.keyID = some (freshQuota provider keyMeta))
    (start : 0 ≤ keyMeta.quotaUsed) (left : keyMeta.quotaUsed < keyMeta.quota)
    (total : keyMeta.quota + instancesN provider ≤ maxInt64) (calls : List QuotaCall) :
    (SteadyReads keyMeta.keyID keyMeta.quota keyMeta.quotaUsed calls →
      ∃ q, (runCalls g calls).store.quotas keyMeta.keyID = some q ∧ q.budget ≤ keyMeta.quota) ∧
    ∀ (other : KeyMeta) (input : ReclaimInput), other.keyID = keyMeta.keyID →
      SteadyReads keyMeta.keyID keyMeta.quota keyMeta.quotaUsed
        (calls ++ [.quotaExhausted other input]) →
      (quotaExhausted (runCalls g calls) input other).2 = false →
      ∃ q, (runCalls g calls).store.quotas keyMeta.keyID = some q ∧ q.consumed < keyMeta.quota := by
  have initial : GateInv keyMeta.keyID keyMeta.quota keyMeta.quotaUsed g :=
    ⟨enabled, _, fresh, freshQuota_inv start left total⟩
  have nonneg : 0 ≤ keyMeta.quota := start.trans left.le
  constructor
  · intro steady
    obtain ⟨last, inv, -⟩ := runCalls_inv nonneg calls [] initial (by simpa using steady)
    obtain ⟨q, entry, held⟩ := inv.entry
    exact ⟨q, entry, held.budget⟩
  · intro other input same steady admitted
    obtain ⟨last, inv, next⟩ := runCalls_inv nonneg calls _ initial steady
    cases next with
    | other different => exact absurd same different
    | check reads _ => exact (quotaExhausted_inv inv nonneg reads).2 admitted

def sampleKey (quota quotaUsed : Int) : KeyMeta :=
  { keyID := 1, hasQuota := true, quota := quota, quotaUsed := quotaUsed }

def emptyGate : ConcurrencyGate := ⟨true, true, .empty⟩

/-- A key of two instances spends its share and is admitted again by a claim
against a database that shows only part of it. -/
theorem reclaim_converges_sample :
    ∃ q, (runCalls (upsert emptyGate (sampleKey 100 0) (some 2))
        [.deductQuota 1 60]).store.quotas 1 = some q ∧ q.consumed < 100 :=
  (reclaim_converges (upsert emptyGate (sampleKey 100 0) (some 2)) (sampleKey 100 0) (some 2)
    rfl rfl (by decide) (by decide) (by decide) [.deductQuota 1 60]).2 (sampleKey 100 0)
    { read := .used 10, provider := some 2 } rfl
    (.deduct (.check ⟨rfl, rfl, rfl, rfl, by decide, by decide, by decide⟩ (.nil 10))) (by decide)

inductive Rebuild where
  | reload (metas : List (KeyMeta × Option Int))
  | upsert (keyMeta : KeyMeta) (provider : Option Int)

def Rebuild.apply (g : ConcurrencyGate) : Rebuild → ConcurrencyGate
  | .reload metas => Proxy.reload g metas
  | .upsert keyMeta provider => Proxy.upsert g keyMeta provider

def runRebuilds (g : ConcurrencyGate) (rebuilds : List Rebuild) : ConcurrencyGate :=
  rebuilds.foldl Rebuild.apply g

/-- The entry that decides the key's budget: of a reload, the last one walked. -/
def Rebuild.carried (key : Int) : Rebuild → Option (KeyMeta × Option Int)
  | .reload metas => (metas.filter (fun entry => entry.1.keyID = key)).getLast?
  | .upsert keyMeta provider => if keyMeta.keyID = key then some (keyMeta, provider) else none

/-- The rebuild carries the key with its quota and a non-negative used amount. -/
structure Rebuild.Carries (key quota : Int) (r : Rebuild) (entry : KeyMeta × Option Int) :
    Prop where
  carried : r.carried key = some entry
  limited : entry.1.hasQuota = true
  fixed : entry.1.quota = quota
  used : 0 ≤ entry.1.quotaUsed ∧ entry.1.quotaUsed ≤ maxInt64
  total : quota + instancesN entry.2 ≤ maxInt64

/-- The key is marked exhausted or its budget is at most the quota. -/
def ConcurrencyGate.Bounded (key quota : Int) (g : ConcurrencyGate) : Prop :=
  ∃ q, g.store.quotas key = some q ∧ (q.exhausted = true ∨ q.budget ≤ quota)

/-- Nothing is left by the snapshot, or an equal share of what is left fits above
the local consumption, or the budget counter turns over. -/
def Covered (quota consumed : Int) (entry : KeyMeta × Option Int) : Prop :=
  quota ≤ entry.1.quotaUsed ∨
    quota - entry.1.quotaUsed ≤ instancesN entry.2 * (quota - consumed) ∨
    maxInt64 < consumed + ceilDiv (quota - entry.1.quotaUsed) (instancesN entry.2)

variable {q : KeyQuota} {entry : KeyMeta × Option Int} {g : ConcurrencyGate} {key quota : Int}

@[simp] theorem allocBudget_consumed (provider : Option Int) (q : KeyQuota) (keyMeta : KeyMeta) :
    (allocBudget provider q keyMeta).consumed = q.consumed := by
  unfold allocBudget
  dsimp only
  split <;> rfl

theorem allocBudget_bounded_iff (provider : Option Int) (keyMeta : KeyMeta)
    (nonneg : 0 ≤ q.consumed) (below : q.consumed < keyMeta.quota)
    (used : 0 ≤ keyMeta.quotaUsed ∧ keyMeta.quotaUsed ≤ maxInt64)
    (total : keyMeta.quota + instancesN provider ≤ maxInt64) :
    ((allocBudget provider q keyMeta).exhausted = true ∨
      (allocBudget provider q keyMeta).budget ≤ keyMeta.quota) ↔
      Covered keyMeta.quota q.consumed (keyMeta, provider) := by
  have divisor := instancesN_pos provider
  unfold maxInt64 at used total
  have remaining : sub64 keyMeta.quota keyMeta.quotaUsed = keyMeta.quota - keyMeta.quotaUsed :=
    sub64_of_fits (fits_iff.mpr (by omega))
  unfold allocBudget Covered
  simp only [remaining]
  by_cases spent : keyMeta.quota - keyMeta.quotaUsed ≤ 0
  · rw [if_pos spent]
    simp only [true_or, true_iff]
    exact .inl (by omega)
  · obtain ⟨some_granted, at_most, bound⟩ := ceilDiv_spec (a := keyMeta.quota - keyMeta.quotaUsed)
      (by omega) divisor (by unfold maxInt64; omega)
    rw [if_neg spent]
    simp only [Bool.false_eq_true, false_or]
    rw [← bound]
    by_cases passed : maxInt64 < q.consumed +
        ceilDiv (keyMeta.quota - keyMeta.quotaUsed) (instancesN provider)
    · have turned := wrap_of_overflow passed (by unfold maxInt64; omega)
      simp only [passed, or_true, iff_true]
      change wrap _ ≤ _
      omega
    · rw [add64_of_fits (fits_iff.mpr (by unfold maxInt64 at passed; omega))]
      omega

/-- A reload leaves for a key the entry of the last meta walked for it. -/
theorem foldl_reloadEntry_quotas (old : GateSnapshot) (key : Int) (q : KeyQuota)
    (kept : old.quotas key = some q) (metas : List (KeyMeta × Option Int)) (snap : GateSnapshot)
    (limited : entry.1.hasQuota = true)
    (last : (metas.filter (fun e => e.1.keyID = key)).getLast? = some entry) :
    (metas.foldl (reloadEntry true old) snap).quotas key =
      some (allocBudget entry.2 { consumed := q.consumed } entry.1) := by
  induction metas using List.reverseRecOn with
  | nil => simp at last
  | append_singleton metas head ih =>
    rw [foldl_append, foldl_cons, foldl_nil]
    by_cases same : head.1.keyID = key
    · have found : head = entry := by simpa [same] using last
      subst found
      subst same
      simp [reloadEntry, limited, kept]
    · have earlier : (metas.filter (fun e => e.1.keyID = key)).getLast? = some entry := by
        simpa [same] using last
      have unchanged : (reloadEntry true old (metas.foldl (reloadEntry true old) snap) head).quotas
          key = (metas.foldl (reloadEntry true old) snap).quotas key := by
        simp only [reloadEntry]
        split
        · exact update_of_ne (Ne.symm same) ..
        · rfl
      rw [unchanged, ih earlier]

section

variable {r : Rebuild} (enabled : g.quotaEnabled = true) (kept : g.store.quotas key = some q)

include enabled kept

theorem apply_quotas (carries : r.Carries key quota entry) :
    ∃ base : KeyQuota, base.consumed = q.consumed ∧
      (r.apply g).store.quotas key = some (allocBudget entry.2 base entry.1) := by
  have carried := carries.carried
  cases r with
  | reload metas =>
    refine ⟨{ consumed := q.consumed }, rfl, ?_⟩
    simp only [Rebuild.apply, reload, enabled]
    exact foldl_reloadEntry_quotas g.store key q kept metas .empty carries.limited carried
  | upsert keyMeta provider =>
    refine ⟨q, rfl, ?_⟩
    simp only [Rebuild.carried] at carried
    split at carried
    case isFalse => cases carried
    case isTrue same =>
      cases carried
      have limited : keyMeta.hasQuota = true := carries.limited
      subst same
      simp [Rebuild.apply, upsert, enabled, limited, kept]

/-- Rebuilds never move the local consumption. -/
theorem runRebuilds_consumed (rebuilds : List Rebuild)
    (carries : ∀ r ∈ rebuilds, ∃ entry, r.Carries key quota entry) :
    (runRebuilds g rebuilds).quotaEnabled = true ∧
      ∃ p, (runRebuilds g rebuilds).store.quotas key = some p ∧ p.consumed = q.consumed := by
  refine foldlRecOn (motive := fun g : ConcurrencyGate => g.quotaEnabled = true ∧
    ∃ p, g.store.quotas key = some p ∧ p.consumed = q.consumed) rebuilds _ ⟨enabled, q, kept, rfl⟩ ?_
  rintro g ⟨enabled, p, found, consumed⟩ r member
  obtain ⟨entry, carried⟩ := carries r member
  obtain ⟨base, same, next⟩ := apply_quotas enabled found carried
  refine ⟨by cases r <;> exact enabled, _, next, ?_⟩
  rw [allocBudget_consumed, same, consumed]

theorem apply_bounded_iff (nonneg : 0 ≤ q.consumed) (below : q.consumed < quota)
    (carries : r.Carries key quota entry) :
    (r.apply g).Bounded key quota ↔ Covered quota q.consumed entry := by
  obtain ⟨base, same, next⟩ := apply_quotas enabled kept carries
  have fixed := carries.fixed
  rw [← same] at nonneg below ⊢
  have decided := allocBudget_bounded_iff entry.2 entry.1 nonneg
    (by omega) carries.used (by rw [fixed]; exact carries.total)
  rw [fixed] at decided
  rw [← decided]
  constructor
  · rintro ⟨p, found, bounded⟩
    cases next.symm.trans found
    exact bounded
  · intro bounded
    exact ⟨_, next, bounded⟩

end

/-- Through any series of rebuilds the key's budget stays within its quota
exactly when each rebuild covers the consumption the database does not show. -/
theorem rebuild_grant_iff (g : ConcurrencyGate) (key quota : Int) (q : KeyQuota)
    (enabled : g.quotaEnabled = true) (kept : g.store.quotas key = some q)
    (nonneg : 0 ≤ q.consumed) (below : q.consumed < quota) (rebuilds : List Rebuild)
    (carries : ∀ r ∈ rebuilds, ∃ entry, r.Carries key quota entry) :
    (∀ before r, before ++ [r] <+: rebuilds →
      (runRebuilds g (before ++ [r])).Bounded key quota) ↔
      ∀ r ∈ rebuilds, ∀ entry, r.carried key = some entry → Covered quota q.consumed entry := by
  have each (before : List Rebuild) (r : Rebuild) (initial : before ++ [r] <+: rebuilds)
      (entry : KeyMeta × Option Int) (carried : r.carried key = some entry) :
      (runRebuilds g (before ++ [r])).Bounded key quota ↔ Covered quota q.consumed entry := by
    have member : r ∈ rebuilds := initial.subset (by simp)
    obtain ⟨other, other_carries⟩ := carries r member
    cases other_carries.carried.symm.trans carried
    have earlier : ∀ r ∈ before, ∃ entry, r.Carries key quota entry :=
      fun r early => carries r (initial.subset (by simp [early]))
    obtain ⟨still, p, found, same⟩ := runRebuilds_consumed enabled kept before earlier
    have last : runRebuilds g (before ++ [r]) = r.apply (runRebuilds g before) := by
      simp [runRebuilds]
    rw [last, ← same]
    exact apply_bounded_iff still found (by omega) (by omega) other_carries
  constructor
  · intro bounded r member entry carried
    obtain ⟨before, after, split⟩ := append_of_mem member
    have initial : before ++ [r] <+: rebuilds := ⟨after, by simp [split]⟩
    exact (each before r initial entry carried).mp (bounded before r initial)
  · intro covered before r initial
    have member : r ∈ rebuilds := initial.subset (by simp)
    obtain ⟨entry, found⟩ := carries r member
    exact (each before r initial entry found.carried).mpr (covered r member entry found.carried)

/-- One reload by a snapshot that misses ninety consumed units hands out the
whole quota again. -/
theorem reload_overgrants :
    ∃ q q', (runCalls (upsert emptyGate (sampleKey 100 0) none)
        [.deductQuota 1 90]).store.quotas 1 = some q ∧ q.consumed = 90 ∧
      (reload (runCalls (upsert emptyGate (sampleKey 100 0) none) [.deductQuota 1 90])
        [(sampleKey 100 0, none)]).store.quotas 1 = some q' ∧
      q'.exhausted = false ∧ q'.budget = 190 :=
  ⟨_, _, rfl, by decide, rfl, by decide, by decide⟩

/-- A reload and an upsert after thirty consumed units, which the first of them does not see
in full. -/
theorem rebuild_grant_iff_sample :
    (runRebuilds (runCalls (upsert emptyGate (sampleKey 100 0) none) [.deductQuota 1 30])
      ([.reload [(sampleKey 100 10, some 3)]] ++ [.upsert (sampleKey 100 30) (some 2)])).Bounded
        1 100 := by
  refine (rebuild_grant_iff _ 1 100 _ rfl rfl (by decide) (by decide) _ ?_).mpr ?_ _ _ prefix_rfl
  · refine forall_mem_cons.mpr ⟨?_, forall_mem_singleton.mpr ?_⟩ <;>
      exact ⟨_, rfl, rfl, rfl, by decide, by decide⟩
  · refine forall_mem_cons.mpr ⟨?_, forall_mem_singleton.mpr ?_⟩ <;>
    · rintro entry ⟨⟩
      exact .inr (.inl (by decide))

end C3Api.Proxy
