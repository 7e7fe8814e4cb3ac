import C3Api.Proxy.Gate

/-!
# A deduction during a quota reclaim

`reclaim` touches the quota entry with one atomic access at a time, and reads
`consumed` twice: once for what the database does not know yet, and once more for
the new budget. A deduction may land between any two of these accesses.
-/

namespace C3Api.Proxy.GateReclaim

open Machine Function

/-- The next access of a `reclaim`. The budget it has stored, if any, is kept
beside its result. -/
inductive ReclaimPc where
  | start
  | busyConsumed
  | busyBudget (consumed : Int)
  | checkRetry
  | readUsed
  | storeRetry
  | loadTrickle
  | loadConsumed (used remaining : Int)
  | loadBaseline (used remaining consumed : Int)
  | storeBaseline (used remainingEff : Int)
  | loadAgain (remainingEff : Int)
  | storeBudget (budget : Int)
  | exhaust
  | unlock (result : Bool) (stored : Option Int)
  | returned (result : Bool) (stored : Option Int)

abbrev State := KeyQuota × ReclaimPc

/-- One call of `reclaim`: whether a reader is wired, what it reads and the key's limits. -/
structure ReclaimCall where
  reclaimer : Bool
  input : ReclaimInput
  keyMeta : KeyMeta

variable (call : ReclaimCall)

/-- What an instance takes of the remainder. -/
def ReclaimCall.share (left : Int) : Int := ceilDiv left (instancesN call.input.provider)

def next : State → State
  | (q, .start) =>
    if q.reclaiming then (q, .busyConsumed) else ({ q with reclaiming := true }, .checkRetry)
  | (q, .busyConsumed) => (q, .busyBudget q.consumed)
  | (q, .busyBudget consumed) => (q, .returned (decide (consumed < q.budget)) none)
  | (q, .checkRetry) =>
    if call.input.now < q.retryAt then (q, .unlock false none)
    else if !call.reclaimer then (q, .exhaust)
    else (q, .readUsed)
  | (q, .readUsed) =>
    match call.input.read with
    | .failed => (q, .storeRetry)
    | .used used =>
      if 0 < sub64 call.keyMeta.quota used then (q, .loadConsumed used (sub64 call.keyMeta.quota used))
      else (q, .exhaust)
  | (q, .storeRetry) => ({ q with retryAt := add64 call.input.after quotaReclaimRetry }, .loadTrickle)
  | (q, .loadTrickle) => (q, .storeBudget (add64 q.consumed 1))
  | (q, .loadConsumed used remaining) => (q, .loadBaseline used remaining q.consumed)
  | (q, .loadBaseline used remaining consumed) =>
    let unreported := max (sub64 consumed q.quotaUsedAtReclaim) 0
    let remainingEff := sub64 remaining unreported
    if 0 < remainingEff then (q, .storeBaseline used remainingEff) else (q, .exhaust)
  | (q, .storeBaseline used remainingEff) =>
    ({ q with quotaUsedAtReclaim := used }, .loadAgain remainingEff)
  | (q, .loadAgain remainingEff) =>
    (q, .storeBudget (add64 q.consumed (call.share remainingEff)))
  | (q, .storeBudget budget) => ({ q with budget := budget }, .unlock true (some budget))
  | (q, .exhaust) => ({ q with exhausted := true }, .unlock false none)
  | (q, .unlock result stored) => ({ q with reclaiming := false }, .returned result stored)
  | (q, .returned result stored) => (q, .returned result stored)

def deduct (cost : Int) (q : KeyQuota) : KeyQuota := { q with consumed := add64 q.consumed cost }

def ReclaimPc.torn : ReclaimPc → Bool
  | .loadBaseline _ _ _ | .storeBaseline _ _ | .loadAgain _ => true
  | _ => false

/-- What is left of the quota for a claim, less what the database does not know. -/
def remainingEff (used : Int) (q : KeyQuota) : Int :=
  sub64 (sub64 call.keyMeta.quota used) (max (sub64 q.consumed q.quotaUsedAtReclaim) 0)

/-- What the quota leaves over the integers once this much is consumed. -/
def leftOver (used : Int) (q : KeyQuota) (consumed : Int) : Int :=
  call.keyMeta.quota - used - max (consumed - q.quotaUsedAtReclaim) 0

/-- A claim after the deduction still finds something left, and its share is the one that a claim
before it takes. -/
def SameShare (used : Int) (q : KeyQuota) (cost : Int) : Prop :=
  let n := instancesN call.input.provider
  0 < leftOver call used q (q.consumed + cost) ∧
    (leftOver call used q q.consumed + n - 1) / n =
      (leftOver call used q (q.consumed + cost) + n - 1) / n

/-- The counters are not negative, and what a claim adds up is a word. -/
structure Moderate (q : KeyQuota) (cost : Int) : Prop where
  consumed : 0 ≤ q.consumed
  baseline : 0 ≤ q.quotaUsedAtReclaim ∧ q.quotaUsedAtReclaim ≤ maxInt64
  used : ∀ used, call.input.read = .used used → 0 ≤ used ∧ used ≤ maxInt64
  quota : 0 ≤ call.keyMeta.quota
  room : q.consumed + cost + call.keyMeta.quota + instancesN call.input.provider ≤ maxInt64

section

/-- From this state the call returns and has stored this budget. -/
def Stores (s : State) (budget : Int) : Prop :=
  ∃ n q result, (next call)^[n] s = (q, .returned result (some budget))

/-- The call gets as far as claiming from the quota that the database leaves. -/
structure Claims (used : Int) (q : KeyQuota) : Prop where
  free : q.reclaiming = false
  due : ¬ call.input.now < q.retryAt
  wired : call.reclaimer = true
  read : call.input.read = .used used
  remaining : 0 < sub64 call.keyMeta.quota used

/-- Alone, the accesses add up to `reclaim`. -/
theorem next_reclaim (q : KeyQuota) :
    ∃ stored, (next call)^[9] (q, .start) =
      ((reclaim call.reclaimer call.input call.keyMeta q).1,
        .returned (reclaim call.reclaimer call.input call.keyMeta q).2 stored) := by
  obtain ⟨consumed, budget, reclaiming, exhausted, retryAt, baseline⟩ := q
  cases reclaiming with
  | true => exact ⟨none, rfl⟩
  | false =>
    by_cases early : call.input.now < retryAt
    · exact ⟨none, by simp [reclaim, next, early]⟩
    cases wired : call.reclaimer with
    | false => exact ⟨none, by simp [reclaim, next, early, wired]⟩
    | true =>
      cases read : call.input.read with
      | failed => exact ⟨_, by simp [reclaim, next, early, wired, read]; rfl⟩
      | used used =>
        by_cases left : 0 < sub64 call.keyMeta.quota used
        · by_cases claims : 0 < sub64 (sub64 call.keyMeta.quota used) (max (sub64 consumed baseline) 0)
          · exact ⟨_, by simp [reclaim, next, ReclaimCall.share, early, wired, read, left, claims]; rfl⟩
          · exact ⟨none, by simp [reclaim, next, early, wired, read, left, claims]⟩
        · exact ⟨none, by simp [reclaim, next, early, wired, read, left]⟩

variable {call} {q : KeyQuota} {pc : ReclaimPc} {s : State}
  {used cost budget : Int}

theorem stores_next : Stores call (next call s) budget ↔ Stores call s budget := by
  constructor
  · rintro ⟨n, q, result, ran⟩
    exact ⟨n + 1, q, result, ran⟩
  · rintro ⟨n, q, result, ran⟩
    -- a call that has returned rests, so one more access changes nothing
    refine ⟨n, q, result, ?_⟩
    rw [← iterate_succ_apply, iterate_succ_apply', ran]
    rfl

variable {eff : Int} (k : Nat)

theorem stores_iterate : Stores call ((next call)^[k] s) budget ↔ Stores call s budget := by
  induction k with
  | zero => rfl
  | succ k ih =>
    rw [iterate_succ_apply', stores_next, ih]

theorem stores_storeBudget {value : Int} :
    Stores call (q, .storeBudget value) budget ↔ budget = value := by
  rw [← stores_iterate 2]
  constructor
  · rintro ⟨n, q', result, ran⟩
    rw [iterate_fixed rfl] at ran
    cases ran
    rfl
  · rintro rfl
    exact ⟨0, _, _, rfl⟩

theorem stores_exhaust : ¬ Stores call (q, .exhaust) budget := by
  rw [← stores_iterate 2]
  rintro ⟨n, q', result, ran⟩
  rw [iterate_fixed rfl] at ran
  cases ran

/-! ## The two orders -/

def State.deduct (cost : Int) (s : State) : State := (GateReclaim.deduct cost s.1, s.2)

/-- No access up to here has read `consumed`. -/
def ReclaimPc.early : ReclaimPc → Bool
  | .start | .checkRetry | .readUsed | .storeRetry => true
  | _ => false

/-- No access from here on reads `consumed`. -/
def ReclaimPc.late : ReclaimPc → Bool
  | .busyBudget _ | .storeBudget _ | .exhaust | .unlock _ _ | .returned _ _ => true
  | _ => false

theorem next_deduct_early (early : s.2.early = true) :
    next call (s.deduct cost) = (next call s).deduct cost := by
  obtain ⟨q, pc⟩ := s
  cases pc with
  | start =>
    simp only [State.deduct, GateReclaim.deduct, next]
    split <;> rfl
  | checkRetry | readUsed =>
    simp only [State.deduct, GateReclaim.deduct, next]
    split
    · rfl
    · split <;> rfl
  | storeRetry => rfl
  | _ => cases early

theorem next_deduct_late (late : s.2.late = true) :
    next call (s.deduct cost) = (next call s).deduct cost ∧ (next call s).2.late = true := by
  obtain ⟨q, pc⟩ := s
  cases pc with
  | busyBudget | storeBudget | exhaust | unlock | returned => exact ⟨rfl, rfl⟩
  | _ => cases late

theorem early_of_next (unread : (next call s).2.late = false)
    (whole : (next call s).2.torn = false) : s.2.early = true := by
  obtain ⟨q, pc⟩ := s
  cases pc with
  | start | checkRetry | readUsed | storeRetry => rfl
  | loadBaseline used remaining consumed =>
    simp only [next] at unread whole
    split at unread
    · simp_all [ReclaimPc.torn]
    · cases unread
  | loadConsumed | storeBaseline => cases whole
  | _ => cases unread

theorem ReclaimPc.whole_of_early {pc : ReclaimPc} (early : pc.early = true) :
    pc.late = false ∧ pc.torn = false := by
  cases pc <;> first | exact ⟨rfl, rfl⟩ | cases early

/-- A deduction before the first load of `consumed` might as well come first. -/
theorem deduct_before (unread : ((next call)^[k] (q, .start)).2.late = false)
    (whole : ((next call)^[k] (q, .start)).2.torn = false) :
    (next call)^[k] (deduct cost q, .start) = State.deduct cost ((next call)^[k] (q, .start)) := by
  induction k with
  | zero => rfl
  | succ k ih =>
    rw [iterate_succ_apply'] at unread whole ⊢
    have early := early_of_next unread whole
    obtain ⟨unread, whole⟩ := ReclaimPc.whole_of_early early
    rw [ih unread whole, next_deduct_early early, iterate_succ_apply']

/-- A deduction after the last load of `consumed` might as well come last. -/
theorem deduct_after (n : Nat) (late : s.2.late = true) :
    (next call)^[n] (s.deduct cost) = State.deduct cost ((next call)^[n] s) := by
  induction n generalizing s with
  | zero => rfl
  | succ n ih =>
    obtain ⟨commutes, later⟩ := next_deduct_late late
    rw [iterate_succ_apply, commutes, ih later, iterate_succ_apply]

/-! ## A torn claim -/

/-- What a `reclaim` that began on `q` knows where it may be torn. -/
def Follows (call : ReclaimCall) (q : KeyQuota) (s : State) : Prop :=
  s.1.consumed = q.consumed ∧
  match s.2 with
  | .start => s.1 = q
  | .checkRetry => s.1 = { q with reclaiming := true } ∧ q.reclaiming = false
  | .readUsed =>
    s.1 = { q with reclaiming := true } ∧ q.reclaiming = false ∧ ¬ call.input.now < q.retryAt ∧
      call.reclaimer = true
  | .loadConsumed used remaining =>
    s.1 = { q with reclaiming := true } ∧ remaining = sub64 call.keyMeta.quota used ∧
      Claims call used q
  | .loadBaseline used remaining consumed =>
    s.1 = { q with reclaiming := true } ∧ remaining = sub64 call.keyMeta.quota used ∧
      consumed = q.consumed ∧ Claims call used q
  | .storeBaseline used eff =>
    eff = remainingEff call used q ∧ 0 < eff ∧ Claims call used q
  | .loadAgain eff =>
    ∃ used, eff = remainingEff call used q ∧ 0 < eff ∧ Claims call used q
  | _ => True

theorem follows_next (follows : Follows call q s) : Follows call q (next call s) := by
  obtain ⟨entry, pc⟩ := s
  obtain ⟨same, known⟩ := follows
  cases pc with
  | start =>
    obtain rfl : entry = q := known
    simp only [next]
    split
    · exact ⟨same, trivial⟩
    next free => exact ⟨rfl, rfl, by simpa using free⟩
  | checkRetry =>
    obtain ⟨rfl, free⟩ : entry = { q with reclaiming := true } ∧ q.reclaiming = false := known
    simp only [next]
    split
    · exact ⟨rfl, trivial⟩
    rename_i due
    split
    · exact ⟨rfl, trivial⟩
    next wired => exact ⟨rfl, rfl, free, due, by simpa using wired⟩
  | readUsed =>
    obtain ⟨rfl, free, due, wired⟩ : entry = { q with reclaiming := true } ∧
      q.reclaiming = false ∧ ¬ call.input.now < q.retryAt ∧ call.reclaimer = true := known
    simp only [next]
    split
    · exact ⟨rfl, trivial⟩
    rename_i used read
    split
    · exact ⟨rfl, rfl, rfl, free, due, wired, read, ‹_›⟩
    · exact ⟨rfl, trivial⟩
  | loadConsumed used remaining =>
    obtain ⟨rfl, left, claims⟩ : entry = { q with reclaiming := true } ∧
      remaining = sub64 call.keyMeta.quota used ∧ Claims call used q := known
    exact ⟨rfl, rfl, left, rfl, claims⟩
  | loadBaseline used remaining consumed =>
    obtain ⟨rfl, rfl, rfl, claims⟩ : entry = { q with reclaiming := true } ∧
      remaining = sub64 call.keyMeta.quota used ∧ consumed = q.consumed ∧
      Claims call used q := known
    simp only [next]
    split
    · exact ⟨rfl, rfl, ‹_›, claims⟩
    · exact ⟨rfl, trivial⟩
  | storeBaseline used eff => exact ⟨same, used, known⟩
  | _ => exact ⟨same, trivial⟩

theorem follows_start : Follows call q ((next call)^[k] (q, .start)) :=
  Iterate.rec _ ⟨rfl, rfl⟩ (fun _ => follows_next) k

theorem stores_loadAgain :
    Stores call (q, .loadAgain eff) budget ↔ budget = add64 q.consumed (call.share eff) := by
  rw [← stores_next]
  exact stores_storeBudget

theorem stores_storeBaseline :
    Stores call (q, .storeBaseline used eff) budget ↔
      budget = add64 q.consumed (call.share eff) := by
  rw [← stores_next]
  exact stores_loadAgain (q := { q with quotaUsedAtReclaim := used })

/-- The budget of a claim that nothing disturbs. -/
theorem Claims.stores (claims : Claims call used q) :
    Stores call (q, .start) budget ↔ 0 < remainingEff call used q ∧ budget = add64 q.consumed
        (call.share (remainingEff call used q)) := by
  by_cases left : 0 < remainingEff call used q
  · have ran : (next call)^[6] (q, .start) =
        ({ q with reclaiming := true, quotaUsedAtReclaim := used },
          .loadAgain (remainingEff call used q)) := by
      unfold remainingEff at left ⊢
      simp [next, claims.free, claims.due, claims.wired, claims.read, claims.remaining, left]
    rw [← stores_iterate 6, ran, stores_loadAgain, and_iff_right left]
  · have ran : (next call)^[5] (q, .start) =
        ({ q with reclaiming := true }, .exhaust) := by
      unfold remainingEff at left
      simp [next, claims.free, claims.due, claims.wired, claims.read, claims.remaining, left]
    rw [← stores_iterate 5, ran, iff_false_intro stores_exhaust, iff_false_intro left, false_and]

theorem Claims.deduct (claims : Claims call used q) : Claims call used (deduct cost q) :=
  ⟨claims.free, claims.due, claims.wired, claims.read, claims.remaining⟩

theorem stores_loadBaseline (q entry : KeyQuota)
    (baseline : entry.quotaUsedAtReclaim = q.quotaUsedAtReclaim)
    (stores : Stores call
      (entry, .loadBaseline used (sub64 call.keyMeta.quota used) q.consumed) budget) :
    0 < remainingEff call used q ∧ budget = add64 entry.consumed
      (call.share (remainingEff call used q)) := by
  rw [← stores_next] at stores
  simp only [next, baseline] at stores
  split at stores
  · exact ⟨‹_›, stores_storeBaseline.mp stores⟩
  · exact (stores_exhaust stores).elim

/-- A deduction between the two loads adds to a budget whose share was computed
without it. -/
theorem torn_budget (torn : ((next call)^[k] (q, .start)).2.torn = true)
    (stores : Stores call
      (State.deduct cost ((next call)^[k] (q, .start))) budget) :
    ∃ used, Claims call used q ∧ 0 < remainingEff call used q ∧
      budget = add64 (add64 q.consumed cost) (call.share (remainingEff call used q)) := by
  have follows : Follows call q ((next call)^[k] (q, .start)) := follows_start k
  generalize (next call)^[k] (q, .start) = s at torn stores follows
  obtain ⟨entry, pc⟩ := s
  obtain ⟨same, known⟩ := follows
  cases pc with
  | loadBaseline used remaining consumed =>
    obtain ⟨rfl, rfl, rfl, claims⟩ : entry = { q with reclaiming := true } ∧
      remaining = sub64 call.keyMeta.quota used ∧ consumed = q.consumed ∧
      Claims call used q := known
    obtain ⟨left, stored⟩ :=
      stores_loadBaseline q (deduct cost { q with reclaiming := true }) rfl stores
    exact ⟨used, claims, left, stored⟩
  | storeBaseline used eff =>
    obtain ⟨rfl, left, claims⟩ : eff = remainingEff call used q ∧ 0 < eff ∧
      Claims call used q := known
    refine ⟨used, claims, left, ?_⟩
    rw [← same]
    exact stores_storeBaseline.mp stores
  | loadAgain eff =>
    obtain ⟨used, rfl, left, claims⟩ : ∃ used, eff = remainingEff call used q ∧ 0 < eff ∧
      Claims call used q := known
    refine ⟨used, claims, left, ?_⟩
    rw [← same]
    exact stores_loadAgain.mp stores
  | _ => cases torn

/-- A deduction after the first load and before the last is the only one that another order does
not explain. -/
theorem untorn_budget (whole : ((next call)^[k] (q, .start)).2.torn = false)
    (stores : Stores call
      (State.deduct cost ((next call)^[k] (q, .start))) budget) :
    Stores call (deduct cost q, .start) budget ∨ Stores call (q, .start) budget := by
  cases late : ((next call)^[k] (q, .start)).2.late with
  | true =>
    obtain ⟨n, entry, result, ran⟩ := stores
    rw [deduct_after n late] at ran
    right
    rw [← stores_iterate k]
    have returned := congrArg Prod.snd ran
    exact ⟨n, _, result, Prod.ext rfl returned⟩
  | false =>
    rw [← deduct_before k late whole, stores_iterate] at stores
    exact .inl stores

section Moderate

variable (moderate : Moderate call q cost) (positive : 0 < cost)
  (claims : Claims call used q)

include moderate positive claims

/-- A claim with nothing deducted, or with the whole deduction, computes over the integers. -/
theorem Moderate.remainingEff_eq {extra : Int} (none : 0 ≤ extra) (all : extra ≤ cost) :
    (GateReclaim.deduct extra q).consumed = q.consumed + extra ∧
      remainingEff call used (GateReclaim.deduct extra q) =
        leftOver call used q (q.consumed + extra) := by
  obtain ⟨consumed, ⟨baseline, high⟩, reads, quota, room⟩ := moderate
  obtain ⟨used_nonneg, used_high⟩ := reads used claims.read
  have instances := instancesN_pos call.input.provider
  have remaining := claims.remaining
  unfold maxInt64 at high room used_high
  have sum : add64 q.consumed extra = q.consumed + extra :=
    add64_of_fits (fits_iff.mpr (by omega))
  have left : sub64 call.keyMeta.quota used = call.keyMeta.quota - used :=
    sub64_of_fits (fits_iff.mpr (by omega))
  rw [left] at remaining
  refine ⟨sum, ?_⟩
  unfold remainingEff leftOver GateReclaim.deduct
  dsimp only
  rw [sum, left, sub64_of_fits (b := q.quotaUsedAtReclaim) (fits_iff.mpr (by omega)),
    sub64_of_fits (fits_iff.mpr (by omega))]

/-- Between the loads the budget is bounded exactly where the share is the same. -/
theorem Moderate.torn_bounded (left : 0 < remainingEff call used q) :
    (∃ sequential, (Stores call (GateReclaim.deduct cost q, .start) sequential ∨
        Stores call (q, .start) sequential) ∧ add64 (add64 q.consumed cost)
        (call.share (remainingEff call used q)) ≤ sequential) ↔ SameShare call used q cost := by
  obtain ⟨sum, later⟩ := moderate.remainingEff_eq positive claims positive.le le_rfl
  obtain ⟨same, earlier⟩ := moderate.remainingEff_eq positive claims le_rfl positive.le
  have unchanged : GateReclaim.deduct 0 q = q := by
    rw [add_zero] at same
    exact congrArg (fun consumed => { q with consumed }) same
  rw [unchanged, add_zero] at earlier
  have instances := instancesN_pos call.input.provider
  obtain ⟨consumed, -, reads, -, room⟩ := moderate
  have used_nonneg := (reads used claims.read).1
  have less : leftOver call used q (q.consumed + cost) ≤ leftOver call used q q.consumed := by
    unfold leftOver
    omega
  have high : leftOver call used q q.consumed ≤ call.keyMeta.quota := by
    unfold leftOver
    omega
  change add64 q.consumed cost = _ at sum
  have deducted : Claims call used (GateReclaim.deduct cost q) := claims.deduct
  simp only [claims.stores, deducted.stores, later, earlier, SameShare]
  simp only [GateReclaim.deduct, sum, ReclaimCall.share]
  rw [earlier] at left
  generalize leftOver call used q q.consumed = before at *
  generalize leftOver call used q (q.consumed + cost) = after at *
  generalize instancesN call.input.provider = n at *
  have fits : before + n ≤ maxInt64 := by omega
  obtain ⟨share_pos, share_le, -⟩ := ceilDiv_spec left instances fits
  rw [← ceilDiv_eq left instances fits]
  unfold maxInt64 at room
  have racing : add64 (q.consumed + cost) (ceilDiv before n) =
      q.consumed + cost + ceilDiv before n := add64_of_fits (fits_iff.mpr (by omega))
  constructor
  · rintro ⟨sequential, ⟨still, rfl⟩ | ⟨-, rfl⟩, bounded⟩
    · have fits' : after + n ≤ maxInt64 := by omega
      obtain ⟨share_pos', -, least⟩ := ceilDiv_spec still instances fits'
      have share_mono : ceilDiv after n ≤ ceilDiv before n :=
        (least _).mpr (less.trans ((ceilDiv_spec left instances fits).2.2 _ |>.mp le_rfl))
      rw [racing, add64_of_fits (fits_iff.mpr (by omega))] at bounded
      exact ⟨still, by rw [← ceilDiv_eq still instances fits']; omega⟩
    · rw [racing, add64_of_fits (fits_iff.mpr (by omega))] at bounded
      omega
  · rintro ⟨still, same⟩
    rw [← ceilDiv_eq still instances (by omega)] at same
    exact ⟨_, .inl ⟨still, rfl⟩, by rw [same]⟩

end Moderate

end

/-- A racing `reclaim` stores no more than with the deduction before it or after it exactly when
the deduction does not land between the two loads of `consumed`, or the share is the same. -/
theorem racing_budget_bounded (call : ReclaimCall) (q : KeyQuota) (cost : Int) (k : Nat)
    (budget : Int) (positive : 0 < cost) (moderate : Moderate call q cost)
    (stores : Stores call
      (State.deduct cost ((next call)^[k] (q, .start))) budget) :
    (∃ sequential, (Stores call (deduct cost q, .start) sequential ∨
        Stores call (q, .start) sequential) ∧ budget ≤ sequential) ↔
      ((next call)^[k] (q, .start)).2.torn = false ∨
        ∃ used, call.input.read = .used used ∧ SameShare call used q cost := by
  cases torn : ((next call)^[k] (q, .start)).2.torn with
  | false => simpa using ⟨budget, untorn_budget k torn stores, le_rfl⟩
  | true =>
    obtain ⟨used, claims, left, rfl⟩ := torn_budget k torn stores
    rw [moderate.torn_bounded positive claims left, claims.read]
    simp

/-- A quota of ten of which two are consumed and the database knows none. -/
def raceQuota : KeyQuota := { consumed := 2, budget := 2 }

def raceCall : ReclaimCall :=
  ⟨true, { read := .used 0 }, { keyID := 1, hasQuota := true, quota := 10 }⟩

theorem racing_budget_bounded_early :
    ∃ sequential, (Stores raceCall (deduct 3 raceQuota, .start) sequential ∨
        Stores raceCall (raceQuota, .start) sequential) ∧ 10 ≤ sequential := by
  have moderate : Moderate raceCall raceQuota 3 :=
    ⟨by decide, by decide, by simp [raceCall, maxInt64], by decide, by decide⟩
  exact (racing_budget_bounded raceCall raceQuota 3 2 10 (by decide) moderate
    ⟨7, _, true, rfl⟩).mpr (.inl (by decide))

/-- A deduction of three between the two loads: before the call or after it, the
budget is the whole quota of ten; here it is thirteen. -/
theorem torn_budget_exceeds :
    Stores raceCall (State.deduct 3 ((next raceCall)^[4] (raceQuota, .start))) 13 ∧
    (∀ budget, Stores raceCall (deduct 3 raceQuota, .start) budget ↔ budget = 10) ∧
    ∀ budget, Stores raceCall (raceQuota, .start) budget ↔ budget = 10 := by
  refine ⟨⟨5, _, true, rfl⟩, fun budget => ?_, fun budget => ?_⟩
  · rw [← stores_iterate 7]
    exact stores_storeBudget
  · rw [← stores_iterate 7]
    exact stores_storeBudget

end C3Api.Proxy.GateReclaim
