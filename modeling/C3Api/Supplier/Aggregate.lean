import C3Api.Supplier.Ledger

/-!
# What aggregation adds up

The totals of a batch are the earnings of its rows supplier by supplier, and its
reconciliations are their sums day by day. The maps are filled row by row, so each
sum is followed as a tally of its map.
-/

namespace C3Api.Supplier

open ReadCommitted List Option

theorem bind_ok {A B : Type} {x : Except SupplierError A} {f : A → Except SupplierError B} {r : B}
    (ok : (x >>= f) = .ok r) : ∃ a, x = .ok a ∧ f a = .ok r := by
  cases x with
  | error e => cases ok
  | ok a => exact ⟨a, rfl, ok⟩

theorem addChecked_ok {a b c : Int} (ok : addChecked a b = .ok c) : c = a + b := by
  unfold addChecked at ok
  split at ok
  · cases ok
  split at ok
  · cases ok
  · exact (Except.ok.inj ok).symm

def DayRecon.measure (d : DayRecon) : Measure → Int
  | .grossCost => d.grossCost
  | .earned => d.earn
  | .rowCount => d.rows

def DayRecon.addRow (d : DayRecon) (r : BatchRow) : DayRecon :=
  { d with grossCost := d.grossCost + r.cost, earn := d.earn + r.earn, rows := d.rows + 1 }

def dayOf (a : Aggregation) (r : BatchRow) : DayRecon :=
  (a.perDay.lookup (r.uid, sourceDay r.createdAt)).getD
    ⟨r.uid, sourceDay r.createdAt, 0, 0, 0⟩

def totalsOf (a : Aggregation) (r : BatchRow) : Int × Int := (a.perUID.lookup r.uid).getD (0, 0)

variable {a a' : Aggregation} {rows : List BatchRow} {r : BatchRow}

theorem aggregateRow_ok (ok : aggregateRow a r = .ok a') :
    0 ≤ r.earn ∧ a'.perUID = put a.perUID r.uid
        (some ((totalsOf a r).1 + r.earn, (totalsOf a r).2 + r.cost)) ∧
      a'.perDay = put a.perDay (r.uid, sourceDay r.createdAt) (some ((dayOf a r).addRow r)) := by
  unfold aggregateRow at ok
  by_cases unseen : r.id ∈ a.seen
  · rw [if_pos unseen] at ok
    cases ok
  by_cases signed : r.earn < 0 ∨ r.cost < 0
  · rw [if_neg unseen, if_pos signed] at ok
    cases ok
  rw [if_neg unseen, if_neg signed] at ok
  obtain ⟨rowsEarn, -, ok⟩ := bind_ok ok
  obtain ⟨earn, earned, ok⟩ := bind_ok ok
  obtain ⟨cost, costed, ok⟩ := bind_ok ok
  obtain ⟨grossCost, grossed, ok⟩ := bind_ok ok
  obtain ⟨dayEarn, dayEarned, ok⟩ := bind_ok ok
  obtain ⟨count, counted, ok⟩ := bind_ok ok
  cases Except.ok.inj ok
  cases addChecked_ok earned
  cases addChecked_ok costed
  cases addChecked_ok grossed
  cases addChecked_ok dayEarned
  cases addChecked_ok counted
  exact ⟨not_lt.mp (not_or.mp signed).1, rfl, rfl⟩

structure Aggregated (rows : List BatchRow) (a : Aggregation) : Prop where
  perUID : ∀ uid, tally (fun u (e : Int × Int) => if u = uid then e.1 else 0) a.perUID =
    earnedBy rows uid
  nonneg : ∀ uid e, a.perUID.lookup uid = some e → 0 ≤ e.1
  perDay : ∀ m uid day,
    tally (fun _ (d : DayRecon) => if d.uid = uid ∧ d.sourceDay = day then d.measure m else 0)
      a.perDay = batchSum rows m uid day
  days : ∀ k d, a.perDay.lookup k = some d → d.uid = k.1 ∧ d.sourceDay = k.2

theorem Aggregated.empty : Aggregated [] {} :=
  ⟨fun _ => rfl, nofun, fun _ _ _ => rfl, nofun⟩

theorem earnedBy_append (rows rows' : List BatchRow) (uid : Int) :
    earnedBy (rows ++ rows') uid = earnedBy rows uid + earnedBy rows' uid := by
  simp [earnedBy]

theorem batchSum_append (rows rows' : List BatchRow) (m : Measure) (uid : Int) (day : Nat) :
    batchSum (rows ++ rows') m uid day = batchSum rows m uid day + batchSum rows' m uid day := by
  simp [batchSum]

theorem Aggregated.day (before : Aggregated rows a) (r : BatchRow) :
    (dayOf a r).uid = r.uid ∧ (dayOf a r).sourceDay = sourceDay r.createdAt := by
  unfold dayOf
  cases found : a.perDay.lookup (r.uid, sourceDay r.createdAt) with
  | none => exact ⟨rfl, rfl⟩
  | some d => exact before.days _ d found

theorem measure_addRow (d : DayRecon) (r : BatchRow) (m : Measure) :
    (d.addRow r).measure m = d.measure m + r.measure m := by
  cases m <;> rfl

theorem Aggregated.row (before : Aggregated rows a)
    (ok : aggregateRow a r = .ok a') : Aggregated (rows ++ [r]) a' := by
  obtain ⟨positive, perUID, perDay⟩ := aggregateRow_ok ok
  obtain ⟨owner, born⟩ := before.day r
  refine ⟨?_, ?_, ?_, ?_⟩
  · intro uid
    rw [perUID, tally_put, before.perUID uid, earnedBy_append]
    unfold totalsOf
    cases a.perUID.lookup r.uid <;> simp only [weight_some, weight_none, earnedBy, map_cons,
      map_nil, sum_singleton, getD_some, getD_none]
    · split <;> omega
    · split <;> omega
  · intro uid e found
    rw [perUID] at found
    by_cases same : uid = r.uid
    · subst same
      rw [lookup_put_self] at found
      cases found
      have old : 0 ≤ (totalsOf a r).1 := by
        unfold totalsOf
        cases there : a.perUID.lookup r.uid with
        | none => exact le_refl _
        | some e => exact before.nonneg _ e there
      exact add_nonneg old positive
    · rw [lookup_put_of_ne _ same] at found
      exact before.nonneg uid e found
  · intro m uid day
    rw [perDay, tally_put, before.perDay m uid day, batchSum_append, weight_some, measure_addRow]
    unfold dayOf at owner born ⊢
    cases there : a.perDay.lookup (r.uid, sourceDay r.createdAt) with
    | none =>
      simp only [weight_none, DayRecon.addRow, getD_none, batchSum, map_cons,
        map_nil, sum_singleton]
      have nothing : DayRecon.measure ⟨r.uid, sourceDay r.createdAt, 0, 0, 0⟩ m = 0 := by
        cases m <;> rfl
      rw [nothing, zero_add, sub_zero]
      rfl
    | some d =>
      rw [there] at owner born
      simp only [getD_some] at owner born
      simp only [weight_some, DayRecon.addRow, getD_some, owner, born, batchSum,
        map_cons, map_nil, sum_singleton]
      split <;> omega
  · intro k d found
    rw [perDay] at found
    by_cases same : k = (r.uid, sourceDay r.createdAt)
    · subst same
      rw [lookup_put_self] at found
      cases found
      exact ⟨owner, born⟩
    · rw [lookup_put_of_ne _ same] at found
      exact before.days k d found

theorem Aggregated.foldl {done : List BatchRow} (before : Aggregated done a)
    (ok : rows.foldlM aggregateRow a = .ok a') : Aggregated (done ++ rows) a' := by
  induction rows generalizing done a with
  | nil =>
    cases Except.ok.inj ok
    simpa using before
  | cons r rows ih =>
    obtain ⟨next, row, rest⟩ := bind_ok ok
    simpa using ih (before.row row) rest

def reconSum (recon : List DayRecon) (m : Measure) (uid : Int) (day : Nat) : Int :=
  (recon.map fun d => if d.uid = uid ∧ d.sourceDay = day then d.measure m else 0).sum

structure BatchAggregate (rows : List BatchRow) (totals : List UIDCredit)
    (recon : List DayRecon) : Prop where
  earned : ∀ uid, totalOf UIDCredit.earn totals uid = earnedBy rows uid
  reconciled : ∀ m uid day, reconSum recon m uid day = batchSum rows m uid day
  nonneg : ∀ t ∈ totals, 0 ≤ t.toAvailable ∧ 0 ≤ t.toFrozen

@[simp] theorem uidCredit_uid (freezeByUID : Int → Int) (uid earn : Int) :
    (uidCredit freezeByUID uid earn).uid = uid := by
  unfold uidCredit
  split <;> rfl

@[simp] theorem uidCredit_earn (freezeByUID : Int → Int) (uid earn : Int) :
    (uidCredit freezeByUID uid earn).earn = earn := by
  unfold uidCredit
  split <;> rfl

variable {freezeByUID : Int → Int}

theorem uidCredit_nonneg {uid earn : Int} (nonneg : 0 ≤ earn) :
    0 ≤ (uidCredit freezeByUID uid earn).toAvailable ∧
      0 ≤ (uidCredit freezeByUID uid earn).toFrozen := by
  unfold uidCredit
  split
  · exact ⟨le_refl _, nonneg⟩
  · exact ⟨nonneg, le_refl _⟩

theorem aggregateBatch_ok {result : List UIDCredit × List DayRecon}
    (ok : aggregateBatch rows freezeByUID = .ok result) :
    BatchAggregate rows result.1 result.2 := by
  obtain ⟨a, folded, ok⟩ := bind_ok ok
  obtain ⟨_, -, ok⟩ := bind_ok ok
  obtain ⟨_, -, ok⟩ := bind_ok ok
  obtain ⟨_, -, ok⟩ := bind_ok ok
  split at ok
  · cases ok
  cases Except.ok.inj ok
  have whole : Aggregated rows a := Aggregated.empty.foldl folded
  refine ⟨?_, ?_, ?_⟩
  · intro uid
    have order := perm_insertionSort (fun x y : UIDCredit => x.uid ≤ y.uid)
      (a.perUID.entries.map fun entry => uidCredit freezeByUID entry.1 entry.2.1)
    rw [← whole.perUID uid]
    unfold totalOf tally
    rw [(order.map _).sum_eq, List.map_map]
    simp [Function.comp_def]
  · intro m uid day
    have order := perm_insertionSort
      (fun x y : DayRecon => x.uid < y.uid ∨ (x.uid = y.uid ∧ x.sourceDay ≤ y.sourceDay))
      (a.perDay.entries.map Sigma.snd)
    rw [← whole.perDay m uid day]
    unfold reconSum tally
    rw [(order.map _).sum_eq, List.map_map]
    rfl
  · intro t member
    rw [mem_insertionSort] at member
    obtain ⟨entry, listed, rfl⟩ := mem_map.mp member
    exact uidCredit_nonneg (whole.nonneg entry.1 entry.2 (AList.mem_lookup_iff.mpr listed))

end C3Api.Supplier
