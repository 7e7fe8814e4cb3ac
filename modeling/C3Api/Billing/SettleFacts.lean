import C3Api.Billing.Settle
import Mathlib.Data.List.Perm.Subperm

/-!
# What a settlement statement computes from its snapshot
-/

namespace C3Api.Billing.Settle

open ReadCommitted List Charged

structure UsageRow.Reads (r : UsageRow) (b : BatchRow) : Prop where
  uid : r.uid = b.uid
  cost : r.cost = b.cost

variable {lane : Lane} {view : Rows} {rows : List BatchRow} {t : Total} {uid : Nat}
  {owing : List Total}

section

variable {now limit k bucket : Nat} {b : BatchRow}

theorem mem_candidates : b ∈ candidates lane view now k bucket ↔
    ∃ r, view.lookup (.usage b.id) = some r ∧ r.Reads b ∧ r.pending = true ∧ 0 < r.cost ∧
      r.uid % k = bucket ∧ lane.admits (tempActive view now r.uid) = true := by
  constructor
  · intro member
    obtain ⟨⟨key, row⟩, entry, selected⟩ := mem_filterMap.mp member
    cases key with
    | usage id =>
      dsimp only at selected
      split at selected
      next chosen =>
        cases selected
        simp only [Bool.and_eq_true, decide_eq_true_eq, beq_iff_eq] at chosen
        obtain ⟨⟨⟨pending, positive⟩, hash⟩, admitted⟩ := chosen
        exact ⟨row, AList.mem_lookup_iff.mpr entry, ⟨rfl, rfl⟩, pending, positive, hash, admitted⟩
      · cases selected
    | user id | temp id => cases selected
  · rintro ⟨r, found, reads, pending, positive, hash, admitted⟩
    have whole : ({ id := b.id, uid := r.uid, cost := r.cost } : BatchRow) = b := by
      rw [reads.uid, reads.cost]
    refine mem_filterMap.mpr ⟨⟨.usage b.id, r⟩, AList.mem_lookup_iff.mp found, ?_⟩
    dsimp only
    rw [if_pos (by simp [pending, positive, hash, admitted]), whole]

theorem mem_candidates_of_mem_batch (member : b ∈ batch lane view now limit k bucket) :
    b ∈ candidates lane view now k bucket :=
  (mem_insertionSort _).mp (mem_of_mem_take member)

theorem pending_not_billed {r : UsageRow} (pending : r.pending = true) : r.billed = false := by
  cases billed : r.billed with
  | false => rfl
  | true => simp [UsageRow.pending, billed] at pending

end

theorem mem_totals : t ∈ totals rows ↔ (∃ b ∈ rows, b.uid = t.uid) ∧ t.delta = owed rows t.uid := by
  unfold totals
  simp only [mem_map, mem_dedup]
  constructor
  · rintro ⟨uid, ⟨b, member, rfl⟩, rfl⟩
    exact ⟨⟨b, member, rfl⟩, rfl⟩
  · rintro ⟨⟨b, member, same⟩, amount⟩
    exact ⟨t.uid, ⟨b, member, same⟩, by rw [← amount]⟩

theorem totals_uids_nodup (rows : List BatchRow) : ((totals rows).map Total.uid).Nodup := by
  have uids : (totals rows).map Total.uid = (rows.map BatchRow.uid).dedup := by
    simp [totals, Function.comp_def]
  rw [uids]
  exact nodup_dedup _

theorem owed_eq_zero (absent : ∀ b ∈ rows, b.uid ≠ uid) : owed rows uid = 0 := by
  rw [owed, filter_eq_nil_iff.mpr (by simpa using absent)]
  rfl

theorem owed_pos {b : BatchRow} (positive : ∀ b ∈ rows, 0 < b.cost) (member : b ∈ rows) :
    0 < owed rows b.uid := by
  apply sum_pos
  · exact forall_mem_map.mpr fun r chosen => positive r (mem_of_mem_filter chosen)
  · intro empty
    have none := map_eq_nil_iff.mp empty
    have chosen : b ∈ rows.filter (fun r => r.uid = b.uid) := mem_filter.mpr ⟨member, by simp⟩
    rw [none] at chosen
    cases chosen

section

variable {ps : List PoolRow} {delta cum : Int}

structure PoolRow.Covers (p : PoolRow) (x : Take) : Prop where
  tid : x.tid = p.tid
  uid : x.uid = p.uid
  positive : 0 < x.take
  fits : x.take ≤ p.amount

theorem mem_takesFrom {x : Take} (positive : ∀ p ∈ ps, 0 < p.amount)
    (member : x ∈ takesFrom delta cum ps) : ∃ p ∈ ps, p.Covers x := by
  induction ps generalizing cum with
  | nil => cases member
  | cons p ps ih =>
    have later (found : x ∈ takesFrom delta (cum + p.amount) ps) : ∃ p' ∈ p :: ps, p'.Covers x := by
      obtain ⟨p', there, covers⟩ :=
        ih (forall_mem_cons.mp positive).2 found
      exact ⟨p', mem_cons_of_mem _ there, covers⟩
    have amount := positive p mem_cons_self
    simp only [takesFrom] at member
    split at member
    next open' =>
      rcases mem_cons.mp member with rfl | found
      · refine ⟨p, mem_cons_self, rfl, rfl, ?_, ?_⟩ <;> dsimp only <;> split <;> omega
      · exact later found
    · exact later member

/-- The takes of a user add up to what is owed, as far as the pool goes. -/
theorem sum_takesFrom (positive : ∀ p ∈ ps, 0 < p.amount) :
    ((takesFrom delta cum ps).map Take.take).sum =
      max 0 (min (ps.map PoolRow.amount).sum (delta - cum)) := by
  induction ps generalizing cum with
  | nil => simp [takesFrom]
  | cons p ps ih =>
    have rest : ((takesFrom delta (cum + p.amount) ps).map Take.take).sum =
        max 0 (min (ps.map PoolRow.amount).sum (delta - (cum + p.amount))) :=
      ih (forall_mem_cons.mp positive).2
    have amount := positive p mem_cons_self
    have pool : 0 ≤ (ps.map PoolRow.amount).sum := by
      apply sum_nonneg
      exact forall_mem_map.mpr fun q there => (positive q (mem_cons_of_mem _ there)).le
    simp only [takesFrom, map_cons, sum_cons]
    split
    · simp only [map_cons, sum_cons, rest]
      split <;> omega
    · omega

theorem drawnBy_cons (x : Take) (xs : List Take) (uid : Nat) :
    drawnBy (x :: xs) uid = (if x.uid = uid then x.take else 0) + drawnBy xs uid := by
  by_cases same : x.uid = uid <;> simp [drawnBy, same]

theorem drawnBy_eq_zero {xs : List Take} {uid : Nat} (absent : ∀ x ∈ xs, x.uid ≠ uid) :
    drawnBy xs uid = 0 := by
  rw [drawnBy, filter_eq_nil_iff.mpr (by simpa using absent)]
  rfl

theorem drawnBy_eq_sum {xs : List Take} {uid : Nat} (all : ∀ x ∈ xs, x.uid = uid) :
    drawnBy xs uid = (xs.map Take.take).sum := by
  rw [drawnBy, filter_eq_self.mpr (by simpa using all)]

theorem drawnBy_subperm {xs ys : List Take} (part : xs.Subperm ys) (positive : ∀ y ∈ ys, 0 < y.take)
    (uid : Nat) : drawnBy xs uid ≤ drawnBy ys uid := by
  obtain ⟨zs, order, sub⟩ := part
  have same : drawnBy zs uid = drawnBy xs uid :=
    ((order.filter _).map _).sum_eq
  rw [← same]
  apply ((sub.filter _).map Take.take).sum_le_sum
  exact forall_mem_map.mpr fun y chosen => (positive y (mem_of_mem_filter chosen)).le

end

section

variable {order now : Nat}

theorem mem_tempPool {p : PoolRow} : p ∈ tempPool order view now ↔
    ∃ t, view.lookup (.temp p.tid) = some t ∧ t.active now = true ∧
      p = { tid := p.tid, uid := t.userID, amount := t.amount, expiresAt := t.expiresAt } := by
  unfold tempPool
  rw [mem_insertionSort, (reorder_perm _ _).mem_iff, mem_filterMap]
  constructor
  · rintro ⟨⟨key, row⟩, entry, selected⟩
    cases key with
    | temp tid =>
      dsimp only at selected
      split at selected
      next chosen =>
        cases selected
        exact ⟨row, AList.mem_lookup_iff.mpr entry, chosen, rfl⟩
      · cases selected
    | user id | usage id => cases selected
  · rintro ⟨t, found, active, same⟩
    refine ⟨⟨.temp p.tid, t⟩, AList.mem_lookup_iff.mp found, ?_⟩
    dsimp only
    rw [if_pos active, ← same]

theorem active_pos {t : TempBalance} (active : t.active now = true) : 0 < t.amount := by
  simp only [TempBalance.active, Bool.and_eq_true, decide_eq_true_eq] at active
  exact active.1

theorem tempPool_pos : ∀ p ∈ tempPool order view now, 0 < p.amount := by
  intro p member
  obtain ⟨t, -, active, same⟩ := mem_tempPool.mp member
  rw [same]
  exact active_pos active

def poolOf (order : Nat) (view : Rows) (now uid : Nat) : List PoolRow :=
  (tempPool order view now).filter (fun p => p.uid = uid)

theorem poolOf_pos {uid : Nat} : ∀ p ∈ poolOf order view now uid, 0 < p.amount :=
  fun p member => tempPool_pos p (mem_of_mem_filter member)

theorem mem_takes {x : Take} (member : x ∈ takes lane order view now owing) :
    (∃ t ∈ owing, t.uid = x.uid) ∧ ∃ row, view.lookup (.temp x.tid) = some row ∧
      row.userID = x.uid ∧ row.active now = true ∧ 0 < x.take ∧ x.take ≤ row.amount := by
  cases lane with
  | balance => cases member
  | fefo =>
    obtain ⟨t, owes, taken⟩ := mem_flatMap.mp member
    obtain ⟨p, pooled, covers⟩ := mem_takesFrom poolOf_pos taken
    obtain ⟨inPool, owner⟩ := mem_filter.mp pooled
    obtain ⟨row, found, active, same⟩ := mem_tempPool.mp inPool
    rw [decide_eq_true_eq] at owner
    have owner' : p.uid = row.userID := congrArg PoolRow.uid same
    have amount : p.amount = row.amount := congrArg PoolRow.amount same
    refine ⟨⟨t, owes, owner.symm.trans covers.uid.symm⟩, row, ?_, ?_, active, covers.positive, ?_⟩
    · rw [covers.tid]
      exact found
    · rw [← owner', covers.uid]
    · rw [← amount]
      exact covers.fits

theorem takesFrom_uid {uid : Nat} {delta cum : Int} {x : Take}
    (member : x ∈ takesFrom delta cum (poolOf order view now uid)) : x.uid = uid := by
  obtain ⟨p, pooled, covers⟩ := mem_takesFrom poolOf_pos member
  obtain ⟨-, owner⟩ := mem_filter.mp pooled
  rw [covers.uid]
  exact of_decide_eq_true owner

theorem drawnBy_takes_filter {t : Total} (keep : Take → Bool)
    (distinct : (owing.map Total.uid).Nodup) (owes : t ∈ owing) :
    drawnBy ((takes .fefo order view now owing).filter keep) t.uid =
      drawnBy ((takesFrom t.delta 0 (poolOf order view now t.uid)).filter keep) t.uid := by
  have each : drawnBy ((takes .fefo order view now owing).filter keep) t.uid =
      (owing.map fun u =>
        drawnBy ((takesFrom u.delta 0 (poolOf order view now u.uid)).filter keep) t.uid).sum := by
    simp only [drawnBy, takes, poolOf, filter_flatMap, map_flatMap]
    rw [flatMap_def, sum_flatten, map_map]
    rfl
  rw [each, sum_map_eq_nsmul_single t, count_eq_one_of_mem (distinct.of_map _) owes, one_nsmul]
  refine fun u different listed => drawnBy_eq_zero fun x member same => different ?_
  apply inj_on_of_nodup_map distinct listed owes
  exact (takesFrom_uid (mem_of_mem_filter member)).symm.trans same

/-- The Temp lane draws what a user owes, as far as the pool goes. -/
theorem drawnBy_takes_fefo {t : Total} (distinct : (owing.map Total.uid).Nodup) (owes : t ∈ owing) :
    drawnBy (takes .fefo order view now owing) t.uid =
      max 0 (min ((poolOf order view now t.uid).map PoolRow.amount).sum t.delta) := by
  have own : drawnBy ((takes .fefo order view now owing).filter fun _ => true) t.uid = _ :=
    drawnBy_takes_filter _ distinct owes
  rw [filter_true, filter_true] at own
  rw [own, drawnBy_eq_sum (fun x member => takesFrom_uid member), sum_takesFrom poolOf_pos, sub_zero]

end

variable {drawn : List Take}

def chargedBy (ts : List Total) (uid : Nat) : Int :=
  ((ts.filter (fun t => t.uid = uid)).map Total.delta).sum

theorem chargedBy_cons (t : Total) (ts : List Total) (uid : Nat) :
    chargedBy (t :: ts) uid = (if t.uid = uid then t.delta else 0) + chargedBy ts uid := by
  by_cases same : t.uid = uid <;> simp [chargedBy, same]

theorem chargedBy_append (ts us : List Total) (uid : Nat) :
    chargedBy (ts ++ us) uid = chargedBy ts uid + chargedBy us uid := by
  simp [chargedBy]

variable {ts : List Total} (present : Nat → Bool)

theorem chargedBy_perm {us : List Total} (order : ts.Perm us) (uid : Nat) :
    chargedBy ts uid = chargedBy us uid := ((order.filter _).map _).sum_eq

theorem chargedBy_eq_zero (absent : ∀ t ∈ ts, t.uid ≠ uid) : chargedBy ts uid = 0 := by
  rw [chargedBy, filter_eq_nil_iff.mpr (by simpa using absent)]
  rfl

theorem chargedBy_eq (distinct : (ts.map Total.uid).Nodup) (member : t ∈ ts) :
    chargedBy ts t.uid = t.delta := by
  have whole : chargedBy ts t.uid = (ts.map fun u => if u.uid = t.uid then u.delta else 0).sum := by
    simp [chargedBy, sum_map_ite]
  rw [whole, sum_map_eq_nsmul_single t, count_eq_one_of_mem (distinct.of_map _) member, one_nsmul,
    if_pos rfl]
  exact fun u different listed => if_neg fun same =>
    different (inj_on_of_nodup_map distinct listed member same)

theorem mem_spill : t ∈ spill owing drawn ↔
    (∃ o ∈ owing, o.uid = t.uid ∧ t.delta = o.delta - drawnBy drawn t.uid) ∧ 0 < t.delta := by
  unfold spill
  rw [mem_filter, mem_map, decide_eq_true_eq]
  constructor
  · rintro ⟨⟨o, listed, rfl⟩, positive⟩
    exact ⟨⟨o, listed, rfl, rfl⟩, positive⟩
  · rintro ⟨⟨o, listed, same, amount⟩, positive⟩
    refine ⟨⟨o, listed, ?_⟩, positive⟩
    rw [same, ← amount]

theorem spill_uids_nodup (distinct : (owing.map Total.uid).Nodup) (drawn : List Take) :
    ((spill owing drawn).map Total.uid).Nodup := by
  have uids : ((owing.map fun t => { t with delta := t.delta - drawnBy drawn t.uid }).map
      Total.uid) = owing.map Total.uid := by
    simp [Function.comp_def]
  exact (uids ▸ distinct).sublist (filter_sublist.map _)

theorem eq_of_uid (distinct : (ts.map Total.uid).Nodup) {u : Total} (first : t ∈ ts)
    (second : u ∈ ts) (same : t.uid = u.uid) : t = u :=
  inj_on_of_nodup_map distinct first second same

variable {debited forced : List Charged}

/-- The draws and the charges of an existing user add up to what the user owes;
of a missing user nothing is taken. -/
theorem drawn_add_charged (within : ∀ t ∈ totals rows, drawnBy drawn t.uid ≤ t.delta)
    (drawnOf : ∀ x ∈ drawn, present x.uid = true ∧ ∃ t ∈ totals rows, t.uid = x.uid) (uid : Nat) :
    drawnBy drawn uid +
        chargedBy ((spill (totals rows) drawn).filter (fun t => present t.uid)) uid =
      if present uid then owed rows uid else 0 := by
  by_cases here : present uid = true
  · rw [if_pos here]
    by_cases owes : ∃ b ∈ rows, b.uid = uid
    · have listed : ({ uid, delta := owed rows uid } : Total) ∈ totals rows :=
        mem_totals.mpr ⟨owes, rfl⟩
      have bound := within _ listed
      by_cases rest : 0 < owed rows uid - drawnBy drawn uid
      · have left : ({ uid, delta := owed rows uid - drawnBy drawn uid } : Total) ∈
            (spill (totals rows) drawn).filter (fun t => present t.uid) :=
          mem_filter.mpr ⟨mem_spill.mpr ⟨⟨_, listed, rfl, rfl⟩, rest⟩, here⟩
        have distinct := (spill_uids_nodup (totals_uids_nodup rows) drawn).sublist
          (filter_sublist (p := fun t => present t.uid) |>.map Total.uid)
        rw [chargedBy_eq distinct left]
        exact add_sub_cancel _ _
      · have none : chargedBy ((spill (totals rows) drawn).filter (fun t => present t.uid)) uid =
            0 := by
          apply chargedBy_eq_zero
          rintro t member rfl
          obtain ⟨⟨o, owing, same, amount⟩, positive⟩ := mem_spill.mp (mem_of_mem_filter member)
          rw [eq_of_uid (totals_uids_nodup rows) owing listed same] at amount
          exact rest (amount ▸ positive)
        have bound' : drawnBy drawn uid ≤ owed rows uid := bound
        omega
    · have none : chargedBy ((spill (totals rows) drawn).filter (fun t => present t.uid)) uid =
          0 := by
        apply chargedBy_eq_zero
        rintro t member rfl
        obtain ⟨⟨o, owing, same, -⟩, -⟩ := mem_spill.mp (mem_of_mem_filter member)
        exact owes (same ▸ (mem_totals.mp owing).1)
      have undrawn : drawnBy drawn uid = 0 := by
        apply drawnBy_eq_zero
        rintro x member rfl
        obtain ⟨-, o, owing, same⟩ := drawnOf x member
        exact owes (same ▸ (mem_totals.mp owing).1)
      rw [none, undrawn, owed_eq_zero (fun b listed same => owes ⟨b, listed, same⟩), add_zero]
  · rw [if_neg here, drawnBy_eq_zero, chargedBy_eq_zero, add_zero]
    · rintro t member rfl
      exact here (mem_filter.mp member).2
    · rintro x member rfl
      exact here (drawnOf x member).1

def Charged.total (c : Charged) : Total := { uid := c.uid, delta := c.delta }

theorem isCharged_iff {charged : List Charged} :
    isCharged charged uid = true ↔ ∃ t ∈ charged.map total, t.uid = uid := by
  simp [isCharged, total]

theorem debited_forced_perm {left : List Total} (distinct : (left.map Total.uid).Nodup)
    (part : (debited.map total).Subperm (left.filter (fun t => present t.uid)))
    (others : (forced.map total).Perm
      ((left.filter (fun t => !isCharged debited t.uid)).filter (fun t => present t.uid))) :
    (debited.map total ++ forced.map total).Perm (left.filter (fun t => present t.uid)) := by
  have nodup : left.Nodup := distinct.of_map _
  have first : (debited.map total).Nodup := by
    obtain ⟨ts, order, sub⟩ := part
    exact order.nodup_iff.mp ((nodup.filter _).sublist sub)
  have second : (forced.map total).Nodup :=
    others.nodup_iff.mpr ((nodup.filter _).filter _)
  rw [perm_ext_iff_of_nodup _ (nodup.filter _)]
  · intro t
    rw [mem_append, others.mem_iff]
    simp only [mem_filter, Bool.not_eq_true', and_right_comm]
    constructor
    · rintro (early | ⟨inLeft, -⟩)
      · exact mem_filter.mp (part.subset early)
      · exact inLeft
    · intro inLeft
      by_cases done : isCharged debited t.uid = true
      · obtain ⟨u, early, same⟩ := isCharged_iff.mp done
        have inLeft' := mem_of_mem_filter (part.subset early)
        rw [eq_of_uid distinct inLeft.1 inLeft' same.symm]
        exact .inl early
      · exact .inr ⟨inLeft, by simpa using done⟩
  · apply List.Nodup.append first second
    intro t early late
    have unpaid := (mem_filter.mp (mem_of_mem_filter (others.subset late))).2
    have paid := isCharged_iff.mpr ⟨t, early, rfl⟩
    rw [paid] at unpaid
    cases unpaid

theorem mem_ghosts_iff (positive : ∀ b ∈ rows, 0 < b.cost)
    (drawnOf : ∀ x ∈ drawn, present x.uid = true)
    (order : (debited.map total ++ forced.map total).Perm
      ((spill (totals rows) drawn).filter (fun t => present t.uid)))
    {b : BatchRow} (listed : b ∈ rows) :
    b ∈ ghosts rows (spill (totals rows) drawn) debited forced ↔ present b.uid = false := by
  have charged : ∀ uid, (isCharged debited uid || isCharged forced uid) = true ↔
      ∃ t ∈ (spill (totals rows) drawn).filter (fun t => present t.uid), t.uid = uid := by
    intro uid
    simp only [Bool.or_eq_true, isCharged_iff, ← order.mem_iff, mem_append, or_and_right, exists_or]
  unfold ghosts
  rw [mem_filter, Bool.and_assoc, ← Bool.not_or, Bool.and_eq_true, Bool.not_eq_true']
  constructor
  · rintro ⟨-, left, unpaid⟩
    obtain ⟨t, inLeft, same⟩ := any_eq_true.mp left
    by_contra present'
    rw [Bool.not_eq_false] at present'
    have paid := (charged b.uid).mpr
      ⟨t, mem_filter.mpr ⟨inLeft, by rwa [beq_iff_eq.mp same]⟩, beq_iff_eq.mp same⟩
    rw [unpaid] at paid
    cases paid
  · intro missing
    refine ⟨listed, any_eq_true.mpr ⟨⟨b.uid, owed rows b.uid⟩, ?_, by simp⟩, ?_⟩
    · have undrawn : drawnBy drawn b.uid = 0 := by
        apply drawnBy_eq_zero
        intro x member same
        have here := drawnOf x member
        rw [same, missing] at here
        cases here
      refine mem_spill.mpr ⟨⟨_, mem_totals.mpr ⟨⟨b, listed, rfl⟩, rfl⟩, rfl, ?_⟩,
        owed_pos positive listed⟩
      simp [undrawn]
    · by_contra paid
      rw [Bool.not_eq_false] at paid
      obtain ⟨t, member, same⟩ := (charged b.uid).mp paid
      have here := (mem_filter.mp member).2
      rw [same, missing] at here
      cases here

end C3Api.Billing.Settle
