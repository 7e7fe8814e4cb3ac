import C3Api.Billing.SettleFacts

/-!
# Temporary balances in expiry order

The rows of a user's pool that expire by a given moment come first in the window,
so the takes drain them before any later row. What they hold together depends on
what was owed and not on how ties are broken.
-/

namespace C3Api.Billing.Settle

open ReadCommitted List

theorem expiresBy_trans {a b c : Option Nat} (first : expiresBy a b = true)
    (second : expiresBy b c = true) : expiresBy a c = true := by
  cases a with
  | none =>
    cases b with
    | none => exact second
    | some b => cases first
  | some a =>
    cases b with
    | none =>
      cases c with
      | none => rfl
      | some c => cases second
    | some b =>
      cases c with
      | none => rfl
      | some c =>
        simp only [expiresBy, decide_eq_true_eq] at first second ⊢
        exact first.trans second

theorem expiresBy_total (a b : Option Nat) : expiresBy a b = true ∨ expiresBy b a = true := by
  cases a with
  | none => exact .inr (by cases b <;> rfl)
  | some a =>
    cases b with
    | none => exact .inl rfl
    | some b =>
      simp only [expiresBy, decide_eq_true_eq]
      exact Nat.le_total a b

def Earlier (p q : PoolRow) : Prop := expiresBy p.expiresAt q.expiresAt = true

instance : DecidableRel Earlier := fun p q =>
  inferInstanceAs (Decidable (expiresBy p.expiresAt q.expiresAt = true))

instance : Std.Total Earlier := ⟨fun p q => expiresBy_total p.expiresAt q.expiresAt⟩

instance : IsTrans PoolRow Earlier := ⟨fun _ _ _ => expiresBy_trans⟩

theorem sorted_split {ps : List PoolRow} (sorted : ps.Pairwise Earlier) (e : Option Nat) :
    ps.filter (fun p => expiresBy p.expiresAt e) ++
      ps.filter (fun p => !expiresBy p.expiresAt e) = ps := by
  induction ps with
  | nil => rfl
  | cons p ps ih =>
    obtain ⟨first, rest⟩ := pairwise_cons.mp sorted
    by_cases early : expiresBy p.expiresAt e = true
    · simp [early, ih rest]
    have late : ∀ q ∈ ps, ¬ expiresBy q.expiresAt e = true := fun q member byE =>
      early (expiresBy_trans (first q member) byE)
    have none : ps.filter (fun p => expiresBy p.expiresAt e) = [] :=
      filter_eq_nil_iff.mpr late
    have all : ps.filter (fun p => !expiresBy p.expiresAt e) = ps :=
      filter_eq_self.mpr (fun q member => by simpa using late q member)
    simp [early, none, all]

theorem takesFrom_append (delta cum : Int) (ps qs : List PoolRow) :
    takesFrom delta cum (ps ++ qs) =
      takesFrom delta cum ps ++ takesFrom delta (cum + (ps.map PoolRow.amount).sum) qs := by
  induction ps generalizing cum with
  | nil => simp [takesFrom]
  | cons p ps ih =>
    simp only [cons_append, takesFrom, ih, map_cons, sum_cons, add_assoc]
    split <;> rfl

def takesBy (d : Rows) (e : Option Nat) (x : Take) : Bool :=
  (d.lookup (.temp x.tid)).any (fun t => expiresBy t.expiresAt e)

def drawnUntil (d : Rows) (e : Option Nat) (xs : List Take) (uid : Nat) : Int :=
  drawnBy (xs.filter (takesBy d e)) uid

section

variable {order : Nat} {d : Rows} {now uid : Nat} {e : Option Nat} {delta : Int}

theorem takesBy_of_covers {p : PoolRow} {x : Take} (pooled : p ∈ poolOf order d now uid)
    (covers : p.Covers x) : takesBy d e x = expiresBy p.expiresAt e := by
  obtain ⟨t, found, -, same⟩ := mem_tempPool.mp (mem_of_mem_filter pooled)
  have expiry : p.expiresAt = t.expiresAt := congrArg PoolRow.expiresAt same
  obtain ⟨tid, owner, take⟩ := x
  obtain rfl : tid = p.tid := covers.tid
  simp [takesBy, found, expiry]

def poolUntil (order : Nat) (d : Rows) (now uid : Nat) (e : Option Nat) : Int :=
  (((poolOf order d now uid).filter (fun p => expiresBy p.expiresAt e)).map PoolRow.amount).sum

/-- The rows that expire first are drained first. -/
theorem drawnUntil_takesFrom :
    drawnUntil d e (takesFrom delta 0 (poolOf order d now uid)) uid =
      max 0 (min (poolUntil order d now uid e) delta) := by
  have sorted : (poolOf order d now uid).Pairwise Earlier :=
    (pairwise_insertionSort Earlier _).filter _
  have split := sorted_split sorted e
  have front : ∀ x ∈ takesFrom delta 0
      ((poolOf order d now uid).filter (fun p => expiresBy p.expiresAt e)),
      takesBy d e x = true ∧ x.uid = uid := by
    intro x member
    obtain ⟨p, chosen, covers⟩ :=
      mem_takesFrom (fun p listed => poolOf_pos p (mem_of_mem_filter listed)) member
    obtain ⟨pooled, early⟩ := mem_filter.mp chosen
    refine ⟨(takesBy_of_covers pooled covers).trans early, ?_⟩
    rw [covers.uid]
    exact of_decide_eq_true (mem_filter.mp pooled).2
  have back : ∀ cum, ∀ x ∈ takesFrom delta cum
      ((poolOf order d now uid).filter (fun p => !expiresBy p.expiresAt e)),
      ¬ takesBy d e x = true := by
    intro cum x member
    obtain ⟨p, chosen, covers⟩ :=
      mem_takesFrom (fun p listed => poolOf_pos p (mem_of_mem_filter listed)) member
    obtain ⟨pooled, late⟩ := mem_filter.mp chosen
    rw [takesBy_of_covers pooled covers]
    simpa using late
  unfold drawnUntil
  rw [← split, takesFrom_append, filter_append,
    filter_eq_self.mpr (fun x member => (front x member).1),
    filter_eq_nil_iff.mpr (back _), append_nil,
    drawnBy_eq_sum (fun x member => (front x member).2), sum_takesFrom]
  · rw [sub_zero]
    rfl
  · exact fun p listed => poolOf_pos p (mem_of_mem_filter listed)

theorem drawnUntil_takes {owing : List Total} {t : Total}
    (distinct : (owing.map Total.uid).Nodup) (owes : t ∈ owing) :
    drawnUntil d e (takes .fefo order d now owing) t.uid =
      max 0 (min (poolUntil order d now t.uid e) t.delta) :=
  (drawnBy_takes_filter _ distinct owes).trans drawnUntil_takesFrom

end

def poolShare (now uid : Nat) (e : Option Nat) : (k : Key) → Row k → Int
  | .temp _, t =>
    if t.userID = uid ∧ t.active now = true ∧ expiresBy t.expiresAt e = true then t.amount else 0
  | _, _ => 0

/-- What a user can draw from the temporary balances that expire by `e`; for `none`
all of them. -/
def pool (now : Nat) (d : Rows) (uid : Nat) (e : Option Nat) : Int := tally (poolShare now uid e) d

/-- The window function adds up the same rows, whatever the order of ties. -/
theorem poolUntil_eq (order : Nat) (d : Rows) (now uid : Nat) (e : Option Nat) :
    poolUntil order d now uid e = pool now d uid e := by
  refine (((((perm_insertionSort _ _).trans (reorder_perm _ _)).filter _).filter _).map
    _).sum_eq.trans ?_
  change _ = (d.entries.map fun row => poolShare now uid e row.1 row.2).sum
  induction d.entries with
  | nil => rfl
  | cons row entries ih =>
    obtain ⟨k, row⟩ := row
    rw [map_cons, sum_cons, ← ih, filterMap_cons]
    cases k with
    | temp tid =>
      by_cases active : (row : TempBalance).active now = true
      · by_cases owner : (row : TempBalance).userID = uid <;>
          by_cases early : expiresBy (row : TempBalance).expiresAt e = true <;>
          simp [poolShare, active, owner, early]
      · simp [poolShare, active]
    | usage id | user id => simp [poolShare]

theorem pool_nonneg (now : Nat) (d : Rows) (uid : Nat) (e : Option Nat) : 0 ≤ pool now d uid e := by
  rw [← poolUntil_eq 0]
  apply sum_nonneg
  exact forall_mem_map.mpr fun p member => (poolOf_pos p (mem_of_mem_filter member)).le

theorem pool_eq_zero {now uid : Nat} {d : Rows} (inactive : tempActive d now uid = false)
    (e : Option Nat) : pool now d uid e = 0 := by
  apply tally_eq_zero
  intro k row found
  cases k with
  | temp tid =>
    have idle := any_eq_false.mp inactive _ (AList.mem_lookup_iff.mp found)
    simp only [Bool.and_eq_true, beq_iff_eq, not_and] at idle
    simp only [poolShare]
    rw [if_neg]
    rintro ⟨owner, active, -⟩
    exact idle owner active
  | usage id => rfl
  | user id => rfl

end C3Api.Billing.Settle
