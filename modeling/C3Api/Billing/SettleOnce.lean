import C3Api.Billing.SettleFacts
import Mathlib.Tactic.Ring

/-!
# Every usage row is charged exactly once

Any number of consumers settle at the same time. A row is marked in the same
transaction that charges its user, and a transaction that could not mark its
whole batch is rolled back, so the marks and the money move together.
-/

namespace C3Api.Billing.Settle

open ReadCommitted List Option Contract Charged

/-- Later versions of a row: usage rows keep what they charge, temporary balances
keep their owner, users neither come nor go. -/
def RowBefore : (k : Key) → Option (Row k) → Option (Row k) → Prop
  | .usage _, v, v' => ∀ r, v = some r → ∃ r', v' = some r' ∧ r'.uid = r.uid ∧ r'.cost = r.cost
  | .user _, v, v' => v.isSome = v'.isSome
  | .temp _, v, v' => ∀ t, v = some t → ∃ t', v' = some t' ∧ t'.userID = t.userID

variable {w w₀ : BillingWorld} {d : Rows} {ws : Writes Row} {r : UsageRow} (k : Key)
  (v : Option (Row k))

theorem RowBefore.refl : RowBefore k v v := by
  cases k with
  | usage id => exact fun r found => ⟨r, found, rfl, rfl⟩
  | user id => rfl
  | temp id => exact fun t found => ⟨t, found, rfl⟩

theorem RowBefore.trans (u v x : Option (Row k)) (first : RowBefore k u v)
    (second : RowBefore k v x) : RowBefore k u x := by
  cases k with
  | usage id =>
    intro r found
    obtain ⟨r', found', uid, cost⟩ := first r found
    obtain ⟨r'', found'', uid', cost'⟩ := second r' found'
    exact ⟨r'', found'', uid'.trans uid, cost'.trans cost⟩
  | user id => exact Eq.trans first second
  | temp id =>
    intro t found
    obtain ⟨t', found', owner⟩ := first t found
    obtain ⟨t'', found'', owner'⟩ := second t' found'
    exact ⟨t'', found'', owner'.trans owner⟩

def Advance (w w' : BillingWorld) : Prop :=
  ∀ k, RowBefore k (w.db.lookup k) (w'.db.lookup k)

theorem Advance.trans {w' w'' : BillingWorld} (first : Advance w w') (second : Advance w' w'') :
    Advance w w'' := fun k => .trans k _ _ _ (first k) (second k)

def billedMark (id : Nat) : (k : Key) → Row k → Int
  | .usage j, r => if j = id ∧ r.billed = true ∧ 0 < r.cost then 1 else 0
  | _, _ => 0

def fundsOf (uid : Nat) : (k : Key) → Row k → Int
  | .user id, u => if id = uid then u.balance else 0
  | .temp _, t => if t.userID = uid then t.amount else 0
  | _, _ => 0

def marksIn (id : Nat) : Event → Int
  | .settled rows _ _ => rows.countP (fun b => b.id == id)
  | .inserted j row => billedMark id (.usage j) row
  | _ => 0

def chargedRows (rows ghosts : List BatchRow) : List BatchRow :=
  rows.filter (fun b => b ∉ ghosts)

def movedIn (uid : Nat) : Event → Int
  | .settled rows ghosts _ => -owed (chargedRows rows ghosts) uid
  | .adjusted u amount => if u = uid then amount else 0
  | _ => 0

def userExists (d : Rows) (uid : Nat) : Bool := (d.lookup (.user uid)).isSome

/-- What the log says of one transaction is true of the table. -/
def Event.Holds (d : Rows) : Event → Prop
  | .settled rows ghosts summary =>
      summary.marked = summary.batchRows ∧ summary.batchRows = rows.length ∧
        ∀ b ∈ rows, (b ∈ ghosts ↔ userExists d b.uid = false) ∧
          ∃ r, d.lookup (.usage b.id) = some r ∧ r.Reads b
  | .swept ids => ∀ id ∈ ids, ∃ r, d.lookup (.usage id) = some r ∧ r.cost ≤ 0
  | _ => True

structure Ledger (w₀ w : BillingWorld) : Prop where
  marks : ∀ id, tally (billedMark id) w.db =
    tally (billedMark id) w₀.db + (w.log.map (marksIn id)).sum
  funds : ∀ uid, tally (fundsOf uid) w.db =
    tally (fundsOf uid) w₀.db + (w.log.map (movedIn uid)).sum
  events : ∀ e ∈ w.log, e.Holds w.db
  owners : ∀ tid t, w.db.lookup (.temp tid) = some t → userExists w.db t.userID = true

def contract (w₀ : BillingWorld) : Contract system where
  inv := Ledger w₀
  rely _ w w' := Advance w w'
  rely_refl _ _ := fun k => .refl k _
  rely_trans first second := first.trans second

theorem Event.Holds.advance {d' : Rows} {e : Event} (holds : e.Holds d)
    (moved : ∀ k, RowBefore k (d.lookup k) (d'.lookup k)) : e.Holds d' := by
  cases e with
  | settled rows ghosts summary =>
    obtain ⟨complete, size, each⟩ := holds
    refine ⟨complete, size, ?_⟩
    intro b member
    obtain ⟨ghost, r, found, reads⟩ := each b member
    obtain ⟨r', found', uid, cost⟩ := moved (.usage b.id) r found
    have same : userExists d b.uid = userExists d' b.uid := moved (.user b.uid)
    exact ⟨same ▸ ghost, r', found', uid.trans reads.uid, cost.trans reads.cost⟩
  | swept ids =>
    intro id member
    obtain ⟨r, found, costless⟩ := holds id member
    obtain ⟨r', found', -, cost⟩ := moved (.usage id) r found
    exact ⟨r', found', cost ▸ costless⟩
  | _ => trivial

theorem Ledger.commit {events : List Event} (ledger : Ledger w₀ w) (moves : Moves RowBefore w.db ws)
    (marks : ∀ id, change (billedMark id) w.db ws = (events.map (marksIn id)).sum)
    (funds : ∀ uid, change (fundsOf uid) w.db ws = (events.map (movedIn uid)).sum)
    (holds : ∀ e ∈ events, e.Holds (overlay w.db ws))
    (owners : ∀ tid t, (overlay w.db ws).lookup (.temp tid) = some t →
      userExists w.db t.userID = true) (others : List Task) {h : Held Row Empty} :
    (contract w₀).Kept others h w (w.commit ws events) := by
  refine ⟨⟨?_, ?_, ?_, ?_⟩, fun _ _ => moves, fun _ _ => trivial⟩
  · intro id
    simp only [World.commit, tally_overlay, marks, ledger.marks id, map_append,
      sum_append, add_assoc]
  · intro uid
    simp only [World.commit, tally_overlay, funds, ledger.funds uid, map_append,
      sum_append, add_assoc]
  · exact forall_mem_append.mpr ⟨fun e old => (ledger.events e old).advance moves, holds⟩
  · intro tid t found
    have same : userExists w.db t.userID = userExists (overlay w.db ws) t.userID :=
      moves (.user t.userID)
    exact same ▸ owners tid t found

theorem enter_eq (h : Held Row Empty) (k : Key) : h.enter system.guard k = h :=
  enter_of_unguarded rfl

theorem access_eq (h : Held Row Empty) (k : Key) (v : Option (Row k)) :
    h.access system.guard k (some v) = { h with writes := ⟨k, v⟩ :: h.writes } :=
  access_of_unguarded rfl v

theorem owed_chargedRows {rows ghosts : List BatchRow} (present : Nat → Bool)
    (missing : ∀ b ∈ rows, b ∈ ghosts ↔ present b.uid = false) (uid : Nat) :
    owed (chargedRows rows ghosts) uid = if present uid then owed rows uid else 0 := by
  unfold owed chargedRows
  rw [List.filter_filter]
  split
  next here =>
    congr 2
    apply filter_congr
    intro b listed
    by_cases same : b.uid = uid
    · simp [missing b listed, same, here]
    · simp [same]
  next absent =>
    rw [filter_eq_nil_iff.mpr]
    · rfl
    intro b listed
    by_cases same : b.uid = uid
    · simp [missing b listed, same, absent]
    · simp [same]

def TempKept : (k : Key) → Option (Row k) → Option (Row k) → Prop
  | .temp _, v, v' => ∀ t, v' = some t → ∃ t', v = some t' ∧ t'.userID = t.userID
  | _, _, _ => True

theorem TempKept.refl : TempKept k v v := by
  cases k with
  | temp id => exact fun t found => ⟨t, found, rfl⟩
  | _ => trivial

theorem TempKept.trans (u v x : Option (Row k)) (first : TempKept k u v) (second : TempKept k v x) :
    TempKept k u x := by
  cases k with
  | temp id =>
    intro t found
    obtain ⟨t', found', owner⟩ := second t found
    obtain ⟨t'', found'', owner'⟩ := first t' found'
    exact ⟨t'', found'', owner'.trans owner⟩
  | _ => trivial

/-- What a transaction that read its batch in `w₁` has written so far: the money it
took from each user, and the rows it marked. -/
structure Progress (w₁ : BillingWorld) (taken : Nat → Int) (marks : Nat → Int)
    (h : Held Row Empty) (w : BillingWorld) : Prop where
  since : Advance w₁ w
  moves : Moves RowBefore w.db h.writes
  kept : Moves TempKept w.db h.writes
  funds : ∀ uid, change (fundsOf uid) w.db h.writes = -taken uid
  marked : ∀ id, change (billedMark id) w.db h.writes = marks id

variable {concurrent : BillingError → Tx} {lane : Lane}

section

variable {w₀ w₁ w w' : BillingWorld} {taken taken' marks marks' : Nat → Int} {t : Task}
variable {h : Held Row Empty}

theorem Progress.start (since : Advance w₁ w) : Progress w₁ (fun _ => 0) (fun _ => 0) {} w :=
  ⟨since, .nil RowBefore.refl, .nil TempKept.refl, fun _ => by simp, fun _ => by simp⟩

section

variable (progress : Progress w₁ taken marks h w)

include progress

theorem Progress.later (later : (contract w₀).Later t h w w') : Progress w₁ taken marks h w' :=
  ⟨progress.since.trans later.rely, later.moves RowBefore.refl progress.moves,
    later.moves TempKept.refl progress.kept,
    fun uid => (later.change _).trans (progress.funds uid),
    fun id => (later.change _).trans (progress.marked id)⟩

theorem Progress.newest (k : Key) :
    RowBefore k (w₁.db.lookup k) ((overlay w.db h.writes).lookup k) :=
  .trans k _ _ _ (progress.since k) (progress.moves k)

theorem Progress.write {k : Key} {old : Option (Row k)} {new : Row k}
    (newest : (overlay w.db h.writes).lookup k = old)
    (before : RowBefore k old (some new)) (kept : TempKept k old (some new))
    (funds : ∀ uid, taken' uid = taken uid + (weight (fundsOf uid) k old - fundsOf uid k new))
    (marked : ∀ id, marks' id = marks id + (billedMark id k new - weight (billedMark id) k old)) :
    Progress w₁ taken' marks' (h.access system.guard k (some (some new))) w := by
  rw [access_eq]
  refine ⟨progress.since, progress.moves.cons RowBefore.trans (newest ▸ before),
    progress.kept.cons TempKept.trans (newest ▸ kept), ?_, ?_⟩
  · intro uid
    rw [change_cons, newest, weight_some, progress.funds, funds]
    ring
  · intro id
    rw [change_cons, newest, weight_some, progress.marked, marked]
    ring

theorem Progress.commit {events : List Event} (ledger : Ledger w₀ w)
    (marked : ∀ id, marks id = (events.map (marksIn id)).sum)
    (moved : ∀ uid, -taken uid = (events.map (movedIn uid)).sum)
    (holds : ∀ e ∈ events, e.Holds (overlay w.db h.writes)) (others : List Task)
    {h' : Held Row Empty} : (contract w₀).Kept others h' w (w.commit h.writes events) := by
  refine ledger.commit progress.moves (fun id => (progress.marked id).trans (marked id))
    (fun uid => (progress.funds uid).trans (moved uid)) holds (fun tid t found => ?_) others
  obtain ⟨t', found', owner⟩ := progress.kept (.temp tid) t found
  exact owner ▸ ledger.owners tid t' found'

end

variable {xs : List Take} {rows : List BatchRow} {forced : List Charged}

theorem tempDrawn_safe {next : List Take → Tx}
    (pooled : ∀ x ∈ xs, ∃ row, w₁.db.lookup (.temp x.tid) = some row ∧ row.userID = x.uid)
    (start : Progress w₁ (fun _ => 0) (fun _ => 0) h w)
    (followed : ∀ drawn h w, drawn.Subperm xs → Progress w₁ (drawnBy drawn) (fun _ => 0) h w →
      (contract w₀).Safe t (next drawn) h w) : (contract w₀).Safe t (tempDrawn xs next) h w := by
  apply safe_updateEach_done fun done drawn h w =>
    drawn = done ∧ Progress w₁ (drawnBy done) (fun _ => 0) h w
  · exact fun now later => ⟨now.1, now.2.later later⟩
  · intro x done drawn h w now
    rwa [enter_eq]
  · rintro x done _ h w old new ⟨rfl, progress⟩ part newest drew
    obtain ⟨row, found, owner⟩ := pooled x (part.subset mem_cons_self)
    obtain ⟨old', newest', owner'⟩ := progress.newest (.temp x.tid) row found
    cases newest.symm.trans newest'
    simp only [drawTemp] at drew
    split at drew
    · cases drew
      refine ⟨rfl, ?_⟩
      refine progress.write newest (fun t found => ?_) (fun t found => ?_) (fun uid => ?_)
        (fun id => rfl)
      · exact ⟨_, rfl, some.inj found ▸ rfl⟩
      · exact ⟨_, rfl, some.inj found ▸ rfl⟩
      rw [drawnBy_cons]
      simp only [weight_some, fundsOf, owner', owner]
      split <;> ring
    · cases drew
  · rintro _ drawn h w ⟨rfl, progress⟩ part
    exact followed drawn h w part progress
  · exact ⟨rfl, start⟩

/-- `skipped` are the users that did not match any more. -/
theorem chargeUsers_safe {set : Total → User → Option User} {owing : List Total}
    {next : List Charged → Tx}
    (takes : ∀ t u u', set t u = some u' → u'.balance = u.balance - t.delta)
    (start : Progress w₁ taken (fun _ => 0) h w)
    (followed : ∀ charged skipped h w, (charged.map total ++ skipped).Perm
        (owing.filter (fun t => ((w₁.db.lookup (.user t.uid)).bind (set t)).isSome)) →
      ((∀ t u, (set t u).isSome) → skipped = []) →
      Progress w₁ (fun uid => taken uid + chargedBy (charged.map total) uid) (fun _ => 0) h w →
      (contract w₀).Safe t (next charged) h w) :
    (contract w₀).Safe t (chargeUsers set w₁.db owing next) h w := by
  apply safe_updateEach fun rest charged h w => ∃ skipped : List Total,
    (charged.map total ++ skipped ++ rest).Perm
      (owing.filter (fun t => ((w₁.db.lookup (.user t.uid)).bind (set t)).isSome)) ∧
    ((∀ t u, (set t u).isSome) → skipped = []) ∧
    Progress w₁ (fun uid => taken uid + chargedBy (charged.map total) uid) (fun _ => 0) h w
  · rintro rest charged h w w' ⟨skipped, order, all, progress⟩ later
    exact ⟨skipped, order, all, progress.later later⟩
  · rintro t rest charged h w ⟨skipped, order, all, progress⟩ unmatched
    refine ⟨skipped ++ [t], by simpa using order, ?_, progress⟩
    intro total
    have selected : t ∈ owing.filter
        (fun t => ((w₁.db.lookup (.user t.uid)).bind (set t)).isSome) :=
      order.subset (by simp)
    obtain ⟨v, seen⟩ := isSome_iff_exists.mp (mem_filter.mp selected).2
    obtain ⟨u, found, -⟩ := bind_eq_some_iff.mp seen
    have present := progress.newest (.user t.uid)
    rw [RowBefore, found, isSome_some, eq_comm, isSome_iff_exists] at present
    obtain ⟨u', newest⟩ := present
    rw [newest, bind_some] at unmatched
    exact absurd (total t u') (by simp [unmatched])
  · rintro t rest charged h w u u' ⟨skipped, order, all, progress⟩ newest changed
    refine ⟨skipped, List.Perm.trans ?_ order, all, ?_⟩
    · simp only [map_cons, total, cons_append, append_assoc]
      exact perm_middle.symm.trans ((perm_append_left_iff _).mpr perm_middle.symm)
    · refine progress.write newest rfl trivial (fun uid => ?_) (fun id => rfl)
      simp only [map_cons, chargedBy_cons, weight_some, fundsOf, total, takes t u u' changed]
      split <;> ring
  · rintro charged h w ⟨skipped, order, all, progress⟩
    exact followed charged skipped h w (by simpa using order) all progress
  · intro ys order
    refine ⟨[], by simpa using order, fun _ => rfl, ?_⟩
    simpa [chargedBy] using start

theorem marked_safe {next : Nat → Tx}
    (read : ∀ b ∈ rows, ∃ r, w₁.db.lookup (.usage b.id) = some r ∧ r.Reads b ∧ 0 < r.cost)
    (start : Progress w₁ taken (fun _ => 0) h w)
    (followed : ∀ (ms : List BatchRow) h w, ms.Subperm rows →
      Progress w₁ taken (fun id => ms.countP (fun b => b.id == id)) h w →
      (contract w₀).Safe t (next ms.length) h w) :
    (contract w₀).Safe t (marked rows forced next) h w := by
  apply safe_updateEach_done fun ms n h w =>
    n = ms.length ∧ Progress w₁ taken (fun id => ms.countP (fun b => b.id == id)) h w
  · exact fun now later => ⟨now.1, now.2.later later⟩
  · intro b ms n h w now
    rwa [enter_eq]
  · rintro b ms _ h w old new ⟨rfl, progress⟩ part newest set
    obtain ⟨r, found, reads, positive⟩ := read b (part.subset mem_cons_self)
    obtain ⟨old', newest', uid, cost⟩ := progress.newest (.usage b.id) r found
    cases newest.symm.trans newest'
    simp only [markRow] at set
    split at set
    · cases set
    rename_i unbilled
    cases set
    refine ⟨rfl, ?_⟩
    refine progress.write newest (fun r found => ?_) trivial (fun uid => ?_) (fun id => ?_)
    · exact ⟨_, rfl, some.inj found ▸ ⟨rfl, rfl⟩⟩
    · simp [fundsOf]
    simp only [weight_some, billedMark, cost, positive, unbilled]
    by_cases same : b.id = id <;> simp [same]
  · rintro ms _ h w ⟨rfl, progress⟩ part
    exact followed ms h w part progress
  · exact ⟨rfl, by simpa using start⟩

theorem charged_perm {drawn : List Take} {debited : List Charged} {skipped : List Total}
    (first : (debited.map total ++ skipped).Perm
      ((spill (totals rows) drawn).filter
        (fun t => ((d.lookup (.user t.uid)).bind (debit t)).isSome)))
    (second : (forced.map total).Perm
      (((spill (totals rows) drawn).filter (fun t => !isCharged debited t.uid)).filter
        (fun t => ((d.lookup (.user t.uid)).bind (force t)).isSome))) :
    (debited.map total ++ forced.map total).Perm
      ((spill (totals rows) drawn).filter (fun t => userExists d t.uid)) := by
  refine debited_forced_perm (userExists d) (spill_uids_nodup (totals_uids_nodup rows) drawn) ?_ ?_
  · apply ((sublist_append_left _ _).subperm.trans first.subperm).trans
    refine (monotone_filter_right _ ?_).subperm
    intro t matched
    obtain ⟨v, seen⟩ := isSome_iff_exists.mp matched
    obtain ⟨u, found, -⟩ := bind_eq_some_iff.mp seen
    simp [userExists, found]
  · refine second.trans (.of_eq (filter_congr ?_))
    intro t _
    cases found : d.lookup (.user t.uid) <;> simp [userExists, found, force]

theorem settleRows_safe (ledger : Ledger w₀ w₁)
    (read : ∀ b ∈ rows, ∃ r, w₁.db.lookup (.usage b.id) = some r ∧ r.Reads b ∧ 0 < r.cost)
    (pooled : ∀ x ∈ xs, ∃ row, w₁.db.lookup (.temp x.tid) = some row ∧ row.userID = x.uid)
    (owing : ∀ x ∈ xs, 0 < x.take ∧ ∃ t ∈ totals rows, t.uid = x.uid)
    (within : ∀ t ∈ totals rows, drawnBy xs t.uid ≤ t.delta)
    (retried : ∀ e h w, (contract w₀).Safe t (concurrent e) h w) :
    (contract w₀).Safe t (settleRows lane w₁.db rows xs concurrent) {} w₁ := by
  apply tempDrawn_safe pooled (.start (fun k => .refl k _))
  intro drawn h w part progress
  refine chargeUsers_safe (fun t u u' set => ?_) progress ?_
  · simp only [debit] at set
    split at set
    · exact some.inj set ▸ rfl
    · cases set
  intro debited skipped h w order₁ _ progress
  refine chargeUsers_safe (fun t u u' set => some.inj set ▸ rfl) progress ?_
  intro forced skipped' h w order₂ all progress
  cases all (fun _ _ => rfl)
  refine marked_safe read progress ?_
  intro ms h w marks progress
  split
  · exact retried _ h w
  rename_i complete
  rw [ne_eq, not_not] at complete
  have whole : ms.Perm rows := marks.perm_of_length_le complete.ge
  intro w' later others _
  have progress := progress.later later
  have drawnOf : ∀ x ∈ drawn, userExists w₁.db x.uid = true ∧ ∃ t ∈ totals rows, t.uid = x.uid := by
    intro x member
    obtain ⟨row, found, owner⟩ := pooled x (part.subset member)
    exact ⟨owner ▸ ledger.owners x.tid row found, (owing x (part.subset member)).2⟩
  have within' : ∀ t ∈ totals rows, drawnBy drawn t.uid ≤ t.delta := fun t member =>
    (drawnBy_subperm part (fun x listed => (owing x listed).1) t.uid).trans (within t member)
  have order := charged_perm order₁ (by simpa using order₂)
  have missing : ∀ b ∈ rows, b ∈ ghosts rows (spill (totals rows) drawn) debited forced ↔
      userExists w₁.db b.uid = false := by
    intro b listed
    refine mem_ghosts_iff (userExists w₁.db) ?_ (fun x member => (drawnOf x member).1) order listed
    intro b listed
    obtain ⟨r, -, reads, positive⟩ := read b listed
    exact reads.cost ▸ positive
  refine progress.commit later.inv ?_ ?_ ?_ others
  · intro id
    simp [marksIn, whole.countP_eq]
  · intro uid
    have account := drawn_add_charged (userExists w₁.db) within' drawnOf uid
    rw [← chargedBy_perm order, chargedBy_append] at account
    simp only [map_cons, map_nil, sum_cons, sum_nil, movedIn, add_zero,
      owed_chargedRows _ missing, ← account]
    ring
  · intro e member
    cases mem_singleton.mp member
    refine ⟨complete, rfl, ?_⟩
    intro b listed
    obtain ⟨r, found, reads, -⟩ := read b listed
    obtain ⟨r', newest, uid, cost⟩ := progress.newest (.usage b.id) r found
    have same : userExists w₁.db b.uid = userExists (overlay w'.db h.writes) b.uid :=
      progress.newest (.user b.uid)
    exact ⟨same ▸ missing b listed, r', newest, uid.trans reads.uid, cost.trans reads.cost⟩

end

section

variable {w₀ : BillingWorld} {t : Task}

theorem settleOnce_safe {limit k bucket : Nat}
    (retried : ∀ e h w, (contract w₀).Safe t (concurrent e) h w) (w : BillingWorld) :
    (contract w₀).Safe t (settleOnce lane limit k bucket concurrent) {} w := by
  unfold settleOnce
  split
  · trivial
  intro w' _ w₁ later order
  refine settleRows_safe later.inv ?_ ?_ ?_ ?_ retried
  · intro b member
    obtain ⟨r, found, reads, -, positive, -⟩ :=
      mem_candidates.mp (mem_candidates_of_mem_batch member)
    exact ⟨r, found, reads, positive⟩
  · intro x member
    obtain ⟨-, row, found, owner, -⟩ := mem_takes member
    exact ⟨row, found, owner⟩
  · intro x member
    obtain ⟨owes, row, -, -, -, positive, -⟩ := mem_takes member
    exact ⟨positive, owes⟩
  · intro t member
    have owes : 0 < t.delta := by
      obtain ⟨⟨b, listed, same⟩, amount⟩ := mem_totals.mp member
      rw [amount, ← same]
      refine owed_pos (fun b listed => ?_) listed
      obtain ⟨r, -, reads, -, positive, -⟩ :=
        mem_candidates.mp (mem_candidates_of_mem_batch listed)
      exact reads.cost ▸ positive
    cases lane with
    | balance => exact owes.le
    | fefo =>
      rw [drawnBy_takes_fefo (totals_uids_nodup _) member]
      exact max_le owes.le (min_le_right _ _)

theorem settleBatch_safe (lane : Lane) (limit k bucket : Nat) (w : BillingWorld) :
    (contract w₀).Safe t (settleBatch lane limit k bucket) {} w := by
  unfold settleBatch
  split
  · intro w' later others _
    refine later.inv.commit (.nil RowBefore.refl) ?_ ?_ ?_ later.inv.owners others <;> simp
  · refine settleOnce_safe (fun e h w => ?_) w
    intro w' _
    refine settleOnce_safe (fun e h w => ?_) w'
    trivial

theorem fetchUnbilledBatch_reads {view : Rows} {limit : Nat} {b : BatchRow}
    (member : b ∈ fetchUnbilledBatch view limit) :
    ∃ r, view.lookup (.usage b.id) = some r ∧ r.Reads b := by
  have listed := (mem_insertionSort _).mp (mem_of_mem_take member)
  obtain ⟨⟨key, row⟩, entry, selected⟩ := mem_filterMap.mp listed
  cases key with
  | usage id =>
    dsimp only at selected
    split at selected
    · cases selected
      exact ⟨row, AList.mem_lookup_iff.mpr entry, rfl, rfl⟩
    · cases selected
  | user id | temp id => cases selected

def Free (w₁ : BillingWorld) (ids : List Nat) : Prop :=
  ∀ id ∈ ids, ∃ r, w₁.db.lookup (.usage id) = some r ∧ r.cost ≤ 0

theorem markBilledBulk_safe {w₁ w : BillingWorld} {ids : List Nat} (free : Free w₁ ids)
    (since : Advance w₁ w) : (contract w₀).Safe t (markBilledBulk ids) {} w := by
  intro w₂ moved
  apply safe_updateEach_done fun _ _ h w => Progress w₁ (fun _ => 0) (fun _ => 0) h w
  · exact fun progress later => progress.later later
  · intro k done n h w progress
    rwa [enter_eq]
  · intro k done n h w old new progress part newest set
    obtain ⟨id, member, rfl⟩ :=
      mem_map.mp (mem_of_mem_filter (part.subset mem_cons_self))
    obtain ⟨r, found, costless⟩ := free id member
    obtain ⟨old', newest', uid, cost⟩ := progress.newest (.usage id) r found
    cases newest.symm.trans newest'
    simp only [markBilled] at set
    split at set
    · cases set
    cases set
    refine progress.write newest (fun r found => ?_) trivial (fun uid => rfl) (fun id' => ?_)
    · exact ⟨_, rfl, some.inj found ▸ ⟨rfl, rfl⟩⟩
    · simp [billedMark, cost, not_lt.mpr costless]
  · intro _ n h w progress _ w' later others _
    have progress := progress.later later
    refine progress.commit later.inv (by simp [marksIn]) (by simp [movedIn]) ?_ others
    intro e member
    cases mem_singleton.mp member
    intro id listed
    obtain ⟨r, found, costless⟩ := free id listed
    obtain ⟨r', newest, -, cost⟩ := progress.newest (.usage id) r found
    exact ⟨r', newest, cost ▸ costless⟩
  · exact .start (since.trans moved.rely)

theorem sweepZeroCost_safe (w : BillingWorld) : (contract w₀).Safe t sweepZeroCost {} w := by
  intro w₁ later₁
  dsimp only
  split
  · intro w' later others _
    refine later.inv.commit (.nil RowBefore.refl) ?_ ?_ ?_ later.inv.owners others <;> simp
  · refine markBilledBulk_safe (fun id listed => ?_) (fun k => .refl k _)
    obtain ⟨b, chosen, rfl⟩ := mem_map.mp listed
    obtain ⟨fetched, costless⟩ := mem_filter.mp chosen
    obtain ⟨r, found, reads⟩ := fetchUnbilledBatch_reads fetched
    exact ⟨r, found, reads.cost ▸ of_decide_eq_true costless⟩

theorem insertBatch_safe (rows : List UsageRow) (w : BillingWorld) :
    (contract w₀).Safe t (insertBatch rows) {} w := by
  apply safe_forEach fun _ events h w' =>
    (∀ e ∈ events, ∃ id row, e = .inserted id row) ∧
      Progress w (fun _ => 0) (fun id => (events.map (marksIn id)).sum) h w'
  · rintro row rest events h w' next ⟨shape, progress⟩ continued
    refine safe_insertSerial trivial fun id w' later fresh => continued _ _ w' ⟨?_, ?_⟩
    · exact forall_mem_append.mpr ⟨shape, forall_mem_singleton.mpr ⟨id, row, rfl⟩⟩
    · refine (progress.later later).write fresh (fun r found => by cases found) trivial
        (fun uid => rfl) (fun j => ?_)
      simp [marksIn]
  · rintro events h w' ⟨shape, progress⟩ w'' later others _
    refine (progress.later later).commit later.inv (fun _ => rfl) ?_ ?_ others
    · intro uid
      symm
      apply sum_eq_zero
      intro amount listed
      obtain ⟨e, member, rfl⟩ := mem_map.mp listed
      obtain ⟨id, row, rfl⟩ := shape e member
      rfl
    · intro e member
      obtain ⟨id, row, rfl⟩ := shape e member
      trivial
  · exact ⟨by simp, .start fun k => .refl k _⟩

theorem updateUserBalance_safe (uid : Nat) (delta : Int) (w : BillingWorld) :
    (contract w₀).Safe t (updateUserBalance uid delta) {} w := by
  apply safe_updateWhere
  · exact fun _ _ => trivial
  · exact fun _ _ => trivial
  intro w₁ u u' later newest set
  cases set
  have progress : Progress w₁ (fun id => if uid = id then -delta else 0) (fun _ => 0)
      (Held.access system.guard {} (.user uid)
        (some (some { u with balance := u.balance + delta }))) w₁ := by
    refine (Progress.start (fun k => .refl k _)).write newest rfl trivial (fun id => ?_)
      (fun _ => rfl)
    simp only [weight_some, fundsOf]
    split <;> ring
  intro w' further others _
  refine (progress.later further).commit further.inv (by simp [marksIn]) ?_ (by simp [Event.Holds])
    others
  intro id
  simp only [map_cons, map_nil, sum_cons, sum_nil, movedIn]
  split <;> simp

theorem createTempBalance_safe (uid : Nat) (amount : Int) (expiresAt : Option Nat)
    (w : BillingWorld) : (contract w₀).Safe t (createTempBalance uid amount expiresAt) {} w := by
  intro w₁ _
  dsimp only
  split
  · trivial
  rename_i u found
  rw [overlay_nil] at found
  refine safe_insertSerial trivial fun tid w₂ later fresh => ?_
  rw [access_eq]
  intro w₃ further others _
  have fresh' : w₃.db.lookup (.temp tid) = none := (further.written (by simp)).trans fresh
  have present : userExists w₃.db uid = true := by
    have same : userExists w₁.db uid = userExists w₃.db uid :=
      (later.rely.trans further.rely) (.user uid)
    rw [← same, userExists, found, isSome_some]
  refine further.inv.commit ?_ ?_ ?_ (by simp [Event.Holds]) ?_ others
  · apply (Moves.nil RowBefore.refl).cons RowBefore.trans
    rw [overlay_nil, fresh']
    exact fun t found => by cases found
  · intro id
    rw [change_cons, overlay_nil, fresh', change_nil]
    rfl
  · intro id
    rw [change_cons, overlay_nil, fresh', change_nil]
    simp [movedIn, fundsOf]
  · intro tid' t there
    by_cases same : tid' = tid
    · subst same
      rw [overlay_cons, lookup_put_self] at there
      exact some.inj there ▸ present
    · rw [overlay_cons, lookup_put_of_ne _ (by simp [same])] at there
      exact further.inv.owners tid' t there

theorem task_safe (t : Task) (w : BillingWorld) : (contract w₀).Safe t (system.code t) {} w := by
  cases t with
  | settle lane limit k bucket => exact settleBatch_safe lane limit k bucket w
  | sweepZeroCost => exact sweepZeroCost_safe w
  | insertBatch rows => exact insertBatch_safe rows w
  | updateUserBalance uid delta => exact updateUserBalance_safe uid delta w
  | createTempBalance uid amount expiresAt => exact createTempBalance_safe uid amount expiresAt w

end

/-- Before the first transaction; every temporary balance belongs to a user. -/
structure Initial (σ : BillingState) : Prop where
  idle : σ.sessions = []
  fresh : σ.world.log = []
  owners : ∀ tid t, σ.world.db.lookup (.temp tid) = some t →
    userExists σ.world.db t.userID = true

def chargesIn (id : Nat) : Event → Nat
  | .settled rows ghosts _ => (chargedRows rows ghosts).countP (fun b => b.id == id)
  | _ => 0

def charges (log : List Event) (id : Nat) : Nat := (log.map (chargesIn id)).sum

def settlementsIn (id : Nat) : Event → Nat
  | .settled rows _ _ => rows.countP (fun b => b.id == id)
  | _ => 0

def settlements (log : List Event) (id : Nat) : Nat := (log.map (settlementsIn id)).sum

def bornIn (id : Nat) : Event → Bool
  | .inserted j row => j == id && row.billed && decide (0 < row.cost)
  | _ => false

/-- The row was billed before any settlement, at the start or when it was inserted. -/
def BornBilled (d₀ : Rows) (log : List Event) (id : Nat) : Prop :=
  (∃ r, d₀.lookup (.usage id) = some r ∧ r.billed = true ∧ 0 < r.cost) ∨ log.any (bornIn id) = true

theorem settlements_cons (e : Event) (log : List Event) (id : Nat) :
    settlements (e :: log) id = settlementsIn id e + settlements log id := by
  simp [settlements]

theorem sum_marksIn (log : List Event) (id : Nat) :
    (log.map (marksIn id)).sum = settlements log id + log.countP (bornIn id) := by
  induction log with
  | nil => rfl
  | cons e log ih =>
    have head : marksIn id e = settlementsIn id e + if bornIn id e then 1 else 0 := by
      cases e with
      | inserted j row =>
        simp [marksIn, settlementsIn, bornIn, billedMark, and_assoc]
      | _ => simp [marksIn, settlementsIn, bornIn]
    rw [map_cons, sum_cons, ih, head, countP_cons, settlements_cons]
    push_cast
    ring

theorem tally_billedMark (d : Rows) (id : Nat) :
    tally (billedMark id) d = weight (billedMark id) (.usage id) (d.lookup (.usage id)) := by
  apply tally_single
  intro k row _ different
  cases k with
  | usage j =>
    have other : ¬ j = id := fun same => different (same ▸ rfl)
    simp [billedMark, other]
  | _ => rfl

theorem charges_eq (ledger : Ledger w₀ w) {id : Nat} (found : w.db.lookup (.usage id) = some r) :
    charges w.log id = if userExists w.db r.uid then settlements w.log id else 0 := by
  have each : ∀ e ∈ w.log, chargesIn id e =
      if userExists w.db r.uid then settlementsIn id e else 0 := by
    intro e member
    cases e with
    | settled rows ghosts summary =>
      obtain ⟨-, -, reads⟩ := ledger.events _ member
      have same : ∀ b ∈ rows, b.id = id → (b ∈ ghosts ↔ userExists w.db r.uid = false) := by
        rintro b listed rfl
        obtain ⟨missing, r', found', read⟩ := reads b listed
        cases found.symm.trans found'
        rw [missing, read.uid]
      simp only [chargesIn, settlementsIn, chargedRows, countP_filter]
      split
      next present =>
        apply countP_congr
        intro b listed
        by_cases own : b.id = id
        · simp [own, same b listed own, present]
        · simp [own]
      next missing =>
        rw [countP_eq_zero]
        intro b listed
        by_cases own : b.id = id
        · simp [own, same b listed own, missing]
        · simp [own]
    | _ => simp [chargesIn, settlementsIn]
  unfold charges settlements
  rw [map_congr_left each]
  split <;> simp

theorem lane_bucket_unique {id : Nat} (now : Nat) {k : Nat} (buckets : 0 < k)
    (found : d.lookup (.usage id) = some r) (pending : r.pending = true) (positive : 0 < r.cost) :
    ∃! p : Lane × Nat, p.2 < k ∧ ∃ b ∈ candidates p.1 d now k p.2, b.id = id := by
  let lane : Lane := if tempActive d now r.uid then .fefo else .balance
  have admitted : ∀ lane', lane'.admits (tempActive d now r.uid) = true ↔ lane' = lane := by
    intro lane'
    cases active : tempActive d now r.uid <;> cases lane' <;> simp [lane, active, Lane.admits]
  refine ⟨(lane, r.uid % k), ⟨Nat.mod_lt _ buckets, ⟨id, r.uid, r.cost⟩, ?_, rfl⟩, ?_⟩
  · exact mem_candidates.mpr ⟨r, found, ⟨rfl, rfl⟩, pending, positive, rfl, (admitted lane).mpr rfl⟩
  · rintro ⟨lane', bucket⟩ ⟨-, b, member, rfl⟩
    obtain ⟨r', found', -, -, -, hash, admits⟩ := mem_candidates.mp member
    cases found.symm.trans found'
    rw [(admitted lane').mp admits, hash]

theorem settlements_eq (ledger : Ledger w₀ w) {id : Nat} (found : w.db.lookup (.usage id) = some r)
    (positive : 0 < r.cost) :
    weight (billedMark id) (.usage id) (w₀.db.lookup (.usage id)) +
        (settlements w.log id + w.log.countP (bornIn id)) = if r.billed then 1 else 0 := by
  have marks := ledger.marks id
  rw [tally_billedMark, tally_billedMark, found, sum_marksIn] at marks
  rw [← marks]
  simp [billedMark, positive]

theorem born_nonneg (d₀ : Rows) (id : Nat) :
    0 ≤ weight (billedMark id) (.usage id) (d₀.lookup (.usage id)) := by
  cases d₀.lookup (.usage id) with
  | none => exact le_refl _
  | some r =>
    simp only [weight_some, billedMark]
    split <;> simp

theorem bornBilled_iff (d₀ : Rows) (log : List Event) (id : Nat) :
    BornBilled d₀ log id ↔ 0 < weight (billedMark id) (.usage id) (d₀.lookup (.usage id)) ∨
        0 < log.countP (bornIn id) := by
  unfold BornBilled
  rw [countP_pos_iff, List.any_eq_true]
  refine or_congr ?_ Iff.rfl
  cases d₀.lookup (.usage id) with
  | none => simp
  | some r =>
    simp only [some.injEq, exists_eq_left', weight_some, billedMark]
    split
    next billed => exact ⟨fun _ => by simp, fun _ => billed.2⟩
    next unbilled => simpa using unbilled

/-- Whatever the interleaving of the consumers: a row with a cost is unbilled and
was never charged, or billed and, if its user exists, charged exactly once; all
money moved is that of the charged rows; every settled batch was marked whole;
every pending row is in one lane and bucket; the sweep only marks free rows. -/
theorem settles_exactly_once {σ₀ σ : BillingState} (initial : Initial σ₀)
    (reached : Reachable system (fun _ _ _ => True) σ₀ σ) :
    (∀ id r, σ.world.db.lookup (.usage id) = some r → 0 < r.cost →
      (r.billed = false → charges σ.world.log id = 0) ∧
      (r.billed = true → userExists σ.world.db r.uid = true →
        ¬ BornBilled σ₀.world.db σ.world.log id → charges σ.world.log id = 1) ∧
      (BornBilled σ₀.world.db σ.world.log id → charges σ.world.log id = 0) ∧
      (userExists σ.world.db r.uid = false → charges σ.world.log id = 0)) ∧
    (∀ uid, tally (fundsOf uid) σ.world.db =
      tally (fundsOf uid) σ₀.world.db + (σ.world.log.map (movedIn uid)).sum) ∧
    (∀ rows ghosts summary, .settled rows ghosts summary ∈ σ.world.log →
      summary.marked = rows.length ∧ summary.batchRows = rows.length) ∧
    (∀ now k id r, 0 < k → σ.world.db.lookup (.usage id) = some r → r.pending = true →
      0 < r.cost →
      ∃! p : Lane × Nat, p.2 < k ∧ ∃ b ∈ candidates p.1 σ.world.db now k p.2, b.id = id) ∧
    (∀ ids, .swept ids ∈ σ.world.log → ∀ id ∈ ids,
      ∃ r, σ.world.db.lookup (.usage id) = some r ∧ r.cost ≤ 0) := by
  have start : Ledger σ₀.world σ₀.world := by
    refine ⟨?_, ?_, ?_, initial.owners⟩ <;> simp [initial.fresh]
  have ledger : Ledger σ₀.world σ.world :=
    (contract σ₀.world).sound
      (fun w n ledger => ⟨⟨ledger.marks, ledger.funds, ledger.events, ledger.owners⟩,
        fun _ k => .refl k _, fun _ => trivial⟩)
      (fun t w _ => task_safe t w) initial.idle start reached
  refine ⟨?_, ledger.funds, ?_, ?_, ?_⟩
  · intro id r found positive
    have total := settlements_eq ledger found positive
    have born := born_nonneg σ₀.world.db id
    have charged := charges_eq ledger found
    refine ⟨?_, ?_, ?_, ?_⟩
    · intro unbilled
      rw [unbilled, if_neg (by simp)] at total
      have none : settlements σ.world.log id = 0 := by omega
      rw [charged, none, ite_self]
    · intro billed present fresh
      rw [bornBilled_iff, not_or] at fresh
      rw [billed, if_pos rfl] at total
      rw [charged, if_pos present]
      omega
    · intro bornBilled
      rw [bornBilled_iff] at bornBilled
      have none : settlements σ.world.log id = 0 := by omega
      rw [charged, none, ite_self]
    · intro missing
      rw [charged, missing, if_neg (by simp)]
  · intro rows ghosts summary member
    obtain ⟨complete, size, -⟩ := ledger.events _ member
    exact ⟨complete.trans size, size⟩
  · intro now k id r buckets found pending positive
    exact lane_bucket_unique now buckets found pending positive
  · exact fun ids member => ledger.events _ member

def sampleState : BillingState :=
  let users : Rows := (∅ : Rows).insert (.user 1) ({ balance := 10 } : User)
  { world := { db := users.insert (.usage 1) ({ userID := some 1, cost := 4 } : UsageRow) } }

/-- Two consumers read the same batch; the second waits for the first, finds the
row billed, rolls back and tries again. -/
def raceLabels : List (Label Task) :=
  [.start (.settle .balance 10 1 0), .start (.settle .balance 10 1 0)] ++
    replicate 6 (.act 0 0) ++ replicate 5 (.act 1 0) ++ replicate 4 (.act 0 0) ++
    replicate 13 (.act 1 0)

theorem sampleState_initial : Initial sampleState := by
  refine ⟨rfl, rfl, ?_⟩
  intro tid t found
  cases found

theorem settles_exactly_once_race :
    ∃ σ, Initial sampleState ∧ Reachable system (fun _ _ _ => True) sampleState σ ∧
      charges σ.world.log 1 = 1 := by
  have ran : (run system (fun _ _ => true) sampleState raceLabels).map
      (fun σ => (σ.world.db.lookup (.usage 1), userExists σ.world.db 1,
        σ.world.log.any (bornIn 1))) =
      some (some { userID := some 1, cost := 4, billed := true }, true, false) := by
    decide +kernel
  obtain ⟨σ, raced, facts⟩ := map_eq_some_iff.mp ran
  simp only [Prod.mk.injEq] at facts
  obtain ⟨found, present, fresh⟩ := facts
  have reached := run_reachable (fun _ _ _ _ => trivial) _ .refl raced
  have once := (settles_exactly_once sampleState_initial reached).1 1 _ found (by decide)
  refine ⟨σ, sampleState_initial, reached, once.2.1 rfl present ?_⟩
  rintro (⟨r, before, billed, -⟩ | inserted)
  · cases before
    cases billed
  · rw [fresh] at inserted
    cases inserted

def ghostState : BillingState :=
  { world := { db := (∅ : Rows).insert (.usage 1) ({ userID := none, cost := 5 } : UsageRow) } }

/-- A row whose user does not exist is billed and never charged. -/
theorem ghost_billed_uncharged :
    ∃ σ r, Initial ghostState ∧ Reachable system (fun _ _ _ => True) ghostState σ ∧
      σ.world.db.lookup (.usage 1) = some r ∧ 0 < r.cost ∧ r.billed = true ∧
      ¬ BornBilled ghostState.world.db σ.world.log 1 ∧ charges σ.world.log 1 = 0 := by
  have ran : (run system (fun _ _ => true) ghostState
      (.start (.settle .balance 10 1 0) :: replicate 9 (.act 0 0))).map
      (fun σ => (σ.world.db.lookup (.usage 1), σ.world.log.any (bornIn 1), charges σ.world.log 1)) =
      some (some { userID := none, cost := 5, billed := true }, false, 0) := by
    decide +kernel
  obtain ⟨σ, ran, facts⟩ := map_eq_some_iff.mp ran
  simp only [Prod.mk.injEq] at facts
  obtain ⟨found, fresh, uncharged⟩ := facts
  refine ⟨σ, _, ⟨rfl, rfl, ?_⟩, run_reachable (fun _ _ _ _ => trivial) _ .refl ran, found, by decide,
    rfl, ?_, uncharged⟩
  · intro tid t found
    cases found
  · rintro (⟨r, before, billed, -⟩ | inserted)
    · cases before
      cases billed
    · rw [fresh] at inserted
      cases inserted

end C3Api.Billing.Settle
