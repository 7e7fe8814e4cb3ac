import C3Api.Billing.Fefo
import C3Api.Billing.SettleOnce

/-!
# A settlement that runs alone

Without concurrent writers and with the clock fixed, a call of either lane always
commits, and what it marks, draws and charges is a function of the table.
-/

namespace C3Api.Billing.Settle

open ReadCommitted List Option Charged

section

theorem map_filterMap_sublist {B : Type} {g : Sigma Row → Option B} {key : B → Key}
    (keyed : ∀ entry b, g entry = some b → key b = entry.1) (entries : List (Sigma Row)) :
    ((entries.filterMap g).map key).Sublist entries.keys := by
  induction entries with
  | nil => exact .slnil
  | cons entry entries ih =>
    rw [filterMap_cons, keys_cons]
    cases chosen : g entry with
    | none => exact ih.cons _
    | some b =>
      rw [map_cons, keyed entry b chosen]
      exact ih.cons_cons _

variable {lane : Lane} {order : Nat} {d : Rows} {now limit k bucket : Nat}

theorem batch_keys_nodup :
    ((batch lane d now limit k bucket).map (fun b => Key.usage b.id)).Nodup := by
  have all : ((candidates lane d now k bucket).map (fun b => Key.usage b.id)).Nodup := by
    refine List.Nodup.sublist (map_filterMap_sublist ?_ d.entries) d.nodupKeys
    rintro ⟨key, row⟩ b chosen
    cases key with
    | usage id =>
      dsimp only at chosen
      split at chosen
      · exact some.inj chosen ▸ rfl
      · cases chosen
    | user id | temp id => cases chosen
  have sorted := ((perm_insertionSort (fun a b : BatchRow => a.id ≤ b.id)
    (candidates lane d now k bucket)).map (fun b => Key.usage b.id)).nodup_iff.mpr all
  exact sorted.sublist ((take_sublist _ _).map _)

theorem tempPool_keys_nodup : ((tempPool order d now).map (fun p => Key.temp p.tid)).Nodup := by
  apply ((((perm_insertionSort _ _).trans (reorder_perm _ _)).map _).nodup_iff).mpr
  refine List.Nodup.sublist (map_filterMap_sublist ?_ d.entries) d.nodupKeys
  rintro ⟨key, row⟩ p chosen
  cases key with
  | temp tid =>
    dsimp only at chosen
    split at chosen
    · exact some.inj chosen ▸ rfl
    · cases chosen
  | user id | usage id => cases chosen

theorem takesFrom_tids_sublist (delta cum : Int) (ps : List PoolRow) :
    ((takesFrom delta cum ps).map (fun x => Key.temp x.tid)).Sublist
      (ps.map (fun p => Key.temp p.tid)) := by
  induction ps generalizing cum with
  | nil => exact .slnil
  | cons p ps ih =>
    simp only [takesFrom, map_cons]
    split
    · exact (ih _).cons_cons _
    · exact (ih _).cons _

theorem takes_keys_nodup {owing : List Total} (distinct : (owing.map Total.uid).Nodup) :
    ((takes lane order d now owing).map (fun x => Key.temp x.tid)).Nodup := by
  cases lane with
  | balance => exact nodup_nil
  | fefo =>
    change ((owing.flatMap fun t => takesFrom t.delta 0 (poolOf order d now t.uid)).map
      (fun x => Key.temp x.tid)).Nodup
    rw [map_flatMap, nodup_flatMap]
    refine ⟨?_, ?_⟩
    · intro t _
      exact (tempPool_keys_nodup.sublist (filter_sublist.map _)).sublist
        (takesFrom_tids_sublist _ _ _)
    · apply (pairwise_map.mp distinct).imp
      intro t u different key first second
      obtain ⟨x, taken, rfl⟩ := mem_map.mp first
      obtain ⟨y, taken', same⟩ := mem_map.mp second
      obtain ⟨p, pooled, covers⟩ := mem_takesFrom poolOf_pos taken
      obtain ⟨q, pooled', covers'⟩ := mem_takesFrom poolOf_pos taken'
      have tid : q.tid = p.tid := by
        rw [← covers.tid, ← covers'.tid]
        exact Key.temp.inj same
      have equal : q = p := inj_on_of_nodup_map tempPool_keys_nodup
        (mem_of_mem_filter pooled') (mem_of_mem_filter pooled) (congrArg Key.temp tid)
      apply different
      rw [← takesFrom_uid taken, ← takesFrom_uid taken', covers.uid, covers'.uid, equal]

end

section

variable {d : Rows}

variable {xs : List Take} {ts : List Total} {rows : List BatchRow} {k : Key}

theorem drawn_eq (acc : List Take)
    (fits : ∀ x ∈ xs, ((d.lookup (.temp x.tid)).bind (drawTemp x)).isSome = true) :
    xs.foldl (collected (κ := fun x : Take => Key.temp x.tid) drawTemp (fun x _ drawn => x :: drawn) d)
      acc = xs.reverse ++ acc := by
  induction xs generalizing acc with
  | nil => rfl
  | cons x xs ih =>
    obtain ⟨t, drew⟩ := isSome_iff_exists.mp (fits x mem_cons_self)
    rw [foldl_cons, collected_of_some drew, reverse_cons, append_assoc]
    exact ih _ (forall_mem_cons.mp fits).2

def chargedRow (t : Total) (u : User) (charged : List Charged) : List Charged :=
  { uid := t.uid, balanceAfter := u.balance, delta := t.delta,
    threshold := u.balanceWarningThreshold, email := u.email } :: charged

variable {set : Total → User → Option User} {ys : List Take} {overdraft : Nat → Bool}

theorem charged_eq (acc : List Charged)
    (matched : ∀ t ∈ ts, ((d.lookup (.user t.uid)).bind (set t)).isSome = true) :
    (ts.foldl (collected (κ := fun t : Total => Key.user t.uid) set chargedRow d) acc).map
      total = ts.reverse ++ acc.map total := by
  induction ts generalizing acc with
  | nil => rfl
  | cons t ts ih =>
    obtain ⟨u, charged⟩ := isSome_iff_exists.mp (matched t mem_cons_self)
    rw [foldl_cons, collected_of_some charged, reverse_cons, append_assoc,
      ih _ (forall_mem_cons.mp matched).2]
    rfl

theorem counted_eq {set : BatchRow → UsageRow → Option UsageRow} (n : Nat)
    (matched : ∀ b ∈ rows, ((d.lookup (.usage b.id)).bind (set b)).isSome = true) :
    rows.foldl (collected (κ := fun b : BatchRow => Key.usage b.id) set (fun _ _ n => n + 1) d) n =
      n + rows.length := by
  induction rows generalizing n with
  | nil => rfl
  | cons b rows ih =>
    obtain ⟨r, changed⟩ := isSome_iff_exists.mp (matched b mem_cons_self)
    rw [foldl_cons, collected_of_some changed, ih _ (forall_mem_cons.mp matched).2, length_cons]
    ring

def drawWrites (d : Rows) (xs : List Take) : Writes Row :=
  xs.filterMap (written (κ := fun x : Take => Key.temp x.tid) drawTemp d)

def chargeWrites (set : Total → User → Option User) (d : Rows) (ts : List Total) : Writes Row :=
  ts.filterMap (written (κ := fun t : Total => Key.user t.uid) set d)

def markWrites (overdraft : Nat → Bool) (d : Rows) (rows : List BatchRow) : Writes Row :=
  rows.filterMap (written (κ := fun b : BatchRow => Key.usage b.id)
    (fun b => markRow (overdraft b.uid)) d)

theorem tempDrawn_solo (choices : Nat → Nat) (now : Nat)
    (fits : ∀ x ∈ xs, ((d.lookup (.temp x.tid)).bind (drawTemp x)).isSome = true)
    (tids : (xs.map (fun x => Key.temp x.tid)).Nodup) :
    ∃ ys, ys.Perm xs ∧ ∀ next : List Take → Tx, (tempDrawn xs next).solo choices now d [] =
      (next ys).solo (fun n => choices (n + 1)) now d (drawWrites d ys) := by
  refine ⟨(reorder (choices 0) xs).reverse, (reverse_perm _).trans (reorder_perm _ _), ?_⟩
  intro next
  unfold tempDrawn
  rw [solo_updateEach tids (by simp), drawn_eq [] (fun x member =>
    fits x ((reorder_perm _ _).subset member)), append_nil, append_nil, drawWrites,
    filterMap_reverse]

theorem user_keys_nodup (distinct : (ts.map Total.uid).Nodup) :
    (ts.map (fun t => Key.user t.uid)).Nodup := by
  have both := distinct.map (f := Key.user) (fun _ _ same => Key.user.inj same)
  rwa [List.map_map] at both

theorem chargeUsers_solo (set : Total → User → Option User) (ts : List Total)
    (choices : Nat → Nat) (now : Nat) (ws : Writes Row)
    (distinct : (ts.map Total.uid).Nodup) (fresh : ∀ t ∈ ts, Key.user t.uid ∉ writtenKeys ws) :
    ∃ charged, (charged.map total).Perm
        (ts.filter (fun t => ((d.lookup (.user t.uid)).bind (set t)).isSome)) ∧
      ∀ next : List Charged → Tx, (chargeUsers set d ts next).solo choices now d ws =
        (next charged).solo (fun n => choices (n + 1)) now d
          (chargeWrites set d (charged.map total) ++ ws) := by
  let selected := ts.filter (fun t => ((d.lookup (.user t.uid)).bind (set t)).isSome)
  have order : (reorder (choices 0) selected).Perm selected := reorder_perm _ _
  let charged := (reorder (choices 0) selected).foldl
    (collected (κ := fun t : Total => Key.user t.uid) set chargedRow d) []
  have total : charged.map total = (reorder (choices 0) selected).reverse := by
    rw [charged_eq [] (fun t member => (mem_filter.mp (order.subset member)).2), map_nil,
      append_nil]
  have keys : (selected.map (fun t => Key.user t.uid)).Nodup :=
    List.Nodup.sublist (filter_sublist.map _) (user_keys_nodup distinct)
  refine ⟨charged, ?_, ?_⟩
  · rw [total]
    exact (reverse_perm _).trans order
  · intro next
    unfold chargeUsers chargeWrites
    rw [solo_updateEach keys (fun t member => fresh t (mem_of_mem_filter member)),
      ← filterMap_reverse, total]
    rfl

theorem marked_solo (forced : List Charged) (choices : Nat → Nat) (now : Nat) (ws : Writes Row)
    (unbilled : ∀ b ∈ rows, ∃ r, d.lookup (.usage b.id) = some r ∧ r.billed = false)
    (ids : (rows.map (fun b => Key.usage b.id)).Nodup)
    (fresh : ∀ b ∈ rows, Key.usage b.id ∉ writtenKeys ws) :
    ∃ bs, bs.Perm rows ∧ ∀ next : Nat → Tx, (marked rows forced next).solo choices now d ws =
      (next rows.length).solo (fun n => choices (n + 1)) now d
        (markWrites (isCharged forced) d bs ++ ws) := by
  have order := reorder_perm (choices 0) rows
  refine ⟨(reorder (choices 0) rows).reverse, (reverse_perm _).trans order, ?_⟩
  intro next
  unfold marked markWrites
  rw [solo_updateEach ids fresh, counted_eq 0, zero_add, order.length_eq, filterMap_reverse]
  intro b member
  obtain ⟨r, found, open'⟩ := unbilled b (order.subset member)
  simp [found, markRow, open']

theorem chargeWrites_debit
    (debitable : ∀ t ∈ ts, ((d.lookup (.user t.uid)).bind (debit t)).isSome = true) :
    chargeWrites debit d ts = chargeWrites force d ts := by
  apply filterMap_congr
  intro t member
  have able := debitable t member
  unfold written
  cases found : d.lookup (.user t.uid) with
  | none => rfl
  | some u =>
    rw [found, bind_some, debit] at able
    rw [bind_some, bind_some, debit, force]
    split at able
    next enough => rw [if_pos enough]
    · cases able

theorem chargeWrites_present (ts : List Total) :
    chargeWrites force d (ts.filter (fun t => userExists d t.uid)) = chargeWrites force d ts := by
  unfold chargeWrites
  rw [filterMap_filter]
  apply filterMap_congr
  intro t _
  cases found : d.lookup (.user t.uid) <;> simp [userExists, written, found]

theorem drawnBy_perm (order : xs.Perm ys) (uid : Nat) :
    drawnBy xs uid = drawnBy ys uid := ((order.filter _).map _).sum_eq

theorem spill_perm {owing : List Total} (order : xs.Perm ys) : spill owing xs = spill owing ys := by
  unfold spill
  simp only [drawnBy_perm order]

/-- The rows that a settlement of this batch writes. -/
def settleWrites (overdraft : Nat → Bool) (d : Rows) (rows : List BatchRow) (xs : List Take) :
    Writes Row :=
  markWrites overdraft d rows ++ (chargeWrites force d (spill (totals rows) xs) ++ drawWrites d xs)

theorem settleWrites_nodup (tids : (xs.map (fun x => Key.temp x.tid)).Nodup)
    (ids : (rows.map (fun b => Key.usage b.id)).Nodup) :
    (writtenKeys (settleWrites overdraft d rows xs)).Nodup := by
  unfold settleWrites
  rw [writtenKeys_append, writtenKeys_append]
  refine List.Nodup.append (nodup_written ids) (List.Nodup.append (nodup_written ?_)
    (nodup_written tids) ?_) ?_
  · exact user_keys_nodup (spill_uids_nodup (totals_uids_nodup rows) xs)
  · intro k first
    obtain ⟨t, -, rfl, -⟩ := mem_writtenKeys_written.mp first
    exact notMem_written (by simp)
  · intro k first second
    obtain ⟨b, -, rfl, -⟩ := mem_writtenKeys_written.mp first
    rcases mem_append.mp second with charged | drawn
    · exact notMem_written (by simp) charged
    · exact notMem_written (by simp) drawn

theorem chargeWrites_perm {debited forced : List Charged}
    (first : (debited.map total).Perm
      ((spill (totals rows) xs).filter
        (fun t => ((d.lookup (.user t.uid)).bind (debit t)).isSome)))
    (second : (forced.map total).Perm
      (((spill (totals rows) xs).filter (fun t => !isCharged debited t.uid)).filter
        (fun t => ((d.lookup (.user t.uid)).bind (force t)).isSome))) :
    (chargeWrites force d (forced.map total) ++ chargeWrites debit d (debited.map total)).Perm
      (chargeWrites force d (spill (totals rows) xs)) := by
  have whole : (debited.map total ++ []).Perm
      ((spill (totals rows) xs).filter
        (fun t => ((d.lookup (Key.user t.uid)).bind (debit t)).isSome)) := by
    rw [append_nil]
    exact first
  have order := charged_perm whole second
  have debitable : ∀ t ∈ debited.map total,
      ((d.lookup (.user t.uid)).bind (debit t)).isSome = true := fun t member =>
    (mem_filter.mp (first.subset member)).2
  rw [chargeWrites_debit debitable, ← chargeWrites_present (spill (totals rows) xs)]
  apply perm_append_comm.trans
  unfold chargeWrites
  rw [← filterMap_append]
  exact order.filterMap _

/-- A settlement on its own succeeds, and this is what it writes. -/
theorem settleRows_solo (lane : Lane) (concurrent : BillingError → Tx) (choices : Nat → Nat)
    (now : Nat) (fits : ∀ x ∈ xs, ((d.lookup (.temp x.tid)).bind (drawTemp x)).isSome = true)
    (tids : (xs.map (fun x => Key.temp x.tid)).Nodup)
    (unbilled : ∀ b ∈ rows, ∃ r, d.lookup (.usage b.id) = some r ∧ r.billed = false)
    (ids : (rows.map (fun b => Key.usage b.id)).Nodup) :
    ∃ ws ghosts summary overdraft, (settleRows lane d rows xs concurrent).solo choices now d [] =
        some (ws, [.settled rows ghosts summary]) ∧ summary.marked = rows.length ∧
      ws.Perm (settleWrites overdraft d rows xs) := by
  obtain ⟨ys, order, drew⟩ := tempDrawn_solo choices now fits tids
  have distinct := spill_uids_nodup (totals_uids_nodup rows) ys
  obtain ⟨debited, order₁, charged⟩ := chargeUsers_solo debit (spill (totals rows) ys)
    (fun n => choices (n + 1)) now (drawWrites d ys) distinct
    (fun t _ => notMem_written (by simp))
  have unpaid : ∀ t ∈ (spill (totals rows) ys).filter (fun t => !isCharged debited t.uid),
      Key.user t.uid ∉
        writtenKeys (chargeWrites debit d (debited.map total) ++ drawWrites d ys) := by
    intro t listed member
    rw [writtenKeys_append] at member
    rcases mem_append.mp member with early | drawn
    · obtain ⟨u, paid, same, -⟩ := mem_writtenKeys_written.mp early
      have done := isCharged_iff.mpr ⟨u, paid, Key.user.inj same⟩
      simp [done] at listed
    · exact notMem_written (by simp) drawn
  obtain ⟨forced, order₂, charged'⟩ := chargeUsers_solo force _ (fun n => choices (n + 1 + 1)) now _
    (distinct.sublist (filter_sublist.map _)) unpaid
  have unmarked : ∀ b ∈ rows, Key.usage b.id ∉
      writtenKeys (chargeWrites force d (forced.map total) ++
        (chargeWrites debit d (debited.map total) ++ drawWrites d ys)) := by
    intro b _ member
    rw [writtenKeys_append, writtenKeys_append] at member
    rcases mem_append.mp member with late | rest
    · exact notMem_written (by simp) late
    rcases mem_append.mp rest with early | drawn
    · exact notMem_written (by simp) early
    · exact notMem_written (by simp) drawn
  obtain ⟨bs, order₃, marks⟩ := marked_solo forced (fun n => choices (n + 1 + 1 + 1)) now _ unbilled
    ids unmarked
  refine ⟨markWrites (isCharged forced) d bs ++ (chargeWrites force d (forced.map total) ++
    (chargeWrites debit d (debited.map total) ++ drawWrites d ys)),
    ghosts rows (spill (totals rows) ys) debited forced,
    summarize rows (spill (totals rows) ys) debited forced rows.length, isCharged forced, ?_, rfl,
    ?_⟩
  · unfold settleRows
    rw [drew, charged, charged', marks]
    simp [Prog.solo]
  · unfold settleWrites
    rw [← spill_perm order]
    apply (order₃.filterMap _).append
    rw [← append_assoc]
    exact (chargeWrites_perm order₁ order₂).append (order.filterMap _)

end

structure Call where
  lane : Lane
  limit : Nat
  k : Nat
  bucket : Nat
  choices : Nat → Nat := fun _ => 0

def Call.Valid (c : Call) : Prop := 0 < c.limit ∧ 0 < c.k

def Call.solo (c : Call) (now : Nat) (d : Rows) : Option (Writes Row × List Event) :=
  (settleBatch c.lane c.limit c.k c.bucket).solo c.choices now d []

def settleCall (now : Nat) (d : Rows) (c : Call) : Rows :=
  match c.solo now d with
  | some (ws, _) => overlay d ws
  | none => d

def Event.marked : Event → Nat
  | .settled _ _ summary => summary.marked
  | _ => 0

/-- The number of rows that the call reports as marked. -/
def Call.progress (c : Call) (now : Nat) (d : Rows) : Nat :=
  match c.solo now d with
  | some (_, events) => (events.map Event.marked).sum
  | none => 0

def Call.rows (c : Call) (now : Nat) (d : Rows) : List BatchRow :=
  batch c.lane d now c.limit c.k c.bucket

def Call.takes (c : Call) (now : Nat) (d : Rows) : List Take :=
  Settle.takes c.lane (c.choices 0) d now (totals (c.rows now d))

variable {c : Call} {now : Nat} {d : Rows}

theorem Call.rows_read {b : BatchRow} (member : b ∈ c.rows now d) :
    ∃ r, d.lookup (.usage b.id) = some r ∧ r.Reads b ∧ r.pending = true ∧ 0 < r.cost := by
  obtain ⟨r, found, reads, pending, positive, -⟩ :=
    mem_candidates.mp (mem_candidates_of_mem_batch member)
  exact ⟨r, found, reads, pending, positive⟩

theorem Call.takes_fit {x : Take} (member : x ∈ c.takes now d) :
    ∃ t, d.lookup (.temp x.tid) = some t ∧ t.userID = x.uid ∧ t.active now = true ∧
      0 < x.take ∧ x.take ≤ t.amount :=
  (mem_takes member).2

section

variable (now : Nat) (d : Rows) (valid : c.Valid)

include valid

theorem Call.solo_eq :
    ∃ ws ghosts summary overdraft, c.solo now d = some (ws, [.settled (c.rows now d) ghosts summary]) ∧
      summary.marked = (c.rows now d).length ∧ (writtenKeys ws).Nodup ∧
      ws.Perm (settleWrites overdraft d (c.rows now d) (c.takes now d)) := by
  have fits : ∀ x ∈ c.takes now d, ((d.lookup (.temp x.tid)).bind (drawTemp x)).isSome = true := by
    intro x member
    obtain ⟨t, found, -, -, -, enough⟩ := c.takes_fit member
    simp [found, drawTemp, enough]
  have unbilled : ∀ b ∈ c.rows now d, ∃ r, d.lookup (.usage b.id) = some r ∧ r.billed = false := by
    intro b member
    obtain ⟨r, found, -, pending, -⟩ := c.rows_read member
    exact ⟨r, found, pending_not_billed pending⟩
  have tids : ((c.takes now d).map (fun x => Key.temp x.tid)).Nodup :=
    takes_keys_nodup (totals_uids_nodup _)
  have ids : ((c.rows now d).map (fun b => Key.usage b.id)).Nodup := batch_keys_nodup
  obtain ⟨ws, ghosts, summary, overdraft, ran, count, order⟩ := settleRows_solo c.lane
    (fun _ => .rollback _) (fun n => c.choices (n + 1)) now fits tids unbilled ids
  refine ⟨ws, ghosts, summary, overdraft, ?_, count, ?_, order⟩
  · unfold Call.solo settleBatch
    rw [if_neg valid.1.ne.symm]
    conv_lhs => unfold settleOnce
    rw [if_neg valid.2.ne.symm]
    exact ran
  · exact (order.map Sigma.fst).nodup_iff.mpr (settleWrites_nodup tids ids)

theorem settleCall_eq :
    ∃ ws overdraft, settleCall now d c = overlay d ws ∧ (writtenKeys ws).Nodup ∧
      ws.Perm (settleWrites overdraft d (c.rows now d) (c.takes now d)) := by
  obtain ⟨ws, ghosts, summary, overdraft, ran, -, distinct, order⟩ := Call.solo_eq now d valid
  refine ⟨ws, overdraft, ?_, distinct, order⟩
  unfold settleCall
  rw [ran]

theorem Call.progress_eq : c.progress now d = (c.rows now d).length := by
  obtain ⟨ws, ghosts, summary, overdraft, ran, count, -, -⟩ := Call.solo_eq now d valid
  unfold Call.progress
  rw [ran, ← count]
  rfl

end

def dueShare (uid : Nat) : (k : Key) → Row k → Int
  | .usage _, r => if r.uid = uid ∧ r.pending = true ∧ 0 < r.cost then r.cost else 0
  | _, _ => 0

def due (d : Rows) (uid : Nat) : Int := tally (dueShare uid) d

theorem owed_eq_sum (rows : List BatchRow) (uid : Nat) :
    owed rows uid = (rows.map fun b => if b.uid = uid then b.cost else 0).sum := by
  simp [owed, sum_map_ite]

theorem drawnUntil_eq_sum (d : Rows) (e : Option Nat) (xs : List Take) (uid : Nat) :
    drawnUntil d e xs uid =
      (xs.map fun x => if x.uid = uid ∧ takesBy d e x = true then x.take else 0).sum := by
  simp [drawnUntil, drawnBy, sum_map_ite]

theorem sum_neg_map {A : Type} (f : A → Int) (xs : List A) :
    (xs.map fun x => -f x).sum = -(xs.map f).sum := by
  rw [sum_neg, List.map_map]
  rfl

def moved (q : (k : Key) → Row k → Int) (d : Rows) (ws : Writes Row) : Int :=
  (ws.map fun write => weight q write.1 write.2 - weight q write.1 (d.lookup write.1)).sum

theorem tally_settleCall (now : Nat) (d : Rows) (valid : c.Valid) :
    ∃ overdraft, ∀ q, tally q (settleCall now d c) = tally q d +
      (moved q d (markWrites overdraft d (c.rows now d)) +
        (moved q d (chargeWrites force d (spill (totals (c.rows now d)) (c.takes now d))) +
          moved q d (drawWrites d (c.takes now d)))) := by
  obtain ⟨ws, overdraft, same, distinct, order⟩ := settleCall_eq now d valid
  refine ⟨overdraft, fun q => ?_⟩
  rw [same, tally_overlay, change_of_nodup q d distinct, (order.map _).sum_eq]
  simp only [moved, settleWrites, map_append, sum_append]

theorem markRow_of_pending {overdraft : Bool} {r : UsageRow} (pending : r.pending = true) :
    markRow overdraft r = some { r with billed := true, overdraft } := by
  simp [markRow, pending_not_billed pending]

/-- A sum over the rows still to settle loses the rows of the call. -/
theorem tally_settleCall_pending (now : Nat) (d : Rows) (valid : c.Valid)
    {q : (k : Key) → Row k → Int} {share : BatchRow → Int} (value : UsageRow → Int)
    (usage : ∀ id (r : UsageRow), q (.usage id) r =
      if r.pending = true ∧ 0 < r.cost then value r else 0)
    (user : ∀ id u, q (.user id) u = 0) (temp : ∀ id t, q (.temp id) t = 0)
    (read : ∀ b r, UsageRow.Reads r b → value r = share b) :
    tally q (settleCall now d c) = tally q d - ((c.rows now d).map share).sum := by
  obtain ⟨overdraft, total⟩ := tally_settleCall now d valid
  have marks : moved q d (markWrites overdraft d (c.rows now d)) =
      ((c.rows now d).map fun b => -share b).sum := by
    apply sum_written q _
    intro b member
    obtain ⟨r, found, reads, pending, positive⟩ := c.rows_read member
    refine ⟨_, by rw [found, bind_some, markRow_of_pending pending], ?_⟩
    rw [found, weight_some, usage, usage, ← read b r reads,
      if_pos (c := _ ∧ 0 < r.cost) ⟨pending, positive⟩]
    simp [UsageRow.pending]
  have charges : moved q d
      (chargeWrites force d (spill (totals (c.rows now d)) (c.takes now d))) = 0 :=
    sum_written_eq_zero _ fun _ _ => user _
  have draws : moved q d (drawWrites d (c.takes now d)) = 0 :=
    sum_written_eq_zero _ fun _ _ => temp _
  rw [total, marks, charges, draws, sum_neg_map]
  ring

theorem due_settleCall (valid : c.Valid) (uid : Nat) :
    due (settleCall now d c) uid = due d uid - owed (c.rows now d) uid := by
  rw [owed_eq_sum]
  refine tally_settleCall_pending now d valid (fun r => if r.uid = uid then r.cost else 0)
    (fun id r => ?_) (fun _ _ => rfl) (fun _ _ => rfl) fun b r reads => ?_
  · simp only [dueShare, ← ite_and, and_comm]
  · rw [reads.uid, reads.cost]

theorem pool_settleCall_drawn (valid : c.Valid) (uid : Nat) (e : Option Nat) :
    pool now (settleCall now d c) uid e =
      pool now d uid e - drawnUntil d e (c.takes now d) uid := by
  obtain ⟨overdraft, total⟩ := tally_settleCall now d valid
  have marks : moved (poolShare now uid e) d (markWrites overdraft d (c.rows now d)) = 0 :=
    sum_written_eq_zero _ (fun _ _ _ => rfl)
  have charges : moved (poolShare now uid e) d
      (chargeWrites force d (spill (totals (c.rows now d)) (c.takes now d))) = 0 :=
    sum_written_eq_zero _ (fun _ _ _ => rfl)
  have draws : moved (poolShare now uid e) d (drawWrites d (c.takes now d)) =
      ((c.takes now d).map fun x =>
        -(if x.uid = uid ∧ takesBy d e x = true then x.take else 0)).sum := by
    apply sum_written (poolShare now uid e) _
    intro x member
    obtain ⟨t, found, owner, active, positive, enough⟩ := c.takes_fit member
    refine ⟨{ t with amount := t.amount - x.take }, by simp [found, drawTemp, enough], ?_⟩
    rw [found, weight_some]
    have early : takesBy d e x = expiresBy t.expiresAt e := by simp [takesBy, found]
    rw [early]
    have fresh : t.expiresAt.all (fun moment => decide (now < moment)) = true := by
      simp only [TempBalance.active, Bool.and_eq_true] at active
      exact active.2
    simp only [poolShare, owner, active, true_and]
    simp only [TempBalance.active, fresh, Bool.and_true, decide_eq_true_eq]
    by_cases same : x.uid = uid <;> by_cases by_e : expiresBy t.expiresAt e = true <;>
      simp only [same, by_e, true_and, and_true, false_and, if_true, if_false]
    · split <;> omega
    all_goals simp
  unfold pool at *
  rw [total, marks, charges, draws, drawnUntil_eq_sum, sum_neg_map]
  ring

theorem owed_nonneg (c : Call) (now : Nat) (d : Rows) (uid : Nat) :
    0 ≤ owed (c.rows now d) uid := by
  rw [owed_eq_sum]
  apply sum_nonneg
  intro share listed
  obtain ⟨b, member, rfl⟩ := mem_map.mp listed
  obtain ⟨r, -, reads, -, positive⟩ := c.rows_read member
  split
  · exact reads.cost ▸ positive.le
  · exact le_refl _

/-- In either lane a call draws what the user owes, as far as the pool goes, and
what expires first is drawn first. -/
theorem drawnUntil_call (c : Call) (now : Nat) (d : Rows) (uid : Nat) (e : Option Nat) :
    drawnUntil d e (c.takes now d) uid = min (pool now d uid e) (owed (c.rows now d) uid) := by
  have stock := pool_nonneg now d uid e
  have debt := owed_nonneg c now d uid
  by_cases owes : ∃ b ∈ c.rows now d, b.uid = uid
  · cases lane : c.lane with
    | fefo =>
      have listed : ({ uid, delta := owed (c.rows now d) uid } : Total) ∈ totals (c.rows now d) :=
        mem_totals.mpr ⟨owes, rfl⟩
      unfold Call.takes
      rw [lane, drawnUntil_takes (totals_uids_nodup _) listed, poolUntil_eq]
      exact max_eq_right (le_min stock debt)
    | balance =>
      obtain ⟨b, member, rfl⟩ := owes
      obtain ⟨r, -, reads, -, -, -, admitted⟩ :=
        mem_candidates.mp (mem_candidates_of_mem_batch member)
      rw [lane, Lane.admits, Bool.not_eq_true', reads.uid] at admitted
      unfold Call.takes
      rw [lane, pool_eq_zero admitted, min_eq_left debt]
      rfl
  · have none : drawnUntil d e (c.takes now d) uid = 0 := by
      apply drawnBy_eq_zero
      rintro x member rfl
      obtain ⟨⟨t, listed, same⟩, -⟩ := mem_takes (mem_of_mem_filter member)
      exact owes (same ▸ (mem_totals.mp listed).1)
    rw [none, owed_eq_zero (fun b listed same => owes ⟨b, listed, same⟩), min_eq_right stock]

theorem pool_settleCall (valid : c.Valid) (uid : Nat) (e : Option Nat) :
    pool now (settleCall now d c) uid e = max 0 (pool now d uid e - owed (c.rows now d) uid) := by
  rw [pool_settleCall_drawn valid, drawnUntil_call]
  omega

theorem drawnBy_call (c : Call) (now : Nat) (d : Rows) (uid : Nat) :
    drawnBy (c.takes now d) uid = min (pool now d uid none) (owed (c.rows now d) uid) := by
  rw [← drawnUntil_call]
  congr 1
  symm
  apply filter_eq_self.mpr
  intro x member
  obtain ⟨t, found, -⟩ := c.takes_fit member
  simp [takesBy, found, expiresBy]

end C3Api.Billing.Settle
