import C3Api.Quality.SyncRows

/-!
# Flushes conserve attempts

Between two flushes, the rows in the database and the pending rows together count what the
cells had counted when they were last collected, as long as no pending row was evicted or
refused. Every single observation is in at most one row of the database.
-/

namespace C3Api.Quality.Sync

open FiniteMap ReadCommitted List Option QualityMinute

def cellCount (σ : State) (key : Key) (c : Counter) : Int :=
  ((σ.active.lookup key).map fun cell => cell.counts c).getD 0

def lastCount (σ : State) (key : Key) (c : Counter) : Int :=
  ((σ.pgLastCell.lookup key).map fun e => e.snap c).getD 0

def rowCounts (v : QualityMinute × Int) : Counts := v.1.counts

def persistedTotal (σ : State) (key : Key) (c : Counter) : Int :=
  totalOf rowCounts key c σ.writer.persisted

def pendingTotal (σ : State) (key : Key) (c : Counter) : Int :=
  total σ.pending.rows key c + total σ.pgMinuteAbs key c

def Counter.Tracked : Counter → Prop
  | .attempts => True
  | .successes => True
  | .contains _ => True
  | _ => False

variable {σ : State} {script : Script}

section

/-- How the cells have moved since the last collection. -/
structure Cells (σ : State) : Prop where
  bound : ∀ key e, σ.pgLastCell.lookup key = some e →
    ∃ cell, σ.active.lookup key = some cell ∧ cell.gen = e.gen
  gained : ∀ key n, lastCount σ key (.contains n) ≤ cellCount σ key (.contains n) ∧
    cellCount σ key (.contains n) - lastCount σ key (.contains n) ≤
      cellCount σ key .attempts - lastCount σ key .attempts
  nonneg : ∀ key n, 0 ≤ lastCount σ key (.contains n)
  once : ∀ key n, cellCount σ key (.contains n) ≤ 1
  fresh : ∀ key n, σ.observations ≤ n → cellCount σ key (.contains n) = 0
  owner : ∀ key key' n, cellCount σ key (.contains n) ≠ 0 →
    cellCount σ key' (.contains n) ≠ 0 → key = key'

variable {key : Key} {cell : Cell}

section

variable (cells : Cells σ) (found : σ.active.lookup key = some cell)

include cells found

theorem Cells.diff (c : Counter) :
    diffCellSnap cell.counts (σ.pgLastCell.lookup key) cell.gen c =
      cellCount σ key c - lastCount σ key c := by
  unfold diffCellSnap cellCount lastCount
  cases last : σ.pgLastCell.lookup key with
  | none => simp [found]
  | some e =>
    obtain ⟨other, at_, gen⟩ := cells.bound key e last
    rw [found] at at_
    cases at_
    simp [found, gen]

theorem Cells.diff_nonneg (n : Nat) :
    0 ≤ diffCellSnap cell.counts (σ.pgLastCell.lookup key) cell.gen (.contains n) := by
  have gained := (cells.gained key n).1
  rw [cells.diff found]
  omega

/-- A delta that is skipped has nothing to count. -/
theorem Cells.diff_isZero
    (skipped : isZero (diffCellSnap cell.counts (σ.pgLastCell.lookup key) cell.gen) = true)
    {c : Counter} (tracked : c.Tracked) :
    diffCellSnap cell.counts (σ.pgLastCell.lookup key) cell.gen c = 0 := by
  simp only [isZero, all_cons, Bool.and_eq_true, decide_eq_true_eq] at skipped
  cases c with
  | attempts => exact skipped.1
  | successes => exact skipped.2.1
  | contains n =>
    have none := skipped.1
    have gained := cells.gained key n
    rw [cells.diff found] at none ⊢
    omega
  | _ => exact tracked.elim

end

theorem lastCount_collectCell (e : Key × Cell) (key : Key) (c : Counter) :
    lastCount (collectCell script σ e) key c =
      if key = e.1 then e.2.counts c else lastCount σ key c := by
  unfold lastCount collectCell
  rw [lookup_insert_ite]
  split
  · rfl
  · rfl

theorem Cells.collectCell (cells : Cells σ) (found : σ.active.lookup key = some cell) :
    Cells (collectCell script σ (key, cell)) := by
  have count : ∀ c, cellCount σ key c = cell.counts c := fun c => by simp [cellCount, found]
  refine ⟨fun k e last => ?_, fun k n => ?_, fun k n => ?_, cells.once, cells.fresh, cells.owner⟩
  · simp only [Sync.collectCell, lookup_insert_ite] at last
    split at last
    next same =>
      subst same
      cases last
      exact ⟨cell, found, rfl⟩
    · exact cells.bound k e last
  · rw [lastCount_collectCell, lastCount_collectCell]
    split
    next same =>
      subst same
      have count' := count
      unfold cellCount at count'
      simp only [cellCount, Sync.collectCell, count']
      omega
    · exact cells.gained k n
  · rw [lastCount_collectCell]
    split
    next same =>
      subst same
      have gained := (cells.gained k n).1
      have nonneg := cells.nonneg k n
      rw [count] at gained
      simp only
      omega
    · exact cells.nonneg k n

/-- What is counted beyond the last collection, minute by minute, if a delta that is skipped has
nothing to count. -/
theorem collectCell_balance (script : Script) (cell : Cell) {c : Counter}
    (diff : diffCellSnap cell.counts (σ.pgLastCell.lookup key) cell.gen c =
      cell.counts c - lastCount σ key c)
    (seen : isZero (diffCellSnap cell.counts (σ.pgLastCell.lookup key) cell.gen) = true →
      diffCellSnap cell.counts (σ.pgLastCell.lookup key) cell.gen c = 0) (k : Key) :
    total (collectCell script σ (key, cell)).pgMinuteAbs k c -
        lastCount (collectCell script σ (key, cell)) k c =
      total σ.pgMinuteAbs k c - lastCount σ k c := by
  rw [lastCount_collectCell]
  unfold collectCell
  simp only
  split
  next skipped =>
    have zero := seen skipped
    split
    next same =>
      subst same
      omega
    · rfl
  · rw [total_accumulateDelta, diff]
    split
    next same =>
      subst same
      rw [if_pos rfl]
      omega
    next other =>
      rw [if_neg (Ne.symm other)]
      omega

/-- What a collection does: the cells, the database and the pending rows stay. -/
structure Collects (σ σ' : State) : Prop where
  frame : σ' = { σ with pgLastCell := σ'.pgLastCell, pgMinuteAbs := σ'.pgMinuteAbs }
  cells : Cells σ'
  good : Good σ'.pgMinuteAbs
  balance : ∀ key c, Counter.Tracked c → total σ'.pgMinuteAbs key c - lastCount σ' key c =
    total σ.pgMinuteAbs key c - lastCount σ key c

theorem collectPGDelta_spec (script : Script) (cells : Cells σ) (good : Good σ.pgMinuteAbs) :
    Collects σ (collectPGDelta script σ) := by
  refine foldlRecOn (pairs σ.active) _ ⟨rfl, cells, good, fun _ _ _ => rfl⟩ ?_
  intro τ before e member
  have found : τ.active.lookup e.1 = some e.2 := by
    rw [before.frame]
    exact mem_pairs.mp member
  refine ⟨?_, before.cells.collectCell found, ?_, fun key c tracked => ?_⟩
  · rw [before.frame]
    rfl
  · unfold Sync.collectCell
    simp only
    split
    · exact before.good
    · exact before.good.accumulateDelta _ _ _ (before.cells.diff_nonneg found)
  · have diff := before.cells.diff found c
    rw [show cellCount τ e.1 c = e.2.counts c by simp [cellCount, found]] at diff
    rw [← before.balance key c tracked]
    exact collectCell_balance script e.2 diff
      (fun skipped => before.cells.diff_isZero found skipped tracked) key

def soleKey : Key := ⟨1, [], [], []⟩

/-- One collection of a cell, with the clock and the counts that it reads. -/
def collectSnap (key : Key) (gen : Nat) (σ : State) (s : Script × Counts) : State :=
  collectCell s.1 σ (key, ⟨gen, s.2⟩)

def collectSnaps (key : Key) (gen : Nat) (snaps : List (Script × Counts)) (σ : State) : State :=
  snaps.foldl (collectSnap key gen) σ

/-- No snapshot moves only counters that the test for an empty delta leaves out. -/
def Seen (first : Counts) (snaps : List (Script × Counts)) : Prop :=
  List.IsChain (fun prev cur => isZero (cur - prev) = true → cur = prev)
    (first :: snaps.map Prod.snd)

section

variable {gen : Nat} {snaps : List (Script × Counts)}
  (own : ∀ e, σ.pgLastCell.lookup key = some e → e.gen = gen)

include own

theorem collectSnap_spec (s : Script × Counts) :
    (∀ e, (collectSnap key gen σ s).pgLastCell.lookup key = some e → e.gen = gen) ∧
      lastCount (collectSnap key gen σ s) key = s.2 ∧
      ∀ c, total (collectSnap key gen σ s).pgMinuteAbs key c = total σ.pgMinuteAbs key c +
        if isZero (s.2 - lastCount σ key) = true then 0 else s.2 c - lastCount σ key c := by
  have diff : diffCellSnap s.2 (σ.pgLastCell.lookup key) gen = s.2 - lastCount σ key := by
    unfold diffCellSnap
    cases last : σ.pgLastCell.lookup key with
    | none => exact funext fun c => by simp [lastCount, last]
    | some e => exact funext fun c => by simp [lastCount, last, own e last]
  refine ⟨fun e found => ?_, funext fun c => by simp [collectSnap, lastCount_collectCell], fun c => ?_⟩
  · simp only [collectSnap, collectCell, AList.lookup_insert] at found
    cases found
    rfl
  · simp only [collectSnap, collectCell, diff]
    split
    · rw [add_zero]
    · rw [total_accumulateDelta, if_pos rfl]
      rfl

theorem total_collectSnaps (before : ∀ c, total σ.pgMinuteAbs key c = lastCount σ key c)
    (seen : Seen (lastCount σ key) snaps) (c : Counter) :
    total (collectSnaps key gen snaps σ).pgMinuteAbs key c =
      (snaps.map Prod.snd).getLastD (lastCount σ key) c := by
  induction snaps generalizing σ with
  | nil => exact before c
  | cons s rest ih =>
    obtain ⟨own', last, moved⟩ := collectSnap_spec own s
    rw [Seen, map_cons, isChain_cons_cons] at seen
    rw [map_cons, getLastD_cons, ← last]
    refine ih own' (fun c => ?_) (last ▸ seen.2)
    rw [moved, last, before]
    split
    next skipped => rw [seen.1 skipped, add_zero]
    · omega

/-- Snapshots that never fall leave a skipped counter behind for good. -/
theorem seen_of_total (few : ∀ c, total σ.pgMinuteAbs key c ≤ lastCount σ key c)
    (grows : List.IsChain (· ≤ ·) (lastCount σ key :: snaps.map Prod.snd))
    (counted : ∀ c, total (collectSnaps key gen snaps σ).pgMinuteAbs key c =
      (snaps.map Prod.snd).getLastD (lastCount σ key) c) :
    (∀ c, total σ.pgMinuteAbs key c = lastCount σ key c) ∧ Seen (lastCount σ key) snaps := by
  induction snaps generalizing σ with
  | nil => exact ⟨counted, .singleton _⟩
  | cons s rest ih =>
    obtain ⟨own', last, moved⟩ := collectSnap_spec own s
    rw [map_cons, isChain_cons_cons] at grows
    rw [map_cons, getLastD_cons, ← last] at counted
    have each (c : Counter) : total σ.pgMinuteAbs key c ≤ lastCount σ key c ∧
        lastCount σ key c ≤ s.2 c := ⟨few c, grows.1 c⟩
    obtain ⟨same, seen⟩ := ih own' (fun c => by
      have := each c
      rw [moved, last]
      split <;> omega) (last ▸ grows.2) counted
    rw [last] at same seen
    by_cases skipped : isZero (s.2 - lastCount σ key) = true
    · have equal (c : Counter) : total σ.pgMinuteAbs key c = lastCount σ key c ∧
          s.2 c = lastCount σ key c := by
        have := each c
        have := same c
        rw [moved, if_pos skipped] at this
        omega
      exact ⟨fun c => (equal c).1, .cons_cons (fun _ => funext fun c => (equal c).2) seen⟩
    · refine ⟨fun c => ?_, .cons_cons (fun wrong => absurd wrong skipped) seen⟩
      have := same c
      rw [moved, if_neg skipped] at this
      omega

end

/-- The minute rows of one cell count its last snapshot, if no snapshot moves only counters that
the test for an empty delta leaves out; for snapshots that never fall, only then. -/
theorem snapshots_counted (key : Key) (gen : Nat) (snaps : List (Script × Counts)) :
    (Seen 0 snaps → ∀ c, total (collectSnaps key gen snaps {}).pgMinuteAbs key c =
      (snaps.map Prod.snd).getLastD 0 c) ∧
    (List.IsChain (· ≤ ·) (0 :: snaps.map Prod.snd) →
      (∀ c, total (collectSnaps key gen snaps {}).pgMinuteAbs key c =
        (snaps.map Prod.snd).getLastD 0 c) → Seen 0 snaps) := by
  have own : ∀ e, ({} : State).pgLastCell.lookup key = some e → e.gen = gen :=
    fun e found => by simp at found
  exact ⟨total_collectSnaps own fun _ => rfl,
    fun grows counted => (seen_of_total own (fun _ => le_refl _) grows counted).2⟩

def minuteScript : Script where
  minuteOf := fun _ => 60

/-- An attempt before and after its completion adds the cache tokens. -/
def withCacheRead (tokens : Int) : Counts
  | .attempts => 1
  | .cacheRead => tokens
  | _ => 0

theorem late_cache_read_lost :
    List.IsChain (· ≤ ·) [0, withCacheRead 0, withCacheRead 5] ∧
      total (collectSnaps soleKey 1 [(minuteScript, withCacheRead 0),
        (minuteScript, withCacheRead 5)] {}).pgMinuteAbs soleKey .cacheRead = 0 := by
  refine ⟨.cons_cons (fun c => ?_) (.cons_cons (fun c => ?_) (.singleton _)), by decide⟩
  · cases c <;> simp [withCacheRead]
  · cases c <;> simp [withCacheRead]

end

section

/-- What the worker knows of the database is what is there. -/
def Writer.Mirrored (w : Writer) : Prop :=
  ∀ mk, (w.persisted.lookup mk).map Prod.fst = w.committed.lookup mk

def State.Sequenced (σ : State) : Prop :=
  ∀ mk row seq, σ.writer.persisted.lookup mk = some (row, seq) →
    seq ≤ (σ.pgSeq.lookup mk.1).getD 0

/-- What holds between two flushes. -/
structure Inv (σ : State) : Prop where
  cells : Cells σ
  mirror : σ.writer.Mirrored
  seqs : σ.Sequenced
  nonneg : ∀ mk row seq, σ.writer.persisted.lookup mk = some (row, seq) →
    ∀ n, 0 ≤ row.counts (.contains n)
  pending : Good σ.pending.rows
  minutes : Good σ.pgMinuteAbs
  balance : ∀ key c, Counter.Tracked c →
    persistedTotal σ key c + pendingTotal σ key c = lastCount σ key c

theorem lookup_bumpSeq (seqs : Map Int Int) (minute m : Int) :
    ((bumpSeq seqs minute).lookup m).getD 0 =
      (seqs.lookup m).getD 0 + if m = minute then 1 else 0 := by
  unfold bumpSeq
  rw [lookup_insert_ite]
  split
  next same =>
    rw [same]
    rfl
  · rw [add_zero]

theorem lookup_foldl_bumpSeq (minutes : List Int) (seqs : Map Int Int) (m : Int) :
    ((minutes.foldl bumpSeq seqs).lookup m).getD 0 = (seqs.lookup m).getD 0 + minutes.count m := by
  induction minutes generalizing seqs with
  | nil => simp
  | cons minute rest ih =>
    rw [foldl_cons, ih, lookup_bumpSeq, count_cons]
    simp only [beq_iff_eq, eq_comm (a := minute)]
    split <;> omega

theorem allRows_places : (allRows script σ).map QRow.place =
    arrange script.rowOrder (pendQ σ).keys := by
  unfold allRows
  have known : ∀ mk ∈ arrange script.rowOrder (pendQ σ).keys, ∃ qm,
      (pendQ σ).lookup mk = some qm := by
    intro mk member
    have key : mk ∈ (pendQ σ).keys := (arrange_perm _ _).mem_iff.mp member
    exact isSome_iff_exists.mp (AList.lookup_isSome.mpr key)
  generalize arrange script.rowOrder (pendQ σ).keys = keys at known
  induction keys with
  | nil => rfl
  | cons mk rest ih =>
    obtain ⟨qm, found⟩ := known mk mem_cons_self
    rw [filterMap_cons]
    simp only [found, map_some, map_cons]
    rw [ih (forall_mem_cons.mp known).2]
    rfl

variable {r : QRow} {w : Writer} {landed : List QRow} (committed : Rows)

theorem mem_allRows (member : r ∈ allRows script σ) :
    ∃ qm, (pendQ σ).lookup r.place = some qm ∧
      r = absoluteRow σ.writer.committed (drawnSeqs σ) r.place qm := by
  obtain ⟨mk, _, built⟩ := mem_filterMap.mp member
  obtain ⟨qm, found, rfl⟩ := map_eq_some_iff.mp built
  exact ⟨qm, found, rfl⟩

/-- What a flush has to write at the place of a row. -/
def due (σ : State) (key : Key) (c : Counter) (r : QRow) : Int :=
  weight (share counts key c) r.place ((pendQ σ).lookup r.place)

theorem sum_allRows (script : Script) (σ : State) (key : Key) (c : Counter) :
    ((allRows script σ).map (due σ key c)).sum = total (pendQ σ) key c := by
  have places : (allRows script σ).map (due σ key c) =
      ((allRows script σ).map QRow.place).map fun mk =>
        weight (share counts key c) mk ((pendQ σ).lookup mk) := by
    rw [List.map_map]
    rfl
  rw [places, allRows_places, total, totalOf_eq_keys]
  exact ((arrange_perm _ _).map _).sum_eq

theorem allRows_ready (script : Script) (seqs : σ.Sequenced) :
    Ready { σ.writer with calls := 0 } (allRows script σ) := by
  constructor
  · rw [allRows_places]
    exact (arrange_perm _ _).nodup_iff.mpr (pendQ σ).nodupKeys
  · intro r member row seq found
    obtain ⟨qm, known, built⟩ := mem_allRows member
    have old := seqs _ row seq found
    have minute : r.place.1 ∈ distinctMinutes (pendQ σ) := by
      refine mem_dedup.mpr (mem_map_of_mem ?_)
      exact AList.lookup_isSome.mp (by rw [known]; rfl)
    have one : (distinctMinutes (pendQ σ)).count r.place.1 = 1 :=
      count_eq_one_of_mem (nodup_dedup _) minute
    have drawn : r.seq = (σ.pgSeq.lookup r.place.1).getD 0 + 1 := by
      rw [built]
      show ((drawnSeqs σ).lookup r.place.1).getD 0 = _
      rw [drawnSeqs, lookup_foldl_bumpSeq, one]
      rfl
    omega

theorem refillEntry_eq (good : Good (pendQ σ)) (member : r ∈ allRows script σ) :
    ∃ qm, (pendQ σ).lookup r.place = some qm ∧
      refillEntry (pendQ σ) committed r = (r.place, qm) := by
  obtain ⟨qm, found, _⟩ := mem_allRows member
  obtain ⟨own, _⟩ := good _ _ found
  refine ⟨qm, found, ?_⟩
  simp only [refillEntry, refillDelta, found, own]

theorem landed_gain (mirror : σ.writer.Mirrored) (member : r ∈ allRows script σ) (key : Key)
    (c : Counter) :
    share rowCounts key c r.place (r.qm, r.seq) -
        weight (share rowCounts key c) r.place (σ.writer.persisted.lookup r.place) =
      due σ key c r := by
  obtain ⟨qm, found, built⟩ := mem_allRows member
  have known := mirror r.place
  rw [due, found, weight_some]
  have absolute : r.qm = (absoluteRow σ.writer.committed (drawnSeqs σ) r.place qm).qm :=
    congrArg QRow.qm built
  cases old : σ.writer.persisted.lookup r.place with
  | none =>
    rw [old] at known
    simp only [absoluteRow, ← known, map_none] at absolute
    simp [share, rowCounts, absolute]
  | some v =>
    rw [old] at known
    simp only [absoluteRow, ← known, map_some] at absolute
    simp only [share, rowCounts, absolute, QualityMinute.merge, weight_some, Pi.add_apply]
    split <;> omega

theorem Lands.mirror {w' : Writer} (lands : Lands w w' landed) (mirror : w.Mirrored) :
    w'.Mirrored := by
  unfold Writer.Mirrored at mirror ⊢
  rw [lands.persisted, lands.committed]
  generalize w.persisted = persisted at mirror
  generalize w.committed = committed at mirror
  clear lands
  induction landed generalizing persisted committed with
  | nil => exact mirror
  | cons r rest ih =>
    refine ih _ _ fun mk => ?_
    rw [lookup_insert_ite, lookup_insert_ite]
    split
    · rfl
    · exact mirror mk

theorem Lands.found {w' : Writer} (lands : Lands w w' landed) {mk : Int × Key} {row : QualityMinute}
    {seq : Int} (found : w'.persisted.lookup mk = some (row, seq)) :
    (∃ r ∈ landed, r.place = mk ∧ r.qm = row ∧ r.seq = seq) ∨
      w.persisted.lookup mk = some (row, seq) := by
  rw [lands.persisted] at found
  rcases lookup_insertAll_cases found with new | ⟨_, old⟩
  · obtain ⟨r, member, same⟩ := mem_map.mp new
    simp only [Prod.mk.injEq] at same
    exact .inl ⟨r, member, same.1, same.2.1, same.2.2⟩
  · exact .inr old

theorem flushed_spec (cfg : SyncConfig) (clean : script.clean) (seqs : σ.Sequenced) :
    ∃ landed, (allRows script σ).Perm (landed ++ (deferred script σ ++ (flushed cfg script σ).2)) ∧
      Lands { σ.writer with calls := 0 } (flushed cfg script σ).1 landed := by
  have ready := allRows_ready script seqs
  have parts : toFlush script σ ++ deferred script σ = allRows script σ :=
    take_append_drop _ _
  rw [← parts] at ready ⊢
  obtain ⟨landed, perm, lands⟩ : Writes _ (toFlush script σ) (flushed cfg script σ).1
    (flushed cfg script σ).2 := flushQualityBatch_spec cfg clean ready.left
  refine ⟨landed, (perm.append_right _).trans ?_, lands⟩
  rw [append_assoc]
  exact perm_append_comm.append_left landed

theorem writeRows_eq (cfg : SyncConfig) (script : Script) (σ : State) :
    writeRows cfg script σ = refillQualityDelta script (pendQ σ)
      (deferred script σ ++ (flushed cfg script σ).2) (emptied cfg script σ) := by
  rw [writeRows, refillQualityDelta, refillQualityDelta, refillQualityDelta, foldl_append]

/-- What a flush leaves behind: the rows that did not land are pending again. -/
theorem writeRows_refilled (cfg : SyncConfig) (script : Script) (σ : State) :
    Refilled (emptied cfg script σ) (writeRows cfg script σ)
      ((deferred script σ ++ (flushed cfg script σ).2).map
        (refillEntry (pendQ σ) (emptied cfg script σ).writer.committed)) := by
  rw [writeRows_eq]
  exact refill_spec ..

theorem Cells.congr {σ' : State} (cells : Cells σ) (count : cellCount σ' = cellCount σ)
    (last : lastCount σ' = lastCount σ) (observations : σ'.observations = σ.observations)
    (bound : ∀ key e, σ'.pgLastCell.lookup key = some e →
      ∃ cell, σ'.active.lookup key = some cell ∧ cell.gen = e.gen) : Cells σ' := by
  obtain ⟨-, gained, nonneg, once, fresh, owner⟩ := cells
  rw [← count] at gained once fresh owner
  rw [← last] at gained nonneg
  rw [← observations] at fresh
  exact ⟨bound, gained, nonneg, once, fresh, owner⟩

theorem Inv.pendQ_good (inv : Inv σ) : Good (pendQ σ) := inv.pending.foldMinuteMap inv.minutes

theorem Inv.absolute_nonneg (inv : Inv σ) (member : r ∈ allRows script σ) (n : Nat) :
    0 ≤ r.qm.counts (.contains n) := by
  obtain ⟨qm, found, -⟩ := mem_allRows member
  have gain := landed_gain inv.mirror member r.place.2 (.contains n)
  have nonneg := (inv.pendQ_good _ _ found).2 n
  rw [due, found, weight_some, share, if_pos rfl, share, if_pos rfl] at gain
  change r.qm.counts (.contains n) - _ = _ at gain
  have before : 0 ≤ weight (share rowCounts r.place.2 (.contains n)) r.place
      (σ.writer.persisted.lookup r.place) := by
    cases old : σ.writer.persisted.lookup r.place with
    | none => exact le_refl _
    | some v =>
      rw [weight_some, share, if_pos rfl]
      exact inv.nonneg _ _ _ old n
  omega

theorem persistedTotal_lands {left : List QRow} (inv : Inv σ)
    (perm : (allRows script σ).Perm (landed ++ left))
    (lands : Lands { σ.writer with calls := 0 } w landed) (key : Key) (c : Counter) :
    totalOf rowCounts key c w.persisted =
      persistedTotal σ key c + (landed.map (due σ key c)).sum := by
  have distinct := (allRows_ready script inv.seqs).perm perm |>.left.distinct
  have keys : ((landed.map fun r => (r.place, (r.qm, r.seq))).map Prod.fst).Nodup := by
    rw [List.map_map]
    exact distinct
  rw [lands.persisted, totalOf_insertAll _ keys, List.map_map, persistedTotal]
  congr 2
  refine map_congr_left fun r member => ?_
  exact landed_gain inv.mirror (perm.mem_iff.mpr (mem_append_left _ member)) key c

theorem writeRows_inv (cfg : SyncConfig) (clean : script.clean) (inv : Inv σ)
    (kept : losses (writeRows cfg script σ) = losses σ) : Inv (writeRows cfg script σ) := by
  obtain ⟨landed, perm, lands⟩ := flushed_spec cfg clean inv.seqs
  obtain ⟨pending, dropped, result, _, rows⟩ := writeRows_refilled cfg script σ
  generalize deferred script σ ++ (flushed cfg script σ).2 = left at perm rows
  rw [result] at kept ⊢
  have restored := rows kept
  have member : ∀ r ∈ landed, r ∈ allRows script σ := fun r at_ =>
    perm.mem_iff.mpr (mem_append_left _ at_)
  have memberLeft : ∀ r ∈ left, r ∈ allRows script σ := fun r at_ =>
    perm.mem_iff.mpr (mem_append_right _ at_)
  refine ⟨inv.cells.congr rfl rfl rfl inv.cells.bound, lands.mirror inv.mirror, fun mk row seq found => ?_,
    fun mk row seq found n => ?_, ?_, Good.empty, fun key c tracked => ?_⟩
  · show seq ≤ ((script.flowMinutes.foldl bumpSeq (drawnSeqs σ)).lookup mk.1).getD 0
    rw [lookup_foldl_bumpSeq]
    rcases lands.found found with ⟨r, at_, rfl, _, rfl⟩ | old
    · obtain ⟨qm, _, built⟩ := mem_allRows (member r at_)
      have drawn : r.seq = ((drawnSeqs σ).lookup r.place.1).getD 0 := congrArg QRow.seq built
      omega
    · have before := inv.seqs mk row seq old
      rw [drawnSeqs, lookup_foldl_bumpSeq]
      omega
  · rcases lands.found found with ⟨r, at_, _, rfl, _⟩ | old
    · exact inv.absolute_nonneg (member r at_) n
    · exact inv.nonneg mk row seq old n
  · show Good pending.rows
    rw [restored]
    refine Good.empty.foldl fun e listed => ?_
    obtain ⟨r, at_, rfl⟩ := mem_map.mp listed
    obtain ⟨qm, found, same⟩ := refillEntry_eq _ inv.pendQ_good (memberLeft r at_)
    rw [same]
    exact inv.pendQ_good _ _ found
  · have persisted := persistedTotal_lands inv perm lands key c
    have restoredTotal : total pending.rows key c = (left.map (due σ key c)).sum := by
      rw [restored, total_foldl, List.map_map]
      refine (zero_add _).trans (congrArg List.sum (map_congr_left fun r at_ => ?_))
      obtain ⟨qm, found, same⟩ := refillEntry_eq _ inv.pendQ_good (memberLeft r at_)
      rw [Function.comp_apply, same, due, found]
      rfl
    have all := sum_allRows script σ key c
    rw [(perm.map _).sum_eq, map_append, sum_append, pendQ, total_foldMinuteMap] at all
    have before := inv.balance key c tracked
    show totalOf rowCounts key c (flushed cfg script σ).1.persisted +
      (total pending.rows key c + 0) = lastCount σ key c
    rw [persisted, restoredTotal, ← before, pendingTotal]
    simp only [pendQ] at *
    omega

end

variable {lg : Logarithms} {cfg : SyncConfig}

theorem losses_writeRows (cfg : SyncConfig) (script : Script) (σ : State) :
    losses σ ≤ losses (writeRows cfg script σ) := by
  obtain ⟨pending, dropped, result, less, _⟩ := writeRows_refilled cfg script σ
  rw [result]
  exact less

/-- The flush does not prune what the worker knows of the database. -/
def Unpruned (cfg : SyncConfig) (script : Script) (σ : State) : Prop :=
  ∀ mk ∈ (writeRows cfg script (collectPGDelta script σ)).writer.committed.keys,
    prunes script (writeRows cfg script (collectPGDelta script σ)) mk.1 = false

theorem pruneLongLived_eq {σ : State}
    (kept : ∀ mk ∈ σ.writer.committed.keys, prunes script σ mk.1 = false) :
    pruneLongLived script σ = σ := by
  have none : (σ.writer.committed.keys.filter fun mk => prunes script σ mk.1) = [] := by
    rw [filter_eq_nil_iff]
    intro mk member
    simp [kept mk member]
  unfold pruneLongLived
  rw [none]
  rfl

theorem collectPGDelta_losses (script : Script) (σ : State) :
    losses (collectPGDelta script σ) = losses σ :=
  foldlRecOn (motive := fun τ => losses τ = losses σ) (pairs σ.active) _ rfl fun _ same _ _ => same

theorem Inv.collect (inv : Inv σ) (script : Script) : Inv (collectPGDelta script σ) := by
  have collects := collectPGDelta_spec script inv.cells inv.minutes
  generalize collectPGDelta script σ = τ at collects
  obtain ⟨frame, cells, good, balance⟩ := collects
  rw [frame] at cells good ⊢
  refine ⟨cells, inv.mirror, inv.seqs, inv.nonneg, inv.pending, good, fun key c tracked => ?_⟩
  have before := inv.balance key c tracked
  have moved := balance key c tracked
  rw [pendingTotal] at before
  show persistedTotal σ key c + (total σ.pending.rows key c + total τ.pgMinuteAbs key c) =
    lastCount τ key c
  omega

theorem doPG_losses (cfg : SyncConfig) (script : Script) (σ : State) :
    losses σ ≤ losses (doPG cfg script σ) := by
  unfold doPG
  simp only
  split
  · exact (collectPGDelta_losses script σ).ge
  · rw [← collectPGDelta_losses script σ]
    exact losses_writeRows cfg script _

theorem doPG_inv (clean : script.clean) (unpruned : Unpruned cfg script σ) (inv : Inv σ)
    (kept : losses (doPG cfg script σ) = losses σ) : Inv (doPG cfg script σ) := by
  unfold doPG at kept ⊢
  simp only at kept ⊢
  split
  · exact inv.collect script
  rename_i busy
  rw [if_neg busy, pruneLongLived_eq unpruned, ← collectPGDelta_losses script σ] at kept
  rw [pruneLongLived_eq unpruned]
  exact writeRows_inv cfg clean (inv.collect script) kept

theorem cellCount_getOrCreateCell (key : Key) :
    cellCount (getOrCreateCell σ key) = cellCount σ := by
  funext k c
  unfold getOrCreateCell
  split
  · rfl
  rename_i absent
  unfold cellCount
  simp only [lookup_insert_ite]
  split
  next same =>
    rw [same, absent]
    rfl
  · rfl

theorem Cells.getOrCreateCell (cells : Cells σ) (key : Key) : Cells (getOrCreateCell σ key) := by
  have same := cellCount_getOrCreateCell (σ := σ) key
  have last : lastCount (Sync.getOrCreateCell σ key) = lastCount σ := by
    unfold Sync.getOrCreateCell
    split <;> rfl
  have observations : (Sync.getOrCreateCell σ key).observations = σ.observations := by
    unfold Sync.getOrCreateCell
    split <;> rfl
  refine cells.congr same last observations fun k e found => ?_
  unfold Sync.getOrCreateCell at found ⊢
  split
  next known =>
    rw [known] at found
    exact cells.bound k e found
  next absent =>
    rw [absent] at found
    obtain ⟨cell, at_, gen⟩ := cells.bound k e found
    refine ⟨cell, ?_, gen⟩
    have other : k ≠ key := fun same => by
      rw [same, absent] at at_
      cases at_
    rw [lookup_insert_ite, if_neg other]
    exact at_

theorem Cells.complete {key : Key} {cell : Cell} (cells : Cells σ) (lg : Logarithms)
    (found : σ.active.lookup key = some cell) (obs : Observation) :
    Cells { σ with
      active := σ.active.insert key { cell with counts := cell.counts + obs.counts lg σ.observations }
      observations := σ.observations + 1 } := by
  set τ : State := { σ with
    active := σ.active.insert key { cell with counts := cell.counts + obs.counts lg σ.observations }
    observations := σ.observations + 1 } with built
  have count : ∀ k c, cellCount τ k c =
      cellCount σ k c + if k = key then obs.counts lg σ.observations c else 0 := by
    intro k c
    simp only [built, cellCount, lookup_insert_ite]
    split
    next same =>
      rw [same, found]
      rfl
    · rw [add_zero]
  have last : ∀ k c, lastCount τ k c = lastCount σ k c := fun _ _ => rfl
  have one : ∀ n, obs.counts lg σ.observations (.contains n) = if n = σ.observations then 1 else 0 :=
    fun _ => rfl
  have attempt : obs.counts lg σ.observations .attempts = 1 := rfl
  refine ⟨fun k e at_ => ?_, fun k n => ?_, cells.nonneg, fun k n => ?_, fun k n late => ?_,
    fun k k' n first second => ?_⟩
  · obtain ⟨other, known, gen⟩ := cells.bound k e at_
    by_cases same : k = key
    · subst same
      rw [found] at known
      cases known
      exact ⟨_, AList.lookup_insert _, gen⟩
    · exact ⟨other, by rw [built]; simp only [lookup_insert_ite, if_neg same, known], gen⟩
  · have before := cells.gained k n
    rw [count, count, last, last, one, attempt]
    by_cases same : k = key
    · split <;> omega
    · rw [if_neg same, if_neg same]
      omega
  · have before := cells.once k n
    rw [count, one]
    split
    · split
      next same new =>
        have fresh := cells.fresh k n (Nat.le_of_eq new.symm)
        omega
      · omega
    · omega
  · have fresh := cells.fresh k n (by simp only [built] at late; omega)
    have other : n ≠ σ.observations := by simp only [built] at late; omega
    rw [count, one, if_neg other, fresh]
    simp
  · rw [count, one] at first second
    by_cases new : n = σ.observations
    · have zero := cells.fresh k n new.ge
      have zero' := cells.fresh k' n new.ge
      rw [zero, if_pos new] at first
      rw [zero', if_pos new] at second
      by_cases here : k = key
      · by_cases there : k' = key
        · exact here.trans there.symm
        · simp [there] at second
      · simp [here] at first
    · rw [if_neg new] at first second
      exact cells.owner k k' n (by simpa using first) (by simpa using second)

/-- Events of a run without poison rows and pruning. -/
def Permitted (cfg : SyncConfig) (σ : State) : Event → Prop
  | .flush script => script.clean ∧ Unpruned cfg script σ
  | _ => True

inductive Runs (lg : Logarithms) (cfg : SyncConfig) : State → Prop
  | start : Runs lg cfg {}
  | step {σ : State} (event : Event) : Runs lg cfg σ → Permitted cfg σ event →
      Runs lg cfg (σ.next lg cfg event)

theorem Inv.initial : Inv {} := by
  have none : ∀ key c, cellCount {} key c = 0 := fun _ _ => rfl
  have last : ∀ key c, lastCount {} key c = 0 := fun _ _ => rfl
  refine ⟨⟨fun _ _ found => by simp at found, fun key n => ?_, fun key n => (last key _).ge,
    fun key n => ?_, fun key n _ => none key _, fun key _ n first => absurd (none key _) first⟩,
    fun _ => rfl, fun _ _ _ found => by simp at found, fun _ _ _ found => by simp at found,
    Good.empty, Good.empty, fun _ _ _ => rfl⟩
  · rw [none, none, last, last]
    omega
  · rw [none]
    omega

theorem Inv.getOrCreateCell (inv : Inv σ) (key : Key) : Inv (getOrCreateCell σ key) := by
  have cells := inv.cells.getOrCreateCell key
  unfold Sync.getOrCreateCell at cells ⊢
  split
  · exact inv
  rename_i absent
  rw [absent] at cells
  exact ⟨cells, inv.mirror, inv.seqs, inv.nonneg, inv.pending, inv.minutes, inv.balance⟩

theorem Inv.completeCommon (inv : Inv σ) (key : Key) (obs : Observation) :
    Inv (completeCommon lg σ key obs) := by
  unfold Sync.completeCommon
  split
  · exact inv
  rename_i cell found
  split
  · exact inv
  · exact ⟨inv.cells.complete lg found obs, inv.mirror, inv.seqs, inv.nonneg, inv.pending,
      inv.minutes, inv.balance⟩

theorem next_losses (lg : Logarithms) (cfg : SyncConfig) (σ : State) (event : Event) :
    losses σ ≤ losses (σ.next lg cfg event) := by
  cases event with
  | begun key =>
    show losses σ ≤ losses (getOrCreateCell σ key)
    unfold Sync.getOrCreateCell
    split <;> exact Nat.le_refl _
  | complete key obs =>
    show losses σ ≤ losses (completeCommon lg σ key obs)
    unfold Sync.completeCommon
    split
    · exact Nat.le_refl _
    · split <;> exact Nat.le_refl _
  | flush script => exact doPG_losses cfg script σ

theorem Runs.inv (run : Runs lg cfg σ) (kept : losses σ = 0) : Inv σ := by
  induction run with
  | start => exact Inv.initial
  | @step σ event _ permitted ih =>
    have less := next_losses lg cfg σ event
    have inv := ih (by omega)
    cases event with
    | begun key => exact inv.getOrCreateCell key
    | complete key obs => exact inv.completeCommon key obs
    | flush script => exact doPG_inv permitted.1 permitted.2 inv (by rw [State.next] at kept less; omega)

/-- A row of the database counts this observation. -/
def Persists (σ : State) (mk : Int × Key) (observation : Nat) : Prop :=
  ∃ row seq, σ.writer.persisted.lookup mk = some (row, seq) ∧
    row.counts (.contains observation) ≠ 0

theorem totalOf_erase {V : Type} (counts : V → Counts) (key : Key) (c : Counter)
    (rows : Map (Int × Key) V) (mk : Int × Key) :
    totalOf counts key c rows = weight (share counts key c) mk (rows.lookup mk) +
      totalOf counts key c (rows.erase mk) := by
  have moved := tally_put (share counts key c) rows mk none
  rw [weight_none, add_zero] at moved
  unfold totalOf
  change tally (share counts key c) (rows.erase mk) = _ at moved
  omega

theorem totalOf_nonneg {V : Type} {counts : V → Counts} {c : Counter} {rows : Map (Int × Key) V}
    (nonneg : ∀ mk v, rows.lookup mk = some v → 0 ≤ counts v c) (key : Key) :
    0 ≤ totalOf counts key c rows := by
  refine tally_nonneg fun mk v found => ?_
  unfold share
  split
  · exact nonneg mk v found
  · exact Int.le_refl 0

theorem Inv.persisted_le (inv : Inv σ) (key : Key) (n : Nat) :
    persistedTotal σ key (.contains n) ≤ cellCount σ key (.contains n) := by
  have balance := inv.balance key (.contains n) trivial
  have gained := (inv.cells.gained key n).1
  have pending : 0 ≤ total σ.pending.rows key (.contains n) :=
    totalOf_nonneg (fun mk row found => (inv.pending mk row found).2 n) key
  have minutes : 0 ≤ total σ.pgMinuteAbs key (.contains n) :=
    totalOf_nonneg (fun mk row found => (inv.minutes mk row found).2 n) key
  rw [pendingTotal] at balance
  omega

theorem Inv.share_pos (inv : Inv σ) {mk : Int × Key} {row : QualityMinute} {seq : Int} {n : Nat}
    (found : σ.writer.persisted.lookup mk = some (row, seq))
    (counts : row.counts (.contains n) ≠ 0) :
    1 ≤ weight (share rowCounts mk.2 (.contains n)) mk (σ.writer.persisted.lookup mk) := by
  have nonneg := inv.nonneg mk row seq found n
  rw [found, weight_some, share, if_pos rfl]
  show 1 ≤ row.counts (.contains n)
  omega

theorem Inv.persists_once (inv : Inv σ) {mk mk' : Int × Key} {n : Nat} (first : Persists σ mk n)
    (second : Persists σ mk' n) : mk = mk' := by
  obtain ⟨row, seq, found, counts⟩ := first
  obtain ⟨row', seq', found', counts'⟩ := second
  have nonneg : ∀ (rows : Map (Int × Key) (QualityMinute × Int)),
      (∀ j v, rows.lookup j = some v → σ.writer.persisted.lookup j = some v) →
      ∀ key, 0 ≤ totalOf rowCounts key (.contains n) rows :=
    fun rows sub key => totalOf_nonneg (fun j v at_ => inv.nonneg j v.1 v.2 (sub j v at_) n) key
  have erased : ∀ (rows : Map (Int × Key) (QualityMinute × Int)) k j v,
      (rows.erase k).lookup j = some v → rows.lookup j = some v := by
    intro rows k j v at_
    rw [lookup_erase_ite] at at_
    split at at_
    · cases at_
    · exact at_
  have one := inv.share_pos found counts
  have one' := inv.share_pos found' counts'
  have split := totalOf_erase rowCounts mk.2 (.contains n) σ.writer.persisted mk
  have rest := nonneg _ (erased σ.writer.persisted mk) mk.2
  have bound := inv.persisted_le mk.2 n
  have once := inv.cells.once mk.2 n
  rw [persistedTotal] at bound
  -- Both rows are of the key whose cell counts the observation.
  have keys : mk.2 = mk'.2 := by
    have split' := totalOf_erase rowCounts mk'.2 (.contains n) σ.writer.persisted mk'
    have rest' := nonneg _ (erased σ.writer.persisted mk') mk'.2
    have bound' := inv.persisted_le mk'.2 n
    rw [persistedTotal] at bound'
    exact inv.cells.owner mk.2 mk'.2 n (by omega) (by omega)
  by_contra other
  -- A second row of this key would count the observation once more.
  have still : (σ.writer.persisted.erase mk).lookup mk' = some (row', seq') := by
    rw [lookup_erase_ite, if_neg (Ne.symm other)]
    exact found'
  have split' := totalOf_erase rowCounts mk.2 (.contains n) (σ.writer.persisted.erase mk) mk'
  have rest' := nonneg _ (fun j v at_ => erased _ mk j v (erased _ mk' j v at_)) mk.2
  rw [still, ← found', keys] at split'
  rw [keys] at one split rest bound once rest'
  omega

/-- As long as no pending row was evicted or refused, the rows in the database and the pending
ones count the attempts and successes that the cells had at the last collection, and no
observation is in two rows of the database. -/
theorem flushes_conserve_quality {lg : Logarithms} {cfg : SyncConfig} {σ : State}
    (run : Runs lg cfg σ) (kept : losses σ = 0) :
    (∀ key, persistedTotal σ key .attempts + pendingTotal σ key .attempts =
        lastCount σ key .attempts ∧
      persistedTotal σ key .successes + pendingTotal σ key .successes =
        lastCount σ key .successes) ∧
    ∀ mk mk' observation, Persists σ mk observation → Persists σ mk' observation → mk = mk' := by
  have inv := run.inv kept
  exact ⟨fun key => ⟨inv.balance key .attempts trivial, inv.balance key .successes trivial⟩,
    fun mk mk' n first second => inv.persists_once first second⟩

/-- One attempt is flushed in its minute, and the row of the next one does not get through. -/
def flushedTwice : State :=
  let attempt σ := completeCommon ⟨id, id⟩ σ soleKey {}
  doPG ⟨500, by decide⟩ { minuteScript with outcome := fun _ => .transient }
    (attempt (doPG ⟨500, by decide⟩ minuteScript (attempt (getOrCreateCell {} soleKey))))

theorem flushes_conserve_quality_flushed :
    persistedTotal flushedTwice soleKey .attempts = 1 ∧ pendingTotal flushedTwice soleKey .attempts = 1 ∧
      persistedTotal flushedTwice soleKey .attempts + pendingTotal flushedTwice soleKey .attempts =
        lastCount flushedTwice soleKey .attempts := by
  have permitted {σ : State} {script : Script} (clean : script.clean)
      (unpruned : Unpruned ⟨500, by decide⟩ script σ) :
      Permitted ⟨500, by decide⟩ σ (.flush script) := ⟨clean, unpruned⟩
  have run : Runs ⟨id, id⟩ ⟨500, by decide⟩ flushedTwice :=
    .step (.flush _) (.step (.complete soleKey {}) (.step (.flush minuteScript)
      (.step (.complete soleKey {}) (.step (.begun soleKey) .start trivial) trivial)
      (permitted nofun (by unfold Unpruned; decide +kernel))) trivial)
      (permitted nofun (by unfold Unpruned; decide +kernel))
  have kept : losses flushedTwice = 0 := by decide +kernel
  exact ⟨by decide +kernel, by decide +kernel, ((flushes_conserve_quality run kept).1 soleKey).1⟩

end C3Api.Quality.Sync
