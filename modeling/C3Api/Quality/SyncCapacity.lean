import C3Api.Quality.SyncConserved

/-!
# The pending rows are bounded

The recorder keeps the pending rows of at most `DefaultMinuteBucketsCap` minutes and evicts the
oldest ones beyond that. A database that is down for longer therefore costs attempts.
-/

namespace C3Api.Quality.Sync

open FiniteMap ReadCommitted List Option AList

variable {script : Script}

section

variable {p p' : Pending}

def Pending.Bounded (p : Pending) : Prop := (distinctMinutes p.rows).length ≤ defaultMinuteBucketsCap

variable {rows : Rows} {mk : Int × Key} {row : QualityMinute}

theorem mem_distinctMinutes (found : rows.lookup mk = some row) : mk.1 ∈ distinctMinutes rows :=
  mem_dedup.mpr (mem_map_of_mem (lookup_isSome.mp (by rw [found]; rfl)))

theorem length_distinctMinutes_le {minutes : List Int} (here : mk.1 ∈ minutes)
    (sub : ∀ mk row, rows.lookup mk = some row → mk.1 ∈ minutes) :
    (distinctMinutes (rows.insert mk row)).length ≤ minutes.length := by
  refine (subperm_of_subset (nodup_dedup _) fun minute member => ?_).length_le
  obtain ⟨other, listed, rfl⟩ := mem_map.mp (mem_dedup.mp member)
  obtain ⟨there, found⟩ := isSome_iff_exists.mp (lookup_isSome.mpr listed)
  rw [lookup_insert_ite] at found
  split at found
  next same =>
    rw [same]
    exact here
  · exact sub other there found

theorem makeRoom_sub {newMinute : Bool} {fuel : Nat}
    (room : p.makeRoom script newMinute fuel = some p') :
    (∀ mk row, p'.rows.lookup mk = some row → p.rows.lookup mk = some row) ∧
      p'.full newMinute = false := by
  refine makeRoom_keeps (I := fun q =>
    ∀ mk row, q.rows.lookup mk = some row → p.rows.lookup mk = some row) ?_
    (fun _ _ found => found) room
  intro q gone sub mk row found
  rw [lookup_erase_ite] at found
  split at found
  · cases found
  · exact sub mk row found

theorem enqueue_bounded {qm : QualityMinute} (bounded : p.Bounded)
    (accepted : p.enqueueQualityMinute script qm = some p') : p'.Bounded := by
  unfold Pending.enqueueQualityMinute at accepted
  split at accepted
  next existing found =>
    cases accepted
    apply (length_distinctMinutes_le (mem_distinctMinutes found) ?_).trans bounded
    exact fun _ _ inside => mem_distinctMinutes inside
  · obtain ⟨room, made, rfl⟩ := map_eq_some_iff.mp accepted
    obtain ⟨sub, free⟩ := makeRoom_sub made
    by_cases known : qm.minute ∈ distinctMinutes p.rows
    · -- The minute was there before, so no minute is new.
      apply (length_distinctMinutes_le known ?_).trans bounded
      exact fun mk row inside => mem_distinctMinutes (sub mk row inside)
    · -- The loop has made room for one more minute.
      have spare : (qm.minute :: distinctMinutes room.rows).length ≤ defaultMinuteBucketsCap := by
        have full := (Bool.or_eq_false_iff.mp free).2
        simpa [known, Nat.succ_le_iff] using full
      apply (length_distinctMinutes_le mem_cons_self ?_).trans spare
      exact fun _ _ inside => mem_cons_of_mem _ (mem_distinctMinutes inside)

theorem refill_bounded (originalPend : Rows) (rows : List QRow) {σ : State}
    (bounded : σ.pending.Bounded) :
    (refillQualityDelta script originalPend rows σ).pending.Bounded := by
  refine foldlRecOn (motive := fun σ : State => σ.pending.Bounded) rows _ bounded ?_
  intro σ bounded r _
  unfold refillRow
  split
  next pending accepted => exact enqueue_bounded bounded accepted
  · exact bounded

def Same (w w' : Writer) : Prop := w'.persisted = w.persisted ∧ w'.committed = w.committed

def Script.down (script : Script) : Prop := ∀ n, script.outcome n = .transient

theorem flushQualityBatch_down (cfg : SyncConfig) (down : script.down) (w : Writer)
    (rows : List QRow) : Same w (flushQualityBatch cfg script w rows).1 := by
  obtain ⟨dropped, landed, _, settles⟩ := flushQualityBatch_sorts cfg script w rows
  rcases settles.through with rfl | ⟨n, ok⟩
  · exact ⟨settles.persisted, settles.committed⟩
  · rw [down n] at ok
    cases ok

end

def Within (rows others : Rows) : Prop :=
  ∀ mk row, rows.lookup mk = some row → others.lookup mk = some row

/-- Rows of different places are put back as they were, or not at all. -/
theorem refill_within {originalPend : Rows} {rows : List QRow} {σ : State}
    (empty : σ.pending.rows = ∅) (good : Good originalPend)
    (known : ∀ r ∈ rows, ∃ qm, originalPend.lookup r.place = some qm)
    (distinct : (rows.map QRow.place).Nodup) {mk : Int × Key} {row : QualityMinute}
    (found : (refillQualityDelta script originalPend rows σ).pending.rows.lookup mk = some row) :
    mk ∈ rows.map QRow.place ∧ originalPend.lookup mk = some row := by
  induction rows using List.reverseRecOn generalizing mk row with
  | nil =>
    rw [refillQualityDelta, foldl_nil, empty] at found
    simp at found
  | append_singleton rows r ih =>
    rw [map_append, map_singleton, nodup_append] at distinct
    replace ih := @ih (forall_mem_append.mp known).1 distinct.1
    have old : ∀ {mk row},
        (refillQualityDelta script originalPend rows σ).pending.rows.lookup mk = some row →
        mk ∈ (rows ++ [r]).map QRow.place ∧ originalPend.lookup mk = some row := by
      intro mk row before
      rw [map_append]
      exact ⟨mem_append_left _ (ih before).1, (ih before).2⟩
    obtain ⟨qm, own⟩ := known r (mem_append_right _ mem_cons_self)
    have place := (good _ _ own).1
    have delta : ∀ committed, refillDelta originalPend committed r = qm :=
      fun _ => by simp only [refillDelta, own]
    rw [refillQualityDelta, foldl_append, foldl_cons, foldl_nil, refillRow] at found
    split at found
    next pending accepted =>
      rw [delta, Pending.enqueueQualityMinute, place] at accepted
      split at accepted
      next existing there => exact absurd rfl (distinct.2.2 _ (ih there).1 _ mem_cons_self)
      · obtain ⟨room, made, rfl⟩ := map_eq_some_iff.mp accepted
        simp only [lookup_insert_ite] at found
        split at found
        next same =>
          cases found
          rw [same, map_append]
          exact ⟨mem_append_right _ mem_cons_self, own⟩
        · exact old ((makeRoom_sub made).1 mk row found)
    · exact old found

/-- A flush without a database keeps some of its pending rows. -/
theorem writeRows_down {σ : State} (cfg : SyncConfig) (down : script.down)
    (empty : σ.writer.persisted = ∅) (good : Good (pendQ σ)) :
    Same σ.writer (writeRows cfg script σ).writer ∧
      Within (writeRows cfg script σ).pending.rows (pendQ σ) := by
  have clean : script.clean := fun n wrong => by rw [down n] at wrong; cases wrong
  have seqs : σ.Sequenced := fun mk row seq found => by
    rw [empty] at found
    simp at found
  obtain ⟨landed, perm, _⟩ := flushed_spec cfg clean seqs
  constructor
  · obtain ⟨pending, dropped, result, _⟩ := writeRows_refilled cfg script σ
    rw [result]
    exact flushQualityBatch_down cfg down _ _
  · rw [writeRows_eq]
    have distinct := ((allRows_ready script seqs).perm perm).distinct
    rw [map_append] at distinct
    refine fun mk row found =>
      (refill_within rfl good (fun r member => ?_) distinct.of_append_right found).2
    obtain ⟨qm, found, _⟩ := mem_allRows (perm.mem_iff.mpr (mem_append_right _ member))
    exact ⟨qm, found⟩

/-- A flush in this minute while the database is down. -/
def outageScript (minute : Int) : Script where
  minuteOf := fun _ => minute
  outcome := fun _ => .transient

def minuteAt (n : Nat) : Int := 60 * n

/-- One attempt and one flush a minute, while the database is down. -/
def outage (lg : Logarithms) (cfg : SyncConfig) : Nat → State
  | 0 => getOrCreateCell {} soleKey
  | n + 1 =>
    doPG cfg (outageScript (minuteAt n)) (completeCommon lg (outage lg cfg n) soleKey {})

/-- What a flush has to write after so many minutes. -/
structure Due (n : Nat) (σ : State) : Prop where
  active : ∃ cell, σ.active = singleton soleKey cell ∧ cell.counts .attempts = n
  last : lastCount σ soleKey .attempts = n
  cells : Cells σ
  empty : σ.writer.persisted = ∅
  unknown : σ.writer.committed = ∅
  good : Good (pendQ σ)
  rows : ∀ mk row, (pendQ σ).lookup mk = some row →
    mk.2 = soleKey ∧ mk.1 < minuteAt n ∧ row.counts .attempts ≤ 1

/-- What it leaves behind. -/
structure OutOf (n : Nat) (σ : State) : Prop extends Due n σ where
  minutes : σ.pgMinuteAbs = ∅
  bounded : σ.pending.Bounded

variable {lg : Logarithms} {cfg : SyncConfig} {σ : State} {n : Nat}

variable {cell : Cell} {τ : State} {row : QualityMinute}

theorem collect_sole (cells : Cells σ) (minutes : σ.pgMinuteAbs = ∅)
    (active : σ.active = AList.singleton soleKey cell) (counts : cell.counts .attempts = n + 1)
    (last : lastCount σ soleKey .attempts = n) (minute : Int) :
    ∃ e row, collectPGDelta (outageScript minute) σ =
        { σ with
          pgLastCell := σ.pgLastCell.insert soleKey e
          pgMinuteAbs := (∅ : Rows).insert (minute, soleKey) row } ∧
      e.snap .attempts = n + 1 ∧ (row.minute, row.key) = (minute, soleKey) ∧
      row.counts .attempts = 1 := by
  have found : σ.active.lookup soleKey = some cell := by
    rw [active]
    exact dlookup_cons_eq _ _ _
  have one : diffCellSnap cell.counts (σ.pgLastCell.lookup soleKey) cell.gen .attempts = 1 := by
    rw [cells.diff found, last, cellCount, found]
    show cell.counts .attempts - n = 1
    omega
  have counted : isZero (diffCellSnap cell.counts (σ.pgLastCell.lookup soleKey) cell.gen) = false := by
    simp [isZero, one]
  have sole : pairs σ.active = [(soleKey, cell)] := by
    rw [active]
    rfl
  refine ⟨⟨cell.counts, cell.gen⟩, ⟨minute, soleKey, cell.gen, _⟩, ?_, counts, rfl, one⟩
  rw [collectPGDelta, sole]
  simp only [foldl_cons, foldl_nil, collectCell, counted, minutes, accumulateDelta, AList.lookup_empty]
  rfl

theorem OutOf.complete (out : OutOf n σ) (lg : Logarithms) :
    ∃ cell, (completeCommon lg σ soleKey {}).active = singleton soleKey cell ∧
      cell.counts .attempts = n + 1 ∧ Cells (completeCommon lg σ soleKey {}) ∧
      completeCommon lg σ soleKey {} =
        { σ with
          active := singleton soleKey cell
          observations := σ.observations + 1 } := by
  obtain ⟨cell, active, counts⟩ := out.active
  have found : σ.active.lookup soleKey = some cell := by
    rw [active]
    exact dlookup_cons_eq _ _ _
  have cells := out.cells.complete lg found {}
  have completed : completeCommon lg σ soleKey {} =
      { σ with
        active := σ.active.insert soleKey
          { cell with counts := cell.counts + Observation.counts lg σ.observations {} }
        observations := σ.observations + 1 } := by
    simp [completeCommon, found]
  rw [← completed] at cells
  have inserted : σ.active.insert soleKey
      { cell with counts := cell.counts + Observation.counts lg σ.observations {} } =
      singleton soleKey
        { cell with counts := cell.counts + Observation.counts lg σ.observations {} } := by
    rw [active]
    exact insert_singleton_eq
  rw [inserted] at completed
  refine ⟨_, ?_, ?_, cells, completed⟩
  · rw [completed]
  · show cell.counts .attempts + 1 = n + 1
    rw [counts]

theorem Due.written (cfg : SyncConfig) (down : script.down) (due : Due n τ) :
    OutOf n (writeRows cfg script τ) := by
  obtain ⟨same, within⟩ := writeRows_down cfg down due.empty due.good
  have bounded : (writeRows cfg script τ).pending.Bounded := by
    rw [writeRows_eq]
    exact refill_bounded _ _ (Nat.zero_le _)
  obtain ⟨pending, dropped, framed, _⟩ := writeRows_refilled cfg script τ
  rw [framed] at same within bounded ⊢
  exact ⟨⟨due.active, due.last, due.cells.congr rfl rfl rfl due.cells.bound,
    same.1.trans due.empty, same.2.trans due.unknown,
    fun mk row found => due.good mk row (within mk row found),
    fun mk row found => due.rows mk row (within mk row found)⟩, rfl, bounded⟩

theorem OutOf.pendQ_eq (out : OutOf n σ) : pendQ σ = σ.pending.rows := by
  rw [pendQ, out.minutes]
  rfl

theorem OutOf.pendQ_insert (out : OutOf n σ) (pending : τ.pending = σ.pending)
    (minutes : τ.pgMinuteAbs = (∅ : Rows).insert (minuteAt n, soleKey) row) :
    pendQ τ = (pendQ σ).insert (minuteAt n, soleKey) row := by
  have fresh : (pendQ σ).lookup (minuteAt n, soleKey) = none :=
    eq_none_iff_forall_ne_some.mpr fun other old =>
      absurd (out.rows _ _ old).2.1 (Int.lt_irrefl _)
  rw [out.pendQ_eq] at fresh ⊢
  rw [pendQ, minutes, pending]
  show foldRow σ.pending.rows ((minuteAt n, soleKey), row) = _
  simp only [foldRow, fresh]

theorem Due.rows_insert (due : Due n σ) (one : row.counts .attempts = 1) :
    ∀ mk r, ((pendQ σ).insert (minuteAt n, soleKey) row).lookup mk = some r →
      mk.2 = soleKey ∧ mk.1 < minuteAt (n + 1) ∧ r.counts .attempts ≤ 1 := by
  have later : minuteAt n < minuteAt (n + 1) := by
    unfold minuteAt
    omega
  intro mk r found
  rw [lookup_insert_ite] at found
  split at found
  next here =>
    cases found
    rw [here]
    exact ⟨rfl, later, one.le⟩
  · obtain ⟨key, early, few⟩ := due.rows mk r found
    exact ⟨key, early.trans later, few⟩

theorem OutOf.next (out : OutOf n σ) (lg : Logarithms) (cfg : SyncConfig) :
    OutOf (n + 1) (doPG cfg (outageScript (minuteAt n)) (completeCommon lg σ soleKey {})) ∧
      Permitted cfg (completeCommon lg σ soleKey {}) (.flush (outageScript (minuteAt n))) := by
  obtain ⟨cell, active, counts, cells, completed⟩ := out.complete lg
  have minutes : (completeCommon lg σ soleKey {}).pgMinuteAbs = ∅ := by
    rw [completed]
    exact out.minutes
  have last : lastCount (completeCommon lg σ soleKey {}) soleKey .attempts = n := by
    rw [completed]
    exact out.last
  have collects := collectPGDelta_spec (outageScript (minuteAt n)) cells (minutes ▸ Good.empty)
  obtain ⟨e, row, collected, snap, own, one⟩ :=
    collect_sole cells minutes active counts last (minuteAt n)
  have pending : (completeCommon lg σ soleKey {}).pending = σ.pending := by rw [completed]
  have writer : (completeCommon lg σ soleKey {}).writer = σ.writer := by rw [completed]
  generalize completeCommon lg σ soleKey {} = τ₀ at *
  set turn := outageScript (minuteAt n)
  have down : turn.down := fun _ => rfl
  have due : Due (n + 1) (collectPGDelta turn τ₀) := by
    have pend := out.pendQ_insert (τ := collectPGDelta turn τ₀) (by rw [collected]; exact pending)
      (by rw [collected])
    refine ⟨⟨cell, by rw [collected]; exact active, counts⟩, ?_, collects.cells,
      by rw [collected]; exact writer ▸ out.empty, by rw [collected]; exact writer ▸ out.unknown,
      ?_, pend ▸ out.rows_insert one⟩
    · rw [collected, lastCount]
      simp only [lookup_insert, map_some, getD_some, snap]
      rfl
    · refine Good.foldMinuteMap ?_ collects.good
      rw [collected]
      exact pending ▸ out.pendQ_eq ▸ out.good
  have written := due.written cfg down
  have unpruned : Unpruned cfg turn τ₀ := by
    intro mk member
    rw [written.unknown] at member
    cases member
  have busy : idle turn (collectPGDelta turn τ₀) = false := by
    rw [collected]
    simp [idle]
  refine ⟨?_, And.intro (fun k wrong => by cases wrong) unpruned⟩
  unfold doPG
  simp only [busy, Bool.false_eq_true, if_false]
  rw [pruneLongLived_eq unpruned]
  exact written

theorem OutOf.initial : OutOf 0 (getOrCreateCell {} soleKey) :=
  ⟨⟨⟨⟨1, 0⟩, rfl, rfl⟩, rfl, Inv.initial.cells.getOrCreateCell soleKey, rfl, rfl, Good.empty,
    fun _ _ found => nomatch found⟩, rfl, Nat.zero_le _⟩

theorem outage_spec (lg : Logarithms) (cfg : SyncConfig) (n : Nat) :
    OutOf n (outage lg cfg n) ∧ Runs lg cfg (outage lg cfg n) := by
  induction n with
  | zero => exact ⟨.initial, .step (.begun soleKey) .start trivial⟩
  | succ n ih =>
    obtain ⟨out, run⟩ := ih
    obtain ⟨later, permitted⟩ := out.next lg cfg
    exact ⟨later, .step _ (.step (.complete soleKey {}) run trivial) permitted⟩

/-- The rows that are left count at most one attempt for each of their minutes. -/
theorem OutOf.pending_le (out : OutOf n σ) :
    pendingTotal σ soleKey .attempts ≤ defaultMinuteBucketsCap := by
  have each : ∀ part ∈ σ.pending.rows.keys.map (fun mk =>
      weight (share QualityMinute.counts soleKey .attempts) mk (σ.pending.rows.lookup mk)),
      part ≤ (1 : Int) := by
    intro part member
    obtain ⟨mk, listed, rfl⟩ := mem_map.mp member
    obtain ⟨row, found⟩ := isSome_iff_exists.mp (lookup_isSome.mpr listed)
    obtain ⟨key, _, few⟩ := out.rows mk row (out.pendQ_eq ▸ found)
    rw [found, weight_some, share, if_pos key]
    exact few
  have sum := sum_le_card_nsmul _ 1 each
  rw [length_map, nsmul_one] at sum
  have distinct : (σ.pending.rows.keys.map Prod.fst).Nodup := by
    refine List.Nodup.map_on (fun mk listed mk' listed' same => ?_) σ.pending.rows.nodupKeys
    obtain ⟨row, found⟩ := isSome_iff_exists.mp (lookup_isSome.mpr listed)
    obtain ⟨row', found'⟩ := isSome_iff_exists.mp (lookup_isSome.mpr listed')
    rw [← out.pendQ_eq] at found found'
    exact Prod.ext same ((out.rows mk row found).1.trans (out.rows mk' row' found').1.symm)
  have bounded := out.bounded
  rw [Pending.Bounded, distinctMinutes, distinct.dedup, length_map] at bounded
  have none : total σ.pgMinuteAbs soleKey .attempts = 0 := by
    rw [out.minutes]
    rfl
  rw [pendingTotal, none, total, totalOf_eq_keys]
  omega

/-- After 4097 minutes the database holds nothing, and at least one attempt is gone. -/
theorem long_outage_loses :
    Runs ⟨id, id⟩ ⟨500, by decide⟩ (outage ⟨id, id⟩ ⟨500, by decide⟩ 4097) ∧
      persistedTotal (outage ⟨id, id⟩ ⟨500, by decide⟩ 4097) soleKey .attempts +
          pendingTotal (outage ⟨id, id⟩ ⟨500, by decide⟩ 4097) soleKey .attempts <
        lastCount (outage ⟨id, id⟩ ⟨500, by decide⟩ 4097) soleKey .attempts := by
  obtain ⟨out, run⟩ := outage_spec ⟨id, id⟩ ⟨500, by decide⟩ 4097
  refine ⟨run, ?_⟩
  have few := out.pending_le
  have empty : persistedTotal (outage ⟨id, id⟩ ⟨500, by decide⟩ 4097) soleKey .attempts = 0 := by
    rw [persistedTotal, out.empty]
    rfl
  rw [empty, out.last, zero_add]
  apply lt_of_le_of_lt few
  decide

end C3Api.Quality.Sync
