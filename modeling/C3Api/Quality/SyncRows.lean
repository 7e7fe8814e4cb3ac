import C3Api.Quality.Sync
import C3Api.ReadCommitted.Table
import Mathlib.Algebra.Order.Group.Multiset
import Mathlib.Data.List.Induction

/-!
# What rows count

The counts of a key are summed over its minutes. Accumulating, merging and putting back rows
adds what they count, and the flush of a batch lands some rows and leaves the others.
-/

namespace C3Api.Quality.Sync

open FiniteMap ReadCommitted List Writer

section

variable {V : Type} (counts : V → Counts) (key : Key) (c : Counter)

def share (mk : Int × Key) (v : V) : Int := if mk.2 = key then counts v c else 0

def totalOf (rows : Map (Int × Key) V) : Int := tally (share counts key c) rows

variable {counts key c}

variable (rows : Map (Int × Key) V)

theorem totalOf_insert (mk : Int × Key) (v : V) :
    totalOf counts key c (rows.insert mk v) = totalOf counts key c rows +
      (share counts key c mk v - weight (share counts key c) mk (rows.lookup mk)) := by
  have moved := tally_put (share counts key c) rows mk (some v)
  rw [weight_some] at moved
  apply moved.trans
  rw [totalOf]
  omega

theorem totalOf_insertAll {entries : List ((Int × Key) × V)}
    (distinct : (entries.map Prod.fst).Nodup) :
    totalOf counts key c (insertAll rows entries) = totalOf counts key c rows +
      (entries.map fun e => share counts key c e.1 e.2 -
        weight (share counts key c) e.1 (rows.lookup e.1)).sum := by
  induction entries generalizing rows with
  | nil => simp
  | cons e rest ih =>
    rw [map_cons, nodup_cons] at distinct
    have unchanged : (rest.map fun e' => share counts key c e'.1 e'.2 -
        weight (share counts key c) e'.1 ((rows.insert e.1 e.2).lookup e'.1)) =
        rest.map fun e' => share counts key c e'.1 e'.2 -
          weight (share counts key c) e'.1 (rows.lookup e'.1) := by
      refine map_congr_left fun e' member => ?_
      have other : e'.1 ≠ e.1 := fun same =>
        distinct.1 (same ▸ mem_map_of_mem member)
      rw [lookup_insert_ite, if_neg other]
    rw [insertAll_cons, ih _ distinct.2, unchanged, totalOf_insert, map_cons, sum_cons]
    omega

theorem totalOf_eq_keys :
    totalOf counts key c rows =
      (rows.keys.map fun mk => weight (share counts key c) mk (rows.lookup mk)).sum := by
  unfold totalOf tally AList.keys List.keys
  rw [map_map]
  congr 1
  refine map_congr_left fun e member => ?_
  have found : rows.lookup e.1 = some e.2 := AList.mem_lookup_iff.mpr member
  simp [found]

end

def total (rows : Rows) (key : Key) (c : Counter) : Int := totalOf QualityMinute.counts key c rows

section

variable {key : Key} {c : Counter}

variable {rows : Rows} {mk : Int × Key} {row : QualityMinute} (dst : Rows)

theorem total_accumulateDelta (minute : Int) (k : Key) (gen : Nat) (d : Counts) :
    total (accumulateDelta dst minute k gen d) key c =
      total dst key c + if k = key then d c else 0 := by
  unfold accumulateDelta total
  split
  next existing found =>
    rw [totalOf_insert, found]
    simp only [weight_some, share, Pi.add_apply]
    split <;> omega
  next absent =>
    rw [totalOf_insert, absent]
    simp only [weight_none, share, sub_zero]

theorem total_foldRow (e : (Int × Key) × QualityMinute) :
    total (foldRow dst e) key c = total dst key c + share QualityMinute.counts key c e.1 e.2 := by
  unfold foldRow total
  split
  next existing found =>
    rw [totalOf_insert, found]
    simp only [weight_some, share, QualityMinute.merge, Pi.add_apply]
    split <;> omega
  next absent =>
    rw [totalOf_insert, absent]
    simp only [weight_none, sub_zero]

theorem total_foldl (entries : List ((Int × Key) × QualityMinute)) (dst : Rows) :
    total (entries.foldl foldRow dst) key c = total dst key c +
      (entries.map fun e => share QualityMinute.counts key c e.1 e.2).sum := by
  induction entries generalizing dst with
  | nil => simp
  | cons e rest ih =>
    rw [foldl_cons, ih, total_foldRow, map_cons, sum_cons]
    omega

theorem total_foldMinuteMap (src : Rows) :
    total (foldMinuteMap dst src) key c = total dst key c + total src key c := by
  rw [foldMinuteMap, total_foldl, pairs, map_map]
  rfl

/-- Rows that are stored under their own minute and key, and contain no observation a negative
number of times. -/
def Good (rows : Rows) : Prop :=
  ∀ mk row, rows.lookup mk = some row →
    (row.minute, row.key) = mk ∧ ∀ n, 0 ≤ row.counts (.contains n)

theorem Good.empty : Good ∅ := fun _ _ found => by simp at found

theorem Good.insert (good : Good rows) (own : (row.minute, row.key) = mk)
    (nonneg : ∀ n, 0 ≤ row.counts (.contains n)) : Good (rows.insert mk row) := by
  intro j other found
  rw [lookup_insert_ite] at found
  split at found
  next same =>
    cases found
    exact ⟨own.trans same.symm, nonneg⟩
  · exact good j other found

theorem Good.accumulateDelta {dst : Rows} (good : Good dst) (minute : Int) (k : Key) (gen : Nat)
    {d : Counts} (nonneg : ∀ n, 0 ≤ d (.contains n)) :
    Good (accumulateDelta dst minute k gen d) := by
  unfold Sync.accumulateDelta
  split
  next existing found =>
    obtain ⟨own, before⟩ := good _ _ found
    exact good.insert own fun n => add_nonneg (before n) (nonneg n)
  · exact good.insert rfl nonneg

theorem Good.merge (good : Good rows) {existing : QualityMinute}
    (found : rows.lookup mk = some existing) (nonneg : ∀ n, 0 ≤ row.counts (.contains n)) :
    Good (rows.insert mk (existing.merge row)) := by
  obtain ⟨own, before⟩ := good _ _ found
  exact good.insert own fun n => add_nonneg (before n) (nonneg n)

theorem Good.foldl {entries : List ((Int × Key) × QualityMinute)} {dst : Rows} (good : Good dst)
    (each : ∀ e ∈ entries, (e.2.minute, e.2.key) = e.1 ∧ ∀ n, 0 ≤ e.2.counts (.contains n)) :
    Good (entries.foldl foldRow dst) := by
  refine foldlRecOn entries foldRow good fun dst good e member => ?_
  obtain ⟨own, nonneg⟩ := each e member
  unfold foldRow
  split
  next existing found => exact good.merge found nonneg
  · exact good.insert own nonneg

theorem Good.foldMinuteMap {dst src : Rows} (good : Good dst) (others : Good src) :
    Good (foldMinuteMap dst src) :=
  good.foldl fun e member => others e.1 e.2 (mem_pairs.mp member)

end

section

def leftHalf (chunk : List QRow) : List QRow := chunk.take (chunk.length / 2)

def rightHalf (chunk : List QRow) : List QRow := chunk.drop (chunk.length / 2)

/-- The rows that `bisectQuality` hands to the database, each time with the writer before. -/
inductive BisectTries (script : Script) : Writer → List QRow → Writer → List QRow → Prop
  | alone {w row} : BisectTries script w [row] w [row]
  | left {w chunk} (many : 1 < chunk.length) : BisectTries script w chunk w (leftHalf chunk)
  | right {w chunk} (many : 1 < chunk.length)
      (failed : (insertAndMark script w (leftHalf chunk)).2.2 ≠ .ok) :
      BisectTries script w chunk (insertAndMark script w (leftHalf chunk)).1 (rightHalf chunk)
  | inRight {w chunk w₁ part} (many : 1 < chunk.length)
      (ok : (insertAndMark script w (leftHalf chunk)).2.2 = .ok)
      (later : BisectTries script (insertAndMark script w (leftHalf chunk)).1 (rightHalf chunk)
        w₁ part) : BisectTries script w chunk w₁ part
  | inLeft {w w' chunk w₁ part} (many : 1 < chunk.length)
      (failed : (insertAndMark script w (leftHalf chunk)).2.2 ≠ .ok)
      (before : w' = (insertAndMark script w (leftHalf chunk)).1)
      (ok : (insertAndMark script w' (rightHalf chunk)).2.2 = .ok)
      (later : BisectTries script (insertAndMark script w' (rightHalf chunk)).1
        (insertAndMark script w (leftHalf chunk)).2.1 w₁ part) : BisectTries script w chunk w₁ part

/-- Those of the chunks of one minute. -/
inductive ShardTries (cfg : SyncConfig) (script : Script) (minute : Int) :
    Writer → List QRow → Writer → List QRow → Prop
  | chunk {w shard} (some : shard ≠ []) (early : ¬ script.late minute shard.length) :
      ShardTries cfg script minute w shard w (shard.take cfg.batchSize)
  | next {w w' shard left error w₁ part} (some : shard ≠ [])
      (early : ¬ script.late minute shard.length)
      (tried : insertAndMark script w (shard.take cfg.batchSize) = (w', left, error))
      (single : error = .ok ∨ ∃ row, left = [row])
      (later : ShardTries cfg script minute
        (if error = .rowData then { w' with poison := w'.poison + 1 } else w')
        (shard.drop cfg.batchSize) w₁ part) : ShardTries cfg script minute w shard w₁ part
  | bisected {w w' shard left error w₁ part} (some : shard ≠ [])
      (early : ¬ script.late minute shard.length)
      (tried : insertAndMark script w (shard.take cfg.batchSize) = (w', left, error))
      (several : error ≠ .ok ∧ ∀ row, left ≠ [row]) (later : BisectTries script w' left w₁ part) :
      ShardTries cfg script minute w shard w₁ part

/-- Those of a flush. -/
def BatchTries (cfg : SyncConfig) (script : Script) (w : Writer) (rows : List QRow)
    (w₁ : Writer) (part : List QRow) : Prop :=
  ∃ before minute, before ++ [minute] <+: arrange script.shardOrder (rows.map (·.minute)).dedup ∧
    ShardTries cfg script minute (before.foldl (flushMinute cfg script rows) (w, [])).1
      (rows.filter fun r => r.minute = minute) w₁ part

/-- A part that the flush tried was stopped by an error that blames the row. -/
def Blamed (cfg : SyncConfig) (script : Script) (w : Writer) (rows : List QRow) (r : QRow) : Prop :=
  ∃ w₁ part rest, BatchTries cfg script w rows w₁ part ∧
    (insertQualityChunk script w₁ part).2 = (r :: rest, .rowData)

/-- How a writer moves when these rows land and those are dropped. -/
structure Settles (script : Script) (Blames : QRow → Prop) (w w' : Writer)
    (landed dropped : List QRow) : Prop where
  persisted : w'.persisted = (landed.foldl upsert w).persisted
  committed : w'.committed = insertAll w.committed (landed.map fun r => (r.place, r.qm))
  poison : w'.poison = w.poison + dropped.length
  through : landed = [] ∨ ∃ n, script.outcome n = .ok
  blamed : ∀ r ∈ dropped, Blames r

theorem upsert_frame (w : Writer) (r : QRow) :
    ∃ persisted, w.upsert r = { w with persisted := persisted } := by
  unfold upsert
  split
  · split
    · exact ⟨_, rfl⟩
    · exact ⟨_, rfl⟩
  · exact ⟨_, rfl⟩

theorem persisted_foldl_upsert {w w' : Writer} (same : w'.persisted = w.persisted)
    (rows : List QRow) : (rows.foldl upsert w').persisted = (rows.foldl upsert w).persisted := by
  refine foldl_rel (r := fun w' w : Writer => w'.persisted = w.persisted) same ?_
  intro r _ w' w same
  unfold upsert
  rw [same]
  split
  · split
    · rfl
    · exact same
  · rfl

variable {script : Script} {w w' w'' : Writer} {xs ys rows rest chunk : List QRow}

variable {landed landed' dropped dropped' todo todo' : List QRow} {Blames : QRow → Prop}

theorem Settles.refl (w : Writer) : Settles script Blames w w [] [] :=
  ⟨rfl, rfl, rfl, .inl rfl, fun _ none => absurd none not_mem_nil⟩

theorem Settles.trans (first : Settles script Blames w w' landed dropped)
    (second : Settles script Blames w' w'' landed' dropped') :
    Settles script Blames w w'' (landed ++ landed') (dropped ++ dropped') := by
  constructor
  · rw [second.persisted, foldl_append, persisted_foldl_upsert first.persisted]
  · rw [second.committed, first.committed, map_append]
    exact foldl_append.symm
  · rw [second.poison, first.poison, length_append, Nat.add_assoc]
  · rcases first.through with rfl | some
    · exact second.through
    · exact .inr some
  · exact fun r member => (mem_append.mp member).elim (first.blamed r) (second.blamed r)

/-- Of these rows some land, some are dropped, and the others are left. -/
def Sorts (script : Script) (Blames : QRow → Prop) (w : Writer) (rows : List QRow) (w' : Writer)
    (dropped left : List QRow) : Prop :=
  ∃ landed : List QRow, (rows : Multiset QRow) = ↑landed + (↑dropped + ↑left) ∧
    Settles script Blames w w' landed dropped

theorem Sorts.none (w : Writer) (rows : List QRow) : Sorts script Blames w rows w [] rows :=
  ⟨[], by simp, .refl w⟩

theorem Sorts.append (first : Sorts script Blames w xs w' dropped todo)
    (second : Sorts script Blames w' ys w'' dropped' todo') :
    Sorts script Blames w (xs ++ ys) w'' (dropped ++ dropped') (todo ++ todo') := by
  obtain ⟨landed, parts, settles⟩ := first
  obtain ⟨landed', parts', settles'⟩ := second
  refine ⟨landed ++ landed', ?_, settles.trans settles'⟩
  simp only [← Multiset.coe_add, parts, parts']
  abel

theorem Sorts.retry (first : Sorts script Blames w rows w' [] todo)
    (second : Sorts script Blames w' todo w'' dropped rest) :
    Sorts script Blames w rows w'' dropped rest := by
  obtain ⟨landed, parts, settles⟩ := first
  obtain ⟨landed', parts', settles'⟩ := second
  refine ⟨landed ++ landed', ?_, settles.trans settles'⟩
  rw [parts, parts', ← Multiset.coe_add, Multiset.coe_nil, zero_add, add_assoc]

/-- The row that stopped a chunk is dropped. -/
theorem Sorts.drop {r : QRow} (first : Sorts script Blames w rows w' [] [r]) (blamed : Blames r) :
    Sorts script Blames w rows { w' with poison := w'.poison + 1 } [r] [] := by
  obtain ⟨landed, parts, settles⟩ := first
  refine ⟨landed, ?_, settles.persisted, settles.committed, congrArg (· + 1) settles.poison,
    settles.through, fun r' member => mem_singleton.mp member ▸ blamed⟩
  rw [parts, Multiset.coe_nil, zero_add, add_zero]

theorem insertQualityChunk_spec (script : Script) (w : Writer) (chunk : List QRow) :
    ∃ landed, chunk = landed ++ (insertQualityChunk script w chunk).2.1 ∧
      (insertQualityChunk script w chunk).1.committed = w.committed ∧ Settles script Blames w
        (markQualityCommitted (insertQualityChunk script w chunk).1 landed) landed [] ∧
      ((insertQualityChunk script w chunk).2.2 = .ok ↔
        (insertQualityChunk script w chunk).2.1 = []) := by
  induction chunk generalizing w with
  | nil => exact ⟨[], rfl, rfl, .refl w, fun _ => rfl, fun _ => rfl⟩
  | cons r rest ih =>
    unfold insertQualityChunk
    split
    next ok =>
      obtain ⟨persisted, upserted⟩ := upsert_frame w r
      obtain ⟨landed, split, committed, settles, finished⟩ :=
        ih ⟨persisted, w.committed, w.calls + 1, w.poison⟩
      rw [upserted]
      refine ⟨r :: landed, congrArg (r :: ·) split, committed,
        ⟨?_, congrArg (insertAll · _) committed, settles.poison, .inr ⟨_, ok⟩, settles.blamed⟩, finished⟩
      rw [foldl_cons, upserted]
      exact settles.persisted.trans (persisted_foldl_upsert (by rfl) landed)
    next failed =>
      refine ⟨[], rfl, rfl, ⟨rfl, rfl, rfl, .inl rfl, fun _ none => absurd none not_mem_nil⟩,
        fun ok => absurd ok failed, fun none => ?_⟩
      cases none

theorem insertAndMark_spec (script : Script) (Blames : QRow → Prop) (w : Writer)
    (chunk : List QRow) :
    Sorts script Blames w chunk (insertAndMark script w chunk).1 [] (insertAndMark script w chunk).2.1 ∧
      ((insertAndMark script w chunk).2.2 = .ok ↔ (insertAndMark script w chunk).2.1 = []) := by
  obtain ⟨landed, split, _, settles, finished⟩ := insertQualityChunk_spec script w chunk
  have marked : chunk.take (chunk.length - (insertQualityChunk script w chunk).2.1.length) =
      landed := by
    have lengths := congrArg List.length split
    rw [length_append] at lengths
    rw [lengths, Nat.add_sub_cancel, split, take_left]
  refine ⟨⟨landed, congrArg _ split, ?_⟩, finished⟩
  simpa only [insertAndMark, marked] using settles

theorem insertAndMark_sorts {error : UpsertOutcome}
    (tried : insertAndMark script w chunk = (w', todo, error)) :
    Sorts script Blames w chunk w' [] todo := by
  have sorts := (insertAndMark_spec script Blames w chunk).1
  rwa [tried] at sorts

/-- A row that fails alone is left. -/
theorem insertAndMark_alone {row : QRow} {error : UpsertOutcome}
    (tried : insertAndMark script w [row] = (w', todo, error)) (wrong : error ≠ .ok) :
    todo = [row] := by
  cases outcome : script.outcome w.calls with
  | ok =>
    simp only [insertAndMark, insertQualityChunk, outcome] at tried
    cases tried
    exact absurd rfl wrong
  | transient | rowData =>
    simp only [insertAndMark, insertQualityChunk, outcome] at tried
    cases tried
    rfl

theorem halves (chunk : List QRow) : chunk = leftHalf chunk ++ rightHalf chunk :=
  (take_append_drop _ _).symm

theorem bisectQuality_spec (blames : ∀ w₁ part r left, BisectTries script w chunk w₁ part →
      (insertAndMark script w₁ part).2 = (r :: left, .rowData) → Blames r) :
    Sorts script Blames w chunk { (bisectQuality script w chunk).1 with
        poison := (bisectQuality script w chunk).1.poison +
          (bisectQuality script w chunk).2.1.toList.length }
      (bisectQuality script w chunk).2.1.toList (bisectQuality script w chunk).2.2 := by
  fun_induction bisectQuality script w chunk with
  | case1 w => exact .none w []
  | case2 w row w' left tried =>
    obtain ⟨sorts, finished⟩ := insertAndMark_spec script Blames w [row]
    rw [tried] at sorts finished
    cases finished.mp rfl
    exact sorts
  | case3 w row w' left tried =>
    cases insertAndMark_alone tried (by simp)
    exact (insertAndMark_sorts tried).drop (blames w [row] row [] .alone (by rw [tried]))
  | case4 w row w' left tried =>
    cases insertAndMark_alone tried (by simp)
    exact insertAndMark_sorts tried
  | case5 w first second rest chunk left right leftResult ok ih =>
    obtain ⟨sorts, finished⟩ := insertAndMark_spec script Blames w left
    rw [finished.mp ok] at sorts
    rw [halves (first :: second :: rest)]
    exact sorts.append (ih fun w₁ part r rest tried =>
      blames w₁ part r rest (.inRight (by simp) ok tried))
  | case6 w first second rest chunk left right leftResult wrong rightResult ok ih =>
    obtain ⟨sorts, finished⟩ := insertAndMark_spec script Blames leftResult.1 right
    rw [finished.mp ok] at sorts
    have both := (insertAndMark_spec script Blames w left).1.append sorts
    simp only [append_nil] at both
    rw [halves (first :: second :: rest)]
    exact both.retry (ih fun w₁ part r rest tried =>
      blames w₁ part r rest (.inLeft (by simp) wrong rfl ok tried))
  | case7 w first second rest chunk left right leftResult wrong rightResult wrong' =>
    rw [halves (first :: second :: rest)]
    exact (insertAndMark_spec script Blames w left).1.append
      (insertAndMark_spec script Blames leftResult.1 right).1

theorem flushShard_spec (Blames : QRow → Prop) (cfg : SyncConfig) (minute : Int) {shard : List QRow}
    (blames : ∀ w₁ part r left, ShardTries cfg script minute w shard w₁ part →
      (insertAndMark script w₁ part).2 = (r :: left, .rowData) → Blames r) :
    ∃ dropped, Sorts script Blames w shard (flushShard cfg script minute w shard).1 dropped
      (flushShard cfg script minute w shard).2 := by
  fun_induction flushShard cfg script minute w shard with
  | case1 w => exact ⟨[], .none w []⟩
  | case2 w shard => exact ⟨[], .none w shard⟩
  | case3 w shard some early chunk rest w' left tried ih =>
    obtain ⟨sorts, finished⟩ := insertAndMark_spec script Blames w chunk
    rw [tried] at sorts finished
    cases finished.mp rfl
    obtain ⟨dropped, later⟩ := ih fun w₁ part r left further =>
      blames w₁ part r left (.next some early tried (.inl rfl) further)
    rw [← take_append_drop cfg.batchSize shard]
    exact ⟨_, sorts.append later⟩
  | case4 w shard some early chunk rest w' row _ tried ih =>
    obtain ⟨dropped, later⟩ := ih fun w₁ part r left further =>
      blames w₁ part r left (.next some early tried (.inr ⟨row, rfl⟩) further)
    have sorts := (insertAndMark_sorts tried).drop
      (blames w chunk row [] (.chunk some early) (by rw [tried]))
    rw [← take_append_drop cfg.batchSize shard]
    exact ⟨_, sorts.append later⟩
  | case5 w shard some early chunk rest w' row error ok tried wrong w'' failed flushed ih =>
    obtain ⟨dropped, later⟩ := ih fun w₁ part r left further =>
      blames w₁ part r left (.next some early tried (.inr ⟨row, rfl⟩) (by rwa [if_neg wrong]))
    rw [flushed] at later
    rw [← take_append_drop cfg.batchSize shard]
    exact ⟨_, (insertAndMark_sorts tried).append later⟩
  | case6 w shard some early chunk rest w' left error ok several tried w'' poison refill bisected =>
    have halved := bisectQuality_spec fun w₁ part r left' further =>
      blames w₁ part r left' (.bisected some early tried ⟨ok, several⟩ further)
    rw [bisected] at halved
    have all := ((insertAndMark_sorts tried).retry halved).append (.none _ rest)
    rw [← take_append_drop cfg.batchSize shard]
    exact ⟨_, all⟩

theorem arrange_perm {α : Type} [DecidableEq α] (order : List α → List α) (entries : List α) :
    (arrange order entries).Perm entries := by
  unfold arrange
  split
  next same => exact same
  · exact .refl _

theorem flushQualityBatch_sorts (cfg : SyncConfig) (script : Script) (w : Writer)
    (rows : List QRow) :
    ∃ dropped, Sorts script (Blamed cfg script w rows) w rows
      (flushQualityBatch cfg script w rows).1 dropped (flushQualityBatch cfg script w rows).2 := by
  have minutes := arrange_perm script.shardOrder (rows.map (·.minute)).dedup
  have folded : ∀ first, first <+: arrange script.shardOrder (rows.map (·.minute)).dedup →
      ∃ dropped, Sorts script (Blamed cfg script w rows) w
        (first.flatMap fun m => rows.filter fun r => r.minute = m)
        (first.foldl (flushMinute cfg script rows) (w, [])).1 dropped
        (first.foldl (flushMinute cfg script rows) (w, [])).2 := by
    intro first
    induction first using List.reverseRecOn with
    | nil => exact fun _ => ⟨[], .none w []⟩
    | append_singleton first minute ih =>
      intro started
      obtain ⟨dropped, earlier⟩ := ih ((prefix_append _ _).trans started)
      obtain ⟨dropped', last⟩ := flushShard_spec (Blamed cfg script w rows) cfg minute
        fun w₁ part r rest tried error => ⟨w₁, part, rest, ⟨first, minute, started, tried⟩, error⟩
      rw [foldl_append, flatMap_append, flatMap_singleton]
      exact ⟨_, earlier.append last⟩
  have all : (rows.filter fun r =>
      r.minute ∈ arrange script.shardOrder (rows.map (·.minute)).dedup) = rows := by
    refine filter_eq_self.mpr fun r member => decide_eq_true ?_
    exact minutes.mem_iff.mpr (mem_dedup.mpr (mem_map_of_mem member))
  have groups := flatMap_filter_perm (fun r : QRow => r.minute)
    (minutes.nodup_iff.mpr (nodup_dedup _)) rows
  rw [all] at groups
  obtain ⟨dropped, landed, parts, settles⟩ := folded _ prefix_rfl
  rw [Multiset.coe_eq_coe.mpr groups] at parts
  exact ⟨dropped, landed, parts, settles⟩

/-- Whatever the upserts answer: every row of a batch is committed, dropped or returned, and a
row is dropped only after its own upsert has blamed it. -/
theorem batch_rows_classified (cfg : SyncConfig) (script : Script) (w : Writer) (rows : List QRow) :
    ∃ landed dropped, rows.Perm (landed ++ (dropped ++ (flushQualityBatch cfg script w rows).2)) ∧
      (flushQualityBatch cfg script w rows).1.persisted = (landed.foldl upsert w).persisted ∧
      (flushQualityBatch cfg script w rows).1.committed =
        insertAll w.committed (landed.map fun r => (r.place, r.qm)) ∧
      (flushQualityBatch cfg script w rows).1.poison = w.poison + dropped.length ∧
      ∀ r ∈ dropped, Blamed cfg script w rows r := by
  obtain ⟨dropped, landed, parts, settles⟩ := flushQualityBatch_sorts cfg script w rows
  exact ⟨landed, dropped, Multiset.coe_eq_coe.mp parts, settles.persisted, settles.committed,
    settles.poison, settles.blamed⟩

/-- The rows that got through are in the database and known to the worker. -/
structure Lands (w w' : Writer) (landed : List QRow) : Prop where
  persisted : w'.persisted = insertAll w.persisted (landed.map fun r => (r.place, (r.qm, r.seq)))
  committed : w'.committed = insertAll w.committed (landed.map fun r => (r.place, r.qm))

/-- Of these rows some land, and the others are left. -/
def Writes (w : Writer) (rows : List QRow) (w' : Writer) (left : List QRow) : Prop :=
  ∃ landed, rows.Perm (landed ++ left) ∧ Lands w w' landed

/-- Rows of different places, newer than what the database holds there. -/
structure Ready (w : Writer) (rows : List QRow) : Prop where
  distinct : (rows.map QRow.place).Nodup
  newer : ∀ r ∈ rows, ∀ row seq, w.persisted.lookup r.place = some (row, seq) → seq < r.seq

theorem Ready.perm {others : List QRow} (ready : Ready w rows) (same : rows.Perm others) :
    Ready w others :=
  ⟨(same.map _).nodup_iff.mp ready.distinct, fun r member => ready.newer r (same.mem_iff.mpr member)⟩

theorem Ready.left (ready : Ready w (xs ++ ys)) : Ready w xs := by
  have distinct := ready.distinct
  rw [map_append] at distinct
  exact ⟨distinct.of_append_left, (forall_mem_append.mp ready.newer).1⟩

theorem Ready.persisted (ready : Ready w rows) : (rows.foldl upsert w).persisted =
    insertAll w.persisted (rows.map fun r => (r.place, (r.qm, r.seq))) := by
  induction rows generalizing w with
  | nil => rfl
  | cons r rest ih =>
    have upserted : w.upsert r =
        { w with persisted := w.persisted.insert r.place (r.qm, r.seq) } := by
      unfold upsert
      split
      next row seq found => rw [if_pos (ready.newer r mem_cons_self row seq found)]
      · rfl
    have distinct := ready.distinct
    rw [map_cons, nodup_cons] at distinct
    rw [foldl_cons, upserted]
    refine ih ⟨distinct.2, fun r' member row seq found => ?_⟩
    have other : r'.place ≠ r.place := fun same => distinct.1 (same ▸ mem_map_of_mem member)
    rw [lookup_insert_ite, if_neg other] at found
    exact ready.newer r' (mem_cons_of_mem _ member) row seq found

def Script.clean (script : Script) : Prop := ∀ n, script.outcome n ≠ .rowData

theorem insertQualityChunk_clean (clean : script.clean) (w : Writer) (chunk : List QRow) :
    (insertQualityChunk script w chunk).2.2 ≠ .rowData := by
  induction chunk generalizing w with
  | nil => exact nofun
  | cons r rest ih =>
    unfold insertQualityChunk
    split
    · exact ih _
    · exact clean w.calls

theorem flushQualityBatch_spec (cfg : SyncConfig) (clean : script.clean) (ready : Ready w rows) :
    Writes w rows (flushQualityBatch cfg script w rows).1
      (flushQualityBatch cfg script w rows).2 := by
  obtain ⟨dropped, landed, parts, settles⟩ := flushQualityBatch_sorts cfg script w rows
  obtain rfl : dropped = [] := by
    refine eq_nil_iff_forall_not_mem.mpr fun r member => ?_
    obtain ⟨w₁, part, rest, _, error⟩ := settles.blamed r member
    exact insertQualityChunk_clean clean w₁ part (congrArg Prod.snd error)
  have perm := Multiset.coe_eq_coe.mp parts
  exact ⟨landed, perm, settles.persisted.trans (ready.perm perm).left.persisted, settles.committed⟩

end

variable {script : Script} {p p' : Pending} {newMinute : Bool} {fuel : Nat}

/-- What an eviction keeps holds when room is made. -/
theorem makeRoom_keeps {I : Pending → Prop}
    (evicts : ∀ p mk, I p → I ⟨p.rows.erase mk, p.bytes - estimatedQualityRowBytes,
      p.qualityOverflow + 1⟩) (before : I p) (room : p.makeRoom script newMinute fuel = some p') :
    I p' ∧ p'.full newMinute = false := by
  induction fuel generalizing p with
  | zero =>
    unfold Pending.makeRoom at room
    split at room
    · cases room
    rename_i free
    cases room
    exact ⟨before, by simpa using free⟩
  | succ fuel ih =>
    unfold Pending.makeRoom at room
    split at room
    · obtain ⟨q, evicted, later⟩ := Option.bind_eq_some_iff.mp room
      obtain ⟨mk, _, rfl⟩ := Option.map_eq_some_iff.mp evicted
      exact ih (evicts p mk before) later
    next free =>
      cases room
      exact ⟨before, by simpa using free⟩

theorem makeRoom_spec (room : p.makeRoom script newMinute fuel = some p') :
    p' = p ∨ p.qualityOverflow < p'.qualityOverflow := by
  refine (makeRoom_keeps (I := fun q => q = p ∨ p.qualityOverflow < q.qualityOverflow) ?_
    (.inl rfl) room).1
  rintro q mk (rfl | less)
  · exact .inr (Nat.lt_succ_self _)
  · exact .inr (Nat.lt_succ_of_lt less)

/-- What an accepted row does to the pending rows, if no other one is evicted for it. -/
theorem enqueue_spec {qm : QualityMinute} (accepted : p.enqueueQualityMinute script qm = some p') :
    p.qualityOverflow ≤ p'.qualityOverflow ∧
      (p'.qualityOverflow = p.qualityOverflow → p'.rows = foldRow p.rows ((qm.minute, qm.key), qm)) := by
  unfold Pending.enqueueQualityMinute at accepted
  split at accepted
  next existing found =>
    cases accepted
    refine ⟨Nat.le_refl _, fun _ => ?_⟩
    simp only [foldRow, found]
  next absent =>
    obtain ⟨room, made, rfl⟩ := Option.map_eq_some_iff.mp accepted
    rcases makeRoom_spec made with rfl | less
    · refine ⟨Nat.le_refl _, fun _ => ?_⟩
      simp only [foldRow, absent]
    · exact ⟨less.le, fun same => absurd same less.ne'⟩

def losses (σ : State) : Nat := σ.pending.qualityOverflow + σ.droppedQuality

/-- The entry that a refill folds back for a row of the flush. -/
def refillEntry (originalPend committed : Rows) (r : QRow) : (Int × Key) × QualityMinute :=
  (((refillDelta originalPend committed r).minute, (refillDelta originalPend committed r).key),
    refillDelta originalPend committed r)

/-- `σ'` has the entries among its pending rows or counts losses. -/
def Refilled (σ σ' : State) (entries : List ((Int × Key) × QualityMinute)) : Prop :=
  ∃ pending dropped, σ' = { σ with pending := pending, droppedQuality := dropped } ∧
    losses σ ≤ pending.qualityOverflow + dropped ∧
    (pending.qualityOverflow + dropped = losses σ →
      pending.rows = entries.foldl foldRow σ.pending.rows)

theorem refillRow_spec (script : Script) (originalPend : Rows) (σ : State) (r : QRow) :
    Refilled σ (refillRow script originalPend σ r)
      [refillEntry originalPend σ.writer.committed r] := by
  unfold refillRow
  split
  next pending accepted =>
    obtain ⟨more, kept⟩ := enqueue_spec accepted
    exact ⟨pending, σ.droppedQuality, rfl, Nat.add_le_add_right more _,
      fun same => kept (Nat.add_right_cancel same)⟩
  · refine ⟨σ.pending, σ.droppedQuality + 1, rfl, ?_, fun same => ?_⟩
    · exact Nat.le_succ _
    · simp only [losses] at same
      omega

/-- A refill without losses folds all its rows into the pending ones. -/
theorem refill_spec (script : Script) (originalPend : Rows) (rows : List QRow) (σ : State) :
    Refilled σ (refillQualityDelta script originalPend rows σ)
      (rows.map (refillEntry originalPend σ.writer.committed)) := by
  induction rows generalizing σ with
  | nil => exact ⟨σ.pending, σ.droppedQuality, rfl, Nat.le_refl _, fun _ => rfl⟩
  | cons r rest ih =>
    obtain ⟨pending, dropped, first, less, kept⟩ :=
      refillRow_spec script originalPend σ r
    obtain ⟨pending', dropped', later, less', kept'⟩ :=
      ih { σ with pending := pending, droppedQuality := dropped }
    refine ⟨pending', dropped', ?_, Nat.le_trans less less', fun same => ?_⟩
    · rw [refillQualityDelta, foldl_cons, first]
      exact later
    have equal : pending.qualityOverflow + dropped = losses σ :=
      Nat.le_antisymm (less'.trans same.le) less
    have same' : pending'.qualityOverflow + dropped' =
        losses { σ with pending := pending, droppedQuality := dropped } := same.trans equal.symm
    rw [kept' same', map_cons, foldl_cons, kept equal]
    rfl

end C3Api.Quality.Sync
