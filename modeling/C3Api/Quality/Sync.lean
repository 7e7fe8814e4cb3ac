import C3Api.FiniteMap.Basic
import Mathlib.Algebra.Order.Ring.Int

/-!
# The quality flush

`sync.go` and the pending rows of `recorder.go`: attempts are counted in cells, a flush
collects what the cells have gained since the last one, upserts one absolute row per minute
and key, and puts back what it could not write. Go iterates over maps in any order, so a
flush reads the orders, the clock and the results of the upserts from its script.

The Redis side, flow snapshots (but for the sequence numbers they draw), retirement, `Close`
and the statistics are left out.
-/

namespace C3Api.Quality.Sync

open FiniteMap List

/-- The routing identity of a cell. -/
structure Key where
  identityVersion : Int
  routeClassID : List UInt8
  qualityClassID : List UInt8
  fingerprint : List UInt8
  deriving DecidableEq

/-- The counters of a cell. The last ones are no numbers of the program: they count how often
a row contains each single observation. -/
inductive Counter where
  | attempts
  | successes
  | err429
  | err4xx
  | err5xx
  | errNetwork
  | ttftCount
  | sumQ32
  | sumSqQ32
  | hist (i : Fin 10)
  | input
  | output
  | cacheRead
  | cacheCreate
  | calls
  | images
  | contains (observation : Nat)

abbrev Counts := Counter → Int

structure Observation where
  success : Bool := true
  ttftMs : Option Int := none
  inputTokens : Int := 0
  outputTokens : Int := 0
  cacheReadTokens : Int := 0
  cacheCreationTokens : Int := 0
  tokens : Int := 0
  calls : Int := 0
  images : Int := 0
  errClass : Int := 3
  isCancel : Bool := false
  isLocal : Bool := false
  isReservation : Bool := false

/-- The fixed-point logarithms of a latency, which only feed sums. -/
structure Logarithms where
  toQ32 : Int → Int
  toSqQ32 : Int → Int

def ttftEdges : List Int := [10, 25, 50, 100, 250, 500, 1000, 2000, 5000, 10000]

def histIndex (ttft : Int) : Nat := min (ttftEdges.findIdx fun e => ttft ≤ e) 9

/-- The latency that a success reports, at least one millisecond. -/
def Observation.timed (obs : Observation) : Option Int :=
  if obs.success then obs.ttftMs.map fun v => max v 1 else none

def Observation.isErr (obs : Observation) (errClass : Int) : Bool :=
  !obs.success && obs.errClass == errClass

/-- `Tokens` counts as input where no finer number is given. -/
def Observation.coarseTokens (obs : Observation) : Int :=
  if obs.inputTokens = 0 ∧ obs.outputTokens = 0 ∧ obs.cacheReadTokens = 0 ∧
    obs.cacheCreationTokens = 0 then obs.tokens else 0

/-- What `completeCommon` adds to a cell for the observation with this number. -/
def Observation.counts (lg : Logarithms) (number : Nat) (obs : Observation) : Counts
  | .attempts => 1
  | .successes => if obs.success then 1 else 0
  | .err429 => if obs.isErr 0 then 1 else 0
  | .err5xx => if obs.isErr 1 then 1 else 0
  | .errNetwork => if obs.isErr 2 then 1 else 0
  | .err4xx => if !obs.success && !(0 ≤ obs.errClass && obs.errClass < 3) then 1 else 0
  | .ttftCount => if obs.timed.isSome then 1 else 0
  | .sumQ32 => (obs.timed.map lg.toQ32).getD 0
  | .sumSqQ32 => (obs.timed.map lg.toSqQ32).getD 0
  | .hist i => if obs.timed.map histIndex = some i.val then 1 else 0
  | .input => obs.inputTokens + obs.coarseTokens
  | .output => obs.outputTokens
  | .cacheRead => obs.cacheReadTokens
  | .cacheCreate => obs.cacheCreationTokens
  | .calls => obs.calls
  | .images => obs.images
  | .contains n => if n = number then 1 else 0

structure Cell where
  gen : Nat
  counts : Counts

structure CursorEntry where
  snap : Counts
  gen : Nat

structure QualityMinute where
  minute : Int
  key : Key
  gen : Nat
  counts : Counts

def QualityMinute.merge (q o : QualityMinute) : QualityMinute :=
  { q with counts := q.counts + o.counts }

abbrev Rows := Map (Int × Key) QualityMinute

/-- A cell without a cursor, or with one of an older life, has gained all it counts. -/
def diffCellSnap (cur : Counts) (prev : Option CursorEntry) (gen : Nat) : Counts :=
  match prev with
  | none => cur
  | some e => if e.gen ≠ gen then cur else cur - e.snap

def isZero (d : Counts) : Bool :=
  [Counter.attempts, .successes, .ttftCount, .input, .output, .calls, .images, .err429, .err4xx,
    .err5xx, .errNetwork].all fun c => d c = 0

def accumulateDelta (dst : Rows) (minute : Int) (key : Key) (gen : Nat) (d : Counts) : Rows :=
  match dst.lookup (minute, key) with
  | some existing => dst.insert (minute, key) { existing with counts := existing.counts + d }
  | none => dst.insert (minute, key) ⟨minute, key, gen, d⟩

def foldRow (dst : Rows) (e : (Int × Key) × QualityMinute) : Rows :=
  match dst.lookup e.1 with
  | some existing => dst.insert e.1 (existing.merge e.2)
  | none => dst.insert e.1 e.2

def foldMinuteMap (dst src : Rows) : Rows := (pairs src).foldl foldRow dst

/-- How an upsert ends: a transient error, or one that blames the row. -/
inductive UpsertOutcome where
  | ok
  | transient
  | rowData
  deriving DecidableEq

/-- Any order of the entries of a map. -/
def arrange {α : Type} [DecidableEq α] (order : List α → List α) (entries : List α) : List α :=
  if (order entries).Perm entries then order entries else entries

/-- What a flush reads from outside. -/
structure Script where
  /-- The minute that the clock shows when the cell of a key is collected. -/
  minuteOf : Key → Int
  rowOrder : List (Int × Key) → List (Int × Key) := id
  shardOrder : List Int → List Int := id
  evictOrder : List (Int × Key) → List (Int × Key) := id
  /-- Whether the budget is used up when the row with this index is chosen. -/
  expired : Nat → Bool := fun _ => false
  /-- The same in front of a chunk with this many rows of its shard left. -/
  late : Int → Nat → Bool := fun _ _ => false
  /-- The result of each upsert in turn. -/
  outcome : Nat → UpsertOutcome := fun _ => .ok
  hasFlow : Bool := false
  /-- The minutes whose flow snapshot draws a sequence number. -/
  flowMinutes : List Int := []
  now : Int := 0
  /-- Minutes that the other lanes still need. -/
  pinned : List Int := []

def estimatedQualityRowBytes : Int := 512

def defaultPendingCapBytes : Int := 268435456

def defaultMinuteBucketsCap : Nat := 4096

/-- The pending rows of the recorder. -/
structure Pending where
  rows : Rows := ∅
  bytes : Int := 0
  qualityOverflow : Nat := 0

def distinctMinutes (rows : Rows) : List Int := (rows.keys.map Prod.fst).dedup

def oldestRow (keys : List (Int × Key)) : Option (Int × Key) :=
  keys.foldl (fun oldest mk =>
    match oldest with
    | none => some mk
    | some old => if mk.1 < old.1 then some mk else some old) none

section

variable (cfg : SyncConfig) (script : Script)

def Pending.tryEvict (p : Pending) : Option Pending :=
  (oldestRow (arrange script.evictOrder p.rows.keys)).map fun mk =>
    { rows := p.rows.erase mk
      bytes := p.bytes - estimatedQualityRowBytes
      qualityOverflow := p.qualityOverflow + 1 }

def Pending.full (p : Pending) (newMinute : Bool) : Bool :=
  p.bytes + estimatedQualityRowBytes > defaultPendingCapBytes ||
    newMinute && (distinctMinutes p.rows).length ≥ defaultMinuteBucketsCap

/-- Evicts rows until there is room; `fuel` bounds the rows there are. -/
def Pending.makeRoom (newMinute : Bool) : Nat → Pending → Option Pending
  | 0, p => if p.full newMinute then none else some p
  | fuel + 1, p =>
    if p.full newMinute then (p.tryEvict script).bind (makeRoom newMinute fuel) else some p

/-- `none` when the row is refused. -/
def Pending.enqueueQualityMinute (p : Pending) (qm : QualityMinute) : Option Pending :=
  match p.rows.lookup (qm.minute, qm.key) with
  | some existing => some { p with rows := p.rows.insert (qm.minute, qm.key) (existing.merge qm) }
  | none =>
    let newMinute := !(distinctMinutes p.rows).contains qm.minute
    (p.makeRoom script newMinute p.rows.keys.length).map fun p =>
      { p with
        rows := p.rows.insert (qm.minute, qm.key) qm
        bytes := p.bytes + estimatedQualityRowBytes }

structure QRow where
  minute : Int
  key : Key
  qm : QualityMinute
  seq : Int

def QRow.place (r : QRow) : Int × Key := (r.minute, r.key)

/-- The database rows with their sequence numbers, what the worker knows of them, and the
upserts made so far. -/
structure Writer where
  persisted : Map (Int × Key) (QualityMinute × Int) := ∅
  committed : Rows := ∅
  calls : Nat := 0
  poison : Nat := 0

/-- The statement replaces a row only by one with a greater sequence number. -/
def Writer.upsert (w : Writer) (r : QRow) : Writer :=
  match w.persisted.lookup r.place with
  | some (_, seq) =>
    if seq < r.seq then { w with persisted := w.persisted.insert r.place (r.qm, r.seq) } else w
  | none => { w with persisted := w.persisted.insert r.place (r.qm, r.seq) }

/-- The rows that are not persisted, and the error that stopped them. -/
def insertQualityChunk (w : Writer) :
    List QRow → Writer × List QRow × UpsertOutcome
  | [] => (w, [], .ok)
  | r :: rest =>
    match script.outcome w.calls with
    | .ok => insertQualityChunk { w.upsert r with calls := w.calls + 1 } rest
    | error => ({ w with calls := w.calls + 1 }, r :: rest, error)

def markQualityCommitted (w : Writer) (rows : List QRow) : Writer :=
  { w with committed := insertAll w.committed (rows.map fun r => (r.place, r.qm)) }

/-- Inserts a chunk and marks what got through. -/
def insertAndMark (w : Writer) (chunk : List QRow) : Writer × List QRow × UpsertOutcome :=
  let (w, unpersisted, error) := insertQualityChunk script w chunk
  (markQualityCommitted w (chunk.take (chunk.length - unpersisted.length)), unpersisted, error)

theorem insertQualityChunk_length (w : Writer) (chunk : List QRow) :
    (insertQualityChunk script w chunk).2.1.length ≤ chunk.length := by
  induction chunk generalizing w with
  | nil => exact Nat.le_refl _
  | cons r rest ih =>
    unfold insertQualityChunk
    split
    · exact Nat.le_succ_of_le (ih _)
    · exact Nat.le_refl _

/-- A poison row, if one is found, and the rows to put back. -/
def bisectQuality (w : Writer) (chunk : List QRow) : Writer × Option QRow × List QRow :=
  match chunk with
  | [] => (w, none, [])
  | [row] =>
    match insertAndMark script w [row] with
    | (w, _, .ok) => (w, none, [])
    | (w, _, .rowData) => (w, some row, [])
    | (w, _, .transient) => (w, none, [row])
  | first :: second :: rest =>
    let chunk := first :: second :: rest
    let left := chunk.take (chunk.length / 2)
    let right := chunk.drop (chunk.length / 2)
    let leftResult := insertAndMark script w left
    if leftResult.2.2 = .ok then bisectQuality leftResult.1 right
    else
      let rightResult := insertAndMark script leftResult.1 right
      if rightResult.2.2 = .ok then bisectQuality rightResult.1 leftResult.2.1
      else (rightResult.1, none, leftResult.2.1 ++ rightResult.2.1)
termination_by chunk.length
decreasing_by
  · simp only [length_drop, length_cons]
    omega
  · refine Nat.lt_of_le_of_lt (insertQualityChunk_length script w _) ?_
    simp only [length_take, length_cons]
    omega

structure SyncConfig where
  batchSize : Nat
  batchSize_pos : 0 < batchSize

/-- The chunks of one minute, and the rows that are not written. -/
def flushShard (minute : Int) (w : Writer) (shard : List QRow) : Writer × List QRow :=
  if shard = [] then (w, [])
  else if script.late minute shard.length then (w, shard)
  else
    let chunk := shard.take cfg.batchSize
    let rest := shard.drop cfg.batchSize
    match insertAndMark script w chunk with
    | (w, _, .ok) => flushShard minute w rest
    | (w, [row], error) =>
      if error = .rowData then flushShard minute { w with poison := w.poison + 1 } rest
      else
        let (w, failed) := flushShard minute w rest
        (w, row :: failed)
    | (w, unpersisted, _) =>
      let (w, poison, refill) := bisectQuality script w unpersisted
      ({ w with poison := w.poison + poison.toList.length }, refill ++ rest)
termination_by shard.length
decreasing_by
  all_goals
    have := cfg.batchSize_pos
    have nonempty : 0 < shard.length := length_pos_iff.mpr ‹¬ shard = []›
    simp only [length_drop]
    omega

def flushMinute (rows : List QRow)
    (progress : Writer × List QRow) (minute : Int) : Writer × List QRow :=
  let (w, more) :=
    flushShard cfg script minute progress.1 (rows.filter fun r => r.minute = minute)
  (w, progress.2 ++ more)

/-- Minute by minute, in any order. -/
def flushQualityBatch (w : Writer) (rows : List QRow) : Writer × List QRow :=
  (arrange script.shardOrder (rows.map (·.minute)).dedup).foldl (flushMinute cfg script rows)
    (w, [])

structure State where
  active : Map Key Cell := ∅
  genSeq : Nat := 0
  /-- The observations so far. -/
  observations : Nat := 0
  pending : Pending := {}
  pgLastCell : Map Key CursorEntry := ∅
  pgMinuteAbs : Rows := ∅
  pgSeq : Map Int Int := ∅
  writer : Writer := {}
  droppedQuality : Nat := 0

/-- The collection of one cell. -/
def collectCell (σ : State) (e : Key × Cell) : State :=
  let delta := diffCellSnap e.2.counts (σ.pgLastCell.lookup e.1) e.2.gen
  { σ with
    pgLastCell := σ.pgLastCell.insert e.1 ⟨e.2.counts, e.2.gen⟩
    pgMinuteAbs :=
      if isZero delta then σ.pgMinuteAbs
      else accumulateDelta σ.pgMinuteAbs (script.minuteOf e.1) e.1 e.2.gen delta }

def collectPGDelta (σ : State) : State :=
  (pairs σ.active).foldl (collectCell script) σ

def bumpSeq (seqs : Map Int Int) (minute : Int) : Map Int Int :=
  seqs.insert minute ((seqs.lookup minute).getD 0 + 1)

/-- The absolute row of a pending one: what is committed already, and the new counts. -/
def absoluteRow (committed : Rows) (seqs : Map Int Int) (mk : Int × Key) (qm : QualityMinute) :
    QRow :=
  { minute := mk.1
    key := mk.2
    qm := match committed.lookup mk with
      | some prev => prev.merge qm
      | none => qm
    seq := (seqs.lookup mk.1).getD 0 }

def pgMaxRows : Nat := 20000

def pgMaxBytes : Int := 16777216

def budget (rows : Nat) : Nat :=
  (range rows).findIdx fun i =>
    i ≥ pgMaxRows || (i + 1) * estimatedQualityRowBytes > pgMaxBytes || script.expired i

/-- What is put back of a row: its pending counts. -/
def refillDelta (originalPend committed : Rows) (r : QRow) : QualityMinute :=
  match originalPend.lookup r.place with
  | some orig => orig
  | none =>
    if (distinctMinutes originalPend).contains r.minute then
      match committed.lookup r.place with
      | some prev => { r.qm with counts := r.qm.counts - prev.counts }
      | none => r.qm
    else r.qm

def refillRow (originalPend : Rows) (σ : State) (r : QRow) : State :=
  match σ.pending.enqueueQualityMinute script (refillDelta originalPend σ.writer.committed r) with
  | some pending => { σ with pending := pending }
  | none => { σ with droppedQuality := σ.droppedQuality + 1 }

def refillQualityDelta (originalPend : Rows) (rows : List QRow) (σ : State) : State :=
  rows.foldl (refillRow script originalPend) σ

/-- Old minutes that nothing needs any more. -/
def prunes (σ : State) (minute : Int) : Bool :=
  minute < script.now - 600 && !(distinctMinutes σ.pending.rows).contains minute &&
    !(distinctMinutes σ.pgMinuteAbs).contains minute && !script.pinned.contains minute

def pruneLongLived (σ : State) : State :=
  { σ with writer := { σ.writer with
      committed := (σ.writer.committed.keys.filter fun mk => prunes script σ mk.1).foldl
        (fun rows mk => rows.erase mk) σ.writer.committed } }

def pendQ (σ : State) : Rows := foldMinuteMap σ.pending.rows σ.pgMinuteAbs

/-- The sequence numbers with those that a flush draws for its minutes. -/
def drawnSeqs (σ : State) : Map Int Int := (distinctMinutes (pendQ σ)).foldl bumpSeq σ.pgSeq

def allRows (σ : State) : List QRow :=
  (arrange script.rowOrder (pendQ σ).keys).filterMap fun mk =>
    ((pendQ σ).lookup mk).map (absoluteRow σ.writer.committed (drawnSeqs σ) mk)

def toFlush (σ : State) : List QRow :=
  (allRows script σ).take (budget script (allRows script σ).length)

def deferred (σ : State) : List QRow :=
  (allRows script σ).drop (budget script (allRows script σ).length)

def flushed (σ : State) : Writer × List QRow :=
  flushQualityBatch cfg script { σ.writer with calls := 0 } (toFlush script σ)

def emptied (σ : State) : State :=
  { σ with
    pending := { σ.pending with rows := ∅, bytes := 0 }
    pgMinuteAbs := ∅
    pgSeq := script.flowMinutes.foldl bumpSeq (drawnSeqs σ)
    writer := (flushed cfg script σ).1 }

/-- The flush after its collection, before it prunes. -/
def writeRows (σ : State) : State :=
  refillQualityDelta script (pendQ σ) (flushed cfg script σ).2
    (refillQualityDelta script (pendQ σ) (deferred script σ) (emptied cfg script σ))

def idle (σ : State) : Bool :=
  σ.pending.rows.keys.isEmpty && !script.hasFlow && σ.pgMinuteAbs.keys.isEmpty

def doPG (σ : State) : State :=
  let σ := collectPGDelta script σ
  if idle script σ then σ else pruneLongLived script (writeRows cfg script σ)

end

def getOrCreateCell (σ : State) (key : Key) : State :=
  match σ.active.lookup key with
  | some _ => σ
  | none =>
    { σ with active := σ.active.insert key ⟨σ.genSeq + 1, 0⟩, genSeq := σ.genSeq + 1 }

/-- Attempts that were cancelled or never left the process are not counted. -/
def completeCommon (lg : Logarithms) (σ : State) (key : Key) (obs : Observation) : State :=
  match σ.active.lookup key with
  | none => σ
  | some cell =>
    if obs.isCancel || obs.isLocal || obs.isReservation then σ
    else
      { σ with
        active := σ.active.insert key
          { cell with counts := cell.counts + obs.counts lg σ.observations }
        observations := σ.observations + 1 }

inductive Event where
  | begun (key : Key)
  | complete (key : Key) (obs : Observation)
  | flush (script : Script)

def State.next (lg : Logarithms) (cfg : SyncConfig) (σ : State) : Event → State
  | .begun key => getOrCreateCell σ key
  | .complete key obs => completeCommon lg σ key obs
  | .flush script => doPG cfg script σ

end C3Api.Quality.Sync
