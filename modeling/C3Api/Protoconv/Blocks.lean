import C3Api.Protoconv.RespToMess

/-!
# The content blocks of a Messages stream

What a client may rely on is stated on the frames alone: `Disciplined`. The mapper keeps its sets
of started and stopped blocks in step with the frames it has emitted (`Tracks`), and an
index belongs to one kind for the whole stream (`Indexed`), however the upstream's item ids
and output indexes collide.
-/

namespace C3Api.Protoconv

open FiniteMap List Finset Protoconv.Frame

namespace Frame

def member (f : Frame) (key : String) : Option Json :=
  match f.data with
  | .json (.obj members) => Json.last members key
  | _ => none

def index? (f : Frame) : Option Int := (f.member "index").bind Json.int?

def typeOf (f : Frame) (key : String) : Option String :=
  ((f.member key).bind Json.obj?).bind fun o => str o "type"

def start? (f : Frame) : Option (Int × String) :=
  if f.event = "content_block_start" then f.index?.bind fun i => (f.typeOf "content_block").map (i, ·)
  else none

def delta? (f : Frame) : Option (Int × String) :=
  if f.event = "content_block_delta" then f.index?.bind fun i => (f.typeOf "delta").map (i, ·)
  else none

def stop? (f : Frame) : Option Int :=
  if f.event = "content_block_stop" then f.index? else none

def isMessageStop (f : Frame) : Bool := f.event = "message_stop"

end Frame

/-- The kind of the block a delta belongs into; a tool's arguments are not bound to one. -/
def blockKindOf : String → Option String
  | "text_delta" => some "text"
  | "thinking_delta" => some "thinking"
  | "signature_delta" => some "thinking"
  | _ => none

def Starts (fs : List Frame) (i : Int) (kind : String) : Prop := ∃ f ∈ fs, f.start? = some (i, kind)

def Stops (fs : List Frame) (i : Int) : Prop := ∃ f ∈ fs, f.stop? = some i

/-- Whether a frame may come after those before it. -/
structure Follows (before : List Frame) (f : Frame) : Prop where
  start : ∀ i kind, f.start? = some (i, kind) → ∀ kind', ¬ Starts before i kind'
  stop : ∀ i, f.stop? = some i → (∃ kind, Starts before i kind) ∧ ¬ Stops before i
  delta : ∀ i type, f.delta? = some (i, type) →
    ¬ Stops before i ∧ ∀ kind, blockKindOf type = some kind → Starts before i kind

/-- Every frame may come after those before it: a block is started once, stopped once and after
its start, and has its deltas in between. -/
def Disciplined (fs : List Frame) : Prop :=
  ∀ before f after, fs = before ++ f :: after → Follows before f

def throughStop : List Frame → List Frame
  | [] => []
  | f :: fs => if f.isMessageStop then [f] else f :: throughStop fs

section

variable {fs gs : List Frame} {i : Int} {f : Frame}

theorem starts_append {kind : String} :
    Starts (fs ++ gs) i kind ↔ Starts fs i kind ∨ Starts gs i kind := by
  simp only [Starts, mem_append, or_and_right, exists_or]

theorem stops_append : Stops (fs ++ gs) i ↔ Stops fs i ∨ Stops gs i := by
  simp only [Stops, mem_append, or_and_right, exists_or]

theorem starts_singleton {kind : String} : Starts [f] i kind ↔ f.start? = some (i, kind) := by
  simp [Starts]

theorem stops_singleton : Stops [f] i ↔ f.stop? = some i := by
  simp [Stops]

theorem Disciplined.nil : Disciplined [] := by
  intro before f after split
  simp at split

theorem Disciplined.snoc (disciplined : Disciplined fs) (follows : Follows fs f) :
    Disciplined (fs ++ [f]) := by
  intro before g after split
  rcases eq_nil_or_concat after with rfl | ⟨rest, last, rfl⟩
  · obtain ⟨same, one⟩ := append_inj' split rfl
    cases one
    exact same ▸ follows
  · rw [concat_eq_append, ← cons_append, ← append_assoc] at split
    obtain ⟨same, -⟩ := append_inj' split rfl
    exact disciplined before g rest same

theorem throughStop_append_of_none (none : ∀ f ∈ fs, f.isMessageStop = false) (gs : List Frame) :
    throughStop (fs ++ gs) = fs ++ throughStop gs := by
  induction fs with
  | nil => rfl
  | cons f fs ih =>
    have other : f.isMessageStop = false := none f mem_cons_self
    rw [cons_append, throughStop, if_neg (by simp [other]), ih (forall_mem_cons.mp none).2]
    rfl

end

section

variable (index : Int)

variable (block delta : Json.Obj)

@[simp] theorem start?_blockStart :
    (blockStart index block).start? = (str block "type").map (index, ·) := by
  simp [start?, index?, typeOf, member, blockStart, encodeFrame, Json.last, lookup_cons, Json.obj?]

@[simp] theorem delta?_blockStart : (blockStart index block).delta? = none := by
  simp [delta?, blockStart, encodeFrame]

@[simp] theorem stop?_blockStart : (blockStart index block).stop? = none := by
  simp [stop?, blockStart, encodeFrame]

@[simp] theorem start?_blockDelta : (blockDelta index delta).start? = none := by
  simp [start?, blockDelta, encodeFrame]

@[simp] theorem delta?_blockDelta :
    (blockDelta index delta).delta? = (str delta "type").map (index, ·) := by
  simp [delta?, index?, typeOf, member, blockDelta, encodeFrame, Json.last, lookup_cons, Json.obj?]

@[simp] theorem stop?_blockDelta : (blockDelta index delta).stop? = none := by
  simp [stop?, blockDelta, encodeFrame]

@[simp] theorem start?_blockStop : (blockStop index).start? = none := by
  simp [start?, blockStop, encodeFrame]

@[simp] theorem delta?_blockStop : (blockStop index).delta? = none := by
  simp [delta?, blockStop, encodeFrame]

@[simp] theorem stop?_blockStop : (blockStop index).stop? = some index := by
  simp [stop?, index?, member, blockStop, encodeFrame, Json.last]

theorem finalDelta_eq (ev : Json.Obj) : ∃ reason usage, finalDelta ev = messageDelta reason usage := by
  unfold finalDelta
  split
  · exact ⟨_, _, rfl⟩
  · exact ⟨_, _, rfl⟩

end

namespace StreamMapper

section

variable {owner : Map Int AllocKey} {key : AllocKey}

theorem probe_cases (fuel : Nat) (idx : Int) :
    free owner key (probe owner key fuel idx) = true ∨
      ∀ j : Nat, j ≤ fuel → free owner key (idx + j) = false := by
  induction fuel generalizing idx with
  | zero =>
    cases taken : free owner key idx with
    | true => exact .inl taken
    | false =>
      refine .inr fun j small => ?_
      rw [Nat.le_zero.mp small]
      simpa using taken
  | succ fuel ih =>
    rw [probe]
    cases taken : free owner key idx with
    | true => exact .inl (by simp [taken])
    | false =>
      rcases ih (idx + 1) with found | none
      · exact .inl found
      refine .inr fun j small => ?_
      cases j with
      | zero => simpa using taken
      | succ j =>
        have later := none j (by omega)
        rwa [show idx + ((j + 1 : Nat) : Int) = idx + 1 + j by omega]

/-- As many steps as there are holders find an index no other key holds. -/
theorem probe_free (owner : Map Int AllocKey) (key : AllocKey) (idx : Int) :
    free owner key (probe owner key owner.keys.length idx) = true := by
  rcases probe_cases owner.keys.length idx with found | none
  · exact found
  have distinct : ((List.range (owner.keys.length + 1)).map fun j : Nat => idx + j).Nodup :=
    List.Nodup.map (fun a b same => by simpa using same) nodup_range
  have within : ((List.range (owner.keys.length + 1)).map fun j : Nat => idx + j) ⊆ owner.keys := by
    intro i member
    obtain ⟨j, small, rfl⟩ := mem_map.mp member
    have taken := none j (by rw [List.mem_range] at small; omega)
    cases held : owner.lookup (idx + j) with
    | none => simp [free, held] at taken
    | some holder => exact AList.mem_keys.mpr (AList.lookup_isSome.mp (by simp [held]))
  have few := (distinct.subperm within).length_le
  rw [length_map, length_range] at few
  omega

end

/-- Every index is held by one key, and what is recorded of a key or a block agrees with it. -/
structure Indexed (m : StreamMapper) : Prop where
  alloc : ∀ key idx, m.allocIndex.lookup key = some idx → m.owner.lookup idx = some key
  item : ∀ key idx, m.itemIndex.lookup key = some idx →
    ∃ oi, m.owner.lookup idx = some ⟨oi, key.kind⟩
  think : ∀ idx, (m.thinkBlocks.lookup idx).isSome = true →
    ∃ oi, m.owner.lookup idx = some ⟨oi, .thinking⟩

def Holds (m : StreamMapper) (idx : Int) (kind : Kind) : Prop :=
  ∃ oi, m.owner.lookup idx = some ⟨oi, kind⟩

theorem Holds.unique {m : StreamMapper} {idx : Int} {a b : Kind} (first : m.Holds idx a)
    (second : m.Holds idx b) : a = b := by
  obtain ⟨_, one⟩ := first
  obtain ⟨_, two⟩ := second
  rw [one] at two
  cases two
  rfl

/-- Nothing but the allotment of indexes has changed, and no index has changed hands. -/
structure Allots (m m' : StreamMapper) : Prop where
  started : m'.blockStarted = m.blockStarted
  stopped : m'.blockStopped = m.blockStopped
  holds : ∀ idx kind, m.Holds idx kind → m'.Holds idx kind

namespace Allots

theorem refl (m : StreamMapper) : Allots m m := ⟨rfl, rfl, fun _ _ held => held⟩

end Allots

variable {m : StreamMapper}

section

variable (indexed : m.Indexed)

include indexed

theorem contentIndex_spec (oi : Int) (kind : Kind) :
    (m.contentIndex oi kind).1.Indexed ∧ Allots m (m.contentIndex oi kind).1 ∧
      (m.contentIndex oi kind).1.owner.lookup (m.contentIndex oi kind).2 = some ⟨oi, kind⟩ ∧
      (m.contentIndex oi kind).1.thinkBlocks = m.thinkBlocks := by
  unfold contentIndex
  simp only
  cases known : m.allocIndex.lookup ⟨oi, kind⟩ with
  | some idx => exact ⟨indexed, .refl m, indexed.alloc _ _ known, rfl⟩
  | none =>
    have unheld := probe_free m.owner ⟨oi, kind⟩
      (if free m.owner ⟨oi, kind⟩ oi then oi else m.nextIndex)
    simp only
    generalize probe m.owner ⟨oi, kind⟩ m.owner.keys.length _ = idx at unheld
    have kept : ∀ i holder, m.owner.lookup i = some holder →
        (m.owner.insert idx ⟨oi, kind⟩).lookup i = some holder := by
      intro i holder held
      rw [lookup_insert_ite]
      split
      next same =>
        rw [same] at held
        rw [free, held, Option.all_some, decide_eq_true_eq] at unheld
        rw [unheld]
      · exact held
    refine ⟨⟨?_, ?_, ?_⟩, ⟨rfl, rfl, ?_⟩, ?_, trivial⟩
    · intro key i allotted
      rw [lookup_insert_ite] at allotted
      split at allotted
      next same =>
        cases allotted
        rw [same, lookup_insert_ite, if_pos rfl]
      · exact kept _ _ (indexed.alloc _ _ allotted)
    · intro key i recorded
      obtain ⟨oi', held⟩ := indexed.item key i recorded
      exact ⟨oi', kept _ _ held⟩
    · intro i thinks
      obtain ⟨oi', held⟩ := indexed.think i thinks
      exact ⟨oi', kept _ _ held⟩
    · rintro i kind' ⟨oi', held⟩
      exact ⟨oi', kept _ _ held⟩
    · rw [lookup_insert_ite, if_pos rfl]

theorem Indexed.record {key : BlockKey} {idx : Int} (held : m.Holds idx key.kind) :
    { m with itemIndex := m.itemIndex.insert key idx }.Indexed := by
  refine ⟨indexed.alloc, ?_, indexed.think⟩
  intro key' idx' recorded
  rw [lookup_insert_ite] at recorded
  split at recorded
  next same =>
    cases recorded
    rw [same]
    exact held
  · exact indexed.item key' idx' recorded

/-- What an allotment of an index to a block of some kind leaves. -/
structure Allotted (m m' : StreamMapper) (idx : Int) (kind : Kind) : Prop where
  indexed : m'.Indexed
  allots : Allots m m'
  holds : m'.Holds idx kind
  thinks : m'.thinkBlocks = m.thinkBlocks

theorem contentIndex_allotted (key : BlockKey) (oi : Int) {kind : Kind} (same : key.kind = kind) :
    Allotted m { (m.contentIndex oi kind).1 with
        itemIndex := (m.contentIndex oi kind).1.itemIndex.insert key (m.contentIndex oi kind).2 }
      (m.contentIndex oi kind).2 kind := by
  obtain ⟨indexed', allots, held, thinks⟩ := contentIndex_spec indexed oi kind
  have holds : (m.contentIndex oi kind).1.Holds (m.contentIndex oi kind).2 kind := ⟨oi, held⟩
  refine ⟨indexed'.record (same ▸ holds), ⟨allots.started, allots.stopped, allots.holds⟩, holds,
    thinks⟩

theorem blockIndex_allotted (key : BlockKey) (oi : Int) {kind : Kind} (same : key.kind = kind) :
    Allotted m (m.blockIndex key oi kind).1 (m.blockIndex key oi kind).2 kind := by
  unfold blockIndex
  cases known : m.itemIndex.lookup key with
  | some idx => exact ⟨indexed, .refl m, same ▸ indexed.item key idx known, rfl⟩
  | none => exact contentIndex_allotted indexed key oi same

theorem ownBlockIndex_allotted (key : BlockKey) (oi : Int) {kind : Kind} (same : key.kind = kind) :
    Allotted m (m.ownBlockIndex key oi kind).1 (m.ownBlockIndex key oi kind).2 kind := by
  unfold ownBlockIndex
  cases known : m.itemIndex.lookup key with
  | some idx =>
    simp only
    split
    · exact ⟨indexed, .refl m, same ▸ indexed.item key idx known, rfl⟩
    · exact contentIndex_allotted indexed key oi same
  | none => exact contentIndex_allotted indexed key oi same

end

theorem kind_blockKeyOf (id : String) (oi : Int) (kind : Kind) :
    (blockKeyOf id oi kind).kind = kind := by
  unfold blockKeyOf
  split <;> rfl

theorem eventBlockIndex_allotted (indexed : m.Indexed) (ev : Json.Obj) (kind : Kind) :
    Allotted m (m.eventBlockIndex ev kind).1 (m.eventBlockIndex ev kind).2 kind :=
  ownBlockIndex_allotted indexed _ _ (kind_blockKeyOf _ _ _)

/-- The mapper's sets are those of the frames emitted so far, and these are disciplined. -/
structure Tracks (m : StreamMapper) (fs : List Frame) : Prop where
  indexed : m.Indexed
  disciplined : Disciplined fs
  started : ∀ i, i ∈ m.blockStarted ↔ ∃ kind, Starts fs i kind
  stopped : ∀ i, i ∈ m.blockStopped ↔ Stops fs i
  kinds : ∀ i kind, Starts fs i kind → ∃ k : Kind, k.name = kind ∧ m.Holds i k
  unended : ∀ f ∈ fs, f.isMessageStop = false

/-- A step of the mapper, with the frames before it. -/
abbrev TracksTo (fs : List Frame) (step : Mapped) : Prop :=
  Tracks step.1 (fs ++ step.2)

namespace Tracks

variable {m' : StreamMapper} {fs : List Frame} {idx : Int} {kind : Kind}

theorem start : Tracks {} [] where
  indexed := ⟨fun _ _ wrong => by simp at wrong, fun _ _ wrong => by simp at wrong,
    fun _ wrong => by simp at wrong⟩
  disciplined := .nil
  started := by simp [Starts]
  stopped := by simp [Stops]
  kinds := by simp [Starts]
  unended := by simp

variable (tracks : Tracks m fs)

include tracks

theorem starts (started : idx ∈ m.blockStarted) (held : m.Holds idx kind) :
    Starts fs idx kind.name := by
  obtain ⟨name, starts⟩ := (tracks.started idx).mp started
  obtain ⟨kind', rfl, held'⟩ := tracks.kinds idx name starts
  rw [held.unique held']
  exact starts

theorem congr (indexed : m'.Indexed)
    (holds : ∀ i k, m.Holds i k → m'.Holds i k) (started : m'.blockStarted = m.blockStarted)
    (stopped : m'.blockStopped = m.blockStopped) : Tracks m' fs where
  indexed := indexed
  disciplined := tracks.disciplined
  started := by rw [started]; exact tracks.started
  stopped := by rw [stopped]; exact tracks.stopped
  kinds := by
    intro i name starts
    obtain ⟨k, same, held⟩ := tracks.kinds i name starts
    exact ⟨k, same, holds i k held⟩
  unended := tracks.unended

theorem allot (allotted : Allotted m m' idx kind) : Tracks m' fs :=
  tracks.congr allotted.indexed allotted.allots.holds allotted.allots.started
    allotted.allots.stopped

/-- The fields that neither an index nor a block depends on may change. -/
theorem other (seen started done : Bool) :
    Tracks { m with nonThinkSeen := seen, started, done } fs :=
  tracks.congr ⟨tracks.indexed.alloc, tracks.indexed.item, tracks.indexed.think⟩
    (fun _ _ held => held) rfl rfl

theorem silent : TracksTo fs (m, []) := by
  rwa [TracksTo, append_nil]

theorem gate (seen : Bool) : Tracks { m with nonThinkSeen := seen } fs :=
  tracks.other seen m.started m.done

variable {f : Frame} (ev : Json.Obj)

/-- One more frame, with the blocks it starts or stops. -/
theorem snoc {s t : Finset Int} (follows : Follows fs f) (other : f.isMessageStop = false)
    (started : ∀ i, i ∈ s ↔ i ∈ m.blockStarted ∨ ∃ name, f.start? = some (i, name))
    (stopped : ∀ i, i ∈ t ↔ i ∈ m.blockStopped ∨ f.stop? = some i)
    (kinds : ∀ i name, f.start? = some (i, name) → ∃ k : Kind, k.name = name ∧ m.Holds i k) :
    Tracks { m with blockStarted := s, blockStopped := t } (fs ++ [f]) where
  indexed := ⟨tracks.indexed.alloc, tracks.indexed.item, tracks.indexed.think⟩
  disciplined := tracks.disciplined.snoc follows
  started := by
    intro i
    rw [started, tracks.started, ← exists_or]
    simp only [starts_append, starts_singleton]
  stopped := by
    intro i
    rw [stopped, tracks.stopped, stops_append, stops_singleton]
  kinds := by
    intro i name starts
    rw [starts_append, starts_singleton] at starts
    exact starts.elim (tracks.kinds i name) (kinds i name)
  unended := forall_mem_append.mpr ⟨tracks.unended, forall_mem_singleton.mpr other⟩

theorem plain (start : f.start? = none) (delta : f.delta? = none) (stop : f.stop? = none)
    (other : f.isMessageStop = false) : Tracks m (fs ++ [f]) :=
  tracks.snoc ⟨by simp [start], by simp [stop], by simp [delta]⟩ other (by simp [start])
    (by simp [stop]) (by simp [start])

theorem opened {block : Json.Obj} (fresh : idx ∉ m.blockStarted)
    (held : m.Holds idx kind) (named : str block "type" = some kind.name) :
    Tracks { m with blockStarted := insert idx m.blockStarted } (fs ++ [blockStart idx block]) := by
  have reads : (blockStart idx block).start? = some (idx, kind.name) := by
    rw [start?_blockStart, named, Option.map_some]
  refine tracks.snoc (t := m.blockStopped) ⟨?_, by simp, by simp⟩ rfl ?_ (by simp) ?_
  · intro i name starts name' before
    cases reads.symm.trans starts
    exact fresh ((tracks.started idx).mpr ⟨name', before⟩)
  · intro i
    rw [mem_insert, or_comm, reads]
    simp [eq_comm]
  · intro i name starts
    cases reads.symm.trans starts
    exact ⟨kind, rfl, held⟩

theorem delta {delta : Json.Obj} {type : String}
    (named : str delta "type" = some type) (running : idx ∉ m.blockStopped)
    (matching : ∀ kind, blockKindOf type = some kind → Starts fs idx kind) :
    Tracks m (fs ++ [blockDelta idx delta]) := by
  refine tracks.snoc ⟨by simp, by simp, ?_⟩ rfl (by simp) (by simp) (by simp)
  intro i type' carries
  rw [delta?_blockDelta, named, Option.map_some] at carries
  cases carries
  exact ⟨fun stopped => running ((tracks.stopped idx).mpr stopped), matching⟩

theorem closed (started : idx ∈ m.blockStarted)
    (running : idx ∉ m.blockStopped) :
    Tracks { m with blockStopped := insert idx m.blockStopped } (fs ++ [blockStop idx]) := by
  refine tracks.snoc (s := m.blockStarted) ⟨by simp, ?_, by simp⟩ rfl (by simp) ?_ (by simp)
  · intro i stops
    cases (stop?_blockStop idx).symm.trans stops
    exact ⟨(tracks.started idx).mp started, fun stopped => running ((tracks.stopped idx).mpr stopped)⟩
  · intro i
    rw [mem_insert, or_comm, stop?_blockStop]
    simp [eq_comm]

theorem startBlock (block : Json.Obj) (held : m.Holds idx kind)
    (named : str block "type" = some kind.name) :
    TracksTo fs (m.startBlock idx block) ∧ Starts (fs ++ (m.startBlock idx block).2) idx kind.name ∧
      idx ∈ (m.startBlock idx block).1.blockStarted ∧
      (m.startBlock idx block).1.blockStopped = m.blockStopped := by
  unfold StreamMapper.startBlock
  split
  next started =>
    refine ⟨tracks.silent, ?_, started, rfl⟩
    rw [append_nil]
    exact tracks.starts started held
  next fresh =>
    have opened := tracks.opened fresh held named
    have started : idx ∈ ({ m with blockStarted := insert idx m.blockStarted }).blockStarted :=
      mem_insert_self _ _
    exact ⟨opened, opened.starts started held, started, rfl⟩

theorem stopBlock : TracksTo fs (m.stopBlock idx) := by
  unfold StreamMapper.stopBlock
  split
  · exact tracks.silent
  rename_i open'
  rw [not_or, not_not] at open'
  exact tracks.closed open'.1 open'.2

theorem respCreated : TracksTo fs (m.respCreated ev) := by
  unfold StreamMapper.respCreated
  split
  · exact tracks.silent
  · exact .other (.plain tracks rfl rfl rfl rfl) m.nonThinkSeen true m.done

theorem respTextDelta : TracksTo fs (m.respTextDelta ev) := by
  have allotted := eventBlockIndex_allotted tracks.indexed ev .text
  have tracks' := (tracks.allot allotted).gate true
  unfold StreamMapper.respTextDelta
  simp only
  split
  · exact tracks'.silent
  rename_i running
  obtain ⟨begun, starts, -, stopped⟩ := tracks'.startBlock textBlock allotted.holds rfl
  rw [TracksTo, ← append_assoc]
  refine begun.delta rfl (by rw [stopped]; exact running) fun kind matching => ?_
  cases matching
  exact starts

theorem respDone (kind : Kind) : TracksTo fs (m.respDone ev kind) :=
  ((tracks.gate true).allot (eventBlockIndex_allotted (tracks.gate true).indexed ev kind)).stopBlock

theorem thought (held : m.Holds idx .thinking) (block : ThinkingBlock) :
    Tracks { m with thinkBlocks := m.thinkBlocks.insert idx block } fs := by
  refine tracks.congr ⟨tracks.indexed.alloc, tracks.indexed.item, ?_⟩ (fun _ _ held => held) rfl rfl
  intro i thinks
  rw [lookup_insert_ite] at thinks
  split at thinks
  next same => exact same ▸ held
  · exact tracks.indexed.think i thinks

theorem respItemAdded : TracksTo fs (m.respItemAdded ev) := by
  unfold StreamMapper.respItemAdded
  cases object ev "item" with
  | none => exact tracks.silent
  | some item =>
    simp only
    split
    · split
      · exact tracks.silent
      · have allotted := blockIndex_allotted tracks.indexed
          (blockKeyOf (strOr item "id") (intOr0 ev "output_index") .thinking)
          (intOr0 ev "output_index") (kind_blockKeyOf _ _ _)
        have tracks' := tracks.allot allotted
        split
        · exact tracks'.silent
        next fresh => exact (tracks'.opened fresh allotted.holds rfl).thought allotted.holds _
    · exact ((tracks.gate true).allot
        (ownBlockIndex_allotted (tracks.gate true).indexed _ _ (kind_blockKeyOf _ _ _))).silent
    · have allotted := ownBlockIndex_allotted (tracks.gate true).indexed
        (blockKeyOf (strOr item "id") (intOr0 ev "output_index") .toolUse)
        (intOr0 ev "output_index") (kind_blockKeyOf _ _ _)
      exact (((tracks.gate true).allot allotted).startBlock _ allotted.holds rfl).1
    · exact tracks.silent

theorem thinkBlockIndex (id : String) (oi : Int) :
    Tracks (m.thinkBlockIndex (blockKeyOf id oi .thinking) oi).1 fs ∧
      ∀ idx, (m.thinkBlockIndex (blockKeyOf id oi .thinking) oi).2 = some idx →
        (m.thinkBlockIndex (blockKeyOf id oi .thinking) oi).1.Holds idx .thinking := by
  unfold StreamMapper.thinkBlockIndex
  cases known : m.itemIndex.lookup (blockKeyOf id oi .thinking) with
  | some idx =>
    refine ⟨tracks, ?_⟩
    rintro idx' same
    cases same
    have held := tracks.indexed.item _ idx known
    rwa [kind_blockKeyOf] at held
  | none =>
    simp only
    split
    · exact ⟨tracks, nofun⟩
    have allotted := blockIndex_allotted tracks.indexed (blockKeyOf id oi .thinking) oi
      (kind_blockKeyOf _ _ _)
    have tracks' := tracks.allot allotted
    refine ⟨?_, ?_⟩
    · split
      · exact tracks'
      · exact tracks'.thought allotted.holds _
    · rintro idx' same
      cases same
      exact allotted.holds

theorem doneThinkIndex (id : String) (oi : Int) :
    Tracks (m.doneThinkIndex id oi).1 fs ∧
      ∀ idx, (m.doneThinkIndex id oi).2 = some idx → (m.doneThinkIndex id oi).1.Holds idx .thinking := by
  unfold StreamMapper.doneThinkIndex
  split
  · exact tracks.thinkBlockIndex id oi
  refine ⟨tracks, fun idx known => ?_⟩
  have held := tracks.indexed.item _ idx known
  rwa [kind_blockKeyOf] at held

theorem respReasoningDelta : TracksTo fs (m.respReasoningDelta ev) := by
  obtain ⟨tracks', holds⟩ := tracks.thinkBlockIndex (strOr ev "item_id") (intOr0 ev "output_index")
  unfold StreamMapper.respReasoningDelta
  simp only
  split
  · exact tracks'.silent
  rename_i idx found
  split
  · exact tracks'.silent
  rename_i running
  rw [not_or] at running
  obtain ⟨begun, starts, -, stopped⟩ := tracks'.startBlock thinkBlock (holds idx found) rfl
  rw [TracksTo, ← append_assoc]
  refine begun.delta rfl (by rw [stopped]; exact running.2) fun kind matching => ?_
  cases matching
  exact starts

theorem signatureDelta (sealBytes : Envelope → String) (item : Json.Obj)
    (running : idx ∉ m.blockStopped) (starts : Starts fs idx Kind.thinking.name) :
    Tracks m (fs ++ StreamMapper.signatureDelta sealBytes idx item) := by
  unfold StreamMapper.signatureDelta
  simp only
  split
  · rwa [append_nil]
  refine tracks.delta rfl running fun kind matching => ?_
  cases matching
  exact starts

theorem respItemDone (sealBytes : Envelope → String) (ev : Json.Obj) :
    TracksTo fs (m.respItemDone sealBytes ev) := by
  unfold StreamMapper.respItemDone
  cases object ev "item" with
  | none => exact tracks.silent
  | some item =>
    simp only
    split
    · exact tracks.silent
    obtain ⟨tracks', holds⟩ := tracks.doneThinkIndex (strOr item "id") (intOr0 ev "output_index")
    split
    · exact tracks'.silent
    rename_i idx found
    split
    · exact tracks'.silent
    rename_i running
    rw [not_or] at running
    obtain ⟨begun, starts, started, stopped⟩ :=
      tracks'.startBlock thinkBlock (holds idx found) rfl
    have running' := running.2
    rw [← stopped] at running'
    rw [TracksTo, ← append_assoc, ← append_assoc]
    exact (begun.signatureDelta sealBytes item running' starts).closed started running'

theorem respArgumentsDelta : TracksTo fs (m.respArgumentsDelta ev) := by
  have tracks' := (tracks.gate true).allot
    (eventBlockIndex_allotted (tracks.gate true).indexed ev .toolUse)
  unfold StreamMapper.respArgumentsDelta
  simp only
  split
  · exact tracks'.silent
  next running => exact tracks'.delta rfl running fun kind matching => by cases matching

theorem respFailed : TracksTo fs (m.respFailed ev) := by
  unfold StreamMapper.respFailed
  split
  · exact tracks.silent
  · exact .other (.plain tracks rfl rfl rfl rfl) m.nonThinkSeen m.started true

theorem closeAll {open' : List Int} (distinct : open'.Nodup)
    (running : ∀ i ∈ open', i ∈ m.blockStarted ∧ i ∉ m.blockStopped) :
    Tracks { m with blockStopped := m.blockStopped ∪ open'.toFinset } (fs ++ open'.map blockStop) := by
  induction open' generalizing m fs with
  | nil => simpa using tracks
  | cons idx rest ih =>
    rw [nodup_cons] at distinct
    obtain ⟨started, unstopped⟩ := running idx mem_cons_self
    have closed := tracks.closed started unstopped
    have later := ih closed distinct.2 fun i member => by
      obtain ⟨started', unstopped'⟩ := running i (mem_cons_of_mem _ member)
      refine ⟨started', fun wrong => ?_⟩
      rcases mem_insert.mp wrong with rfl | stopped
      · exact distinct.1 member
      · exact unstopped' stopped
    rw [append_assoc] at later
    have same : insert idx m.blockStopped ∪ rest.toFinset =
        m.blockStopped ∪ (idx :: rest).toFinset := by
      rw [toFinset_cons, insert_union, union_insert]
    simp only [same] at later
    exact later

theorem closeOpenBlocks : TracksTo fs m.closeOpenBlocks := by
  have closed := tracks.closeAll (sort_nodup (m.blockStarted \ m.blockStopped) (· ≤ ·))
    fun i member => by simpa using member
  have all : m.blockStopped ∪ ((m.blockStarted \ m.blockStopped).sort (· ≤ ·)).toFinset =
      m.blockStopped ∪ m.blockStarted := by
    rw [sort_toFinset, union_sdiff_self_eq_union]
  rw [all] at closed
  exact closed

end Tracks

/-- One event either keeps the stream going, or it is the one that ends the message. -/
theorem mapRespToMess_tracks (sealBytes : Envelope → String) {fs : List Frame}
    (tracks : Tracks m fs) (name : String) (data : Data) :
    TracksTo fs (m.mapRespToMess sealBytes name data) ∨
      ∃ closing, (m.mapRespToMess sealBytes name data).2 = closing ++ [messageStop] ∧
        Tracks (m.mapRespToMess sealBytes name data).1 (fs ++ closing) ∧
        (m.mapRespToMess sealBytes name data).1.blockStarted ⊆
          (m.mapRespToMess sealBytes name data).1.blockStopped := by
  unfold mapRespToMess
  cases decodeObj data with
  | none => exact .inl tracks.silent
  | some ev =>
    simp only
    split
    · exact .inl (tracks.respCreated ev)
    · exact .inl (tracks.respTextDelta ev)
    · exact .inl (tracks.respDone ev .text)
    · exact .inl (tracks.respItemAdded ev)
    · exact .inl (tracks.respReasoningDelta ev)
    · exact .inl (tracks.respItemDone sealBytes ev)
    · exact .inl (tracks.respArgumentsDelta ev)
    · exact .inl (tracks.respDone ev .toolUse)
    · unfold respCompleted
      split
      · exact .inl tracks.silent
      have ending := tracks.other m.nonThinkSeen m.started true
      refine .inr ⟨({ m with done := true }).closeOpenBlocks.2 ++ [finalDelta ev], ?_, ?_, ?_⟩
      · rw [append_assoc]
        rfl
      · rw [← append_assoc]
        obtain ⟨reason, usage, final⟩ := finalDelta_eq ev
        rw [final]
        exact ending.closeOpenBlocks.plain rfl rfl rfl rfl
      · exact subset_union_right
    · exact .inl (tracks.respFailed ev)
    · exact .inl tracks.silent

def emittedMess (sealBytes : Envelope → String) (m : StreamMapper) :
    List (String × Data) → List Frame
  | [] => []
  | (name, data) :: events =>
    (m.mapRespToMess sealBytes name data).2 ++
      emittedMess sealBytes (m.mapRespToMess sealBytes name data).1 events

def AllStopped (fs : List Frame) : Prop := ∀ i kind, Starts fs i kind → Stops fs i

theorem Tracks.emitted (sealBytes : Envelope → String) {fs : List Frame} (tracks : Tracks m fs)
    (events : List (String × Data)) :
    Disciplined (throughStop (fs ++ emittedMess sealBytes m events)) ∧
      ((∃ f ∈ fs ++ emittedMess sealBytes m events, f.isMessageStop = true) →
        AllStopped (throughStop (fs ++ emittedMess sealBytes m events))) := by
  induction events generalizing m fs with
  | nil =>
    rw [emittedMess, throughStop_append_of_none tracks.unended, throughStop, append_nil]
    refine ⟨tracks.disciplined, ?_⟩
    rintro ⟨f, member, stop⟩
    rw [tracks.unended f member] at stop
    cases stop
  | cons event events ih =>
    rw [emittedMess, ← append_assoc]
    rcases mapRespToMess_tracks sealBytes tracks event.1 event.2 with
      going | ⟨closing, frames, tracks', closed⟩
    · exact ih going
    have through : throughStop (fs ++ (m.mapRespToMess sealBytes event.1 event.2).2 ++
        emittedMess sealBytes (m.mapRespToMess sealBytes event.1 event.2).1 events) =
        fs ++ closing ++ [messageStop] := by
      rw [frames, ← append_assoc, append_assoc, throughStop_append_of_none tracks'.unended]
      rfl
    rw [through]
    refine ⟨tracks'.disciplined.snoc ⟨?_, ?_, ?_⟩, fun _ => ?_⟩
    · intro i kind wrong
      cases wrong
    · intro i wrong
      cases wrong
    · intro i type wrong
      cases wrong
    · intro i kind starts
      rw [starts_append] at starts
      rcases starts with before | last
      · rw [stops_append]
        exact .inl ((tracks'.stopped i).mp (closed ((tracks'.started i).mpr ⟨kind, before⟩)))
      · rw [starts_singleton] at last
        cases last

/-- However item ids and output indexes collide, the frames up to the first `message_stop` keep the
discipline of content blocks, and the `message_stop` comes when every block is stopped. -/
theorem blocks_disciplined (sealBytes : Envelope → String) (events : List (String × Data)) :
    Disciplined (throughStop (emittedMess sealBytes {} events)) ∧
      ((∃ f ∈ emittedMess sealBytes {} events, f.isMessageStop = true) →
        AllStopped (throughStop (emittedMess sealBytes {} events))) := by
  have whole := Tracks.start.emitted sealBytes events
  rwa [nil_append] at whole

end StreamMapper

end C3Api.Protoconv
