import C3Api.Health.Redis

/-!
# Syncing the health view

`Sync` reads the generation, the active set, every record and the tombstones by separate
commands, cleans up behind itself and publishes only behind a fence on the generation.
Other instances run their scripts between any two of these commands.
-/

namespace C3Api.Health

open FiniteMap Option

structure HealthEntry where
  state : HealthState
  generation : Int
  revision : Int
  updatedAt : Int
  ttlMs : Int
  expiresAt : Int
deriving DecidableEq

structure HealthView where
  entries : Map HealthKey HealthEntry := ∅
  gen : Int := 0
  runID : String := ""

def HealthView.graver (view : HealthView) (best : HealthState) (key : HealthKey) : HealthState :=
  match view.entries.lookup key with
  | none => best
  | some e => if best.severity < e.state.severity then e.state else best

/-- `EffectiveState`: the gravest entry among the quality or any, the identity or any. -/
def HealthView.effectiveState (view : HealthView) (accountID : Int) (quality identity : Text)
    (identityRevision : Int) : HealthState :=
  let keys : List HealthKey := [quality, identityAny].flatMap fun q =>
    [identity, identityAny].map fun id => ⟨accountID, q, id, identityRevision⟩
  keys.foldl view.graver .ready

/-- Redis, and what the others do to it before each of the commands to come. -/
structure World where
  redis : Redis
  schedule : List (List Script) := []

/-- The others take their turn before a command. -/
def World.turn (w : World) : World :=
  match w.schedule with
  | [] => w
  | scripts :: rest => ⟨scripts.foldl Script.run w.redis, rest⟩

/-- The global generation; a negative one is an error. -/
def syncReadGen (r : Redis) : Option Int := if r.current < 0 then none else some r.current

structure Built where
  records : Map HealthKey HealthEntry := ∅
  staleActive : List Text := []

/-- The entry of a record; one of the same generation keeps the expiry already known. -/
def entryOf (prev : HealthView) (nowMs : Int) (k : HealthKey) (rec : Record) : HealthEntry :=
  let e : HealthEntry :=
    { state := .ofString rec.state, generation := rec.gen, revision := rec.rev,
      updatedAt := nowMs, ttlMs := rec.ttl, expiresAt := nowMs + rec.ttl }
  match prev.entries.lookup k with
  | none => e
  | some known =>
    if known.generation = rec.gen then
      { e with expiresAt := known.expiresAt, updatedAt := known.updatedAt, ttlMs := known.ttlMs }
    else e

/-- One member of the active set and what `HGETALL` found of it. -/
def buildRecord (prev : HealthView) (nowMs : Int) (built : Built) (field : Text) :
    Option Record → Option Built
  | none => some { built with staleActive := built.staleActive ++ [field] }
  | some rec =>
    match parseHealthKey field with
    | none => some { built with staleActive := built.staleActive ++ [field] }
    | some k =>
      if rec.gen < 0 ∨ rec.rev < 0 ∨ rec.ttl ≤ 0 then none
      else some { built with records := built.records.insert k (entryOf prev nowMs k rec) }

def syncBuildRecords (prev : HealthView) (nowMs : Int) :
    List Text → Built → World → Option (Built × World)
  | [], built, w => some (built, w)
  | field :: rest, built, w =>
    match buildRecord prev nowMs built field (w.turn.redis.hgetall field) with
    | none => none
    | some built => syncBuildRecords prev nowMs rest built w.turn

/-- The tombstones whose marker is gone, asked for one by one. -/
def staleTombs : List Text → World → List Text × World
  | [], w => ([], w)
  | field :: rest, w =>
    let (stale, after) := staleTombs rest w.turn
    (if w.turn.redis.marked field then stale else field :: stale, after)

/-- The tombstones, and the stale ones among them in the order of the map's range. -/
def syncReadTombstones (order : List Text → List Text) (w : World) :
    List Text × List Text × World :=
  let tombMembers := w.turn.redis.tombs.keys
  (tombMembers, staleTombs (order tombMembers) w.turn)

def healthCleanupBound : Nat := 100

def cleanupFields (mode : Redis.Cleanup) (gen : Int) (w : World) (fields : List Text) : World :=
  fields.foldl
    (fun w field => { w.turn with redis := w.turn.redis.cleanupLua mode field gen }) w

def syncCleanup (staleActive staleTomb : List Text) (gen : Int) (w : World) : World :=
  cleanupFields .tomb gen
    (cleanupFields .active gen w (staleActive.take healthCleanupBound))
    (staleTomb.take healthCleanupBound)

structure Cut where
  records : Map HealthKey HealthEntry
  gen : Int
  runID : String
  nowMs : Int
  tombMembers : List Text

/-- `Sync` up to the publication: nothing where it returns an error, else what is to be
published and the world at the fence. -/
def sync (order : List Text → List Text) (nowMs : Int) (prev : HealthView) (w : World) :
    Option (Cut × World) := do
  let w := w.turn
  let genBefore ← syncReadGen w.redis
  let w := w.turn
  let runID := w.redis.runID
  let w := w.turn
  let (built, w) ← syncBuildRecords prev nowMs w.redis.zrange {} w
  let (tombMembers, staleTomb, w) := syncReadTombstones order w
  let w := w.turn
  let genAfter ← syncReadGen w.redis
  if genBefore ≠ genAfter then none
  else
    let w := (syncCleanup built.staleActive staleTomb genAfter w).turn
    if w.redis.fenceLua genAfter then
      some ({ records := built.records, gen := genAfter, runID, nowMs, tombMembers }, w)
    else none

/-- What is kept of an entry that Redis no longer has: a window runs to its end and is
then probed, and a tombstone drops it. -/
def retainEntry (nowMs : Int) (tombMembers : List Text) (k : HealthKey) (e : HealthEntry) :
    Option HealthEntry :=
  if k.string ∈ tombMembers then none
  else
    match e.state with
    | .opened | .retryAfter =>
      let deadline :=
        if e.expiresAt ≠ 0 then e.expiresAt
        else if e.updatedAt + e.ttlMs ≠ 0 then e.updatedAt + e.ttlMs
        else nowMs + 30000
      if nowMs < deadline then some e else some { e with state := .probing }
    | .probing => some e
    | .ready => none

def retained (nowMs : Int) (tombMembers : List Text) (entries : Map HealthKey HealthEntry) :
    Map HealthKey HealthEntry :=
  insertAll ∅ ((pairs entries).filterMap fun p =>
    (retainEntry nowMs tombMembers p.1 p.2).map (p.1, ·))

def syncPublish (prev : HealthView) (cut : Cut) : HealthView :=
  let isRunChange := prev.runID ≠ "" ∧ cut.runID ≠ "" ∧ cut.runID ≠ prev.runID
  let hasProbing := ∃ p ∈ pairs prev.entries, p.2.state = .probing
  let empty : HealthView := { gen := cut.gen, runID := cut.runID }
  if cut.records = ∅ then
    if prev.entries = ∅ then empty
    else if ¬isRunChange ∧ ¬hasProbing then empty
    else
      let kept := retained cut.nowMs cut.tombMembers prev.entries
      if kept = ∅ then empty
      else
        { entries := kept, gen := cut.gen,
          runID := if prev.runID = "" then cut.runID else prev.runID }
  else { entries := cut.records, gen := cut.gen, runID := cut.runID }

/-! ## The commands one by one -/

/-- A later world: Redis moved on, by scripts and time only. -/
structure World.Onward (before after : World) : Prop where
  later : Redis.Later before.redis after.redis
  sound : before.redis.Sound → after.redis.Sound

namespace World.Onward

theorem refl (w : World) : Onward w w := ⟨.refl _, id⟩

theorem trans {first middle last : World} (start : Onward first middle)
    (finish : Onward middle last) : Onward first last :=
  ⟨start.later.trans finish.later, finish.sound ∘ start.sound⟩

theorem turn (w : World) : Onward w w.turn := by
  unfold World.turn
  split
  · exact .refl w
  · exact ⟨Redis.later_foldl _ _, fun sound => sound.foldl _⟩

end World.Onward

open World (Onward)

variable {prev : HealthView} {nowMs : Int} {w w' : World} {cut : Cut}

theorem syncBuildRecords_onward {fields : List Text} {built after : Built}
    (ran : syncBuildRecords prev nowMs fields built w = some (after, w')) : Onward w w' := by
  induction fields generalizing built w with
  | nil =>
    obtain ⟨-, rfl⟩ := Prod.mk.inj (some.inj ran)
    exact .refl w
  | cons field rest ih =>
    rw [syncBuildRecords] at ran
    split at ran
    · exact nomatch ran
    · exact (Onward.turn w).trans (ih ran)

theorem staleTombs_onward (fields : List Text) (w : World) : Onward w (staleTombs fields w).2 := by
  induction fields generalizing w with
  | nil => exact .refl w
  | cons field rest ih =>
    exact (Onward.turn w).trans (ih w.turn)

theorem cleanupFields_onward (mode : Redis.Cleanup) (gen : Int) (w : World)
    (fields : List Text) : Onward w (cleanupFields mode gen w fields) := by
  refine List.foldlRecOn fields _ (.refl w) fun v onward field _ => ?_
  have here : Onward v.turn { v.turn with redis := v.turn.redis.cleanupLua mode field gen } :=
    ⟨Redis.later_cleanupLua _ mode field gen, fun sound => sound.cleanupLua mode field gen⟩
  exact (onward.trans (Onward.turn v)).trans here

theorem syncCleanup_onward (staleActive staleTomb : List Text) (gen : Int) (w : World) :
    Onward w (syncCleanup staleActive staleTomb gen w) :=
  (cleanupFields_onward .active gen w _).trans (cleanupFields_onward .tomb gen _ _)

theorem syncReadGen_eq_some {r : Redis} {gen : Int} (read : syncReadGen r = some gen) :
    gen = r.current := by
  unfold syncReadGen at read
  split at read
  · exact nomatch read
  · exact (some.inj read).symm

variable {order : List Text → List Text}

/-- A `Sync` that publishes: the generation it began with is the one at the fence, and its
records were built in between from the active set. -/
theorem sync_eq_some (ran : sync order nowMs prev w = some (cut, w')) :
    ∃ (start middle : World) (built : Built), Onward w start ∧ Onward start start.turn.turn ∧
      syncBuildRecords prev nowMs start.turn.turn.redis.zrange {} start.turn.turn =
        some (built, middle) ∧ Onward middle w' ∧ w'.redis.current = start.redis.current ∧
      cut.records = built.records ∧ cut.gen = start.redis.current ∧ cut.nowMs = nowMs ∧
      cut.tombMembers = middle.turn.redis.tombs.keys := by
  simp only [sync, bind_eq_bind, bind_eq_some_iff] at ran
  obtain ⟨genBefore, read, ⟨built, middle⟩, constructed, genAfter, reread, ran⟩ := ran
  split at ran
  · exact nomatch ran
  rename_i steady
  split at ran
  next fenced =>
    obtain ⟨rfl, rfl⟩ := Prod.mk.inj (some.inj ran)
    have first := syncReadGen_eq_some read
    have again := not_not.mp steady
    refine ⟨w.turn, middle, built, .turn w, (Onward.turn _).trans (.turn _), constructed,
      ?_, ?_, rfl, again ▸ first, rfl, rfl⟩
    · exact (((Onward.turn middle).trans (staleTombs_onward _ _)).trans (.turn _)).trans
        ((syncCleanup_onward _ _ _ _).trans (.turn _))
    · have fence := of_decide_eq_true fenced
      rw [← first, again]
      exact fence
  · exact nomatch ran

theorem sync_onward (ran : sync order nowMs prev w = some (cut, w')) : Onward w w' := by
  obtain ⟨start, middle, built, toStart, toList, constructed, toFence, -⟩ := sync_eq_some ran
  exact (toStart.trans toList).trans ((syncBuildRecords_onward constructed).trans toFence)

/-! ## Reading under the lock -/

structure HealthEntry.Shows (e : HealthEntry) (rec : Record) : Prop where
  state : e.state.string = rec.state
  generation : e.generation = rec.gen
  revision : e.revision = rec.rev

theorem entryOf_shows (prev : HealthView) (nowMs : Int) (k : HealthKey) {rec : Record}
    (written : ∃ state : HealthState, rec.state = state.string) :
    (entryOf prev nowMs k rec).Shows rec := by
  obtain ⟨state, text⟩ := written
  have known : (HealthState.ofString rec.state).string = rec.state := by
    rw [text, HealthState.ofString_string]
  unfold entryOf
  split
  · exact ⟨known, rfl, rfl⟩
  split
  · exact ⟨known, rfl, rfl⟩
  · exact ⟨known, rfl, rfl⟩

theorem buildRecord_cases {built after : Built} {field : Text} {found : Option Record}
    (read : buildRecord prev nowMs built field found = some after) :
    (found = none ∨ parseHealthKey field = none) ∧ after.records = built.records ∨
      ∃ rec k, found = some rec ∧ parseHealthKey field = some k ∧
        after.records = built.records.insert k (entryOf prev nowMs k rec) := by
  unfold buildRecord at read
  split at read
  · cases read
    exact .inl ⟨.inl rfl, rfl⟩
  next rec =>
    split at read
    next unread =>
      cases read
      exact .inl ⟨.inr unread, rfl⟩
    next k parsed =>
      split at read
      · exact nomatch read
      · cases read
        exact .inr ⟨rec, k, rfl, parsed, rfl⟩

/-- The entries read show records that are there at the fence and were alive at the
beginning, and every record of the fields read so far that is alive at the fence is among
them. -/
structure Mirrors (entries : Map HealthKey HealthEntry) (fields : List Text) (begun : Int)
    (fence : Redis) : Prop where
  plain : ∀ {k e}, entries.lookup k = some e → k.Plain
  shown : ∀ {k e}, entries.lookup k = some e →
    ∃ rec, fence.records.lookup k.string = some rec ∧ begun < rec.expires ∧ e.Shows rec
  complete : ∀ {field rec}, field ∈ fields → fence.hgetall field = some rec →
    ∃ k e, k.string = field ∧ entries.lookup k = some e ∧ e.Shows rec

namespace Mirrors

theorem nil (begun : Int) (fence : Redis) : Mirrors ∅ [] begun fence :=
  ⟨fun looked => by simp at looked, fun looked => by simp at looked, nofun⟩

variable {fields : List Text} {begun : Int} {fence : Redis}

variable {entries : Map HealthKey HealthEntry} {field : Text} {r : Redis} {built after : Built}

/-- A field passed over has no record that is alive at the fence. -/
theorem skip (mirrors : Mirrors entries fields begun fence) (sound : fence.Sound)
    (same : r.records = fence.records) (now_le : r.now ≤ fence.now)
    (skipped : r.hgetall field = none ∨ parseHealthKey field = none) :
    Mirrors entries (fields ++ [field]) begun fence := by
  refine ⟨mirrors.plain, mirrors.shown, fun {other rec} member alive => ?_⟩
  rcases List.mem_append.mp member with before | here
  · exact mirrors.complete before alive
  cases List.mem_singleton.mp here
  obtain ⟨there, unexpired⟩ := Redis.hgetall_eq_some.mp alive
  obtain ⟨key, plain, rfl, -⟩ := (sound.written there).key
  rcases skipped with absent | unread
  · have seen : r.hgetall key.string = some rec :=
      Redis.hgetall_eq_some.mpr ⟨same ▸ there, lt_of_le_of_lt now_le unexpired⟩
    exact nomatch absent.symm.trans seen
  · exact nomatch unread.symm.trans (HealthKey.parse_string plain)

theorem insert {key : HealthKey} {e : HealthEntry} {rec : Record}
    (mirrors : Mirrors entries fields begun fence) (plain : key.Plain)
    (there : fence.records.lookup key.string = some rec) (alive : begun < rec.expires)
    (shows : e.Shows rec) :
    Mirrors (entries.insert key e) (fields ++ [key.string]) begun fence := by
  constructor
  · intro k e' looked
    rw [lookup_insert_ite] at looked
    split at looked
    next here => exact here ▸ plain
    · exact mirrors.plain looked
  · intro k e' looked
    rw [lookup_insert_ite] at looked
    split at looked
    next here =>
      cases looked
      exact ⟨rec, here ▸ there, alive, shows⟩
    · exact mirrors.shown looked
  · intro field rec' member found
    by_cases here : field = key.string
    · subst here
      obtain ⟨again, -⟩ := Redis.hgetall_eq_some.mp found
      cases there.symm.trans again
      exact ⟨key, e, rfl, by rw [lookup_insert_ite, if_pos rfl], shows⟩
    · have before : field ∈ fields := by
        rcases List.mem_append.mp member with before | last
        · exact before
        · exact absurd (List.mem_singleton.mp last) here
      obtain ⟨k, e', rfl, looked, shows⟩ := mirrors.complete before found
      refine ⟨k, e', rfl, ?_, shows⟩
      rw [lookup_insert_ite, if_neg fun equal => here (congrArg _ equal), looked]

theorem buildRecord (mirrors : Mirrors built.records fields begun fence) (sound : fence.Sound)
    (same : r.records = fence.records) (begun_le : begun ≤ r.now) (now_le : r.now ≤ fence.now)
    (read : buildRecord prev nowMs built field (r.hgetall field) = some after) :
    Mirrors after.records (fields ++ [field]) begun fence := by
  rcases buildRecord_cases read with ⟨skipped, kept⟩ | ⟨rec, k, found, parsed, inserted⟩
  · rw [kept]
    exact mirrors.skip sound same now_le skipped
  obtain ⟨here, alive⟩ := Redis.hgetall_eq_some.mp found
  have there : fence.records.lookup field = some rec := same ▸ here
  have written := sound.written there
  obtain ⟨key, plain, rfl, -⟩ := written.key
  obtain rfl := some.inj ((HealthKey.parse_string plain).symm.trans parsed)
  rw [inserted]
  exact mirrors.insert plain there (lt_of_le_of_lt begun_le alive)
    (entryOf_shows prev nowMs key written.state)

theorem syncBuildRecords {prev : HealthView} {nowMs : Int} {members : List Text}
    {start w w' : World} (mirrors : Mirrors built.records fields start.redis.now fence)
    (sound : fence.Sound) (before : Redis.Later start.redis w.redis)
    (finish : Redis.Later w'.redis fence) (steady : fence.current = start.redis.current)
    (ran : syncBuildRecords prev nowMs members built w = some (after, w')) :
    Mirrors after.records (fields ++ members) start.redis.now fence := by
  induction members generalizing fields built w with
  | nil =>
    obtain ⟨rfl, rfl⟩ := Prod.mk.inj (some.inj ran)
    rwa [List.append_nil]
  | cons field rest ih =>
    rw [Health.syncBuildRecords] at ran
    split at ran
    · exact nomatch ran
    rename_i next read
    have here := before.trans (Onward.turn w).later
    have ahead := (syncBuildRecords_onward ran).later.trans finish
    have same := here.lock.seen ahead.lock steady
    have step := mirrors.buildRecord sound same here.now_le ahead.now_le read
    rw [List.append_cons]
    exact ih step here ran

end Mirrors

/-- What a `Sync` read is what Redis holds at the fence: its generation, and its records
but for those that expired in the meantime. -/
structure Cut.Faithful (cut : Cut) (begun : Int) (fence : Redis) : Prop where
  gen : cut.gen = fence.current
  plain : ∀ {k e}, cut.records.lookup k = some e → k.Plain
  shown : ∀ {k e}, cut.records.lookup k = some e →
    ∃ rec, fence.records.lookup k.string = some rec ∧ begun < rec.expires ∧ e.Shows rec
  complete : ∀ {field rec}, fence.hgetall field = some rec →
    ∃ k e, k.string = field ∧ cut.records.lookup k = some e ∧ e.Shows rec

theorem sync_faithful (sound : w.redis.Sound)
    (ran : sync order nowMs prev w = some (cut, w')) : cut.Faithful w.redis.now w'.redis := by
  obtain ⟨start, middle, built, toStart, toList, constructed, toFence, steady, records, gen,
    -⟩ := sync_eq_some ran
  have building := syncBuildRecords_onward constructed
  have fenced := (sync_onward ran).sound sound
  have mirrors : Mirrors built.records ([] ++ start.turn.turn.redis.zrange) start.redis.now
      w'.redis :=
    (Mirrors.nil _ _).syncBuildRecords fenced toList.later toFence.later steady constructed
  refine ⟨gen.trans steady.symm, fun {k e} looked => ?_, fun {k e} looked => ?_,
    fun {field rec} alive => ?_⟩
  · exact mirrors.plain (records ▸ looked)
  · rw [records] at looked
    obtain ⟨rec, there, unexpired, shows⟩ := mirrors.shown looked
    exact ⟨rec, there, lt_of_le_of_lt toStart.later.now_le unexpired, shows⟩
  · -- a record alive at the fence was in the active set when that was read
    have ahead := building.later.trans toFence.later
    have same := toList.later.lock.seen ahead.lock steady
    obtain ⟨there, unexpired⟩ := Redis.hgetall_eq_some.mp alive
    have earlier : start.turn.turn.redis.hgetall field = some rec :=
      Redis.hgetall_eq_some.mpr ⟨same ▸ there, lt_of_le_of_lt ahead.now_le unexpired⟩
    rw [records]
    refine mirrors.complete ?_ alive
    rw [List.nil_append, Redis.zrange, List.mem_reverse]
    exact ((toStart.trans toList).sound sound).listed earlier

theorem syncPublish_entries (read : cut.records ≠ ∅) :
    (syncPublish prev cut).entries = cut.records := by
  rw [syncPublish, if_neg read]

/-- The published view is Redis at the fence: every record alive there is shown, and
whatever is shown is there, unless it has expired since it was read. -/
theorem sync_publishes_fence {order : List Text → List Text} {nowMs : Int}
    {prev : HealthView} {w w' : World} {cut : Cut} (reachable : w.redis.Reachable)
    (ran : sync order nowMs prev w = some (cut, w')) (read : cut.records ≠ ∅) :
    (syncPublish prev cut).gen = w'.redis.current ∧
      (∀ field rec, w'.redis.hgetall field = some rec →
        ∃ key e, key.string = field ∧ (syncPublish prev cut).entries.lookup key = some e ∧
          e.Shows rec) ∧ ∀ key e, (syncPublish prev cut).entries.lookup key = some e →
        ∃ rec, e.Shows rec ∧ (w'.redis.hgetall key.string = some rec ∨
          w'.redis.records.lookup key.string = some rec ∧ w.redis.now < rec.expires ∧
            rec.expires ≤ w'.redis.now) := by
  have faithful := sync_faithful reachable.sound ran
  refine ⟨?_, fun field rec alive => ?_, fun key e looked => ?_⟩
  · rw [syncPublish, if_neg read]
    exact faithful.gen
  · rw [syncPublish_entries read]
    exact faithful.complete alive
  rw [syncPublish_entries read] at looked
  obtain ⟨rec, there, unexpired, shows⟩ := faithful.shown looked
  refine ⟨rec, shows, ?_⟩
  by_cases alive : w'.redis.now < rec.expires
  · exact .inl (Redis.hgetall_eq_some.mpr ⟨there, alive⟩)
  · exact .inr ⟨there, unexpired, not_lt.mp alive⟩

/-- A record for account 7 is written before the first command, another instance fails to
mark it ready, and the record of account 8 expires after it was read. -/
def sampleWorld : World where
  redis := Redis.throttle {} ⟨8, identityAny, ['a'], 1⟩ .retryAfter 5
  schedule :=
    [[.throttle ⟨7, identityAny, ['b'], 2⟩ (by decide) .opened 600], [],
      [.markReady ⟨7, identityAny, ['b'], 2⟩ 1 0], [], [.wait 10], [.cleanup .active [] 0]]

theorem sync_publishes_fence_sample : ∃ cut w',
    sync id 1000 {} sampleWorld = some (cut, w') ∧ cut.records.keys.length = 2 ∧
      ∀ field rec, w'.redis.hgetall field = some rec →
        ∃ key e, key.string = field ∧ (syncPublish {} cut).entries.lookup key = some e ∧
          e.Shows rec := by
  have two : (sync id 1000 {} sampleWorld).any (fun p => p.1.records.keys.length = 2) = true := by
    decide +kernel
  obtain ⟨⟨cut, w'⟩, ran, two⟩ := (any_eq_true _ _).mp two
  have two := of_decide_eq_true two
  have reachable : sampleWorld.redis.Reachable :=
    ⟨0, "", [.throttle ⟨8, identityAny, ['a'], 1⟩ (by decide) .retryAfter 5], rfl⟩
  have read : cut.records ≠ ∅ := by
    rintro none
    rw [none] at two
    exact nomatch two
  exact ⟨cut, w', ran, two, (sync_publishes_fence reachable ran read).2.1⟩

end C3Api.Health
