import C3Api.Health.Probe

/-!
# Two successes bring an account back

While nobody else writes, two ticks of successful probes mark an entry ready exactly when
its record is alive and carries the current generation; a `Sync` then drops it.  The
generation is shared, so any later write for another key keeps the entry from it.
-/

namespace C3Api.Health

open FiniteMap List Option Redis RuntimeHealth HealthView HealthKey

def calm (r : Redis) (pauses : List Nat) : World := ⟨r, pauses.map fun ms => [.wait ms]⟩

/-- A calm world whose Redis satisfies a property and whose clock stays within a bound. -/
def Calm (P : Redis → Prop) (late : Int) (w : World) : Prop :=
  ∃ r pauses, w = calm r pauses ∧ P r ∧ r.now + pauses.sum ≤ late

def Stable (P : Redis → Prop) : Prop := ∀ r ms, P r → P (wait r ms)

namespace Calm

variable {P Q : Redis → Prop} {late : Int} {w : World}

theorem redis (at_rest : Calm P late w) : P w.redis ∧ w.redis.now ≤ late := by
  obtain ⟨r, pauses, rfl, holds, bound⟩ := at_rest
  exact ⟨holds, le_trans (Int.le_add_of_nonneg_right (Int.natCast_nonneg _)) bound⟩

theorem turn (stable : Stable P) (at_rest : Calm P late w) : Calm P late w.turn := by
  obtain ⟨r, pauses, rfl, holds, bound⟩ := at_rest
  cases pauses with
  | nil => exact ⟨r, [], rfl, holds, bound⟩
  | cons ms rest =>
    refine ⟨r.wait ms, rest, rfl, stable r ms holds, ?_⟩
    rw [sum_cons] at bound
    simp only [wait]
    omega

theorem set {r : Redis} (at_rest : Calm P late w) (holds : Q r) (now : r.now = w.redis.now) :
    Calm Q late { w with redis := r } := by
  obtain ⟨r', pauses, rfl, -, bound⟩ := at_rest
  exact ⟨r, pauses, rfl, holds, by rw [now]; exact bound⟩

theorem imp (weaker : ∀ r, P r → Q r) (at_rest : Calm P late w) : Calm Q late w := by
  obtain ⟨r, pauses, same, holds, bound⟩ := at_rest
  exact ⟨r, pauses, same, weaker r holds, bound⟩

end Calm

/-! ## What ticks leave of Redis -/

/-- Time has passed, and at most one record, of the generation there was, is marked ready. -/
structure Ticked (base : Redis) (marked : Option Text) (r : Redis) : Prop where
  sound : r.Sound
  records : r.records = marked.elim base.records base.records.erase
  current : r.current = base.current + marked.elim 0 fun _ => 1
  tomb : ∀ field, marked = some field → field ∈ r.tombs
  stamped : ∀ field, marked = some field →
    ∃ rec, base.records.lookup field = some rec ∧ rec.gen = base.current
  now_le : base.now ≤ r.now

variable {view : HealthView} {base r after : Redis} {marked : Option Text}

namespace Ticked

theorem stable : Stable (Ticked base marked) := fun _ ms ticked =>
  { ticked with
    sound := ticked.sound.wait ms
    now_le := le_trans ticked.now_le (by simp [wait]) }

theorem start (sound : base.Sound) : Ticked base none base where
  sound := sound
  records := rfl
  current := (add_zero _).symm
  tomb := nofun
  stamped := nofun
  now_le := le_refl _

variable (ticked : Ticked base marked r) {field : Text} {rec : Record}

include ticked

theorem lookup (found : r.records.lookup field = some rec) :
    base.records.lookup field = some rec ∧ marked ≠ some field := by
  rw [ticked.records] at found
  cases marked with
  | none => exact ⟨found, nofun⟩
  | some gone =>
    rw [elim_some, lookup_erase_ite] at found
    split at found
    · exact nomatch found
    next apart => exact ⟨found, fun same => apart (some.inj same).symm⟩

/-- A record of an earlier generation stays. -/
theorem kept (found : base.records.lookup field = some rec) (early : rec.gen ≠ base.current) :
    r.records.lookup field = some rec := by
  rw [ticked.records]
  cases marked with
  | none => exact found
  | some gone =>
    rw [elim_some, lookup_erase_ite, if_neg, found]
    rintro rfl
    obtain ⟨rec', found', stamped⟩ := ticked.stamped field rfl
    cases found.symm.trans found'
    exact early stamped

theorem hgetall (alive : r.hgetall field = some rec) : base.hgetall field = some rec := by
  obtain ⟨found, unexpired⟩ := hgetall_eq_some.mp alive
  exact hgetall_eq_some.mpr ⟨(ticked.lookup found).1, lt_of_le_of_lt ticked.now_le unexpired⟩

/-- No two records carry one generation, so a second one is not marked. -/
theorem mark (sound : base.Sound) {key : HealthKey} {gen ttl : Int}
    (done : r.markReady key gen ttl = some after) :
    marked = none ∧ Ticked base (some key.string) after ∧ after.now = r.now := by
  obtain ⟨rfl, -, rec, found, stamped, -⟩ := readyLua_eq_some done
  obtain ⟨there, -⟩ := ticked.lookup (hgetall_eq_some.mp found).1
  rw [ticked.current] at stamped
  cases marked with
  | none =>
    refine ⟨rfl, ⟨ticked.sound.incr.bury _ _, ?_, ?_, ?_, ?_, ticked.now_le⟩, rfl⟩
    · rw [bury, incr, ticked.records]
      rfl
    · rw [current_bury, current_incr, ticked.current]
      simp
    · rintro field ⟨⟩
      exact (AList.mem_insert _).mpr (.inl rfl)
    · rintro field ⟨⟩
      exact ⟨rec, there, by simpa using stamped⟩
  | some gone =>
    have bound := (sound.written there).gen_le
    rw [stamped, elim_some] at bound
    omega

end Ticked

structure Current (base : Redis) (key : HealthKey) (rec : Record) : Prop where
  sound : base.Sound
  plain : key.Plain
  found : base.records.lookup key.string = some rec
  gen : rec.gen = base.current

namespace Current

variable {key : HealthKey} {rec : Record} (current : Current base key rec)

include current

theorem pos : 0 < base.current := current.gen ▸ (current.sound.written current.found).gen_pos

theorem rev : rec.rev = key.identityRevision := by
  obtain ⟨other, plain, same, rev⟩ := (current.sound.written current.found).key
  rw [rev, string_injective current.plain plain same]

theorem accepted (ticked : Ticked base none r) (alive : r.now < rec.expires) :
    ∃ after, r.markReady key base.current 30000 = some after := by
  have found : r.hgetall key.string = some rec :=
    hgetall_eq_some.mpr ⟨by rw [ticked.records]; exact current.found, alive⟩
  have same : r.current = base.current := by simp [ticked.current]
  refine ⟨r.incr.bury (ttlMs 30000) key.string, ?_⟩
  simp [markReady, readyLua, found, same, current.gen, current.rev]

end Current

/-! ## Counting successes -/

namespace RuntimeHealth

def successes (h : RuntimeHealth) (field : Text) (gen : Int) : Nat :=
  if h.successGen.lookup field = some gen then (h.successCount.lookup field).getD 0 else 0

variable (h : RuntimeHealth)

theorem countSuccess_lookup (field : Text) (gen : Int) :
    ((h.countSuccess field gen).successCount.lookup field).getD 0 = h.successes field gen + 1 := by
  unfold countSuccess successes
  split
  · simp
  · simp

theorem countSuccess_successes (field : Text) (gen : Int) :
    (h.countSuccess field gen).successes field gen = h.successes field gen + 1 := by
  rw [← countSuccess_lookup, successes, if_pos]
  unfold countSuccess
  split
  · assumption
  · simp

theorem countSuccess_other {field other : Text} (apart : other ≠ field) (gen g : Int) :
    (h.countSuccess field gen).successes other g = h.successes other g := by
  unfold countSuccess successes
  split
  · simp [apart]
  · simp [apart]

theorem forget_other {field other : Text} (apart : other ≠ field) (g : Int) :
    (h.forget field).successes other g = h.successes other g := by
  simp [forget, successes, apart]

theorem readGen_of_pos {r : Redis} (pos : 0 < r.current) : h.readGen r = r.current := by
  unfold readGen
  cases gen : r.gen with
  | none => simp [current, gen] at pos
  | some v =>
    have same : r.current = v := by simp [current, gen]
    dsimp only
    rw [if_neg (by omega), same]

end RuntimeHealth

/-! ## One key of a tick -/

variable {key : HealthKey} {rec : Record} {late : Int}

/-- The key is ready, or has `n` successes under the current generation. -/
def Nears (base : Redis) (key : HealthKey) (late : Int) (n : Nat) (s : RuntimeHealth × World) :
    Prop :=
  ∃ marked, Calm (Ticked base marked) late s.2 ∧
    (marked = some key.string ∨
      marked = none ∧ n ≤ 1 ∧ n ≤ s.1.successes key.string base.current)

section

variable {n : Nat} {s : RuntimeHealth × World}

theorem probeKey_ticked (sound : base.Sound) (other : HealthKey)
    (ticked : Calm (Ticked base marked) late s.2) :
    ∃ marked', Calm (Ticked base marked') late (probeKey .passed other s.1 s.2).2 ∧
      (marked' = marked ∨ marked = none ∧ marked' = some other.string) := by
  have once := ticked.turn Ticked.stable
  have twice := once.turn Ticked.stable
  simp only [probeKey]
  split
  · rcases done : markReady _ other _ 30000 with _ | after
    · exact ⟨marked, twice, .inl rfl⟩
    · obtain ⟨none, marks, now⟩ := twice.redis.1.mark sound done
      exact ⟨_, twice.set marks now, .inr ⟨none, rfl⟩⟩
  · exact ⟨marked, once, .inl rfl⟩

theorem successes_probeKey {other : HealthKey} (apart : key.string ≠ other.string) (gen : Int) :
    (probeKey .passed other s.1 s.2).1.successes key.string gen = s.1.successes key.string gen := by
  simp only [probeKey]
  split
  · rw [forget_other _ apart, countSuccess_other _ apart]
  · exact countSuccess_other _ apart _ _

variable (current : Current base key rec)

include current

theorem Nears.other {other : HealthKey} (apart : key.string ≠ other.string)
    (near : Nears base key late n s) : Nears base key late n (probeKey .passed other s.1 s.2) := by
  obtain ⟨marked, world, progress⟩ := near
  obtain ⟨marked', world', same⟩ := probeKey_ticked current.sound other world
  refine ⟨marked', world', ?_⟩
  rw [successes_probeKey apart]
  rcases same with rfl | ⟨-, rfl⟩
  · exact progress
  · -- the other record would carry the generation of this one
    obtain ⟨rec', found, stamped⟩ := world'.redis.1.stamped _ rfl
    exact absurd (current.sound.apart current.found found (current.gen.trans stamped.symm)) apart

theorem Nears.own (alive : late < rec.expires) (near : Nears base key late n s) :
    Nears base key late (n + 1) (probeKey .passed key s.1 s.2) := by
  obtain ⟨marked, world, rfl | ⟨rfl, few, counted⟩⟩ := near
  · obtain ⟨marked', world', rfl | ⟨none, -⟩⟩ := probeKey_ticked current.sound key world
    · exact ⟨_, world', .inl rfl⟩
    · cases none
  have once := world.turn Ticked.stable
  have twice := once.turn Ticked.stable
  have steady : s.2.turn.redis.current = base.current := by simp [once.redis.1.current]
  have readGen : s.1.readGen s.2.turn.redis = base.current := by
    rw [s.1.readGen_of_pos (steady ▸ current.pos), steady]
  simp only [probeKey]
  rw [readGen, countSuccess_lookup]
  split
  · obtain ⟨after, done⟩ := current.accepted twice.redis.1 (lt_of_le_of_lt twice.redis.2 alive)
    obtain ⟨-, marks, now⟩ := twice.redis.1.mark current.sound done
    rw [done, getD_some]
    exact ⟨_, twice.set marks now, .inl rfl⟩
  · refine ⟨none, once, .inr ⟨rfl, by omega, ?_⟩⟩
    rw [countSuccess_successes]
    omega

/-! ## A whole tick -/

variable {election : Election} {members : List Text} {view : HealthView}

structure Owned (election : Election) (members : List Text) (view : HealthView)
    (key : HealthKey) : Prop where
  probing : ∃ entry, view.entries.lookup key = some entry ∧ entry.state = .probing
  owner : election.rendezvous key.string members = election.selfID

omit current in
theorem Owned.probeEntry (owned : Owned election members view key)
    (probe : HealthKey → Probed) (s : RuntimeHealth × World) :
    probeEntry election members view probe s key = probeKey (probe key) key s.1 s.2 := by
  obtain ⟨entry, looked, probing⟩ := owned.probing
  simp [Health.probeEntry, looked, probing, owned.owner]

/-- The entries one after the other, whose probes all succeed. -/
abbrev probed (election : Election) (members : List Text) (view : HealthView)
    (order : List HealthKey) (s : RuntimeHealth × World) : RuntimeHealth × World :=
  order.foldl (probeEntry election members view fun _ => .passed) s

variable {order : List HealthKey}

omit current in
/-- What every probe keeps, a tick keeps. -/
theorem probed_keeps {I : RuntimeHealth × World → Prop} (before : I s)
    (each : ∀ other ∈ order, ∀ s, I s → I (probeKey .passed other s.1 s.2)) :
    I (probed election members view order s) := by
  refine foldlRecOn order _ before fun s before other member => ?_
  rcases probeEntry_cases election members view (fun _ => .passed) s other with
    same | same <;> rw [same]
  · exact before
  · exact each other member s before

theorem Nears.others (plain : ∀ other ∈ order, other.Plain) (apart : key ∉ order)
    (near : Nears base key late n s) :
    Nears base key late n (probed election members view order s) := by
  refine probed_keeps near fun other member s near => near.other current fun equal => apart ?_
  rw [string_injective current.plain (plain other member) equal]
  exact member

/-- A tick counts one success of the key. -/
theorem Nears.tick (owned : Owned election members view key)
    (plain : ∀ other ∈ order, other.Plain) (distinct : order.Nodup) (member : key ∈ order)
    (alive : late < rec.expires) (near : Nears base key late n s) :
    Nears base key late (n + 1) (probed election members view order s) := by
  obtain ⟨before, after, rfl⟩ := append_of_mem member
  have parts := nodup_append.mp distinct
  rw [forall_mem_append, forall_mem_cons] at plain
  rw [probed, foldl_append, foldl_cons, owned.probeEntry]
  have early : key ∉ before := fun early => parts.2.2 key early key mem_cons_self rfl
  exact ((near.others current plain.1 early).own current alive).others current plain.2.2
    (nodup_cons.mp parts.2.1).1

end

/-! ## The sync that follows -/

def Waited (base r : Redis) : Prop := ∃ ms, r = base.wait ms

theorem Waited.stable (base : Redis) : Stable (Waited base) := by
  rintro r ms ⟨before, rfl⟩
  exact ⟨before + ms, by simp [wait, add_assoc]⟩

section

variable {w : World}

theorem syncBuildRecords_calm (sound : base.Sound)
    (revised : ∀ {field rec}, base.hgetall field = some rec → 0 ≤ rec.rev)
    (prev : HealthView) (nowMs : Int) (fields : List Text) (built : Built)
    (rest : Calm (Waited base) late w) :
    ∃ after w', syncBuildRecords prev nowMs fields built w = some (after, w') ∧
      Calm (Waited base) late w' := by
  induction fields generalizing built w with
  | nil => exact ⟨built, w, rfl, rest⟩
  | cons field fields ih =>
    have once := rest.turn (Waited.stable base)
    obtain ⟨ms, waited⟩ := once.redis.1
    -- no record that the scripts write is malformed
    obtain ⟨next, read⟩ : ∃ next,
        buildRecord prev nowMs built field (w.turn.redis.hgetall field) = some next := by
      cases found : w.turn.redis.hgetall field with
      | none => exact ⟨_, rfl⟩
      | some rec =>
        have there : base.hgetall field = some rec := by
          rw [waited] at found
          obtain ⟨listed, alive⟩ := hgetall_eq_some.mp found
          exact hgetall_eq_some.mpr ⟨listed, lt_of_le_of_lt (by simp [wait]) alive⟩
        have written := sound.written (hgetall_eq_some.mp there).1
        have formed : ¬(rec.gen < 0 ∨ rec.rev < 0 ∨ rec.ttl ≤ 0) := by
          have := written.gen_pos
          have := written.ttl_pos
          have := revised there
          omega
        rw [buildRecord]
        cases parseHealthKey field with
        | none => exact ⟨_, rfl⟩
        | some k => exact ⟨_, if_neg formed⟩
    obtain ⟨after, w', ran, rest'⟩ := ih next once
    exact ⟨after, w', by rw [syncBuildRecords, read]; exact ran, rest'⟩

theorem staleTombs_calm (fields : List Text) (rest : Calm (Waited base) late w) :
    Calm (Waited base) late (staleTombs fields w).2 := by
  induction fields generalizing w with
  | nil => exact rest
  | cons field fields ih =>
    exact ih (rest.turn (Waited.stable base))

theorem gen_stable (gen : Int) : Stable fun r => r.current = gen := fun _ _ same => same

theorem cleanupFields_calm (mode : Redis.Cleanup) (gen expected : Int) (fields : List Text)
    (rest : Calm (fun r => r.current = gen) late w) :
    Calm (fun r => r.current = gen) late (cleanupFields mode expected w fields) := by
  refine foldlRecOn fields _ rest fun w rest field _ => ?_
  have once := rest.turn (gen_stable gen)
  refine once.set (once.redis.1 ▸ ?_) ?_ <;>
    rcases cleanupLua_cases w.turn.redis mode field expected with
      same | ⟨-, same⟩ | same <;> rw [same] <;> rfl

theorem sync_calm (sound : base.Sound)
    (revised : ∀ {field rec}, base.hgetall field = some rec → 0 ≤ rec.rev)
    (order : List Text → List Text) (nowMs : Int) (prev : HealthView)
    (rest : Calm (Waited base) late w) :
    ∃ cut w', sync order nowMs prev w = some (cut, w') ∧
      cut.tombMembers = base.tombs.keys ∧ w'.redis.current = base.current ∧
        w'.redis.now ≤ late := by
  have waits := Waited.stable base
  have gen {r : Redis} (waited : Waited base r) : r.current = base.current := by
    obtain ⟨ms, rfl⟩ := waited
    rfl
  have readGen {w : World} (rest : Calm (Waited base) late w) :
      syncReadGen w.redis = some base.current := by
    rw [syncReadGen, gen rest.redis.1, if_neg (not_lt.mpr sound.started)]
  obtain ⟨built, middle, ran, rest'⟩ := syncBuildRecords_calm sound revised prev nowMs
    w.turn.turn.turn.redis.zrange {} (((rest.turn waits).turn waits).turn waits)
  have tombs := rest'.turn waits
  have stale := staleTombs_calm (order middle.turn.redis.tombs.keys) tombs
  have again := stale.turn waits
  have cleaned := cleanupFields_calm .tomb base.current base.current
    ((staleTombs (order middle.turn.redis.tombs.keys) middle.turn).1.take healthCleanupBound)
    (cleanupFields_calm .active base.current base.current
      (built.staleActive.take healthCleanupBound) (again.imp fun _ => gen))
  have fenced := (cleaned.turn (gen_stable _)).redis
  let cut : Cut :=
    { records := built.records, gen := base.current, runID := w.turn.turn.redis.runID,
      nowMs := nowMs, tombMembers := middle.turn.redis.tombs.keys }
  refine ⟨cut, _, ?_, ?_, fenced⟩
  · simp only [sync, syncReadTombstones, bind_eq_bind, readGen (rest.turn waits), ran,
      readGen again, bind_some]
    exact (if_neg (not_not.mpr rfl)).trans (if_pos (decide_eq_true fenced.1))
  · obtain ⟨ms, waited⟩ := tombs.redis.1
    show middle.turn.redis.tombs.keys = base.tombs.keys
    rw [waited]
    rfl

end

theorem severity_le_graver (best : HealthState) (key : HealthKey) :
    best.severity ≤ (view.graver best key).severity := by
  unfold graver
  split
  · exact le_refl _
  · split <;> omega

theorem state_of_effectiveState {k : HealthKey} {e : HealthEntry}
    (looked : view.entries.lookup k = some e)
    (ready : view.effectiveState k.accountID k.quality k.identity k.identityRevision = .ready) :
    e.state = .ready := by
  have rises (keys : List HealthKey) (best : HealthState) :
      best.severity ≤ (keys.foldl view.graver best).severity :=
    foldlRecOn (motive := fun s : HealthState => best.severity ≤ s.severity) keys _ (le_refl _)
      fun s le key _ => le.trans (severity_le_graver s key)
  have own : e.state.severity ≤ (view.graver .ready k).severity := by
    simp only [graver, looked]
    split <;> omega
  have grave : e.state.severity ≤ HealthState.ready.severity := by
    rw [← ready]
    exact own.trans (rises [⟨_, _, identityAny, _⟩, ⟨_, identityAny, _, _⟩,
      ⟨_, identityAny, identityAny, _⟩] _)
  cases state : e.state <;> simp [state, HealthState.severity] at grave ⊢

theorem effectiveState_eq_ready {accountID : Int}
    (none : ∀ key : HealthKey, key.accountID = accountID → view.entries.lookup key = none)
    (quality identity : Text) (revision : Int) :
    view.effectiveState accountID quality identity revision = .ready := by
  simp [effectiveState, graver, none]

/-! ## Two ticks and a sync -/

/-- A tick whose probes all succeed, while nobody else writes. -/
structure Tick where
  members : List Text
  order : List HealthKey
  pauses : List Nat

def Tick.run (election : Election) (tick : Tick) (s : RuntimeHealth × Redis) :
    RuntimeHealth × Redis :=
  let (h, w) := probeTick election tick.members tick.order (fun _ => .passed) s.1
    (calm s.2 tick.pauses)
  (h, w.redis)

/-- The tick runs over the entries of the view, and the entry is this instance's. -/
structure Tick.Covers (election : Election) (view : HealthView) (key : HealthKey)
    (tick : Tick) : Prop where
  order : tick.order.Perm view.entries.keys
  owned : Owned election tick.members view key

/-- The entry is the account's only one, its record is alive until `late`, and no `Sync` fails
on a record of a negative revision. -/
structure Sole (h : RuntimeHealth) (r : Redis) (key : HealthKey) (rec : Record) (late : Int) :
    Prop where
  found : r.records.lookup key.string = some rec
  alive : late < rec.expires
  unready : rec.state ≠ HealthState.ready.string
  viewed : ∀ {other entry}, h.view.entries.lookup other = some entry →
    other.accountID = key.accountID → other = key
  alone : ∀ {other : HealthKey}, other.Plain → (r.hgetall other.string).isSome →
    other.accountID = key.accountID → other = key
  revised : ∀ {field rec}, r.hgetall field = some rec → 0 ≤ rec.rev

section

variable {election : Election} {s : RuntimeHealth × Redis} {tick : Tick}

theorem Tick.run_view (election : Election) (tick : Tick) (s : RuntimeHealth × Redis) :
    (tick.run election s).1.view = s.1.view :=
  probeTick_view _ _ _ _ _ _

theorem Tick.run_ticked (sound : base.Sound) (ticked : ∃ marked, Ticked base marked s.2)
    (election : Election) (tick : Tick) :
    (∃ marked, Ticked base marked (tick.run election s).2) ∧
      (tick.run election s).2.now ≤ s.2.now + tick.pauses.sum := by
  obtain ⟨marked, ticked⟩ := ticked
  obtain ⟨marked', calm⟩ : ∃ marked', Calm (Ticked base marked') (s.2.now + tick.pauses.sum)
      (probed election tick.members s.1.view tick.order (s.1, calm s.2 tick.pauses)).2 :=
    probed_keeps (I := fun t => ∃ marked, Calm (Ticked base marked) _ t.2)
      ⟨marked, s.2, tick.pauses, rfl, ticked, le_refl _⟩ fun other _ _ ⟨_, calm⟩ =>
      (probeKey_ticked sound other calm).imp fun _ kept => kept.1
  exact ⟨⟨marked', calm.redis.1⟩, calm.redis.2⟩

theorem Tick.Covers.member {view : HealthView} (covers : tick.Covers election view key) :
    key ∈ tick.order := by
  obtain ⟨entry, looked, -⟩ := covers.owned.probing
  exact covers.order.mem_iff.mpr (AList.lookup_isSome.mp (by rw [looked]; rfl))

theorem Tick.Covers.distinct {view : HealthView} (covers : tick.Covers election view key) :
    tick.order.Nodup :=
  covers.order.nodup_iff.mpr view.entries.nodupKeys

theorem run_twice (current : Current s.2 key rec) {first second : Tick}
    (bound : s.2.now + first.pauses.sum + second.pauses.sum < rec.expires)
    (covers : first.Covers election s.1.view key) (covers' : second.Covers election s.1.view key)
    (plain : ∀ {other entry}, s.1.view.entries.lookup other = some entry → other.Plain) :
    Ticked s.2 (some key.string) (second.run election (first.run election s)).2 := by
  have listed {tick : Tick} (covers : tick.Covers election s.1.view key) :
      ∀ other ∈ tick.order, other.Plain := fun other member => by
    obtain ⟨entry, looked⟩ := isSome_iff_exists.mp
      (AList.lookup_isSome.mpr (covers.order.mem_iff.mp member))
    exact plain looked
  have start : Nears s.2 key (s.2.now + first.pauses.sum) 0 (s.1, calm s.2 first.pauses) :=
    ⟨none, ⟨s.2, first.pauses, rfl, .start current.sound, le_refl _⟩,
      .inr ⟨rfl, Nat.zero_le _, Nat.zero_le _⟩⟩
  obtain ⟨marked, world, progress⟩ := start.tick current covers.owned (listed covers)
    covers.distinct covers.member (by omega)
  have now_le : (first.run election s).2.now ≤ s.2.now + first.pauses.sum := world.redis.2
  have again : Nears s.2 key (s.2.now + first.pauses.sum + second.pauses.sum) 1
      ((first.run election s).1, calm (first.run election s).2 second.pauses) :=
    ⟨marked, ⟨_, second.pauses, rfl, world.redis.1, by omega⟩, progress⟩
  rw [← first.run_view election s] at covers' listed
  obtain ⟨marked', world', rfl | ⟨-, few, -⟩⟩ := again.tick current covers'.owned
    (listed covers') covers'.distinct covers'.member bound
  · exact world'.redis.1
  · omega

end

/-- A fresh instance after its first `Sync`, undisturbed. -/
def synced (r : Redis) : RuntimeHealth × Redis :=
  match sync id 0 {} ⟨r, []⟩ with
  | none => ({}, r)
  | some (cut, w) => ({ view := syncPublish {} cut, curGen := cut.gen }, w.redis)

theorem synced_reachable {election : Election} {r : Redis} (reachable : Reachable election {} r) :
    Reachable election (synced r).1 (synced r).2 := by
  unfold synced
  split
  · exact reachable
  next cut w ran => exact .sync id 0 [] reachable ran

def single : Election := ⟨['x'], fun _ _ => ['x']⟩

def probingKey (accountID : Int) : HealthKey := ⟨accountID, identityAny, identityAny, 1⟩

theorem probingKey_plain {accountID : Int} (fits : Machine.Fits accountID) :
    (probingKey accountID).Plain := by
  have colon : ':' ∉ identityAny := by decide
  exact ⟨fits, (by decide : Machine.Fits 1), colon, colon, cons_ne_nil _ _⟩

def probingScript (accountID : Int) (fits : Machine.Fits accountID := by decide) : Script :=
  .throttle (probingKey accountID) (probingKey_plain fits) .probing 30000

def wholeTick (view : HealthView) : Tick := ⟨[], view.entries.keys, []⟩

theorem wholeTick_covers {key : HealthKey}
    (probing : (view.entries.lookup key).any (fun entry => entry.state = .probing) = true) :
    (wholeTick view).Covers single view key := by
  obtain ⟨entry, looked, probing⟩ := (any_eq_true _ _).mp probing
  exact ⟨.refl _, ⟨entry, looked, of_decide_eq_true probing⟩, rfl⟩

end C3Api.Health
