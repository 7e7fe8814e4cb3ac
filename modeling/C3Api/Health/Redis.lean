import Mathlib.Algebra.Order.Ring.Int
import Mathlib.Data.Int.ConditionallyCompleteOrder
import Mathlib.Order.ConditionallyCompleteLattice.Basic
import C3Api.FiniteMap.Basic
import C3Api.Health.Key
import C3Api.Seqlock.Basic

/-!
# The health records in Redis

The scripts by which the instances write and remove records, each of them atomic.  A
script that changes a record raises the generation; time alone drops records without it.
-/

namespace C3Api.Health

open FiniteMap

/-- The hash of one record, with the moment at which it expires. -/
structure Record where
  state : String
  gen : Int
  rev : Int
  ttl : Int
  expires : Int
deriving DecidableEq

/-- The keys of the health records; `marks` holds the moments at which the marker keys of
the tombstones expire. -/
structure Redis where
  now : Int := 0
  runID : String := ""
  gen : Option Int := none
  records : Map Text Record := ∅
  active : Map Text Int := ∅
  tombs : Map Text Int := ∅
  marks : Map Text Int := ∅

namespace Redis

def current (r : Redis) : Int := r.gen.getD 0

/-- `HGETALL` of a record: one that has expired is gone. -/
def hgetall (r : Redis) (field : Text) : Option Record :=
  (r.records.lookup field).filter fun rec => r.now < rec.expires

def marked (r : Redis) (field : Text) : Bool :=
  (r.marks.lookup field).any fun expires => r.now < expires

/-- `ZRANGE` of the active set.  Every `ZADD` comes with a new highest score, so the order
of the scores is the order of the insertions. -/
def zrange (r : Redis) : List Text := r.active.keys.reverse

def incr (r : Redis) : Redis := { r with gen := some (r.current + 1) }

def throttleLua (r : Redis) (field : Text) (state : String) (rev ttl : Int) : Redis :=
  let gen := r.current + 1
  { r.incr with
    records := r.records.insert field ⟨state, gen, rev, ttl, r.now + ttl⟩
    active := r.active.insert field gen
    tombs := r.tombs.erase field
    marks := r.marks.erase field }

/-- What `clearAccountLua` and `readyLua` do to one record: it leaves the active set and a
tombstone takes its place. -/
def bury (ttl : Int) (r : Redis) (field : Text) : Redis :=
  { r with
    records := r.records.erase field
    active := r.active.erase field
    tombs := r.tombs.insert field r.current
    marks := r.marks.insert field (r.now + ttl) }

def clearAccountLua (r : Redis) (accountID ttl : Int) : Redis :=
  (r.zrange.filter (accountStart accountID).isPrefixOf).foldl (bury ttl) r.incr

/-- The new generation, or nothing where the script returns 0. -/
def readyLua (r : Redis) (field : Text) (expectedGen expectedRev ttl : Int) :
    Option Redis :=
  if expectedGen ≠ r.current then none
  else
    match r.hgetall field with
    | none => none
    | some rec =>
      if rec.gen ≠ expectedGen then none
      else if rec.rev ≠ expectedRev then none
      else some (r.incr.bury ttl field)

inductive Cleanup where
  | active
  | tomb
deriving DecidableEq

def cleanupLua (r : Redis) (mode : Cleanup) (field : Text) (expectedGen : Int) : Redis :=
  if r.current ≠ expectedGen then r
  else
    match mode with
    | .active =>
      if (r.hgetall field).isSome then r else { r with active := r.active.erase field }
    | .tomb => if r.marked field then r else { r with tombs := r.tombs.erase field }

def fenceLua (r : Redis) (expected : Int) : Bool := r.current = expected

/-- Half a minute stands in for a time to live that is not positive. -/
def ttlMs (ttl : Int) : Int := if ttl ≤ 0 then 30000 else ttl

def throttle (r : Redis) (key : HealthKey) (state : HealthState) (ttl : Int) : Redis :=
  r.throttleLua key.string state.string key.identityRevision (ttlMs ttl)

/-- `MarkReady`: nothing is the error of a stale generation. -/
def markReady (r : Redis) (key : HealthKey) (expectedGen ttl : Int) : Option Redis :=
  r.readyLua key.string expectedGen key.identityRevision (ttlMs ttl)

def clearAccount (r : Redis) (accountID : Int) : Redis := r.clearAccountLua accountID 30000

def wait (r : Redis) (ms : Nat) : Redis := { r with now := r.now + ms }

end Redis

/-- `SetProbing`, which refuses a revision that is not positive. -/
def setProbing (r : Redis) (accountID identityRevision : Int) : Option Redis :=
  if identityRevision ≤ 0 then none
  else some (r.throttle ⟨accountID, identityAny, identityAny, identityRevision⟩ .probing 30000)

inductive Script where
  | throttle (key : HealthKey) (plain : key.Plain) (state : HealthState) (ttl : Int)
  | markReady (key : HealthKey) (expectedGen ttl : Int)
  | clearAccount (accountID : Int)
  | cleanup (mode : Redis.Cleanup) (field : Text) (expectedGen : Int)
  | wait (ms : Nat)

open Script

def Script.run (r : Redis) : Script → Redis
  | throttle key _ state ttl => r.throttle key state ttl
  | markReady key expectedGen ttl => (r.markReady key expectedGen ttl).getD r
  | clearAccount accountID => r.clearAccount accountID
  | cleanup mode field expectedGen => r.cleanupLua mode field expectedGen
  | wait ms => r.wait ms

namespace Redis

/-! ## What a script can do -/

variable (r : Redis) (ttl : Int)

@[simp] theorem current_incr : r.incr.current = r.current + 1 := rfl

@[simp] theorem current_bury (r : Redis) (field : Text) :
    (r.bury ttl field).current = r.current := rfl

theorem hgetall_eq_some {r : Redis} {field : Text} {rec : Record} :
    r.hgetall field = some rec ↔ r.records.lookup field = some rec ∧ r.now < rec.expires := by
  simp [hgetall, Option.filter_eq_some_iff]

theorem readyLua_eq_some {r after : Redis} {field : Text} {expectedGen expectedRev ttl : Int}
    (done : r.readyLua field expectedGen expectedRev ttl = some after) :
    after = r.incr.bury ttl field ∧ expectedGen = r.current ∧
      ∃ rec, r.hgetall field = some rec ∧ rec.gen = r.current ∧ rec.rev = expectedRev := by
  unfold readyLua at done
  split at done
  · exact nomatch done
  rename_i same
  have same := not_not.mp same
  split at done
  · exact nomatch done
  rename_i rec found
  split at done
  · exact nomatch done
  rename_i stamped
  split at done
  · exact nomatch done
  rename_i revised
  exact ⟨(Option.some.inj done).symm, same, rec, found,
    (not_not.mp stamped).trans same, not_not.mp revised⟩

/-- The cleanup takes an active field without a record, a tombstone without a marker, or
nothing. -/
theorem cleanupLua_cases (mode : Cleanup) (field : Text) (expectedGen : Int) :
    r.cleanupLua mode field expectedGen = r ∨
      r.hgetall field = none ∧
        r.cleanupLua mode field expectedGen = { r with active := r.active.erase field } ∨
      r.cleanupLua mode field expectedGen = { r with tombs := r.tombs.erase field } := by
  unfold cleanupLua
  split
  · exact .inl rfl
  cases mode with
  | active =>
    dsimp only
    split
    · exact .inl rfl
    next absent => exact .inr (.inl ⟨Option.not_isSome_iff_eq_none.mp absent, rfl⟩)
  | tomb =>
    dsimp only
    split
    · exact .inl rfl
    · exact .inr (.inr rfl)

/-! ## The generation as a sequence lock -/

/-- A later moment: the records change only when the generation rises. -/
structure Later (before after : Redis) : Prop where
  lock : Seqlock.Later current records before after
  now_le : before.now ≤ after.now

namespace Later

theorem refl (r : Redis) : Later r r := ⟨.refl _ _ r, le_refl _⟩

theorem trans {first middle last : Redis} (start : Later first middle)
    (finish : Later middle last) : Later first last :=
  ⟨start.lock.trans finish.lock, le_trans start.now_le finish.now_le⟩

theorem of_eq {before after : Redis} (gen : after.current = before.current)
    (records : after.records = before.records) (now_le : before.now ≤ after.now) :
    Later before after :=
  ⟨⟨le_of_eq gen.symm, fun _ => records⟩, now_le⟩

theorem of_lt {before after : Redis} (gen : before.current < after.current)
    (now_le : before.now ≤ after.now) : Later before after :=
  ⟨⟨le_of_lt gen, fun same => absurd same (ne_of_gt gen)⟩, now_le⟩

end Later

theorem foldl_bury_frame (fields : List Text) (r : Redis) :
    (fields.foldl (bury ttl) r).current = r.current ∧ (fields.foldl (bury ttl) r).now = r.now := by
  exact List.foldlRecOn (motive := fun s : Redis => s.current = r.current ∧ s.now = r.now)
    fields _ ⟨rfl, rfl⟩ fun _ same _ _ => same

theorem later_clearAccountLua (accountID ttl : Int) :
    Later r (r.clearAccountLua accountID ttl) := by
  obtain ⟨gen, now⟩ := foldl_bury_frame ttl _ r.incr
  refine .of_lt ?_ (le_of_eq now.symm)
  rw [clearAccountLua, gen, current_incr]
  exact Int.lt_succ _

theorem later_cleanupLua (mode : Cleanup) (field : Text) (expectedGen : Int) :
    Later r (r.cleanupLua mode field expectedGen) := by
  rcases cleanupLua_cases r mode field expectedGen with same | ⟨-, same⟩ | same <;> rw [same]
  · exact .refl r
  · exact .of_eq rfl rfl (le_refl _)
  · exact .of_eq rfl rfl (le_refl _)

theorem later_run (script : Script) : Later r (script.run r) := by
  cases script with
  | throttle key plain state ttl => exact .of_lt (Int.lt_succ _) (le_refl _)
  | markReady key expectedGen ttl =>
    rw [run]
    cases done : r.markReady key expectedGen ttl with
    | none => exact .refl r
    | some after =>
      obtain ⟨rfl, -⟩ := readyLua_eq_some done
      exact .of_lt (Int.lt_succ _) (le_refl _)
  | clearAccount accountID => exact later_clearAccountLua r accountID 30000
  | cleanup mode field expectedGen => exact later_cleanupLua r mode field expectedGen
  | wait ms => exact .of_eq rfl rfl (by simp [run, wait])

theorem later_foldl (scripts : List Script) (r : Redis) : Later r (scripts.foldl run r) :=
  List.foldlRecOn scripts _ (.refl r) fun s later script _ => later.trans (later_run s script)

/-! ## What holds of the records at every moment -/

structure Written (field : Text) (rec : Record) (current : Int) : Prop where
  key : ∃ key : HealthKey, key.Plain ∧ field = key.string ∧ rec.rev = key.identityRevision
  state : ∃ state : HealthState, rec.state = state.string
  gen_pos : 0 < rec.gen
  gen_le : rec.gen ≤ current
  ttl_pos : 0 < rec.ttl

theorem Written.mono {field : Text} {rec : Record} {current later : Int}
    (written : Written field rec current) (le : current ≤ later) : Written field rec later :=
  { written with gen_le := le_trans written.gen_le le }

structure Sound (r : Redis) : Prop where
  started : 0 ≤ r.current
  /-- The active set misses no record that is alive. -/
  listed : ∀ {field rec}, r.hgetall field = some rec → field ∈ r.active
  written : ∀ {field rec}, r.records.lookup field = some rec → Written field rec r.current
  /-- No two records carry one generation. -/
  apart : ∀ {field other rec rec'}, r.records.lookup field = some rec →
    r.records.lookup other = some rec' → rec.gen = rec'.gen → field = other

theorem ttlMs_pos : 0 < ttlMs ttl := by
  unfold ttlMs
  split <;> omega

namespace Sound

variable {r : Redis}

theorem blank (now : Int) (runID : String) : Sound { now, runID } where
  started := le_refl 0
  listed found := by simp [hgetall] at found
  written found := by simp at found
  apart found := by simp at found

theorem incr (sound : Sound r) : Sound r.incr where
  started := le_trans sound.started (le_of_lt (Int.lt_succ _))
  listed found := sound.listed found
  written found := (sound.written found).mono (le_of_lt (Int.lt_succ _))
  apart found found' := sound.apart found found'

theorem bury (sound : Sound r) (ttl : Int) (field : Text) : Sound (r.bury ttl field) where
  started := sound.started
  listed {other rec} found := by
    obtain ⟨found, alive⟩ := hgetall_eq_some.mp found
    rw [Redis.bury, lookup_erase_ite] at found
    split at found
    · exact nomatch found
    next apart =>
      exact AList.mem_erase.mpr ⟨apart, sound.listed (hgetall_eq_some.mpr ⟨found, alive⟩)⟩
  written {other rec} found := by
    rw [Redis.bury, lookup_erase_ite] at found
    split at found
    · exact nomatch found
    · exact sound.written found
  apart {one other rec rec'} found found' := by
    rw [Redis.bury, lookup_erase_ite] at found found'
    split at found
    · exact nomatch found
    split at found'
    · exact nomatch found'
    · exact sound.apart found found'

theorem foldl_bury (ttl : Int) (fields : List Text) (sound : Sound r) :
    Sound (fields.foldl (Redis.bury ttl) r) :=
  List.foldlRecOn fields _ sound fun _ sound field _ => sound.bury ttl field

variable (sound : Sound r)

include sound

theorem throttle {key : HealthKey} (plain : key.Plain) (state : HealthState) (ttl : Int) :
    Sound (r.throttle key state ttl) where
  started := sound.incr.started
  listed {field rec} found := by
    obtain ⟨found, alive⟩ := hgetall_eq_some.mp found
    rw [Redis.throttle, throttleLua, lookup_insert_ite] at found
    apply (AList.mem_insert _).mpr
    split at found
    · exact .inl ‹_›
    · exact .inr (sound.listed (hgetall_eq_some.mpr ⟨found, alive⟩))
  written {field rec} found := by
    rw [Redis.throttle, throttleLua, lookup_insert_ite] at found
    split at found
    next same =>
      cases found
      exact ⟨⟨key, plain, same, rfl⟩, ⟨state, rfl⟩, Int.lt_add_one_of_le sound.started,
        le_refl _, ttlMs_pos ttl⟩
    · exact sound.incr.written found
  apart {field other rec rec'} found found' same := by
    rw [Redis.throttle, throttleLua, lookup_insert_ite] at found found'
    -- the new record carries a generation above all the others
    split at found <;> split at found'
    next here there => exact here.trans there.symm
    · cases found
      exact absurd (sound.written found').gen_le (by rw [← same]; simp)
    · cases found'
      exact absurd (sound.written found).gen_le (by rw [same]; simp)
    · exact sound.apart found found' same

theorem cleanupLua (mode : Cleanup) (field : Text) (expectedGen : Int) :
    Sound (r.cleanupLua mode field expectedGen) := by
  rcases cleanupLua_cases r mode field expectedGen with same | ⟨absent, same⟩ | same <;> rw [same]
  · exact sound
  · refine { sound with listed := fun {other rec} found => ?_ }
    refine AList.mem_erase.mpr ⟨?_, sound.listed found⟩
    rintro rfl
    exact nomatch absent.symm.trans found
  · exact { sound with }

theorem wait (ms : Nat) : Sound (r.wait ms) := by
  refine { sound with listed := fun {field rec} found => ?_ }
  obtain ⟨found, alive⟩ := hgetall_eq_some.mp found
  refine sound.listed (hgetall_eq_some.mpr ⟨found, ?_⟩)
  simp only [Redis.wait] at alive
  omega

theorem run (script : Script) : Sound (script.run r) := by
  cases script with
  | throttle key plain state ttl => exact sound.throttle plain state ttl
  | markReady key expectedGen ttl =>
    rw [Script.run]
    cases done : r.markReady key expectedGen ttl with
    | none => exact sound
    | some after =>
      obtain ⟨rfl, -⟩ := readyLua_eq_some done
      exact sound.incr.bury _ _
  | clearAccount accountID => exact sound.incr.foldl_bury _ _
  | cleanup mode field expectedGen => exact sound.cleanupLua mode field expectedGen
  | wait ms => exact sound.wait ms

theorem foldl (scripts : List Script) : Sound (scripts.foldl Script.run r) :=
  List.foldlRecOn scripts _ sound fun _ sound script _ => sound.run script

end Sound

/-- What the scripts make of an empty Redis. -/
def Reachable (r : Redis) : Prop :=
  ∃ (now : Int) (runID : String) (scripts : List Script),
    scripts.foldl run { now, runID } = r

theorem Reachable.sound {r : Redis} (reachable : r.Reachable) : Sound r := by
  obtain ⟨now, runID, scripts, rfl⟩ := reachable
  exact (Sound.blank now runID).foldl scripts

/-- Whatever the scripts did, a generation belongs to one record, none is ahead of the counter,
and the active set misses no record that is alive. -/
theorem generations_apart (now : Int) (runID : String) (scripts : List Script) :
    let r := scripts.foldl run { now, runID }
    (∀ field rec, r.records.lookup field = some rec → 0 < rec.gen ∧ rec.gen ≤ r.current) ∧
    (∀ field other rec rec', r.records.lookup field = some rec →
      r.records.lookup other = some rec' → rec.gen = rec'.gen → field = other) ∧
    ∀ field rec, r.hgetall field = some rec → field ∈ r.active := by
  have sound := (Sound.blank now runID).foldl scripts
  refine ⟨fun field rec found => ?_, fun _ _ _ _ => sound.apart, fun _ _ => sound.listed⟩
  exact ⟨(sound.written found).gen_pos, (sound.written found).gen_le⟩

end Redis

end C3Api.Health
