import C3Api.Health.Sync

/-!
# Probing accounts back to health

A tick probes every `PROBING` entry that the instance owns.  Two successes under one
generation mark the entry ready, by a script that asks for a record of that very
generation; the next `Sync` then drops the entry.
-/

namespace C3Api.Health

open FiniteMap
open World (Onward)

/-- What one instance keeps: the published view, the generation behind it, and the
successes of each field with the generation they were counted under. -/
structure RuntimeHealth where
  view : HealthView := {}
  curGen : Int := 0
  successCount : Map Text Nat := ∅
  successGen : Map Text Int := ∅

/-- How the instances share the probing: each field has one owner among the members. -/
structure Election where
  selfID : Text
  rendezvous : Text → List Text → Text

inductive Probed where
  | passed
  | staleRevision
  | failed
deriving DecidableEq

namespace RuntimeHealth

/-- The generation a probe counts under; without an answer from Redis the published one. -/
def readGen (h : RuntimeHealth) (r : Redis) : Int :=
  match r.gen with
  | none => h.curGen
  | some gen => if gen < 0 then h.curGen else gen

def countSuccess (h : RuntimeHealth) (field : Text) (curGen : Int) : RuntimeHealth :=
  if h.successGen.lookup field = some curGen then
    { h with successCount :=
        h.successCount.insert field ((h.successCount.lookup field).getD 0 + 1) }
  else
    { h with
      successGen := h.successGen.insert field curGen
      successCount := h.successCount.insert field 1 }

def forget (h : RuntimeHealth) (field : Text) : RuntimeHealth :=
  { h with
    successCount := h.successCount.erase field
    successGen := h.successGen.erase field }

end RuntimeHealth

/-- The body of the loop of `probeTick`, for an entry to be probed. -/
def probeKey (probed : Probed) (key : HealthKey) (h : RuntimeHealth) (w : World) :
    RuntimeHealth × World :=
  let w := w.turn
  let curGen := h.readGen w.redis
  match probed with
  | .passed =>
    let h := h.countSuccess key.string curGen
    if 2 ≤ (h.successCount.lookup key.string).getD 0 then
      let w := w.turn
      (h.forget key.string,
        { w with redis := (w.redis.markReady key curGen 30000).getD w.redis })
    else (h, w)
  | .staleRevision => (h.forget key.string, w)
  | .failed =>
    let w := w.turn
    (h.forget key.string, { w with redis := w.redis.throttle key .opened 30000 })

def probeEntry (election : Election) (members : List Text) (view : HealthView)
    (probe : HealthKey → Probed) (s : RuntimeHealth × World) (key : HealthKey) :
    RuntimeHealth × World :=
  match view.entries.lookup key with
  | none => s
  | some entry =>
    if entry.state ≠ .probing then s
    else if election.rendezvous key.string members ≠ election.selfID then s
    else probeKey (probe key) key s.1 s.2

/-- `probeTick`, with the order in which the range runs over the entries. -/
def probeTick (election : Election) (members : List Text) (order : List HealthKey)
    (probe : HealthKey → Probed) (h : RuntimeHealth) (w : World) : RuntimeHealth × World :=
  order.foldl (probeEntry election members h.view probe) (h, w)

/-- The states of one instance and of Redis: scripts of any instance, a Redis that comes
back empty, ticks and syncs with the others in between. -/
inductive Reachable (election : Election) : RuntimeHealth → Redis → Prop where
  | start (now : Int) (runID : String) : Reachable election {} { now, runID }
  | script {h r} (script : Script) : Reachable election h r →
      Reachable election h (script.run r)
  | restart {h r} (now : Int) (runID : String) : Reachable election h r →
      Reachable election h { now, runID }
  | tick {h r h' w'} (members : List Text) (order : List HealthKey)
      (probe : HealthKey → Probed) (schedule : List (List Script)) : Reachable election h r →
      order.Perm h.view.entries.keys →
      probeTick election members order probe h ⟨r, schedule⟩ = (h', w') →
      Reachable election h' w'.redis
  | sync {h r cut w'} (order : List Text → List Text) (nowMs : Int)
      (schedule : List (List Script)) : Reachable election h r →
      sync order nowMs h.view ⟨r, schedule⟩ = some (cut, w') →
      Reachable election { h with view := syncPublish h.view cut, curGen := cut.gen } w'.redis

/-! ## What holds of every reachable state -/

theorem probeKey_view (probed : Probed) (key : HealthKey) (h : RuntimeHealth) (w : World) :
    (probeKey probed key h w).1.view = h.view := by
  have counted (field : Text) (gen : Int) : (h.countSuccess field gen).view = h.view := by
    unfold RuntimeHealth.countSuccess
    split <;> rfl
  cases probed with
  | passed =>
    simp only [probeKey]
    split
    · exact counted _ _
    · exact counted _ _
  | staleRevision => rfl
  | failed => rfl

theorem probeKey_onward (probed : Probed) {key : HealthKey} (plain : key.Plain)
    (h : RuntimeHealth) (w : World) : Onward w (probeKey probed key h w).2 := by
  have script (w : World) (s : Script) : Onward w { w with redis := s.run w.redis } :=
    ⟨Redis.later_run _ s, fun sound => sound.run s⟩
  have twice := (Onward.turn w).trans (Onward.turn w.turn)
  cases probed with
  | passed =>
    simp only [probeKey]
    split
    · exact twice.trans (script w.turn.turn (.markReady key (h.readGen w.turn.redis) 30000))
    · exact .turn w
  | staleRevision => exact .turn w
  | failed => exact twice.trans (script w.turn.turn (.throttle key plain .opened 30000))

variable (election : Election) (members : List Text) (view : HealthView)
  (probe : HealthKey → Probed)

theorem probeEntry_cases (s : RuntimeHealth × World) (key : HealthKey) :
    probeEntry election members view probe s key = s ∨
      probeEntry election members view probe s key = probeKey (probe key) key s.1 s.2 := by
  unfold probeEntry
  split
  · exact .inl rfl
  split
  · exact .inl rfl
  split
  · exact .inl rfl
  · exact .inr rfl

theorem foldl_probeEntry_view (order : List HealthKey) (s : RuntimeHealth × World) :
    (order.foldl (probeEntry election members view probe) s).1.view = s.1.view := by
  refine List.foldlRecOn (motive := fun t : RuntimeHealth × World => t.1.view = s.1.view) order _ rfl ?_
  intro now kept key _
  rcases probeEntry_cases election members view probe now key with same | same <;> rw [same]
  · exact kept
  · exact (probeKey_view _ _ _ _).trans kept

theorem probeTick_view (order : List HealthKey) (probe : HealthKey → Probed) (h : RuntimeHealth)
    (w : World) : (probeTick election members order probe h w).1.view = h.view :=
  foldl_probeEntry_view election members h.view probe order (h, w)

theorem foldl_probeEntry_onward {order : List HealthKey} (plain : ∀ key ∈ order, key.Plain)
    (s : RuntimeHealth × World) :
    Onward s.2 (order.foldl (probeEntry election members view probe) s).2 := by
  refine List.foldlRecOn (motive := fun t : RuntimeHealth × World => Onward s.2 t.2) order _ (.refl _) ?_
  intro now onward key member
  rcases probeEntry_cases election members view probe now key with same | same <;> rw [same]
  · exact onward
  · exact onward.trans (probeKey_onward _ (plain key member) _ _)

theorem retained_lookup {nowMs : Int} {tombMembers : List Text}
    {entries : Map HealthKey HealthEntry} {k : HealthKey} {e : HealthEntry}
    (looked : (retained nowMs tombMembers entries).lookup k = some e) :
    (∃ known, entries.lookup k = some known) ∧ k.string ∉ tombMembers := by
  rcases lookup_insertAll_cases looked with member | ⟨-, member⟩
  · obtain ⟨⟨key, known⟩, there, kept⟩ := List.mem_filterMap.mp member
    obtain ⟨e', kept, same⟩ := Option.map_eq_some_iff.mp kept
    obtain ⟨rfl, rfl⟩ := Prod.mk.inj same
    refine ⟨⟨known, mem_pairs.mp there⟩, fun buried => ?_⟩
    rw [retainEntry, if_pos buried] at kept
    exact nomatch kept
  · simp at member

/-- An entry of the published view was read from Redis, or was there before and has no
tombstone. -/
theorem syncPublish_lookup {prev : HealthView} {cut : Cut} {k : HealthKey} {e : HealthEntry}
    (looked : (syncPublish prev cut).entries.lookup k = some e) :
    cut.records.lookup k = some e ∨
      (∃ known, prev.entries.lookup k = some known) ∧ k.string ∉ cut.tombMembers := by
  have vacuous {P : Prop} (looked : (∅ : Map HealthKey HealthEntry).lookup k = some e) : P := by
    simp at looked
  unfold syncPublish at looked
  dsimp only at looked
  split at looked
  · split at looked
    · exact vacuous looked
    · split at looked
      · exact vacuous looked
      · split at looked
        · exact vacuous looked
        · exact .inr (retained_lookup looked)
  · exact .inl looked

structure Settled (h : RuntimeHealth) (r : Redis) : Prop where
  sound : r.Sound
  plain : ∀ {key entry}, h.view.entries.lookup key = some entry → key.Plain

theorem Reachable.settled {election : Election} {h : RuntimeHealth} {r : Redis}
    (reachable : Reachable election h r) : Settled h r := by
  induction reachable with
  | start now runID => exact ⟨.blank now runID, fun looked => by simp at looked⟩
  | script script _ ih =>
    exact ⟨ih.sound.run script, ih.plain⟩
  | restart now runID _ ih =>
    exact ⟨.blank now runID, ih.plain⟩
  | @tick h r h' w' members order probe schedule _ perm ran ih =>
    have plain : ∀ key ∈ order, key.Plain := fun key member => by
      have listed : key ∈ h.view.entries := perm.mem_iff.mp member
      obtain ⟨entry, looked⟩ := Option.isSome_iff_exists.mp (AList.lookup_isSome.mpr listed)
      exact ih.plain looked
    have onward := foldl_probeEntry_onward election members h.view probe plain (h, ⟨r, schedule⟩)
    have view := probeTick_view election members order probe h ⟨r, schedule⟩
    rw [probeTick] at ran view
    rw [ran] at onward view
    exact ⟨onward.sound ih.sound, view ▸ ih.plain⟩
  | @sync h r cut w' order nowMs schedule _ ran ih =>
    refine ⟨(sync_onward ran).sound ih.sound, fun {key entry} looked => ?_⟩
    rcases syncPublish_lookup looked with read | ⟨⟨known, before⟩, -⟩
    · exact (sync_faithful ih.sound ran).plain read
    · exact ih.plain before

end C3Api.Health
