import C3Api.Encoding.Framing
import C3Api.Scheduler.CacheDomain

/-!
# Interned rings

The sessions of `cache_affinity.go`, over the bytes of the domains. A session keeps rings
under a key of their domains, and a view seeds it with rings that were returned before.
-/

namespace C3Api.Scheduler.Interner

open FiniteMap Framing List Option

def cacheDomainUnique (domains : List Bytes) : List Bytes := (domains.filter (· ≠ [])).dedup

def orderedDomains (unique : List Bytes) : List Bytes := unique.insertionSort (· ≤ ·)

def buildCacheDomainRing (domains : List Bytes) : Option (CacheDomainRing Bytes) :=
  buildCacheDomainRingOrdered cacheDomainNodeHash (orderedDomains (cacheDomainUnique domains))

def cacheDomainSetKey (ordered : List Bytes) : Bytes := ordered.flatMap prefixed

abbrev RingInterner := Map Bytes (CacheDomainRing Bytes)

/-- A nil session builds every ring afresh. -/
def intern (domains : List Bytes) :
    Option RingInterner → Option (CacheDomainRing Bytes) × Option RingInterner
  | none => (buildCacheDomainRing domains, none)
  | some sess =>
    let unique := cacheDomainUnique domains
    if maxCacheDomains < unique.length then (none, some sess)
    else
      let ordered := orderedDomains unique
      let key := cacheDomainSetKey ordered
      match sess.lookup key with
      | some ring => (some ring, some sess)
      | none =>
        match buildCacheDomainRingOrdered cacheDomainNodeHash ordered with
        | none => (none, some sess)
        | some ring => (some ring, some (sess.insert key ring))

/-- A route is nil or has the address of its first node and a ring. -/
def seedFromView : List (Option (Nat × CacheDomainRing Bytes)) → List Nat → RingInterner → RingInterner
  | [], _, sess => sess
  | none :: rest, seen, sess => seedFromView rest seen sess
  | some (head, ring) :: rest, seen, sess =>
    if ring.nodes.isEmpty ∨ head ∈ seen then seedFromView rest seen sess
    else
      let key := cacheDomainSetKey ring.domains
      seedFromView rest (head :: seen)
        (if (sess.lookup key).isSome then sess else sess.insert key ring)

structure Lane where
  sessions : Nat → Option RingInterner := fun _ => none
  returned : List (CacheDomainRing Bytes) := []

/-- The rings of a view are named by their number among those returned. -/
inductive Call where
  | newRingInterner (s : Nat)
  | intern (s : Nat) (domains : List Bytes)
  | seedFromView (s : Nat) (view : List (Option (Nat × Nat)))

def step (lane : Lane) : Call → Lane
  | .newRingInterner s => { lane with sessions := Function.update lane.sessions s (some ∅) }
  | .intern s domains =>
    let result := intern domains (lane.sessions s)
    ⟨Function.update lane.sessions s result.2, lane.returned ++ result.1.toList⟩
  | .seedFromView s view =>
    let routes := view.map fun route => do
      let (head, i) ← route
      return (head, ← lane.returned[i]?)
    { lane with sessions :=
        Function.update lane.sessions s ((lane.sessions s).map (seedFromView routes [])) }

def run (calls : List Call) : Lane := calls.foldl step {}

theorem cacheDomainSetKey_injective : Function.Injective cacheDomainSetKey := by
  apply framed_prefixed.flatMap_injective
  intro field
  rw [prefixed, uvarint]
  split <;> simp

variable {ring : CacheDomainRing Bytes} {sess : RingInterner} {domains : List Bytes}

/-- The ring is the one its domains give. -/
def Built (ring : CacheDomainRing Bytes) : Prop :=
  buildCacheDomainRingOrdered cacheDomainNodeHash ring.domains = some ring

theorem buildCacheDomainRingOrdered_some
    (built : buildCacheDomainRingOrdered cacheDomainNodeHash domains = some ring) :
    ring.domains = domains ∧ Built ring := by
  have same : ring.domains = domains := by
    unfold buildCacheDomainRingOrdered at built
    split at built
    · cases built
    · cases built
      rfl
  exact ⟨same, by rw [Built, same, built]⟩

def Sound (sess : RingInterner) : Prop :=
  ∀ key ring, sess.lookup key = some ring → key = cacheDomainSetKey ring.domains ∧ Built ring

theorem Sound.insert (sound : Sound sess) (built : Built ring) :
    Sound (sess.insert (cacheDomainSetKey ring.domains) ring) := by
  intro key other found
  rw [lookup_insert_ite] at found
  split at found
  next same =>
    cases found
    exact ⟨same, built⟩
  · exact sound key other found

theorem intern_sound {current : Option RingInterner} (sound : ∀ sess ∈ current, Sound sess) :
    (intern domains current).1 = buildCacheDomainRing domains ∧
      ∀ after ∈ (intern domains current).2, Sound after := by
  cases current with
  | none => exact ⟨rfl, sound⟩
  | some sess =>
    unfold intern buildCacheDomainRing
    dsimp only
    split
    next large =>
      rw [buildCacheDomainRingOrdered, if_pos]
      · exact ⟨rfl, sound⟩
      · rwa [orderedDomains, length_insertionSort]
    split
    next found =>
      obtain ⟨same, built⟩ := sound sess rfl _ _ found
      rw [cacheDomainSetKey_injective same, built]
      exact ⟨rfl, sound⟩
    split
    next failed => exact ⟨failed.symm, sound⟩
    next ring built =>
      obtain ⟨same, own⟩ := buildCacheDomainRingOrdered_some built
      rw [← same] at built ⊢
      simpa [built] using (sound sess rfl).insert own

theorem Sound.seedFromView {view : List (Option (Nat × CacheDomainRing Bytes))}
    (sound : Sound sess) (seen : List Nat) (built : ∀ route ∈ view, ∀ r ∈ route, Built r.2) :
    Sound (seedFromView view seen sess) := by
  induction view generalizing seen sess with
  | nil => exact sound
  | cons route rest ih =>
    have later := (forall_mem_cons.mp built).2
    cases route with
    | none => exact ih sound seen later
    | some route =>
      unfold Interner.seedFromView
      dsimp only
      split
      · exact ih sound seen later
      refine ih ?_ _ later
      split
      · exact sound
      · exact sound.insert (built _ mem_cons_self route rfl)

/-- Every ring of a session and every ring returned is the one its domains give. -/
structure Lane.Sound (lane : Lane) : Prop where
  sessions : ∀ s, ∀ sess ∈ lane.sessions s, Interner.Sound sess
  returned : ∀ ring ∈ lane.returned, Built ring

theorem Lane.Sound.step {lane : Lane} (sound : lane.Sound) (call : Call) :
    (step lane call).Sound := by
  have updated : ∀ s (next : Option RingInterner), (∀ sess ∈ next, Interner.Sound sess) →
      ∀ r, ∀ sess ∈ Function.update lane.sessions s next r, Interner.Sound sess := by
    intro s next kept r
    rw [Function.update_apply]
    split
    · exact kept
    · exact sound.sessions r
  cases call with
  | newRingInterner s => exact ⟨updated s _ (by simp [Interner.Sound]), sound.returned⟩
  | intern s domains =>
    obtain ⟨result, kept⟩ := intern_sound (sound.sessions s)
    refine ⟨updated s _ kept, forall_mem_append.mpr ⟨sound.returned, ?_⟩⟩
    intro ring new
    rw [mem_toList, result] at new
    exact (buildCacheDomainRingOrdered_some new).2
  | seedFromView s view =>
    refine ⟨updated s _ ?_, sound.returned⟩
    intro sess member
    obtain ⟨old, current, rfl⟩ := mem_map.mp member
    apply (sound.sessions s old current).seedFromView
    refine forall_mem_map.mpr fun entry _ r read => ?_
    simp only [bind_eq_bind, mem_def, bind_eq_some_iff] at read
    obtain ⟨_, -, ring, found, same⟩ := read
    cases same
    exact sound.returned ring (mem_of_getElem? found)

theorem run_sound (calls : List Call) : (run calls).Sound :=
  foldlRecOn calls step ⟨by simp, by simp⟩ fun _ sound call _ => sound.step call

/-- Whatever was interned and seeded before, a session returns the ring built afresh. -/
theorem intern_transparent (calls : List Call) (s : Nat) (domains : List Bytes) :
    (intern domains ((run calls).sessions s)).1 = buildCacheDomainRing domains ∧
      Function.Injective cacheDomainSetKey :=
  ⟨(intern_sound ((run_sound calls).sessions s)).1, cacheDomainSetKey_injective⟩

end C3Api.Scheduler.Interner
