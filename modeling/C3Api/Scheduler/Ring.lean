import C3Api.Scheduler.CacheDomain
import Mathlib.Data.List.Dedup
import Mathlib.Data.Prod.Lex

/-!
# Consistent hashing

A key goes to the least node at or after its hash, and to the least of all where there is
none. A further domain adds only nodes of its own, so the least node is one of these or was
the least before.
-/

namespace C3Api.Scheduler

open List CacheDomainRing

section

variable {α : Type*} {r : α → α → Prop} [Std.Refl r] {xs ys : List α} {accepts : α → Bool} {x : α}

/-- A search in an ordered list finds the least of what it accepts. -/
theorem find?_least (ordered : xs.Pairwise r) (found : xs.find? accepts = some x) {y : α}
    (member : y ∈ xs) (accepted : accepts y = true) : r x y := by
  obtain ⟨-, before, after, rfl, rejected⟩ := find?_eq_some_iff_append.mp found
  rw [pairwise_append, pairwise_cons] at ordered
  rw [mem_append, mem_cons] at member
  rcases member with early | rfl | late
  · exact absurd accepted (by simpa using rejected y early)
  · exact refl y
  · exact ordered.2.1.1 y late

/-- What a search finds among more elements it finds among those that hold it. -/
theorem find?_of_subset [Std.Antisymm r] (ordered : xs.Pairwise r) (ordered' : ys.Pairwise r)
    (added : xs ⊆ ys) (found : ys.find? accepts = some x) (old : x ∈ xs) :
    xs.find? accepts = some x := by
  have accepted := find?_some found
  cases search : xs.find? accepts with
  | none => exact absurd accepted (find?_eq_none.mp search x old)
  | some y =>
    have least := find?_least ordered search old accepted
    have greatest := find?_least ordered' found (added (mem_of_find?_eq_some search))
      (find?_some search)
    rw [antisymm least greatest]

end

/-- The place of a node in the ring: its hash, and then its domain. -/
def CacheDomainNode.place (node : CacheDomainNode String) : Nat ×ₗ String :=
  toLex (node.hash.toNat, node.domain)

theorem nodeLE_iff {a b : CacheDomainNode String} : nodeLE a b ↔ a.place ≤ b.place := by
  rw [CacheDomainNode.place, CacheDomainNode.place, Prod.Lex.toLex_le_toLex, nodeLE,
    ← UInt64.lt_iff_toNat_lt, UInt64.toNat_inj]
  split
  next different => simp [different]
  next same => simp [not_not.mp same]

instance : Std.Refl (nodeLE (D := String)) := ⟨fun _ => nodeLE_iff.mpr le_rfl⟩

instance : Std.Total (nodeLE (D := String)) where
  total a b := by
    rw [nodeLE_iff, nodeLE_iff]
    exact le_total a.place b.place

instance : IsTrans (CacheDomainNode String) nodeLE where
  trans _ _ _ first second := nodeLE_iff.mpr ((nodeLE_iff.mp first).trans (nodeLE_iff.mp second))

instance : Std.Antisymm (nodeLE (D := String)) where
  antisymm a b first second := by
    have same := toLex.injective ((nodeLE_iff.mp first).antisymm (nodeLE_iff.mp second))
    cases a
    cases b
    simpa [UInt64.toNat_inj] using same

-- Any hash of the virtual nodes of a domain.
variable (hash : String → Nat → UInt64)

def buildCacheDomainRing (domains : List String) : Option (CacheDomainRing String) :=
  buildCacheDomainRingOrdered hash (orderedDomains (cacheDomainUnique domains))

/-- The domain of the first node that is accepted. -/
def CacheDomainRing.search (r : CacheDomainRing String) (accepts : CacheDomainNode String → Bool) :
    Option String :=
  (r.nodes.find? accepts).map (·.domain)

theorem CacheDomainRing.lookup_eq (r : CacheDomainRing String) (key : UInt64) :
    r.lookup key = (r.search fun node => key ≤ node.hash).or (r.search fun _ => true) := by
  unfold lookup search
  cases r.nodes.find? fun node => key ≤ node.hash with
  | some node => rfl
  | none => cases r.nodes <;> rfl

section

variable {hash} {domains : List String} {d : String} {ring ring' : CacheDomainRing String}

theorem buildCacheDomainRing_isSome :
    (∃ ring, buildCacheDomainRing hash domains = some ring) ↔
      (cacheDomainUnique domains).length ≤ maxCacheDomains := by
  have length : (orderedDomains (cacheDomainUnique domains)).length =
      (cacheDomainUnique domains).length := length_insertionSort _ _
  rw [buildCacheDomainRing, buildCacheDomainRingOrdered, length]
  by_cases large : maxCacheDomains < (cacheDomainUnique domains).length
  · simp [large]
  · simp [large, Nat.le_of_not_lt large]

theorem buildCacheDomainRing_eq_none :
    buildCacheDomainRing hash domains = none ↔
      maxCacheDomains < (cacheDomainUnique domains).length := by
  rw [← not_le, ← buildCacheDomainRing_isSome, ← Option.isSome_iff_exists,
    Option.not_isSome_iff_eq_none]

theorem nodes_of_built (built : buildCacheDomainRing hash domains = some ring) :
    ring.nodes.Pairwise nodeLE ∧ ∀ node, node ∈ ring.nodes ↔
      ∃ domain ∈ domains, domain ≠ "" ∧ node ∈ virtualNodes hash domain := by
  unfold buildCacheDomainRing buildCacheDomainRingOrdered at built
  split at built
  · cases built
  · cases built
    exact ⟨pairwise_insertionSort nodeLE _, by simp [orderedDomains, cacheDomainUnique, and_assoc]⟩

section

variable (built : buildCacheDomainRing hash domains = some ring)
  (further : buildCacheDomainRing hash (d :: domains) = some ring')

include built further

theorem search_further (accepts : CacheDomainNode String → Bool) :
    ring'.search accepts = ring.search accepts ∨ ring'.search accepts = some d := by
  obtain ⟨ordered, nodes⟩ := nodes_of_built built
  obtain ⟨ordered', nodes'⟩ := nodes_of_built further
  have subset : ring.nodes ⊆ ring'.nodes := by
    intro node member
    obtain ⟨domain, listed, own⟩ := (nodes node).mp member
    exact (nodes' node).mpr ⟨domain, mem_cons_of_mem _ listed, own⟩
  unfold search
  cases found : ring'.nodes.find? accepts with
  | none =>
    rw [find?_eq_none] at found
    rw [find?_eq_none.mpr fun node member => found node (subset member)]
    exact .inl rfl
  | some node =>
    obtain ⟨domain, listed, named, own⟩ := (nodes' node).mp (mem_of_find?_eq_some found)
    rcases mem_cons.mp listed with rfl | before
    · obtain ⟨vnode, -, rfl⟩ := mem_map.mp own
      exact .inr rfl
    · rw [find?_of_subset ordered ordered' subset found
        ((nodes node).mpr ⟨domain, before, named, own⟩)]
      exact .inl rfl

theorem lookup_further (key : UInt64) :
    ring'.lookup key = ring.lookup key ∨ ring'.lookup key = some d := by
  rw [lookup_eq, lookup_eq]
  rcases search_further built further fun node => key ≤ node.hash with same | own
  · rw [same]
    cases ring.search fun node => key ≤ node.hash with
    | some domain => exact .inl rfl
    | none => exact search_further built further _
  · rw [own]
    exact .inr rfl

end

theorem cacheDomainUnique_cons : cacheDomainUnique (d :: domains) =
    if d = "" ∨ d ∈ domains then cacheDomainUnique domains else d :: cacheDomainUnique domains := by
  unfold cacheDomainUnique
  by_cases unnamed : d = ""
  · simp [unnamed]
  · by_cases listed : d ∈ domains
    · rw [filter_cons_of_pos (by simpa), dedup_cons_of_mem (by simp [listed, unnamed]),
        if_pos (.inr listed)]
    · rw [filter_cons_of_pos (by simpa), dedup_cons_of_notMem (by simp [listed]),
        if_neg (by simp [unnamed, listed])]

theorem cacheDomainUnique_length_le :
    (cacheDomainUnique domains).length ≤ (cacheDomainUnique (d :: domains)).length := by
  rw [cacheDomainUnique_cons]
  split <;> simp

end

/-- Within the cap a further domain moves a key to itself or leaves it where it was; above the
cap no ring is built. -/
theorem lookup_further_domain (domains : List String) (d : String) (key : UInt64) :
    if (cacheDomainUnique (d :: domains)).length ≤ maxCacheDomains then
      ∃ ring ring', buildCacheDomainRing hash domains = some ring ∧
        buildCacheDomainRing hash (d :: domains) = some ring' ∧
        (ring'.lookup key = ring.lookup key ∨ ring'.lookup key = some d)
    else buildCacheDomainRing hash (d :: domains) = none := by
  split
  next within =>
    obtain ⟨ring', further⟩ := buildCacheDomainRing_isSome.mpr within
    obtain ⟨ring, built⟩ := buildCacheDomainRing_isSome.mpr
      (cacheDomainUnique_length_le.trans within)
    exact ⟨ring, ring', built, further, lookup_further built further key⟩
  next above => exact buildCacheDomainRing_eq_none.mpr (not_le.mp above)

/-- Domains of different lengths, as many as the cap allows. -/
def manyDomains : List String :=
  (range maxCacheDomains).map fun n => String.ofList (replicate (n + 1) 'a')

theorem manyDomains_unique : cacheDomainUnique manyDomains = manyDomains := by
  have named : ∀ domain ∈ manyDomains, domain ≠ "" := by
    intro domain member
    obtain ⟨n, -, rfl⟩ := mem_map.mp member
    exact fun same => by simpa using congrArg String.length same
  have nodup : manyDomains.Nodup := by
    refine nodup_range.map fun m n same => ?_
    simpa using congrArg String.length same
  rw [cacheDomainUnique, filter_eq_self.mpr (by simpa using named), dedup_eq_self.mpr nodup]

/-- At the cap the ring with one more domain is the empty one of an error, in which no key has a
domain. -/
theorem further_domain_above_cap : ∃ ring old,
    buildCacheDomainRing domainNodeHash manyDomains = some ring ∧ ring.lookup 0 = some old ∧
      buildCacheDomainRing domainNodeHash ("b" :: manyDomains) = none ∧
      ((buildCacheDomainRing domainNodeHash ("b" :: manyDomains)).getD {}).lookup 0 = none := by
  have full : (cacheDomainUnique manyDomains).length = maxCacheDomains := by
    rw [manyDomains_unique, manyDomains, length_map, length_range]
  obtain ⟨ring, built⟩ := buildCacheDomainRing_isSome.mpr full.le
  have first : "a" ∈ manyDomains := mem_map.mpr ⟨0, mem_range.mpr (by decide), rfl⟩
  have node : ⟨domainNodeHash "a" 0, "a"⟩ ∈ ring.nodes :=
    ((nodes_of_built built).2 _).mpr
      ⟨"a", first, by decide, mem_map.mpr ⟨0, mem_range.mpr (by decide), rfl⟩⟩
  obtain ⟨old, found⟩ : ∃ old, ring.lookup 0 = some old := by
    unfold CacheDomainRing.lookup
    cases search : ring.nodes.find? fun node => (0 : UInt64) ≤ node.hash with
    | some old => exact ⟨old.domain, rfl⟩
    | none => exact absurd (decide_eq_true UInt64.zero_le) (find?_eq_none.mp search _ node)
  have fresh : "b" ∉ manyDomains := by
    intro member
    obtain ⟨n, -, same⟩ := mem_map.mp member
    simpa [replicate_succ] using congrArg String.toList same
  have above : buildCacheDomainRing domainNodeHash ("b" :: manyDomains) = none := by
    rw [buildCacheDomainRing_eq_none, cacheDomainUnique_cons, if_neg (by simp [fresh]),
      length_cons, full]
    exact Nat.lt_succ_self _
  refine ⟨ring, old, built, found, above, ?_⟩
  rw [above]
  rfl

end C3Api.Scheduler
