import C3Api.FiniteMap.Basic
import Mathlib.Data.List.Sort
import Mathlib.Data.String.Basic

/-!
# Cache domains

`cache_affinity.go`: a consistent-hashing ring over the cache domains of a route, and
the table that one compilation shares its rings in. The key of the table spells out the
sorted domains without ambiguity and is modelled by the list itself.
-/

namespace C3Api.Scheduler

open FiniteMap

def fnvOffset64 : UInt64 := 14695981039346656037

def fnvPrime64 : UInt64 := 1099511628211

def fnvByte (h : UInt64) (b : UInt8) : UInt64 := (h ^^^ b.toUInt64) * fnvPrime64

def cacheAffinityHash (key : String) : UInt64 := key.toUTF8.toList.foldl fnvByte fnvOffset64

def cacheDomainVirtualNodes : Nat := 32

def maxCacheDomainRingNodes : Nat := 2 ^ 20

def maxCacheDomains : Nat := maxCacheDomainRingNodes / cacheDomainVirtualNodes

structure CacheDomainNode (D : Type) where
  hash : UInt64
  domain : D

structure CacheDomainRing (D : Type) where
  nodes : List (CacheDomainNode D) := []
  domains : List D := []

structure CacheDomainAccount where
  accountID : Int
  domain : String

/-- The eight bytes of the number follow the domain, the highest first. -/
def cacheDomainNodeHash (domain : List UInt8) (vnode : Nat) : UInt64 :=
  [56, 48, 40, 32, 24, 16, 8, 0].foldl
    (fun h shift => fnvByte h (UInt8.ofNat (vnode >>> shift)))
    (domain.foldl fnvByte fnvOffset64 * fnvPrime64)

def cacheDomainUnique (domains : List String) : List String :=
  (domains.filter (· ≠ "")).dedup

def orderedDomains (unique : List String) : List String := unique.insertionSort (· ≤ ·)

section

variable {D : Type} [LE D] [DecidableLE D]

def nodeLE (a b : CacheDomainNode D) : Prop :=
  if a.hash ≠ b.hash then a.hash < b.hash else a.domain ≤ b.domain

instance : DecidableRel (nodeLE (D := D)) := fun a b =>
  inferInstanceAs (Decidable (if a.hash ≠ b.hash then a.hash < b.hash else a.domain ≤ b.domain))

-- The hash of the virtual nodes of a domain.
variable (hash : D → Nat → UInt64)

def virtualNodes (domain : D) : List (CacheDomainNode D) :=
  (List.range cacheDomainVirtualNodes).map fun vnode => ⟨hash domain vnode, domain⟩

/-- None above the cap. -/
def buildCacheDomainRingOrdered (ordered : List D) : Option (CacheDomainRing D) :=
  if maxCacheDomains < ordered.length then none
  else some ⟨(ordered.flatMap (virtualNodes hash)).insertionSort nodeLE, ordered⟩

/-- The first node at or after the hash, or the first of all. -/
def CacheDomainRing.lookup (r : CacheDomainRing D) (hash : UInt64) : Option D :=
  match r.nodes.find? (fun node => hash ≤ node.hash) with
  | some node => some node.domain
  | none => r.nodes.head?.map (·.domain)

end

abbrev RingInterner := Map (List String) (CacheDomainRing String)

def domainNodeHash (domain : String) (vnode : Nat) : UInt64 :=
  cacheDomainNodeHash domain.toUTF8.toList vnode

/-- The ring of the domains, built on a miss; none above the cap. -/
def RingInterner.intern (sess : RingInterner) (domains : List String) :
    Option (CacheDomainRing String × RingInterner) :=
  let unique := cacheDomainUnique domains
  if maxCacheDomains < unique.length then none
  else
    let ordered := orderedDomains unique
    match sess.lookup ordered with
    | some ring => some (ring, sess)
    | none =>
      (buildCacheDomainRingOrdered domainNodeHash ordered).map fun ring =>
        (ring, sess.insert ordered ring)

theorem RingInterner.intern_eq_none {sess : RingInterner} {domains : List String} :
    sess.intern domains = none ↔ maxCacheDomains < (cacheDomainUnique domains).length := by
  have length : (orderedDomains (cacheDomainUnique domains)).length =
      (cacheDomainUnique domains).length := List.length_insertionSort _ _
  unfold RingInterner.intern buildCacheDomainRingOrdered
  dsimp only
  rw [length]
  split
  next above => simp [above]
  next within => split <;> simp [within]

def privateCacheDomain (accountID : Int) : String := "private:" ++ toString accountID

def cacheDomainForAccount (accountID : Int) (domain : Option String) : String :=
  match domain with
  | some d => if d = "" then privateCacheDomain accountID else d
  | none => privateCacheDomain accountID

def cacheDomainAccountDomain (accounts : List CacheDomainAccount) (accountID : Int) :
    Option String :=
  match accounts.find? (fun a => accountID ≤ a.accountID) with
  | some a => if a.accountID = accountID then some a.domain else none
  | none => none

end C3Api.Scheduler
