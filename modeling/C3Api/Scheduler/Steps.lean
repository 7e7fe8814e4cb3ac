import C3Api.Interleaving.Pool
import C3Api.Machine.Int64
import C3Api.Scheduler.Publisher

/-!
# The atomic steps of the scheduler

A reservation loads the published view once and then reads and swaps the counter of
one candidate after the other; a release swaps the flag of its lease and then lowers
the counter. Reloads, batches of group invalidations and the locked parts of a compile
fire hold `publisher.mu` and are one step each. The compilation itself runs without
the lock and may end in anything.
-/

namespace C3Api.Scheduler

open Machine Interleaving FiniteMap

structure ConcSnap where
  total : Int
  selfLast : Int
  takenAt : Int

abbrev ClusterView := Option (Int → Option ConcSnap)

def concViewStale : Int := 4000000000

/-- The instance count, one when no provider is set or it reports nothing. -/
def instancesN (provider : Option Int) : Int :=
  match provider with
  | some n => if 0 < n then n else 1
  | none => 1

def concShare (limit n : Int) : Int :=
  if 0 < limit.tdiv n then limit.tdiv n else 1

def concAllows (view : ClusterView) (now accID limit lnow : Int) : Bool :=
  match view with
  | none => decide (lnow ≤ limit)
  | some accounts =>
    match accounts accID with
    | none => decide (lnow ≤ limit)
    | some snap =>
      if concViewStale ≤ now - snap.takenAt then decide (lnow ≤ limit)
      else decide (add64 (sub64 snap.total snap.selfLast) lnow < limit)

/-- What a step may read from outside. `candidate` is the next one of the plan, none at
its end, and `gates` the verdict of the latch, health, status and supplier checks. -/
structure Input (D : Type) where
  provider : Option Int := none
  cluster : ClusterView := none
  candidate : Option Int := none
  gates : Bool := true
  now : Int := 0
  compiled : Option D := none
  sameDigest : Bool := false

structure Lease where
  runtime : RuntimeRef
  released : Bool := false

structure Heap (D : Type) where
  created : Created := {}
  publisher : Publisher D := {}
  counts : RuntimeRef → Int := fun _ => 0
  leases : List Lease := []

/-- Where a reservation is; `static` is the static view it has loaded. -/
inductive ReservePc where
  | load
  | walk (static : Nat) (instances : Int) (cluster : ClusterView)
  | swap (static : Nat) (instances : Int) (cluster : ClusterView) (leaf : Leaf) (cur : Int)
  | held (lease : Nat)
  | exhausted

/-- The concurrency check of the reservation predicate. -/
def admits (instances : Int) (cluster : ClusterView) (now : Int) (leaf : Leaf) (cur : Int) : Bool :=
  let limit := leaf.static.acc.maxConcurrency
  !(decide (concShare limit instances ≤ cur) &&
    (decide (limit ≤ cur) || !concAllows cluster now leaf.id limit (cur + 1)))

variable {D : Type}

def stepReserve (input : Input D) (h : Heap D) : ReservePc → Option (Heap D × ReservePc)
  | .load =>
    match h.publisher.view with
    | none => some (h, .exhausted)
    | some v => some (h, .walk v.static (instancesN input.provider) input.cluster)
  | .walk static instances cluster =>
    match input.candidate with
    | none => some (h, .exhausted)
    | some id =>
      match (h.publisher.rootOf static).byID.lookup id with
      | none => some (h, .walk static instances cluster)
      | some leaf =>
        if input.gates && admits instances cluster input.now leaf (h.counts leaf.runtime) then
          some (h, .swap static instances cluster leaf (h.counts leaf.runtime))
        else some (h, .walk static instances cluster)
  | .swap static instances cluster leaf cur =>
    if h.counts leaf.runtime = cur then
      some ({ h with
        counts := Function.update h.counts leaf.runtime (cur + 1)
        leases := h.leases ++ [⟨leaf.runtime, false⟩] }, .held h.leases.length)
    else some (h, .walk static instances cluster)
  | .held _ => none
  | .exhausted => none

inductive ReleasePc where
  | swap
  | lower (runtime : RuntimeRef)
  | done

def stepRelease (h : Heap D) (lease : Nat) : ReleasePc → Option (Heap D × ReleasePc)
  | .swap =>
    match h.leases[lease]? with
    | none => none
    | some l =>
      if l.released then some (h, .done)
      else some ({ h with leases := h.leases.set lease ⟨l.runtime, true⟩ }, .lower l.runtime)
  | .lower runtime =>
    some ({ h with counts := Function.update h.counts runtime (h.counts runtime - 1) }, .done)
  | .done => none

/-- What a compile fire has captured under the lock; `began` is the number of static
views at that time. -/
structure Fire where
  pendingSnap : Option Nat
  baseGen : Nat
  baseStatic : Option Nat
  began : Nat

/-- The static view to compile: the staged one, or the published one. -/
def Fire.target (fire : Fire) : Option Nat := fire.pendingSnap.or fire.baseStatic

def Publisher.capture (p : Publisher D) : Fire where
  pendingSnap := p.pending
  baseGen := (p.view.map (·.generation)).getD 0
  baseStatic := p.view.map (·.static)
  began := p.statics.length

inductive FirePc (D : Type) where
  | capture
  | compile (fire : Fire)
  | finish (fire : Fire) (dv : DecisionView D)
  | base (fire : Fire) (dv : DecisionView D)
  | done

/-- `compileOnce`. A newer staging supersedes the result, and equal decisions over the
same static view are not published again. -/
def stepFire (input : Input D) (h : Heap D) : FirePc D → Option (Heap D × FirePc D)
  | .capture => some (h, .compile h.publisher.capture)
  | .compile fire =>
    match fire.target, input.compiled with
    | some target, some routes => some (h, .finish fire { routes, compiledFrom := target })
    | _, _ => some (h, .done)
  | .finish fire dv =>
    if h.publisher.pending ≠ fire.pendingSnap then some (h, .done)
    else if input.sameDigest then some (h, .done)
    else
      match fire.pendingSnap with
      | some target =>
        some ({ h with publisher := h.publisher.publishPairLocked target dv }, .done)
      | none => some (h, .base fire dv)
  | .base fire dv =>
    match h.publisher.publishWithBase fire.baseGen fire.baseStatic dv with
    | none => some (h, .done)
    | some p => some ({ h with publisher := p }, .done)
  | .done => none

def Heap.stage (h : Heap D) (created : Created) (root : Root) : Heap D :=
  let staged := h.publisher.newStaticView root
  { h with created, publisher := staged.1.stageLocked staged.2 }

/-- `reloadLocked` after a successful load. -/
def Heap.reload (h : Heap D) (m : List (Int × List Account)) : Heap D :=
  let built := buildSnapshots h.created m h.publisher.workingRoot.byID
  h.stage built.1 built.2

/-- The groups of a batch that are loaded before its deadline. -/
def batchGroups (ids : List Int) (reach : Nat) : List Int := (sortedUniqueInt64 ids).take reach

def Heap.working (h : Heap D) : Working := ⟨h.created, h.publisher.workingRoot, []⟩

/-- `invalidateGroupsLocked`; nothing is staged when every load fails. -/
def Heap.invalidateGroups (h : Heap D) (ids : List Int) (load : Int → Option (List Account))
    (reach : Nat) : Heap D :=
  let gids := batchGroups ids reach
  if gids.any fun gid => (load gid).isSome then
    let w := foldGroups load gids h.working
    h.stage w.created w.root
  else h

theorem Heap.invalidateGroups_cases (h : Heap D) (ids : List Int)
    (load : Int → Option (List Account)) (reach : Nat) :
    h.invalidateGroups ids load reach = h ∨ h.invalidateGroups ids load reach =
        h.stage (foldGroups load (batchGroups ids reach) h.working).created
          (foldGroups load (batchGroups ids reach) h.working).root := by
  unfold Heap.invalidateGroups
  dsimp only
  split
  · exact .inr rfl
  · exact .inl rfl

inductive Call (D : Type) where
  | reserve (pc : ReservePc)
  | release (lease : Nat) (pc : ReleasePc)
  | fire (pc : FirePc D)
  | reload (m : List (Int × List Account))
  | invalidateGroups (ids : List Int) (load : Int → Option (List Account)) (reach : Nat)
  | finished

def stepCall : Step (Heap D) (Call D) (Input D) := fun _ input h call =>
  match call with
  | .reserve pc => (stepReserve input h pc).map fun r => (r.1, .reserve r.2)
  | .release lease pc => (stepRelease h lease pc).map fun r => (r.1, .release lease r.2)
  | .fire pc => (stepFire input h pc).map fun r => (r.1, .fire r.2)
  | .reload m => some (h.reload m, .finished)
  | .invalidateGroups ids load reach => some (h.invalidateGroups ids load reach, .finished)
  | .finished => none

def Call.starts : Call D → Bool
  | .reserve .load => true
  | .release _ .swap => true
  | .fire .capture => true
  | .reload _ => true
  | .invalidateGroups .. => true
  | _ => false

def newScheduler (D : Type) : Pool (Heap D) (Call D) := { shared := {} }

/-- Runs in which only calls start that have done nothing. -/
def legal (_ : Pool (Heap D) (Call D)) : Label (Call D) (Input D) → Bool
  | .start call => call.starts
  | .step _ _ => true

end C3Api.Scheduler
