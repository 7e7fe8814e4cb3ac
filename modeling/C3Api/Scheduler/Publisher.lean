import C3Api.Scheduler.Snapshot

/-!
# Publishing static roots and decisions

`routing_view.go`: a static root is staged, compiled outside the lock and published
together with its decisions. A static view is an object in `statics`, named by its
position; `origin` names the first object over the same immutable maps, since a second
one may share them. Decisions remember the static view they were compiled from.
-/

namespace C3Api.Scheduler

structure StaticView where
  origin : Nat
  generation : Nat := 0
  root : Root

structure DecisionView (D : Type) where
  generation : Nat := 0
  routes : D
  compiledFrom : Nat

structure RoutingView (D : Type) where
  generation : Nat
  static : Nat
  decision : Option (DecisionView D)

/-- `log` collects the published views, the newest first. -/
structure Publisher (D : Type) where
  statics : List StaticView := []
  view : Option (RoutingView D) := none
  pending : Option Nat := none
  log : List (RoutingView D) := []

variable {D : Type}

namespace Publisher

def rootOf (p : Publisher D) (ref : Nat) : Root :=
  match p.statics[ref]? with
  | some sv => sv.root
  | none => {}

/-- A view with both halves, which a staging leaves in place. -/
def complete (p : Publisher D) : Bool :=
  match p.view with
  | some v => v.decision.isSome
  | none => false

def nextGeneration (p : Publisher D) : Nat :=
  match p.view with
  | some v => v.generation + 1
  | none => 1

/-- The generation of a static view is set once, when it goes out. -/
def stamp (p : Publisher D) (ref : Nat) : Publisher D :=
  { p with statics := p.statics.modify ref fun sv => { sv with generation := p.nextGeneration } }

def store (p : Publisher D) (v : RoutingView D) : Publisher D :=
  { p with view := some v, log := v :: p.log }

/-- Stores a view over the static view under the next generation. -/
def publish (p : Publisher D) (static : Nat) (decision : Option (DecisionView D)) : Publisher D :=
  p.store ⟨p.nextGeneration, static,
    decision.map fun dv => { dv with generation := p.nextGeneration }⟩

def newStaticView (p : Publisher D) (root : Root) : Publisher D × Nat :=
  ({ p with statics := p.statics ++ [{ origin := p.statics.length, root }] }, p.statics.length)

def publishInitialStaticLocked (p : Publisher D) (ref : Nat) : Publisher D :=
  (p.stamp ref).publish ref none

def stageLocked (p : Publisher D) (ref : Nat) : Publisher D :=
  let staged := { p with pending := some ref }
  if p.complete then staged else staged.publishInitialStaticLocked ref

/-- A fresh object over the maps of one that is already published. -/
def wrap (p : Publisher D) (ref : Nat) : Publisher D × Nat :=
  match p.statics[ref]? with
  | some sv =>
    ({ p with statics := p.statics ++ [{ sv with generation := p.nextGeneration }] },
      p.statics.length)
  | none => (p, ref)

/-- Publishes the staged static view with its decisions. A static view that is already
out is never touched again, so that a wrapper goes out instead. -/
def publishPairLocked (p : Publisher D) (ref : Nat) (dv : DecisionView D) : Publisher D :=
  let q := if (p.view.map (·.static)) = some ref then p.wrap ref else (p.stamp ref, ref)
  { q.1.publish q.2 (some dv) with pending := none }

/-- Publishes decisions over the static view they started from, unless the view has
changed in between. -/
def publishWithBase (p : Publisher D) (baseGen : Nat) (baseStatic : Option Nat)
    (dv : DecisionView D) : Option (Publisher D) :=
  match p.view with
  | some cur =>
    if cur.generation = baseGen ∧ some cur.static = baseStatic then
      some (p.publish cur.static (some dv))
    else none
  | none => none

/-- The static view that a reload, a batch or a fire starts from. -/
def newest (p : Publisher D) : Option Nat := p.pending.or (p.view.map (·.static))

def workingRoot (p : Publisher D) : Root :=
  match p.newest with
  | some ref => p.rootOf ref
  | none => {}

end Publisher

end C3Api.Scheduler
