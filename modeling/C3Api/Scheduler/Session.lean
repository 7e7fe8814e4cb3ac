import C3Api.Scheduler.Decide

/-!
# Selection sessions

`attempt_plan.go` and `attempt_plan_exec.go`: a request walks the lanes of its route and
offers one candidate after the other to a reservation. The fields of the session that are
set before the walk form its plan, and those that the walk moves its cursor; a loop of
the source runs on a bound that its plan gives.
-/

namespace C3Api.Scheduler

open FiniteMap

def maxAttemptPlanAccounts : Nat := 8

structure AttemptPlanIdentity where
  requestID : String := ""
  userID : Int := 0
  routeClassID : String := ""
  requestedModel : String := ""
  routingGeneration : Nat := 0
  maxAttempts : Nat := 0
  applyModelMapping : Bool := true

structure Attempt where
  attemptID : String
  routeClassID : String
  qualityClassID : String
  candidateFingerprint : String
  templateID : Int
  accountID : Int
  requestedModel : String
  mappedModel : String
  lane : AttemptLane
  ordinal : Nat
  routingGeneration : Nat
  identityRevision : Int
  previousAttemptID : Option String
  previousAccountID : Option Int
  callerCategory : CallerKind
  operationTag : OperationTag

def hashString (h : UInt64) (s : String) : UInt64 := s.toUTF8.toList.foldl fnvByte h * fnvPrime64

def exploreHash (label requestID : String) (userID : Int) (routeClassID : String)
    (generation ordinal : Nat) : UInt64 :=
  [label, requestID, toString userID, routeClassID, toString generation, toString ordinal].foldl
    hashString fnvOffset64

def exploreHashForPlan (identity : AttemptPlanIdentity) (ordinal : Nat) : UInt64 :=
  exploreHash "explore" identity.requestID identity.userID identity.routeClassID
    identity.routingGeneration ordinal

def laneHashForPlan (identity : AttemptPlanIdentity) : UInt64 :=
  exploreHash "lane" identity.requestID identity.userID identity.routeClassID
    identity.routingGeneration 0

def normalizeMaxAttempts (n : Nat) : Nat :=
  if n = 0 ∨ maxAttemptPlanAccounts < n then maxAttemptPlanAccounts else n

/-- Where the walk is in the route. -/
inductive WalkSeg where
  | primary | sample | fallback | degraded | done
  deriving DecidableEq

structure SelectPlan where
  identity : AttemptPlanIdentity
  route : RouteDecision
  generation : Nat
  maxAttempts : Nat
  sampleIdx : Option Nat
  exploreFirst : Bool
  total : Nat
  affinityHash : Option UInt64 := none

structure Cursor where
  walkSeg : WalkSeg := .primary
  walkPos : Nat := 0
  primaryServed : Bool := false
  affinPhase : Nat := 0
  tried : List Int := []

/-- `attempted` holds the accounts and the numbers of the reservations that stand. -/
structure SelectSession where
  plan : SelectPlan
  cursor : Cursor
  attempted : List (Int × String) := []
  ordinal : Nat := 0

/-- The position that the ticket of the request draws from the explore lane. -/
def sampleOf (identity : AttemptPlanIdentity) (explore : ExploreDecision) : Option Nat :=
  if !explore.ordered.isEmpty && 0 < explore.total &&
      explore.cumulative.length = explore.ordered.length then
    let ticket := (exploreHashForPlan identity 0).toNat % explore.total
    let idx := explore.cumulative.findIdx fun c => ticket < c
    if idx < explore.ordered.length then some idx else none
  else none

/-- Whether the sample goes before the primary lane. -/
def leadsWithSample (identity : AttemptPlanIdentity) (d : RouteDecision) : Bool :=
  if (sampleOf identity d.explore).isNone then false
  else if d.primary.isEmpty || 10000 ≤ d.explore.exploreBP then true
  else if 0 < d.explore.exploreBP then
    (laneHashForPlan identity).toNat % 10000 < d.explore.exploreBP
  else false

namespace SelectPlan

def start (plan : SelectPlan) (affinPhase : Nat) (tried : List Int) : Cursor where
  walkSeg := if plan.exploreFirst then .sample else .primary
  affinPhase := affinPhase
  tried := tried

def sampled (plan : SelectPlan) : Option CompiledCandidate :=
  plan.sampleIdx.bind fun idx => plan.route.explore.ordered[idx]?

/-- A candidate of the fallback, unless it is the sample. -/
def fallbackPick (plan : SelectPlan) (idx : Nat) : Option CompiledCandidate :=
  (plan.route.explore.ordered[idx]?).filter fun c =>
    plan.sampled.map (·.accountID) ≠ some c.accountID

def candidateAt (plan : SelectPlan) : WalkSeg → Nat → Option CompiledCandidate
  | .primary, pos => plan.route.primary[pos]?
  | .sample, _ => plan.sampled
  | .fallback, pos => (plan.route.explore.fallback[pos]?).bind plan.fallbackPick
  | .degraded, pos => plan.route.degraded[pos]?
  | .done, _ => none

def afterPrimary (plan : SelectPlan) (k : Cursor) : Cursor :=
  { k with
    primaryServed := true
    walkSeg := if plan.exploreFirst then .fallback else .sample
    walkPos := 0 }

/-- The `switch` of `next`: a candidate, or nothing yet, and the cursor after it. -/
def advance (plan : SelectPlan) (k : Cursor) : Option CompiledCandidate × Cursor :=
  match k.walkSeg with
  | .primary =>
    if k.walkPos < plan.route.primary.length then
      match plan.candidateAt .primary k.walkPos with
      | none => (none, plan.afterPrimary k)
      | some c => (some c, { k with walkPos := k.walkPos + 1 })
    else (none, plan.afterPrimary k)
  | .sample =>
    (plan.candidateAt .sample 0,
      { k with
        walkSeg := if plan.exploreFirst && !k.primaryServed then .primary else .fallback
        walkPos := 0 })
  | .fallback =>
    if k.walkPos < plan.route.explore.fallback.length then
      (plan.candidateAt .fallback k.walkPos, { k with walkPos := k.walkPos + 1 })
    else (none, { k with walkSeg := .degraded, walkPos := 0 })
  | .degraded =>
    if k.walkPos < plan.route.degraded.length then
      match plan.candidateAt .degraded k.walkPos with
      | none => (none, { k with walkSeg := .done })
      | some c => (some c, { k with walkPos := k.walkPos + 1 })
    else (none, { k with walkSeg := .done })
  | .done => (none, k)

def domainOf (plan : SelectPlan) (id : Int) : String :=
  (cacheDomainAccountDomain plan.route.cacheDomainAccounts id).getD ""

inductive Turn where
  | exhausted (k : Cursor)
  | again (k : Cursor)
  | yield (c : CompiledCandidate) (k : Cursor)

/-- With an affinity the first phase takes the preferred domain and the second one the
others. -/
def wanted (plan : SelectPlan) (preferredDom : String) (affinPhase : Nat)
    (c : CompiledCandidate) : Bool :=
  plan.affinityHash.isNone ||
    decide (affinPhase = 0) == decide (plan.domainOf c.accountID = preferredDom)

/-- Candidates of the other phase and those already offered are passed by. -/
def consider (plan : SelectPlan) (preferredDom : String) (c : CompiledCandidate) (k : Cursor) :
    Turn :=
  if !plan.wanted preferredDom k.affinPhase c then .again k
  else if k.tried.contains c.accountID then .again k
  else
    .yield c
      (if k.tried.length < maxAttemptPlanAccounts then
        { k with tried := k.tried ++ [c.accountID] }
      else k)

def turn (plan : SelectPlan) (preferredDom : String) (k : Cursor) : Turn :=
  if plan.affinityHash.isSome && 1 < k.affinPhase then .exhausted k
  else if k.walkSeg = .done then
    if plan.affinityHash.isSome then
      if 1 < k.affinPhase + 1 then .exhausted { k with affinPhase := k.affinPhase + 1 }
      else .again (plan.start (k.affinPhase + 1) k.tried)
    else .exhausted k
  else
    match plan.advance k with
    | (none, k) => .again k
    | (some c, k) => plan.consider preferredDom c k

def loop (plan : SelectPlan) (preferredDom : String) :
    Nat → Cursor → Option CompiledCandidate × Cursor
  | 0, k => (none, k)
  | fuel + 1, k =>
    match plan.turn preferredDom k with
    | .exhausted k => (none, k)
    | .again k => plan.loop preferredDom fuel k
    | .yield c k => (some c, k)

def turns (plan : SelectPlan) : Nat :=
  2 * (plan.route.primary.length + plan.route.explore.fallback.length +
    plan.route.degraded.length + 6)

def next (plan : SelectPlan) (k : Cursor) : Option CompiledCandidate × Cursor :=
  match plan.affinityHash with
  | none => plan.loop "" plan.turns k
  | some hash =>
    match plan.route.cacheDomainRing.lookup hash with
    | none => (none, k)
    | some dom => plan.loop dom plan.turns k

/-- The route of a search has no model of its own and takes the one of the request. -/
def projectCandidate (dg : Digests) (plan : SelectPlan) (c : CompiledCandidate) :
    CompiledCandidate :=
  if c.requestedModel ≠ "" ∨ plan.identity.requestedModel = "" then c
  else
    let requested := plan.identity.requestedModel
    let mapping := c.static.tpl.bind fun tpl => tpl.modelMapping.lookup requested
    let mapped := (mapping.map (·.mappedModel)).getD requested
    { c with
      requestedModel := requested
      mappedModel := mapped
      mappingMode := (mapping.map (·.mode)).getD .invalid
      quality := qualityClassHexForWithOp dg plan.route.format mapped plan.route.operationTag
      qualityRaw := qualityClassHexForWithOp dg plan.route.format requested
        plan.route.operationTag }

def buildAttempt (plan : SelectPlan) (c : CompiledCandidate) (ordinal : Nat) (attemptID : String)
    (previous : Option (Int × String)) : Attempt where
  attemptID := attemptID
  routeClassID := plan.route.routeClassID
  qualityClassID := if plan.identity.applyModelMapping then c.quality else c.qualityRaw
  candidateFingerprint := c.fingerprint
  templateID := c.templateID
  accountID := c.accountID
  requestedModel := c.requestedModel
  mappedModel := if plan.identity.applyModelMapping then c.mappedModel else c.requestedModel
  lane := c.lane
  ordinal := ordinal
  routingGeneration := plan.generation
  identityRevision := c.identityRevision
  previousAttemptID := previous.map Prod.snd
  previousAccountID := previous.map Prod.fst
  callerCategory := plan.route.callerCategory
  operationTag := plan.route.operationTag

end SelectPlan

/-- The session of a request over a decision; one that the compiler has not validated is
checked first. -/
def newSelectSession (identity : AttemptPlanIdentity) (d : RouteDecision) :
    Except InvalidRouteDecisionError SelectSession :=
  match if d.validated then none else validateRouteDecision d with
  | some e => .error e
  | none =>
    let sample := sampleOf identity d.explore
    let plan : SelectPlan :=
      { identity
        route := d
        generation := identity.routingGeneration
        maxAttempts := normalizeMaxAttempts identity.maxAttempts
        sampleIdx := sample
        exploreFirst := leadsWithSample identity d
        total := d.primary.length + d.explore.fallback.length + d.degraded.length +
          (if sample.isSome then 1 else 0) }
    .ok { plan, cursor := plan.start 0 [] }

def deriveAttemptID (requestID : String) (ordinal : Nat) : String :=
  if requestID ≠ "" then requestID ++ ":" ++ toString ordinal
  else "attempt-" ++ toString ordinal

inductive ReserveError where
  | noAvailable | attemptsExhausted
  deriving DecidableEq

/-- What a call of `reserve` returns, and the candidates it asked the predicate about. -/
structure Reserved where
  result : Except ReserveError Attempt
  offered : List CompiledCandidate
  session : SelectSession

namespace SelectSession

def applyCacheAffinity (p : SelectSession) (hash : UInt64) : SelectSession :=
  match p.plan.route.cacheDomainRing.lookup hash with
  | none => p
  | some _ =>
    { p with
      plan := { p.plan with affinityHash := some hash }
      cursor := p.plan.start 0 p.cursor.tried }

def settle (p : SelectSession) (c : CompiledCandidate) : Attempt × SelectSession :=
  let ordinal := p.ordinal + 1
  let attemptID := deriveAttemptID p.plan.identity.requestID ordinal
  (p.plan.buildAttempt c ordinal attemptID p.attempted.getLast?,
    { p with attempted := p.attempted ++ [(c.accountID, attemptID)], ordinal })

/-- The loop of `reserve`; `answers` are the verdicts of the predicate in this call. -/
def reserveLoop (dg : Digests) : Nat → (Nat → Bool) → SelectSession → Reserved
  | 0, _, p => ⟨.error .attemptsExhausted, [], p⟩
  | fuel + 1, answers, p =>
    match p.plan.next p.cursor with
    | (none, k) => ⟨.error .attemptsExhausted, [], { p with cursor := k }⟩
    | (some c, k) =>
      let c := p.plan.projectCandidate dg c
      let p := { p with cursor := k }
      if answers 0 then ⟨.ok (p.settle c).1, [c], (p.settle c).2⟩
      else
        let r := reserveLoop dg fuel (fun i => answers (i + 1)) p
        { r with offered := c :: r.offered }

def reserve (dg : Digests) (answers : Nat → Bool) (p : SelectSession) : Reserved :=
  if p.plan.total = 0 then ⟨.error .noAvailable, [], p⟩
  else if p.plan.maxAttempts ≤ p.ordinal then ⟨.error .attemptsExhausted, [], p⟩
  else p.reserveLoop dg (p.plan.total + 1) answers

def abandonLastAttempt (p : SelectSession) : SelectSession :=
  if p.attempted.isEmpty then p
  else { p with attempted := p.attempted.dropLast, ordinal := p.ordinal - 1 }

end SelectSession

end C3Api.Scheduler
