import C3Api.Billing.Cost
import C3Api.Scheduler.CacheDomain
import C3Api.Scheduler.Quality
import C3Api.Scheduler.RouteIdentity

/-!
# Compiling one route

`routing_compiler_decide.go`, `compiled_route.go` and `attempt_plan_validation.go`: the
candidates of a route are put into three lanes by their quality and cost, and the
decision that comes out is validated.
-/

namespace C3Api.Scheduler

open FiniteMap Machine

structure ResolvedPrices extends Billing.ResolvedPrices where
  mode : String := ""
  variantSeq : Option Int := none
  provider : Option String := none

/-- What the compiler knows of an account, whatever the route. -/
structure CompilerAccountFacts where
  accountID : Int
  templateID : Int
  baseURL : String
  fingerprint : String
  identityFingerprint : CandidateFingerprintVal
  revision : Int
  account : Leaf
  static : SnapshotStatic
  planKey : PlanKey
  upstreamCostMultiplierBp : Int

structure CompilerCandidateFacts extends CompilerAccountFacts where
  requestedModel : String
  mappedModel : String
  mappingMode : ModelMappingMode := .invalid
  quality : String
  qualityRaw : String

inductive AttemptLane where
  | primary | explore | degraded
  deriving DecidableEq

structure CompiledCandidate where
  accountID : Int
  lane : AttemptLane
  templateID : Int
  baseURL : String
  fingerprint : String
  requestedModel : String
  mappedModel : String
  mappingMode : ModelMappingMode
  quality : String
  qualityRaw : String
  identityRevision : Int
  planKey : PlanKey
  leaf : Leaf
  static : SnapshotStatic

def compileCandidate (lane : AttemptLane) (facts : CompilerCandidateFacts) : CompiledCandidate where
  accountID := facts.accountID
  lane
  templateID := facts.templateID
  baseURL := facts.baseURL
  fingerprint := facts.fingerprint
  requestedModel := facts.requestedModel
  mappedModel := facts.mappedModel
  mappingMode := facts.mappingMode
  quality := facts.quality
  qualityRaw := facts.qualityRaw
  identityRevision := facts.revision
  planKey := facts.planKey
  leaf := facts.account
  static := facts.static

/-- `fallback` holds positions in `ordered`. -/
structure ExploreDecision where
  ordered : List CompiledCandidate := []
  weights : Map Int Int := ∅
  cumulative : List Nat := []
  total : Nat := 0
  fallback : List Nat := []
  exploreBP : Nat := 0

inductive IncidentKind where
  | none | domain | model | both
  deriving DecidableEq

structure RouteIncident where
  active : Bool := false
  kind : IncidentKind := .none
  comparable : Nat := 0
  degraded : Nat := 0
  domains : Nat := 0
  evaluatedMinute : Int := 0

structure RouteDecision where
  format : RequestFormat
  requestedModel : String
  routeClassID : String
  callerCategory : CallerKind
  operationTag : OperationTag
  primary : List CompiledCandidate := []
  degraded : List CompiledCandidate := []
  explore : ExploreDecision := {}
  cacheDomainRing : CacheDomainRing String := {}
  cacheDomainAccounts : List CacheDomainAccount := []
  incident : RouteIncident := {}
  validated : Bool := false

structure InvalidRouteDecisionError where
  field : String
  index : Nat := 0
  accountID : Int := 0
  fallbackIndex : Nat := 0

/-- The counts of an incident are never negative here. -/
def validateRouteIncident (inc : RouteIncident) : Option InvalidRouteDecisionError :=
  if !inc.active then
    if inc.kind ≠ .none ∨ inc.comparable ≠ 0 ∨ inc.degraded ≠ 0 ∨ inc.domains ≠ 0 ∨
        inc.evaluatedMinute ≠ 0 then
      some { field := "incident.inactive" }
    else none
  else if inc.kind = .none then some { field := "incident.kind" }
  else if inc.evaluatedMinute < 0 then some { field := "incident.counts" }
  else if inc.comparable < inc.degraded then some { field := "incident.degraded" }
  else none

def containsCandidateID (candidates : List CompiledCandidate) (accountID : Int) : Bool :=
  candidates.any fun c => c.accountID = accountID

/-- One lane: no account may stand in it twice or stand in one of the others. -/
def validateLane (name : String) (others lane : List CompiledCandidate) :
    Option InvalidRouteDecisionError :=
  lane.zipIdx.findSome? fun e =>
    if containsCandidateID others e.1.accountID ||
        containsCandidateID (lane.take e.2) e.1.accountID then
      some { field := s!"{name}[{e.2}]", index := e.2, accountID := e.1.accountID }
    else none

def validateFallback (ordered : List CompiledCandidate) (fallback : List Nat) :
    Option InvalidRouteDecisionError :=
  fallback.zipIdx.findSome? fun e =>
    if ordered.length ≤ e.1 ∨ e.1 ∈ fallback.take e.2 then
      some { field := s!"explore.fallback[{e.2}]", index := e.2, fallbackIndex := e.1 }
    else none

/-- The loop over the cumulative weights; the lists are of one length. -/
def validateCumulative (weights : Map Int Int) :
    Nat → Nat → List CompiledCandidate → List Nat → Except InvalidRouteDecisionError Nat
  | _, previous, [], _ => .ok previous
  | _, previous, _ :: _, [] => .ok previous
  | i, previous, c :: ordered, cumulative :: rest =>
    match weights.lookup c.accountID with
    | none => .error
      { field := s!"explore.weights[{c.accountID}]", index := i, accountID := c.accountID }
    | some weight =>
      if weight ≤ 0 then .error
        { field := s!"explore.weights[{c.accountID}]", index := i, accountID := c.accountID }
      else if cumulative ≤ previous then .error { field := s!"explore.cumulative[{i}]", index := i }
      else if cumulative - previous ≠ weight.toNat then
        .error { field := s!"explore.cumulative[{i}]", index := i }
      else validateCumulative weights (i + 1) cumulative ordered rest

def validateExplore (explore : ExploreDecision) : Option InvalidRouteDecisionError :=
  if 10000 < explore.exploreBP then some { field := "explore.bp" }
  else if explore.ordered.isEmpty then
    if explore.weights.keys.length ≠ 0 ∨ explore.cumulative.length ≠ 0 ∨ explore.total ≠ 0 ∨
        explore.fallback.length ≠ 0 then
      some { field := "explore.empty" }
    else none
  else if explore.cumulative.length ≠ explore.ordered.length then
    some { field := "explore.cumulative" }
  else
    match validateCumulative explore.weights 0 0 explore.ordered explore.cumulative with
    | .error e => some e
    | .ok previous =>
      if explore.weights.keys.length ≠ explore.ordered.length then some { field := "explore.weights" }
      else if explore.total = 0 ∨ explore.total ≠ previous then some { field := "explore.total" }
      else none

/-- None when the decision is well formed. -/
def validateRouteDecision (d : RouteDecision) : Option InvalidRouteDecisionError :=
  (validateRouteIncident d.incident).or <|
  (validateLane "primary" [] d.primary).or <|
  (validateLane "explore.ordered" d.primary d.explore.ordered).or <|
  (validateLane "degraded" (d.primary ++ d.explore.ordered) d.degraded).or <|
  (validateFallback d.explore.ordered d.explore.fallback).or <|
  validateExplore d.explore

inductive CompileError where
  | cacheDomainRingCapExceeded
  | exploreCount (n : Nat)
  | invalid (e : InvalidRouteDecisionError)

structure CandidateQualityKey where
  routeClassID : String
  fingerprint : CandidateFingerprintVal
  deriving DecidableEq

structure CandidateQualityInput (F : Type) where
  counts : Counts F
  inputTokens : Int := 0
  outputTokens : Int := 0
  cacheReadTokens : Int := 0
  cacheCreateTokens : Int := 0

abbrev QualityMap (F : Type) := Map CandidateQualityKey (CandidateQualityInput F)

abbrev PriceMap := Map String ResolvedPrices

def nonNegPrice (p : Option Int) : Int :=
  match p with
  | none => 0
  | some v => if v < 0 then 0 else v

/-- The 192-bit intermediate results of the source are exact, and only the quotient
saturates. -/
def inputUnitPurchaseCost (mult billable cached inputPrice cachePrice denom : Int) : Int :=
  min (mult * (billable * inputPrice + cached * cachePrice) / denom / 10000) maxInt64

variable {F : Type} [Binary64 F]

/-- The candidate of the classification, and whether its cost is known. -/
def qualityCandidate (routeRC : String) (quality : QualityMap F) (prices : PriceMap)
    (rk : RouteKey) (facts : CompilerCandidateFacts) : QualityCandidate F × Bool :=
  let qin := quality.lookup ⟨routeRC, facts.identityFingerprint⟩
  let cnt := (qin.map (·.counts)).getD Counts.zero
  let billable := max ((qin.map (·.inputTokens)).getD 0) 0
  let cached := max ((qin.map (·.cacheReadTokens)).getD 0) 0
  let candidate (cost : Int) : QualityCandidate F :=
    ⟨facts.accountID, cnt.successes, cnt.attempts, cnt.sumLog, cnt.sumSq, cnt.ttftCount, cost⟩
  match prices.lookup rk.model with
  | none => (candidate maxInt64, false)
  | some price =>
    if 0 < cnt.successes ∧ billable + cached ≠ 0 then
      let mult := min (max facts.upstreamCostMultiplierBp 0) 100000
      (candidate (max (inputUnitPurchaseCost mult billable cached (nonNegPrice price.inputPerM)
        (nonNegPrice price.cacheReadPerM) (billable + cached)) 0), true)
    else (candidate maxInt64, false)

/-- The accounts whose cost is known; the later of two entries counts. -/
def costKnown (qcs : List (QualityCandidate F × Bool)) : Map Int Bool :=
  insertAll ∅ (qcs.map fun e => (e.1.accountID, e.2))

/-- A candidate of unknown cost goes to exploration. -/
def demoted (known : Map Int Bool) (qc : QualityCandidate F) : Bool :=
  (known.lookup qc.accountID).getD false = false

def byAccountID (qcs : List (QualityCandidate F)) : List (QualityCandidate F) :=
  qcs.insertionSort fun a b => a.accountID ≤ b.accountID

def classifyRouteCandidates (qcs : List (QualityCandidate F)) (known : Map Int Bool) :
    QualityClassification F :=
  let sorted := byAccountID qcs
  let cl := match classifyQuality sorted with
    | .ok cl => cl
    | .error _ => { explore := byAccountID sorted }
  { primary := cl.primary.filter fun qc => !demoted known qc
    degraded := cl.degraded.filter fun qc => !demoted known qc
    explore := byAccountID
      (cl.explore ++ cl.primary.filter (demoted known) ++ cl.degraded.filter (demoted known)) }

/-- An invalid count weighs as little as possible. -/
def weightOf (qc : QualityCandidate F) : Int :=
  match exploreWeight qc.successes qc.attempts with
  | .ok w => w
  | .error _ => 100

structure ExplorePlan where
  exploreBP : Nat
  weights : Map Int Int
  table : ExploreTable

/-- Both the table and the source's list of accounts are sorted by account. -/
def ExplorePlan.exploreIDs (plan : ExplorePlan) : List Int :=
  plan.table.candidates.map (·.accountID)

/-- The sums of the fallback path, which may wrap around. -/
def wrappingSums (total : Nat) : List ExploreCandidate → List Nat
  | [] => []
  | c :: rest =>
    let sum := (total + c.weight.toNat) % 18446744073709551616
    sum :: wrappingSums sum rest

def exploreCandidates (explore : List (QualityCandidate F)) : List ExploreCandidate :=
  explore.map fun qc => ⟨qc.accountID, weightOf qc⟩

def exploreWeights (candidates : List ExploreCandidate) : Map Int Int :=
  insertAll ∅ (candidates.map fun c => (c.accountID, c.weight))

/-- The table without the checks of `build`. -/
def uncheckedTable (candidates : List ExploreCandidate) : ExploreTable :=
  let sorted := candidates.insertionSort fun a b => a.accountID ≤ b.accountID
  ⟨sorted, wrappingSums 0 sorted, (wrappingSums 0 sorted).getLastD 0⟩

def compileExplorePlan (filteredCount : Nat) (cl : QualityClassification F) : ExplorePlan where
  exploreBP := exploreBP filteredCount cl.explore.length cl.primary.length
  weights := exploreWeights (exploreCandidates cl.explore)
  table :=
    if cl.explore.isEmpty then ⟨[], [], 0⟩
    else
      match ExploreTable.build (exploreCandidates cl.explore) with
      | .ok table => table
      | .error _ => uncheckedTable (exploreCandidates cl.explore)

def compileFallbackIDs (explore : List (QualityCandidate F)) (exploreIDs : List Int) : List Int :=
  if explore.isEmpty then []
  else
    match fallbackTail (explore.map fun qc => ⟨qc.accountID, qc.successes, qc.attempts⟩) (-1) with
    | .ok out => out.map (·.accountID)
    | .error _ => exploreIDs

def firstByID : List Int → List CompilerCandidateFacts → List CompilerCandidateFacts
  | _, [] => []
  | seen, facts :: rest =>
    if facts.accountID ∈ seen then firstByID seen rest
    else facts :: firstByID (facts.accountID :: seen) rest

def compileCacheDomainPlan (filtered : List CompilerCandidateFacts) (sess : RingInterner) :
    Except CompileError (CacheDomainRing String × List CacheDomainAccount × RingInterner) :=
  let accounts : List CacheDomainAccount := (firstByID [] filtered).map fun facts =>
    ⟨facts.accountID, cacheDomainForAccount facts.accountID facts.static.acc.cacheDomain⟩
  match sess.intern (accounts.map (·.domain)) with
  | none => .error .cacheDomainRingCapExceeded
  | some (ring, sess) =>
    .ok (ring, accounts.insertionSort fun a b => a.accountID ≤ b.accountID, sess)

def factsByID (filtered : List CompilerCandidateFacts) : Map Int CompilerCandidateFacts :=
  insertAll ∅ (filtered.map fun facts => (facts.accountID, facts))

/-- The candidates of a lane. Every number comes from the list of facts. -/
def compileLane (filtered : List CompilerCandidateFacts) (lane : AttemptLane) (ids : List Int) :
    List CompiledCandidate :=
  ids.filterMap fun id => ((factsByID filtered).lookup id).map (compileCandidate lane)

def orderedIndex (ordered : List CompiledCandidate) : Map Int Nat :=
  insertAll ∅ (ordered.zipIdx.map fun e => (e.1.accountID, e.2))

def fallbackPositions (ordered : List CompiledCandidate) (fallbackIDs : List Int) : List Nat :=
  fallbackIDs.filterMap fun id => (orderedIndex ordered).lookup id

def assembled (rk : RouteKey) (rr : RouteRef) (primary ordered degraded : List CompiledCandidate)
    (fallbackIDs : List Int) (plan : ExplorePlan) (ring : CacheDomainRing String)
    (accounts : List CacheDomainAccount) : RouteDecision where
  format := rk.format
  requestedModel := rk.model
  routeClassID := rr.routeClassID
  callerCategory := callerKindForFormat rk.format
  operationTag := rr.operationTag
  primary := primary
  degraded := degraded
  explore :=
    { ordered
      weights := plan.weights
      cumulative := plan.table.cumulative
      total := plan.table.total
      fallback := fallbackPositions ordered fallbackIDs
      exploreBP := plan.exploreBP }
  cacheDomainRing := ring
  cacheDomainAccounts := accounts

def assembleRouteDecision (filtered : List CompilerCandidateFacts) (rk : RouteKey) (rr : RouteRef)
    (primaryIDs degradedIDs fallbackIDs : List Int) (plan : ExplorePlan) (sess : RingInterner) :
    Except CompileError (RouteDecision × RingInterner) :=
  match compileCacheDomainPlan filtered sess with
  | .error e => .error e
  | .ok (ring, accounts, sess) =>
    let ordered := compileLane filtered .explore plan.exploreIDs
    if 65535 < ordered.length then .error (.exploreCount ordered.length)
    else
      let decision := assembled rk rr (compileLane filtered .primary primaryIDs) ordered
        (compileLane filtered .degraded degradedIDs) fallbackIDs plan ring accounts
      match validateRouteDecision decision with
      | some e => .error (.invalid e)
      | none => .ok ({ decision with validated := true }, sess)

def compileRouteDecision (filtered : List CompilerCandidateFacts) (rk : RouteKey)
    (routeRC : String) (quality : QualityMap F) (prices : PriceMap) (rr : RouteRef)
    (sess : RingInterner) : Except CompileError (RouteDecision × RingInterner) :=
  let qcs := filtered.map (qualityCandidate routeRC quality prices rk)
  let cl := classifyRouteCandidates (qcs.map Prod.fst) (costKnown qcs)
  let plan := compileExplorePlan filtered.length cl
  assembleRouteDecision filtered rk rr (cl.primary.map (·.accountID))
    (cl.degraded.map (·.accountID)) (compileFallbackIDs cl.explore plan.exploreIDs) plan sess

end C3Api.Scheduler
