import C3Api.Scheduler.Walk

/-!
# What a session offers

Reservations that succeed or are refused and attempts that are given up, in any order:
the candidates offered are a prefix of the lanes in their order, and the attempts that
stand are numbered from one and bounded by the limit of the request.
-/

namespace C3Api.Scheduler

open Machine FiniteMap List Option SelectSession

variable {dg : Digests} {p : SelectSession}

namespace SelectSession

def upcoming (p : SelectSession) : List CompiledCandidate :=
  p.plan.upcoming p.plan.preferredDom p.cursor

structure Walking (p : SelectSession) : Prop where
  armed : p.plan.Armed
  ready : p.plan.Ready p.plan.preferredDom p.cursor
  enough : p.plan.budget p.cursor < p.plan.turns
  few : p.upcoming.length ≤ p.plan.total

structure Reserves (dg : Digests) (p : SelectSession) (r : Reserved) : Prop where
  plan : r.session.plan = p.plan
  walking : r.session.Walking
  offered : ∃ taken, p.upcoming = taken ++ r.session.upcoming ∧
    r.offered = taken.map (p.plan.projectCandidate dg)
  outcome : (∃ e, r.result = .error e ∧ r.session.attempted = p.attempted ∧
      r.session.ordinal = p.ordinal) ∨
    ∃ attempt, r.result = .ok attempt ∧ attempt.ordinal = p.ordinal + 1 ∧
      r.session.attempted.length = p.attempted.length + 1 ∧ r.session.ordinal = p.ordinal + 1

section

variable (walking : p.Walking)

include walking

theorem Walking.refused (e : ReserveError) : p.Reserves dg ⟨.error e, [], p⟩ :=
  ⟨rfl, walking, ⟨[], rfl, rfl⟩, .inl ⟨e, rfl, rfl, rfl⟩⟩

theorem Walking.next : p.plan.NextSpec p.plan.preferredDom p.cursor (p.plan.next p.cursor) :=
  SelectPlan.next_spec walking.armed walking.ready walking.enough

variable {c : CompiledCandidate} {k : Cursor}

theorem Walking.moved (here : p.upcoming = c :: p.plan.upcoming p.plan.preferredDom k)
    (ready : p.plan.Ready p.plan.preferredDom k) (fewer : p.plan.budget k < p.plan.budget p.cursor) :
    ({ p with cursor := k } : SelectSession).Walking := by
  refine ⟨walking.armed, ready, fewer.trans walking.enough, ?_⟩
  have few := walking.few
  rw [here, length_cons] at few
  exact (Nat.le_succ _).trans few

theorem Walking.settle (c : CompiledCandidate) : (p.settle c).2.Walking :=
  ⟨walking.armed, walking.ready, walking.enough, walking.few⟩

end

theorem shorter (here : p.upcoming = c :: p.plan.upcoming p.plan.preferredDom k)
    (enough : p.upcoming.length < fuel + 1) :
    ({ p with cursor := k } : SelectSession).upcoming.length < fuel := by
  rw [here, length_cons] at enough
  exact Nat.lt_of_succ_lt_succ enough

theorem reserveLoop_reserves (answers : Nat → Bool) (walking : p.Walking)
    (enough : p.upcoming.length < fuel) : p.Reserves dg (p.reserveLoop dg fuel answers) := by
  induction fuel generalizing p answers with
  | zero => omega
  | succ fuel ih =>
    have spec := walking.next
    unfold reserveLoop
    generalize p.plan.next p.cursor = stepped at spec
    cases spec with
    | exhausted _ here after fewer =>
      refine ⟨rfl, ⟨walking.armed, ?_, fewer.trans_lt walking.enough, ?_⟩, ?_,
        .inl ⟨_, rfl, rfl, rfl⟩⟩
      · exact ⟨by simp [after], by simp [after]⟩
      · exact (congrArg List.length after).trans_le (Nat.zero_le _)
      · exact ⟨[], here.trans after.symm, rfl⟩
    | yield c _ here ready fewer =>
      have moved := walking.moved here ready fewer
      dsimp only
      split
      · refine ⟨rfl, moved.settle _, ⟨[c], here, rfl⟩, .inr ⟨_, rfl, rfl, ?_, rfl⟩⟩
        exact length_append
      have short := shorter here enough
      obtain ⟨plan, walking', ⟨taken, suffix, offered⟩, outcome⟩ :=
        ih (fun i => answers (i + 1)) moved short
      refine ⟨plan, walking', ⟨c :: taken, ?_, ?_⟩, outcome⟩
      · exact here.trans (congrArg (c :: ·) suffix)
      · rw [map_cons, ← offered]

theorem reserve_reserves (dg : Digests) (answers : Nat → Bool) (walking : p.Walking) :
    p.Reserves dg (p.reserve dg answers) := by
  unfold reserve
  split
  · exact walking.refused _
  split
  · exact walking.refused _
  · exact reserveLoop_reserves answers walking (Nat.lt_succ_of_le walking.few)

/-- When every answer is no, nothing is left to offer. -/
theorem reserveLoop_rejected (walking : p.Walking) (enough : p.upcoming.length < fuel)
    (rejected : ∀ i, answers i = false) :
    (p.reserveLoop dg fuel answers).session.upcoming = [] := by
  induction fuel generalizing p answers with
  | zero => omega
  | succ fuel ih =>
    have spec := walking.next
    unfold reserveLoop
    generalize p.plan.next p.cursor = stepped at spec
    cases spec with
    | exhausted _ here after fewer => exact after
    | yield c _ here ready fewer =>
      dsimp only
      rw [if_neg (by simp [rejected 0])]
      exact ih (walking.moved here ready fewer) (shorter here enough) fun i => rejected (i + 1)

theorem reserve_rejected (walking : p.Walking) (unused : p.ordinal < p.plan.maxAttempts)
    (rejected : ∀ i, answers i = false) : (p.reserve dg answers).session.upcoming = [] := by
  unfold reserve
  split
  next none =>
    have few := walking.few
    rw [none, Nat.le_zero, length_eq_zero_iff] at few
    exact few
  rw [if_neg (not_le.mpr unused)]
  exact reserveLoop_rejected walking (Nat.lt_succ_of_le walking.few) rejected

end SelectSession

inductive SessionCall where
  | reserve (answers : Nat → Bool)
  | abandon

/-- The predicate of a reservation says no to everything. -/
def SessionCall.Rejecting : SessionCall → Prop
  | .reserve answers => ∀ i, answers i = false
  | .abandon => True

def SessionCall.isReserve : SessionCall → Bool
  | .reserve _ => true
  | .abandon => false

/-- A session with all that it has offered and the attempts that stand. -/
structure SessionRun where
  session : SelectSession
  offered : List CompiledCandidate := []
  held : List Attempt := []

namespace SessionRun

def step (dg : Digests) (r : SessionRun) : SessionCall → SessionRun
  | .reserve answers =>
    let reserved := r.session.reserve dg answers
    { session := reserved.session
      offered := r.offered ++ reserved.offered
      held := match reserved.result with
        | .ok attempt => r.held ++ [attempt]
        | .error _ => r.held }
  | .abandon => { r with session := r.session.abandonLastAttempt, held := r.held.dropLast }

def run (dg : Digests) (p : SelectSession) (calls : List SessionCall) : SessionRun :=
  calls.foldl (step dg) { session := p }

variable {r : SessionRun}

/-- A run of a session: a part of the list is offered and the rest is still to come, and
the attempts that stand carry the numbers from one. -/
structure Conforms (dg : Digests) (p : SelectSession) (r : SessionRun) : Prop where
  plan : r.session.plan = p.plan
  walking : r.session.Walking
  offered : ∃ taken, p.upcoming = taken ++ r.session.upcoming ∧
    r.offered = taken.map (p.plan.projectCandidate dg)
  numbered : r.held.map (·.ordinal) = List.range' 1 r.session.ordinal
  attempted : r.session.attempted.length = r.session.ordinal
  bounded : r.session.ordinal ≤ p.plan.maxAttempts

theorem Conforms.start (walking : p.Walking) (unused : p.attempted = [] ∧ p.ordinal = 0) :
    Conforms dg p { session := p } := by
  refine ⟨rfl, walking, ⟨[], rfl, rfl⟩, ?_, ?_, ?_⟩
  · rw [unused.2]
    rfl
  · rw [unused.1, unused.2]
    rfl
  · rw [unused.2]
    exact Nat.zero_le _

theorem Conforms.reserve (conforms : Conforms dg p r) (answers : Nat → Bool) :
    Conforms dg p (r.step dg (.reserve answers)) := by
  obtain ⟨plan, walking, ⟨before, left, offeredBefore⟩, numbered, attempted, bounded⟩ := conforms
  have reserves := SelectSession.reserve_reserves dg answers walking
  obtain ⟨plan', walking', ⟨taken, left', offeredNow⟩, outcome⟩ := reserves
  have offered : ∃ taken, p.upcoming =
      taken ++ (r.session.reserve dg answers).session.upcoming ∧
      r.offered ++ (r.session.reserve dg answers).offered =
        taken.map (p.plan.projectCandidate dg) := by
    refine ⟨before ++ taken, ?_, ?_⟩
    · rw [append_assoc, ← left', left]
    · rw [map_append, offeredBefore, offeredNow, plan]
  rcases outcome with ⟨e, failed, sameAttempts, sameOrdinal⟩ |
      ⟨attempt, succeeded, ordinal, oneMore, nextOrdinal⟩
  · refine ⟨plan'.trans plan, walking', offered, ?_, ?_, ?_⟩
    · simp only [step, failed]
      rw [sameOrdinal, numbered]
    · simp only [step]
      rw [sameAttempts, sameOrdinal, attempted]
    · simp only [step]
      rw [sameOrdinal]
      exact bounded
  · have allowed : r.session.ordinal < p.plan.maxAttempts := by
      by_contra full
      rw [not_lt, ← plan] at full
      unfold SelectSession.reserve at succeeded
      split at succeeded <;> cases succeeded
    refine ⟨plan'.trans plan, walking', offered, ?_, ?_, ?_⟩
    · simp only [step, succeeded]
      rw [map_append, numbered, nextOrdinal, map_singleton, ordinal, range'_1_concat, Nat.add_comm]
    · simp only [step]
      rw [oneMore, nextOrdinal, attempted]
    · simp only [step]
      rw [nextOrdinal]
      exact allowed

theorem Conforms.abandon (conforms : Conforms dg p r) : Conforms dg p (r.step dg .abandon) := by
  obtain ⟨plan, walking, offered, numbered, attempted, bounded⟩ := conforms
  simp only [step, abandonLastAttempt]
  split
  next none =>
    rw [List.isEmpty_iff] at none
    have zero : r.session.ordinal = 0 := by rw [← attempted, none]; rfl
    have nothing : r.held = [] := by
      rw [zero] at numbered
      exact map_eq_nil_iff.mp numbered
    refine ⟨plan, walking, offered, ?_, attempted, bounded⟩
    rw [nothing, zero]
    rfl
  · refine ⟨plan, ⟨walking.armed, walking.ready, walking.enough, walking.few⟩, offered, ?_, ?_, ?_⟩
    · rw [map_dropLast, numbered]
      rename_i some
      obtain ⟨n, ordinal⟩ : ∃ n, r.session.ordinal = n + 1 := by
        refine Nat.exists_eq_succ_of_ne_zero fun zero => some ?_
        rw [List.isEmpty_iff, ← length_eq_zero_iff, attempted, zero]
      rw [ordinal, range'_1_concat, dropLast_concat]
      rfl
    · rw [length_dropLast, attempted]
    · exact (Nat.sub_le _ _).trans bounded

theorem run_conforms (dg : Digests) (walking : p.Walking) (unused : p.attempted = [] ∧ p.ordinal = 0)
    (calls : List SessionCall) : Conforms dg p (run dg p calls) := by
  refine foldlRecOn calls _ (.start walking unused) fun r conforms call _ => ?_
  cases call with
  | reserve answers => exact conforms.reserve answers
  | abandon => exact conforms.abandon

/-- Once nothing is left to offer, nothing comes back. -/
theorem upcoming_foldl_nil (calls : List SessionCall) (conforms : Conforms dg p r)
    (done : r.session.upcoming = []) : (calls.foldl (step dg) r).session.upcoming = [] := by
  induction calls generalizing r with
  | nil => exact done
  | cons call rest ih =>
    cases call with
    | reserve answers =>
      apply ih (conforms.reserve answers)
      obtain ⟨-, -, ⟨taken, left, -⟩, -⟩ :=
        reserve_reserves dg answers conforms.walking
      rw [done] at left
      exact (append_eq_nil_iff.mp left.symm).2
    | abandon =>
      apply ih conforms.abandon
      simp only [step, abandonLastAttempt]
      split
      · exact done
      · exact done

/-- When every candidate is refused, the first reservation offers them all. -/
theorem run_rejected (dg : Digests) (walking : p.Walking) (unused : p.attempted = [] ∧ p.ordinal = 0)
    (limit : 0 < p.plan.maxAttempts) {calls : List SessionCall}
    (rejecting : ∀ call ∈ calls, call.Rejecting) (tried : calls.any SessionCall.isReserve) :
    (run dg p calls).session.upcoming = [] := by
  suffices general : ∀ r, Conforms dg p r → r.session.ordinal = 0 →
      (calls.foldl (step dg) r).session.upcoming = [] from
    general _ (.start walking unused) unused.2
  induction calls with
  | nil => simp at tried
  | cons call rest ih =>
    intro r conforms none
    cases call with
    | reserve answers =>
      apply upcoming_foldl_nil rest (conforms.reserve answers)
      refine reserve_rejected conforms.walking ?_ (rejecting _ mem_cons_self)
      rw [none, conforms.plan]
      exact limit
    | abandon =>
      refine ih (forall_mem_cons.mp rejecting).2
        (by simpa [SessionCall.isReserve] using tried) _ conforms.abandon ?_
      simp only [step, abandonLastAttempt]
      split
      · exact none
      · rw [none]

end SessionRun

open SessionRun

variable {filtered : List CompilerCandidateFacts} {d : RouteDecision} {plan : SelectPlan}
variable {identity : AttemptPlanIdentity}

theorem RouteDecision.Laned.accounts (laned : d.Laned filtered) :
    ((d.primary ++ d.explore.ordered ++ d.degraded).map (·.accountID)).Perm
      (filtered.map (·.accountID)) := by
  obtain ⟨primary, explore, degraded, permuted, inPrimary, inExplore, inDegraded⟩ :=
    laned.partition
  rw [inPrimary, inExplore, inDegraded, map_append, map_append,
    map_compileCandidate_accountID, map_compileCandidate_accountID,
    map_compileCandidate_accountID, ← map_append, ← map_append]
  exact permuted.map _

/-- Taking one candidate out of its lane and putting it in front only reorders the lane. -/
theorem cons_filter_perm {ordered : List CompiledCandidate} {c : CompiledCandidate}
    (distinct : (ordered.map (·.accountID)).Nodup) (member : c ∈ ordered) :
    (c :: ordered.filter fun b => b.accountID ≠ c.accountID).Perm ordered := by
  have once := List.Nodup.of_map _ distinct
  have front : (c :: ordered.filter fun b => b.accountID ≠ c.accountID).Nodup := by
    rw [nodup_cons]
    exact ⟨by simp, once.filter _⟩
  refine (perm_ext_iff_of_nodup front once).mpr fun b => ?_
  rw [mem_cons, mem_filter, decide_eq_true_eq]
  constructor
  · rintro (rfl | ⟨present, _⟩)
    · exact member
    · exact present
  · intro present
    by_cases same : b.accountID = c.accountID
    · exact .inl (inj_on_of_nodup_map distinct present member same)
    · exact .inr ⟨present, same⟩

section

variable (distinct : (plan.route.explore.ordered.map (·.accountID)).Nodup)
  (through : (plan.route.explore.fallback.filterMap (plan.route.explore.ordered[·]?)).Perm
    plan.route.explore.ordered)

include distinct through

/-- The sample and the fallback go through the explore lane once. -/
theorem SelectPlan.explore_perm :
    (plan.sampled.toList ++ plan.route.explore.fallback.filterMap plan.fallbackPick).Perm
      plan.route.explore.ordered := by
  have picks : plan.route.explore.fallback.filterMap plan.fallbackPick =
      (plan.route.explore.fallback.filterMap (plan.route.explore.ordered[·]?)).filter
        fun c => plan.sampled.map (·.accountID) ≠ some c.accountID := by
    rw [filter_filterMap]
    rfl
  rw [picks]
  apply ((through.filter _).append_left _).trans
  cases sample : plan.sampled with
  | none =>
    rw [filter_eq_self.mpr (by simp)]
    exact .refl _
  | some c =>
    have member : c ∈ plan.route.explore.ordered := by
      obtain ⟨idx, _, found⟩ := bind_eq_some_iff.mp sample
      exact mem_of_getElem? found
    have others : (plan.route.explore.ordered.filter fun b =>
        (some c).map (·.accountID) ≠ some b.accountID) =
        plan.route.explore.ordered.filter fun b => b.accountID ≠ c.accountID := by
      refine filter_congr fun b _ => ?_
      simp [eq_comm]
    rw [others]
    exact cons_filter_perm distinct member

theorem SelectPlan.laneOrder_perm :
    plan.laneOrder.Perm (plan.route.primary ++ plan.route.explore.ordered ++ plan.route.degraded) := by
  have explore := SelectPlan.explore_perm distinct through
  have lanes : (plan.route.primary ++ (plan.sampled.toList ++ plan.tail)).Perm
      (plan.route.primary ++ plan.route.explore.ordered ++ plan.route.degraded) := by
    rw [SelectPlan.tail, append_assoc, ← append_assoc plan.sampled.toList]
    exact (explore.append_right _).append_left _
  unfold SelectPlan.laneOrder
  split
  · refine List.Perm.trans ?_ lanes
    rw [← append_assoc, ← append_assoc]
    exact perm_append_comm.append_right _
  · exact lanes

end

/-- The order in which a session offers its candidates. Without an affinity it is the
order of the lanes; with one, those of the preferred domain come first and the others
after them, both in the order of the lanes. -/
def SelectPlan.virtualOrder (plan : SelectPlan) : List CompiledCandidate :=
  match plan.affinityHash with
  | none => plan.laneOrder
  | some _ =>
    (plan.laneOrder.filter fun c => plan.domainOf c.accountID = plan.preferredDom) ++
      plan.laneOrder.filter fun c => !decide (plan.domainOf c.accountID = plan.preferredDom)

theorem SelectPlan.upcoming_start (plan : SelectPlan) (tried : List Int) :
    plan.upcoming plan.preferredDom (plan.start 0 tried) = plan.virtualOrder := by
  unfold upcoming virtualOrder
  cases affinity : plan.affinityHash with
  | none =>
    have all : plan.laneOrder.filter (plan.wanted plan.preferredDom 0) = plan.laneOrder :=
      filter_eq_self.mpr fun c _ => by simp [wanted, affinity]
    rw [if_neg (by simp), if_neg (by simp), rest_start, append_nil]
    exact all
  | some hash =>
    rw [if_neg (by simp [start]), if_pos (by simp [start]), rest_start]
    congr 1
    · exact filter_congr fun c _ => by simp [wanted, affinity, start]
    · exact filter_congr fun c _ => by simp [wanted, affinity]

theorem SelectPlan.virtualOrder_perm : plan.virtualOrder.Perm plan.laneOrder := by
  unfold virtualOrder
  split
  · exact .refl _
  · exact filter_append_perm _ _

/-- An affinity is optional, and one that the ring has no domain for is not applied. -/
def SelectSession.arm (p : SelectSession) : Option UInt64 → SelectSession
  | none => p
  | some hash => p.applyCacheAffinity hash

/-- The plan of a request over the decision, with or without an affinity. -/
structure SelectPlan.Over (identity : AttemptPlanIdentity) (d : RouteDecision)
    (plan : SelectPlan) : Prop where
  route : plan.route = d
  armed : plan.Armed
  limit : plan.maxAttempts = normalizeMaxAttempts identity.maxAttempts
  total : plan.total = d.primary.length + d.explore.fallback.length + d.degraded.length +
    (if plan.sampleIdx.isSome then 1 else 0)

theorem SelectPlan.virtualOrder_length_le
    (planned : plan.Over identity d) : plan.virtualOrder.length ≤ plan.total := by
  have sample : plan.sampled.toList.length ≤ if plan.sampleIdx.isSome then 1 else 0 := by
    unfold sampled
    cases plan.sampleIdx with
    | none => exact le_rfl
    | some idx => exact length_toList_le
  have picks := length_filterMap_le plan.fallbackPick plan.route.explore.fallback
  have lanes : plan.laneOrder.length = plan.route.primary.length + plan.sampled.toList.length +
      (plan.route.explore.fallback.filterMap plan.fallbackPick).length +
      plan.route.degraded.length := by
    unfold laneOrder tail
    split <;> simp only [length_append] <;> omega
  rw [virtualOrder_perm.length_eq, lanes, planned.total, ← planned.route]
  omega

theorem newSelectSession_armed (affinity : Option UInt64)
    (made : newSelectSession identity d = .ok p) :
    (p.arm affinity).plan.Over identity d ∧
      (p.arm affinity).cursor = (p.arm affinity).plan.start 0 [] ∧
      (p.arm affinity).attempted = [] ∧ (p.arm affinity).ordinal = 0 := by
  unfold newSelectSession at made
  split at made <;> cases made
  cases affinity with
  | none => exact ⟨⟨rfl, nofun, rfl, rfl⟩, rfl, rfl, rfl⟩
  | some hash =>
    unfold arm applyCacheAffinity
    dsimp only
    split
    · exact ⟨⟨rfl, nofun, rfl, rfl⟩, rfl, rfl, rfl⟩
    rename_i dom found
    refine ⟨⟨rfl, ?_, rfl, rfl⟩, rfl, rfl, rfl⟩
    intro other same
    cases same
    exact isSome_iff_exists.mpr ⟨dom, found⟩

theorem SelectSession.walking_of_start {p : SelectSession}
    (planned : p.plan.Over identity d) (started : p.cursor = p.plan.start 0 [])
    (once : (p.plan.virtualOrder.map (·.accountID)).Nodup) : p.Walking := by
  have order := p.plan.upcoming_start []
  refine ⟨planned.armed, ⟨?_, ?_⟩, ?_, ?_⟩
  · rw [started, order]
    exact once
  · rw [started]
    exact fun c _ => not_mem_nil
  · rw [started]
    exact SelectPlan.budget_lt_turns 0 []
  · rw [upcoming, started, order]
    exact SelectPlan.virtualOrder_length_le planned

@[simp] theorem SelectPlan.projectCandidate_accountID (dg : Digests) (c : CompiledCandidate) :
    (plan.projectCandidate dg c).accountID = c.accountID := by
  unfold projectCandidate
  split <;> rfl

theorem normalizeMaxAttempts_bounds (n : Nat) :
    0 < normalizeMaxAttempts n ∧ normalizeMaxAttempts n ≤ 8 := by
  unfold normalizeMaxAttempts maxAttemptPlanAccounts
  split <;> omega

/-- A route with distinct accounts, none of them the sentinel, and not more cache domains
than a ring can hold compiles to a valid decision whose lanes partition the candidates,
and a session over it goes through them in order whatever the answers are. -/
theorem compiled_route_walked (dg : Digests) {F : Type} [Binary64 F]
    (filtered : List CompilerCandidateFacts) (rk : RouteKey) (routeRC : String)
    (quality : QualityMap F) (prices : PriceMap) (rr : RouteRef) (sess : RingInterner)
    (few : filtered.length ≤ 65535)
    (distinct : (filtered.map (·.accountID)).Nodup)
    (noSentinel : ∀ facts ∈ filtered, facts.accountID ≠ -1)
    (domains : (cacheDomainUnique (filtered.map cacheDomainOf)).length ≤ maxCacheDomains) :
    ∃ d sess', compileRouteDecision filtered rk routeRC quality prices rr sess = .ok (d, sess') ∧
      validateRouteDecision d = none ∧
      (∃ primary explore degraded : List CompilerCandidateFacts,
        (primary ++ explore ++ degraded).Perm filtered ∧
        d.primary = primary.map (compileCandidate .primary) ∧
        d.explore.ordered = explore.map (compileCandidate .explore) ∧
        d.degraded = degraded.map (compileCandidate .degraded)) ∧
      ∀ (identity : AttemptPlanIdentity) (affinity : Option UInt64) (calls : List SessionCall),
        ∃ p, newSelectSession identity d = .ok p ∧
          let plan := (p.arm affinity).plan
          let r := run dg (p.arm affinity) calls
          (r.offered.map (·.accountID)).Nodup ∧
          r.offered <+: plan.virtualOrder.map (plan.projectCandidate dg) ∧
          ((∀ call ∈ calls, call.Rejecting) → calls.any SessionCall.isReserve →
            (r.offered.map (·.accountID)).Perm (filtered.map (·.accountID))) ∧
          r.held.length ≤ normalizeMaxAttempts identity.maxAttempts ∧
          normalizeMaxAttempts identity.maxAttempts ≤ 8 ∧
          r.held.map (·.ordinal) = List.range' 1 r.held.length := by
  obtain ⟨d, sess', compiled, laned⟩ :=
    compileRouteDecision_laned rk routeRC quality prices rr sess few distinct noSentinel domains
  refine ⟨d, sess', compiled, laned.valid, laned.partition, ?_⟩
  intro identity affinity calls
  obtain ⟨p, created⟩ : ∃ p, newSelectSession identity d = .ok p :=
    ⟨_, by rw [newSelectSession, if_pos laned.validated]⟩
  obtain ⟨planned, started, unused⟩ := newSelectSession_armed affinity created
  refine ⟨p, created, ?_⟩
  generalize p.arm affinity = q at planned started unused ⊢
  -- the order is a permutation of the accounts of the route
  have exploreOnce : (q.plan.route.explore.ordered.map (·.accountID)).Nodup := by
    have once := laned.accounts.nodup_iff.mpr distinct
    rw [map_append, map_append, nodup_append, nodup_append] at once
    rw [planned.route]
    exact once.1.2.1
  have order : (q.plan.virtualOrder.map (·.accountID)).Perm (filtered.map (·.accountID)) := by
    apply (SelectPlan.virtualOrder_perm.map _).trans
    refine ((SelectPlan.laneOrder_perm exploreOnce ?_).map _).trans ?_
    · rw [planned.route]
      exact laned.fallback
    · rw [planned.route]
      exact laned.accounts
  have once := order.nodup_iff.mpr distinct
  have walking := walking_of_start planned started once
  have conforms := run_conforms dg walking unused calls
  obtain ⟨taken, split, offered⟩ := conforms.offered
  have whole : q.upcoming = q.plan.virtualOrder := by
    rw [upcoming, started, SelectPlan.upcoming_start]
  rw [whole] at split
  have accounts : (run dg q calls).offered.map (·.accountID) =
      taken.map (·.accountID) := by
    rw [offered, List.map_map]
    exact map_congr_left fun c _ => SelectPlan.projectCandidate_accountID dg c
  have count : (run dg q calls).held.length =
      (run dg q calls).session.ordinal := by
    simpa using congrArg List.length conforms.numbered
  refine ⟨?_, ?_, ?_, ?_, (normalizeMaxAttempts_bounds _).2, ?_⟩
  · rw [accounts]
    rw [split, map_append, nodup_append] at once
    exact once.1
  · rw [offered, split, map_append]
    exact prefix_append _ _
  · intro rejecting tried
    have limit : 0 < q.plan.maxAttempts := by
      rw [planned.limit]
      exact (normalizeMaxAttempts_bounds _).1
    have all := run_rejected dg walking unused limit rejecting tried
    rw [all, append_nil] at split
    rw [accounts, ← split]
    exact order
  · rw [count, ← planned.limit]
    exact conforms.bounded
  · rw [count]
    exact conforms.numbered

def plainCandidate (id : Int) : CompilerCandidateFacts :=
  let static : SnapshotStatic := ⟨{ id }, some { id := 1 }, [1]⟩
  { accountID := id
    templateID := 1
    baseURL := "https://upstream"
    fingerprint := "f"
    identityFingerprint := .fingerprint "f"
    revision := 1
    account := ⟨0, static, ⟨id, 0⟩⟩
    static
    planKey := planKeyOf static
    upstreamCostMultiplierBp := 10000
    requestedModel := "m"
    mappedModel := "m"
    quality := "q"
    qualityRaw := "q" }

def plainRoute : RouteRef := ⟨1, .openAIChat, "m", .chatCompletions, "r"⟩

def noDigests : Digests := ⟨fun _ _ _ _ => "", fun _ _ _ _ => "", fun _ => "", fun _ => none⟩

theorem compiled_route_walked_two :
    ([plainCandidate 1, plainCandidate 2].map (·.accountID)).Nodup ∧
      ∃ d sess p, compileRouteDecision (F := Float) [plainCandidate 1, plainCandidate 2]
          ⟨.openAIChat, "m"⟩ "r" ∅ ∅ plainRoute ∅ = .ok (d, sess) ∧
        validateRouteDecision d = none ∧ newSelectSession {} d = .ok p ∧
        ((run noDigests (p.arm (some 5))
          [.abandon, .reserve fun _ => false]).offered.map (·.accountID)).Perm [1, 2] := by
  refine ⟨by decide, ?_⟩
  obtain ⟨d, sess, compiled, valid, -, sessions⟩ :=
    compiled_route_walked (F := Float) noDigests [plainCandidate 1, plainCandidate 2]
      ⟨.openAIChat, "m"⟩ "r" ∅ ∅ plainRoute ∅ (by decide) (by decide) (by decide) (by decide)
  obtain ⟨p, created, -, -, all, -⟩ :=
    sessions {} (some 5) [.abandon, .reserve fun _ => false]
  refine ⟨d, sess, p, compiled, valid, created, all ?_ rfl⟩
  intro call member
  rw [mem_cons, mem_singleton] at member
  rcases member with rfl | rfl
  · exact True.intro
  · exact fun _ => rfl

def unsampled {F : Type} [Binary64 F] (id : Int) : QualityCandidate F :=
  ⟨id, 0, 0, Binary64.ofInt 0, Binary64.ofInt 0, 0, maxInt64⟩

theorem unsampled_classified {F : Type} [Binary64 F] (known : Map Int Bool) :
    classifyRouteCandidates [unsampled (F := F) (-1), unsampled 7] known =
      { explore := [unsampled (-1), unsampled 7] } := by
  have valid : ∀ id, validQualityCandidate (unsampled (F := F) id) =
      (finiteNonnegative (Binary64.ofInt 0 : F) && finiteNonnegative (Binary64.ofInt 0 : F)) :=
    fun _ => rfl
  have sorted : byAccountID [unsampled (F := F) (-1), unsampled 7] =
      [unsampled (-1), unsampled 7] := rfl
  -- whether zero counts as finite or not, both candidates go to exploration
  have explored : classifyQuality [unsampled (F := F) (-1), unsampled 7] =
        .ok { explore := [unsampled (-1), unsampled 7] } ∨
      classifyQuality [unsampled (F := F) (-1), unsampled 7] = .error .invalidQualityStats := by
    unfold classifyQuality gather gather
    rw [valid, valid]
    cases finiteNonnegative (Binary64.ofInt 0 : F)
    · exact .inr rfl
    · exact .inl rfl
  unfold classifyRouteCandidates
  dsimp only
  rw [sorted]
  rcases explored with ok | error
  · rw [ok]
    rfl
  · rw [error]
    rfl

def sentinelDecision : Except CompileError (RouteDecision × RingInterner) :=
  assembleRouteDecision [plainCandidate (-1), plainCandidate 7] ⟨.openAIChat, "m"⟩ plainRoute [] []
    [7] ⟨10000, exploreWeights [⟨-1, 5000⟩, ⟨7, 5000⟩],
      ⟨[⟨-1, 5000⟩, ⟨7, 5000⟩], [5000, 10000], 10000⟩⟩ ∅

theorem sentinel_compiled {F : Type} [Binary64 F] :
    compileRouteDecision (F := F) [plainCandidate (-1), plainCandidate 7] ⟨.openAIChat, "m"⟩ "r" ∅ ∅
      plainRoute ∅ = sentinelDecision := by
  unfold compileRouteDecision
  dsimp only
  have candidates : [plainCandidate (-1), plainCandidate 7].map
      (qualityCandidate (F := F) "r" ∅ ∅ ⟨.openAIChat, "m"⟩) =
      [(unsampled (-1), false), (unsampled 7, false)] := rfl
  have weights : exploreCandidates [unsampled (F := F) (-1), unsampled 7] =
      [⟨-1, 5000⟩, ⟨7, 5000⟩] := by
    simp [exploreCandidates, weightOf, exploreWeight, unsampled]
  have table : ExploreTable.build [⟨-1, 5000⟩, ⟨7, 5000⟩] =
      .ok ⟨[⟨-1, 5000⟩, ⟨7, 5000⟩], [5000, 10000], 10000⟩ := rfl
  have plan : compileExplorePlan [plainCandidate (-1), plainCandidate 7].length
      { explore := [unsampled (F := F) (-1), unsampled 7] } =
      ⟨10000, exploreWeights [⟨-1, 5000⟩, ⟨7, 5000⟩],
        ⟨[⟨-1, 5000⟩, ⟨7, 5000⟩], [5000, 10000], 10000⟩⟩ := by
    unfold compileExplorePlan
    rw [weights, table]
    rfl
  have fallback : compileFallbackIDs [unsampled (F := F) (-1), unsampled 7] [-1, 7] = [7] := rfl
  rw [candidates, map_cons, map_cons, map_nil, unsampled_classified, plan]
  exact congrArg (assembleRouteDecision _ _ _ _ _ · _ _) fallback

/-- The account whose number is the sentinel of the fallback is offered only when it is
drawn as the sample. -/
theorem sentinel_account_skipped :
    ∃ (filtered : List CompilerCandidateFacts) (d : RouteDecision) (sess : RingInterner)
      (p : SelectSession), filtered.length ≤ 65535 ∧ (filtered.map (·.accountID)).Nodup ∧
      (∀ (F : Type) [Binary64 F],
        compileRouteDecision (F := F) filtered ⟨.openAIChat, "m"⟩ "r" ∅ ∅ plainRoute ∅ =
          .ok (d, sess)) ∧
      newSelectSession { requestID := "c" } d = .ok p ∧
      ¬((run noDigests p [.reserve fun _ => false]).offered.map (·.accountID)).Perm
        (filtered.map (·.accountID)) := by
  have evaluated : (sentinelDecision.toOption.bind fun r =>
      (newSelectSession { requestID := "c" } r.1).toOption.map fun p =>
        (run noDigests p [.reserve fun _ => false]).offered.map (·.accountID)) =
      some [7] := by
    decide +kernel
  obtain ⟨⟨d, sess⟩, compiled, rest⟩ := bind_eq_some_iff.mp evaluated
  obtain ⟨p, created, offered⟩ := map_eq_some_iff.mp rest
  refine ⟨[plainCandidate (-1), plainCandidate 7], d, sess, p, by decide, by decide, ?_, ?_, ?_⟩
  · intro F _
    rw [sentinel_compiled]
    exact ok_of_toOption compiled
  · exact ok_of_toOption created
  · rw [offered]
    decide

end C3Api.Scheduler
