import C3Api.Scheduler.Decide

/-!
# The lanes of a compiled route

Classification, demotion and sorting only permute the candidates, so that the three
lanes together hold each of them once, and what is assembled from distinct accounts
passes validation.
-/

namespace C3Api.Scheduler

open FiniteMap Machine List ExplorePlan

variable {F : Type}

/-- Candidates of unknown cost move to the explore lane, and nothing else changes. -/
theorem demote_perm (known : Map Int Bool) (primary degraded explore : List (QualityCandidate F)) :
    (primary.filter (fun qc => !demoted known qc) ++ degraded.filter (fun qc => !demoted known qc) ++
      byAccountID (explore ++ primary.filter (demoted known) ++ degraded.filter (demoted known))).Perm
      (primary ++ degraded ++ explore) := by
  classical
  apply ((perm_insertionSort _ _).append_left _).trans
  rw [perm_iff_count]
  intro qc
  have inPrimary := (filter_append_perm (demoted known) primary).count_eq qc
  have inDegraded := (filter_append_perm (demoted known) degraded).count_eq qc
  simp only [count_append] at inPrimary inDegraded ⊢
  omega

theorem classifyRouteCandidates_perm [Binary64 F] (qcs : List (QualityCandidate F)) (known : Map Int Bool) :
    (classifyRouteCandidates qcs known).all.Perm qcs := by
  unfold classifyRouteCandidates QualityClassification.all
  have sorted : (byAccountID qcs).Perm qcs := perm_insertionSort _ _
  cases classified : classifyQuality (byAccountID qcs) with
  | ok cl =>
    simp only [classified]
    exact (demote_perm known _ _ _).trans ((classifyQuality_perm classified).trans sorted)
  | error e =>
    simp only [classified]
    refine (demote_perm known _ _ _).trans (List.Perm.trans ?_ sorted)
    exact perm_insertionSort _ _

variable {candidates : List ExploreCandidate}

section

theorem exploreWeight_bounds {successes attempts w : Int}
    (weighed : exploreWeight successes attempts = .ok w) : 100 ≤ w ∧ w ≤ 10000 := by
  unfold exploreWeight at weighed
  split at weighed
  · cases weighed
  rename_i counts
  simp only [not_or, not_lt] at counts
  -- the quotient stays below 10000, and rounding adds at most one
  have below : (successes + 1) * 10000 / (attempts + 2) < 10000 := by
    apply Int.ediv_lt_of_lt_mul (by omega)
    omega
  have result := Except.ok.inj weighed
  split at result <;> split at result <;> omega

theorem weightOf_bounds (qc : QualityCandidate F) : 100 ≤ weightOf qc ∧ weightOf qc ≤ 10000 := by
  unfold weightOf
  split
  next w weighed => exact exploreWeight_bounds weighed
  · decide

/-- The table of candidates with small weights does not overflow. -/
theorem accumulate_ok (total : Nat) (candidates : List ExploreCandidate)
    (small : ∀ c ∈ candidates, 0 ≤ c.weight ∧ c.weight ≤ 10000)
    (fits : total + 10000 * candidates.length < 18446744073709551616) :
    ∃ r, accumulate total candidates = .ok r := by
  induction candidates generalizing total with
  | nil => exact ⟨_, rfl⟩
  | cons c rest ih =>
    obtain ⟨nonneg, most⟩ := small c mem_cons_self
    rw [length_cons] at fits
    have next : total + c.weight.toNat + 10000 * rest.length < 18446744073709551616 := by omega
    obtain ⟨r, rest_ok⟩ :=
      ih _ (forall_mem_cons.mp small).2 next
    refine ⟨((total + c.weight.toNat) :: r.1, r.2), ?_⟩
    rw [accumulate, if_neg (by omega), if_neg (by omega), rest_ok]
    rfl

/-- What the table holds passes the loop of the validation. -/
theorem accumulate_validates {weights : Map Int Int}
    {ordered : List CompiledCandidate} {total i : Nat} {r : List Nat × Nat}
    (accumulated : accumulate total candidates = .ok r)
    (same : ordered.map (·.accountID) = candidates.map (·.accountID))
    (positive : ∀ c ∈ candidates, 0 < c.weight ∧ weights.lookup c.accountID = some c.weight) :
    r.1.length = ordered.length ∧ validateCumulative weights i total ordered r.1 = .ok r.2 ∧
      total ≤ r.2 ∧ (candidates ≠ [] → total < r.2) := by
  induction candidates generalizing total i ordered r with
  | nil =>
    cases Except.ok.inj accumulated
    cases map_eq_nil_iff.mp same
    exact ⟨rfl, rfl, le_rfl, fun nonempty => absurd rfl nonempty⟩
  | cons c rest ih =>
    obtain ⟨first, ordered, rfl, sameID, sameIDs⟩ := map_eq_cons_iff.mp same
    obtain ⟨weighty, found⟩ := positive c mem_cons_self
    unfold accumulate at accumulated
    split at accumulated
    · cases accumulated
    split at accumulated
    · cases accumulated
    obtain ⟨tail, rest_ok, rfl⟩ := map_ok accumulated
    obtain ⟨length, checks, grows, -⟩ := ih (i := i + 1) rest_ok sameIDs
      (forall_mem_cons.mp positive).2
    have increases : total < total + c.weight.toNat := by omega
    refine ⟨by simp [length], ?_, by omega, fun _ => by omega⟩
    rw [validateCumulative, sameID, found]
    simp only [if_neg (not_le.mpr weighty), if_neg (not_le.mpr increases)]
    rw [if_neg (by omega)]
    exact checks

variable {cl : QualityClassification F}

theorem exploreBP_le (eligible unknown primaryCount : Nat) :
    exploreBP eligible unknown primaryCount ≤ 10000 := by
  unfold exploreBP
  split <;> [skip; split <;> [skip; split]] <;> omega

/-- A checked table of small weights holds the candidates by account. -/
theorem build_ok (small : ∀ c ∈ candidates, 0 ≤ c.weight ∧ c.weight ≤ 10000)
    (few : candidates.length ≤ 65535) :
    ∃ table, ExploreTable.build candidates = .ok table ∧ table.candidates.Perm candidates ∧
      accumulate 0 table.candidates = .ok (table.cumulative, table.total) := by
  generalize ordering : candidates.insertionSort (fun left right =>
    compareInt64 left.accountID right.accountID ≤ 0) = sorted
  have permuted : sorted.Perm candidates := ordering ▸ perm_insertionSort _ _
  obtain ⟨r, accumulated⟩ := accumulate_ok 0 sorted
    (fun c member => small c (permuted.mem_iff.mp member)) (by rw [permuted.length_eq]; omega)
  refine ⟨⟨sorted, r.1, r.2⟩, ?_, permuted, accumulated⟩
  rw [ExploreTable.build, ordering]
  simp only [accumulated]
  rfl

theorem table_validates {table : ExploreTable}
    {ordered : List CompiledCandidate} {fallback : List Nat} {bp : Nat}
    (distinct : (candidates.map (·.accountID)).Nodup) (nonempty : candidates ≠ [])
    (positive : ∀ c ∈ candidates, 0 < c.weight) (share : bp ≤ 10000)
    (permuted : table.candidates.Perm candidates)
    (accumulated : accumulate 0 table.candidates = .ok (table.cumulative, table.total))
    (same : ordered.map (·.accountID) = table.candidates.map (·.accountID)) :
    validateExplore ⟨ordered, exploreWeights candidates, table.cumulative, table.total, fallback,
      bp⟩ = none := by
  have keys : ((candidates.map fun c => (c.accountID, c.weight)).map Prod.fst).Nodup := by
    rw [map_map]
    exact distinct
  have found : ∀ c ∈ table.candidates, 0 < c.weight ∧
      (exploreWeights candidates).lookup c.accountID = some c.weight := by
    intro c member
    rw [permuted.mem_iff] at member
    exact ⟨positive c member, lookup_insertAll_of_mem keys (mem_map.mpr ⟨c, member, rfl⟩)⟩
  obtain ⟨length, checks, -, grows⟩ := accumulate_validates (i := 0) accumulated same found
  have sameLength : ordered.length = candidates.length := by
    simpa [permuted.length_eq] using congrArg List.length same
  have total := grows fun none => nonempty (none ▸ permuted).nil_eq.symm
  rw [validateExplore, if_neg (not_lt.mpr share), if_neg, if_neg (not_not.mpr length)]
  · simp only [checks]
    rw [if_neg, if_neg (by omega)]
    rw [not_not, exploreWeights, length_keys_insertAll keys (fun k _ => AList.notMem_empty k),
      length_map, sameLength]
    exact Nat.zero_add _
  · rw [List.isEmpty_iff]
    rintro rfl
    exact nonempty (length_eq_zero_iff.mp sameLength.symm)

/-- The plan lists the accounts, and its table passes validation. -/
structure ExplorePlan.Ok (ids : List Int) (plan : ExplorePlan) : Prop where
  perm : plan.exploreIDs.Perm ids
  validates : ∀ (ordered : List CompiledCandidate) (fallback : List Nat),
    ordered.map (·.accountID) = plan.exploreIDs → (ordered = [] → fallback = []) →
    validateExplore ⟨ordered, plan.weights, plan.table.cumulative, plan.table.total, fallback,
      plan.exploreBP⟩ = none

theorem compileExplorePlan_ok (filteredCount : Nat)
    (distinct : (cl.explore.map (·.accountID)).Nodup) (few : cl.explore.length ≤ 65535) :
    (compileExplorePlan filteredCount cl).Ok (cl.explore.map (·.accountID)) := by
  have share := exploreBP_le filteredCount cl.explore.length cl.primary.length
  have ids : (exploreCandidates cl.explore).map (·.accountID) = cl.explore.map (·.accountID) := by
    rw [exploreCandidates, map_map]
    rfl
  have weighed : ∀ c ∈ exploreCandidates cl.explore, 100 ≤ c.weight ∧ c.weight ≤ 10000 :=
    forall_mem_map.mpr fun qc _ => weightOf_bounds qc
  by_cases none : cl.explore = []
  · have plain : (compileExplorePlan filteredCount cl).table = ⟨[], [], 0⟩ := by
      rw [compileExplorePlan, if_pos (List.isEmpty_iff.mpr none)]
    refine ⟨by rw [exploreIDs, plain, none]; exact .refl _, ?_⟩
    intro ordered fallback same empty
    rw [exploreIDs, plain] at same
    cases map_eq_nil_iff.mp same
    have shareless : ¬10000 < (compileExplorePlan filteredCount cl).exploreBP := not_lt.mpr share
    have weightless : (compileExplorePlan filteredCount cl).weights = ∅ := by
      rw [compileExplorePlan, none]
      rfl
    rw [plain, empty rfl, weightless]
    exact if_neg shareless
  · obtain ⟨table, built, permuted, accumulated⟩ := build_ok
      (fun c member => ⟨by have := weighed c member; omega, (weighed c member).2⟩)
      (by rw [exploreCandidates, length_map]; exact few)
    have checked : (compileExplorePlan filteredCount cl).table = table := by
      rw [compileExplorePlan, if_neg (mt List.isEmpty_iff.mp none), built]
    refine ⟨?_, ?_⟩
    · rw [exploreIDs, checked, ← ids]
      exact permuted.map _
    · intro ordered fallback same _
      rw [checked]
      refine table_validates (ids ▸ distinct) (mt map_eq_nil_iff.mp none)
        (fun c member => by have := weighed c member; omega) share permuted accumulated ?_
      rw [same, exploreIDs, checked]

/-- Without the sentinel among the accounts the fallbacks are all of them. -/
theorem compileFallbackIDs_perm {explore : List (QualityCandidate F)} {exploreIDs : List Int}
    (listed : exploreIDs.Perm (explore.map (·.accountID)))
    (noSentinel : ∀ qc ∈ explore, qc.accountID ≠ -1) :
    (compileFallbackIDs explore exploreIDs).Perm (explore.map (·.accountID)) := by
  unfold compileFallbackIDs
  split
  next none =>
    rw [isEmpty_iff.mp none]
    exact .refl _
  split
  next out tailed =>
    unfold fallbackTail at tailed
    split at tailed
    · cases tailed
    dsimp only at tailed
    split at tailed
    · cases tailed
    cases Except.ok.inj tailed
    apply ((perm_insertionSort _ _).map _).trans
    rw [filter_eq_self.mpr]
    · apply ((perm_insertionSort _ _).map _).trans
      rw [map_map]
      exact .refl _
    · intro c member
      rw [mem_insertionSort, mem_map] at member
      obtain ⟨qc, present, rfl⟩ := member
      exact decide_eq_true (noSentinel qc present)
  · exact listed

end

section

variable {filtered : List CompilerCandidateFacts} {ids : List Int}

def factsOf (filtered : List CompilerCandidateFacts) (ids : List Int) :
    List CompilerCandidateFacts :=
  ids.filterMap fun id => (factsByID filtered).lookup id

theorem compileLane_eq (lane : AttemptLane) :
    compileLane filtered lane ids = (factsOf filtered ids).map (compileCandidate lane) := by
  rw [factsOf, map_filterMap]
  rfl

section

variable (distinct : (filtered.map (·.accountID)).Nodup)

include distinct

theorem lookup_factsByID :
    ∀ facts ∈ filtered, (factsByID filtered).lookup facts.accountID = some facts := by
  intro facts member
  refine lookup_insertAll_of_mem ?_ (mem_map.mpr ⟨facts, member, rfl⟩)
  rw [map_map]
  exact distinct

theorem factsOf_own : factsOf filtered (filtered.map (·.accountID)) = filtered := by
  rw [factsOf, filterMap_map]
  exact (filterMap_congr (lookup_factsByID distinct)).trans filterMap_some

theorem factsOf_accountID (known : ∀ id ∈ ids, id ∈ filtered.map (·.accountID)) :
    (factsOf filtered ids).map (·.accountID) = ids := by
  rw [factsOf, map_filterMap]
  refine (filterMap_congr (g := some) fun id member => ?_).trans filterMap_some
  obtain ⟨facts, present, rfl⟩ := mem_map.mp (known id member)
  rw [lookup_factsByID distinct facts present]
  rfl

theorem factsOf_perm (permuted : ids.Perm (filtered.map (·.accountID))) :
    (factsOf filtered ids).Perm filtered := by
  have := permuted.filterMap fun id => (factsByID filtered).lookup id
  rwa [← factsOf, ← factsOf, factsOf_own distinct] at this

end

variable {ordered others lane : List CompiledCandidate} {fallbackIDs : List Int}

theorem containsCandidateID_iff {accountID : Int} :
    containsCandidateID lane accountID = true ↔ accountID ∈ lane.map (·.accountID) := by
  simp [containsCandidateID, mem_map]

theorem validateLane_eq_none (name : String)
    (distinct : ((others ++ lane).map (·.accountID)).Nodup) :
    validateLane name others lane = none := by
  rw [map_append, nodup_append] at distinct
  obtain ⟨-, own, apart⟩ := distinct
  rw [validateLane, findSome?_eq_none_iff]
  rintro ⟨c, i⟩ member
  obtain ⟨inside, at_i⟩ := mem_zipIdx' member
  rw [if_neg]
  rw [Bool.or_eq_true, containsCandidateID_iff, containsCandidateID_iff, not_or, at_i]
  constructor
  · intro elsewhere
    exact apart _ elsewhere _ (mem_map.mpr ⟨_, getElem_mem inside, rfl⟩) rfl
  · rw [map_take]
    intro earlier
    obtain ⟨j, before, same⟩ := getElem_of_mem earlier
    rw [length_take, length_map] at before
    rw [getElem_take] at same
    have bound : i < (lane.map (·.accountID)).length := by rwa [length_map]
    have own_i : (lane.map (·.accountID))[i] = lane[i].accountID := getElem_map _
    have := (List.Nodup.getElem_inj_iff own).mp (same.trans own_i.symm)
    omega

theorem fallbackPositions_accountID (distinct : (ordered.map (·.accountID)).Nodup)
    (known : ∀ id ∈ fallbackIDs, id ∈ ordered.map (·.accountID)) :
    (fallbackPositions ordered fallbackIDs).map (fun i => (ordered[i]?).map (·.accountID)) =
      fallbackIDs.map some := by
  rw [fallbackPositions, map_filterMap]
  refine (filterMap_congr fun id member => ?_).trans (congrFun filterMap_eq_map _)
  obtain ⟨i, inside, same⟩ := getElem_of_mem (known id member)
  rw [length_map] at inside
  rw [getElem_map] at same
  have entry : (id, i) ∈ ordered.zipIdx.map fun e => (e.1.accountID, e.2) := by
    refine mem_map.mpr ⟨(ordered[i], i), ?_, by rw [same]⟩
    rw [mem_zipIdx_iff_getElem?]
    exact getElem?_eq_getElem inside
  rw [orderedIndex, lookup_insertAll_of_mem ?_ entry]
  · simp [getElem?_eq_getElem inside, same]
  have keys : (ordered.zipIdx.map fun e => (e.1.accountID, e.2)).map Prod.fst =
      ordered.map (·.accountID) := by
    conv_rhs => rw [← zipIdx_map_fst 0 ordered, map_map]
    rw [map_map]
    rfl
  exact keys ▸ distinct

theorem fallbackPositions_ok (distinct : (ordered.map (·.accountID)).Nodup)
    (permuted : fallbackIDs.Perm (ordered.map (·.accountID))) :
    validateFallback ordered (fallbackPositions ordered fallbackIDs) = none ∧
      ((fallbackPositions ordered fallbackIDs).filterMap (ordered[·]?)).Perm ordered := by
  have accounts := fallbackPositions_accountID distinct fun id member => permuted.mem_iff.mp member
  generalize fallbackPositions ordered fallbackIDs = positions at accounts
  have once : positions.Nodup := by
    refine List.Nodup.of_map (fun i => (ordered[i]?).map (·.accountID)) ?_
    rw [accounts]
    exact (permuted.nodup_iff.mpr distinct).map (Option.some_injective _)
  have inside : ∀ i ∈ positions, i < ordered.length := by
    intro i member
    have : (ordered[i]?).map (·.accountID) ∈ fallbackIDs.map some :=
      accounts ▸ mem_map.mpr ⟨i, member, rfl⟩
    obtain ⟨id, _, same⟩ := mem_map.mp this
    by_contra outside
    rw [getElem?_eq_none (not_lt.mp outside)] at same
    cases same
  constructor
  · rw [validateFallback, findSome?_eq_none_iff]
    rintro ⟨i, j⟩ member
    obtain ⟨bound, at_j⟩ := mem_zipIdx' member
    rw [if_neg]
    rw [not_or, not_le, at_j]
    refine ⟨inside _ (getElem_mem bound), ?_⟩
    intro earlier
    obtain ⟨k, before, same⟩ := getElem_of_mem earlier
    rw [length_take] at before
    rw [getElem_take] at same
    have := (List.Nodup.getElem_inj_iff once).mp same
    omega
  · have ids : (positions.filterMap (ordered[·]?)).map (·.accountID) = fallbackIDs := by
      rw [map_filterMap]
      have := congrArg (filterMap id) accounts
      rw [filterMap_map, filterMap_map] at this
      exact this.trans filterMap_some
    have chosen : ∀ c ∈ positions.filterMap (ordered[·]?), c ∈ ordered := by
      intro c member
      obtain ⟨i, _, found⟩ := mem_filterMap.mp member
      exact mem_of_getElem? found
    have idPerm : ((positions.filterMap (ordered[·]?)).map (·.accountID)).Perm
        (ordered.map (·.accountID)) := ids.symm ▸ permuted
    have distinctChosen := List.Nodup.of_map _ (idPerm.nodup_iff.mpr distinct)
    apply (perm_ext_iff_of_nodup distinctChosen (List.Nodup.of_map _ distinct)).mpr
    intro c
    refine ⟨chosen c, fun member => ?_⟩
    obtain ⟨b, present, same⟩ :=
      mem_map.mp (idPerm.mem_iff.mpr (mem_map.mpr ⟨c, member, rfl⟩))
    exact inj_on_of_nodup_map distinct (chosen b present) member same ▸ present

theorem firstByID_eq_self {seen : List Int} (distinct : (filtered.map (·.accountID)).Nodup)
    (fresh : ∀ facts ∈ filtered, facts.accountID ∉ seen) : firstByID seen filtered = filtered := by
  induction filtered generalizing seen with
  | nil => rfl
  | cons facts rest ih =>
    rw [map_cons, nodup_cons] at distinct
    rw [firstByID, if_neg (fresh facts mem_cons_self), ih distinct.2 fun other member => ?_]
    rw [mem_cons, not_or]
    refine ⟨?_, fresh other (mem_cons_of_mem _ member)⟩
    intro same
    exact distinct.1 (mem_map.mpr ⟨other, member, same⟩)

end

variable [Binary64 F] {filtered : List CompilerCandidateFacts}

def cacheDomainOf (facts : CompilerCandidateFacts) : String :=
  cacheDomainForAccount facts.accountID facts.static.acc.cacheDomain

variable {exploreIDs fallbackIDs : List Int} {plan : ExplorePlan} (sess : RingInterner)

theorem compileCacheDomainPlan_cases (distinct : (filtered.map (·.accountID)).Nodup) :
    if (cacheDomainUnique (filtered.map cacheDomainOf)).length ≤ maxCacheDomains then
      ∃ r, compileCacheDomainPlan filtered sess = .ok r
    else compileCacheDomainPlan filtered sess = .error .cacheDomainRingCapExceeded := by
  unfold compileCacheDomainPlan
  rw [firstByID_eq_self distinct fun facts _ => not_mem_nil]
  dsimp only
  have same : (filtered.map fun facts => (⟨facts.accountID,
      cacheDomainForAccount facts.accountID facts.static.acc.cacheDomain⟩ :
        CacheDomainAccount)).map (·.domain) = filtered.map cacheDomainOf := by
    rw [map_map]
    rfl
  rw [same]
  cases interned : sess.intern (filtered.map cacheDomainOf) with
  | none => rw [if_neg (not_le.mpr (RingInterner.intern_eq_none.mp interned))]
  | some r =>
    have within : ¬maxCacheDomains < (cacheDomainUnique (filtered.map cacheDomainOf)).length := by
      intro above
      rw [RingInterner.intern_eq_none.mpr above] at interned
      cases interned
    rw [if_pos (not_lt.mp within)]
    exact ⟨_, rfl⟩

/-- Above the cap of the ring no route is compiled, whatever the lanes. -/
theorem compileRouteDecision_above_cap (rk : RouteKey) (routeRC : String) (quality : QualityMap F)
    (prices : PriceMap) (rr : RouteRef) (distinct : (filtered.map (·.accountID)).Nodup)
    (above : maxCacheDomains < (cacheDomainUnique (filtered.map cacheDomainOf)).length) :
    compileRouteDecision filtered rk routeRC quality prices rr sess =
      .error .cacheDomainRingCapExceeded := by
  have plan := compileCacheDomainPlan_cases sess distinct
  rw [if_neg (not_le.mpr above)] at plan
  unfold compileRouteDecision assembleRouteDecision
  dsimp only
  rw [plan]

/-- A decision whose lanes hold every candidate once. -/
structure RouteDecision.Laned (filtered : List CompilerCandidateFacts) (d : RouteDecision) :
    Prop where
  valid : validateRouteDecision d = none
  validated : d.validated = true
  partition : ∃ primary explore degraded : List CompilerCandidateFacts,
    (primary ++ explore ++ degraded).Perm filtered ∧
    d.primary = primary.map (compileCandidate .primary) ∧
    d.explore.ordered = explore.map (compileCandidate .explore) ∧
    d.degraded = degraded.map (compileCandidate .degraded)
  fallback : (d.explore.fallback.filterMap (d.explore.ordered[·]?)).Perm d.explore.ordered

theorem map_compileCandidate_accountID (lane : AttemptLane) (facts : List CompilerCandidateFacts) :
    (facts.map (compileCandidate lane)).map (·.accountID) = facts.map (·.accountID) := by
  rw [map_map]
  rfl

theorem assembled_valid (rk : RouteKey) (rr : RouteRef) (ring : CacheDomainRing String)
    (accounts : List CacheDomainAccount) {primary ordered degraded : List CompiledCandidate}
    (once : ((primary ++ ordered ++ degraded).map (·.accountID)).Nodup)
    (planned : plan.Ok exploreIDs) (listed : ordered.map (·.accountID) = plan.exploreIDs)
    (fallbacks : fallbackIDs.Perm exploreIDs) :
    validateRouteDecision (assembled rk rr primary ordered degraded fallbackIDs plan ring
      accounts) = none := by
  have primaryAndExplore : ((primary ++ ordered).map (·.accountID)).Nodup := by
    rw [map_append, nodup_append] at once
    exact once.1
  have primaryOnce : ((([] : List CompiledCandidate) ++ primary).map (·.accountID)).Nodup := by
    rw [map_append, nodup_append] at primaryAndExplore
    exact primaryAndExplore.1
  have exploreOnce : (ordered.map (·.accountID)).Nodup := by
    rw [map_append, nodup_append] at primaryAndExplore
    exact primaryAndExplore.2.1
  have through : fallbackIDs.Perm (ordered.map (·.accountID)) :=
    listed ▸ fallbacks.trans planned.perm.symm
  have exploreValid := planned.validates ordered (fallbackPositions ordered fallbackIDs) listed (by
    rintro rfl
    rw [through.eq_nil]
    rfl)
  unfold validateRouteDecision assembled
  simp only [validateLane_eq_none _ primaryOnce, validateLane_eq_none _ primaryAndExplore,
    validateLane_eq_none _ once, (fallbackPositions_ok exploreOnce through).1, exploreValid]
  rfl

theorem assembleRouteDecision_laned {rk : RouteKey} {rr : RouteRef}
    {primaryIDs degradedIDs : List Int} (few : filtered.length ≤ 65535)
    (distinct : (filtered.map (·.accountID)).Nodup)
    (domains : (cacheDomainUnique (filtered.map cacheDomainOf)).length ≤ maxCacheDomains)
    (permuted : (primaryIDs ++ exploreIDs ++ degradedIDs).Perm (filtered.map (·.accountID)))
    (planned : plan.Ok exploreIDs) (fallbacks : fallbackIDs.Perm exploreIDs) :
    ∃ d sess', assembleRouteDecision filtered rk rr primaryIDs degradedIDs fallbackIDs plan sess =
      .ok (d, sess') ∧ d.Laned filtered := by
  have domainPlan := compileCacheDomainPlan_cases sess distinct
  rw [if_pos domains] at domainPlan
  obtain ⟨⟨ring, accounts, sess'⟩, planOk⟩ := domainPlan
  have lanes : (primaryIDs ++ plan.exploreIDs ++ degradedIDs).Perm (filtered.map (·.accountID)) :=
    ((planned.perm.append_left primaryIDs).append_right degradedIDs).trans permuted
  have compiled : ∀ (lane : AttemptLane) (ids : List Int),
      (∀ id ∈ ids, id ∈ primaryIDs ++ plan.exploreIDs ++ degradedIDs) →
      (compileLane filtered lane ids).map (·.accountID) = ids := by
    intro lane ids member
    rw [compileLane_eq, map_compileCandidate_accountID]
    exact factsOf_accountID distinct fun id listed => lanes.mem_iff.mp (member id listed)
  have primaryAccounts := compiled .primary primaryIDs fun id member => by simp [member]
  have exploreAccounts := compiled .explore plan.exploreIDs fun id member => by simp [member]
  have degradedAccounts := compiled .degraded degradedIDs fun id member => by simp [member]
  have once : ((compileLane filtered .primary primaryIDs ++
      compileLane filtered .explore plan.exploreIDs ++
      compileLane filtered .degraded degradedIDs).map (·.accountID)).Nodup := by
    rw [map_append, map_append, primaryAccounts, exploreAccounts, degradedAccounts]
    exact lanes.nodup_iff.mpr distinct
  have valid := assembled_valid rk rr ring accounts once planned exploreAccounts fallbacks
  have count : (compileLane filtered .explore plan.exploreIDs).length ≤ 65535 := by
    have total := lanes.length_eq
    have own := congrArg length exploreAccounts
    simp only [length_append, length_map] at total own
    omega
  rw [assembleRouteDecision, planOk]
  simp only [if_neg (not_lt.mpr count), valid]
  refine ⟨_, _, rfl, valid, rfl, ?_, ?_⟩
  · refine ⟨factsOf filtered primaryIDs, factsOf filtered plan.exploreIDs,
      factsOf filtered degradedIDs, ?_, compileLane_eq _, compileLane_eq _, compileLane_eq _⟩
    have permutedFacts := factsOf_perm distinct lanes
    rwa [factsOf, filterMap_append, filterMap_append] at permutedFacts
  · have through := fallbacks.trans planned.perm.symm
    rw [← exploreAccounts] at through
    rw [map_append, map_append, nodup_append, nodup_append] at once
    exact (fallbackPositions_ok once.1.2.1 through).2

/-- The compilation of a route yields a valid decision that holds every candidate once. -/
theorem compileRouteDecision_laned (rk : RouteKey) (routeRC : String) (quality : QualityMap F)
    (prices : PriceMap) (rr : RouteRef) (sess : RingInterner) (few : filtered.length ≤ 65535)
    (distinct : (filtered.map (·.accountID)).Nodup)
    (noSentinel : ∀ facts ∈ filtered, facts.accountID ≠ -1)
    (domains : (cacheDomainUnique (filtered.map cacheDomainOf)).length ≤ maxCacheDomains) :
    ∃ d sess', compileRouteDecision filtered rk routeRC quality prices rr sess = .ok (d, sess') ∧
      d.Laned filtered := by
  unfold compileRouteDecision
  dsimp only
  generalize candidates : filtered.map (qualityCandidate routeRC quality prices rk) = qcs
  have ids : (qcs.map Prod.fst).map (·.accountID) = filtered.map (·.accountID) := by
    rw [← candidates, map_map, map_map]
    refine map_congr_left fun facts _ => ?_
    simp only [Function.comp_apply, qualityCandidate]
    split
    · rfl
    · split <;> rfl
  have permuted := (classifyRouteCandidates_perm (qcs.map Prod.fst) (costKnown qcs)).map
    (·.accountID)
  generalize classifyRouteCandidates (qcs.map Prod.fst) (costKnown qcs) = cl at permuted ⊢
  rw [ids, QualityClassification.all] at permuted
  simp only [map_append] at permuted
  have once := permuted.nodup_iff.mpr distinct
  have exploreOnce := (nodup_append.mp once).2.1
  have exploreFew : cl.explore.length ≤ 65535 := by
    have := permuted.length_eq
    simp only [length_append, length_map] at this
    omega
  have planned := compileExplorePlan_ok filtered.length exploreOnce exploreFew
  refine assembleRouteDecision_laned sess few distinct domains ?_ planned
    (compileFallbackIDs_perm planned.perm ?_)
  · refine List.Perm.trans ?_ permuted
    rw [append_assoc, append_assoc]
    exact perm_append_comm.append_left _
  · intro qc member sentinel
    have : qc.accountID ∈ filtered.map (·.accountID) :=
      permuted.mem_iff.mp (mem_append_right _ (mem_map.mpr ⟨qc, member, rfl⟩))
    obtain ⟨facts, present, same⟩ := mem_map.mp this
    exact noSentinel facts present (same.trans sentinel)

end C3Api.Scheduler
