import C3Api.Scheduler.Lanes
import C3Api.Scheduler.Session

/-!
# The order of a walk

What a cursor still has to offer is a list, and every turn of the walk keeps it or takes
its head off. A whole session therefore offers a part of the list it starts with.
-/

namespace C3Api.Scheduler

open List Option

namespace SelectPlan

variable {plan : SelectPlan} {dom : String} {k k' : Cursor} {c : CompiledCandidate}

/-- The fallback and the degraded lane, which end every sweep. -/
def tail (plan : SelectPlan) : List CompiledCandidate :=
  plan.route.explore.fallback.filterMap plan.fallbackPick ++ plan.route.degraded

/-- What a sweep has left, whatever the domains of the candidates. -/
def rest (plan : SelectPlan) (k : Cursor) : List CompiledCandidate :=
  match k.walkSeg with
  | .primary =>
    plan.route.primary.drop k.walkPos ++
      ((if plan.exploreFirst then [] else plan.sampled.toList) ++ plan.tail)
  | .sample =>
    plan.sampled.toList ++
      ((if plan.exploreFirst && !k.primaryServed then plan.route.primary else []) ++ plan.tail)
  | .fallback =>
    (plan.route.explore.fallback.drop k.walkPos).filterMap plan.fallbackPick ++
      plan.route.degraded
  | .degraded => plan.route.degraded.drop k.walkPos
  | .done => []

/-- The lanes in the order of a sweep. -/
def laneOrder (plan : SelectPlan) : List CompiledCandidate :=
  if plan.exploreFirst then plan.sampled.toList ++ (plan.route.primary ++ plan.tail)
  else plan.route.primary ++ (plan.sampled.toList ++ plan.tail)

variable (phase : Nat) (tried : List Int)

@[simp] theorem rest_start : plan.rest (plan.start phase tried) = plan.laneOrder := by
  unfold rest start laneOrder
  cases plan.exploreFirst <;> rfl

def left (plan : SelectPlan) (k : Cursor) : Nat :=
  let fallback := plan.route.explore.fallback.length + plan.route.degraded.length + 2
  match k.walkSeg with
  | .primary => plan.route.primary.length - k.walkPos + 2 + fallback
  | .sample =>
    1 + (if plan.exploreFirst && !k.primaryServed then plan.route.primary.length + 2 else 0) +
      fallback
  | .fallback =>
    plan.route.explore.fallback.length - k.walkPos + plan.route.degraded.length + 2
  | .degraded => plan.route.degraded.length - k.walkPos + 1
  | .done => 0

/-- Each `switch` takes at most the head off, and a turn. -/
theorem advance_spec (plan : SelectPlan) (unfinished : k.walkSeg ≠ .done) :
    plan.rest k = (plan.advance k).1.toList ++ plan.rest (plan.advance k).2 ∧
      plan.left (plan.advance k).2 < plan.left k ∧
      (plan.advance k).2.affinPhase = k.affinPhase ∧ (plan.advance k).2.tried = k.tried := by
  rcases k with ⟨seg, pos, served, phase, tried⟩
  cases seg with
  | primary =>
    by_cases inside : pos < plan.route.primary.length
    · have head := drop_eq_getElem_cons inside
      refine ⟨?_, ?_, ?_⟩
      · simp only [advance, rest, candidateAt, inside, head, if_true, List.getElem?_eq_getElem]
        rfl
      · simp [advance, left, candidateAt, inside]
        omega
      · simp [advance, candidateAt, inside]
    · have gone := drop_eq_nil_of_le (not_lt.mp inside)
      cases first : plan.exploreFirst <;>
        simp [advance, rest, left, afterPrimary, tail, inside, first, gone]
  | sample =>
    cases first : plan.exploreFirst <;> cases served <;>
      simp [advance, rest, left, candidateAt, tail, first]
  | fallback =>
    by_cases inside : pos < plan.route.explore.fallback.length
    · have head := drop_eq_getElem_cons inside
      refine ⟨?_, ?_, ?_⟩
      · cases pick : plan.fallbackPick (plan.route.explore.fallback[pos]) <;>
          simp only [advance, rest, candidateAt, inside, head, if_true,
            List.getElem?_eq_getElem, bind_some, filterMap_cons, pick] <;> rfl
      · simp [advance, left, inside]
        omega
      · simp [advance, inside]
    · have gone := drop_eq_nil_of_le (not_lt.mp inside)
      refine ⟨?_, ?_, ?_⟩
      · simp [advance, rest, inside, gone]
      · simp only [advance, left, inside, if_false]
        omega
      · simp [advance, inside]
  | degraded =>
    by_cases inside : pos < plan.route.degraded.length
    · simp [advance, rest, left, candidateAt, inside]
      omega
    · have gone := drop_eq_nil_of_le (not_lt.mp inside)
      simp [advance, rest, left, inside, gone]
  | done => exact absurd rfl unfinished

/-- All that the walk still offers: the rest of this sweep, and a second sweep after the
first of two. -/
def upcoming (plan : SelectPlan) (dom : String) (k : Cursor) : List CompiledCandidate :=
  if plan.affinityHash.isSome ∧ 1 < k.affinPhase then []
  else
    (plan.rest k).filter (plan.wanted dom k.affinPhase) ++
      (if plan.affinityHash.isSome ∧ k.affinPhase = 0 then
        plan.laneOrder.filter (plan.wanted dom 1) else [])

/-- Turns that are left, those of a second sweep included. -/
def budget (plan : SelectPlan) (k : Cursor) : Nat :=
  plan.left k + (if plan.affinityHash.isSome ∧ k.affinPhase = 0 then
    plan.left (plan.start 1 []) + 1 else 0)

theorem left_start : plan.left (plan.start phase tried) = plan.left (plan.start 1 []) := rfl

theorem budget_lt_turns : plan.budget (plan.start phase tried) < plan.turns := by
  have bound : plan.left (plan.start 1 []) ≤ plan.route.primary.length +
      plan.route.explore.fallback.length + plan.route.degraded.length + 5 := by
    unfold left start
    cases plan.exploreFirst <;> simp <;> omega
  unfold budget turns
  rw [left_start]
  split <;> omega

/-- No candidate comes up twice or has been offered before. -/
structure Ready (plan : SelectPlan) (dom : String) (k : Cursor) : Prop where
  once : ((plan.upcoming dom k).map (·.accountID)).Nodup
  fresh : ∀ c ∈ plan.upcoming dom k, c.accountID ∉ k.tried

inductive TurnSpec (plan : SelectPlan) (dom : String) (k : Cursor) : Turn → Prop where
  | exhausted (k' : Cursor) : plan.upcoming dom k = [] → plan.upcoming dom k' = [] →
      plan.budget k' ≤ plan.budget k → TurnSpec plan dom k (.exhausted k')
  | again (k' : Cursor) : plan.upcoming dom k = plan.upcoming dom k' → k'.tried = k.tried →
      plan.budget k' < plan.budget k → TurnSpec plan dom k (.again k')
  | yield (c : CompiledCandidate) (k' : Cursor) :
      plan.upcoming dom k = c :: plan.upcoming dom k' →
      (∀ id ∈ k'.tried, id ∈ k.tried ∨ id = c.accountID) → plan.budget k' < plan.budget k →
      TurnSpec plan dom k (.yield c k')

/-- The candidate that the `switch` reaches heads the list when the phase wants it. -/
theorem upcoming_advance (plan : SelectPlan) (dom : String) (unfinished : k.walkSeg ≠ .done)
    (sweeping : ¬(plan.affinityHash.isSome ∧ 1 < k.affinPhase)) :
    plan.upcoming dom k = (plan.advance k).1.toList.filter (plan.wanted dom k.affinPhase) ++
        plan.upcoming dom (plan.advance k).2 := by
  obtain ⟨taken, -, phase, -⟩ := plan.advance_spec unfinished
  rw [upcoming, if_neg sweeping, taken, filter_append, upcoming, phase, if_neg sweeping,
    append_assoc]

theorem budget_advance (plan : SelectPlan) (unfinished : k.walkSeg ≠ .done) :
    plan.budget (plan.advance k).2 < plan.budget k := by
  obtain ⟨-, fewer, phase, -⟩ := plan.advance_spec unfinished
  rw [budget, budget, phase]
  omega

theorem budget_restart (finished : k.walkSeg = .done) (armed : plan.affinityHash.isSome)
    (phase : k.affinPhase = 0) :
    plan.budget (plan.start (k.affinPhase + 1) k.tried) < plan.budget k := by
  have sweep : plan.budget k = plan.left (plan.start 1 []) + 1 := by
    rw [budget, if_pos ⟨armed, phase⟩, left, finished]
    simp
  rw [sweep, budget, if_neg (by simp [start]), left_start]
  omega

/-- A turn that goes on or yields leaves fewer than so many turns. -/
def Turn.Lowers (plan : SelectPlan) (n : Nat) : Turn → Prop
  | .exhausted _ => True
  | .again k => plan.budget k < n
  | .yield _ k => plan.budget k < n

theorem turn_lowers (plan : SelectPlan) (dom : String) (k : Cursor) :
    (plan.turn dom k).Lowers plan (plan.budget k) := by
  unfold turn
  split
  · trivial
  split
  next finished =>
    split
    next armed =>
      split
      · trivial
      · exact budget_restart finished armed (by omega)
    · trivial
  next unfinished =>
    have fewer := plan.budget_advance unfinished
    split
    next k' reached =>
      rw [reached] at fewer
      exact fewer
    next c k' reached =>
      rw [reached] at fewer
      unfold consider
      split
      · exact fewer
      split
      · exact fewer
      · split <;> exact fewer

/-- The turn that yields, and the cursor it starts from. -/
theorem loop_yield {fuel : Nat} (found : plan.loop dom fuel k = (some c, k')) :
    ∃ k₁, plan.turn dom k₁ = .yield c k' ∧ plan.budget k₁ ≤ plan.budget k := by
  induction fuel generalizing k with
  | zero => cases found
  | succ fuel ih =>
    unfold loop at found
    split at found
    · cases found
    next taken =>
      obtain ⟨k₁, yielded, later⟩ := ih found
      have lowers := plan.turn_lowers dom k
      rw [taken] at lowers
      exact ⟨k₁, yielded, later.trans (Nat.le_of_lt lowers)⟩
    next taken =>
      cases found
      exact ⟨k, taken, le_rfl⟩

theorem next_yield (found : plan.next k = (some c, k')) :
    ∃ dom k₁, plan.turn dom k₁ = .yield c k' ∧ plan.budget k₁ ≤ plan.budget k := by
  unfold next at found
  split at found
  · exact ⟨_, loop_yield found⟩
  split at found
  · cases found
  · exact ⟨_, loop_yield found⟩

theorem next_fewer (found : plan.next k = (some c, k')) : plan.budget k' < plan.budget k := by
  obtain ⟨dom, k₁, yielded, later⟩ := next_yield found
  have lowers := plan.turn_lowers dom k₁
  rw [yielded] at lowers
  exact Nat.lt_of_lt_of_le lowers later

theorem consider_spec (unfinished : k.walkSeg ≠ .done)
    (sweeping : ¬(plan.affinityHash.isSome ∧ 1 < k.affinPhase)) (ready : plan.Ready dom k)
    (reached : plan.advance k = (some c, k')) : plan.TurnSpec dom k (plan.consider dom c k') := by
  have upcoming := plan.upcoming_advance dom unfinished sweeping
  have fewer := plan.budget_advance unfinished
  obtain ⟨-, -, phase, tried⟩ := plan.advance_spec unfinished
  rw [reached] at upcoming fewer phase tried
  rw [toList_some, filter_singleton, ← phase] at upcoming
  unfold consider
  cases wants : plan.wanted dom k'.affinPhase c with
  | false =>
    rw [wants] at upcoming
    exact .again _ upcoming tried fewer
  | true =>
    rw [wants] at upcoming
    have untried : c.accountID ∉ k'.tried :=
      tried ▸ ready.fresh c (upcoming ▸ mem_append_left _ mem_cons_self)
    rw [if_neg (by simp), if_neg (by simpa using untried)]
    split
    · refine .yield c _ upcoming ?_ fewer
      intro id member
      rcases mem_append.mp member with before | now
      · exact .inl (tried ▸ before)
      · exact .inr (mem_singleton.mp now)
    · exact .yield c _ upcoming (fun id member => .inl (tried ▸ member)) fewer

theorem turn_spec (ready : plan.Ready dom k) : plan.TurnSpec dom k (plan.turn dom k) := by
  unfold turn
  split
  next past =>
    have none : plan.upcoming dom k = [] := if_pos (by simpa using past)
    exact .exhausted k none none le_rfl
  rename_i sweeping
  have sweeping : ¬(plan.affinityHash.isSome ∧ 1 < k.affinPhase) := by simpa using sweeping
  split
  next finished =>
    have nothing : plan.rest k = [] := by rw [rest, finished]
    split
    next armed =>
      split
      next last =>
        refine .exhausted _ ?_ (if_pos ⟨armed, last⟩) ?_
        · rw [upcoming, if_neg sweeping, nothing, if_neg (by omega)]
          rfl
        · rw [budget, if_neg (by simp)]
          exact Nat.le_add_right _ _
      next first =>
        have phase : k.affinPhase = 0 := by omega
        refine .again _ ?_ rfl ?_
        · rw [upcoming, if_neg sweeping, nothing, if_pos ⟨armed, phase⟩, upcoming, rest_start]
          simp [start, phase]
        · exact budget_restart finished armed phase
    next unarmed =>
      have none : plan.upcoming dom k = [] := by
        rw [upcoming, if_neg sweeping, nothing, if_neg fun both => unarmed both.1]
        rfl
      exact .exhausted k none none le_rfl
  next unfinished =>
    split
    next k' reached =>
      have upcoming := plan.upcoming_advance dom unfinished sweeping
      have fewer := plan.budget_advance unfinished
      obtain ⟨-, -, -, tried⟩ := plan.advance_spec unfinished
      rw [reached] at upcoming fewer tried
      exact .again k' upcoming tried fewer
    next c k' reached => exact consider_spec unfinished sweeping ready reached

inductive NextSpec (plan : SelectPlan) (dom : String) (k : Cursor) :
    Option CompiledCandidate × Cursor → Prop where
  | exhausted (k' : Cursor) : plan.upcoming dom k = [] → plan.upcoming dom k' = [] →
      plan.budget k' ≤ plan.budget k → NextSpec plan dom k (none, k')
  | yield (c : CompiledCandidate) (k' : Cursor) :
      plan.upcoming dom k = c :: plan.upcoming dom k' → plan.Ready dom k' →
      plan.budget k' < plan.budget k → NextSpec plan dom k (some c, k')

theorem NextSpec.of_again {r : Option CompiledCandidate × Cursor}
    (same : plan.upcoming dom k = plan.upcoming dom k') (fewer : plan.budget k' < plan.budget k)
    (spec : plan.NextSpec dom k' r) : plan.NextSpec dom k r := by
  cases spec with
  | exhausted k'' here after later =>
    exact .exhausted k'' (same.trans here) after (later.trans fewer.le)
  | yield c k'' here ready later => exact .yield c k'' (same.trans here) ready (later.trans fewer)

theorem loop_spec {fuel : Nat} (ready : plan.Ready dom k) (enough : plan.budget k < fuel) :
    plan.NextSpec dom k (plan.loop dom fuel k) := by
  -- induction on the bound, which every turn that goes on lowers
  induction fuel generalizing k with
  | zero => omega
  | succ fuel ih =>
    have spec := turn_spec ready
    unfold loop
    cases taken : plan.turn dom k with
    | exhausted k' =>
      rw [taken] at spec
      cases spec with
      | exhausted _ here after fewer => exact .exhausted k' here after fewer
    | again k' =>
      rw [taken] at spec
      cases spec with
      | again _ same tried fewer =>
        have ready' : plan.Ready dom k' := by
          refine ⟨same ▸ ready.once, ?_⟩
          rw [tried, ← same]
          exact ready.fresh
        exact (ih ready' (by omega)).of_again same fewer
    | yield c k' =>
      rw [taken] at spec
      cases spec with
      | yield _ _ here tried fewer =>
        have once := ready.once
        rw [here, map_cons, nodup_cons] at once
        refine .yield c k' here ⟨once.2, ?_⟩ fewer
        intro d member offered
        rcases tried d.accountID offered with before | now
        · exact ready.fresh d (here ▸ mem_cons_of_mem _ member) before
        · exact once.1 (now ▸ mem_map.mpr ⟨d, member, rfl⟩)

def preferredDom (plan : SelectPlan) : String :=
  (plan.affinityHash.bind plan.route.cacheDomainRing.lookup).getD ""

/-- An affinity is set only when the ring has a domain for it. -/
def Armed (plan : SelectPlan) : Prop :=
  ∀ hash, plan.affinityHash = some hash → (plan.route.cacheDomainRing.lookup hash).isSome

theorem next_spec (armed : plan.Armed) (ready : plan.Ready plan.preferredDom k)
    (enough : plan.budget k < plan.turns) : plan.NextSpec plan.preferredDom k (plan.next k) := by
  have spec := loop_spec ready enough
  unfold next
  cases affinity : plan.affinityHash with
  | none =>
    have plain : plan.preferredDom = "" := by rw [preferredDom, affinity]; rfl
    rwa [plain] at spec ⊢
  | some hash =>
    obtain ⟨dom, found⟩ := isSome_iff_exists.mp (armed hash affinity)
    have looked : plan.preferredDom = dom := by rw [preferredDom, affinity, bind_some, found]; rfl
    dsimp only
    rw [found]
    rwa [looked] at spec ⊢

end SelectPlan

end C3Api.Scheduler
