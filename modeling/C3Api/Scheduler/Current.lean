import C3Api.Scheduler.Selection

/-!
# The current attempt

A session does not keep the attempts it returns. `CurrentAttempt` builds the last one anew, from
the history and from the place of the candidate that `next` yielded last.
-/

namespace C3Api.Scheduler

open List SelectSession SelectPlan

variable {dg : Digests} {p : SelectSession} {last : WalkSeg × Nat} {k k' : Cursor}
variable {c : CompiledCandidate}

namespace SelectPlan

variable {plan : SelectPlan} {dom : String}

/-- The segment and the position that `next` records with a candidate. The cursor is then one past
them, or at the start of a lane behind the sample. -/
def place (plan : SelectPlan) (k : Cursor) : WalkSeg × Nat :=
  if k.walkPos = 0 then (.sample, plan.sampleIdx.getD 0) else (k.walkSeg, k.walkPos - 1)

theorem advance_place (reached : plan.advance k = (some c, k')) :
    plan.candidateAt (plan.place k').1 (plan.place k').2 = some c := by
  rcases k with ⟨seg, pos, served, phase, tried⟩
  cases seg <;> simp only [advance] at reached
  case primary | degraded =>
    split at reached
    · split at reached <;> cases reached
      assumption
    · cases reached
  case sample =>
    obtain ⟨found, rfl⟩ := Prod.mk.inj reached
    exact found
  case fallback =>
    split at reached
    · obtain ⟨found, rfl⟩ := Prod.mk.inj reached
      exact found
    · cases reached
  case done => cases reached

theorem turn_place (taken : plan.turn dom k = .yield c k') :
    plan.candidateAt (plan.place k').1 (plan.place k').2 = some c := by
  unfold turn at taken
  split at taken
  · cases taken
  split at taken
  · repeat' split at taken
    all_goals cases taken
  split at taken
  · cases taken
  next reached =>
    have found := advance_place reached
    unfold consider at taken
    repeat' split at taken
    all_goals cases taken
    all_goals exact found

theorem next_place (found : plan.next k = (some c, k')) :
    plan.candidateAt (plan.place k').1 (plan.place k').2 = some c := by
  obtain ⟨dom, k₁, yielded, -⟩ := next_yield found
  exact turn_place yielded

end SelectPlan

namespace SelectSession

/-- `lastSeg` and `lastPos` after the loop of `reserve`: each candidate that `next` yields leaves
its place there, whatever the predicate answers. -/
def lastLoop : Nat → (Nat → Bool) → SelectSession → WalkSeg × Nat → WalkSeg × Nat
  | 0, _, _, last => last
  | fuel + 1, answers, p, last =>
    match p.plan.next p.cursor with
    | (none, _) => last
    | (some _, k) =>
      if answers 0 then p.plan.place k
      else lastLoop fuel (fun i => answers (i + 1)) { p with cursor := k } (p.plan.place k)

def lastAfter (answers : Nat → Bool) (p : SelectSession) (last : WalkSeg × Nat) : WalkSeg × Nat :=
  if p.plan.total = 0 then last
  else if p.plan.maxAttempts ≤ p.ordinal then last
  else p.lastLoop (p.plan.total + 1) answers last

/-- Nothing without a reservation, and an empty attempt when none is current. -/
def currentAttempt (dg : Digests) (p : SelectSession) (last : WalkSeg × Nat) (lastValid : Bool) :
    Option (Option Attempt) :=
  p.attempted.getLast?.map fun top =>
    if lastValid then
      (p.plan.candidateAt last.1 last.2).map fun c =>
        p.plan.buildAttempt (p.plan.projectCandidate dg c) p.ordinal top.2
          p.attempted.dropLast.getLast?
    else none

theorem currentAttempt_account {lastValid : Bool} {a : Attempt}
    (current : p.currentAttempt dg last lastValid = some (some a))
    (here : p.plan.candidateAt last.1 last.2 = some c) : a.accountID = c.accountID := by
  obtain ⟨top, -, built⟩ := Option.map_eq_some_iff.mp current
  split at built
  · rw [here] at built
    cases built
    exact projectCandidate_accountID ..
  · cases built

end SelectSession

/-- How a call of `reserve` leaves the session, and the place it comes to: that of the candidate
it offered last. -/
structure Reserved.Locates (dg : Digests) (p : SelectSession) (last now : WalkSeg × Nat)
    (r : Reserved) : Prop where
  place : (r.offered = [] ∧ now = last) ∨ ∃ c, p.plan.candidateAt now.1 now.2 = some c ∧
    r.offered.getLast? = some (p.plan.projectCandidate dg c)
  result : match r.result with
    | .ok a => r.offered ≠ [] ∧ r.session.currentAttempt dg now true = some (some a)
    | .error _ => ∃ k, r.session = { p with cursor := k }

/-- A candidate that was rejected before has left its own place. -/
theorem Reserved.Locates.rejected {r : Reserved} {before now : WalkSeg × Nat}
    (here : p.plan.candidateAt last.1 last.2 = some c)
    (later : r.Locates dg { p with cursor := k } last now) :
    Locates dg p before now { r with offered := p.plan.projectCandidate dg c :: r.offered } := by
  refine ⟨.inr ?_, ?_⟩
  · rcases later.place with ⟨none, rfl⟩ | ⟨c', here', final⟩
    · exact ⟨c, here, by simp [none]⟩
    · exact ⟨c', here', by rw [getLast?_cons, final]; rfl⟩
  · rcases r with ⟨_ | _, offered, session⟩
    · exact later.result
    · exact ⟨cons_ne_nil _ _, later.result.2⟩

namespace SelectSession

variable (dg) (answers : Nat → Bool) (p) (last)

theorem reserveLoop_last (fuel : Nat) :
    (p.reserveLoop dg fuel answers).Locates dg p last (p.lastLoop fuel answers last) := by
  induction fuel generalizing answers p last with
  | zero => exact ⟨.inl ⟨rfl, rfl⟩, _, rfl⟩
  | succ fuel ih =>
    unfold reserveLoop lastLoop
    rcases found : p.plan.next p.cursor with ⟨_ | c, k⟩
    · exact ⟨.inl ⟨rfl, rfl⟩, k, rfl⟩
    have here := next_place found
    cases answers 0 with
    | true => exact ⟨.inr ⟨c, here, rfl⟩, by simp [currentAttempt, settle, here]⟩
    | false =>
      simp only [Bool.false_eq_true, if_false]
      exact .rejected here (ih { p with cursor := k } _ fun i => answers (i + 1))

theorem reserve_last : (p.reserve dg answers).Locates dg p last (p.lastAfter answers last) := by
  unfold reserve lastAfter
  split
  · exact ⟨.inl ⟨rfl, rfl⟩, _, rfl⟩
  split
  · exact ⟨.inl ⟨rfl, rfl⟩, _, rfl⟩
  · exact reserveLoop_last ..

end SelectSession

/-- Reservations one after the other: the session with its `last` fields, what it returned last,
and whether a candidate has been rejected since. -/
structure CurrentRun where
  session : SelectSession
  last : WalkSeg × Nat := (.primary, 0)
  lastValid : Bool := false
  settled : Option Attempt := none
  rejected : Bool := false

namespace CurrentRun

def reserve (dg : Digests) (r : CurrentRun) (answers : Nat → Bool) : CurrentRun :=
  let reserved := r.session.reserve dg answers
  let last := r.session.lastAfter answers r.last
  match reserved.result with
  | .ok a => ⟨reserved.session, last, true, some a, false⟩
  | .error _ =>
    { r with
      session := reserved.session
      last
      rejected := r.rejected || !reserved.offered.isEmpty }

def run (dg : Digests) (p : SelectSession) (calls : List (Nat → Bool)) : CurrentRun :=
  calls.foldl (reserve dg) { session := p }

def currentAttempt (dg : Digests) (r : CurrentRun) : Option (Option Attempt) :=
  r.session.currentAttempt dg r.last r.lastValid

def Current (dg : Digests) (r : CurrentRun) : Prop :=
  r.settled = none ∨ r.rejected = false → r.currentAttempt dg = r.settled.map some

variable {r : CurrentRun}

theorem Current.reserve (current : r.Current dg) (answers : Nat → Bool) :
    (r.reserve dg answers).Current dg := by
  have located := r.session.reserve_last dg r.last answers
  unfold CurrentRun.reserve
  generalize r.session.reserve dg answers = reserved at located
  rcases reserved with ⟨_ | a, offered, session⟩
  · obtain ⟨place, k, rfl⟩ := located
    rintro (unsettled | clean)
    · change r.settled = none at unsettled
      have none := current (.inl unsettled)
      simpa [CurrentRun.currentAttempt, SelectSession.currentAttempt, unsettled] using none
    · obtain ⟨unrejected, none⟩ := Bool.or_eq_false_iff.mp clean
      obtain ⟨-, stays⟩ | ⟨c, -, final⟩ := place
      · rw [CurrentRun.currentAttempt, stays]
        exact current (.inr unrejected)
      · simp_all
  · exact fun _ => located.result.2

/-- The account of the settled attempt does not come up again, and after a rejection the place is
that of another account. -/
structure Passed (r : CurrentRun) : Prop where
  walking : r.session.Walking
  apart : ∀ a, r.settled = some a → a.accountID ∉ r.session.upcoming.map (·.accountID) ∧
    ∃ c, r.session.plan.candidateAt r.last.1 r.last.2 = some c ∧
      (r.rejected = true → c.accountID ≠ a.accountID)

theorem Passed.reserve (passed : r.Passed) (answers : Nat → Bool) :
    (r.reserve dg answers).Passed := by
  have located := r.session.reserve_last dg r.last answers
  have reserves := reserve_reserves dg answers passed.walking
  unfold CurrentRun.reserve
  generalize r.session.reserve dg answers = reserved at located reserves
  obtain ⟨samePlan, walking, ⟨taken, left, offered⟩, -⟩ := reserves
  have accounts : r.session.upcoming.map (·.accountID) =
      taken.map (·.accountID) ++ reserved.session.upcoming.map (·.accountID) := by
    rw [left, map_append]
  have lastTaken : ∀ c, reserved.offered.getLast? = some (r.session.plan.projectCandidate dg c) →
      c.accountID ∈ taken.map (·.accountID) := by
    intro c final
    rw [offered, getLast?_map] at final
    obtain ⟨c', final, same⟩ := Option.map_eq_some_iff.mp final
    have account := congrArg CompiledCandidate.accountID same
    simp only [projectCandidate_accountID] at account
    exact account ▸ mem_map_of_mem (mem_of_getLast? final)
  rcases reserved with ⟨_ | a, offers, session⟩
  · refine ⟨walking, fun a settled => ?_⟩
    obtain ⟨gone, c, here, distinct⟩ := passed.apart a settled
    rw [accounts, mem_append, not_or] at gone
    refine ⟨gone.2, ?_⟩
    rw [samePlan]
    rcases located.place with ⟨none, stays⟩ | ⟨c', here', final⟩
    · rw [stays]
      exact ⟨c, here, fun rejected => distinct (by simpa [show offers = [] from none] using rejected)⟩
    · exact ⟨c', here', fun _ same => gone.1 (same ▸ lastTaken c' final)⟩
  · obtain ⟨some, current⟩ := located.result
    obtain ⟨c, here, final⟩ := located.place.resolve_left fun idle => some idle.1
    rw [← samePlan] at here
    have once := passed.walking.ready.once
    change (r.session.upcoming.map (·.accountID)).Nodup at once
    rw [accounts, nodup_append] at once
    refine ⟨walking, fun _ settled => ?_⟩
    cases settled
    refine ⟨fun again => once.2.2 _ (lastTaken c final) _ again ?_, c, here, nofun⟩
    exact (currentAttempt_account current here).symm

variable (dg) (calls : List (Nat → Bool))

theorem run_current (unused : p.attempted = []) : (run dg p calls).Current dg := by
  unfold run
  refine foldlRecOn calls _ (motive := Current dg) (fun _ => ?_) fun _ current answers _ =>
    current.reserve answers
  simp [CurrentRun.currentAttempt, SelectSession.currentAttempt, unused]

theorem run_passed (walking : p.Walking) : (run dg p calls).Passed := by
  refine foldlRecOn calls _ ⟨walking, fun _ settled => ?_⟩ fun _ passed answers _ =>
    passed.reserve answers
  cases settled

end CurrentRun

open CurrentRun

/-- The attempt that a reservation returned last is current until a later call rejects a
candidate, and no longer when the candidates are of distinct accounts. -/
theorem currentAttempt_settled (dg : Digests) (identity : AttemptPlanIdentity) (d : RouteDecision)
    (affinity : Option UInt64) (calls : List (Nat → Bool)) {p : SelectSession}
    (made : newSelectSession identity d = .ok p) :
    let q := p.arm affinity
    let r := run dg q calls
    (r.settled = none ∨ r.rejected = false → r.currentAttempt dg = r.settled.map some) ∧
      ((q.plan.virtualOrder.map (·.accountID)).Nodup →
        r.currentAttempt dg = r.settled.map some → r.settled = none ∨ r.rejected = false) := by
  obtain ⟨planned, started, unused, -⟩ := newSelectSession_armed affinity made
  refine ⟨run_current dg calls unused, fun once current => ?_⟩
  have passed := run_passed dg calls (walking_of_start planned started once)
  cases settled : (run dg (p.arm affinity) calls).settled with
  | none => exact .inl rfl
  | some a =>
    obtain ⟨-, c, here, distinct⟩ := passed.apart a settled
    rw [settled] at current
    have same := currentAttempt_account current here
    exact .inr (Bool.eq_false_iff.mpr fun rejected => distinct rejected same.symm)

def twoPrimaries : RouteDecision where
  format := .openAIChat
  requestedModel := "m"
  routeClassID := "r"
  callerCategory := .chat
  operationTag := .chatCompletions
  primary := [1, 2].map fun id => compileCandidate .primary (plainCandidate id)

theorem currentAttempt_settled_second :
    ∃ p, newSelectSession {} twoPrimaries = .ok p ∧
      (let r := run noDigests p [(· == 1), fun _ => true]
      r.settled.map (·.accountID) = some 2 ∧ r.currentAttempt noDigests = r.settled.map some) ∧
      let r := run noDigests p [fun _ => true, fun _ => false]
      r.settled.isSome ∧ r.currentAttempt noDigests ≠ r.settled.map some := by
  refine ⟨_, rfl, ⟨by decide +kernel, ?_⟩, by decide +kernel, fun current => ?_⟩
  · exact (currentAttempt_settled noDigests {} twoPrimaries none _ rfl).1 (.inr (by decide +kernel))
  · have wrong := (currentAttempt_settled noDigests {} twoPrimaries none _ rfl).2 (by decide +kernel)
      current
    revert wrong
    decide +kernel

theorem rejected_candidate_current :
    ∃ p, newSelectSession {} twoPrimaries = .ok p ∧
      let r := run noDigests p [fun _ => true, fun _ => false]
      r.settled.map (·.accountID) = some 1 ∧
        (r.currentAttempt noDigests).map (·.map (·.accountID)) = some (some 2) :=
  ⟨_, rfl, by decide +kernel⟩

end C3Api.Scheduler
