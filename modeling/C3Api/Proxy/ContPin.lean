import C3Api.Continuation.Wire
import C3Api.Proxy.Failover
import C3Api.Scheduler.Selection

/-!
# Pinning a continuation

`contPin` of `proxy/continuation.go` walks the plan of a request until it holds the account that
a binding names. What it passes by is given back and refunded.
-/

namespace C3Api.Proxy

open Scheduler Continuation Failover

/-- What a reservation meets: a view of another generation, or the answers of the gates. -/
structure Gates where
  fenced : Bool
  answers : Nat → Bool

/-- The reservation of one lease, with the session after it. -/
def reservePlanAttempt (dg : Digests) (lease : Nat) (gates : Gates) (plan : SelectSession) :
    List Event × Option Attempt × SelectSession :=
  if gates.fenced then ([], none, plan)
  else
    let r := plan.reserve dg gates.answers
    match r.result with
    | .error _ => ([], none, r.session)
    | .ok attempt =>
      if validateAttempt attempt = .ok () then ([.reserve lease], some attempt, r.session)
      else ([.reserve lease, .release lease], none, r.session)

/-- What the loop did and the lease and attempt it returns, if any. -/
structure Pinned where
  events : List Event
  result : Option (Nat × Attempt)

/-- The loop, on a bound of its rounds; lease `n` is the one it holds. -/
def contPin (dg : Digests) (b : Binding) (gates : Nat → Gates) :
    Nat → Nat → Attempt → SelectSession → Option Pinned
  | 0, _, _, _ => none
  | fuel + 1, n, attempt, plan =>
    if attempt.accountID = b.accountID then
      if JsonText.bytes attempt.candidateFingerprint = Framing.hex b.fingerprint.1 ∧
          attempt.identityRevision = b.identityRevision then some ⟨[], some (n, attempt)⟩
      else some ⟨[.release n], none⟩
    else
      let (events, next, plan) :=
        reservePlanAttempt dg (n + 1) (gates n) plan.abandonLastAttempt
      match next with
      | none => some ⟨.release n :: events, none⟩
      | some attempt =>
        (contPin dg b gates fuel (n + 1) attempt plan).map fun r =>
          { r with events := .release n :: (events ++ r.events) }

/-- A reservation that succeeded: the walk has come nearer to its end, and the attempt has the
number of the session. -/
structure Settles (plan : SelectSession) (attempt : Attempt) (after : SelectSession) : Prop where
  same : after.plan = plan.plan
  fewer : plan.plan.budget after.cursor < plan.plan.budget plan.cursor
  held : after.attempted ≠ []
  number : after.ordinal = plan.ordinal + 1
  ordinal : attempt.ordinal = plan.ordinal + 1

section

variable {dg : Digests} {b : Binding} {gates : Nat → Gates} {plan after : SelectSession}
  {attempt : Attempt} {answers : Nat → Bool} {fuel : Nat}

theorem reserveLoop_settles (ok : (plan.reserveLoop dg fuel answers).result = .ok attempt) :
    Settles plan attempt (plan.reserveLoop dg fuel answers).session := by
  induction fuel generalizing plan answers with
  | zero => cases ok
  | succ fuel ih =>
    unfold SelectSession.reserveLoop at ok ⊢
    split
    next k found =>
      rw [found] at ok
      cases ok
    next c k found =>
      have fewer := SelectPlan.next_fewer found
      rw [found] at ok
      dsimp only at ok ⊢
      split
      next yes =>
        rw [if_pos yes] at ok
        cases ok
        exact ⟨rfl, fewer, List.append_ne_nil_of_right_ne_nil _ (by simp), rfl, rfl⟩
      next no =>
        rw [if_neg no] at ok
        have later := ih ok
        exact ⟨later.same, later.fewer.trans fewer, later.held, later.number, later.ordinal⟩

theorem reserve_settles (ok : (plan.reserve dg answers).result = .ok attempt) :
    Settles plan attempt (plan.reserve dg answers).session := by
  unfold SelectSession.reserve at ok ⊢
  split
  next none =>
    rw [if_pos none] at ok
    cases ok
  next some =>
    rw [if_neg some] at ok
    split
    next spent =>
      rw [if_pos spent] at ok
      cases ok
    next unspent =>
      rw [if_neg unspent] at ok
      exact reserveLoop_settles ok

/-- A lease stays out exactly when an attempt is returned. -/
theorem reservePlanAttempt_spec (dg : Digests) (lease : Nat) (gates : Gates)
    (plan : SelectSession) :
    (∃ after, reservePlanAttempt dg lease gates plan = ([], none, after)) ∨
      (∃ after, reservePlanAttempt dg lease gates plan =
        ([.reserve lease, .release lease], none, after)) ∨
      ∃ attempt after, reservePlanAttempt dg lease gates plan =
        ([.reserve lease], some attempt, after) ∧ Settles plan attempt after := by
  unfold reservePlanAttempt
  split
  · exact .inl ⟨_, rfl⟩
  dsimp only
  split
  · exact .inl ⟨_, rfl⟩
  rename_i attempt ok
  split
  · exact .inr (.inr ⟨attempt, _, rfl, reserve_settles ok⟩)
  · exact .inr (.inl ⟨_, rfl⟩)

theorem contPin_spec (b : Binding) (gates : Nat → Gates) (n : Nat)
    (held : plan.attempted ≠ []) (number : plan.ordinal = attempt.ordinal)
    (positive : 0 < attempt.ordinal) (enough : plan.plan.budget plan.cursor < fuel) :
    ∃ r, contPin dg b gates fuel n attempt plan = some r ∧
      heldAfter [n] r.events = (r.result.map Prod.fst).toList ∧
      ∀ lease pinned, r.result = some (lease, pinned) → pinned.accountID = b.accountID ∧
        JsonText.bytes pinned.candidateFingerprint = Framing.hex b.fingerprint.1 ∧
        pinned.identityRevision = b.identityRevision ∧ pinned.ordinal = attempt.ordinal := by
  -- every round that goes on has moved the cursor of the session
  induction fuel generalizing n plan attempt with
  | zero => omega
  | succ fuel ih =>
    unfold contPin
    split
    next own =>
      split
      next bound =>
        refine ⟨_, rfl, rfl, ?_⟩
        rintro lease pinned ⟨⟩
        exact ⟨own, bound.1, bound.2, rfl⟩
      · refine ⟨_, rfl, by simp [heldAfter, hold], ?_⟩
        rintro lease pinned ⟨⟩
    · have refunded : plan.abandonLastAttempt =
          { plan with attempted := plan.attempted.dropLast, ordinal := plan.ordinal - 1 } :=
        if_neg (by simpa using held)
      rcases reservePlanAttempt_spec dg (n + 1) (gates n) plan.abandonLastAttempt with
        ⟨after, refused⟩ | ⟨after, refused⟩ | ⟨next, after, reserved, settles⟩
      · rw [refused]
        refine ⟨_, rfl, by simp [heldAfter, hold], ?_⟩
        rintro lease pinned ⟨⟩
      · rw [refused]
        refine ⟨_, rfl, by simp [heldAfter, hold], ?_⟩
        rintro lease pinned ⟨⟩
      · rw [reserved]
        obtain ⟨same, fewer, held', number', ordinal⟩ := settles
        rw [refunded] at same fewer number' ordinal
        dsimp only at same fewer number' ordinal
        obtain ⟨r, ran, leases, pins⟩ := ih (n + 1) held' (number'.trans ordinal.symm)
          (by omega) (by rw [same]; omega)
        refine ⟨{ r with events := .release n :: ([.reserve (n + 1)] ++ r.events) },
          congrArg (Option.map _) ran, ?_, ?_⟩
        · simpa [heldAfter, hold] using leases
        intro lease pinned found
        obtain ⟨account, fingerprint, revision, numbered⟩ := pins lease pinned found
        exact ⟨account, fingerprint, revision, by omega⟩

end

/-- Whatever the reservations meet, the loop ends after as many rounds as the plan has turns. It
returns an attempt of the binding with the number of the first one, or nothing, and no other
lease is out. -/
theorem continuation_pinned (dg : Digests) (b : Binding) (gates : Nat → Gates)
    (plan : SelectSession) (answers : Nat → Bool) {attempt : Attempt}
    (reserved : (plan.reserve dg answers).result = .ok attempt) {fuel : Nat}
    (enough : plan.plan.budget plan.cursor ≤ fuel) :
    ∃ r, contPin dg b gates fuel 0 attempt (plan.reserve dg answers).session = some r ∧
      heldAfter [0] r.events = (r.result.map Prod.fst).toList ∧
      ∀ lease pinned, r.result = some (lease, pinned) → pinned.accountID = b.accountID ∧
        JsonText.bytes pinned.candidateFingerprint = Framing.hex b.fingerprint.1 ∧
        pinned.identityRevision = b.identityRevision ∧ pinned.ordinal = attempt.ordinal := by
  obtain ⟨same, fewer, held, number, ordinal⟩ := reserve_settles reserved
  exact contPin_spec b gates 0 held (number.trans ordinal.symm) (by omega) (by rw [same]; omega)

def twoAccounts : SelectSession where
  plan :=
    { identity := {}
      route :=
        { format := .openAIChat
          requestedModel := "m"
          routeClassID := "r"
          callerCategory := .responses
          operationTag := .responses
          primary := [plainCandidate 5, plainCandidate 7].map fun c => compileCandidate .primary
            { c with fingerprint := String.ofList (List.replicate 64 '0') } }
      generation := 1
      maxAttempts := 1
      sampleIdx := none
      exploreFirst := false
      total := 2 }
  cursor := {}

theorem continuation_pinned_two :
    ∃ attempt r pinned, (twoAccounts.reserve noDigests fun _ => true).result = .ok attempt ∧
      contPin noDigests ⟨7, zeroDigest, 1, true⟩ (fun _ => ⟨false, fun _ => true⟩) 9 0 attempt
        (twoAccounts.reserve noDigests fun _ => true).session = some r ∧
      r.result = some (1, pinned) ∧ heldAfter [0] r.events = [1] ∧ pinned.accountID = 7 := by
  obtain ⟨r, ran, leases, pins⟩ := continuation_pinned noDigests ⟨7, zeroDigest, 1, true⟩
    (fun _ => ⟨false, fun _ => true⟩) twoAccounts (fun _ => true) rfl (by decide : _ ≤ 9)
  have first : (some r).bind (fun r => r.result.map Prod.fst) = some 1 := by
    rw [← ran]
    decide +kernel
  obtain ⟨⟨lease, pinned⟩, result, rfl⟩ := Option.map_eq_some_iff.mp first
  exact ⟨_, r, pinned, rfl, ran, result, by rw [leases, result]; rfl, (pins _ _ result).1⟩

end C3Api.Proxy
