import C3Api.Proxy.Failover
import C3Api.Proxy.WsReport

/-!
# Accounting for relayed sessions

The end of a relayed session reports an outcome, and only an outcome that passes its
checks is handed to `finish`, which logs the session and gives its lease back. The counts
of the outcome come from the upstream. A count below zero fails the checks: the session
leaves no log, and its lease stays out unless it is the first attempt's, which
`leaseGuard` returns when the handler ends.
-/

namespace C3Api.Proxy

open Machine AttemptOutcome Failover

/-- The answer of an attempt whose session was relayed; `finish` gives back the lease. -/
def relayedCall (finished : Option Routed) : CallResult where
  code := 0
  handled := true
  released := finished.isSome

/-- The leases that are out when the handler has returned: `leaseGuard` holds the first
selection only. -/
def Failover.leaked (f : Failover) (sel : Selection) (attempt : Scheduler.Attempt) : List Nat :=
  (heldAfter [0] (f.failoverLoopWithPlan sel attempt)).filter (· ≠ 0)

/-- A session is handed to `finish` once, and the request that it served holds no lease at its
end, in whichever attempt it was served, exactly when a binding fails or the report passes its
checks: the attempt is identified, and no count completed last and no time is negative. -/
theorem session_accounted (cfg : RelayConfig) (g : ConcurrencyGate) (now : Int) (s : Session) :
    ((relayWS cfg g now s).toList.length = 1 ∧
      ∀ (f : Failover) (sel : Selection) (attempt : Scheduler.Attempt),
        (∀ n, (f.call n).handled = true → f.call n = relayedCall (relayWS cfg g now s)) →
        heldAfter [0] (f.failoverLoopWithPlan sel attempt) = []) ↔
      s.BindFails cfg ∨ s.Passes cfg := by
  rw [← relayWS_isSome_iff cfg g now s]
  constructor
  · rintro ⟨logged, -⟩
    cases finished : relayWS cfg g now s with
    | none => simp [finished] at logged
    | some routed => rfl
  · intro finished
    refine ⟨?_, fun f sel attempt served => ?_⟩
    · obtain ⟨routed, found⟩ := Option.isSome_iff_exists.mp finished
      rw [found]
      rfl
    · refine heldAfter_rounds ?_ _ 0 ⟨0, sel, attempt⟩
      intro n handled
      rw [served n handled]
      exact finished

def servedSecond (finished : Option Routed) : Failover :=
  twoAttempts fun n => if n = 0 then { code := 429 } else relayedCall finished

def minusOneToken : Bytes :=
  bytes "\x7b\"type\":\"response.completed\",\"response\":\x7b\"usage\":\x7b\"input_tokens\":-1\x7d\x7d\x7d"

/-- One round that reports a negative count, closed normally by upstream. -/
def negativeRound : Session where
  frames := [{ data := minusOneToken }]
  upClose := some 1000

/-- The negative count leaves the session without a log and the second account's lease
out. -/
theorem negative_count_unaccounted :
    relayWS plainRelay emptyGate 0 negativeRound = none ∧
      (servedSecond (relayWS plainRelay emptyGate 0 negativeRound)).leaked {}
        plainAttempt = [1] := by
  have refused : (relayWS plainRelay emptyGate 0 negativeRound).isNone = true := by
    decide +kernel
  rw [Option.isNone_iff_eq_none] at refused
  rw [refused]
  exact ⟨rfl, by decide +kernel⟩

end C3Api.Proxy
