import C3Api.Machine.Binary64
import Mathlib.Data.List.Sort

/-!
# Quality statistics of candidates

`quality_stats.go`, `quality_classify.go` and `quality_explore.go`: confidence intervals
from the counts of a window, the three lanes they put a candidate in, the weighted table
that exploration draws from and the order of its fallbacks.
-/

namespace C3Api.Scheduler

open Machine List

inductive QualityError where
  | invalidQualityStats | qualityOverflow | duplicateQualityCandidate
  deriving DecidableEq

theorem map_ok {E A B : Type} {x : Except E A} {f : A → B} {b : B} (mapped : x.map f = .ok b) :
    ∃ a, x = .ok a ∧ f a = b := by
  cases x with
  | error e => cases mapped
  | ok a => exact ⟨a, rfl, Except.ok.inj mapped⟩

theorem ok_of_toOption {E A : Type} {x : Except E A} {a : A} (found : x.toOption = some a) :
    x = .ok a := by
  cases x with
  | error e => cases found
  | ok b => exact congrArg Except.ok (Option.some.inj found)

def compareInt64 (left right : Int) : Int :=
  if left < right then -1 else if right < left then 1 else 0

section

variable {F : Type} [Binary64 F]

open Binary64

def wilsonZ : F := 1.959963984540054

def ttftZ : F := 1.96

structure Interval (F : Type) where
  lcb : F
  ucb : F

def wilson95 (successes attempts : Int) : Interval F :=
  if attempts ≤ 0 then ⟨ofInt 0, ofInt 0⟩
  else
    let successes := if successes < 0 then 0 else successes
    let successes := if attempts < successes then attempts else successes
    let n : F := ofInt attempts
    let p : F := ofInt successes / n
    let z2 : F := wilsonZ * wilsonZ
    let denom := ofInt 1 + z2 / n
    let center := p + z2 / (ofInt 2 * n)
    let variance := p * (ofInt 1 - p) / n + z2 / (ofInt 4 * n * n)
    let variance := if lt variance (ofInt 0) then ofInt 0 else variance
    let margin := wilsonZ * sqrt variance
    let lcb := (center - margin) / denom
    let ucb := (center + margin) / denom
    ⟨if lt lcb (ofInt 0) then ofInt 0 else lcb, if lt (ofInt 1) ucb then ofInt 1 else ucb⟩

def finiteNonnegative (value : F) : Bool := le (ofInt 0) value && isFinite value

def logTTFTInterval (sumLog sumSq : F) (n : Int) : Option (Interval F) :=
  if n < 30 || !finiteNonnegative sumLog || !finiteNonnegative sumSq then none
  else
    let mean := sumLog / ofInt n
    let variance := (sumSq - ofInt n * mean * mean) / ofInt (n - 1)
    if !isFinite variance then none
    else
      let variance := if lt variance (ofInt 0) then ofInt 0 else variance
      let half := ttftZ * sqrt variance / sqrt (ofInt n)
      let interval : Interval F := ⟨exp (mean - half), exp (mean + half)⟩
      if !isFinite interval.lcb || !isFinite interval.ucb then none else some interval

end

structure Counts (F : Type) where
  attempts : Int
  successes : Int
  sumLog : F
  sumSq : F
  ttftCount : Int

def Counts.zero {F : Type} [Binary64 F] : Counts F :=
  ⟨0, 0, Binary64.ofInt 0, Binary64.ofInt 0, 0⟩

structure QualityCandidate (F : Type) where
  accountID : Int
  successes : Int
  attempts : Int
  sumLog : F
  sumSq : F
  ttftCount : Int
  cost : Int

structure ClassifiedCandidate (F : Type) where
  candidate : QualityCandidate F
  success : Interval F
  ttft : Interval F

structure QualityClassification (F : Type) where
  primary : List (QualityCandidate F) := []
  degraded : List (QualityCandidate F) := []
  explore : List (QualityCandidate F) := []

section

variable {F : Type} [Binary64 F]

open Binary64

def validQualityCandidate (c : QualityCandidate F) : Bool :=
  0 ≤ c.attempts && 0 ≤ c.successes && c.successes ≤ c.attempts && 0 ≤ c.ttftCount &&
    finiteNonnegative c.sumLog && finiteNonnegative c.sumSq

/-- The interval of a candidate whose check passed, and nothing for any other. -/
def ttftOf (c : QualityCandidate F) : Interval F :=
  (logTTFTInterval c.sumLog c.sumSq c.ttftCount).getD ⟨ofInt 0, ofInt 0⟩

def comparePrimary (left right : QualityCandidate F) : Int :=
  let leftSuccess : Interval F := wilson95 left.successes left.attempts
  let rightSuccess : Interval F := wilson95 right.successes right.attempts
  if left.cost ≠ right.cost then (if left.cost < right.cost then -1 else 1)
  else if ne leftSuccess.lcb rightSuccess.lcb then
    (if lt rightSuccess.lcb leftSuccess.lcb then -1 else 1)
  else if ne (ttftOf left).ucb (ttftOf right).ucb then
    (if lt (ttftOf left).ucb (ttftOf right).ucb then -1 else 1)
  else compareInt64 left.accountID right.accountID

def compareDegraded (bestLCB fastestUCB : F) (left right : QualityCandidate F) : Int :=
  let leftSuccess : Interval F := wilson95 left.successes left.attempts
  let rightSuccess : Interval F := wilson95 right.successes right.attempts
  let leftGap := max (ofInt 0) (bestLCB - leftSuccess.ucb)
  let rightGap := max (ofInt 0) (bestLCB - rightSuccess.ucb)
  let leftSlow := max (ofInt 0) ((ttftOf left).lcb - fastestUCB)
  let rightSlow := max (ofInt 0) ((ttftOf right).lcb - fastestUCB)
  if ne leftGap rightGap then (if lt leftGap rightGap then -1 else 1)
  else if ne leftSlow rightSlow then (if lt leftSlow rightSlow then -1 else 1)
  else if left.cost ≠ right.cost then (if left.cost < right.cost then -1 else 1)
  else compareInt64 left.accountID right.accountID

def sortQualityByAccountID (candidates : List (QualityCandidate F)) : List (QualityCandidate F) :=
  candidates.insertionSort fun left right => compareInt64 left.accountID right.accountID ≤ 0

/-- The first loop of `ClassifyQuality`: candidates with enough samples, with their
intervals, and those to explore. -/
def gather : List (QualityCandidate F) →
    Except QualityError (List (ClassifiedCandidate F) × List (QualityCandidate F))
  | [] => .ok ([], [])
  | c :: rest =>
    if !validQualityCandidate c then .error .invalidQualityStats
    else if c.attempts < 30 || c.ttftCount < 30 then
      (gather rest).map fun r => (r.1, c :: r.2)
    else
      match logTTFTInterval c.sumLog c.sumSq c.ttftCount with
      | none => .error .invalidQualityStats
      | some ttft =>
        (gather rest).map fun r => (⟨c, wilson95 c.successes c.attempts, ttft⟩ :: r.1, r.2)

def bestLCB (first : ClassifiedCandidate F) (rest : List (ClassifiedCandidate F)) : F :=
  rest.foldl (fun best c => if lt best c.success.lcb then c.success.lcb else best)
    first.success.lcb

def successEquivalent (best : F) (c : ClassifiedCandidate F) : Bool := le best c.success.ucb

def fastestUCB (best : F) (workspace : List (ClassifiedCandidate F)) : F :=
  workspace.foldl (fun fastest c =>
    if successEquivalent best c && lt c.ttft.ucb fastest then c.ttft.ucb else fastest) infinity

def isPrimary (best fastest : F) (c : ClassifiedCandidate F) : Bool :=
  successEquivalent best c && le c.ttft.lcb fastest

def classifyQuality (candidates : List (QualityCandidate F)) :
    Except QualityError (QualityClassification F) :=
  (gather candidates).map fun r =>
    match r.1 with
    | [] => { explore := sortQualityByAccountID r.2 }
    | first :: rest =>
      let best := bestLCB first rest
      let fastest := fastestUCB best r.1
      { primary := ((r.1.filter (isPrimary best fastest)).map (·.candidate)).insertionSort
          fun left right => comparePrimary left right ≤ 0
        degraded := ((r.1.filter fun c => !isPrimary best fastest c).map
          (·.candidate)).insertionSort fun left right => compareDegraded best fastest left right ≤ 0
        explore := sortQualityByAccountID r.2 }

def QualityClassification.all (cl : QualityClassification F) : List (QualityCandidate F) :=
  cl.primary ++ cl.degraded ++ cl.explore

variable {candidates : List (QualityCandidate F)}

theorem gather_perm {r : List (ClassifiedCandidate F) × List (QualityCandidate F)}
    (gathered : gather candidates = .ok r) : (r.1.map (·.candidate) ++ r.2).Perm candidates := by
  induction candidates generalizing r with
  | nil =>
    cases Except.ok.inj gathered
    exact .refl _
  | cons c rest ih =>
    unfold gather at gathered
    split at gathered
    · cases gathered
    split at gathered
    · obtain ⟨before, found, rfl⟩ := map_ok gathered
      exact perm_middle.trans (.cons c (ih found))
    · split at gathered
      · cases gathered
      · obtain ⟨before, found, rfl⟩ := map_ok gathered
        exact .cons c (ih found)

/-- No candidate is lost or put in two lanes. -/
theorem classifyQuality_perm {cl : QualityClassification F}
    (classified : classifyQuality candidates = .ok cl) : cl.all.Perm candidates := by
  obtain ⟨r, gathered, rfl⟩ := map_ok classified
  refine List.Perm.trans ?_ (gather_perm gathered)
  cases r.1 with
  | nil => exact perm_insertionSort _ _
  | cons first rest =>
    refine List.Perm.append ?_ (perm_insertionSort _ _)
    apply ((perm_insertionSort _ _).append (perm_insertionSort _ _)).trans
    rw [← map_append]
    exact (filter_append_perm _ _).map _

end

/-- The share of exploration in basis points. The quotient of the source is a float,
whose ceiling is the exact one for any number of candidates that fits in memory. -/
def exploreBP (eligible unknown primaryCount : Nat) : Nat :=
  if eligible = 0 then 0
  else if primaryCount = 0 then 10000
  else if unknown = 0 then 100
  else 100 + min ((400 * unknown + eligible - 1) / eligible) 400

def exploreWeight (successes attempts : Int) : Except QualityError Int :=
  if successes < 0 ∨ attempts < 0 ∨ attempts < successes then .error .invalidQualityStats
  else
    let denominator := attempts + 2
    let weight := (successes + 1) * 10000 / denominator
    let remainder := (successes + 1) * 10000 % denominator
    let weight := if (denominator + 1) / 2 ≤ remainder then weight + 1 else weight
    .ok (if weight < 100 then 100 else weight)

structure ExploreCandidate where
  accountID : Int
  weight : Int

structure ExploreTable where
  candidates : List ExploreCandidate
  cumulative : List Nat
  total : Nat

def accumulate (total : Nat) : List ExploreCandidate → Except QualityError (List Nat × Nat)
  | [] => .ok ([], total)
  | c :: rest =>
    if c.weight < 0 then .error .invalidQualityStats
    else if 18446744073709551616 ≤ total + c.weight.toNat then .error .qualityOverflow
    else
      (accumulate (total + c.weight.toNat) rest).map fun r => ((total + c.weight.toNat) :: r.1, r.2)

def ExploreTable.build (candidates : List ExploreCandidate) : Except QualityError ExploreTable :=
  let sorted := candidates.insertionSort fun left right =>
    compareInt64 left.accountID right.accountID ≤ 0
  (accumulate 0 sorted).map fun r => ⟨sorted, r.1, r.2⟩

structure FallbackCandidate where
  accountID : Int
  successes : Int
  attempts : Int

/-- By the smoothed success ratio, the larger first, then by the attempts. -/
def compareFallback (left right : FallbackCandidate) : Int :=
  let compared := compareInt64 ((left.successes + 1) * (right.attempts + 2))
    ((right.successes + 1) * (left.attempts + 2))
  if compared ≠ 0 then -compared
  else if left.attempts ≠ right.attempts then (if left.attempts < right.attempts then -1 else 1)
  else compareInt64 left.accountID right.accountID

def adjacentEqual : List FallbackCandidate → Bool
  | a :: b :: rest => a.accountID = b.accountID || adjacentEqual (b :: rest)
  | _ => false

def fallbackTail (candidates : List FallbackCandidate) (selectedAccountID : Int) :
    Except QualityError (List FallbackCandidate) :=
  if candidates.any fun c => c.successes < 0 || c.attempts < 0 || c.attempts < c.successes then
    .error .invalidQualityStats
  else
    let sorted := candidates.insertionSort fun left right =>
      compareInt64 left.accountID right.accountID ≤ 0
    if adjacentEqual sorted then .error .duplicateQualityCandidate
    else
      .ok ((sorted.filter fun c => c.accountID ≠ selectedAccountID).insertionSort
        fun left right => compareFallback left right ≤ 0)

end C3Api.Scheduler
